import ClassImage.Program.Lowering
import ClassImage.Proofs.Lowering.Builder
import ClassImage.Proofs.Outcome

/-!
What an index of the pool stands for. The pool only grows while a program is
lowered, so an index that was handed out once has its meaning in the finished
pool, provided the finished pool is small enough for its indices. Statements
about lowering are about the finished pool: a step of lowering that ends within
it also starts within it, and what it returns means there what it should.
-/

namespace ClassImage

namespace Pool

/-- Indices of four bytes reach every entry. -/
structure Small (pool : Pool) : Prop where
  texts : pool.texts.size < 2 ^ 32
  types : pool.types.size < 2 ^ 32
  protos : pool.protos.size < 2 ^ 32
  fields : pool.fields.size < 2 ^ 32
  methods : pool.methods.size < 2 ^ 32

/-- The index stands for a prototype with these texts. -/
def ProtoIs (pool : Pool) (index : UInt32) (result : String) (parameters : List String) : Prop :=
  ∃ proto, pool.proto? index = some proto ∧ pool.type? proto.result = some result ∧
    List.Forall₂ (fun index text => pool.type? index = some text) proto.parameters parameters

def MethodIs (pool : Pool) (index : UInt32) (owner name result : String) (parameters : List String) :
    Prop :=
  ∃ method, pool.method? index = some method ∧ pool.type? method.owner = some owner ∧
    pool.ProtoIs method.proto result parameters ∧ pool.text? method.name = some name

def FieldIs (pool : Pool) (index : UInt32) (owner name type : String) : Prop :=
  ∃ field, pool.field? index = some field ∧ pool.type? field.owner = some owner ∧
    pool.type? field.type = some type ∧ pool.text? field.name = some name

end Pool

namespace Lower

theorem run_bind_ok {action : Lower α} {next : α → Lower β} {builder after : Pool.Builder} {value : β} :
    (action >>= next).run builder = .ok (value, after) ↔
      ∃ first middle, action.run builder = .ok (first, middle) ∧
        (next first).run middle = .ok (value, after) := by
  rw [StateT.run_bind, Except.bind_ok]
  simp only [Prod.exists]

theorem intern_bind (first : StateM Pool.Builder α) (next : α → StateM Pool.Builder β) :
    intern (first >>= next) = intern first >>= fun value => intern (next value) := rfl

theorem intern_mapM (list : List α) (action : α → StateM Pool.Builder β) :
    intern (list.mapM action) = list.mapM fun entry => intern (action entry) := by
  induction list with
  | nil => rfl
  | cons entry rest ih =>
    rw [List.mapM_cons, List.mapM_cons, ← ih]
    rfl

/-- The pool grows. In a small final pool a result means what it should, if the maps are in step with
the tables, and then they stay in step. -/
def Denotes (final : Pool) (action : Lower α) (meaning : α → Prop) : Prop :=
  ∀ builder value after, action.run builder = .ok (value, after) →
    builder.pool.Within after.pool ∧ (builder.InStep → after.pool.Within final → final.Small →
      after.InStep ∧ meaning value)

namespace Denotes

variable {final : Pool} {α β : Type} {meaning : α → Prop}

theorem pure {value : α} (meant : meaning value) : Denotes final (pure value) meaning := by
  rintro builder _ _ ⟨⟩
  exact ⟨.refl builder.pool, fun inStep _ _ => ⟨inStep, meant⟩⟩

theorem imp {action : Lower α} {others : α → Prop} (denotes : Denotes final action meaning)
    (stronger : ∀ value, meaning value → others value) : Denotes final action others := by
  intro builder value after ran
  obtain ⟨grown, meant⟩ := denotes builder value after ran
  exact ⟨grown, fun inStep within small => (meant inStep within small).imp_right (stronger value)⟩

theorem bind {action : Lower α} {next : α → Lower β} {last : β → Prop}
    (first : Denotes final action meaning)
    (second : ∀ value, Denotes final (next value) fun result => meaning value → last result) :
    Denotes final (action >>= next) last := by
  intro builder value after ran
  obtain ⟨result, middle, head, tail⟩ := run_bind_ok.mp ran
  obtain ⟨grown, meant⟩ := first builder result middle head
  obtain ⟨onward, means⟩ := second result middle value after tail
  refine ⟨grown.trans onward, ?_⟩
  intro inStep within small
  obtain ⟨inStep, here⟩ := meant inStep (onward.trans within) small
  obtain ⟨inStep, there⟩ := means inStep within small
  exact ⟨inStep, there here⟩

theorem mapM {list : List β} {action : β → Lower α} {meaning : β → α → Prop}
    (each : ∀ entry ∈ list, Denotes final (action entry) (meaning entry)) :
    Denotes final (list.mapM action) (List.Forall₂ meaning list) := by
  induction list with
  | nil => exact pure .nil
  | cons entry rest ih =>
    rw [List.mapM_cons]
    refine (each entry (by simp)).bind fun value => ?_
    refine (ih fun other member => each other (by simp [member])).bind fun values => ?_
    exact pure fun all first => .cons first all

/-- What a search gives means in the final pool is what the builder gives. -/
theorem of_mirrors {action : StateM Pool.Builder α} {searched : StateM Pool α}
    (mirrors : Pool.Builder.Mirrors action searched)
    (means : ∀ pool : Pool, (searched.run pool).2.Within final → final.Small →
      meaning (searched.run pool).1) :
    Denotes final (intern action) meaning := by
  intro builder value after ran
  obtain ⟨rfl, rfl⟩ := Prod.ext_iff.mp (Except.ok.inj ran)
  refine ⟨mirrors.grows builder, ?_⟩
  intro inStep within small
  have few := within.texts.length_le.trans small.texts.le
  obtain ⟨agree, after⟩ := mirrors.same builder inStep (.inl few)
  have meant := means builder.pool
  rw [agree] at meant
  exact ⟨after, meant within small⟩

end Denotes

section Interning

open Pool (getElem?_intern)
open Pool.Builder

variable {final : Pool}

theorem denotes_text (text : String) :
    Denotes final (intern (internText text)) fun index => final.text? index = some text :=
  .of_mirrors (mirrors_text text) fun _ within small => getElem?_intern within.texts small.texts

theorem denotes_type (descriptor : String) :
    Denotes final (intern (internType descriptor)) fun index => final.type? index = some descriptor :=
  .of_mirrors (mirrors_type descriptor) fun _ within small => Option.bind_eq_some_iff.mpr
    ⟨_, getElem?_intern within.types small.types, getElem?_intern within.texts small.texts⟩

theorem denotes_proto (result : String) (parameters : List String) :
    Denotes final (intern (internProto result parameters)) fun index =>
      final.ProtoIs index result parameters := by
  rw [internProto, intern_bind]
  refine (denotes_type result).bind fun resultIndex => ?_
  rw [intern_bind, intern_mapM]
  refine (Denotes.mapM fun text _ => denotes_type text).bind fun indices => ?_
  refine .of_mirrors (mirrors_keepProto _) ?_
  intro pool within small meant here
  exact ⟨⟨resultIndex, indices⟩, getElem?_intern within.protos small.protos, here, meant.flip⟩

theorem denotes_field (owner name type : String) :
    Denotes final (intern (internField owner name type)) fun index =>
      final.FieldIs index owner name type := by
  rw [internField, intern_bind]
  refine (denotes_type owner).bind fun ownerIndex => ?_
  rw [intern_bind]
  refine (denotes_type type).bind fun typeIndex => ?_
  rw [intern_bind]
  refine (denotes_text name).bind fun nameIndex => ?_
  refine .of_mirrors (mirrors_keepField _) ?_
  intro pool within small named typed owned
  exact ⟨⟨ownerIndex, typeIndex, nameIndex⟩, getElem?_intern within.fields small.fields, owned, typed, named⟩

theorem denotes_method (owner name result : String) (parameters : List String) :
    Denotes final (intern (internMethod owner name result parameters)) fun index =>
      final.MethodIs index owner name result parameters := by
  rw [internMethod, intern_bind]
  refine (denotes_type owner).bind fun ownerIndex => ?_
  rw [intern_bind]
  refine (denotes_proto result parameters).bind fun protoIndex => ?_
  rw [intern_bind]
  refine (denotes_text name).bind fun nameIndex => ?_
  refine .of_mirrors (mirrors_keepMethod _) ?_
  intro pool within small named typed owned
  exact ⟨⟨ownerIndex, protoIndex, nameIndex⟩, getElem?_intern within.methods small.methods, owned, typed, named⟩

end Interning

end Lower

end ClassImage
