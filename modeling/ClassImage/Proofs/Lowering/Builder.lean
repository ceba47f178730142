import ClassImage.Format.Builder
import ClassImage.Proofs.Lists

/-!
A builder is told by its tables. Its maps are in step with the tables if each
finds just what a search would find, types by the index of their descriptors.
Whatever is interned then, the builder gives the same index as the search and ends
with the same tables, and its maps are in step again. This holds as long as there
are indices for all texts: a type is known by its descriptor, and a search finds it
by the index of that text.
-/

namespace ClassImage

namespace Pool

/-- Every table of the pool is the beginning of the final one. -/
structure Within (pool final : Pool) : Prop where
  texts : pool.texts.toList <+: final.texts.toList
  types : pool.types.toList <+: final.types.toList
  protos : pool.protos.toList <+: final.protos.toList
  fields : pool.fields.toList <+: final.fields.toList
  methods : pool.methods.toList <+: final.methods.toList

theorem Within.refl (pool : Pool) : pool.Within pool :=
  ⟨List.prefix_rfl, List.prefix_rfl, List.prefix_rfl, List.prefix_rfl, List.prefix_rfl⟩

theorem Within.trans {first second third : Pool} (left : first.Within second)
    (right : second.Within third) : first.Within third :=
  ⟨left.texts.trans right.texts, left.types.trans right.types, left.protos.trans right.protos,
    left.fields.trans right.fields, left.methods.trans right.methods⟩

section Search

variable {α : Type} [DecidableEq α] {entries : Array α} {entry : α}

/-- The index at which a table has an entry first. -/
def search (entries : Array α) (entry : α) : Option UInt32 := (entries.idxOf? entry).map UInt32.ofNat

theorem intern_of_found {index : UInt32} (found : search entries entry = some index) :
    intern entries entry = (index, entries) := by
  obtain ⟨place, here, rfl⟩ := Option.map_eq_some_iff.mp found
  rw [intern, here]

theorem intern_of_absent (absent : search entries entry = none) :
    intern entries entry = (UInt32.ofNat entries.size, entries.push entry) := by
  rw [intern, Option.map_eq_none_iff.mp absent]

theorem search_eq_none : search entries entry = none ↔ entry ∉ entries := by
  rw [search, Option.map_eq_none_iff, Array.idxOf?_eq_none_iff]

theorem search_push {added : α} (absent : search entries added = none) (entry : α) :
    search (entries.push added) entry =
      if entry = added then some (UInt32.ofNat entries.size) else search entries entry := by
  rw [search, Array.idxOf?_push]
  by_cases same : entry = added
  · rw [same, Option.map_eq_none_iff.mp absent]
    simp
  · simp [same, search]

theorem search_lt {index : UInt32} (found : search entries entry = some index) :
    index.toNat < entries.size := by
  obtain ⟨place, here, rfl⟩ := Option.map_eq_some_iff.mp found
  rw [UInt32.toNat_ofNat']
  exact (Nat.mod_le _ _).trans_lt (Array.idxOf?_lt here)

theorem getElem?_search {index : UInt32} (few : entries.size ≤ 2 ^ 32)
    (found : search entries entry = some index) : entries[index.toNat]? = some entry := by
  obtain ⟨place, here, rfl⟩ := Option.map_eq_some_iff.mp found
  have inside := Array.idxOf?_lt here
  obtain ⟨front, rest, split, rfl, -⟩ := Array.idxOf?_split here
  rw [UInt32.toNat_ofNat', Nat.mod_eq_of_lt (by omega), ← Array.getElem?_toList, split,
    List.getElem?_append_right le_rfl, Nat.sub_self]
  rfl

theorem search_inj {other : α} {index : UInt32} (few : entries.size ≤ 2 ^ 32)
    (here : search entries entry = some index) (there : search entries other = some index) :
    entry = other :=
  Option.some.inj ((getElem?_search few here).symm.trans (getElem?_search few there))

theorem search_intern (entries : Array α) (entry : α) :
    search (intern entries entry).2 entry = some (intern entries entry).1 := by
  cases found : search entries entry with
  | some index =>
    rw [intern_of_found found]
    exact found
  | none => rw [intern_of_absent found, search_push found, if_pos rfl]

/-- An index that was handed out finds its entry in every small table that begins as the table did. -/
theorem getElem?_intern {final : Array α} (within : (intern entries entry).2.toList <+: final.toList)
    (small : final.size < 2 ^ 32) : final[(intern entries entry).1.toNat]? = some entry := by
  have few : (intern entries entry).2.size ≤ 2 ^ 32 := within.length_le.trans small.le
  have here := getElem?_search few (search_intern entries entry)
  rw [← Array.getElem?_toList] at here ⊢
  obtain ⟨inside, same⟩ := List.getElem?_eq_some_iff.mp here
  rw [List.prefix_iff_getElem?.mp within _ inside, same]

theorem run_internText (text : String) (pool : Pool) : (internText text).run pool =
    ((intern pool.texts text).1, { pool with texts := (intern pool.texts text).2 }) := rfl

theorem run_internType (descriptor : String) (pool : Pool) : (internType descriptor).run pool =
    ((intern ((internText descriptor).run pool).2.types ((internText descriptor).run pool).1).1,
      { ((internText descriptor).run pool).2 with
        types := (intern ((internText descriptor).run pool).2.types
          ((internText descriptor).run pool).1).2 }) := rfl

theorem prefix_intern (entries : Array α) (entry : α) :
    entries.toList <+: (intern entries entry).2.toList := by
  unfold intern
  split
  · exact List.prefix_rfl
  · exact Array.prefix_push _ _

end Search

namespace Builder

/-- Every map finds what a search of its table finds. A type is searched by the index of its text, and
no type has a text that is yet to come. -/
structure InStep (builder : Builder) : Prop where
  texts : ∀ text, builder.texts.find? text = search builder.pool.texts text
  types : ∀ descriptor, builder.types.find? descriptor =
    (search builder.pool.texts descriptor).bind (search builder.pool.types)
  named : ∀ text ∈ builder.pool.types, text.toNat < builder.pool.texts.size
  protos : ∀ proto, builder.protos.find? proto = search builder.pool.protos proto
  fields : ∀ field, builder.fields.find? field = search builder.pool.fields field
  methods : ∀ method, builder.methods.find? method = search builder.pool.methods method

theorem InStep.empty : ({} : Builder).InStep := by
  constructor <;> simp [search]

theorem run_internText (text : String) (builder : Builder) : (internText text).run builder =
    ((intern builder.pool.texts builder.texts text).1, { builder with
      pool := { builder.pool with texts := (intern builder.pool.texts builder.texts text).2.1 }
      texts := (intern builder.pool.texts builder.texts text).2.2 }) := rfl

theorem run_internText_known {builder : Builder} {text : String} {index : UInt32}
    (known : builder.texts.find? text = some index) :
    (internText text).run builder = (index, builder) := by
  rw [run_internText, intern, known]

theorem run_internText_new {builder : Builder} {text : String}
    (missing : builder.texts.find? text = none) :
    (internText text).run builder = (UInt32.ofNat builder.pool.texts.size, { builder with
      pool := { builder.pool with texts := builder.pool.texts.push text }
      texts := builder.texts.insert text (UInt32.ofNat builder.pool.texts.size) }) := by
  rw [run_internText, intern, missing]
  rfl

theorem find?_internText (builder : Builder) (text : String) :
    ((internText text).run builder).2.texts.find? text = some ((internText text).run builder).1 := by
  cases found : builder.texts.find? text with
  | some index =>
    rw [run_internText_known found]
    exact found
  | none =>
    rw [run_internText_new found, Lookup.find?_insert, if_pos rfl]

theorem run_internType (descriptor : String) (builder : Builder) :
    (internType descriptor).run builder =
      (match builder.types.find? descriptor with
      | some index => return index
      | none => internText descriptor >>= enterType descriptor : StateM Builder UInt32).run builder := rfl

theorem run_internType_known {builder : Builder} {descriptor : String} {index : UInt32}
    (known : builder.types.find? descriptor = some index) :
    (internType descriptor).run builder = (index, builder) := by
  rw [run_internType, known]
  rfl

theorem run_internType_new {builder : Builder} {descriptor : String}
    (missing : builder.types.find? descriptor = none) :
    (internType descriptor).run builder =
      (enterType descriptor ((internText descriptor).run builder).1).run
        ((internText descriptor).run builder).2 := by
  rw [run_internType, missing]
  rfl

section Table

variable {α : Type} [DecidableEq α] {entries : Array α} {known : Lookup α UInt32}

theorem prefix_internTable (entries : Array α) (known : Lookup α UInt32) (entry : α) :
    entries.toList <+: (intern entries known entry).2.1.toList := by
  unfold intern
  split
  · exact List.prefix_rfl
  · exact Array.prefix_push _ _

/-- One table with its map: the index and the table are those of the search. -/
theorem intern_search (inStep : ∀ entry, known.find? entry = search entries entry) (entry : α) :
    Pool.intern entries entry = ((intern entries known entry).1, (intern entries known entry).2.1) ∧
      ∀ other, (intern entries known entry).2.2.find? other =
        search (intern entries known entry).2.1 other := by
  cases found : search entries entry with
  | some index =>
    rw [intern, inStep, found]
    exact ⟨intern_of_found found, inStep⟩
  | none =>
    rw [intern, inStep, found]
    refine ⟨intern_of_absent found, ?_⟩
    intro other
    rw [enter, Lookup.find?_insert, search_push found, inStep]

end Table

/-- On a builder in step, the action does to the pool what the search does, and the builder stays in
step, unless there come to be more texts than indices. -/
structure Mirrors (action : StateM Builder α) (searched : StateM Pool α) : Prop where
  grows : ∀ builder : Builder, builder.pool.Within (action.run builder).2.pool
  searchGrows : ∀ pool : Pool, pool.Within (searched.run pool).2
  same : ∀ builder : Builder, builder.InStep →
    ((action.run builder).2.pool.texts.size ≤ 2 ^ 32 ∨
      (searched.run builder.pool).2.texts.size ≤ 2 ^ 32) →
    searched.run builder.pool = ((action.run builder).1, (action.run builder).2.pool) ∧
      (action.run builder).2.InStep

namespace Mirrors

variable {α β : Type}

theorem pure (value : α) : Mirrors (pure value) (pure value) where
  grows _ := .refl _
  searchGrows _ := .refl _
  same _ inStep _ := ⟨rfl, inStep⟩

theorem bind {action : StateM Builder α} {searched : StateM Pool α} {next : α → StateM Builder β}
    {nextSearched : α → StateM Pool β} (first : Mirrors action searched)
    (second : ∀ value, Mirrors (next value) (nextSearched value)) :
    Mirrors (action >>= next) (searched >>= nextSearched) where
  grows builder := (first.grows builder).trans ((second _).grows _)
  searchGrows pool := (first.searchGrows pool).trans ((second _).searchGrows _)
  same builder inStep few := by
    obtain ⟨agree, after⟩ := first.same builder inStep <| few.imp
      ((second _).grows _).texts.length_le.trans ((second _).searchGrows _).texts.length_le.trans
    have whole : (searched >>= nextSearched).run builder.pool =
        (nextSearched (action.run builder).1).run (action.run builder).2.pool := by
      rw [StateT.run_bind, agree]
      rfl
    rw [whole] at few ⊢
    exact (second _).same _ after few

theorem mapM {action : β → StateM Builder α} {searched : β → StateM Pool α} (list : List β)
    (each : ∀ entry, Mirrors (action entry) (searched entry)) :
    Mirrors (list.mapM action) (list.mapM searched) := by
  induction list with
  | nil => exact pure []
  | cons entry rest ih =>
    rw [List.mapM_cons, List.mapM_cons]
    exact (each entry).bind fun value => ih.bind fun values => pure (value :: values)

end Mirrors

/-- A new text gets an index that no type refers to yet. -/
theorem InStep.newText {builder : Builder} (inStep : builder.InStep) {text : String}
    (absent : search builder.pool.texts text = none) (few : builder.pool.texts.size < 2 ^ 32) :
    { builder with
      pool := { builder.pool with texts := builder.pool.texts.push text }
      texts := builder.texts.insert text (UInt32.ofNat builder.pool.texts.size) : Builder }.InStep := by
  have number : (UInt32.ofNat builder.pool.texts.size).toNat = builder.pool.texts.size := by
    rw [UInt32.toNat_ofNat', Nat.mod_eq_of_lt few]
  have fresh : search builder.pool.types (UInt32.ofNat builder.pool.texts.size) = none := by
    rw [search_eq_none]
    intro member
    have inside := inStep.named _ member
    omega
  refine { inStep with texts := ?_, types := ?_, named := ?_ }
  · intro other
    rw [Lookup.find?_insert, search_push absent, inStep.texts]
  · intro descriptor
    simp only [search_push absent, inStep.types]
    by_cases same : descriptor = text
    · simp [same, absent, fresh]
    · simp [same]
  · intro index member
    rw [Array.size_push]
    exact (inStep.named index member).trans (Nat.lt_succ_self _)

theorem mirrors_text (text : String) : Mirrors (internText text) (Pool.internText text) where
  grows builder := { Within.refl builder.pool with texts := prefix_internTable _ _ _ }
  searchGrows pool := { Within.refl pool with texts := prefix_intern _ _ }
  same builder inStep few := by
    have run : (Pool.internText text).run builder.pool =
        (((internText text).run builder).1, ((internText text).run builder).2.pool) := by
      rw [Pool.run_internText, (intern_search inStep.texts text).1]
      rfl
    refine ⟨run, ?_⟩
    rw [run, or_self] at few
    cases found : search builder.pool.texts text with
    | some index =>
      rw [← inStep.texts] at found
      rw [run_internText_known found]
      exact inStep
    | none =>
      have missing := inStep.texts text ▸ found
      rw [run_internText_new missing] at few ⊢
      rw [Array.size_push] at few
      exact inStep.newText found few

/-- A new type is known by its descriptor, and no other type has its text. -/
theorem InStep.newType {builder : Builder} (inStep : builder.InStep) {descriptor : String} {text : UInt32}
    (here : search builder.pool.texts descriptor = some text)
    (absent : search builder.pool.types text = none) (few : builder.pool.texts.size ≤ 2 ^ 32) :
    ((enterType descriptor text).run builder).2.InStep := by
  refine { inStep with types := ?_, named := ?_ }
  · intro other
    change (builder.types.insert _ _).find? other = (search builder.pool.texts other).bind
      (search (builder.pool.types.push text))
    rw [Lookup.find?_insert, inStep.types]
    by_cases same : other = descriptor
    · simp [same, here, search_push absent]
    · rw [if_neg same]
      cases found : search builder.pool.texts other with
      | none => rfl
      | some index =>
        have apart : index ≠ text := fun twin => same (search_inj few found (twin ▸ here))
        simp [search_push absent, apart]
  · intro index member
    rcases Array.mem_push.mp member with member | rfl
    · exact inStep.named index member
    · exact search_lt here

theorem mirrors_type (descriptor : String) :
    Mirrors (internType descriptor) (Pool.internType descriptor) where
  grows builder := by
    cases known : builder.types.find? descriptor with
    | some index =>
      rw [run_internType_known known]
      exact .refl _
    | none =>
      rw [run_internType_new known]
      exact ((mirrors_text descriptor).grows builder).trans { Within.refl _ with types := Array.prefix_push _ _ }
  searchGrows pool := ((mirrors_text descriptor).searchGrows pool).trans
    { Within.refl _ with types := prefix_intern _ _ }
  same builder inStep few := by
    cases known : builder.types.find? descriptor with
    | some index =>
      rw [run_internType_known known]
      obtain ⟨text, here, found⟩ := Option.bind_eq_some_iff.mp ((inStep.types descriptor).symm.trans known)
      refine ⟨?_, inStep⟩
      rw [Pool.run_internType, Pool.run_internText, intern_of_found here, intern_of_found found]
    | none =>
      rw [run_internType_new known] at few ⊢
      obtain ⟨agree, after⟩ := (mirrors_text descriptor).same builder inStep few
      have here := (after.texts descriptor).symm.trans (find?_internText builder descriptor)
      have absent := (after.types descriptor).symm.trans known
      rw [here, Option.bind_some] at absent
      rw [Pool.run_internType, agree] at few ⊢
      rw [intern_of_absent absent]
      exact ⟨rfl, after.newType here absent (few.elim id id)⟩

theorem mirrors_keepProto (proto : Proto) :
    Mirrors (keepProto proto) (modifyGet fun pool =>
      ((Pool.intern pool.protos proto).1,
        { pool with protos := (Pool.intern pool.protos proto).2 })) where
  grows builder := { Within.refl builder.pool with protos := prefix_internTable _ _ _ }
  searchGrows pool := { Within.refl pool with protos := prefix_intern _ _ }
  same builder inStep _ := by
    obtain ⟨agree, protos⟩ := intern_search inStep.protos proto
    refine ⟨?_, { inStep with protos }⟩
    change ((Pool.intern builder.pool.protos proto).1,
      { builder.pool with protos := (Pool.intern builder.pool.protos proto).2 }) = _
    rw [agree]
    rfl

theorem mirrors_keepField (field : FieldRef) :
    Mirrors (keepField field) (modifyGet fun pool =>
      ((Pool.intern pool.fields field).1,
        { pool with fields := (Pool.intern pool.fields field).2 })) where
  grows builder := { Within.refl builder.pool with fields := prefix_internTable _ _ _ }
  searchGrows pool := { Within.refl pool with fields := prefix_intern _ _ }
  same builder inStep _ := by
    obtain ⟨agree, fields⟩ := intern_search inStep.fields field
    refine ⟨?_, { inStep with fields }⟩
    change ((Pool.intern builder.pool.fields field).1,
      { builder.pool with fields := (Pool.intern builder.pool.fields field).2 }) = _
    rw [agree]
    rfl

theorem mirrors_keepMethod (method : MethodRef) :
    Mirrors (keepMethod method) (modifyGet fun pool =>
      ((Pool.intern pool.methods method).1,
        { pool with methods := (Pool.intern pool.methods method).2 })) where
  grows builder := { Within.refl builder.pool with methods := prefix_internTable _ _ _ }
  searchGrows pool := { Within.refl pool with methods := prefix_intern _ _ }
  same builder inStep _ := by
    obtain ⟨agree, methods⟩ := intern_search inStep.methods method
    refine ⟨?_, { inStep with methods }⟩
    change ((Pool.intern builder.pool.methods method).1,
      { builder.pool with methods := (Pool.intern builder.pool.methods method).2 }) = _
    rw [agree]
    rfl

theorem mirrors_proto (result : String) (parameters : List String) :
    Mirrors (internProto result parameters) (Pool.internProto result parameters) :=
  (mirrors_type result).bind fun _ => (Mirrors.mapM parameters mirrors_type).bind fun _ =>
    mirrors_keepProto _

theorem mirrors_field (owner name type : String) :
    Mirrors (internField owner name type) (Pool.internField owner name type) :=
  (mirrors_type owner).bind fun _ => (mirrors_type type).bind fun _ =>
    (mirrors_text name).bind fun _ => mirrors_keepField _

theorem mirrors_method (owner name result : String) (parameters : List String) :
    Mirrors (internMethod owner name result parameters) (Pool.internMethod owner name result parameters) :=
  (mirrors_type owner).bind fun _ => (mirrors_proto result parameters).bind fun _ =>
    (mirrors_text name).bind fun _ => mirrors_keepMethod _

end Builder

end Pool

end ClassImage
