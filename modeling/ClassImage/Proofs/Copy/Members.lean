import ClassImage.Proofs.Copy.Meets
import ClassImage.Proofs.Copy.Symbols
import ClassImage.Proofs.Lowering.Image
import ClassImage.Proofs.Program.Learning
import ClassImage.Proofs.Types.Grammar

/-!
Finding the symbols of an image in the copy. An index that stands for a type or
a member of the original leads to the same type or member of the copy, which is
created when it is missing; the copy goes on following the original.
-/

namespace ClassImage

namespace Program

/-- The descriptors of the program are read back from their texts. -/
structure Readable (program : Program) : Prop where
  types : ∀ entry ∈ program.types, Descriptor.parse entry.descriptor.text = .ok entry.descriptor
  methods : ∀ entry ∈ program.methods, ∀ type ∈ entry.signature.result :: entry.signature.parameters,
    Descriptor.parse type.text = .ok type
  fields : ∀ entry ∈ program.fields, Descriptor.parse entry.type.text = .ok entry.type

/-- The descriptor stands in one of the program's tables. -/
def Involves (program : Program) (descriptor : Descriptor) : Prop :=
  (∃ entry ∈ program.types, entry.descriptor = descriptor) ∨
    (∃ entry ∈ program.methods, descriptor ∈ entry.signature.result :: entry.signature.parameters) ∨
    ∃ entry ∈ program.fields, entry.type = descriptor

/-- Growth of a copy that keeps following the original. -/
def Gains (program before after : Program) : Prop :=
  Growth before after ∧ (program.Follows before → program.Follows after)

section Gains

variable {program before after : Program} (moved : Relation.ReflTransGen program.Gains before after)

include moved

theorem Gains.growths : Growths before after :=
  Relation.ReflTransGen.mono (fun _ _ gains => gains.1) _ _ moved

theorem Gains.follows (follows : program.Follows before) : program.Follows after := by
  induction moved with
  | refl => exact follows
  | tail _ gains ih => exact gains.2 ih

theorem Gains.extends : before.Extends after := (Gains.growths moved).extends

end Gains

end Program

namespace Edit

open Program

variable {program before : Program}

theorem meets_type (sound : program.KeysSound) (follows : program.Follows before) {type : TypeId}
    {descriptor : Descriptor} (named : program.descriptor? type = some descriptor) :
    Meets program.Gains (Edit.type descriptor) before fun id after =>
      program.Same after (.type type) (.type id) := by
  refine .refuse_bind (not_not.mpr (sound.references named)) ?_
  refine .get_bind ?_
  cases found : before.findType? descriptor with
  | some id =>
    have key := (follows.keysSound.indexed.types _ _).mp found
    exact .pure (same_type.mpr ⟨descriptor, named, key⟩)
  | none =>
    have growth : Growth before (before.addType descriptor) := .type (sound.references named) found
    refine .set_bind ⟨growth, ?_⟩ (.pure ?_)
    · intro follows
      exact follows.of_members (.single (.grow growth)) rfl rfl rfl
    · refine same_type.mpr ⟨descriptor, named, ?_⟩
      rw [descriptor?_addType, if_pos rfl]

/-- A marker that is known already is confirmed. -/
theorem gives_refine {symbol : Symbol} {static : Bool} (known : before.marker symbol = some static) :
    Gives (refine symbol (some static)) before () := by
  unfold Gives refine
  rw [ClassImage.get_bind, known]
  simp only
  exact outcome_refuse_ok.mpr ⟨not_not.mpr rfl, rfl⟩

theorem meets_method (sound : program.KeysSound) (follows : program.Follows before) {method : MethodId}
    {owner holder : TypeId} {name : String} {signature : Signature} {static : Bool}
    (named : program.methodKey? method = some (owner, name, signature))
    (marked : program.marker (.method method) = some static)
    (owned : program.Same before (.type owner) (.type holder)) :
    Meets program.Gains (Edit.method holder name signature (some static)) before fun id after =>
      program.Same after (.method method) (.method id) ∧
        after.methodKey? id = some (holder, name, signature) := by
  refine .get_bind ?_
  cases found : before.findMethod? holder name signature with
  | some id =>
    have key := (follows.keysSound.indexed.methods _ _).mp found
    have same : program.Same before (.method method) (.method id) :=
      same_method.mpr ⟨owner, holder, name, signature, named, key, owned⟩
    exact .gives_bind (gives_refine (by rw [follows.markers same, marked])) (.pure ⟨same, key⟩)
  | none =>
    obtain ⟨descriptor, -, held⟩ := same_type.mp owned
    have growth : Growth before (before.addMethod holder name signature (some static)) :=
      .method (by rw [held]; rfl) found
    have key : (before.addMethod holder name signature (some static)).methodKey? ⟨before.methods.size⟩ =
        some (holder, name, signature) := by rw [methodKey?_addMethod, if_pos rfl]
    refine .set_bind ⟨growth, ?_⟩ (.pure ⟨?_, key⟩)
    · intro follows
      exact follows.addMethod sound named marked owned found
    · exact same_method.mpr ⟨owner, holder, name, signature, named, key, owned.extends growth.extends⟩

theorem meets_field (sound : program.KeysSound) (follows : program.Follows before) {field : FieldId}
    {owner holder : TypeId} {name : String} {type : Descriptor} {static : Bool}
    (named : program.fieldKey? field = some (owner, name, type))
    (marked : program.marker (.field field) = some static)
    (owned : program.Same before (.type owner) (.type holder)) :
    Meets program.Gains (Edit.field holder name type (some static)) before fun id after =>
      program.Same after (.field field) (.field id) ∧
        after.fieldKey? id = some (holder, name, type) := by
  refine .refuse_bind (sound.values named) ?_
  refine .get_bind ?_
  cases found : before.findField? holder name type with
  | some id =>
    have key := (follows.keysSound.indexed.fields _ _).mp found
    have same : program.Same before (.field field) (.field id) :=
      same_field.mpr ⟨owner, holder, name, type, named, key, owned⟩
    exact .gives_bind (gives_refine (by rw [follows.markers same, marked])) (.pure ⟨same, key⟩)
  | none =>
    obtain ⟨descriptor, -, held⟩ := same_type.mp owned
    have growth : Growth before (before.addField holder name type (some static)) :=
      .field (by rw [held]; rfl) (sound.values named) found
    have key : (before.addField holder name type (some static)).fieldKey? ⟨before.fields.size⟩ =
        some (holder, name, type) := by rw [fieldKey?_addField, if_pos rfl]
    refine .set_bind ⟨growth, ?_⟩ (.pure ⟨?_, key⟩)
    · intro follows
      exact follows.addField sound named marked owned found
    · exact same_field.mpr ⟨owner, holder, name, type, named, key, owned.extends growth.extends⟩

end Edit

namespace Loading.Context

open Program Edit

variable {context : Context} {program before : Program}

theorem gives_text {index : UInt32} {text : String} (meant : context.image.pool.text? index = some text) :
    Gives (context.text index) before text := by
  rw [Context.text, meant]
  rfl

theorem Reads.gives {index : UInt32} {descriptor : Descriptor} (read : context.Reads index descriptor) :
    Gives (context.descriptor index) before descriptor := by
  obtain ⟨text, found, parsed⟩ := read
  have required : Gives (require .type index (context.image.pool.type? index)) before text := by
    rw [found]
    rfl
  have checked : Gives (Edit.check fun _ => Descriptor.parse text) before descriptor := Prod.ext parsed rfl
  exact required.bind checked.adapt

/-- Indices that stand for descriptors of the program are read as these descriptors. -/
def Legible (context : Context) (program : Program) : Prop :=
  ∀ index descriptor, program.Involves descriptor →
    context.image.pool.type? index = some descriptor.text → context.Reads index descriptor

theorem legible_of_readable (context : Context) (readable : program.Readable) :
    context.Legible program := by
  intro index descriptor involved found
  refine ⟨descriptor.text, found, ?_⟩
  rcases involved with ⟨entry, member, rfl⟩ | ⟨entry, member, listed⟩ | ⟨entry, member, rfl⟩
  · exact readable.types entry member
  · exact readable.methods entry member descriptor listed
  · exact readable.fields entry member

section Names

variable (legible : context.Legible program) {index : UInt32}

include legible

/-- An index that names a type of the program is read as its descriptor. -/
theorem reads_of_names {type : TypeId} {descriptor : Descriptor}
    (named : context.image.pool.NamesType program index type)
    (known : program.descriptor? type = some descriptor) : context.Reads index descriptor := by
  have member := typeAt_mem (show (program.descriptor? type).isSome by rw [known]; rfl)
  rw [Pool.NamesType, typeText, descriptor?_typeAt known] at named
  exact legible index descriptor (.inl ⟨_, member, descriptor?_typeAt known⟩) named

theorem readsMethod_of_names {method : MethodId} {owner : TypeId} {name : String} {signature : Signature}
    {descriptor : Descriptor} (named : context.image.pool.NamesMethod program index method)
    (key : program.methodKey? method = some (owner, name, signature))
    (owned : program.descriptor? owner = some descriptor) :
    context.ReadsMethod index descriptor name signature := by
  have member := methodAt_mem (show (program.methodKey? method).isSome by rw [key]; rfl)
  have involved : ∀ type ∈ (program.methodAt method).signature.result ::
      (program.methodAt method).signature.parameters, program.Involves type :=
    fun type listed => .inr (.inl ⟨_, member, listed⟩)
  obtain ⟨rfl, rfl, rfl⟩ := methodKey?_methodAt key
  obtain ⟨method, found, holder, ⟨proto, listed, result, parameters⟩, text⟩ := named
  rw [List.forall_mem_cons] at involved
  refine ⟨method, proto, found, listed, legible _ _ involved.1 result, ?_, text, ?_⟩
  · rw [List.forall₂_map_right_iff] at parameters
    have each := ((List.forall₂_and_left _ _).mpr ⟨involved.2, parameters.flip⟩).flip
    exact each.imp fun index descriptor both => legible index descriptor both.1 both.2
  · exact reads_of_names legible holder owned

theorem readsField_of_names {field : FieldId} {owner : TypeId} {name : String} {type descriptor : Descriptor}
    (named : context.image.pool.NamesField program index field)
    (key : program.fieldKey? field = some (owner, name, type))
    (owned : program.descriptor? owner = some descriptor) : context.ReadsField index descriptor name type := by
  have member := fieldAt_mem (show (program.fieldKey? field).isSome by rw [key]; rfl)
  obtain ⟨rfl, rfl, rfl⟩ := fieldKey?_fieldAt key
  obtain ⟨field, found, holder, held, text⟩ := named
  have involved : program.Involves _ := .inr (.inr ⟨_, member, rfl⟩)
  exact ⟨field, found, legible _ _ involved held, text, reads_of_names legible holder owned⟩

end Names

section

variable (sound : program.KeysSound) (legible : context.Legible program)

include sound

theorem Reads.meets_type (follows : program.Follows before) {index : UInt32} {type : TypeId} {descriptor : Descriptor}
    (read : context.Reads index descriptor) (known : program.descriptor? type = some descriptor) :
    Meets program.Gains (context.type index) before fun id after =>
      program.Same after (.type type) (.type id) :=
  .gives_bind read.gives (Edit.meets_type sound follows known).adapt

theorem ReadsMethod.meets_methodKey (follows : program.Follows before) {index : UInt32} {owner : TypeId}
    {name : String} {signature : Signature} {descriptor : Descriptor}
    (read : context.ReadsMethod index descriptor name signature)
    (owned : program.descriptor? owner = some descriptor) :
    Meets program.Gains (context.methodKey index) before fun found after =>
      found.2 = (name, signature) ∧ program.Same after (.type owner) (.type found.1) := by
  obtain ⟨reference, proto, found, listed, result, parameters, text, holder⟩ := read
  refine .gives_bind (by rw [found]; exact rfl) ?_
  refine .gives_bind (by rw [listed]; exact rfl) ?_
  refine .gives_bind result.gives ?_
  refine .gives_bind (.mapM (parameters.imp fun _ _ read => read.gives)) ?_
  refine .gives_bind (gives_text text) ?_
  apply (holder.meets_type sound follows owned).bind
  intro id after _ same
  exact .pure ⟨rfl, same⟩

theorem ReadsField.meets_fieldKey (follows : program.Follows before) {index : UInt32} {owner : TypeId}
    {name : String} {type descriptor : Descriptor} (read : context.ReadsField index descriptor name type)
    (owned : program.descriptor? owner = some descriptor) :
    Meets program.Gains (context.fieldKey index) before fun found after =>
      found.2 = (name, type) ∧ program.Same after (.type owner) (.type found.1) := by
  obtain ⟨reference, found, held, text, holder⟩ := read
  refine .gives_bind (by rw [found]; exact rfl) ?_
  refine .gives_bind held.gives ?_
  refine .gives_bind (gives_text text) ?_
  apply (holder.meets_type sound follows owned).bind
  intro id after _ same
  exact .pure ⟨rfl, same⟩

omit sound in
theorem meets_blame {step : Program → Program → Prop} {known : Bool} {edit : Edit α}
    {goal : α → Program → Prop} (meets : Meets step edit before goal) :
    Meets step (blame known edit) before goal := by
  cases known with
  | false => exact meets.adapt
  | true => exact meets

theorem ReadsMethod.meets_method (follows : program.Follows before) {index : UInt32} {method : MethodId}
    {owner : TypeId} {name : String} {signature : Signature} {descriptor : Descriptor} {static : Bool}
    (read : context.ReadsMethod index descriptor name signature)
    (key : program.methodKey? method = some (owner, name, signature))
    (owned : program.descriptor? owner = some descriptor)
    (marked : program.marker (.method method) = some static) :
    Meets program.Gains (context.method index static) before fun id after =>
      program.Same after (.method method) (.method id) := by
  apply (read.meets_methodKey sound follows owned).bind
  rintro ⟨holder, _, _⟩ middle moved ⟨same, held⟩
  cases same
  refine .get_bind (meets_blame ?_)
  apply (Edit.meets_method sound (Gains.follows moved follows) key marked held).imp
  exact fun id after _ found => found.1

theorem ReadsField.meets_field (follows : program.Follows before) {index : UInt32} {field : FieldId}
    {owner : TypeId} {name : String} {type descriptor : Descriptor} {static : Bool}
    (read : context.ReadsField index descriptor name type)
    (key : program.fieldKey? field = some (owner, name, type))
    (owned : program.descriptor? owner = some descriptor)
    (marked : program.marker (.field field) = some static) :
    Meets program.Gains (context.field index static) before fun id after =>
      program.Same after (.field field) (.field id) := by
  apply (read.meets_fieldKey sound follows owned).bind
  rintro ⟨holder, _, _⟩ middle moved ⟨same, held⟩
  cases same
  refine .get_bind (meets_blame ?_)
  apply (Edit.meets_field sound (Gains.follows moved follows) key marked held).imp
  exact fun id after _ found => found.1

include legible

theorem meets_type (follows : program.Follows before) {index : UInt32} {type : TypeId}
    (named : context.image.pool.NamesType program index type)
    (known : (program.descriptor? type).isSome) :
    Meets program.Gains (context.type index) before fun id after =>
      program.Same after (.type type) (.type id) := by
  obtain ⟨descriptor, found⟩ := Option.isSome_iff_exists.mp known
  exact (reads_of_names legible named found).meets_type sound follows found

theorem meets_methodKey (follows : program.Follows before) {index : UInt32} {method : MethodId}
    {owner : TypeId} {name : String} {signature : Signature} (named : context.image.pool.NamesMethod program index method)
    (key : program.methodKey? method = some (owner, name, signature)) :
    Meets program.Gains (context.methodKey index) before fun found after =>
      found.2 = (name, signature) ∧ program.Same after (.type owner) (.type found.1) := by
  obtain ⟨descriptor, owned⟩ := Option.isSome_iff_exists.mp (sound.methodOwners key)
  exact (readsMethod_of_names legible named key owned).meets_methodKey sound follows owned

theorem meets_fieldKey (follows : program.Follows before) {index : UInt32} {field : FieldId}
    {owner : TypeId} {name : String} {type : Descriptor} (named : context.image.pool.NamesField program index field)
    (key : program.fieldKey? field = some (owner, name, type)) :
    Meets program.Gains (context.fieldKey index) before fun found after =>
      found.2 = (name, type) ∧ program.Same after (.type owner) (.type found.1) := by
  obtain ⟨descriptor, owned⟩ := Option.isSome_iff_exists.mp (sound.fieldOwners key)
  exact (readsField_of_names legible named key owned).meets_fieldKey sound follows owned

theorem meets_method (follows : program.Follows before) {index : UInt32} {method : MethodId}
    {static : Bool} (named : context.image.pool.NamesMethod program index method)
    (marked : program.marker (.method method) = some static) :
    Meets program.Gains (context.method index static) before fun id after =>
      program.Same after (.method method) (.method id) := by
  obtain ⟨⟨owner, name, signature⟩, key⟩ := Option.isSome_iff_exists.mp (hasMember_of_marker marked)
  obtain ⟨descriptor, owned⟩ := Option.isSome_iff_exists.mp (sound.methodOwners key)
  exact (readsMethod_of_names legible named key owned).meets_method sound follows key owned marked

theorem meets_field (follows : program.Follows before) {index : UInt32} {field : FieldId}
    {static : Bool} (named : context.image.pool.NamesField program index field)
    (marked : program.marker (.field field) = some static) :
    Meets program.Gains (context.field index static) before fun id after =>
      program.Same after (.field field) (.field id) := by
  obtain ⟨⟨owner, name, type⟩, key⟩ := Option.isSome_iff_exists.mp (hasMember_of_marker marked)
  obtain ⟨descriptor, owned⟩ := Option.isSome_iff_exists.mp (sound.fieldOwners key)
  exact (readsField_of_names legible named key owned).meets_field sound follows key owned marked

end

end Loading.Context

end ClassImage
