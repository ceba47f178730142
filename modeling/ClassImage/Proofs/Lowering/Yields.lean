import ClassImage.Proofs.Lowering.Mentions
import ClassImage.Proofs.Program.Definitions

/-!
What a program mentions when it is lowered, and what the actions of lowering
yield. An action that succeeds has added its mentions to the pool, and no more,
and its result means in the finished pool what it should. What a bounded program
mentions has counts of four bytes, and so do the lists of its prototypes.
-/

namespace ClassImage

namespace Program

section Mentions

variable (program : Program)

def typeMention (type : TypeId) : Mention := .type (program.typeText type)

def methodMention (method : MethodId) : Mention :=
  .method (program.typeText (program.methodAt method).owner) (program.methodAt method).name
    (program.methodAt method).signature.result.text
    ((program.methodAt method).signature.parameters.map Descriptor.text)

def fieldMention (field : FieldId) : Mention :=
  .field (program.typeText (program.fieldAt field).owner) (program.fieldAt field).name
    (program.fieldAt field).type.text

/-- What an instruction mentions. Only a call that allocates mentions more than one thing. -/
def instructionMentions : Instruction → List Mention
  | .invoke call => program.methodMention call.method ::
    if call.kind = .construct then [program.typeMention (program.methodAt call.method).owner] else []
  | .access use => [program.fieldMention use.field]
  | .const _ (.text value) => [.text value]
  | .const _ (.classOf type) | .newArray _ _ type | .checkCast _ _ type | .instanceOf _ _ type =>
    [program.typeMention type]
  | _ => []

def bodyMentions (body : Body) : List Mention :=
  (program.instructionsOf body).flatMap program.instructionMentions

def methodMentions (method : MethodId) : List Mention :=
  (program.body? method).toList.flatMap program.bodyMentions ++ [program.methodMention method]

def definitionMentions (type : TypeId) (definition : Definition) : List Mention :=
  definition.fields.toList.map program.fieldMention ++
    (definition.methods.toList.flatMap program.methodMentions ++
      (program.typeMention type :: (definition.superclass.toList.map program.typeMention ++
        (definition.interfaces.map program.typeMention ++ definition.source.toList.map .text))))

def classMentions (type : TypeId) : List Mention :=
  (program.definition? type).toList.flatMap (program.definitionMentions type)

/-- What a program mentions, in the order in which it is lowered. -/
def mentions : List Mention := program.defined.toList.flatMap program.classMentions

theorem table_instructionMentions {instruction : Instruction} :
    ∀ mention ∈ program.instructionMentions instruction, mention.table ≠ .proto := by
  cases instruction with
  | invoke call =>
    rw [instructionMentions]
    split <;> simp [methodMention, typeMention, Mention.table]
  | access => simp [instructionMentions, fieldMention, Mention.table]
  | const target value => cases value <;> simp [instructionMentions, typeMention, Mention.table]
  | _ => simp [instructionMentions, typeMention, Mention.table]

/-- No prototype is mentioned for itself. -/
theorem table_mentions : ∀ mention ∈ program.mentions, mention.table ≠ .proto := by
  intro mention member
  obtain ⟨type, -, member⟩ := List.mem_flatMap.mp member
  obtain ⟨definition, -, member⟩ := List.mem_flatMap.mp member
  simp only [definitionMentions, methodMentions, List.mem_append, List.mem_cons, List.mem_map,
    List.mem_flatMap, Option.mem_toList, List.not_mem_nil, or_false] at member
  rcases member with ⟨_, -, rfl⟩ | ⟨_, -, ⟨body, -, member⟩ | rfl⟩ | rfl | ⟨_, -, rfl⟩ | ⟨_, -, rfl⟩ |
    ⟨_, -, rfl⟩
  · exact nofun
  · obtain ⟨instruction, -, member⟩ := List.mem_flatMap.mp member
    exact program.table_instructionMentions mention member
  all_goals exact nofun

end Mentions

end Program

namespace Lower

/-- The action yields a meaning in the final pool, and adds its mentions to the pool. -/
structure Yields (final : Pool) (action : Lower α) (mentions : List Mention) (meaning : α → Prop) :
    Prop where
  denotes : Denotes final action meaning
  adds : ∀ builder value after, action.run builder = .ok (value, after) →
    after = (Pool.serve mentions builder).2

namespace Yields

variable {final : Pool} {α β : Type} {meaning : α → Prop} {mentions : List Mention}

theorem pure {value : α} (meant : meaning value) : Yields final (pure value) [] meaning := by
  refine ⟨.pure meant, ?_⟩
  rintro builder _ _ ⟨⟩
  rfl

theorem throw {fault : Fault} : Yields final (throw fault : Lower α) mentions meaning := by
  constructor
  · rintro builder _ _ ⟨⟩
  · rintro builder _ _ ⟨⟩

theorem as {action : Lower α} {others : List Mention} (yields : Yields final action mentions meaning)
    (same : mentions = others) : Yields final action others meaning :=
  same ▸ yields

theorem bind {action : Lower α} {next : α → Lower β} {last : β → Prop} {more : List Mention}
    (first : Yields final action mentions meaning)
    (second : ∀ value, Yields final (next value) more fun result => meaning value → last result) :
    Yields final (action >>= next) (mentions ++ more) last := by
  refine ⟨first.denotes.bind fun value => (second value).denotes, ?_⟩
  intro builder value after ran
  obtain ⟨result, middle, head, tail⟩ := run_bind_ok.mp ran
  rw [Pool.serve_append, ← first.adds _ _ _ head]
  exact (second result).adds _ _ _ tail

theorem mapM {list : List β} {action : β → Lower α} {meaning : β → α → Prop}
    {mentions : β → List Mention}
    (each : ∀ entry ∈ list, Yields final (action entry) (mentions entry) (meaning entry)) :
    Yields final (list.mapM action) (list.flatMap mentions) (List.Forall₂ meaning list) := by
  refine ⟨.mapM fun entry member => (each entry member).denotes, ?_⟩
  induction list with
  | nil => exact (pure trivial : Yields final _ [] fun _ => True).adds
  | cons entry rest ih =>
    intro builder values after ran
    rw [List.mapM_cons] at ran
    obtain ⟨value, middle, head, tail⟩ := run_bind_ok.mp ran
    obtain ⟨others, last, found, done⟩ := run_bind_ok.mp tail
    cases done
    rw [List.flatMap_cons, Pool.serve_append, ← (each entry (by simp)).adds _ _ _ head]
    exact ih (fun other member => each other (by simp [member])) _ _ _ found

theorem optional {value : Option β} {action : β → Lower α} {meaning : β → α → Prop}
    {mentions : β → List Mention}
    (each : ∀ entry, value = some entry →
      Yields final (action entry) (mentions entry) (meaning entry)) :
    Yields final (value.mapM action) (value.toList.flatMap mentions) (Option.Rel meaning value) := by
  cases value with
  | none => exact pure .none
  | some entry =>
    change Yields final (some <$> action entry) _ _
    rw [← bind_pure_comp]
    exact ((each entry rfl).bind fun value => pure .some).as (by simp)

theorem refuse_bind {condition : Prop} [Decidable condition] {fault : Fault} {next : Unit → Lower α}
    (second : ¬condition → Yields final (next ()) mentions meaning) :
    Yields final (refuse condition fault >>= next) mentions meaning := by
  by_cases refused : condition
  · rw [refuse, if_pos refused]
    exact throw
  · rw [refuse, if_neg refused]
    exact second refused

theorem check_bind {test : Except Fault β} {next : β → Lower α}
    (second : ∀ value, test = .ok value → Yields final (next value) mentions meaning) :
    Yields final ((liftM test : Lower β) >>= next) mentions meaning := by
  cases test with
  | error fault => exact (throw : Yields final (MonadExcept.throw fault) mentions meaning)
  | ok value => exact second value rfl

theorem of_intern (mention : Mention) {meaning : UInt32 → Prop}
    (denotes : Denotes final (intern mention.intern) meaning) :
    Yields final (intern mention.intern) [mention] meaning := by
  refine ⟨denotes, ?_⟩
  intro builder value after ran
  exact congrArg Prod.snd (Except.ok.inj ran).symm

end Yields

end Lower

namespace Program

/-- Texts and lists have counts of four bytes. -/
structure Bounded (program : Program) : Prop where
  types : ∀ entry ∈ program.types, entry.descriptor.text.utf8ByteSize < 2 ^ 32
  methods : ∀ entry ∈ program.methods, entry.name.utf8ByteSize < 2 ^ 32 ∧
    entry.signature.parameters.length < 2 ^ 32 ∧
    ∀ type ∈ entry.signature.result :: entry.signature.parameters, type.text.utf8ByteSize < 2 ^ 32
  fields : ∀ entry ∈ program.fields,
    entry.name.utf8ByteSize < 2 ^ 32 ∧ entry.type.text.utf8ByteSize < 2 ^ 32
  definitions : ∀ type definition, program.definition? type = some definition →
    definition.interfaces.length < 2 ^ 32 ∧ definition.fields.size < 2 ^ 32 ∧
    definition.methods.size < 2 ^ 32 ∧
    ∀ source, definition.source = some source → source.utf8ByteSize < 2 ^ 32
  defined : program.defined.size < 2 ^ 32
  constants : ∀ id target text, program.instruction? id = some (.const target (.text text)) →
    text.utf8ByteSize < 2 ^ 32

end Program

/-- The text that an instruction makes a constant of. -/
def Instruction.text? : Instruction → Option String
  | .const _ (.text text) => some text
  | _ => none

namespace Program

/-- The counts of a program can be looked at entry by entry, those of definitions among the types and
those of constants in the code. -/
theorem Bounded.of_entries {program : Program}
    (types : ∀ entry ∈ program.types, entry.descriptor.text.utf8ByteSize < 2 ^ 32 ∧
      ∀ definition ∈ entry.definition?,
        definition.interfaces.length < 2 ^ 32 ∧ definition.fields.size < 2 ^ 32 ∧
        definition.methods.size < 2 ^ 32 ∧
        ∀ source ∈ definition.source, source.utf8ByteSize < 2 ^ 32)
    (methods : ∀ entry ∈ program.methods, entry.name.utf8ByteSize < 2 ^ 32 ∧
      entry.signature.parameters.length < 2 ^ 32 ∧
      ∀ type ∈ entry.signature.result :: entry.signature.parameters, type.text.utf8ByteSize < 2 ^ 32)
    (fields : ∀ entry ∈ program.fields,
      entry.name.utf8ByteSize < 2 ^ 32 ∧ entry.type.text.utf8ByteSize < 2 ^ 32)
    (defined : program.defined.size < 2 ^ 32)
    (code : ∀ place ∈ program.code, ∀ slot ∈ place, ∀ text ∈ slot.instruction.text?,
      text.utf8ByteSize < 2 ^ 32) : program.Bounded where
  types entry member := (types entry member).1
  methods := methods
  fields := fields
  definitions := by
    intro type definition found
    have listed : program.typeAt type ∈ program.types := by
      rw [definition?, typeAt, Array.getD_eq_getD_getElem?] at found
      rw [typeAt, Array.getD_eq_getD_getElem?]
      cases place : program.types[type.index]? with
      | none =>
        rw [place] at found
        cases found
      | some entry => exact Array.mem_of_getElem? place
    exact (types _ listed).2 definition found
  defined := defined
  constants := by
    intro id target text attached
    obtain ⟨slot, here, same⟩ := Option.map_eq_some_iff.mp attached
    have member : some slot ∈ program.code := Array.mem_of_getElem? (Option.join_eq_some_iff.mp here)
    exact code _ member slot rfl text (by rw [same]; rfl)

theorem typeAt_mem {program : Program} {id : TypeId} (known : (program.descriptor? id).isSome) :
    program.typeAt id ∈ program.types := by
  have inside := descriptor?_isSome.mp known
  rw [typeAt, Array.getD_eq_getD_getElem?, Array.getElem?_eq_getElem inside]
  exact Array.getElem_mem inside

theorem methodAt_mem {program : Program} {id : MethodId} (known : (program.methodKey? id).isSome) :
    program.methodAt id ∈ program.methods := by
  have inside := methodKey?_isSome.mp known
  rw [methodAt, Array.getD_eq_getD_getElem?, Array.getElem?_eq_getElem inside]
  exact Array.getElem_mem inside

theorem fieldAt_mem {program : Program} {id : FieldId} (known : (program.fieldKey? id).isSome) :
    program.fieldAt id ∈ program.fields := by
  have inside := fieldKey?_isSome.mp known
  rw [fieldAt, Array.getD_eq_getD_getElem?, Array.getElem?_eq_getElem inside]
  exact Array.getElem_mem inside

end Program

/-- Texts and lists of parameters have counts of four bytes. -/
def Mention.Short (mention : Mention) : Prop :=
  (∀ text ∈ mention.texts, text.utf8ByteSize < 2 ^ 32) ∧
    ∀ proto ∈ mention.protos, proto.2.length < 2 ^ 32

namespace Program.Bounded

variable {program : Program} (bounded : program.Bounded)

include bounded

theorem typeMention {type : TypeId} (known : (program.descriptor? type).isSome) :
    (program.typeMention type).Short := by
  have small := bounded.types _ (typeAt_mem known)
  exact ⟨by simpa [Program.typeMention, typeText] using small, by simp [Program.typeMention]⟩

theorem methodMention (sound : program.KeysSound) {method : MethodId}
    (known : (program.methodKey? method).isSome) : (program.methodMention method).Short := by
  obtain ⟨named, count, typed⟩ := bounded.methods _ (methodAt_mem known)
  obtain ⟨⟨owner, name, signature⟩, key⟩ := Option.isSome_iff_exists.mp known
  have owned := sound.methodOwners key
  rw [← (methodKey?_methodAt key).1] at owned
  have small := bounded.types _ (typeAt_mem owned)
  rw [List.forall_mem_cons] at typed
  refine ⟨?_, by simpa [Program.methodMention] using count⟩
  simp only [Program.methodMention, Mention.texts, List.cons_append, List.forall_mem_cons,
    List.forall_mem_append, List.forall_mem_map]
  exact ⟨small, typed.1, typed.2, named, by simp⟩

theorem fieldMention (sound : program.KeysSound) {field : FieldId}
    (known : (program.fieldKey? field).isSome) : (program.fieldMention field).Short := by
  obtain ⟨named, typed⟩ := bounded.fields _ (fieldAt_mem known)
  obtain ⟨⟨owner, name, type⟩, key⟩ := Option.isSome_iff_exists.mp known
  have owned := sound.fieldOwners key
  rw [← (fieldKey?_fieldAt key).1] at owned
  have small := bounded.types _ (typeAt_mem owned)
  refine ⟨?_, by simp [Program.fieldMention]⟩
  simp only [Program.fieldMention, Mention.texts, List.forall_mem_cons]
  exact ⟨small, typed, named, by simp⟩

theorem instructionMentions (sound : program.KeysSound) {instruction : Instruction}
    (admitted : program.Admits instruction)
    (constant : ∀ target text, instruction = .const target (.text text) → text.utf8ByteSize < 2 ^ 32) :
    ∀ mention ∈ program.instructionMentions instruction, mention.Short := by
  have typed : ∀ {type : TypeId}, (program.descriptor? type).isSome →
      ∀ mention ∈ [program.typeMention type], mention.Short := by
    intro type known mention member
    rw [List.mem_singleton.mp member]
    exact bounded.typeMention known
  cases instruction with
  | invoke call =>
    obtain ⟨name, signature, key, -⟩ := admitted
    have owned := sound.methodOwners key
    rw [← (methodKey?_methodAt key).1] at owned
    refine List.forall_mem_cons.mpr ⟨bounded.methodMention sound (by rw [key]; rfl), ?_⟩
    split
    · exact typed owned
    · simp
  | access use =>
    obtain ⟨owner, name, type, key, -⟩ := admitted
    intro mention member
    rw [List.mem_singleton.mp member]
    exact bounded.fieldMention sound (by rw [key]; rfl)
  | const target value =>
    cases value with
    | text value =>
      intro mention member
      rw [List.mem_singleton.mp member]
      exact ⟨by simpa using constant target value rfl, by simp⟩
    | classOf => exact typed admitted
    | _ => simp [Program.instructionMentions]
  | newArray => exact typed admitted
  | checkCast => exact typed admitted
  | instanceOf => exact typed admitted
  | _ => simp [Program.instructionMentions]

/-- What a bounded program mentions can be written. -/
theorem mentions (sound : program.KeysSound) (defined : program.DefinitionsSound)
    (admitted : program.CodeAdmitted) : ∀ mention ∈ program.mentions, mention.Short := by
  have coded : ∀ body, ∀ mention ∈ program.bodyMentions body, mention.Short := by
    intro body mention member
    obtain ⟨instruction, listed, member⟩ := List.mem_flatMap.mp member
    obtain ⟨id, -, attached⟩ := List.mem_filterMap.mp listed
    obtain ⟨slot, here, rfl⟩ := Option.map_eq_some_iff.mp attached
    refine bounded.instructionMentions sound (admitted _ _ here) ?_ mention member
    intro target text same
    rw [same] at attached
    exact bounded.constants _ _ _ attached
  intro mention member
  obtain ⟨type, -, member⟩ := List.mem_flatMap.mp member
  obtain ⟨definition, found, member⟩ := List.mem_flatMap.mp member
  have here := Option.mem_toList.mp found
  obtain ⟨-, -, -, small⟩ := bounded.definitions _ _ here
  obtain ⟨extended, implemented⟩ := defined.headers here
  obtain ⟨name, object⟩ := defined.objects here
  simp only [definitionMentions, List.mem_append, List.mem_cons, List.mem_map, List.mem_flatMap,
    Option.mem_toList] at member
  rcases member with ⟨field, listed, rfl⟩ | ⟨method, listed, member⟩ | rfl | ⟨type, same, rfl⟩ |
    ⟨type, listed, rfl⟩ | ⟨source, same, rfl⟩
  · obtain ⟨access, declared⟩ := ((defined.fields here).2 field).mp (Array.mem_toList_iff.mp listed)
    exact bounded.fieldMention sound (knowsField_of_declared declared)
  · obtain ⟨access, declared⟩ := ((defined.methods here).2 method).mp (Array.mem_toList_iff.mp listed)
    rcases List.mem_append.mp member with member | member
    · obtain ⟨body, -, member⟩ := List.mem_flatMap.mp member
      exact coded body mention member
    · rw [List.mem_singleton.mp member]
      exact bounded.methodMention sound (knowsMethod_of_declared declared)
  · exact bounded.typeMention (by rw [object]; rfl)
  · exact bounded.typeMention (extended type same)
  · exact bounded.typeMention (implemented type listed)
  · exact ⟨by simpa using small source same, by simp⟩

end Program.Bounded

namespace Lower

variable {final : Pool} {program : Program}

theorem yields_text (text : String) :
    Yields final (intern (Pool.Builder.internText text)) [.text text] fun index =>
      final.text? index = some text :=
  Yields.of_intern (.text text) (denotes_text text)

theorem yields_typeRef (type : TypeId) :
    Yields final (typeRef program type) [program.typeMention type] fun index =>
      final.type? index = some (program.typeText type) :=
  Yields.of_intern (program.typeMention type) (denotes_type _)

theorem yields_methodRef (method : MethodId) :
    Yields final (methodRef program method) [program.methodMention method] fun index =>
      final.MethodIs index (program.typeText (program.methodAt method).owner)
        (program.methodAt method).name (program.methodAt method).signature.result.text
        ((program.methodAt method).signature.parameters.map Descriptor.text) :=
  Yields.of_intern (program.methodMention method) (denotes_method _ _ _ _)

theorem yields_fieldRef (field : FieldId) :
    Yields final (fieldRef program field) [program.fieldMention field] fun index =>
      final.FieldIs index (program.typeText (program.fieldAt field).owner)
        (program.fieldAt field).name (program.fieldAt field).type.text :=
  Yields.of_intern (program.fieldMention field) (denotes_field _ _ _)

end Lower

end ClassImage
