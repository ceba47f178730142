import ClassImage.Proofs.Codec.Image
import ClassImage.Proofs.Lowering.Code
import ClassImage.Proofs.Lowering.Registers
import ClassImage.Proofs.Related

/-!
Images of programs. The code of a body, the definitions of members and classes,
and the image as a whole say in terms of the finished pool what they were made
from. Such an image can be written, and what is written is read back.
-/

namespace ClassImage

namespace Program

/-- The registers of a body's locals, when there is room for them. -/
def plan (program : Program) (body : Body) : RegisterPlan :=
  ⟨program.usedLocals body ++ body.parameters, RegisterPlan.slots body.parameters⟩

/-- The surroundings of a listed body. -/
def surroundings (program : Program) (limits : Limits) (method : MethodId) (body : Body)
    (listed : List (InstructionId × Instruction)) : CodeContext :=
  ⟨program, method, program.plan body, rawStarts 0 listed, limits.arguments⟩

theorem ofBody_ok {program : Program} {body : Body} {limit : UInt32} {plan : RegisterPlan}
    (placed : RegisterPlan.ofBody program body limit = .ok plan) :
    plan = program.plan body ∧ RegisterPlan.slots plan.order ≤ 65535 := by
  unfold RegisterPlan.ofBody at placed
  simp only at placed
  split at placed
  · cases placed
  · rename_i room
    cases placed
    refine ⟨rfl, ?_⟩
    simp only
    omega

/-- The instructions of a body with their handles, each as the program has it. -/
def Lists (program : Program) (body : Body) (listed : List (InstructionId × Instruction)) : Prop :=
  List.Forall₂ (fun id entry => entry.1 = id ∧ program.instruction? id = some entry.2)
    body.instructions.toList listed

theorem listBody_ok {program : Program} {body : Body} {listed : List (InstructionId × Instruction)}
    (found : program.listBody body = .ok listed) : program.Lists body listed := by
  apply (Except.mapM_ok.mp found).imp
  intro id entry same
  split at same
  · rename_i instruction attached
    cases same
    exact ⟨rfl, attached⟩
  · cases same

theorem rawTotal_eq_sum (listed : List (InstructionId × Instruction)) :
    rawTotal listed = (listed.map fun entry => entry.2.rawLength).sum := by
  rw [rawTotal, List.sum_eq_foldr, List.foldr_map]

theorem Lists.instructionsOf {program : Program} {body : Body}
    {listed : List (InstructionId × Instruction)} (lists : program.Lists body listed) :
    program.instructionsOf body = listed.map Prod.snd := by
  rw [Program.instructionsOf]
  unfold Lists at lists
  generalize body.instructions.toList = ids at lists
  induction lists with
  | nil => rfl
  | cons first _ ih => rw [List.filterMap_cons_some first.2, ih, List.map_cons]

/-- The code of a listed body, in terms of the finished pool. -/
structure LoweredCode (final : Pool) (context : CodeContext)
    (listed : List (InstructionId × Instruction)) (code : CodeItem) : Prop where
  room : RegisterPlan.slots context.plan.order ≤ 65535
  registers : code.registers = UInt16.ofNat context.plan.tags.length
  parameterRegisters : code.parameterRegisters = UInt16.ofNat context.plan.parameterRegisters
  kinds : code.kinds = context.plan.tags
  size : rawTotal listed < 2 ^ 32
  units : ∃ units : List CodeUnit, code.instructions.toList = units.flatMap CodeUnit.raws ∧
    List.Forall₂ (fun entry unit => Lowered final context entry.2 unit) listed units
  fits : context.argumentLimit.toNat ≤ 255 → ∀ raw ∈ code.instructions, raw.Fits

def LoweredBody (final : Pool) (program : Program) (limits : Limits) (method : MethodId) (body : Body)
    (code : CodeItem) : Prop :=
  ∃ listed, program.Lists body listed ∧
    LoweredCode final (program.surroundings limits method body listed) listed code

structure LoweredMethod (final : Pool) (program : Program) (limits : Limits) (method : MethodId)
    (definition : MethodDef) : Prop where
  named : final.NamesMethod program definition.method method
  access : definition.access = (program.methodAt method).declaration.getD 0
  code : Option.Rel (program.LoweredBody final limits method) (program.body? method) definition.code

structure LoweredField (final : Pool) (program : Program) (field : FieldId) (definition : FieldDef) :
    Prop where
  named : final.NamesField program definition.field field
  access : definition.access = (program.fieldAt field).declaration.getD 0

structure LoweredDefinition (final : Pool) (program : Program) (limits : Limits) (type : TypeId)
    (definition : Definition) (written : ClassDef) : Prop where
  named : final.NamesType program written.type type
  access : written.access = definition.access
  superclass : Option.Rel (fun type index => final.NamesType program index type)
    definition.superclass written.superclass
  interfaces : List.Forall₂ (fun type index => final.NamesType program index type)
    definition.interfaces written.interfaces
  source : Option.Rel (fun text index => final.text? index = some text) definition.source written.source
  fields : List.Forall₂ (program.LoweredField final) definition.fields.toList written.fields
  methods : List.Forall₂ (program.LoweredMethod final limits) definition.methods.toList written.methods

def LoweredClass (final : Pool) (program : Program) (limits : Limits) (type : TypeId)
    (written : ClassDef) : Prop :=
  ∃ definition, program.definition? type = some definition ∧
    program.LoweredDefinition final limits type definition written

theorem slot_of_instruction? {program : Program} {id : InstructionId} {instruction : Instruction}
    (attached : program.instruction? id = some instruction) :
    ∃ slot, program.slot? id = some slot ∧ slot.instruction = instruction :=
  Option.map_eq_some_iff.mp attached

/-- The units of a body, from the raw forms of its instructions. -/
theorem units_of_becomes {final : Pool} {context : CodeContext}
    {listed : List (InstructionId × Instruction)} {raws : List (List RawInstruction)}
    (each : List.Forall₂ (fun entry raws => context.Becomes final entry.2 raws) listed raws) :
    (∃ units : List CodeUnit, raws.flatten = units.flatMap CodeUnit.raws ∧
      List.Forall₂ (fun entry unit => Lowered final context entry.2 unit) listed units) ∧
      (context.argumentLimit.toNat ≤ 255 → ∀ raw ∈ raws.flatten, raw.Fits) := by
  induction each with
  | nil => exact ⟨⟨[], rfl, .nil⟩, by simp⟩
  | @cons entry raw listed raws first _ ih =>
    obtain ⟨unit, rfl, lowered, fits⟩ := first
    obtain ⟨⟨units, same, all⟩, others⟩ := ih
    refine ⟨⟨unit :: units, ?_, .cons lowered all⟩, ?_⟩
    · rw [List.flatten_cons, List.flatMap_cons, same]
    · rw [List.flatten_cons]
      intro few raw member
      rcases List.mem_append.mp member with member | member
      · exact fits few raw member
      · exact others few raw member

theorem length_flatMap_raws {final : Pool} {context : CodeContext}
    {listed : List (InstructionId × Instruction)} {units : List CodeUnit}
    (each : List.Forall₂ (fun entry unit => Lowered final context entry.2 unit) listed units) :
    (units.flatMap CodeUnit.raws).length = rawTotal listed := by
  induction each with
  | nil => rfl
  | cons first _ ih =>
    rw [List.flatMap_cons, List.length_append, first.length_raws, ih]
    simp [rawTotal]

section Yields

open Lower

variable {final : Pool} {program : Program} {limits : Limits} (admitted : program.CodeAdmitted)

include admitted

theorem yields_lowerBody (method : MethodId) (body : Body) :
    Yields final (program.lowerBody limits method body) (program.bodyMentions body)
      (program.LoweredBody final limits method body) := by
  refine .check_bind ?_
  intro plan placed
  obtain ⟨rfl, room⟩ := ofBody_ok placed
  refine .check_bind ?_
  intro listed found
  have lists := listBody_ok found
  refine .refuse_bind ?_
  intro counted
  have lowered : Yields final
      (listed.mapM fun entry => (program.surroundings limits method body listed).lower entry.2)
      (program.bodyMentions body) (List.Forall₂ (fun entry raws =>
        (program.surroundings limits method body listed).Becomes final entry.2 raws) listed) := by
    rw [bodyMentions, lists.instructionsOf, List.flatMap_map]
    refine .mapM ?_
    intro entry member
    have attached : program.instruction? entry.1 = some entry.2 := by
      obtain ⟨id, -, same, attached⟩ := forall₂_exists_left lists member
      rw [same]
      exact attached
    obtain ⟨slot, here, same⟩ := slot_of_instruction? attached
    exact CodeContext.yields_lower (same ▸ admitted _ _ here)
  refine (lowered.bind fun raws => .pure ?_).as (List.append_nil _)
  intro each
  obtain ⟨units, fits⟩ := units_of_becomes each
  refine ⟨listed, lists, room, rfl, rfl, rfl, ?_, units, ?_⟩
  · have limit := limits.instructions.toNat_lt
    omega
  · intro few raw member
    exact fits few raw (by simpa using member)

theorem yields_lowerMethod (method : MethodId) :
    Yields final (program.lowerMethod limits method) (program.methodMentions method)
      (program.LoweredMethod final limits method) := by
  refine (Yields.optional fun body _ => yields_lowerBody admitted method body).bind fun code => ?_
  apply (yields_methodRef method).bind
  intro reference
  exact .pure fun named lowered => ⟨named, rfl, lowered⟩

omit admitted

theorem yields_lowerField (field : FieldId) :
    Yields final (program.lowerField field) [program.fieldMention field]
      (program.LoweredField final field) := by
  apply (yields_fieldRef field).bind
  intro reference
  exact .pure fun named => ⟨named, rfl⟩

include admitted

theorem yields_lowerClass (type : TypeId) :
    Yields final (program.lowerClass limits type) (program.classMentions type)
      (program.LoweredClass final limits type) := by
  unfold lowerClass classMentions
  cases found : (program.typeAt type).definition? with
  | none => exact .throw
  | some definition =>
    have here : program.definition? type = some definition := found
    rw [here, Option.toList_some, List.flatMap_singleton, definitionMentions, List.map_eq_flatMap]
    refine (Yields.mapM fun field _ => yields_lowerField field).bind fun writtenFields => ?_
    refine (Yields.mapM fun method _ => yields_lowerMethod admitted method).bind
      fun writtenMethods => ?_
    apply (yields_typeRef type).bind
    intro self
    rw [List.map_eq_flatMap]
    refine (Yields.optional fun superclass _ => yields_typeRef superclass).bind fun superclass => ?_
    rw [List.map_eq_flatMap]
    refine (Yields.mapM fun interface _ => yields_typeRef interface).bind fun interfaces => ?_
    rw [List.map_eq_flatMap]
    refine ((Yields.optional fun source _ => yields_text source).bind fun source => .pure ?_).as
      (List.append_nil _)
    intro text implements extend named coded held
    exact ⟨definition, here, named, rfl, extend, implements, text, held, coded⟩

theorem yields_classes :
    Yields final (program.defined.toList.mapM (program.lowerClass limits)) program.mentions
      (List.Forall₂ (program.LoweredClass final limits) program.defined.toList) :=
  .mapM fun type _ => yields_lowerClass admitted type

end Yields

theorem validate_ok {limits : Limits} (valid : limits.validate = .ok ()) :
    limits.arguments.toNat ≤ 255 := by
  by_contra many
  have more : limits.arguments > 255 := by
    rw [gt_iff_lt, UInt32.lt_iff_toNat_lt]
    exact Nat.lt_of_not_le many
  unfold Limits.validate at valid
  by_cases registers : limits.registers > 65535
  · simp [registers, throw, throwThe, MonadExceptOf.throw, bind, Except.bind] at valid
  · simp [registers, more, throw, throwThe, MonadExceptOf.throw, bind, Except.bind] at valid

section Encodable

variable {final : Pool} {program : Program} {limits : Limits}

theorem LoweredCode.encodable {context : CodeContext} {listed : List (InstructionId × Instruction)}
    {code : CodeItem} (lowered : LoweredCode final context listed code)
    (few : context.argumentLimit.toNat ≤ 255) : code.Encodable := by
  refine ⟨?_, ?_, lowered.fits few⟩
  · have room := lowered.room
    rw [lowered.registers, lowered.kinds, UInt16.toNat_ofNat', Nat.mod_eq_of_lt]
    rw [RegisterPlan.length_tags]
    omega
  · obtain ⟨units, same, each⟩ := lowered.units
    rw [← Array.length_toList, same, length_flatMap_raws each]
    exact lowered.size

theorem LoweredDefinition.encodable (bounded : program.Bounded) {type : TypeId}
    {definition : Definition} (found : program.definition? type = some definition) {written : ClassDef}
    (lowered : program.LoweredDefinition final limits type definition written)
    (few : limits.arguments.toNat ≤ 255) : written.Encodable := by
  obtain ⟨interfaces, fields, methods, -⟩ := bounded.definitions _ _ found
  constructor
  · rw [← lowered.interfaces.length_eq]
    exact interfaces
  · rw [← lowered.fields.length_eq, Array.length_toList]
    exact fields
  · rw [← lowered.methods.length_eq, Array.length_toList]
    exact methods
  · intro method member code coded
    obtain ⟨id, -, named⟩ := forall₂_exists_left lowered.methods member
    have body := named.code
    rw [coded] at body
    generalize program.body? id = source at body
    cases body with
    | some lowered =>
      obtain ⟨listed, -, written⟩ := lowered
      exact written.encodable few

/-- The pool of a bounded program can be written, if it is small. -/
theorem Bounded.encodable (bounded : program.Bounded) (sound : program.KeysSound)
    (defined : program.DefinitionsSound) (admitted : program.CodeAdmitted)
    (small : (Pool.ofMentions program.mentions).Small) :
    (Pool.ofMentions program.mentions).Encodable := by
  have holds := Pool.holds_ofMentions program.mentions
  have short := bounded.mentions sound defined admitted
  refine ⟨small.texts, ?_, small.types, small.protos, ?_, small.fields, small.methods⟩
  · intro text member
    obtain ⟨mention, listed, member⟩ := List.mem_flatMap.mp ((holds.texts.2 text).mp member)
    exact (short mention listed).1 text member
  · intro proto member
    obtain ⟨key, mentioned, rfl⟩ := List.mem_map.mp ((holds.protos.2 proto).mp member)
    obtain ⟨mention, listed, mentioned⟩ := List.mem_flatMap.mp mentioned
    exact (List.length_map _).trans_lt ((short mention listed).2 key mentioned)

end Encodable

/-- What lowering leaves when it succeeds: a builder that was asked for the program's mentions. As soon as
its pool keeps the limits, that is the pool of the mentions, and the classes are in terms of it. -/
theorem lowered_classes {program : Program} {limits : Limits} {classes : List ClassDef}
    {builder : Pool.Builder} (admitted : program.CodeAdmitted)
    (ran : (program.defined.toList.mapM (program.lowerClass limits)).run {} = .ok (classes, builder)) :
    builder = (Pool.serve program.mentions).2 ∧ (checkPool limits builder.pool = .ok () →
      (builder.pool = Pool.ofMentions program.mentions ∧ builder.pool.Small) ∧
        List.Forall₂ (program.LoweredClass builder.pool limits) program.defined.toList classes) := by
  have yields := @yields_classes builder.pool program limits admitted
  have built : builder = (Pool.serve program.mentions).2 := yields.adds _ _ _ ran
  refine ⟨built, ?_⟩
  intro checked
  have same : builder.pool = Pool.ofMentions program.mentions := by
    rw [built] at checked ⊢
    exact Pool.serve_checked checked
  have small : builder.pool.Small := by
    rw [same] at checked ⊢
    exact Pool.small_of_checked program.table_mentions checked
  exact ⟨⟨same, small⟩, ((yields.denotes _ _ _ ran).2 .empty (.refl builder.pool) small).2⟩

/-- What an image of a program says, in terms of its own pool. -/
theorem toImage_lowered {program : Program} {limits : Limits} {image : Image}
    (admitted : program.CodeAdmitted) (built : program.toImage limits = .ok image) :
    (image.pool = Pool.ofMentions program.mentions ∧ image.pool.Small) ∧
      List.Forall₂ (program.LoweredClass image.pool limits) program.defined.toList image.classes ∧
      image.verify = .ok () := by
  obtain ⟨⟨classes, builder⟩, lowered, checked⟩ := Except.bind_ok.mp built
  obtain ⟨_, fits, finished⟩ := Except.bind_ok.mp checked
  obtain ⟨pool, written⟩ := (lowered_classes admitted lowered).2 fits
  simp only at finished
  split at finished
  · rename_i verified
    cases finished
    exact ⟨pool, written, verified⟩
  · cases finished

/-- An image of a bounded program can be written. -/
theorem toImage_ok {program : Program} {limits : Limits} {image : Image} (bounded : program.Bounded)
    (sound : program.KeysSound) (defined : program.DefinitionsSound) (admitted : program.CodeAdmitted)
    (valid : limits.validate = .ok ()) (built : program.toImage limits = .ok image) :
    List.Forall₂ (program.LoweredClass image.pool limits) program.defined.toList image.classes ∧
      image.verify = .ok () ∧ image.Encodable := by
  obtain ⟨⟨pool, small⟩, written, verified⟩ := toImage_lowered admitted built
  refine ⟨written, verified, ?_, ?_, ?_⟩
  · rw [pool] at small ⊢
    exact bounded.encodable sound defined admitted small
  · rw [← written.length_eq, Array.length_toList]
    exact bounded.defined
  · intro definition member
    obtain ⟨type, -, source, found, same⟩ := forall₂_exists_left written member
    exact same.encodable bounded found (validate_ok valid)

end Program

end ClassImage
