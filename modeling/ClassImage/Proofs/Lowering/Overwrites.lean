import ClassImage.Proofs.Copy.Interfaces
import ClassImage.Proofs.Lowering.Allotment

/-!
Registers that lowered instructions write and read. An instruction reads its
operands before it writes its result. A call that yields a result becomes two
raw instructions, the second of which writes; an allocation becomes two, the
first of which writes. So operands stay until they are read, but for those of a
constructor to which the result local itself is passed: it is given the object
that it is to make.
-/

namespace ClassImage

namespace RawInstruction

/-- The register that an instruction writes. -/
def written? : RawInstruction → Option UInt16
  | .move dst _ | .moveResult dst | .constInt dst _ | .constWide dst _ | .constFloat dst _
  | .constDouble dst _ | .constText dst _ | .constClass dst _ | .constNull dst | .newInstance dst _
  | .newArray dst _ _ | .arrayLength dst _ | .checkCast dst _ _ | .instanceOf dst _ _
  | .binary _ dst _ _ | .instanceGet dst _ _ | .staticGet dst _ => some dst
  | .nop | .returnVoid | .returnValue _ | .throwValue _ | .goto _ | .ifCompare _ _ _ _ | .ifZero _ _ _
  | .instancePut _ _ _ | .staticPut _ _ | .invoke _ _ _ => none

/-- The registers that an instruction reads, in operand order. -/
def read : RawInstruction → List UInt16
  | .move _ src | .returnValue src | .throwValue src | .checkCast _ src _ | .instanceOf _ src _
  | .staticPut src _ => [src]
  | .newArray _ length _ => [length]
  | .arrayLength _ array => [array]
  | .ifCompare _ a b _ | .binary _ _ a b => [a, b]
  | .ifZero _ a _ => [a]
  | .instanceGet _ object _ => [object]
  | .instancePut src object _ => [src, object]
  | .invoke _ _ arguments => arguments
  | .nop | .returnVoid | .moveResult _ | .constInt _ _ | .constWide _ _ | .constFloat _ _
  | .constDouble _ _ | .constText _ _ | .constClass _ _ | .constNull _ | .newInstance _ _ | .goto _
  | .staticGet _ _ => []

/-- Every register of an instruction is written or read. -/
theorem registers_eq (raw : RawInstruction) : raw.registers = raw.written?.toList ++ raw.read := by
  cases raw <;> rfl

end RawInstruction

/-- The registers of a value: the one that is named, and the next one if its tag says that values are wide. -/
def Covers (kinds : List UInt8) (register : UInt16) (index : Nat) : Prop :=
  index = register.toNat ∨
    index = register.toNat + 1 ∧ ∃ tag, kinds[register.toNat]? = some tag ∧ RegisterTag.isWide tag

namespace RawInstruction

/-- The instruction changes what stands in a register. -/
def Writes (kinds : List UInt8) (raw : RawInstruction) (index : Nat) : Prop :=
  ∃ register, raw.written? = some register ∧ Covers kinds register index

/-- The instruction takes what stands in a register. -/
def Reads (kinds : List UInt8) (raw : RawInstruction) (index : Nat) : Prop :=
  ∃ register ∈ raw.read, Covers kinds register index

end RawInstruction

/-- No register of an operand is written by a raw instruction that comes before one that reads it. -/
def RegisterPlan.Keeps (plan : RegisterPlan) (operands : List Local) (raws : List RawInstruction) : Prop :=
  raws.Pairwise fun first second => ∀ slot ∈ operands, ∀ index, plan.Takes slot index →
    first.Writes plan.tags index → ¬second.Reads plan.tags index

/-- A constructor call whose new object goes to a local that it also passes as an argument. -/
def Instruction.PassesResult : Instruction → Prop
  | .invoke call => call.kind = .construct ∧ ∃ result, call.result = some result ∧ result ∈ call.arguments
  | _ => False

namespace RegisterPlan

/-- A local takes the registers that its first register covers. -/
theorem covers_iff {plan : RegisterPlan} (room : slots plan.order ≤ 65535) {slot : Local} {register : UInt16}
    (placed : plan.register? slot = some register) {index : Nat} :
    Covers plan.tags register index ↔ plan.Takes slot index := by
  have tagged := tag_of_register? room placed
  have takes : plan.Takes slot index ↔ register.toNat ≤ index ∧ index < register.toNat + slot.kind.slots := by
    constructor
    · rintro ⟨other, placed', reach⟩
      cases placed.symm.trans placed'
      exact reach
    · exact fun reach => ⟨register, placed, reach⟩
  have wide : (∃ tag, plan.tags[register.toNat]? = some tag ∧ RegisterTag.isWide tag = true) ↔
      slot.kind.isWide := by
    rw [tagged, ← ValueKind.isWide_tag]
    simp
  rw [takes, Covers, wide]
  cases width : slot.kind.isWide with
  | true =>
    simp only [ValueKind.slots, width, if_true, and_true]
    omega
  | false =>
    simp only [ValueKind.slots, width, Bool.false_eq_true, if_false, and_false, or_false]
    omega

end RegisterPlan

section Lowered

variable {final : Pool} {context : CodeContext} {instruction : Instruction} {unit : CodeUnit}

/-- Operands are kept, but for the result that is passed to its own constructor. -/
theorem Lowered.keeps_iff (lowered : Lowered final context instruction unit)
    (room : RegisterPlan.slots context.plan.order ≤ 65535) (distinct : context.plan.order.Nodup) :
    context.plan.Keeps instruction.reads unit.raws ↔ ¬instruction.PassesResult := by
  cases lowered with
  | @construct call result dst type constructor arguments kind _ bound placed operands _ _ =>
    have passes : (Instruction.invoke call).PassesResult ↔ result ∈ call.arguments := by
      simp [Instruction.PassesResult, kind, bound]
    rw [passes]
    simp only [RegisterPlan.Keeps, CodeUnit.raws, List.pairwise_cons, List.mem_singleton, forall_eq,
      List.not_mem_nil, IsEmpty.forall_iff, implies_true, List.Pairwise.nil, and_true]
    constructor
    · intro keeps member
      have own : context.plan.Takes result dst.toNat :=
        (RegisterPlan.covers_iff room placed).mp (.inl rfl)
      exact keeps result member dst.toNat own ⟨dst, rfl, .inl rfl⟩ ⟨dst, List.mem_cons_self, .inl rfl⟩
    · rintro other slot member index takes ⟨register, same, covers⟩ -
      cases same
      have own := (RegisterPlan.covers_iff room placed).mp covers
      exact other (takes.unique room distinct own ▸ member)
  | @call call method arguments result kind _ operands _ _ =>
    have passes : ¬(Instruction.invoke call).PassesResult := fun passes => kind passes.1
    refine iff_of_true ?_ passes
    -- The call itself writes nothing.
    cases result with
    | none => exact List.pairwise_singleton ..
    | some dst =>
      refine List.pairwise_pair.mpr ?_
      rintro slot - index - ⟨_, ⟨⟩, -⟩
  | _ => exact iff_of_true (List.pairwise_singleton ..) id

end Lowered

/-- Raw instructions, each of which leaves the registers that it does not write as they are. -/
def RawInstruction.Leaves (kinds : List UInt8) (raw : RawInstruction) (before after : Nat → α) : Prop :=
  ∀ index, ¬raw.Writes kinds index → after index = before index

namespace Program

/-- The raw instructions of an attached instruction, where they stand in the code of its method: after
those of the instructions before it. -/
structure Renders (program : Program) (image : Image) (id : InstructionId) (slot : Slot) (body : Body)
    (raws : List RawInstruction) : Prop where
  opened : program.body? slot.method = some body
  placed : ∃ written ∈ image.classes, ∃ coded ∈ written.methods, ∃ code before after front back,
    image.pool.NamesMethod program coded.method slot.method ∧ coded.code = some code ∧
    code.kinds = (program.plan body).tags ∧
    body.instructions.toList = before ++ id :: after ∧
    code.instructions.toList = front ++ raws ++ back ∧
    front.length = ((before.filterMap program.instruction?).map Instruction.rawLength).sum
  length : raws.length = slot.instruction.rawLength

/-- The unit of an instruction stands after the units of the instructions before it. -/
theorem exists_unit {program : Program} {final : Pool} {context : CodeContext}
    {before after : List InstructionId} {id : InstructionId} {units : List CodeUnit}
    (each : List.Forall₂ (fun id unit => ∃ instruction, program.instruction? id = some instruction ∧
      Lowered final context instruction unit) (before ++ id :: after) units) :
    ∃ front unit back instruction, units.flatMap CodeUnit.raws = front ++ unit.raws ++ back ∧
      front.length = ((before.filterMap program.instruction?).map Instruction.rawLength).sum ∧
      program.instruction? id = some instruction ∧ Lowered final context instruction unit := by
  induction before generalizing units with
  | nil =>
    rw [List.nil_append] at each
    cases each with
    | @cons _ unit _ units here _ =>
      obtain ⟨instruction, found, lowered⟩ := here
      exact ⟨[], unit, units.flatMap CodeUnit.raws, instruction, rfl, rfl, found, lowered⟩
  | cons first before ih =>
    rw [List.cons_append] at each
    cases each with
    | @cons _ unit _ units here others =>
      obtain ⟨earlier, listed, becomes⟩ := here
      obtain ⟨front, own, back, instruction, same, length, found⟩ := ih others
      refine ⟨unit.raws ++ front, own, back, instruction, ?_, ?_, found⟩
      · rw [List.flatMap_cons, same]
        simp only [List.append_assoc]
      · rw [List.filterMap_cons_some listed, List.map_cons, List.sum_cons, List.length_append, length,
          becomes.length_raws]

/-- An attached instruction is lowered to raw instructions of its method's code. -/
theorem toImage_renders {program : Program} {limits : Limits} {image : Image} (steps : Steps {} program)
    (built : program.toImage limits = .ok image) {id : InstructionId} {slot : Slot}
    (attached : program.slot? id = some slot) :
    ∃ body unit context, program.Renders image id slot body unit.raws ∧ context.plan = program.plan body ∧
      Lowered image.pool context slot.instruction unit ∧
      RegisterPlan.slots context.plan.order ≤ 65535 ∧ context.plan.order.Nodup := by
  obtain ⟨-, classes, -⟩ := toImage_lowered steps.codeAdmitted built
  have bodies := steps.bodiesSound
  have holds : program.holder? id = some slot.method := holder?_of_slot? attached
  have here : program.instruction? id = some slot.instruction := instruction?_of_slot? attached
  obtain ⟨body, opened⟩ := Option.isSome_iff_exists.mp (bodies.held holds)
  obtain ⟨written, inside, coded, within, lowered⟩ :=
    loweredMethod_of_body classes steps.definitionsSound bodies opened
  obtain ⟨code, found, listed, lists, code'⟩ := lowered.of_body opened
  obtain ⟨units, same, each⟩ := code'.units
  have member := (bodies.attached opened id).mpr holds
  obtain ⟨before, after, order⟩ := List.append_of_mem (Array.mem_toList_iff.mpr member)
  have related : List.Forall₂ (fun id unit => ∃ instruction, program.instruction? id = some instruction ∧
      Lowered image.pool (program.surroundings limits slot.method body listed) instruction unit)
      (before ++ id :: after) units := by
    rw [← order]
    refine (forall₂_comp lists each).imp ?_
    rintro id unit ⟨entry, ⟨-, attached⟩, lowered⟩
    exact ⟨entry.2, attached, lowered⟩
  obtain ⟨front, unit, back, instruction, split, length, found', becomes⟩ := exists_unit related
  cases here.symm.trans found'
  refine ⟨body, unit, program.surroundings limits slot.method body listed, ?_, rfl, becomes, code'.room,
    nodup_usedLocals program (bodies.parameters opened)⟩
  exact ⟨opened, ⟨written, inside, coded, within, code, before, after, front, back, lowered.named, found,
    code'.kinds, order, same.trans split, length⟩, becomes.length_raws⟩

end Program

/-- A constructor's raw form: the object goes to the register of the result, and then the constructor runs
on it. The register is an argument as well exactly if the result is. -/
theorem Lowered.of_construct {final : Pool} {context : CodeContext} {call : Call} {unit : CodeUnit}
    (lowered : Lowered final context (.invoke call) unit) (kind : call.kind = .construct)
    (room : RegisterPlan.slots context.plan.order ≤ 65535) (distinct : context.plan.order.Nodup) :
    ∃ result dst type constructor arguments, call.result = some result ∧
      context.Places result dst ∧ List.Forall₂ context.Places call.arguments arguments ∧
      unit.raws = [.newInstance dst type, .invoke .direct constructor (dst :: arguments)] ∧
      (dst ∈ arguments ↔ result ∈ call.arguments) := by
  cases lowered with
  | @call call method arguments result other => exact absurd kind other
  | @construct call result dst type constructor arguments _ _ bound placed operands _ _ =>
    refine ⟨result, dst, type, constructor, arguments, bound, placed, operands, rfl, ?_⟩
    constructor
    · intro member
      obtain ⟨argument, passed, placed'⟩ := forall₂_exists_left operands member
      have own := (RegisterPlan.covers_iff room placed).mp (.inl (Eq.refl dst.toNat))
      have other := (RegisterPlan.covers_iff room placed').mp (.inl (Eq.refl dst.toNat))
      exact other.unique room distinct own ▸ passed
    · intro member
      obtain ⟨register, passed, placed'⟩ := forall₂_exists_right operands member
      cases placed.symm.trans placed'
      exact passed

namespace Session

open Program

/-- A class whose constructor takes an object, and a method that makes two out of its parameter. The first
takes the place of the parameter, which then goes to the constructor of the second. -/
def wrapping : Session :=
  [.define (.object "A") { access := 1 }, .declareMethod ⟨0⟩ "<init>" ⟨[.object "A"], .void⟩ 1,
    .declareMethod ⟨0⟩ "f" ⟨[.object "A"], .void⟩ 8, .createBody ⟨1⟩, .freshLocal .reference,
    .call ⟨.construct, some ⟨0⟩, [⟨0, .reference⟩], some ⟨0, .reference⟩⟩,
    .call ⟨.construct, some ⟨0⟩, [⟨0, .reference⟩], some ⟨1, .reference⟩⟩, .make (.ret none),
    .append ⟨1⟩ (.invoke ⟨.construct, ⟨0⟩, ⟨0⟩, [⟨0, .reference⟩], some ⟨0, .reference⟩⟩),
    .append ⟨1⟩ (.invoke ⟨.construct, ⟨0⟩, ⟨0⟩, [⟨0, .reference⟩], some ⟨1, .reference⟩⟩),
    .append ⟨1⟩ (.ret none)].foldl perform {}

theorem wrapping_reachable : wrapping.Reachable := by
  rw [wrapping]
  simp only [List.foldl_cons, List.foldl_nil]
  refine .next (.next (.next (.next (.next (.next (.next (.next (.next (.next (.next .start
    ?_) ?_) ?_) ?_) trivial) ?_) ?_) ?_) ?_) ?_) ?_
  · exact ⟨by simp, by simp⟩
  · change Option.isSome _ = true
    decide +kernel
  · change Option.isSome _ = true
    decide +kernel
  · change Option.isSome _ = true
    decide +kernel
  · refine ⟨?_, fun slot _ => .inl (by revert slot; decide +kernel)⟩
    rintro _ ⟨⟩
    decide +kernel
  · refine ⟨?_, fun slot _ => .inl (by revert slot; decide +kernel)⟩
    rintro _ ⟨⟩
    decide +kernel
  · exact ⟨by simp, by simp, trivial, by simp [Instruction.locals, Instruction.writes, Instruction.reads]⟩
  · exact ⟨by decide +kernel, by decide +kernel⟩
  · exact ⟨by decide +kernel, by decide +kernel⟩
  · exact ⟨by decide +kernel, by decide +kernel⟩

theorem wrapping_lowers : ∃ image, wrapping.program.toImage {} = .ok image := by
  have lowers : (wrapping.program.toImage {}).toOption.isSome := by decide +kernel
  cases made : wrapping.program.toImage {} with
  | error fault =>
    rw [made] at lowers
    cases lowers
  | ok image => exact ⟨image, rfl⟩

/-- A call of the constructor in the method, with the parameter as its argument. -/
def wrappingCall (result : Local) : Slot :=
  ⟨⟨1⟩, .invoke ⟨.construct, ⟨0⟩, ⟨0⟩, [⟨0, .reference⟩], some result⟩⟩

/-- In the image of a reachable program, no instruction loses an operand before its raw instructions read
it, unless it passes the new object to that object's own constructor. -/
theorem Reachable.operands_kept {session : Session} (reached : session.Reachable) {limits : Limits}
    {image : Image} (built : session.program.toImage limits = .ok image) {id : InstructionId} {slot : Slot}
    (attached : session.program.slot? id = some slot) :
    ∃ body raws, session.program.Renders image id slot body raws ∧
      ((session.program.plan body).Keeps slot.instruction.reads raws ↔ ¬slot.instruction.PassesResult) ∧
      ∀ call, slot.instruction = .invoke call → call.kind = .construct →
        ∃ result dst type constructor arguments, call.result = some result ∧
          (session.program.plan body).register? result = some dst ∧
          List.Forall₂ (fun slot register => (session.program.plan body).register? slot = some register)
            call.arguments arguments ∧
          raws = [.newInstance dst type, .invoke .direct constructor (dst :: arguments)] ∧
          (dst ∈ arguments ↔ result ∈ call.arguments) ∧
          (result ∉ call.arguments → ∀ {α : Type} {file made : Nat → α},
            (RawInstruction.newInstance dst type).Leaves (session.program.plan body).tags file made →
            ∀ argument ∈ call.arguments, ∀ index, (session.program.plan body).Takes argument index →
              made index = file index) := by
  obtain ⟨body, unit, context, renders, plan, lowered, room, distinct⟩ :=
    toImage_renders reached.steps built attached
  refine ⟨body, unit.raws, renders, ?_⟩
  rw [← plan]
  refine ⟨lowered.keeps_iff room distinct, ?_⟩
  intro call same kind
  rw [same] at lowered
  obtain ⟨result, dst, type, constructor, arguments, bound, placed, operands, raws, passes⟩ :=
    lowered.of_construct kind room distinct
  refine ⟨result, dst, type, constructor, arguments, bound, placed, operands, raws, passes, ?_⟩
  intro apart α file made leaves argument member index takes
  apply leaves
  rintro ⟨_, ⟨⟩, covers⟩
  have own := (RegisterPlan.covers_iff room placed).mp covers
  exact apart (own.unique room distinct takes ▸ member)

theorem operands_kept_wrapping :
    ∃ image body raws, wrapping.program.toImage {} = .ok image ∧
      wrapping.program.Renders image ⟨1⟩ (wrappingCall ⟨1, .reference⟩) body raws ∧
      (wrapping.program.plan body).Keeps [⟨0, .reference⟩] raws := by
  obtain ⟨image, built⟩ := wrapping_lowers
  have attached : wrapping.program.slot? ⟨1⟩ = some (wrappingCall ⟨1, .reference⟩) :=
    slot?_eq_some_iff.mpr ⟨by decide +kernel, by decide +kernel⟩
  obtain ⟨body, raws, renders, keeps, -⟩ := wrapping_reachable.operands_kept built attached
  refine ⟨image, body, raws, built, renders, keeps.mpr ?_⟩
  rintro ⟨-, result, same, member⟩
  cases same
  revert member
  decide

/-- The parameter's register is written before the constructor reads its argument from it. -/
theorem wrapping_overwrites :
    ∃ image body raws dst type constructor, wrapping.program.toImage {} = .ok image ∧
      wrapping.program.Renders image ⟨0⟩ (wrappingCall ⟨0, .reference⟩) body raws ∧
      (wrapping.program.plan body).register? ⟨0, .reference⟩ = some dst ∧
      raws = [.newInstance dst type, .invoke .direct constructor [dst, dst]] ∧
      ¬(wrapping.program.plan body).Keeps [⟨0, .reference⟩] raws := by
  obtain ⟨image, built⟩ := wrapping_lowers
  have attached : wrapping.program.slot? ⟨0⟩ = some (wrappingCall ⟨0, .reference⟩) :=
    slot?_eq_some_iff.mpr ⟨by decide +kernel, by decide +kernel⟩
  obtain ⟨body, unit, context, renders, plan, lowered, room, distinct⟩ :=
    toImage_renders wrapping_reachable.steps built attached
  obtain ⟨result, dst, type, constructor, arguments, bound, placed, operands, raws, -⟩ :=
    lowered.of_construct rfl room distinct
  have passes : (wrappingCall ⟨0, .reference⟩).instruction.PassesResult := ⟨rfl, _, rfl, List.mem_cons_self⟩
  have loses := (not_congr (lowered.keeps_iff room distinct)).mpr (not_not.mpr passes)
  rw [plan] at loses
  cases bound
  cases operands with
  | @cons _ register _ rest first others =>
    cases others
    cases placed.symm.trans first
    refine ⟨image, body, unit.raws, dst, type, constructor, built, renders, ?_, raws, loses⟩
    rw [← plan]
    exact placed

end Session

end ClassImage
