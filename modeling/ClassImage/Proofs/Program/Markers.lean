import ClassImage.Proofs.Program.Definitions
import ClassImage.Proofs.Program.Uses

/-!
Static markers fit declarations and code. A known marker never changes; a
declared member has the marker of its access flags, and no attached instruction
implies another marker for its member than the known one. When a marker becomes
known, the attached uses are found through the use lists, which are exact.
-/

namespace ClassImage

namespace Program

structure MarkersSound (program : Program) : Prop where
  methods : ∀ {method type access}, program.declaredMethod? method = some (type, access) →
    program.marker (.method method) = some (Access.isSet access Access.static)
  fields : ∀ {field type access}, program.declaredField? field = some (type, access) →
    program.marker (.field field) = some (Access.isSet access Access.static)
  code : ∀ {id slot}, program.slot? id = some slot → program.Fits slot.instruction

/-- The member that decides an instruction's operands is one it refers to. -/
theorem memberShape?_refers {program : Program} {instruction : Instruction} {symbol : Symbol}
    {used : Bool} (shape : program.memberShape? instruction = some (symbol, used)) :
    ∃ kind, (symbol, kind) ∈ instruction.references := by
  cases instruction with
  | invoke call =>
    rw [memberShape?_invoke] at shape
    cases shape
    obtain ⟨kind, method, owner, arguments, result⟩ := call
    cases kind <;> simp [Instruction.references]
  | access use =>
    cases shape
    obtain ⟨kind, field, value, object⟩ := use
    cases kind <;> simp [Instruction.references]
  | _ => cases shape

theorem hasMember_of_admits {program : Program} {instruction : Instruction} {symbol : Symbol}
    {used : Bool} (admitted : program.Admits instruction)
    (shape : program.memberShape? instruction = some (symbol, used)) : program.HasMember symbol := by
  cases instruction with
  | invoke call =>
    rw [memberShape?_invoke] at shape
    cases shape
    obtain ⟨name, signature, key, -⟩ := admitted
    exact Option.isSome_iff_exists.mpr ⟨_, key⟩
  | access use =>
    cases shape
    obtain ⟨owner, name, type, key, -⟩ := admitted
    exact Option.isSome_iff_exists.mpr ⟨_, key⟩
  | _ => cases shape

/-- Saying more about a symbol keeps every attached instruction fitting. -/
theorem fits_growth {before after : Program} (growth : Growth before after) (uses : before.UsesExact)
    {id : InstructionId} {slot : Slot} (attached : before.slot? id = some slot)
    (admitted : before.Admits slot.instruction) (fits : before.Fits slot.instruction) :
    after.Fits slot.instruction := by
  intro symbol used shape known marked
  rw [growth.extends.memberShape?_eq admitted] at shape
  rcases growth.marker_cases (hasMember_of_admits admitted shape) with same | ⟨static, -, checked, set⟩
  · rw [same] at marked
    exact fits symbol used shape known marked
  · obtain ⟨kind, refers⟩ := memberShape?_refers shape
    have used : ⟨kind, id⟩ ∈ before.useList symbol := (uses.exact _ _).mpr ⟨slot, attached, refers⟩
    have here : before.instruction? id = some slot.instruction := by rw [instruction?, attached]; rfl
    rw [set] at marked
    cases marked
    exact checkUses_ok checked used here shape

theorem MarkersSound.step {before after : Program} (sound : before.MarkersSound)
    (admitted : before.CodeAdmitted) (uses : before.UsesExact) (step : Step before after) :
    after.MarkersSound := by
  have kept : ∀ {symbol static}, before.marker symbol = some static →
      after.marker symbol = some static := Steps.marker_kept (.single step)
  have fits : ∀ {id slot}, before.slot? id = some slot → after.Fits slot.instruction := by
    intro id slot attached
    rcases step.growth_or_marker with growth | same
    · exact fits_growth growth uses attached (admitted id slot attached) (sound.code attached)
    · exact fits_of_marker step.extends same (admitted id slot attached) (sound.code attached)
  constructor
  · intro method type access declared
    apply kept
    rcases step.declaredMethod?_cases declared with declared | marked
    · exact sound.methods declared
    · exact marked
  · intro field type access declared
    apply kept
    rcases step.declaredField?_cases declared with declared | marked
    · exact sound.fields declared
    · exact marked
  · intro id slot attached
    rcases step.slot?_cases attached with
      ⟨old, there, -, same | ⟨first, second, same⟩⟩ | ⟨new, checked, same⟩
    · rw [same]
      exact fits there
    · rw [same]
      exact fits_retarget (fits there) first second
    · exact fits_of_marker step.extends same new checked

theorem Steps.markersSound {program : Program} (steps : Steps {} program) : program.MarkersSound := by
  induction steps with
  | refl =>
    have methods : ({} : Program).declaredMethod? = fun _ => none := rfl
    have fields : ({} : Program).declaredField? = fun _ => none := rfl
    have slots : ({} : Program).slot? = fun _ => none := rfl
    constructor <;> simp [methods, fields, slots]
  | tail steps step ih => exact ih.step (Steps.codeAdmitted steps) (Steps.usesExact steps) step

/-- A known marker decides whether a call names its method alone, and how many operands it has. -/
theorem MarkersSound.call {program : Program} (sound : program.MarkersSound)
    (admitted : program.CodeAdmitted) {id : InstructionId} {call : Call} {static : Bool}
    (attached : program.instruction? id = some (.invoke call))
    (known : program.marker (.method call.method) = some static) :
    (call.kind = .normal → call.arguments.length =
      (program.methodAt call.method).signature.arity + if static then 0 else 1) ∧
    (call.kind ≠ .normal → static = false) := by
  obtain ⟨⟨method, instruction⟩, there, rfl⟩ := Option.map_eq_some_iff.mp attached
  obtain ⟨name, signature, key, suits⟩ := admitted id _ there
  have implied := sound.code there _ _ (memberShape?_invoke program call) static known
  rw [(methodKey?_methodAt key).2.2] at implied ⊢
  rw [implied, Call.implied]
  constructor
  · intro normal
    rcases suits.count with plain | bound
    · simp [normal, plain]
    · simp [normal, bound]
  · intro other
    simp [other]

theorem MarkersSound.access {program : Program} (sound : program.MarkersSound) {id : InstructionId}
    {use : FieldAccess} {static : Bool} (attached : program.instruction? id = some (.access use))
    (known : program.marker (.field use.field) = some static) :
    use.object = none ↔ static = true := by
  obtain ⟨⟨method, instruction⟩, there, rfl⟩ := Option.map_eq_some_iff.mp attached
  rw [sound.code there _ _ rfl static known, Option.isNone_iff_eq_none]

end Program

namespace Session

open Program

/-- In every reachable program the operands of attached calls and accesses are those that the known
markers ask for, and the marker of a declared member is known from its access flags. -/
theorem Reachable.markers_fit {session : Session} (reached : session.Reachable) :
    (∀ id call static, session.program.instruction? id = some (.invoke call) →
      session.program.marker (.method call.method) = some static →
      (call.kind = .normal → call.arguments.length =
        (session.program.methodAt call.method).signature.arity + if static then 0 else 1) ∧
      (call.kind ≠ .normal → static = false)) ∧
    (∀ id use static, session.program.instruction? id = some (.access use) →
      session.program.marker (.field use.field) = some static →
      (use.object = none ↔ static = true)) ∧
    (∀ method access, (session.program.methodAt method).declaration = some access →
      session.program.marker (.method method) = some (Access.isSet access Access.static)) ∧
    (∀ field access, (session.program.fieldAt field).declaration = some access →
      session.program.marker (.field field) = some (Access.isSet access Access.static)) := by
  have sound := reached.steps.markersSound
  refine ⟨?_, ?_, ?_, ?_⟩
  · intro id call static attached known
    exact sound.call reached.steps.codeAdmitted attached known
  · intro id use static attached known
    exact sound.access attached known
  · intro method access declared
    exact sound.methods (Option.map_eq_some_iff.mpr ⟨access, declared, rfl⟩)
  · intro field access declared
    exact sound.fields (Option.map_eq_some_iff.mpr ⟨access, declared, rfl⟩)

theorem markers_fit_recursive :
    recursive.program.instruction? ⟨0⟩ = some (.invoke ⟨.normal, ⟨0⟩, ⟨0⟩, [], none⟩) ∧
      recursive.program.marker (.method ⟨0⟩) = some true ∧
      (recursive.program.methodAt ⟨0⟩).signature.arity = 0 := by
  have attached : recursive.program.instruction? ⟨0⟩ =
      some (.invoke ⟨.normal, ⟨0⟩, ⟨0⟩, [], none⟩) := by decide +kernel
  have declared : (recursive.program.methodAt ⟨0⟩).declaration = some 8 := by decide +kernel
  have marked := recursive_reachable.markers_fit.2.2.1 ⟨0⟩ 8 declared
  have counted := (recursive_reachable.markers_fit.1 ⟨0⟩ _ _ attached marked).1 rfl
  refine ⟨attached, marked, ?_⟩
  simpa [Access.isSet, Access.static] using counted.symm

end Session

end ClassImage
