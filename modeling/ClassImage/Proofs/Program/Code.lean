import ClassImage.Proofs.Program.Step

/-!
Bodies and the places of instructions under the edits of code. Attaching fills
one place and lists it in one body, detaching empties it again, and turning a
branch changes where an instruction goes but neither what it refers to nor the
locals it uses.
-/

namespace ClassImage

namespace Instruction

/-- Control never goes on to what stands after the instruction. -/
def isClosing : Instruction → Bool
  | .ret _ | .branch none _ | .throwValue _ => true
  | _ => false

variable (old new : InstructionId) (instruction : Instruction)

@[simp] theorem references_retarget :
    (instruction.retarget old new).references = instruction.references := by
  cases instruction <;> rfl

theorem retarget_retarget :
    (instruction.retarget old new).retarget old new = instruction.retarget old new := by
  cases instruction with
  | branch test target =>
    simp only [retarget]
    by_cases here : target = old
    · simp [here]
    · simp [here]
  | _ => rfl

end Instruction

namespace Program

variable (program : Program)

@[simp] theorem memberShape?_retarget (old new : InstructionId) (instruction : Instruction) :
    program.memberShape? (instruction.retarget old new) = program.memberShape? instruction := by
  cases instruction <;> rfl

@[simp] theorem admits_retarget (old new : InstructionId) (instruction : Instruction) :
    program.Admits (instruction.retarget old new) ↔ program.Admits instruction := by
  cases instruction <;> rfl

theorem slot?_lt {program : Program} {id : InstructionId} {slot : Slot}
    (attached : program.slot? id = some slot) : id.index < program.code.size := by
  by_contra outside
  rw [slot?, Array.getElem?_eq_none (by omega)] at attached
  cases attached

theorem slot?_unissued {program : Program} {id : InstructionId} (unissued : program.code.size ≤ id.index) :
    program.slot? id = none := by
  rw [slot?, Array.getElem?_eq_none unissued]
  rfl

theorem holder?_of_slot? {program : Program} {id : InstructionId} {slot : Slot}
    (attached : program.slot? id = some slot) : program.holder? id = some slot.method := by
  rw [holder?, attached, Option.map_some]

theorem instruction?_of_slot? {program : Program} {id : InstructionId} {slot : Slot}
    (attached : program.slot? id = some slot) : program.instruction? id = some slot.instruction := by
  rw [instruction?, attached, Option.map_some]

theorem slot?_eq_some_iff {program : Program} {id : InstructionId} {slot : Slot} :
    program.slot? id = some slot ↔
      program.holder? id = some slot.method ∧ program.instruction? id = some slot.instruction := by
  refine ⟨fun attached => ⟨holder?_of_slot? attached, instruction?_of_slot? attached⟩, ?_⟩
  rintro ⟨held, found⟩
  obtain ⟨⟨_, _⟩, here, rfl⟩ := Option.map_eq_some_iff.mp held
  obtain ⟨⟨_, _⟩, there, rfl⟩ := Option.map_eq_some_iff.mp found
  cases here.symm.trans there
  exact here

theorem slot?_addHandles (count : Nat) : (program.addHandles count).slot? = program.slot? := by
  funext id
  simp only [slot?, addHandles, Array.getElem?_append]
  split
  · rfl
  · rename_i outside
    rw [Array.getElem?_eq_none (Nat.not_lt.mp outside), Array.getElem?_replicate]
    split <;> rfl

theorem slot?_attach {method : MethodId} {position : Nat} {id : InstructionId}
    {instruction : Instruction} (issued : id.index < program.code.size) (other : InstructionId) :
    (program.attach method position id instruction).slot? other =
      if other = id then some ⟨method, instruction⟩ else program.slot? other := by
  have place : (program.attach method position id instruction).code =
      program.code.setIfInBounds id.index (some ⟨method, instruction⟩) := rfl
  rw [slot?, place, Array.getElem?_setIfInBounds]
  by_cases here : other = id
  · simp [here, issued]
  · have apart : id.index ≠ other.index := fun same => here (congrArg InstructionId.mk same.symm)
    rw [if_neg apart, if_neg here, slot?]

theorem slot?_detach (id : InstructionId) (slot : Slot) (other : InstructionId) :
    (program.detach id slot).slot? other = if other = id then none else program.slot? other := by
  have place : (program.detach id slot).code = program.code.setIfInBounds id.index none := rfl
  rw [slot?, place, Array.getElem?_setIfInBounds]
  by_cases here : other = id
  · by_cases inside : id.index < program.code.size
    · simp [here, inside]
    · simp [here, inside]
  · have apart : id.index ≠ other.index := fun same => here (congrArg InstructionId.mk same.symm)
    rw [if_neg apart, if_neg here, slot?]

theorem slot?_retarget (branches : List InstructionId) (old new id : InstructionId) :
    (program.retarget branches old new).slot? id = (program.slot? id).map fun slot =>
      if id ∈ branches then { slot with instruction := slot.instruction.retarget old new }
      else slot := by
  induction branches generalizing program with
  | nil => simp [retarget]
  | cons branch branches ih =>
    unfold retarget at ih ⊢
    rw [List.foldl_cons, ih]
    simp only [slot?, Array.getElem?_modify]
    by_cases here : id = branch
    · rw [if_pos (congrArg InstructionId.index here.symm)]
      rcases program.code[id.index]? with _ | _ | slot
      · rfl
      · rfl
      · simp [here, Instruction.retarget_retarget]
    · have apart : branch.index ≠ id.index := fun same => here (congrArg InstructionId.mk same.symm)
      simp [apart, here]

theorem holder?_addHandles (count : Nat) : (program.addHandles count).holder? = program.holder? := by
  funext id
  rw [holder?, slot?_addHandles, holder?]

theorem holder?_attach {method : MethodId} {position : Nat} {id : InstructionId}
    {instruction : Instruction} (issued : id.index < program.code.size) (other : InstructionId) :
    (program.attach method position id instruction).holder? other =
      if other = id then some method else program.holder? other := by
  rw [holder?, slot?_attach program issued]
  split <;> rfl

theorem holder?_detach (id : InstructionId) (slot : Slot) (other : InstructionId) :
    (program.detach id slot).holder? other = if other = id then none else program.holder? other := by
  rw [holder?, slot?_detach]
  split <;> rfl

theorem holder?_retarget (branches : List InstructionId) (old new : InstructionId) :
    (program.retarget branches old new).holder? = program.holder? := by
  funext id
  rw [holder?, slot?_retarget, holder?, Option.map_map]
  congr 1
  funext slot
  simp only [Function.comp_apply]
  split <;> rfl

theorem body?_modifyBody (method : MethodId) (change : Body → Body) (other : MethodId) :
    (program.modifyBody method change).body? other =
      if other = method then (program.body? other).map change else program.body? other := by
  simp only [body?, methodAt, modifyBody, Array.getD_modify]
  by_cases here : other = method
  · by_cases inside : other.index < program.methods.size
    · simp [here, here ▸ inside]
    · simp [here, here ▸ inside, Array.getD_eq_getD_getElem?]
      rfl
  · have apart : method.index ≠ other.index := fun same => here (congrArg MethodId.mk same.symm)
    simp [apart, here]

theorem body?_attach (method : MethodId) (position : Nat) (id : InstructionId)
    (instruction : Instruction) (other : MethodId) :
    (program.attach method position id instruction).body? other =
      if other = method then (program.body? other).map fun body =>
        { body with
          locals := body.locals ++
            (instruction.locals.foldl (claimLocal method) (program.owners, #[])).2
          instructions := body.instructions.insertIdxIfInBounds position id }
      else program.body? other :=
  body?_modifyBody _ _ _ _

theorem body?_detach (id : InstructionId) (slot : Slot) (other : MethodId) :
    (program.detach id slot).body? other =
      if other = slot.method then (program.body? other).map fun body =>
        { body with instructions := body.instructions.filter (· ≠ id) }
      else program.body? other :=
  body?_modifyBody _ _ _ _

theorem body?_retarget (branches : List InstructionId) (old new : InstructionId) :
    (program.retarget branches old new).body? = program.body? := by
  rw [retarget_eq]
  rfl

theorem marker_modifyBody (method : MethodId) (change : Body → Body) :
    (program.modifyBody method change).marker = program.marker := by
  funext symbol
  cases symbol with
  | method id =>
    simp only [marker, methodAt, modifyBody, Array.getD_modify]
    split <;> rfl
  | _ => rfl

theorem marker_detach (id : InstructionId) (slot : Slot) :
    (program.detach id slot).marker = program.marker :=
  marker_modifyBody _ _ _

theorem marker_attach (method : MethodId) (position : Nat) (id : InstructionId)
    (instruction : Instruction) :
    (program.attach method position id instruction).marker = program.marker :=
  marker_modifyBody _ _ _

theorem fits_of_marker {before after : Program} (more : before.Extends after)
    (same : after.marker = before.marker) {instruction : Instruction}
    (admitted : before.Admits instruction) (fits : before.Fits instruction) :
    after.Fits instruction := by
  intro symbol used shape known marked
  rw [more.memberShape?_eq admitted] at shape
  rw [same] at marked
  exact fits symbol used shape known marked

/-- An attached instruction was there before, up to its target, or was checked by the step. -/
theorem Step.slot?_cases {before after : Program} (step : Step before after) {id : InstructionId}
    {slot : Slot} (attached : after.slot? id = some slot) :
    (∃ old, before.slot? id = some old ∧ slot.method = old.method ∧
      (slot.instruction = old.instruction ∨
        ∃ first second, slot.instruction = old.instruction.retarget first second)) ∨
      before.Admits slot.instruction ∧ before.Fits slot.instruction ∧
        after.marker = before.marker := by
  cases step with
  | grow growth =>
    rw [slot?, growth.code] at attached
    exact .inl ⟨slot, attached, rfl, .inl rfl⟩
  | handles =>
    rw [slot?_addHandles] at attached
    exact .inl ⟨slot, attached, rfl, .inl rfl⟩
  | attach new _ _ issued _ admitted fits =>
    rw [slot?_attach before issued] at attached
    split at attached
    · cases attached
      exact .inr ⟨admitted, fits, marker_attach _ _ _ _ _⟩
    · exact .inl ⟨slot, attached, rfl, .inl rfl⟩
  | detach _ =>
    rw [slot?_detach] at attached
    split at attached
    · cases attached
    · exact .inl ⟨slot, attached, rfl, .inl rfl⟩
  | retarget =>
    rw [slot?_retarget] at attached
    obtain ⟨old, there, same⟩ := Option.map_eq_some_iff.mp attached
    split at same
    · cases same
      exact .inl ⟨old, there, rfl, .inr ⟨_, _, rfl⟩⟩
    · cases same
      exact .inl ⟨_, there, rfl, .inl rfl⟩
  | define | declareMethod | declareField | body => exact .inl ⟨slot, attached, rfl, .inl rfl⟩

/-- Every attached instruction is admitted. -/
def CodeAdmitted (program : Program) : Prop :=
  ∀ id slot, program.slot? id = some slot → program.Admits slot.instruction

theorem fits_retarget {program : Program} {instruction : Instruction}
    (fits : program.Fits instruction) (old new : InstructionId) :
    program.Fits (instruction.retarget old new) := by
  intro symbol used shape
  rw [memberShape?_retarget] at shape
  exact fits symbol used shape

theorem CodeAdmitted.step {before after : Program} (admitted : before.CodeAdmitted)
    (step : Step before after) : after.CodeAdmitted := by
  intro id slot attached
  apply step.extends.admits
  rcases step.slot?_cases attached with ⟨old, there, -, same | ⟨first, second, same⟩⟩ | ⟨new, -⟩
  · rw [same]
    exact admitted id old there
  · rw [same, admits_retarget]
    exact admitted id old there
  · exact new

theorem Steps.codeAdmitted {program : Program} (steps : Steps {} program) : program.CodeAdmitted := by
  induction steps with
  | refl =>
    intro id slot attached
    cases attached
  | tail _ step ih => exact ih.step step

end Program

end ClassImage
