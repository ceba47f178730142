import ClassImage.Proofs.Program.Revisions

/-!
Replacing an instruction. The new instruction takes the place of the old one in
the body and in the targets of branches, those of the old instruction itself and
of the new one included. All else of the program stays: other places and bodies,
what is known of symbols, and the uses of every symbol to which neither of the
two instructions refers.
-/

namespace ClassImage

namespace Instruction

theorem filter_references_eq_nil {symbol : Symbol} {instruction : Instruction}
    (apart : symbol ∉ instruction.references.map Prod.fst) :
    instruction.references.filter (·.1 = symbol) = [] := by
  rw [List.filter_eq_nil_iff]
  intro reference member same
  exact apart (of_decide_eq_true same ▸ List.mem_map_of_mem member)

/-- No branch to the old instruction is left. -/
theorem target?_retarget_ne {old new : InstructionId} (differs : new ≠ old) (instruction : Instruction) :
    (instruction.retarget old new).target? ≠ some old := by
  rw [target?_retarget]
  intro same
  obtain ⟨target, -, turned⟩ := Option.map_eq_some_iff.mp same
  split at turned
  · exact differs turned
  · rename_i elsewhere
    exact elsewhere turned

end Instruction

namespace Program

/-- Uses and their revision are all that there is to know of a symbol's uses. -/
theorem get_uses_eq {before after : Program} {symbol : Symbol}
    (list : after.useList symbol = before.useList symbol)
    (same : after.revision symbol = before.revision symbol) :
    after.uses.get symbol = before.uses.get symbol := by
  revert list same
  rw [useList, useList, revision, revision]
  rcases after.uses.get symbol with ⟨uses, count⟩
  rcases before.uses.get symbol with ⟨uses', count'⟩
  rintro list rfl
  obtain rfl : uses = uses' := Array.ext' list
  rfl

/-- No body lists a handle that was not issued. -/
theorem BodiesSound.unlisted {program : Program} (bodies : program.BodiesSound) {id : InstructionId}
    (unissued : program.code.size ≤ id.index) {method : MethodId} {body : Body}
    (here : program.body? method = some body) : id ∉ body.instructions := by
  intro member
  have held := (bodies.attached here id).mp member
  rw [holder?, slot?_unissued unissued] at held
  cases held

/-- What is known of methods beside their bodies. -/
def outlines (program : Program) : Array MethodEntry :=
  program.methods.map fun entry => { entry with body := none }

theorem outlines_modifyBody (program : Program) (method : MethodId) (change : Body → Body) :
    (program.modifyBody method change).outlines = program.outlines := by
  apply Array.ext_getElem?
  intro index
  simp only [outlines, modifyBody, Array.getElem?_map, Array.getElem?_modify]
  split
  · rw [Option.map_map]
    rfl
  · rfl

section Swap

variable {program : Program} {old : InstructionId} {slot : Slot} {body : Body} {position : Nat}
  (instruction : Instruction)

theorem body?_swap (other : MethodId) :
    (program.swap old slot position instruction).body? other =
      if other = slot.method then (program.body? other).map fun body =>
        { body with
          locals := body.locals ++ (instruction.locals.foldl (claimLocal slot.method) (program.owners, #[])).2
          instructions := (body.instructions.filter (· ≠ old)).insertIdxIfInBounds position
            ⟨program.code.size⟩ }
      else program.body? other := by
  rw [swap, body?_retarget, body?_attach]
  simp only [body?_detach]
  split
  · rw [Option.map_map]
    rfl
  · rfl

theorem uses_swap : (program.swap old slot position instruction).uses =
    (((program.addHandles 1).detach old slot).attach slot.method position ⟨program.code.size⟩ instruction).uses := by
  rw [swap, uses_retarget]

theorem useList_swap (uses : program.UsesExact) (attached : program.slot? old = some slot) (symbol : Symbol) :
    (program.swap old slot position instruction).useList symbol =
      (program.useList symbol).filter (·.instruction ≠ old) ++
        (instruction.references.filter (·.1 = symbol)).map fun (_, kind) => ⟨kind, ⟨program.code.size⟩⟩ := by
  have detached := uses.useList_detach attached symbol
  rw [useList, uses_swap, ← useList, useList_attach]
  exact congrArg (· ++ _) detached

theorem uses_swap_of_not_mem {symbol : Symbol} (old' : symbol ∉ slot.instruction.references.map Prod.fst)
    (new : symbol ∉ instruction.references.map Prod.fst) :
    (program.swap old slot position instruction).uses.get symbol = program.uses.get symbol := by
  apply get_uses_eq
  · rw [useList, uses_swap, ← useList, useList_attach, Program.useList_detach, if_neg old',
      Instruction.filter_references_eq_nil new, List.map_nil, List.append_nil]
    rfl
  · rw [revision, uses_swap, ← revision, revision_attach, revision_detach, Instruction.waysTo, Instruction.waysTo,
      Instruction.filter_references_eq_nil new, Instruction.filter_references_eq_nil old']
    rfl

theorem outlines_swap : (program.swap old slot position instruction).outlines = program.outlines := by
  rw [swap, retarget_eq]
  exact (outlines_modifyBody _ _ _).trans (outlines_modifyBody _ _ _)

theorem tables_swap : (program.swap old slot position instruction).types = program.types ∧
    (program.swap old slot position instruction).defined = program.defined ∧
    (program.swap old slot position instruction).fields = program.fields := by
  rw [swap, retarget_eq]
  exact ⟨rfl, rfl, rfl⟩

theorem owners_swap : (program.swap old slot position instruction).owners =
    (instruction.locals.foldl (claimLocal slot.method) (program.owners, #[])).1 := by
  rw [swap, retarget_eq]
  rfl

theorem owner?_swap (other : Local) : (program.swap old slot position instruction).owner? other =
    if other.id ∈ instruction.locals.map Local.id ∧ other.id < program.owners.size ∧
        program.owner? other = none then some slot.method
    else program.owner? other := by
  rw [owner?, owners_swap]
  exact claim_owner slot.method instruction.locals (program.owners, #[]) other.id

end Swap

end Program

open Program

/-- An instruction with a handle of its own stands where the old one did; all else is as it was. -/
structure Swapped (before after : Program) (old id : InstructionId) (instruction : Instruction) (slot : Slot)
    (body : Body) : Prop where
  attached : before.slot? old = some slot
  opened : before.body? slot.method = some body
  once : body.instructions.toList.count old = 1
  /-- The new handle had not been issued, so nothing could know of it. -/
  unissued : before.code.size ≤ id.index
  absent : ∀ method listed, before.body? method = some listed → id ∉ listed.instructions
  /-- The old handle becomes the new one, the other handles of the body keep their places, and the body
  lists the locals that the new instruction brings. -/
  listed : ∃ joined, (∀ other ∈ joined, other ∈ instruction.locals ∧ before.owner? other = none) ∧
    after.body? slot.method = some ⟨body.parameters, body.locals ++ joined,
      body.instructions.map fun other => if other = old then id else other⟩
  renewed : after.slot? id = some ⟨slot.method, instruction.retarget old id⟩
  gone : after.slot? old = none
  /-- Branches to the old instruction go to the new one. -/
  followed : ∀ other method test, other ≠ old → before.slot? other = some ⟨method, .branch test old⟩ →
    after.slot? other = some ⟨method, .branch test id⟩
  untargeted : ∀ other place, after.slot? other = some place → place.instruction.target? ≠ some old
  /-- Other instructions stay as they are, and no others come to be attached. -/
  kept : ∀ other place, other ≠ old → before.slot? other = some place →
    place.instruction.target? ≠ some old → after.slot? other = some place
  vacant : ∀ other, other ≠ id → before.slot? other = none → after.slot? other = none
  bodies : ∀ method, method ≠ slot.method → after.body? method = before.body? method
  types : after.types = before.types
  defined : after.defined = before.defined
  fields : after.fields = before.fields
  methods : after.outlines = before.outlines
  /-- A local that has an owner keeps it, and so does one that the new instruction does not use. -/
  owners : ∀ other : Local, before.owner? other ≠ none ∨ other.id ∉ instruction.locals.map Local.id →
    after.owner? other = before.owner? other
  uses : ∀ symbol, after.useList symbol = (before.useList symbol).filter (·.instruction ≠ old) ++
    (instruction.references.filter (·.1 = symbol)).map fun (_, kind) => ⟨kind, id⟩
  /-- Symbols to which neither instruction refers have the uses that they had, at the same revision. -/
  untouched : ∀ symbol, symbol ∉ slot.instruction.references.map Prod.fst →
    symbol ∉ instruction.references.map Prod.fst → after.uses.get symbol = before.uses.get symbol

section

variable {before : Program} {old : InstructionId} {instruction : Instruction}

/-- A swap is one in place. -/
theorem Program.swapped {slot : Slot} {body : Body} {position : Nat} (bodies : before.BodiesSound)
    (targets : before.TargetsSound) (uses : before.UsesExact) (attached : before.slot? old = some slot)
    (opened : before.body? slot.method = some body) (found : body.instructions.idxOf? old = some position) :
    Swapped before (before.swap old slot position instruction) old ⟨before.code.size⟩ instruction slot body := by
  have view := @slot?_swap before old slot position instruction bodies targets attached
  have apart : ∀ {other place}, before.slot? other = some place → other ≠ ⟨before.code.size⟩ := by
    rintro _ place there rfl
    exact lt_irrefl _ (slot?_lt there)
  have distinct := bodies.distinct opened
  have held : before.holder? old = some slot.method := holder?_of_slot? attached
  have member : old ∈ body.instructions.toList :=
    Array.mem_toList_iff.mpr ((bodies.attached opened old).mpr held)
  obtain ⟨types, defined, fields⟩ := @tables_swap before old slot position instruction
  obtain ⟨joined, list, free, -⟩ := claim_lists slot.method instruction.locals (before.owners, #[])
  constructor
  case attached => exact attached
  case opened => exact opened
  case once => exact List.count_eq_one_of_mem distinct member
  case unissued => exact le_rfl
  case absent => exact fun _ _ => bodies.unlisted le_rfl
  case listed =>
    refine ⟨joined, free, ?_⟩
    rw [body?_swap, if_pos rfl, opened, Option.map_some, list, Array.empty_append,
      insertIdx_filter found distinct]
  case renewed => rw [view, if_pos rfl]
  case gone => rw [view, if_neg (apart attached), if_pos rfl]
  case followed =>
    intro other method test differs there
    rw [view, if_neg (apart there), if_neg differs, there, Option.map_some, Instruction.retarget, if_pos rfl]
  case untargeted =>
    intro other place there
    have turned : ∃ source, place.instruction = Instruction.retarget old ⟨before.code.size⟩ source := by
      rw [view] at there
      split at there
      · cases there
        exact ⟨instruction, rfl⟩
      · split at there
        · cases there
        · obtain ⟨source, -, rfl⟩ := Option.map_eq_some_iff.mp there
          exact ⟨source.instruction, rfl⟩
    obtain ⟨source, same⟩ := turned
    rw [same]
    exact Instruction.target?_retarget_ne (apart attached).symm source
  case kept =>
    intro other place differs there elsewhere
    rw [view, if_neg (apart there), if_neg differs, there, Option.map_some,
      Instruction.retarget_of_ne elsewhere]
  case vacant =>
    intro other new none
    rw [view, if_neg new, none, Option.map_none, ite_self]
  case bodies =>
    intro method other
    rw [body?_swap, if_neg other]
  case types => exact types
  case defined => exact defined
  case fields => exact fields
  case methods => exact outlines_swap _
  case owners =>
    intro other apart
    rw [owner?_swap, if_neg]
    rintro ⟨used, -, vacant⟩
    exact apart.elim (· vacant) (· used)
  case uses => exact useList_swap _ uses attached
  case untouched => exact fun symbol first second => uses_swap_of_not_mem _ first second

end

namespace Session

/-- A replacement that succeeds in a reachable program is a swap in place, whatever branches there are to
the old instruction, and wherever the old instruction and the new one themselves branch to. -/
theorem Reachable.replace_swaps {session : Session} (reached : session.Reachable) {old id : InstructionId}
    {instruction previous : Instruction} {after : Program}
    (replaced : Edit.replace old instruction session.program = (.ok (id, previous), after)) :
    ∃ slot body, previous = slot.instruction ∧
      Swapped session.program after old id instruction slot body := by
  have reaches := @Edit.reaches_replace session.program (fun _ _ => True) instruction (fun _ => trivial) old
  obtain ⟨-, slot, body, position, attached, opened, found, same, rfl⟩ := reaches.ran (reached.steps.indexed .empty) replaced
  cases same
  refine ⟨slot, body, rfl, ?_⟩
  exact swapped reached.steps.bodiesSound reached.targets reached.steps.usesExact attached opened found

/-- The recursive method with two branches in place of its return: one to itself and one to that. -/
def spinning : Session :=
  [.make (.branch none ⟨1⟩), .replace ⟨1⟩ (.branch none ⟨1⟩), .make (.branch none ⟨2⟩),
    .append ⟨0⟩ (.branch none ⟨2⟩)].foldl perform recursive

theorem spinning_reachable : spinning.Reachable := by
  rw [spinning]
  simp only [List.foldl_cons, List.foldl_nil]
  refine .next (.next (.next (.next recursive_reachable ?_) ?_) ?_) ?_
  · exact ⟨by simp, by simp, trivial, by simp [Instruction.locals, Instruction.writes, Instruction.reads]⟩
  · change _ ∈ _
    decide +kernel
  · exact ⟨by simp, by simp, trivial, by simp [Instruction.locals, Instruction.writes, Instruction.reads]⟩
  · exact ⟨by decide +kernel, by decide +kernel⟩

/-- A branch to itself is replaced by a branch to the one replaced, and becomes one to itself again. -/
theorem replace_swaps_spinning :
    ∃ after slot body, Edit.replace ⟨2⟩ (.branch none ⟨2⟩) spinning.program =
        (.ok (⟨4⟩, .branch none ⟨2⟩), after) ∧
      Swapped spinning.program after ⟨2⟩ ⟨4⟩ (.branch none ⟨2⟩) slot body ∧
      after.instruction? ⟨3⟩ = some (.branch none ⟨4⟩) ∧ after.instruction? ⟨4⟩ = some (.branch none ⟨4⟩) := by
  have done : (Edit.replace ⟨2⟩ (.branch none ⟨2⟩) spinning.program).1 = .ok (⟨4⟩, .branch none ⟨2⟩) := by
    decide +kernel
  rcases replaced : Edit.replace ⟨2⟩ (.branch none ⟨2⟩) spinning.program with ⟨result, after⟩
  rw [replaced] at done
  obtain rfl : result = .ok (⟨4⟩, .branch none ⟨2⟩) := done
  obtain ⟨slot, body, -, swapped⟩ := spinning_reachable.replace_swaps replaced
  have there : spinning.program.instruction? ⟨3⟩ = some (.branch none ⟨2⟩) := by decide +kernel
  obtain ⟨⟨method, _⟩, found, rfl⟩ := Option.map_eq_some_iff.mp there
  refine ⟨after, slot, body, rfl, swapped, ?_, ?_⟩
  · exact instruction?_of_slot? (swapped.followed ⟨3⟩ method none (by decide) found)
  · exact instruction?_of_slot? swapped.renewed

end Session

end ClassImage
