import ClassImage.Proofs.Program.Session

/-!
The use lists are exact: the list of a symbol has one use for every attached
instruction that refers to it, in the order in which they were attached. The
lists are kept up by attaching and detaching alone. A new instruction has the
greatest handle in use, and an instruction refers to a symbol at most once, so
what is appended keeps a list in strict order.
-/

namespace ClassImage

namespace UseIndex

theorem get_put (index : UseIndex) (symbol other : Symbol) (list : UseList) :
    (index.put symbol list).get other = if other = symbol then list else index.get other := by
  simp only [get, put, Std.TreeMap.getD_insert, Std.LawfulEqCmp.compare_eq_iff_eq]
  by_cases same : other = symbol
  · simp [same]
  · have apart : symbol.code ≠ other.code := fun equal => same (Symbol.code_inj equal).symm
    simp [same, apart]

theorem get_add_all (references : List (Symbol × UseKind)) (index : UseIndex) (id : InstructionId)
    (symbol : Symbol) :
    ((references.foldl (fun uses (symbol, kind) => uses.add symbol ⟨kind, id⟩) index).get
        symbol).uses.toList =
      (index.get symbol).uses.toList ++
        (references.filter (·.1 = symbol)).map fun (_, kind) => ⟨kind, id⟩ := by
  induction references generalizing index with
  | nil => simp
  | cons reference references ih =>
    obtain ⟨other, kind⟩ := reference
    rw [List.foldl_cons, ih]
    simp only [add, get_put, List.filter_cons]
    by_cases same : other = symbol
    · simp [same]
    · simp [same, Ne.symm same]

theorem get_remove_all (references : List (Symbol × UseKind)) (index : UseIndex) (id : InstructionId)
    (symbol : Symbol) :
    ((references.foldl (fun uses (symbol, _) => uses.remove symbol id) index).get
        symbol).uses.toList =
      if symbol ∈ references.map Prod.fst then
        (index.get symbol).uses.toList.filter (·.instruction ≠ id)
      else (index.get symbol).uses.toList := by
  induction references generalizing index with
  | nil => simp
  | cons reference references ih =>
    obtain ⟨other, kind⟩ := reference
    rw [List.foldl_cons, ih]
    simp only [remove, get_put, List.map_cons, List.mem_cons]
    by_cases same : symbol = other
    · simp [same]
    · rw [if_neg same, if_congr (or_iff_right same) rfl rfl]

end UseIndex

/-- An instruction refers to a symbol in one way at most. -/
theorem Instruction.references_distinct (instruction : Instruction) :
    (instruction.references.map Prod.fst).Nodup := by
  cases instruction with
  | invoke call =>
    obtain ⟨kind, method, owner, arguments, result⟩ := call
    cases kind <;> simp [references]
  | const target value => cases value <;> simp [references]
  | access use =>
    obtain ⟨kind, field, value, object⟩ := use
    cases kind <;> simp [references]
  | _ => simp [references]

namespace Program

/-- An attached instruction refers to a symbol in a certain way. -/
def Refers (program : Program) (symbol : Symbol) (use : Use) : Prop :=
  ∃ slot, program.slot? use.instruction = some slot ∧ (symbol, use.kind) ∈ slot.instruction.references

/-- Each use list has the uses of its symbol, ordered by instruction. -/
structure UsesExact (program : Program) : Prop where
  exact : ∀ symbol use, use ∈ program.useList symbol ↔ program.Refers symbol use
  ordered : ∀ symbol, (program.useList symbol).Pairwise fun earlier later =>
    earlier.instruction.index < later.instruction.index

theorem useList_attach (program : Program) (method : MethodId) (position : Nat) (id : InstructionId)
    (instruction : Instruction) (symbol : Symbol) :
    (program.attach method position id instruction).useList symbol = program.useList symbol ++
      (instruction.references.filter (·.1 = symbol)).map fun (_, kind) => ⟨kind, id⟩ :=
  UseIndex.get_add_all _ _ _ _

theorem useList_detach (program : Program) (id : InstructionId) (slot : Slot) (symbol : Symbol) :
    (program.detach id slot).useList symbol =
      if symbol ∈ slot.instruction.references.map Prod.fst then
        (program.useList symbol).filter (·.instruction ≠ id)
      else program.useList symbol :=
  UseIndex.get_remove_all _ _ _ _

theorem UsesExact.of_slots {before after : Program} (exact : before.UsesExact)
    (slots : ∀ id, (after.slot? id).map (·.instruction.references) =
      (before.slot? id).map (·.instruction.references))
    (uses : after.uses = before.uses) : after.UsesExact := by
  have same : after.useList = before.useList := by
    funext symbol
    rw [useList, uses, useList]
  have refers : ∀ program : Program, ∀ symbol use, program.Refers symbol use ↔
      ∃ references, (program.slot? use.instruction).map (·.instruction.references) = some references ∧
        (symbol, use.kind) ∈ references := by
    intro program symbol use
    simp [Refers]
  constructor
  · intro symbol use
    rw [same, exact.exact, refers, refers, slots]
  · intro symbol
    rw [same]
    exact exact.ordered symbol

theorem UsesExact.attach {program : Program} (uses : program.UsesExact) {method : MethodId}
    {position : Nat} {id : InstructionId} {instruction : Instruction}
    (issued : id.index < program.code.size)
    (latest : ∀ other slot, program.slot? other = some slot → other.index < id.index) :
    (program.attach method position id instruction).UsesExact := by
  have earlier : ∀ symbol, ∀ use, program.Refers symbol use → use.instruction.index < id.index := by
    rintro symbol use ⟨slot, attached, -⟩
    exact latest _ _ attached
  have added : ∀ symbol, ∀ use : Use,
      (use ∈ (instruction.references.filter (·.1 = symbol)).map fun (_, kind) => Use.mk kind id) ↔
        use.instruction = id ∧ (symbol, use.kind) ∈ instruction.references := by
    rintro symbol ⟨kind, other⟩
    simp [eq_comm, and_comm]
  constructor
  · intro symbol use
    rw [useList_attach, List.mem_append, uses.exact, added]
    by_cases here : use.instruction = id
    · have absent : ¬program.Refers symbol use := by
        intro refers
        have before := earlier symbol use refers
        rw [here] at before
        exact lt_irrefl _ before
      rw [or_iff_right absent]
      simp [Refers, slot?_attach program issued, here]
    · simp [Refers, slot?_attach program issued, here]
  · intro symbol
    rw [useList_attach, List.pairwise_append]
    refine ⟨uses.ordered symbol, ?_, ?_⟩
    · rw [List.pairwise_map]
      have apart := (List.pairwise_map.mp instruction.references_distinct).filter (·.1 = symbol)
      apply apart.imp_of_mem
      intro first second here there differ
      have same := (List.mem_filter.mp here).2
      rw [← of_decide_eq_true (List.mem_filter.mp there).2] at same
      exact absurd (of_decide_eq_true same) differ
    · intro use member new recent
      rw [((added symbol new).mp recent).1]
      exact earlier symbol use ((uses.exact symbol use).mp member)

/-- Detaching drops the uses of the instruction and no others. -/
theorem UsesExact.useList_detach {program : Program} (uses : program.UsesExact) {id : InstructionId}
    {slot : Slot} (attached : program.slot? id = some slot) (symbol : Symbol) :
    (program.detach id slot).useList symbol =
      (program.useList symbol).filter (·.instruction ≠ id) := by
  rw [Program.useList_detach]
  split
  · rfl
  · rename_i unused
    rw [eq_comm, List.filter_eq_self]
    intro use member
    apply decide_eq_true
    rintro rfl
    obtain ⟨other, there, refers⟩ := (uses.exact symbol use).mp member
    cases attached.symm.trans there
    exact unused (List.mem_map_of_mem refers)

theorem UsesExact.detach {program : Program} (uses : program.UsesExact) {id : InstructionId}
    {slot : Slot} (attached : program.slot? id = some slot) : (program.detach id slot).UsesExact := by
  have remaining := uses.useList_detach attached
  constructor
  · intro symbol use
    rw [remaining, List.mem_filter, uses.exact]
    by_cases here : use.instruction = id
    · simp [Refers, slot?_detach, here]
    · simp [Refers, slot?_detach, here]
  · intro symbol
    rw [remaining]
    exact (uses.ordered symbol).filter _

theorem slot?_references_retarget (program : Program) (branches : List InstructionId)
    (old new id : InstructionId) :
    ((program.retarget branches old new).slot? id).map (·.instruction.references) =
      (program.slot? id).map (·.instruction.references) := by
  rw [slot?_retarget, Option.map_map]
  congr 1
  funext slot
  simp only [Function.comp_apply]
  split <;> simp

theorem UsesExact.step {before after : Program} (uses : before.UsesExact) (step : Step before after) :
    after.UsesExact := by
  cases step with
  | grow growth =>
    refine uses.of_slots ?_ growth.uses
    intro id
    rw [slot?, growth.code, slot?]
  | handles =>
    refine uses.of_slots ?_ rfl
    intro id
    rw [slot?_addHandles]
  | attach id here place issued latest => exact uses.attach issued latest
  | detach attached => exact uses.detach attached
  | retarget =>
    refine uses.of_slots (slot?_references_retarget _ _ _ _) ?_
    rw [retarget_eq]
  | define | declareMethod | declareField | body => exact uses.of_slots (fun _ => rfl) rfl

theorem usesExact_empty : ({} : Program).UsesExact := by
  constructor
  · intro symbol use
    simp [useList, UseIndex.get, Refers, slot?]
  · intro symbol
    simp [useList, UseIndex.get]

/-- The use lists are exact in every program that steps lead to. -/
theorem Steps.usesExact {program : Program} (steps : Steps {} program) : program.UsesExact := by
  induction steps with
  | refl => exact usesExact_empty
  | tail _ step ih => exact ih.step step

end Program

namespace Session

open Program

/-- In every reachable program the use list of a symbol has exactly one use for each attached
instruction and each way in which it refers to the symbol, and grows with the instructions. -/
theorem Reachable.uses_exact {session : Session} (reached : session.Reachable) (symbol : Symbol) :
    (∀ kind id, (session.program.useList symbol).count ⟨kind, id⟩ =
      if ∃ instruction, session.program.instruction? id = some instruction ∧
        (symbol, kind) ∈ instruction.references then 1 else 0) ∧
    (session.program.useList symbol).Pairwise fun earlier later =>
      earlier.instruction.index < later.instruction.index := by
  obtain ⟨exact, ordered⟩ := reached.steps.usesExact
  refine ⟨?_, ordered symbol⟩
  intro kind id
  have distinct : (session.program.useList symbol).Nodup :=
    (ordered symbol).imp fun before same => absurd (same ▸ before) (lt_irrefl _)
  have refers : session.program.Refers symbol ⟨kind, id⟩ ↔ ∃ instruction,
      session.program.instruction? id = some instruction ∧
        (symbol, kind) ∈ instruction.references := by
    simp [Refers, instruction?]
  by_cases here : session.program.Refers symbol ⟨kind, id⟩
  · rw [if_pos (refers.mp here)]
    exact List.count_eq_one_of_mem distinct ((exact symbol _).mpr here)
  · rw [if_neg (mt refers.mpr here)]
    exact List.count_eq_zero_of_not_mem (mt (exact symbol _).mp here)

theorem uses_exact_recursive :
    (recursive.program.useList (.method ⟨0⟩)).count ⟨.invoke, ⟨0⟩⟩ = 1 := by
  have counted := (recursive_reachable.uses_exact (.method ⟨0⟩)).1 .invoke ⟨0⟩
  have attached : recursive.program.instruction? ⟨0⟩ =
      some (.invoke ⟨.normal, ⟨0⟩, ⟨0⟩, [], none⟩) := by decide +kernel
  rw [counted, if_pos ⟨_, attached, by decide⟩]

end Session

end ClassImage
