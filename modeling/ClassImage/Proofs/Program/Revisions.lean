import ClassImage.Proofs.Program.Targets
import ClassImage.Proofs.Program.Uses

/-!
The revision of a use list tells whether its symbol was touched. Attaching and
detaching count up the lists of the symbols that an instruction refers to and no
others. An operation of a client attaches and detaches at most one instruction,
or loads an image, which only attaches. So the revision of a symbol that an
operation does not touch stays as it is, and the list with it; otherwise the
revision grows, even if the list should be as long as before.
-/

namespace ClassImage

namespace UseIndex

/-- The references of an instruction to one symbol. -/
theorem revision_add_all (references : List (Symbol × UseKind)) (index : UseIndex) (id : InstructionId)
    (symbol : Symbol) :
    ((references.foldl (fun uses (symbol, kind) => uses.add symbol ⟨kind, id⟩) index).get
        symbol).revision =
      (index.get symbol).revision + (references.filter (·.1 = symbol)).length := by
  induction references generalizing index with
  | nil => rfl
  | cons reference references ih =>
    obtain ⟨other, kind⟩ := reference
    rw [List.foldl_cons, ih]
    simp only [add, get_put, List.filter_cons]
    by_cases same : other = symbol
    · simp [same]
      omega
    · simp [same, Ne.symm same]

theorem revision_remove_all (references : List (Symbol × UseKind)) (index : UseIndex)
    (id : InstructionId) (symbol : Symbol) :
    ((references.foldl (fun uses (symbol, _) => uses.remove symbol id) index).get symbol).revision =
      (index.get symbol).revision + (references.filter (·.1 = symbol)).length := by
  induction references generalizing index with
  | nil => rfl
  | cons reference references ih =>
    obtain ⟨other, kind⟩ := reference
    rw [List.foldl_cons, ih]
    simp only [remove, get_put, List.filter_cons]
    by_cases same : other = symbol
    · simp [same]
      omega
    · simp [same, Ne.symm same]

end UseIndex

namespace Instruction

/-- The ways in which an instruction refers to a symbol. -/
def waysTo (instruction : Instruction) (symbol : Symbol) : List UseKind :=
  (instruction.references.filter (·.1 = symbol)).map Prod.snd

theorem mem_waysTo {instruction : Instruction} {symbol : Symbol} {kind : UseKind} :
    kind ∈ instruction.waysTo symbol ↔ (symbol, kind) ∈ instruction.references := by
  simp [waysTo]

end Instruction

namespace Program

def revision (program : Program) (symbol : Symbol) : Nat := (program.uses.get symbol).revision

section

variable (program : Program)

theorem revision_attach (method : MethodId) (position : Nat) (id : InstructionId)
    (instruction : Instruction) (symbol : Symbol) :
    (program.attach method position id instruction).revision symbol =
      program.revision symbol + (instruction.waysTo symbol).length := by
  rw [Instruction.waysTo, List.length_map]
  exact UseIndex.revision_add_all _ _ _ _

theorem revision_detach (id : InstructionId) (slot : Slot) (symbol : Symbol) :
    (program.detach id slot).revision symbol =
      program.revision symbol + (slot.instruction.waysTo symbol).length := by
  rw [Instruction.waysTo, List.length_map]
  exact UseIndex.revision_remove_all _ _ _ _

theorem uses_retarget (branches : List InstructionId) (old new : InstructionId) :
    (program.retarget branches old new).uses = program.uses := by
  rw [retarget_eq]

end

/-- An instruction that refers to the symbol is attached in one of the programs only. -/
def Touches (before after : Program) (symbol : Symbol) : Prop :=
  ∃ use, ¬(before.Refers symbol use ↔ after.Refers symbol use)

/-- The uses of a symbol are as they were, or the revision tells that they are not. -/
def Tells (symbol : Symbol) (before after : Program) : Prop :=
  after.useList symbol = before.useList symbol ∧ after.revision symbol = before.revision symbol ∨
    before.revision symbol < after.revision symbol ∧
      ∃ use, ¬(use ∈ before.useList symbol ↔ use ∈ after.useList symbol)

section Tells

variable {symbol : Symbol} {before after : Program}

theorem Tells.congr {other : Program} (tells : Tells symbol before other)
    (same : after.uses = other.uses) : Tells symbol before after := by
  simpa only [Tells, useList, revision, same] using tells

theorem Tells.of_uses (same : after.uses = before.uses) : Tells symbol before after := by
  have here : Tells symbol before before := .inl ⟨rfl, rfl⟩
  exact here.congr same

theorem Tells.revision_le (tells : Tells symbol before after) :
    before.revision symbol ≤ after.revision symbol := by
  rcases tells with ⟨-, same⟩ | ⟨grown, -⟩
  · exact same.ge
  · exact grown.le

section

variable (tells : Tells symbol before after) (earlier : before.UsesExact) (later : after.UsesExact)

include tells earlier later

theorem Tells.untouched (untouched : ¬before.Touches after symbol) :
    after.useList symbol = before.useList symbol ∧ after.revision symbol = before.revision symbol := by
  apply tells.resolve_right
  rintro ⟨-, use, differs⟩
  rw [earlier.exact, later.exact] at differs
  exact untouched ⟨use, differs⟩

theorem Tells.touched (touched : before.Touches after symbol) :
    before.revision symbol < after.revision symbol := by
  rcases tells with ⟨same, -⟩ | ⟨grown, -⟩
  · obtain ⟨use, differs⟩ := touched
    have agree : before.Refers symbol use ↔ after.Refers symbol use := by
      rw [← earlier.exact, ← later.exact, same]
    exact absurd agree differs
  · exact grown

end

end Tells

/-- The uses of a symbol are those from before and some more, each of which was counted. -/
def Appends (symbol : Symbol) (before after : Program) : Prop :=
  ∃ added, after.useList symbol = before.useList symbol ++ added ∧
    after.revision symbol = before.revision symbol + added.length

section Appends

variable {symbol : Symbol} {before after : Program}

theorem Appends.of_uses (same : after.uses = before.uses) : Appends symbol before after := by
  refine ⟨[], ?_, ?_⟩
  · rw [useList, same, List.append_nil, useList]
  · rw [revision, same]
    rfl

theorem Appends.trans {middle : Program} (first : Appends symbol before middle)
    (second : Appends symbol middle after) : Appends symbol before after := by
  obtain ⟨early, lists, counts⟩ := first
  obtain ⟨late, lists', counts'⟩ := second
  refine ⟨early ++ late, ?_, ?_⟩
  · rw [lists', lists, List.append_assoc]
  · rw [counts', counts, List.length_append, Nat.add_assoc]

theorem appends_attach (program : Program) (method : MethodId) (position : Nat) (id : InstructionId)
    (instruction : Instruction) :
    Appends symbol program (program.attach method position id instruction) := by
  refine ⟨_, useList_attach program method position id instruction symbol, ?_⟩
  rw [revision_attach, Instruction.waysTo, List.length_map, List.length_map]

/-- What was appended is new, since a list has no use twice. -/
theorem Appends.tells (appends : Appends symbol before after) (later : after.UsesExact) :
    Tells symbol before after := by
  obtain ⟨added, lists, counts⟩ := appends
  cases added with
  | nil => exact .inl ⟨by rw [lists, List.append_nil], counts⟩
  | cons use rest =>
    right
    rw [List.length_cons] at counts
    refine ⟨by omega, use, ?_⟩
    have ordered := later.ordered symbol
    rw [lists, List.pairwise_append] at ordered
    have absent : use ∉ before.useList symbol := by
      intro member
      exact lt_irrefl _ (ordered.2.2 use member use (List.mem_cons_self ..))
    have present : use ∈ after.useList symbol := by simp [lists]
    exact fun agree => absent (agree.mpr present)

end Appends

/-- A step that neither attaches nor detaches leaves the use lists alone. -/
theorem Step.uses_kept {before after : Program} (step : Step before after)
    (slots : after.slot? = before.slot?) : after.uses = before.uses := by
  cases step with
  | grow growth => exact growth.uses
  | @attach method body position instruction id here place issued latest =>
    have attached : before.slot? id = some ⟨method, instruction⟩ := by
      rw [← slots, slot?_attach before issued, if_pos rfl]
    exact absurd (latest id _ attached) (lt_irrefl _)
  | @detach id slot attached =>
    rw [← slots, slot?_detach, if_pos rfl] at attached
    cases attached
  | retarget => exact uses_retarget _ _ _ _
  | _ => rfl

/-- Detaching drops the uses of the instruction, and is counted if there were any. -/
theorem detach_cases (program : Program) (id : InstructionId) (slot : Slot) (symbol : Symbol) :
    (program.detach id slot).useList symbol = program.useList symbol ∧
        (program.detach id slot).revision symbol = program.revision symbol ∨
      (∃ kind, (symbol, kind) ∈ slot.instruction.references) ∧
        (∀ use ∈ (program.detach id slot).useList symbol, use.instruction ≠ id) ∧
        program.revision symbol < (program.detach id slot).revision symbol := by
  rw [useList_detach, revision_detach]
  cases ways : slot.instruction.waysTo symbol with
  | nil =>
    left
    have unused : symbol ∉ slot.instruction.references.map Prod.fst := by
      intro member
      obtain ⟨⟨_, kind⟩, refers, rfl⟩ := List.mem_map.mp member
      have way := Instruction.mem_waysTo.mpr refers
      rw [ways] at way
      cases way
    exact ⟨if_neg unused, rfl⟩
  | cons kind rest =>
    right
    have refers : (symbol, kind) ∈ slot.instruction.references := by
      rw [← Instruction.mem_waysTo, ways]
      exact List.mem_cons_self ..
    refine ⟨⟨kind, refers⟩, ?_, by simp⟩
    rw [if_pos (List.mem_map_of_mem refers)]
    intro use member
    simpa using (List.mem_filter.mp member).2

section Rewrites

variable {symbol : Symbol} {before : Program} (earlier : before.UsesExact)

include earlier

theorem tells_detach {id : InstructionId} {slot : Slot} (attached : before.slot? id = some slot) :
    Tells symbol before (before.detach id slot) := by
  rcases before.detach_cases id slot symbol with same | ⟨⟨kind, refers⟩, gone, grown⟩
  · exact .inl same
  · refine .inr ⟨grown, ⟨kind, id⟩, ?_⟩
    intro agree
    exact gone _ (agree.mp ((earlier.exact _ _).mpr ⟨slot, attached, refers⟩)) rfl

/-- The new uses have a new handle; without new uses, it is as if the old instruction was removed. -/
theorem tells_exchange {old : InstructionId} {slot : Slot} (attached : before.slot? old = some slot)
    (position : Nat) (joining : Instruction) :
    Tells symbol before (((before.addHandles 1).detach old slot).attach slot.method position
      ⟨before.code.size⟩ joining) := by
  have removed : Tells symbol before ((before.addHandles 1).detach old slot) := by
    have renumbered : (before.addHandles 1).UsesExact :=
      earlier.of_slots (fun _ => by rw [slot?_addHandles]) rfl
    exact tells_detach renumbered (slot?_addHandles before 1 ▸ attached)
  have lists := useList_attach ((before.addHandles 1).detach old slot) slot.method position
    ⟨before.code.size⟩ joining symbol
  have counts := revision_attach ((before.addHandles 1).detach old slot) slot.method position
    ⟨before.code.size⟩ joining symbol
  cases ways : joining.waysTo symbol with
  | nil =>
    rw [Instruction.waysTo, List.map_eq_nil_iff] at ways
    rw [ways, List.map_nil, List.append_nil] at lists
    rw [Instruction.waysTo, ways] at counts
    unfold Tells
    rw [lists, counts]
    exact removed
  | cons kind rest =>
    right
    have grown := removed.revision_le
    rw [ways, List.length_cons] at counts
    refine ⟨by omega, ⟨kind, ⟨before.code.size⟩⟩, ?_⟩
    have refers : (symbol, kind) ∈ joining.references := by
      rw [← Instruction.mem_waysTo, ways]
      exact List.mem_cons_self ..
    intro agree
    obtain ⟨other, there, -⟩ := (earlier.exact _ _).mp (agree.mpr (by simp [lists, refers]))
    exact lt_irrefl _ (slot?_lt there)

/-- An edit that does not mention a symbol leaves its uses alone, and any other edit is counted. -/
theorem Rewrite.tells {instruction : Option Instruction} {after : Program}
    (rewrite : Rewrite instruction before after) (later : after.UsesExact) :
    Tells symbol before after := by
  cases rewrite with
  | insert => exact Appends.tells (appends_attach (before.addHandles 1) _ _ _ _) later
  | remove attached => exact tells_detach earlier attached
  | replace attached => exact (tells_exchange earlier attached _ _).congr (uses_retarget _ _ _ _)

end Rewrites

end Program

open Program

namespace Loading.Context

variable {context : Context} {symbol : Symbol} {before after : Program}

theorem Loads.appends (loads : context.Loads before after) : Appends symbol before after := by
  cases loads with
  | plain step _ _ slots => exact .of_uses (step.uses_kept slots)
  | attach => exact appends_attach _ _ _ _ _
  | _ => exact .of_uses rfl

theorem Loads.all_appends (moved : Relation.ReflTransGen context.Loads before after) :
    Appends symbol before after := by
  induction moved with
  | refl => exact .of_uses rfl
  | tail _ loads ih => exact ih.trans loads.appends

end Loading.Context

namespace Edit

section

variable {edit : Edit α} {goal : α → Program → Prop} {before : Program} {symbol : Symbol}

/-- What is handed out does not matter for the program that is left. -/
theorem program_map (change : α → β) : (outcome (change <$> edit) before).2 = (outcome edit before).2 := by
  rw [← bind_pure_comp, outcome_bind]
  rcases outcome edit before with ⟨_ | _, _⟩ <;> rfl

variable {change : α → β}

theorem tells_quiet (indexed : before.Indexed)
    (reached : Reaches (fun first last => last.uses = first.uses) edit before goal) :
    Tells symbol before (outcome (change <$> edit) before).2 := by
  have same : ∀ {after}, Relation.ReflTransGen (fun first last : Program => last.uses = first.uses)
      before after → after.uses = before.uses := by
    intro after moved
    induction moved with
    | refl => rfl
    | tail _ same ih => rw [same, ih]
  rw [program_map]
  exact .of_uses (same (reached indexed).2.1)

/-- An edit that comes to one change of code at most. -/
theorem tells_rewrite (joining : Option Instruction) (indexed : before.Indexed) (earlier : before.UsesExact)
    (later : (outcome (change <$> edit) before).2.UsesExact)
    (reached : Reaches (fun _ last => Rewrite joining before last) edit before goal) :
    Tells symbol before (outcome (change <$> edit) before).2 := by
  rw [program_map] at later ⊢
  rcases (reached indexed).2.1.cases_tail with same | ⟨_, -, rewrite⟩
  · rw [same]
    exact .of_uses rfl
  · exact rewrite.tells earlier later

theorem tells_addImage {held : List Local} {change : Unit → β} (image : Image) (indexed : before.Indexed)
    (sound : before.LocalsSound held) (later : (outcome (change <$> addImage image) before).2.UsesExact) :
    Tells symbol before (outcome (change <$> addImage image) before).2 := by
  rw [program_map] at later ⊢
  rcases addImage_loaded indexed sound with same | ⟨-, -, moved, -⟩
  · rw [same]
    exact .of_uses rfl
  · exact (Loading.Context.Loads.all_appends moved).tells later

end

end Edit

namespace Session

open Edit

theorem perform_program (session : Session) (operation : Operation) :
    (session.perform operation).program = (outcome operation.run session.program).2 := by
  unfold perform
  rw [show operation.run.run session.program = outcome operation.run session.program from rfl]
  rcases outcome operation.run session.program with ⟨_ | _, _⟩ <;> rfl

/-- The revision of a symbol tells whether an operation has touched it. -/
theorem Reachable.tells {session : Session} (reached : session.Reachable) {operation : Operation}
    (allowed : session.Allows operation) (symbol : Symbol) :
    Tells symbol session.program (session.perform operation).program := by
  have indexed := reached.steps.indexed .empty
  have earlier := reached.steps.usesExact
  have later := (Reachable.next reached allowed).steps.usesExact
  have grow : ∀ {after : Program}, Growth session.program after →
      after.uses = session.program.uses := fun growth => growth.uses
  rw [perform_program] at later ⊢
  cases operation with
  | type => exact tells_quiet indexed (Edit.reaches_type grow)
  | setInterface => exact tells_quiet indexed (reaches_setInterface grow)
  | define => exact tells_quiet indexed (reaches_define allowed grow fun _ _ _ _ => rfl)
  | method => exact tells_quiet indexed (Edit.reaches_method allowed grow fun _ _ => grow)
  | field => exact tells_quiet indexed (Edit.reaches_field allowed grow fun _ _ => grow)
  | declareMethod =>
    exact tells_quiet indexed (Edit.reaches_declareMethod allowed grow (fun _ _ => grow) fun _ => rfl)
  | declareField =>
    exact tells_quiet indexed (Edit.reaches_declareField allowed grow (fun _ _ => grow) fun _ => rfl)
  | createBody => exact tells_quiet indexed (reaches_createBody fun _ => rfl)
  | call => exact tells_quiet indexed (reaches_call allowed.1)
  | access => exact tells_quiet indexed (reaches_access allowed.1)
  | freshLocal | make | copy => exact .of_uses rfl
  | append => exact tells_rewrite _ indexed earlier later (reaches_append (by exact id))
  | insertBefore => exact tells_rewrite _ indexed earlier later (reaches_insertBefore (by exact id))
  | insertAfter => exact tells_rewrite _ indexed earlier later (reaches_insertAfter (by exact id))
  | remove => exact tells_rewrite _ indexed earlier later (reaches_remove (by exact id))
  | replace => exact tells_rewrite _ indexed earlier later (reaches_replace (by exact id))
  | addImage image => exact tells_addImage image indexed reached.sound.locals later

end Session

end ClassImage
