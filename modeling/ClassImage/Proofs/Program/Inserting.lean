import ClassImage.Proofs.Program.Likeness

/-!
Inserting an instruction, and taking it out again. The instruction gets a handle
that nothing knows of, so the body grows by it at one place, and the uses of the
symbols that it refers to grow by it at the end; all else stays. No branch can go to
it, so it can be removed at once. What is left of it then is what nobody reads: its
handle is spent, its locals stay declared and revisions have moved on.
-/

namespace ClassImage

/-- Where in a body an instruction is put. -/
inductive Place where
  | before (anchor : InstructionId)
  | after (anchor : InstructionId)
  | last (method : MethodId)

namespace Place

def insert : Place → Instruction → Edit InstructionId
  | .before anchor, instruction => Edit.insertBefore anchor instruction
  | .after anchor, instruction => Edit.insertAfter anchor instruction
  | .last method, instruction => Edit.append method instruction

/-- The place is where a method's body falls into two parts. -/
def Parts (method : MethodId) (front rest : List InstructionId) : Place → Prop
  | .before anchor => ∃ later, rest = anchor :: later
  | .after anchor => ∃ earlier, front = earlier ++ [anchor]
  | .last holder => holder = method ∧ rest = []

end Place

namespace Program

/-- The program with an instruction under a new handle. -/
def join (program : Program) (method : MethodId) (position : Nat) (instruction : Instruction) : Program :=
  (program.addHandles 1).attach method position ⟨program.code.size⟩ instruction

section Join

variable {program : Program} {method : MethodId} {position : Nat} (instruction : Instruction)

theorem slot?_join (other : InstructionId) : (program.join method position instruction).slot? other =
    if other = ⟨program.code.size⟩ then some ⟨method, instruction⟩ else program.slot? other := by
  have issued : (InstructionId.mk program.code.size).index < (program.addHandles 1).code.size := by
    rw [size_addHandles]
    exact Nat.lt_succ_self _
  rw [join, slot?_attach _ issued, slot?_addHandles]

theorem body?_join (other : MethodId) : (program.join method position instruction).body? other =
    if other = method then (program.body? other).map fun body =>
      { body with
        locals := body.locals ++ (instruction.locals.foldl (claimLocal method) (program.owners, #[])).2
        instructions := body.instructions.insertIdxIfInBounds position ⟨program.code.size⟩ }
    else program.body? other :=
  body?_attach _ _ _ _ _ _

theorem owner?_join (other : Local) : (program.join method position instruction).owner? other =
    if other.id ∈ instruction.locals.map Local.id ∧ other.id < program.owners.size ∧
        program.owner? other = none then some method
    else program.owner? other :=
  owner?_attach method _ _ _ _ other

theorem useList_join (symbol : Symbol) : (program.join method position instruction).useList symbol =
    program.useList symbol ++
      (instruction.references.filter (·.1 = symbol)).map fun (_, kind) => ⟨kind, ⟨program.code.size⟩⟩ :=
  useList_attach _ _ _ _ _ _

theorem outlines_join : (program.join method position instruction).outlines = program.outlines :=
  outlines_modifyBody _ _ _

end Join

end Program

open Program

/-- An instruction with a handle of its own stands at a place of a body; all else is as it was. -/
structure Inserted (before after : Program) (place : Place) (id : InstructionId) (instruction : Instruction)
    (method : MethodId) (body : Body) : Prop where
  opened : before.body? method = some body
  distinct : body.instructions.toList.Nodup
  /-- The handle had not been issued, so nothing could know of it. -/
  unissued : before.code.size ≤ id.index
  absent : ∀ other listed, before.body? other = some listed → id ∉ listed.instructions
  /-- The handles of the body keep their order around the new one, and the body lists the locals that the
  instruction brings. -/
  listed : ∃ front rest joined, body.instructions.toList = front ++ rest ∧ place.Parts method front rest ∧
    (∀ other ∈ joined, other ∈ instruction.locals ∧ before.owner? other = none) ∧
    after.body? method = some ⟨body.parameters, body.locals ++ joined, (front ++ id :: rest).toArray⟩
  attached : after.slot? id = some ⟨method, instruction⟩
  kept : ∀ other, other ≠ id → after.slot? other = before.slot? other
  bodies : ∀ other, other ≠ method → after.body? other = before.body? other
  types : after.types = before.types
  defined : after.defined = before.defined
  fields : after.fields = before.fields
  methods : after.outlines = before.outlines
  /-- A local that has an owner keeps it, and so does one that the instruction does not use. -/
  owners : ∀ other : Local, before.owner? other ≠ none ∨ other.id ∉ instruction.locals.map Local.id →
    after.owner? other = before.owner? other
  /-- A symbol to which the instruction refers has one more use, which is the last. -/
  uses : ∀ symbol kind, (symbol, kind) ∈ instruction.references →
    after.useList symbol = before.useList symbol ++ [⟨kind, id⟩]
  /-- Other symbols have the uses that they had, at the same revision. -/
  untouched : ∀ symbol, symbol ∉ instruction.references.map Prod.fst →
    after.uses.get symbol = before.uses.get symbol

section Insertion

variable {before after : Program} {place : Place} {method : MethodId} {body : Body} {front rest : List InstructionId}
  {instruction : Instruction}

/-- An instruction refers to a symbol in no other way than the listed one. -/
theorem Instruction.filter_references {symbol : Symbol} {kind : UseKind}
    (member : (symbol, kind) ∈ instruction.references) :
    instruction.references.filter (·.1 = symbol) = [(symbol, kind)] := by
  have distinct := instruction.references_distinct
  generalize instruction.references = references at member distinct
  obtain ⟨front, rest, rfl⟩ := List.append_of_mem member
  have elsewhere : ∀ reference ∈ front ++ rest, ¬decide (reference.1 = symbol) = true := by
    intro reference listed same
    rw [List.map_append, List.map_cons, List.nodup_middle, List.nodup_cons, ← List.map_append] at distinct
    exact distinct.1 (List.mem_map.mpr ⟨reference, listed, of_decide_eq_true same⟩)
  rw [List.forall_mem_append] at elsewhere
  rw [List.filter_append, List.filter_cons_of_pos (by simp), List.filter_eq_nil_iff.mpr elsewhere.1,
    List.filter_eq_nil_iff.mpr elsewhere.2, List.nil_append]

theorem Edit.reaches_join {position : Nat} :
    Reaches (fun _ _ => True) (Edit.insert method position instruction) before fun id after =>
      (∀ target, instruction.target? = some target → before.holder? target = some method) ∧
        id = ⟨before.code.size⟩ ∧ after = before.join method position instruction := by
  refine .check_bind ?_
  intro _ checked
  obtain ⟨-, -, target, -⟩ := Edit.checkInstruction_ok checked
  have same := (sameKeys_addHandles before 1).trans
    (sameKeys_attach (before.addHandles 1) method position ⟨before.code.size⟩ instruction)
  refine .leave (fun indexed => indexed.of_sameKeys same) (.single trivial) ?_
  intro id same
  cases same
  exact ⟨checkTarget_ok.mp target, rfl, rfl⟩

theorem Edit.locate_bind {step : Program → Program → Prop} {anchor : InstructionId} {α : Type}
    {next : MethodId × Nat → Edit α} {goal : α → Program → Prop}
    (onward : ∀ method body front rest, before.body? method = some body →
      body.instructions.toList = front ++ anchor :: rest →
      Reaches step (next (method, front.length)) before goal) :
    Reaches step (Edit.check (·.locate anchor) >>= next) before goal := by
  refine .check_bind ?_
  rintro ⟨method, position⟩ located
  obtain ⟨body, -, here, found⟩ := Edit.locate_ok located
  obtain ⟨front, rest, split, rfl, -⟩ := Array.idxOf?_split found
  exact onward method body front rest here split

/-- What is inserted at a place joins a body between the two parts there. -/
theorem Place.reaches_insert : Edit.Reaches (fun _ _ => True) (place.insert instruction) before fun id after =>
    ∃ method body front rest, before.body? method = some body ∧ body.instructions.toList = front ++ rest ∧
      place.Parts method front rest ∧
      (∀ target, instruction.target? = some target → before.holder? target = some method) ∧
      id = ⟨before.code.size⟩ ∧ after = before.join method front.length instruction := by
  cases place with
  | before anchor =>
    refine Edit.locate_bind fun method body front rest here split => ?_
    refine Edit.reaches_join.imp fun id after _ joined => ?_
    exact ⟨method, body, front, anchor :: rest, here, split, ⟨rest, rfl⟩, joined⟩
  | after anchor =>
    refine Edit.locate_bind fun method body front rest here split => ?_
    refine Edit.reaches_join.imp fun id after _ joined => ?_
    refine ⟨method, body, front ++ [anchor], rest, here, ?_, ⟨front, rfl⟩, ?_⟩
    · rw [split, List.append_assoc, List.singleton_append]
    · rwa [List.length_append, List.length_singleton]
  | last method =>
    refine .check_bind ?_
    intro length counted
    obtain ⟨body, here, rfl⟩ := Edit.bodyLength_ok counted
    refine Edit.reaches_join.imp fun id after _ joined => ?_
    exact ⟨method, body, body.instructions.toList, [], here, (List.append_nil _).symm, ⟨rfl, rfl⟩, joined⟩

/-- Joining a body at a place is an insertion there. -/
theorem Program.inserted (bodies : before.BodiesSound) (opened : before.body? method = some body)
    (split : body.instructions.toList = front ++ rest) (parts : place.Parts method front rest) :
    Inserted before (before.join method front.length instruction) place ⟨before.code.size⟩ instruction method
      body := by
  obtain ⟨joined, list, free, -⟩ := claim_lists method instruction.locals (before.owners, #[])
  have inside : front.length ≤ body.instructions.size := by
    rw [← Array.length_toList, split, List.length_append]
    exact Nat.le_add_right _ _
  have placed : body.instructions.insertIdxIfInBounds front.length ⟨before.code.size⟩ =
      (front ++ ⟨before.code.size⟩ :: rest).toArray := by
    apply Array.ext'
    rw [Array.insertIdxIfInBounds, dif_pos inside, Array.toList_insertIdx, split, insertIdx_length_append]
  constructor
  case opened => exact opened
  case distinct => exact bodies.distinct opened
  case unissued => exact le_rfl
  case absent => exact fun _ _ => bodies.unlisted le_rfl
  case listed =>
    refine ⟨front, rest, joined, split, parts, free, ?_⟩
    rw [body?_join, if_pos rfl, opened, Option.map_some, list, Array.empty_append, placed]
  case attached => rw [slot?_join, if_pos rfl]
  case kept =>
    intro other differs
    rw [slot?_join, if_neg differs]
  case bodies =>
    intro other differs
    rw [body?_join, if_neg differs]
  case types => rfl
  case defined => rfl
  case fields => rfl
  case methods => exact outlines_join _
  case owners =>
    intro other apart
    rw [owner?_join, if_neg]
    rintro ⟨used, -, vacant⟩
    exact apart.elim (· vacant) (· used)
  case uses =>
    intro symbol kind member
    rw [useList_join, Instruction.filter_references member]
    rfl
  case untouched =>
    intro symbol apart
    apply get_uses_eq
    · rw [useList_join, Instruction.filter_references_eq_nil apart, List.map_nil, List.append_nil]
    · rw [join, revision_attach, Instruction.waysTo, Instruction.filter_references_eq_nil apart]
      rfl

end Insertion

section Removal

variable {program : Program} {id : InstructionId} {slot : Slot} {body : Body}

theorem Program.branchesTo_eq_nil (free : ∀ other place, program.slot? other = some place →
    place.instruction.target? ≠ some id) (method : MethodId) : program.branchesTo method id = [] := by
  unfold branchesTo
  split
  · rfl
  · rw [List.filter_eq_nil_iff]
    intro other _ leads
    obtain ⟨instruction, found, target⟩ := Option.bind_eq_some_iff.mp (of_decide_eq_true leads)
    obtain ⟨place, attached, rfl⟩ := Option.map_eq_some_iff.mp found
    exact free other place attached target

/-- An instruction to which no branch goes is removed and handed back. -/
theorem Edit.remove_free (attached : program.slot? id = some slot)
    (opened : program.body? slot.method = some body) (member : id ∈ body.instructions.toList)
    (free : ∀ other place, program.slot? other = some place → place.instruction.target? ≠ some id) :
    outcome (Edit.remove id) program = (.ok slot.instruction, program.detach id slot) := by
  obtain ⟨position, found⟩ : ∃ position, body.instructions.idxOf? id = some position := by
    generalize body.instructions = table at member
    obtain ⟨list⟩ := table
    rw [← Option.ne_none_iff_exists', List.idxOf?_toArray, ne_eq, List.idxOf?_eq_none_iff, not_not]
    exact member
  have located : program.locate id = .ok (slot.method, position) := by
    simp [locate, holder?_of_slot? attached, opened, found]
  have checked : outcome (Edit.check (·.locate id)) program = (.ok (slot.method, position), program) :=
    Prod.ext located rfl
  rw [Edit.remove, outcome_bind, checked]
  dsimp only
  rw [get_bind, program.branchesTo_eq_nil free]
  dsimp only
  rw [attached]
  rfl

end Removal

namespace Inserted

variable {before after : Program} {place : Place} {method : MethodId} {body : Body} {id : InstructionId}
  {instruction : Instruction} (inserted : Inserted before after place id instruction method body)

include inserted

theorem vacant : before.slot? id = none := slot?_unissued inserted.unissued

theorem useList_detach (uses : before.UsesExact) (symbol : Symbol) :
    (after.detach id ⟨method, instruction⟩).useList symbol = before.useList symbol := by
  rw [Program.useList_detach]
  split
  · rename_i member
    obtain ⟨⟨_, kind⟩, listed, rfl⟩ := List.mem_map.mp member
    rw [inserted.uses _ kind listed, List.filter_append, List.filter_cons_of_neg (by simp), List.filter_nil,
      List.append_nil, List.filter_eq_self]
    intro use member
    apply decide_eq_true
    rintro rfl
    obtain ⟨source, attached, -⟩ := (uses.exact _ use).mp member
    rw [inserted.vacant] at attached
    cases attached
  · rename_i apart
    rw [useList, inserted.untouched symbol apart, useList]

theorem body?_detach (other : MethodId) :
    ((after.detach id ⟨method, instruction⟩).body? other).map (fun body => (body.parameters, body.instructions)) =
      (before.body? other).map fun body => (body.parameters, body.instructions) := by
  rw [Program.body?_detach]
  split
  · rename_i same
    obtain ⟨front, rest, joined, split, -, -, listed⟩ := inserted.listed
    have absent := inserted.absent method body inserted.opened
    rw [← Array.mem_toList_iff, split, List.mem_append, not_or] at absent
    have undone : (front ++ id :: rest).toArray.filter (· ≠ id) = body.instructions := by
      apply Array.ext'
      rw [Array.toList_filter, List.filter_append, List.filter_cons_of_neg (by simp),
        filter_ne_of_not_mem absent.1, filter_ne_of_not_mem absent.2, split]
    rw [same, listed, inserted.opened, Option.map_some, Option.map_some, Option.map_some, undone]
  · rename_i differs
    rw [inserted.bodies other differs]

/-- Taking the instruction out leaves what there was before. -/
theorem readsLike_detach (uses : before.UsesExact) :
    before.ReadsLike (after.detach id ⟨method, instruction⟩) where
  types := inserted.types
  defined := inserted.defined
  fields := inserted.fields
  methods := (outlines_modifyBody _ _ _).trans inserted.methods
  bodies := inserted.body?_detach
  slots := by
    funext other
    rw [slot?_detach]
    split
    · rename_i same
      rw [same, inserted.vacant]
    · rename_i differs
      exact inserted.kept other differs
  uses := funext (inserted.useList_detach uses)

theorem untargeted (targets : before.TargetsSound)
    (leads : ∀ target, instruction.target? = some target → before.holder? target = some method)
    (other : InstructionId) (source : Slot) (there : after.slot? other = some source) :
    source.instruction.target? ≠ some id := by
  intro target
  have held : ∃ holder, before.holder? id = some holder := by
    by_cases same : other = id
    · rw [same, inserted.attached] at there
      cases there
      exact ⟨method, leads id target⟩
    · rw [inserted.kept other same] at there
      exact ⟨source.method, targets other source id there target⟩
  obtain ⟨holder, held⟩ := held
  rw [holder?, inserted.vacant] at held
  cases held

theorem remove_ok (targets : before.TargetsSound)
    (leads : ∀ target, instruction.target? = some target → before.holder? target = some method) :
    outcome (Edit.remove id) after = (.ok instruction, after.detach id ⟨method, instruction⟩) := by
  obtain ⟨front, rest, joined, -, -, -, listed⟩ := inserted.listed
  exact Edit.remove_free inserted.attached listed (by simp) (inserted.untargeted targets leads)

end Inserted

namespace Session

/-- An insertion that succeeds in a reachable program is one in place, whatever the instruction refers to
and wherever it branches to. The instruction can be removed at once, and then the program has the code, the
uses and the listing that it had. -/
theorem Reachable.insertion_undone {session : Session} (reached : session.Reachable) {place : Place}
    {instruction : Instruction} {id : InstructionId} {after : Program}
    (ran : place.insert instruction session.program = (.ok id, after)) :
    (∃ method body, Inserted session.program after place id instruction method body) ∧
      ∃ restored, Edit.remove id after = (.ok instruction, restored) ∧
        session.program.ReadsLike restored ∧ restored.listing = session.program.listing := by
  obtain ⟨-, method, body, front, rest, opened, split, parts, leads, rfl, rfl⟩ := 
    Place.reaches_insert.ran (reached.steps.indexed .empty) ran
  have uses := reached.steps.usesExact
  have inserted := @inserted session.program place method body front rest instruction reached.steps.bodiesSound
    opened split parts
  have alike := inserted.readsLike_detach uses
  exact ⟨⟨method, body, inserted⟩, _, inserted.remove_ok reached.targets leads, alike, alike.listing_eq⟩

/-- A second call of the method itself, in front of an instruction to which two branches go. -/
theorem insertion_undone_spinning :
    ∃ after restored method body,
      Edit.insertBefore ⟨2⟩ (.invoke ⟨.normal, ⟨0⟩, ⟨0⟩, [], none⟩) spinning.program = (.ok ⟨4⟩, after) ∧
      Inserted spinning.program after (.before ⟨2⟩) ⟨4⟩ (.invoke ⟨.normal, ⟨0⟩, ⟨0⟩, [], none⟩) method body ∧
      after.useList (.method ⟨0⟩) = [⟨.invoke, ⟨0⟩⟩, ⟨.invoke, ⟨4⟩⟩] ∧
      Edit.remove ⟨4⟩ after = (.ok (.invoke ⟨.normal, ⟨0⟩, ⟨0⟩, [], none⟩), restored) ∧
      spinning.program.ReadsLike restored ∧ restored.listing = spinning.program.listing := by
  have done : (Edit.insertBefore ⟨2⟩ (.invoke ⟨.normal, ⟨0⟩, ⟨0⟩, [], none⟩) spinning.program).1 = .ok ⟨4⟩ := by
    decide +kernel
  rcases ran : Edit.insertBefore ⟨2⟩ (.invoke ⟨.normal, ⟨0⟩, ⟨0⟩, [], none⟩) spinning.program with ⟨result, after⟩
  rw [ran] at done
  obtain rfl : result = .ok ⟨4⟩ := done
  obtain ⟨⟨method, body, inserted⟩, restored, removed, alike, listing⟩ :=
    @Reachable.insertion_undone _ spinning_reachable (.before ⟨2⟩) _ _ _ ran
  have called : spinning.program.useList (.method ⟨0⟩) = [⟨.invoke, ⟨0⟩⟩] := by decide +kernel
  refine ⟨after, restored, method, body, rfl, inserted, ?_, removed, alike, listing⟩
  rw [inserted.uses _ .invoke (by decide), called]
  rfl

end Session

end ClassImage
