import ClassImage.Proofs.Program.Grouping
import ClassImage.Proofs.Program.Session

/-!
Where branches lead. A branch leads to an instruction of its own body: one that
a client attaches is checked, an instruction that a branch leads to is not taken
away, and one that is replaced hands its branches on. The branches of an image
are not checked when they are attached, since what they lead to may come later.
Verification has found that each leads to the start of an instruction, and code
ends with a unit that no position lies behind, so each finds its unit.

A handle that was issued and is not attached stays so.
-/

namespace ClassImage

open Program

theorem RawInstruction.of_isTerminator {raw : RawInstruction} (closing : raw.opcode.isTerminator) :
    (∃ src, raw = .returnValue src) ∨ raw = .returnVoid ∨ (∃ target, raw = .goto target) ∨
      ∃ src, raw = .throwValue src := by
  cases raw with
  | returnValue | returnVoid | goto | throwValue => simp
  | invoke dispatch => cases dispatch <;> cases closing
  | ifCompare comparison => cases comparison <;> cases closing
  | ifZero comparison => cases comparison <;> cases closing
  | binary operator => cases operator <;> cases closing
  | _ => cases closing

theorem Instruction.target?_retarget (old new : InstructionId) (instruction : Instruction) :
    (instruction.retarget old new).target? =
      instruction.target?.map fun target => if target = old then new else target := by
  cases instruction <;> rfl

theorem Instruction.retarget_of_ne {old : InstructionId} {instruction : Instruction}
    (apart : instruction.target? ≠ some old) (new : InstructionId) :
    instruction.retarget old new = instruction := by
  cases instruction with
  | branch test target =>
    rw [retarget, if_neg]
    rintro rfl
    exact apart rfl
  | _ => rfl

namespace CodeUnit

/-- A terminator after other code is a unit of its own. -/
theorem split_terminator (raws : List RawInstruction) {last : RawInstruction} (start : Nat)
    (closing : last.opcode.isTerminator) :
    split start (raws ++ [last]) = split start raws ++ [(start + raws.length, .single last)] := by
  have apart : ∀ rest next tail, (∀ other, rest = next :: other → False) → next ≠ last →
      rest ++ [last] ≠ next :: tail := by
    rintro (_ | ⟨first, rest⟩) next tail differs unlike ⟨⟩
    · exact unlike rfl
    · exact differs rest rfl
  have called : ∀ dispatch method arguments, .invoke dispatch method arguments ≠ last := by
    rintro dispatch _ _ rfl
    cases dispatch <;> cases closing
  fun_induction split start raws with
  | case1 start =>
    obtain ⟨_, rfl⟩ | rfl | ⟨_, rfl⟩ | ⟨_, rfl⟩ := RawInstruction.of_isTerminator closing <;> rfl
  | case2 start rest ih =>
    rw [List.cons_append, split, ih, List.length_cons, Nat.add_assoc, Nat.add_comm 1]
  | case3 start dst type dispatch constructor arguments rest ih =>
    rw [List.cons_append, List.cons_append, split, ih, List.cons_append, List.length_cons,
      List.length_cons, Nat.add_assoc, Nat.add_comm 2]
  | case4 start dispatch method arguments dst rest ih =>
    rw [List.cons_append, List.cons_append, split, ih, List.cons_append, List.length_cons,
      List.length_cons, Nat.add_assoc, Nat.add_comm 2]
  | case5 start dispatch method arguments rest other ih =>
    rw [List.cons_append, split, ih, List.cons_append, List.length_cons, Nat.add_assoc, Nat.add_comm 1]
    intro dst tail
    exact apart rest _ tail (other dst) (by rintro rfl; cases closing)
  | case6 start raw rest idle pair _ invoked ih =>
    rw [List.cons_append, split, ih, List.cons_append, List.length_cons, Nat.add_assoc, Nat.add_comm 1]
    · exact idle
    · intro dst type dispatch constructor arguments tail same
      exact apart rest _ tail (fun other => pair dst type dispatch constructor arguments other same)
        (called _ _ _)
    · exact fun dispatch method arguments _ _ same => absurd same (invoked dispatch method arguments)
    · exact invoked

/-- Code ends with the unit of its last instruction. -/
theorem split_ends {code : CodeItem} {pool : Pool} (verified : code.Verified pool)
    (filled : code.instructions ≠ #[]) :
    ∃ front last, last.opcode.isTerminator ∧ split 0 code.instructions.toList =
      front ++ [(code.instructions.size - 1, .single last)] := by
  obtain ⟨raws, last, same⟩ := Array.eq_push_of_size_ne_zero (mt Array.eq_empty_of_size_eq_zero filled)
  have closing := verified.closed last (by rw [same, Array.back?_push])
  refine ⟨split 0 raws.toList, last, closing, ?_⟩
  rw [same, Array.toList_push, split_terminator _ _ closing, Array.size_push, Nat.zero_add,
    Array.length_toList, Nat.add_sub_cancel]

theorem indexOf_lt {front : List (Nat × CodeUnit)} {start position : Nat} {unit : CodeUnit}
    (inside : position ≤ start) :
    indexOf (front ++ [(start, unit)]) position < (front ++ [(start, unit)]).length := by
  have stops : indexOf (front ++ [(start, unit)]) position ≤ front.length := by
    rw [indexOf, List.takeWhile_append]
    split
    · rw [List.takeWhile_cons_of_neg (by simpa using inside), List.append_nil]
    · exact (List.takeWhile_sublist _).length_le
  rw [List.length_append]
  exact Nat.lt_succ_of_le stops

/-- No position of verified code lies behind its last unit. -/
theorem indexOf_inside {code : CodeItem} {pool : Pool} (verified : code.Verified pool) {position : Nat}
    (inside : position < code.instructions.size) :
    indexOf (split 0 code.instructions.toList) position < (split 0 code.instructions.toList).length := by
  have filled : code.instructions ≠ #[] := by
    rintro empty
    rw [empty] at inside
    cases inside
  obtain ⟨front, last, -, ends⟩ := split_ends verified filled
  rw [ends]
  exact indexOf_lt (by omega)

/-- The position that a unit branches to is one of the code, and not inside a unit. -/
theorem apart_of_branch {code : CodeItem} {pool : Pool} (verified : code.Verified pool)
    {entry : Nat × CodeUnit} (listed : entry ∈ split 0 code.instructions.toList) {target : UInt32}
    (branches : entry.2.target? = some target) :
    target.toNat < code.instructions.size ∧ Apart (split 0 code.instructions.toList) target.toNat := by
  obtain ⟨start, unit⟩ := entry
  cases unit with
  | allocation | call => cases branches
  | single raw => exact verified.apart_target (Array.mem_of_getElem? (verified.reads listed 0 rfl)) branches

/-- A branch of code that is verified finds its unit. -/
theorem indexOf_target {code : CodeItem} {pool : Pool} (verified : code.Verified pool)
    {entry : Nat × CodeUnit} (listed : entry ∈ split 0 code.instructions.toList) {target : UInt32}
    (branches : entry.2.target? = some target) :
    indexOf (split 0 code.instructions.toList) target.toNat <
      (split 0 code.instructions.toList).length :=
  indexOf_inside verified (apart_of_branch verified listed branches).1

end CodeUnit

namespace Program

/-- A branch leads to an instruction of its own body. -/
def TargetsSound (program : Program) : Prop :=
  ∀ id slot target, program.slot? id = some slot → slot.instruction.target? = some target →
    program.holder? target = some slot.method

theorem checkTarget_ok {program : Program} {method : MethodId} {instruction : Instruction} :
    program.checkTarget method instruction = .ok () ↔
      ∀ target, instruction.target? = some target → program.holder? target = some method := by
  unfold checkTarget
  split
  · rename_i none
    simp [none]
  · rename_i target here
    split
    · rename_i held
      simp [here, held]
    · rename_i elsewhere
      simp [here, elsewhere]

theorem mem_branchesTo {program : Program} (sound : program.BodiesSound) {id target : InstructionId}
    {slot : Slot} (attached : program.slot? id = some slot)
    (leads : slot.instruction.target? = some target) : id ∈ program.branchesTo slot.method target := by
  have held : program.holder? id = some slot.method := holder?_of_slot? attached
  obtain ⟨body, here⟩ := Option.isSome_iff_exists.mp (sound.held held)
  unfold branchesTo
  rw [here]
  refine List.mem_filter.mpr ⟨Array.mem_toList_iff.mpr ((sound.attached here id).mpr held), ?_⟩
  rw [instruction?, attached]
  exact decide_eq_true leads

/-- What is not attached and was issued stays so, and no handle is issued twice. -/
structure Spares (before after : Program) : Prop where
  issued : before.code.size ≤ after.code.size
  vacant : ∀ id, id.index < before.code.size → before.slot? id = none → after.slot? id = none

theorem Spares.refl (program : Program) : program.Spares program := ⟨le_rfl, fun _ _ => id⟩

theorem Spares.trans {first second third : Program} (left : first.Spares second)
    (right : second.Spares third) : first.Spares third where
  issued := left.issued.trans right.issued
  vacant id old none := right.vacant id (old.trans_le left.issued) (left.vacant id old none)

theorem Spares.of_code {before after : Program} (code : after.code = before.code) :
    before.Spares after := by
  refine ⟨by rw [code], ?_⟩
  intro id _ none
  rw [slot?, code]
  exact none

theorem TargetsSound.of_code {before after : Program} (sound : before.TargetsSound)
    (code : after.code = before.code) : after.TargetsSound := by
  have slots : after.slot? = before.slot? := by
    funext id
    rw [slot?, code, slot?]
  intro id slot target
  rw [holder?, slots]
  exact sound id slot target

theorem ne_of_held {program : Program} {id : InstructionId} {method : MethodId}
    (held : program.holder? id = some method) : id ≠ ⟨program.code.size⟩ := by
  rintro rfl
  obtain ⟨slot, attached, -⟩ := Option.map_eq_some_iff.mp held
  exact lt_irrefl _ (slot?_lt attached)

section Swap

variable {program : Program} {old : InstructionId} {slot : Slot} {position : Nat} (instruction : Instruction)

theorem issued_swap : (InstructionId.mk program.code.size).index <
    ((program.addHandles 1).detach old slot).code.size := by
  rw [size_detach, size_addHandles]
  exact Nat.lt_succ_self _

theorem slot?_swap (bodies : program.BodiesSound) (targets : program.TargetsSound)
    (attached : program.slot? old = some slot) (other : InstructionId) :
    (program.swap old slot position instruction).slot? other =
      if other = ⟨program.code.size⟩ then
        some ⟨slot.method, instruction.retarget old ⟨program.code.size⟩⟩
      else if other = old then none
      else (program.slot? other).map fun place =>
        ⟨place.method, place.instruction.retarget old ⟨program.code.size⟩⟩ := by
  rw [swap, slot?_retarget, slot?_attach _ issued_swap, slot?_detach, slot?_addHandles]
  by_cases new : other = ⟨program.code.size⟩
  · rw [if_pos new, if_pos new, Option.map_some, if_pos (by simp [new])]
  rw [if_neg new, if_neg new]
  by_cases same : other = old
  · rw [if_pos same, if_pos same, Option.map_none]
  rw [if_neg same, if_neg same]
  cases here : program.slot? other with
  | none => rfl
  | some place =>
    rw [Option.map_some, Option.map_some]
    split
    · rfl
    · rename_i unlisted
      -- A branch to the old instruction is in its body, so it is among those that are turned.
      rw [Instruction.retarget_of_ne]
      intro leads
      have held := targets other place old here leads
      rw [holder?, attached, Option.map_some, Option.some_inj] at held
      have listed := mem_branchesTo bodies here leads
      rw [← held] at listed
      exact unlisted (List.mem_append_left _ listed)

theorem holder?_swap (other : InstructionId) :
    (program.swap old slot position instruction).holder? other =
      if other = ⟨program.code.size⟩ then some slot.method
      else if other = old then none else program.holder? other := by
  rw [swap, holder?_retarget, holder?_attach _ issued_swap, holder?_detach, holder?_addHandles]

/-- What was attached still is, and the new instruction stands in for the old one. -/
theorem holder?_swap_turned (attached : program.slot? old = some slot) {goal : InstructionId}
    {method : MethodId} (held : program.holder? goal = some method) :
    (program.swap old slot position instruction).holder?
      (if goal = old then ⟨program.code.size⟩ else goal) = some method := by
  rw [holder?_swap]
  by_cases same : goal = old
  · rw [if_pos same, if_pos rfl, ← holder?_of_slot? attached, ← same, held]
  · rw [if_neg same, if_neg (ne_of_held held), if_neg same, held]

theorem TargetsSound.swap (sound : program.TargetsSound) (bodies : program.BodiesSound)
    (attached : program.slot? old = some slot)
    (target : program.checkTarget slot.method instruction = .ok ()) :
    (program.swap old slot position instruction).TargetsSound := by
  intro id place goal there leads
  rw [slot?_swap instruction bodies sound attached] at there
  split at there
  · cases there
    rw [Instruction.target?_retarget] at leads
    obtain ⟨first, aims, rfl⟩ := Option.map_eq_some_iff.mp leads
    exact holder?_swap_turned instruction attached (checkTarget_ok.mp target first aims)
  · split at there
    · cases there
    · obtain ⟨prior, found, rfl⟩ := Option.map_eq_some_iff.mp there
      rw [Instruction.target?_retarget] at leads
      obtain ⟨first, aims, rfl⟩ := Option.map_eq_some_iff.mp leads
      exact holder?_swap_turned instruction attached (sound id prior first found aims)

end Swap

section Rewrites

variable {before after : Program} {instruction : Option Instruction}

theorem size_retarget (program : Program) (branches : List InstructionId) (old new : InstructionId) :
    (program.retarget branches old new).code.size = program.code.size := by
  induction branches generalizing program with
  | nil => rfl
  | cons branch branches ih =>
    unfold retarget at ih ⊢
    rw [List.foldl_cons, ih]
    exact Array.size_modify

theorem Rewrite.spares (rewrite : Rewrite instruction before after) : before.Spares after := by
  have apart : ∀ {id : InstructionId}, id.index < before.code.size → id ≠ ⟨before.code.size⟩ := by
    rintro _ old rfl
    exact lt_irrefl _ old
  cases rewrite with
  | insert here place locals target fits =>
    refine ⟨by simp [size_attach, size_addHandles], ?_⟩
    intro id old none
    rw [slot?_attach _ (by simp [size_addHandles]), if_neg (apart old), slot?_addHandles]
    exact none
  | remove attached free =>
    refine ⟨by rw [size_detach], ?_⟩
    intro id old none
    rw [slot?_detach, none, ite_self]
  | replace attached here found locals target fits =>
    refine ⟨by simp [size_retarget, size_attach, size_detach, size_addHandles], ?_⟩
    intro id old none
    rw [slot?_retarget, slot?_attach _ (by simp [size_detach, size_addHandles]), if_neg (apart old),
      slot?_detach, slot?_addHandles, none, ite_self, Option.map_none]

theorem TargetsSound.insert (sound : before.TargetsSound) {method : MethodId} {joining : Instruction}
    (target : before.checkTarget method joining = .ok ()) (position : Nat) :
    ((before.addHandles 1).attach method position ⟨before.code.size⟩ joining).TargetsSound := by
  have issued : (InstructionId.mk before.code.size).index < (before.addHandles 1).code.size := by
    simp [size_addHandles]
  have kept : ∀ {goal holder}, before.holder? goal = some holder →
      ((before.addHandles 1).attach method position ⟨before.code.size⟩ joining).holder? goal =
        some holder := by
    intro goal holder held
    rw [holder?_attach _ issued, if_neg (ne_of_held held), holder?_addHandles, held]
  intro id slot goal attached leads
  rw [slot?_attach _ issued, slot?_addHandles] at attached
  split at attached
  · cases attached
    exact kept (checkTarget_ok.mp target goal leads)
  · exact kept (sound id slot goal attached leads)

theorem TargetsSound.remove (sound : before.TargetsSound) (bodies : before.BodiesSound)
    {gone : InstructionId} {place : Slot} (there : before.slot? gone = some place)
    (free : before.branchesTo place.method gone = []) : (before.detach gone place).TargetsSound := by
  intro id slot goal attached leads
  rw [slot?_detach] at attached
  split at attached
  · cases attached
  · have held := sound id slot goal attached leads
    rw [holder?_detach, if_neg, held]
    rintro rfl
    rw [holder?, there] at held
    have listed := mem_branchesTo bodies attached leads
    rw [← Option.some.inj held, free] at listed
    cases listed

/-- Edits of code keep what branches lead to. -/
theorem TargetsSound.rewrite (sound : before.TargetsSound) (bodies : before.BodiesSound)
    (rewrite : Rewrite instruction before after) : after.TargetsSound := by
  cases rewrite with
  | insert here place locals target => exact sound.insert target _
  | remove attached free => exact sound.remove bodies attached free
  | replace attached here found locals target => exact sound.swap _ bodies attached target

end Rewrites

end Program

theorem Image.verified_codes {image : Image} (verified : image.verify = .ok ()) {code : CodeItem}
    (member : code ∈ image.codes) : code.Verified image.pool := by
  obtain ⟨definition, listed, member⟩ := List.mem_flatMap.mp member
  obtain ⟨method, declared, coded⟩ := List.mem_flatMap.mp member
  exact (((Image.verify_ok.mp verified).2 definition listed).methods method declared).2.2 code
    (Option.mem_toList.mp coded)

namespace Loading.Context

variable {context : Context} {before after : Program}

theorem Fills.spares {method : MethodId} {code : CodeItem}
    (fills : context.Fills method code before after) : before.Spares after := by
  obtain ⟨held, frame, parameters, -, -, -, filled⟩ := fills
  refine ⟨by rw [filled.size]; omega, ?_⟩
  intro id old none
  rw [filled.slots id (.inl old), none]

/-- The branches of a body that was loaded lead to the units that their positions stand for. -/
theorem Fills.targets {method : MethodId} {code : CodeItem} {pool : Pool}
    (fills : context.Fills method code before after) (verified : code.Verified pool)
    (sound : before.TargetsSound) : after.TargetsSound := by
  obtain ⟨held, frame, parameters, units, -, -, filled⟩ := fills
  have attached : ∀ place < frame.units.length,
      after.holder? ⟨before.code.size + place⟩ = some method := by
    intro place inside
    obtain ⟨instruction, attached, -⟩ := filled.made place inside _ (List.getElem?_eq_getElem inside)
    exact holder?_of_slot? attached
  have kept : ∀ id slot, before.slot? id = some slot → after.slot? id = some slot := by
    intro id slot old
    rw [filled.slots id (.inl (slot?_lt old)), old]
  intro id slot goal here leads
  by_cases old : id.index < before.code.size ∨ before.code.size + frame.units.length ≤ id.index
  · rw [filled.slots id old] at here
    obtain ⟨there, found, same⟩ := Option.map_eq_some_iff.mp (sound id slot goal here leads)
    rw [holder?, kept goal there found, Option.map_some, same]
  · obtain ⟨place, rfl⟩ : ∃ place, id = ⟨before.code.size + place⟩ :=
      ⟨id.index - before.code.size, congrArg InstructionId.mk (by omega)⟩
    have inside : place < frame.units.length := by
      simp only at old
      omega
    obtain ⟨entry, listed⟩ : ∃ entry, frame.units[place]? = some entry :=
      ⟨_, List.getElem?_eq_getElem inside⟩
    obtain ⟨instruction, found, makes⟩ := filled.made place inside entry listed
    cases here.symm.trans found
    rw [makes.means.target] at leads
    obtain ⟨position, branches, rfl⟩ := Option.map_eq_some_iff.mp leads
    have bound : CodeUnit.indexOf frame.units position.toNat < frame.units.length := by
      have member := List.mem_of_getElem? listed
      rw [units] at member ⊢
      exact CodeUnit.indexOf_target verified member branches
    rw [Frame.target, filled.first]
    exact attached _ bound

theorem Bodies.spares {coded : List (MethodId × CodeItem)} (bodies : context.Bodies coded before after) :
    before.Spares after := by
  induction bodies with
  | nil => exact .refl _
  | cons fills _ _ ih => exact fills.spares.trans ih

theorem Bodies.targets {coded : List (MethodId × CodeItem)} {pool : Pool}
    (bodies : context.Bodies coded before after) (verified : ∀ entry ∈ coded, entry.2.Verified pool)
    (sound : before.TargetsSound) : after.TargetsSound := by
  induction bodies with
  | nil => exact sound
  | cons fills _ _ ih =>
    rw [List.forall_mem_cons] at verified
    exact ih verified.2 (fills.targets verified.1 sound)

theorem Loaded.spares (loaded : context.Loaded before after) : before.Spares after := by
  obtain ⟨coded, middle, declared, -, -, -, bodies⟩ := loaded
  exact (Spares.of_code ((Declares.all_kept declared).1)).trans bodies.spares

theorem Loaded.targets (loaded : context.Loaded before after)
    (verified : context.image.verify = .ok ()) (sound : before.TargetsSound) : after.TargetsSound := by
  obtain ⟨coded, middle, declared, -, -, codes, bodies⟩ := loaded
  have accepted : ∀ entry ∈ coded, entry.2.Verified context.image.pool := by
    intro entry member
    exact Image.verified_codes verified (codes ▸ List.mem_map_of_mem member)
  exact bodies.targets accepted (sound.of_code ((Declares.all_kept declared).1))

end Loading.Context

namespace Session

variable {held : List Local} {before after : Program}

theorem Change.spares (change : Change held before after) : before.Spares after := by
  cases change with
  | quiet _ code => exact .of_code code
  | rewrite _ rewrite => exact rewrite.spares
  | load _ _ _ loaded => exact loaded.spares

theorem Change.targets (change : Change held before after) (bodies : before.BodiesSound)
    (sound : before.TargetsSound) : after.TargetsSound := by
  cases change with
  | quiet _ code => exact sound.of_code code
  | rewrite _ rewrite => exact sound.rewrite bodies rewrite
  | load verified _ _ loaded => exact loaded.targets verified sound

theorem Change.all_spares (moved : Relation.ReflTransGen (Change held) before after) :
    before.Spares after := by
  induction moved with
  | refl => exact .refl _
  | tail _ change ih => exact ih.trans change.spares

theorem Change.all_targets (moved : Relation.ReflTransGen (Change held) before after)
    (steps : Steps {} before) (sound : before.TargetsSound) : after.TargetsSound := by
  induction moved with
  | refl => exact sound
  | tail earlier change ih =>
    have reached : Steps {} _ := steps.trans (Change.all_steps earlier)
    exact change.targets reached.bodiesSound ih

theorem Reachable.targets {session : Session} (reached : session.Reachable) :
    session.program.TargetsSound := by
  induction reached with
  | start =>
    intro id slot target attached
    cases attached
  | next reached allowed ih =>
    exact Change.all_targets (reached.sound.perform allowed).1 reached.steps ih

/-- Allowed operations lead from one session to another. -/
inductive Leads (session : Session) : Session → Prop
  | refl : Leads session session
  | next {middle : Session} {operation : Operation} (leads : Leads session middle)
      (allowed : middle.Allows operation) : Leads session (middle.perform operation)

theorem Leads.reachable {session later : Session} (leads : session.Leads later)
    (reached : session.Reachable) : later.Reachable := by
  induction leads with
  | refl => exact reached
  | next _ allowed ih => exact .next ih allowed

theorem Leads.spares {session later : Session} (leads : session.Leads later)
    (reached : session.Reachable) : session.program.Spares later.program := by
  induction leads with
  | refl => exact .refl _
  | next earlier allowed ih =>
    exact ih.trans (Change.all_spares ((earlier.reachable reached).sound.perform allowed).1)

/-- How the code of a session hangs together. -/
structure CodeSound (session : Session) : Prop where
  /-- What a body lists is attached to its method. -/
  listed : ∀ {method body}, session.program.body? method = some body → ∀ id ∈ body.instructions,
    ∃ slot, session.program.slot? id = some slot ∧ slot.method = method
  /-- What is attached stands once in the body of its method, and in no other. -/
  once : ∀ {id slot}, session.program.slot? id = some slot →
    ∃ body, session.program.body? slot.method = some body ∧ body.instructions.count id = 1 ∧
      ∀ {other elsewhere}, session.program.body? other = some elsewhere →
        id ∈ elsewhere.instructions → other = slot.method
  /-- A branch leads to an instruction of its own body. -/
  targets : ∀ {id slot target}, session.program.slot? id = some slot →
    slot.instruction.target? = some target →
      ∃ there, session.program.slot? target = some there ∧ there.method = slot.method
  /-- A local belongs to the method whose instructions use it. -/
  used : ∀ {id slot}, session.program.slot? id = some slot → ∀ operand ∈ slot.instruction.locals,
    session.program.owner? operand = some slot.method
  /-- A body lists its parameters first, and no local twice. -/
  locals : ∀ {method body}, session.program.body? method = some body →
    (body.locals.toList.map Local.id).Nodup ∧ body.parameters <+: body.locals.toList
  /-- A body lists a local exactly if its method owns it. -/
  owned : ∀ {method body}, session.program.body? method = some body → ∀ slot, session.Holds slot →
    (slot ∈ body.locals ↔ session.program.owner? slot = some method)
  /-- No number belongs to a method whose body does not list a local of it. -/
  numbered : ∀ {slot method}, session.program.owner? slot = some method →
    ∃ body, session.program.body? method = some body ∧ ∃ own ∈ body.locals, own.id = slot.id

theorem Reachable.codeSound {session : Session} (reached : session.Reachable) :
    session.CodeSound := by
  have bodies := reached.steps.bodiesSound
  have owners := reached.sound.locals
  have holder : ∀ {id slot}, session.program.slot? id = some slot →
      session.program.holder? id = some slot.method := by
    intro id slot attached
    exact holder?_of_slot? attached
  constructor
  · intro method body here id member
    exact Option.map_eq_some_iff.mp ((bodies.attached here id).mp member)
  · intro id slot attached
    obtain ⟨body, here⟩ := Option.isSome_iff_exists.mp (bodies.held (holder attached))
    have member := (bodies.attached here id).mpr (holder attached)
    refine ⟨body, here, ?_, ?_⟩
    · rw [← Array.count_toList]
      exact List.count_eq_one_of_mem (bodies.distinct here) (Array.mem_toList_iff.mpr member)
    · intro other elsewhere there listed
      exact Option.some.inj (((bodies.attached there id).mp listed).symm.trans (holder attached))
  · intro id slot target attached leads
    exact Option.map_eq_some_iff.mp (reached.targets id slot target attached leads)
  · intro id slot attached operand uses
    obtain ⟨body, here, listed⟩ := owners.used attached operand uses
    exact (owners.listed_iff here (owners.shows_of_used attached uses)).mp listed
  · exact fun here => ⟨owners.distinct here, owners.parameters here⟩
  · exact fun here slot holds => owners.listed_iff here (shows_of_holds holds)
  · intro slot method owner
    obtain ⟨body, here⟩ := Option.isSome_iff_exists.mp (owners.opened owner)
    obtain ⟨own, listed, same⟩ := List.mem_map.mp ((owners.owned here slot).mpr owner)
    exact ⟨body, here, own, Array.mem_toList_iff.mp listed, same⟩

/-- The code of every reachable session hangs together, and whatever a client does, an instruction
that was detached is not attached again under its handle. -/
theorem Reachable.code_structured {session : Session} (reached : session.Reachable) :
    session.CodeSound ∧ ∀ {gone later : Session}, session.Leads gone → gone.Leads later →
      ∀ id, (session.program.slot? id).isSome → gone.program.slot? id = none →
        later.program.slot? id = none := by
  refine ⟨reached.codeSound, ?_⟩
  intro gone later first second id attached detached
  obtain ⟨slot, attached⟩ := Option.isSome_iff_exists.mp attached
  have issued := (slot?_lt attached).trans_le (first.spares reached).issued
  exact (second.spares (first.reachable reached)).vacant id issued detached

/-- The last instruction of the method is removed, and one like it takes its place. -/
theorem code_structured_recursive :
    recursive.CodeSound ∧ (recursive.program.slot? ⟨1⟩).isSome ∧
      (recursive.perform (.remove ⟨1⟩)).program.slot? ⟨1⟩ = none ∧
      ((recursive.perform (.remove ⟨1⟩)).perform (.append ⟨0⟩ (.ret none))).program.slot? ⟨1⟩ = none := by
  obtain ⟨sound, never⟩ := Reachable.code_structured recursive_reachable
  have attached : (recursive.program.slot? ⟨1⟩).isSome := by decide +kernel
  have detached : (recursive.perform (.remove ⟨1⟩)).program.slot? ⟨1⟩ = none := by decide +kernel
  have gone : recursive.Leads (recursive.perform (.remove ⟨1⟩)) := .next .refl trivial
  refine ⟨sound, attached, detached, never gone (.next .refl ?_) ⟨1⟩ attached detached⟩
  exact ⟨by decide +kernel, by decide +kernel⟩

end Session

end ClassImage
