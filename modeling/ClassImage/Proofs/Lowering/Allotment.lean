import ClassImage.Proofs.Lowering.Image
import ClassImage.Proofs.Program.Session

/-!
How the registers of a body are allotted. Locals that are not parameters stand
at the bottom, one after the other in the order of their first use; parameters
stand above them in their own order. A register is taken by one local and every
register is taken, so the tags tell of each what it begins or that it ends a
pair. The numbers are small enough for the format, or no plan is made.
-/

namespace ClassImage

namespace RegisterPlan

theorem slots_cons (slot : Local) (locals : List Local) :
    slots (slot :: locals) = slot.kind.slots + slots locals := rfl

/-- A local is found where the locals before its first mention end. -/
theorem find?_eq_some_iff {wanted : Local} {order : List Local} {first place : Nat} :
    find? wanted first order = some place ↔
      ∃ before after, order = before ++ wanted :: after ∧ wanted ∉ before ∧ place = first + slots before := by
  induction order generalizing first with
  | nil => simp [find?]
  | cons slot order ih =>
    unfold find?
    by_cases here : slot = wanted
    · subst here
      rw [if_pos rfl, Option.some_inj]
      constructor
      · rintro rfl
        exact ⟨[], order, rfl, List.not_mem_nil, rfl⟩
      · rintro ⟨_ | ⟨other, before⟩, after, same, absent, rfl⟩
        · rfl
        · cases same
          exact absurd List.mem_cons_self absent
    · rw [if_neg here, ih]
      constructor
      · rintro ⟨before, after, rfl, absent, rfl⟩
        refine ⟨slot :: before, after, rfl, ?_, by rw [slots_cons, Nat.add_assoc]⟩
        exact List.not_mem_cons_of_ne_of_not_mem (Ne.symm here) absent
      · rintro ⟨_ | ⟨other, before⟩, after, same, absent, rfl⟩
        · cases same
          exact absurd rfl here
        · cases same
          have later : wanted ∉ before := fun member => absent (List.mem_cons_of_mem _ member)
          exact ⟨before, after, rfl, later, by rw [slots_cons, Nat.add_assoc]⟩

/-- Of locals that stand one after the other, some one reaches over each register below their end. -/
theorem exists_over {locals : List Local} {index : Nat} (inside : index < slots locals) :
    ∃ before slot after, locals = before ++ slot :: after ∧ slots before ≤ index ∧
      index < slots before + slot.kind.slots := by
  induction locals generalizing index with
  | nil => exact absurd inside (Nat.not_lt_zero _)
  | cons first locals ih =>
    rw [slots_cons] at inside
    by_cases low : index < first.kind.slots
    · exact ⟨[], first, locals, rfl, Nat.zero_le _, by simpa [slots] using low⟩
    · obtain ⟨before, slot, after, rfl, least, most⟩ := ih (show index - first.kind.slots < slots locals by omega)
      refine ⟨first :: before, slot, after, rfl, ?_, ?_⟩ <;> rw [slots_cons] <;> omega

/-- One local only reaches over a register. -/
theorem over_unique {before after before' after' : List Local} {slot other : Local} {index : Nat}
    (same : before ++ slot :: after = before' ++ other :: after')
    (here : slots before ≤ index ∧ index < slots before + slot.kind.slots)
    (there : slots before' ≤ index ∧ index < slots before' + other.kind.slots) : slot = other := by
  rcases List.append_eq_append_iff.mp same with ⟨_ | ⟨between, rest⟩, rfl, split⟩ | ⟨_ | ⟨between, rest⟩, rfl, split⟩
  · cases split
    rfl
  · cases split
    rw [slots_append, slots_cons] at there
    omega
  · cases split
    rfl
  · cases split
    rw [slots_append, slots_cons] at here
    omega

/-- The tags of a local stand from its register on. -/
theorem tags_over {plan : RegisterPlan} {before after : List Local} {slot : Local}
    (order : plan.order = before ++ slot :: after) {offset : Nat} (inside : offset < slot.kind.slots) :
    plan.tags[slots before + offset]? = slot.kind.registerTags[offset]? := by
  have start : (before.flatMap fun slot => slot.kind.registerTags).length = slots before :=
    length_tags ⟨before, 0⟩
  rw [tags, order, List.flatMap_append, List.flatMap_cons, List.getElem?_append_right (by omega), start,
    Nat.add_sub_cancel_left, List.getElem?_append_left (by rwa [length_registerTags])]

/-- A local takes its register, and the next one as well if its values are wide. -/
def Takes (plan : RegisterPlan) (slot : Local) (index : Nat) : Prop :=
  ∃ register, plan.register? slot = some register ∧ register.toNat ≤ index ∧
    index < register.toNat + slot.kind.slots

/-- Locals have the registers from `first` on, each where those before it end. -/
def Stacks (plan : RegisterPlan) (first : Nat) (locals : List Local) : Prop :=
  ∀ before slot after, locals = before ++ slot :: after →
    (plan.register? slot).map UInt16.toNat = some (first + slots before)

theorem isSome_register? {plan : RegisterPlan} {slot : Local} :
    (plan.register? slot).isSome ↔ slot ∈ plan.order := by
  rw [register?, Option.isSome_map, Option.isSome_iff_exists]
  refine ⟨?_, fun member => find?_of_mem member 0⟩
  rintro ⟨place, found⟩
  obtain ⟨before, after, order, -⟩ := find?_eq_some_iff.mp found
  rw [order]
  exact List.mem_append_right _ List.mem_cons_self

section Distinct

variable {plan : RegisterPlan} (room : slots plan.order ≤ 65535)

include room

/-- The register of a local is a number that the format can hold. -/
theorem toNat_place {slot : Local} {place : Nat} (found : find? slot 0 plan.order = some place) :
    (UInt16.ofNat place).toNat = place := by
  have bound := find?_lt found
  rw [UInt16.toNat_ofNat', Nat.mod_eq_of_lt (by omega)]

theorem register?_toNat (slot : Local) :
    (plan.register? slot).map UInt16.toNat = find? slot 0 plan.order := by
  rw [register?, Option.map_map]
  cases found : find? slot 0 plan.order with
  | none => rfl
  | some place => exact congrArg some (toNat_place room found)

variable (distinct : plan.order.Nodup)

include distinct

theorem register?_of_split {before after : List Local} {slot : Local}
    (order : plan.order = before ++ slot :: after) :
    (plan.register? slot).map UInt16.toNat = some (slots before) := by
  rw [register?_toNat room, find?_eq_some_iff]
  refine ⟨before, after, order, ?_, (Nat.zero_add _).symm⟩
  rw [order, List.nodup_middle, List.nodup_cons, List.mem_append, not_or] at distinct
  exact distinct.1.1

omit distinct in
theorem split_of_register? {slot : Local} {register : UInt16} (placed : plan.register? slot = some register) :
    ∃ before after, plan.order = before ++ slot :: after ∧ register.toNat = slots before := by
  have found := register?_toNat room slot
  rw [placed, Option.map_some] at found
  obtain ⟨before, after, order, -, place⟩ := find?_eq_some_iff.mp found.symm
  exact ⟨before, after, order, by rw [place, Nat.zero_add]⟩

theorem takes_iff {slot : Local} {index : Nat} : plan.Takes slot index ↔
    ∃ before after, plan.order = before ++ slot :: after ∧
      slots before ≤ index ∧ index < slots before + slot.kind.slots := by
  constructor
  · rintro ⟨register, placed, least, most⟩
    obtain ⟨before, after, order, same⟩ := split_of_register? room placed
    rw [same] at least most
    exact ⟨before, after, order, least, most⟩
  · rintro ⟨before, after, order, least, most⟩
    obtain ⟨register, placed, same⟩ := Option.map_eq_some_iff.mp (register?_of_split room distinct order)
    exact ⟨register, placed, by omega, by omega⟩

/-- Every register below the end is taken, and no other. -/
theorem taken_iff {index : Nat} : (∃ slot, plan.Takes slot index) ↔ index < plan.tags.length := by
  rw [length_tags]
  constructor
  · rintro ⟨slot, takes⟩
    obtain ⟨before, after, order, least, most⟩ := (takes_iff room distinct).mp takes
    rw [order, slots_append, slots_cons]
    omega
  · intro inside
    obtain ⟨before, slot, after, order, reach⟩ := exists_over inside
    exact ⟨slot, (takes_iff room distinct).mpr ⟨before, after, order, reach⟩⟩

theorem Takes.unique {slot other : Local} {index : Nat} (here : plan.Takes slot index)
    (there : plan.Takes other index) : slot = other := by
  obtain ⟨before, after, order, reach⟩ := (takes_iff room distinct).mp here
  obtain ⟨before', after', order', reach'⟩ := (takes_iff room distinct).mp there
  exact over_unique (order.symm.trans order') reach reach'

theorem stacks_of_split {low locals high : List Local} (order : plan.order = low ++ locals ++ high) :
    plan.Stacks (slots low) locals := by
  rintro before slot after rfl
  have split : plan.order = (low ++ before) ++ slot :: (after ++ high) := by
    rw [order]
    simp only [List.append_assoc, List.cons_append]
  rw [← slots_append]
  exact register?_of_split room distinct split

omit distinct in
theorem tag_of_register? {slot : Local} {register : UInt16} (placed : plan.register? slot = some register) :
    plan.tags[register.toNat]? = some slot.kind.tag := by
  obtain ⟨before, after, order, same⟩ := split_of_register? room placed
  have start := tags_over order (slots_pos slot.kind)
  rw [same, ← Nat.add_zero (slots before), start]
  cases slot.kind <;> rfl

/-- The second registers of wide locals are tagged so, and no others. -/
theorem highHalf_iff {index : Nat} : plan.tags[index]? = some RegisterTag.highHalf ↔
    ∃ slot register, plan.register? slot = some register ∧ slot.kind.isWide ∧ index = register.toNat + 1 := by
  constructor
  · intro tagged
    obtain ⟨inside, -⟩ := List.getElem?_eq_some_iff.mp tagged
    obtain ⟨slot, register, placed, least, most⟩ := (taken_iff room distinct).mpr inside
    -- A first register has the tag of a kind, and no kind has this one.
    have above : index ≠ register.toNat := by
      rintro rfl
      rw [tag_of_register? room placed, Option.some_inj] at tagged
      exact absurd tagged (by cases slot.kind <;> decide)
    unfold ValueKind.slots at most
    split at most
    · rename_i wide
      exact ⟨slot, register, placed, wide, by omega⟩
    · omega
  · rintro ⟨slot, register, placed, wide, rfl⟩
    obtain ⟨before, after, order, same⟩ := split_of_register? room placed
    have second : 1 < slot.kind.slots := by
      rw [ValueKind.slots, if_pos wide]
      exact Nat.lt_succ_self 1
    rw [same, tags_over order second, ValueKind.registerTags, if_pos wide]
    rfl

end Distinct

end RegisterPlan

namespace Program

/-- The operands of the instructions of a body in program order: what each writes, then what it reads. -/
def operandsOf (program : Program) (body : Body) : List Local :=
  (program.instructionsOf body).flatMap fun instruction => instruction.writes ++ instruction.reads

/-- The locals among operands that are not parameters, in the order in which they come first. -/
structure FirstUses (operands parameters locals : List Local) : Prop where
  members : ∀ slot, slot ∈ locals ↔ slot ∈ operands ∧ slot ∉ parameters
  order : locals.Pairwise fun slot other => operands.idxOf slot < operands.idxOf other

theorem FirstUses.note {operands parameters : List Local} {found : Array Local}
    (uses : FirstUses operands parameters found.toList) (slot : Local) :
    FirstUses (operands ++ [slot]) parameters (note parameters found slot).toList := by
  -- Operands that are listed already keep their place.
  have kept : found.toList.Pairwise fun slot' other =>
      (operands ++ [slot]).idxOf slot' < (operands ++ [slot]).idxOf other := by
    refine uses.order.imp_of_mem ?_
    intro slot' other here there earlier
    rwa [List.idxOf_append_of_mem ((uses.members _).mp here).1,
      List.idxOf_append_of_mem ((uses.members _).mp there).1]
  unfold Program.note
  simp only [List.contains_eq_mem, Array.contains_eq_mem, Bool.or_eq_true, decide_eq_true_eq]
  split
  · rename_i known
    refine ⟨?_, kept⟩
    intro other
    rw [uses.members, List.mem_append, List.mem_singleton, or_and_right, iff_self_or]
    rintro ⟨rfl, free⟩
    exact (uses.members other).mp (Array.mem_toList_iff.mpr (known.resolve_left free))
  · rename_i new
    obtain ⟨free, fresh⟩ := not_or.mp new
    have absent : slot ∉ operands := fun used =>
      fresh (Array.mem_toList_iff.mp ((uses.members slot).mpr ⟨used, free⟩))
    rw [Array.toList_push]
    constructor
    · intro other
      rw [List.mem_append, List.mem_append, List.mem_singleton, uses.members, or_and_right]
      refine or_congr_right ⟨?_, And.left⟩
      rintro rfl
      exact ⟨rfl, free⟩
    · refine List.pairwise_append.mpr ⟨kept, List.pairwise_singleton .., ?_⟩
      intro other here last single
      obtain rfl := List.mem_singleton.mp single
      have used := ((uses.members _).mp here).1
      rw [List.idxOf_append_of_mem used, List.idxOf_append_of_notMem absent]
      exact Nat.lt_add_right _ (List.idxOf_lt_length_iff.mpr used)

theorem firstUses_foldl_note (operands parameters : List Local) :
    FirstUses operands parameters (operands.foldl (note parameters) #[]).toList := by
  induction operands using List.reverseRecOn with
  | nil => exact ⟨by simp, .nil⟩
  | append_singleton operands slot ih =>
    rw [List.foldl_append, List.foldl_cons, List.foldl_nil]
    exact ih.note slot

/-- The locals that a body uses are listed by first use. -/
theorem firstUses_usedLocals (program : Program) (body : Body) :
    FirstUses (program.operandsOf body) body.parameters (program.usedLocals body) := by
  rw [usedLocals_eq]
  exact firstUses_foldl_note _ _

/-- The locals that instructions of a body and its parameters name take this many registers. -/
def registersOf (program : Program) (body : Body) : Nat :=
  ∑ slot ∈ (program.operandsOf body ++ body.parameters).toFinset, slot.kind.slots

theorem slots_order (program : Program) {body : Body} (distinct : body.parameters.Nodup) :
    RegisterPlan.slots (program.usedLocals body ++ body.parameters) = program.registersOf body := by
  have same : (program.operandsOf body ++ body.parameters).toFinset =
      (program.usedLocals body ++ body.parameters).toFinset := by
    ext slot
    have members := (firstUses_usedLocals program body).members slot
    simp only [List.mem_toFinset, List.mem_append, members]
    tauto
  rw [registersOf, same, List.sum_toFinset _ (nodup_usedLocals program distinct), RegisterPlan.slots_eq_sum]

open RegisterPlan in
/-- How a plan allots the registers of a method's body. -/
structure Allots (program : Program) (method : MethodId) (body : Body) (plan : RegisterPlan) : Prop where
  attached : ∀ id instruction, program.slot? id = some ⟨method, instruction⟩ →
    ∀ slot ∈ instruction.locals, (plan.register? slot).isSome
  placed : ∀ slot, (plan.register? slot).isSome ↔ slot ∈ program.operandsOf body ∨ slot ∈ body.parameters
  /-- The registers below the end are taken, and no others. -/
  taken : ∀ index, (∃ slot, plan.Takes slot index) ↔ index < plan.tags.length
  disjoint : ∀ slot other index, plan.Takes slot index → plan.Takes other index → slot = other
  firstUses : FirstUses (program.operandsOf body) body.parameters (program.usedLocals body)
  low : plan.Stacks 0 (program.usedLocals body)
  high : plan.Stacks (slots (program.usedLocals body)) body.parameters
  parameterRegisters : plan.parameterRegisters = slots body.parameters
  size : plan.tags.length = slots (program.usedLocals body) + plan.parameterRegisters
  tag : ∀ slot register, plan.register? slot = some register →
    plan.tags[register.toNat]? = some slot.kind.tag
  highHalf : ∀ index, plan.tags[index]? = some RegisterTag.highHalf ↔
    ∃ slot register, plan.register? slot = some register ∧ slot.kind.isWide ∧ index = register.toNat + 1
  /-- No number is cut off where it is stored in sixteen bits. -/
  exactPlace : ∀ slot, (plan.register? slot).map UInt16.toNat = RegisterPlan.find? slot 0 plan.order
  exactSize : (UInt16.ofNat plan.tags.length).toNat = plan.tags.length
  exactParameters : (UInt16.ofNat plan.parameterRegisters).toNat = plan.parameterRegisters

theorem mem_order (program : Program) (body : Body) {slot : Local} :
    slot ∈ (program.plan body).order ↔ slot ∈ program.operandsOf body ∨ slot ∈ body.parameters := by
  rw [plan, List.mem_append, (firstUses_usedLocals program body).members]
  tauto

/-- The plan of a body allots the registers if they fit the format. -/
theorem BodiesSound.allots_plan {program : Program} (sound : program.BodiesSound) {method : MethodId}
    {body : Body} (here : program.body? method = some body)
    (room : RegisterPlan.slots (program.plan body).order ≤ 65535) :
    program.Allots method body (program.plan body) := by
  have distinct := nodup_usedLocals program (sound.parameters here)
  have size : RegisterPlan.slots (program.plan body).order =
      RegisterPlan.slots (program.usedLocals body) + (program.plan body).parameterRegisters :=
    RegisterPlan.slots_append ..
  have small : ∀ number, number ≤ 65535 → (UInt16.ofNat number).toNat = number := by
    intro number bound
    rw [UInt16.toNat_ofNat', Nat.mod_eq_of_lt (by omega)]
  constructor
  case attached =>
    intro id instruction attached slot uses
    have listed : instruction ∈ program.instructionsOf body := by
      have inside := Array.mem_toList_iff.mpr ((sound.attached here id).mpr (holder?_of_slot? attached))
      exact List.mem_filterMap.mpr ⟨id, inside, instruction?_of_slot? attached⟩
    exact RegisterPlan.isSome_register?.mpr (mem_usedLocals listed uses)
  case placed => exact fun slot => RegisterPlan.isSome_register?.trans (mem_order program body)
  case taken => exact fun index => RegisterPlan.taken_iff room distinct
  case disjoint => exact fun slot other index => RegisterPlan.Takes.unique room distinct
  case firstUses => exact firstUses_usedLocals program body
  case low => exact @RegisterPlan.stacks_of_split _ room distinct [] _ _ rfl
  case high => exact RegisterPlan.stacks_of_split room distinct (List.append_nil _).symm
  case parameterRegisters => rfl
  case size => rw [RegisterPlan.length_tags, size]
  case tag => exact fun slot register => RegisterPlan.tag_of_register? room
  case highHalf => exact fun index => RegisterPlan.highHalf_iff room distinct
  case exactPlace => exact RegisterPlan.register?_toNat room
  case exactSize => exact small _ (by rwa [RegisterPlan.length_tags])
  case exactParameters => exact small _ (by omega)

/-- A plan is made unless the locals take too many registers. -/
theorem ofBody_error_iff (program : Program) (body : Body) (limit : UInt32) (fault : Fault) :
    RegisterPlan.ofBody program body limit = .error fault ↔
      (limit.toNat < RegisterPlan.slots (program.plan body).order ∨
        65535 < RegisterPlan.slots (program.plan body).order) ∧
      fault = .capacityExceeded .registers (RegisterPlan.slots (program.plan body).order) limit.toNat := by
  unfold RegisterPlan.ofBody
  dsimp only
  split
  · rename_i above
    rw [Except.error.injEq, eq_comm]
    exact ⟨fun same => ⟨above, same⟩, And.right⟩
  · rename_i within
    exact ⟨by rintro ⟨⟩, fun both => absurd both.1 within⟩

end Program

namespace Session

open Program

/-- Whatever a session does, the locals of every body are allotted registers, unless they take more than
the limit or than the format can number; then no plan is made. -/
theorem Reachable.ofBody_allots {session : Session} (reached : session.Reachable) {method : MethodId}
    {body : Body} (here : session.program.body? method = some body) (limit : UInt32) :
    (∀ plan, RegisterPlan.ofBody session.program body limit = .ok plan →
      session.program.Allots method body plan) ∧
    ((∃ plan, RegisterPlan.ofBody session.program body limit = .ok plan) ↔
      session.program.registersOf body ≤ limit.toNat ∧ session.program.registersOf body ≤ 65535) ∧
    ∀ fault, RegisterPlan.ofBody session.program body limit = .error fault ↔
      (limit.toNat < session.program.registersOf body ∨ 65535 < session.program.registersOf body) ∧
        fault = .capacityExceeded .registers (session.program.registersOf body) limit.toNat := by
  have sound := reached.steps.bodiesSound
  have total : RegisterPlan.slots (session.program.plan body).order = session.program.registersOf body :=
    slots_order session.program (sound.parameters here)
  have refused := ofBody_error_iff session.program body limit
  rw [total] at refused
  refine ⟨?_, ?_, refused⟩
  · intro plan placed
    obtain ⟨rfl, room⟩ := ofBody_ok placed
    exact sound.allots_plan here room
  · cases outcome : RegisterPlan.ofBody session.program body limit with
    | error fault =>
      have above := ((refused fault).mp outcome).1
      exact ⟨by rintro ⟨_, ⟨⟩⟩, fun within => by omega⟩
    | ok plan =>
      refine ⟨fun _ => ?_, fun _ => ⟨plan, rfl⟩⟩
      by_contra above
      have := (refused _).mpr ⟨by omega, rfl⟩
      rw [outcome] at this
      cases this

/-- A static method of a long and an int parameter: it copies both to locals of its own, the long one
first. -/
def copying : Session :=
  [.define (.object "A") { access := 1 }, .declareMethod ⟨0⟩ "f" ⟨[.long, .int], .void⟩ 8, .createBody ⟨0⟩,
    .freshLocal .int, .freshLocal .long, .make (.move ⟨3, .long⟩ ⟨0, .long⟩), .make (.move ⟨2, .int⟩ ⟨1, .int⟩),
    .append ⟨0⟩ (.move ⟨3, .long⟩ ⟨0, .long⟩), .append ⟨0⟩ (.move ⟨2, .int⟩ ⟨1, .int⟩)].foldl perform {}

theorem copying_reachable : copying.Reachable := by
  rw [copying]
  simp only [List.foldl_cons, List.foldl_nil]
  refine .next (.next (.next (.next (.next (.next (.next (.next (.next .start ?_) ?_) ?_) ?_) ?_) ?_) ?_) ?_) ?_
  · exact ⟨by simp, by simp⟩
  · change Option.isSome _ = true
    decide +kernel
  · change Option.isSome _ = true
    decide +kernel
  · trivial
  · trivial
  · exact ⟨by simp, by simp, trivial, fun slot _ => .inl (by revert slot; decide +kernel)⟩
  · exact ⟨by simp, by simp, trivial, fun slot _ => .inl (by revert slot; decide +kernel)⟩
  · exact ⟨by decide +kernel, by decide +kernel⟩
  · exact ⟨by decide +kernel, by decide +kernel⟩

/-- The body of the copying method. -/
def copyingBody : Body :=
  ⟨[⟨0, .long⟩, ⟨1, .int⟩], #[⟨0, .long⟩, ⟨1, .int⟩, ⟨3, .long⟩, ⟨2, .int⟩], #[⟨0⟩, ⟨1⟩]⟩

theorem copying_body : copying.program.body? ⟨0⟩ = some copyingBody := by
  have parts : (copying.program.body? ⟨0⟩).map (fun body => (body.parameters, body.locals, body.instructions)) =
      some (copyingBody.parameters, copyingBody.locals, copyingBody.instructions) := by decide +kernel
  obtain ⟨⟨_, _, _⟩, here, same⟩ := Option.map_eq_some_iff.mp parts
  cases same
  exact here

theorem copying_ofBody_allots :
    copying.program.body? ⟨0⟩ = some copyingBody ∧
    RegisterPlan.ofBody copying.program copyingBody 5 = .error (.capacityExceeded .registers 6 5) ∧
    ∃ plan, RegisterPlan.ofBody copying.program copyingBody 6 = .ok plan ∧ plan.tags = [6, 9, 5, 6, 9, 5] ∧
      plan.parameterRegisters = 3 ∧ copying.program.Allots ⟨0⟩ copyingBody plan := by
  refine ⟨copying_body, ?_, ?_⟩
  · apply ((copying_reachable.ofBody_allots copying_body 5).2.2 _).mpr
    decide +kernel
  · obtain ⟨allots, made, -⟩ := copying_reachable.ofBody_allots copying_body 6
    obtain ⟨plan, placed⟩ := made.mpr (by decide +kernel)
    obtain ⟨rfl, -⟩ := ofBody_ok placed
    exact ⟨_, placed, by decide +kernel, by decide +kernel, allots _ placed⟩

end Session

end ClassImage
