import ClassImage.Proofs.Program.Bodies
import ClassImage.Proofs.Program.Edits

/-!
Locals and the bodies that own them. A local belongs to the first body in which
it is attached, and to no other. The owner is found through the number of a
local, so two locals of one number have to be the same: a number is issued once,
with one kind. What is said of a client's locals is therefore said together with
the locals that the client still holds.
-/

namespace ClassImage

@[simp] theorem Instruction.locals_retarget (old new : InstructionId) (instruction : Instruction) :
    (instruction.retarget old new).locals = instruction.locals := by
  cases instruction with
  | branch test target => cases test <;> rfl
  | _ => rfl

namespace Program

theorem owner?_addLocal (program : Program) : program.addLocal.owner? = program.owner? := by
  funext slot
  simp only [owner?, addLocal, Array.getElem?_push]
  split
  · rename_i last
    rw [last, Array.getElem?_eq_none le_rfl]
    rfl
  · rfl

theorem Growth.owner? {before after : Program} (growth : Growth before after) :
    after.owner? = before.owner? := by
  cases growth with
  | @marker symbol static => cases symbol <;> rfl
  | slot => exact owner?_addLocal before
  | _ => rfl

theorem Growths.owner? {before after : Program} (growths : Growths before after) :
    after.owner? = before.owner? := by
  induction growths with
  | refl => rfl
  | tail _ growth ih => rw [growth.owner?, ih]

theorem Growth.owners_size {before after : Program} (growth : Growth before after) :
    before.owners.size ≤ after.owners.size := by
  cases growth with
  | @marker symbol static => cases symbol <;> exact le_rfl
  | slot => simp [addLocal]
  | _ => exact le_rfl

theorem Growths.owners_size {before after : Program} (growths : Growths before after) :
    before.owners.size ≤ after.owners.size := by
  induction growths with
  | refl => exact le_rfl
  | tail _ growth ih => exact ih.trans growth.owners_size

theorem owner?_of_new {program : Program} {slot : Local} (new : program.owners.size ≤ slot.id) :
    program.owner? slot = none := by
  rw [Program.owner?, Array.getElem?_eq_none new]
  rfl

theorem owner?_addBody (program : Program) (method : MethodId) (parameters : List Local)
    (slot : Local) :
    (program.addBody method parameters).owner? slot =
      if program.owners.size ≤ slot.id ∧ slot.id < program.owners.size + parameters.length then
        some method
      else program.owner? slot := by
  have replaced : (program.addBody method parameters).owners =
      program.owners ++ Array.replicate parameters.length (some method) := rfl
  rw [Program.owner?, replaced, Array.getElem?_append, Array.getElem?_replicate]
  by_cases old : slot.id < program.owners.size
  · rw [if_pos old, if_neg (by omega), Program.owner?]
  · by_cases new : slot.id < program.owners.size + parameters.length
    · rw [if_neg old, if_pos (by omega), if_pos (by omega)]
      rfl
    · rw [if_neg old, if_neg (by omega), if_neg (by omega), owner?_of_new (by omega)]
      rfl

theorem size_addBody (program : Program) (method : MethodId) (parameters : List Local) :
    (program.addBody method parameters).owners.size = program.owners.size + parameters.length := by
  simp [addBody]

/-- A new body owns its parameters and nothing else. -/
theorem owner?_newBody (program : Program) (method : MethodId) (kinds : List ValueKind) (slot : Local) :
    (program.addBody method (program.newLocals kinds)).owner? slot =
      if slot.id ∈ (program.newLocals kinds).map Local.id then some method
      else program.owner? slot := by
  simp only [owner?_addBody, mem_ids_newLocals, length_newLocals]

section Claiming

variable (method : MethodId)

theorem claim_size (locals : List Local) (claimed : Array (Option MethodId) × Array Local) :
    (locals.foldl (claimLocal method) claimed).1.size = claimed.1.size := by
  induction locals generalizing claimed with
  | nil => rfl
  | cons slot locals ih =>
    rw [List.foldl_cons, ih, claimLocal]
    split
    · rfl
    · exact Array.size_setIfInBounds

theorem claimLocal_owner (claimed : Array (Option MethodId) × Array Local) (slot : Local) (id : Nat) :
    (claimLocal method claimed slot).1[id]?.join =
      if id = slot.id ∧ id < claimed.1.size ∧ claimed.1[id]?.join = none then some method
      else claimed.1[id]?.join := by
  rw [claimLocal]
  cases owned : claimed.1[slot.id]?.join with
  | some owner =>
    rw [if_neg]
    rintro ⟨rfl, -, vacant⟩
    rw [owned] at vacant
    cases vacant
  | none =>
    rw [Array.getElem?_setIfInBounds]
    by_cases same : id = slot.id
    · subst same
      by_cases issued : slot.id < claimed.1.size
      · rw [if_pos rfl, if_pos issued, if_pos ⟨rfl, issued, owned⟩, Option.join_some]
      · rw [if_pos rfl, if_neg issued, if_neg fun taken => issued taken.2.1, owned, Option.join_none]
    · rw [if_neg (Ne.symm same), if_neg fun taken => same taken.1]

theorem claimLocal_vacant {method : MethodId} {claimed : Array (Option MethodId) × Array Local} {slot : Local} {id : Nat} :
    (claimLocal method claimed slot).1[id]?.join = none ↔
      claimed.1[id]?.join = none ∧ ¬(id = slot.id ∧ id < claimed.1.size) := by
  rw [claimLocal_owner]
  by_cases vacant : claimed.1[id]?.join = none
  · by_cases taken : id = slot.id ∧ id < claimed.1.size
    · rw [if_pos ⟨taken.1, taken.2, vacant⟩]
      exact iff_of_false (Option.some_ne_none _) fun apart => apart.2 taken
    · rw [if_neg fun owned => taken ⟨owned.1, owned.2.1⟩]
      exact (and_iff_left taken).symm
  · rw [if_neg fun owned => vacant owned.2.2]
    exact iff_of_false vacant fun apart => vacant apart.1

/-- Claiming gives the method those of the locals that were issued and have no owner. -/
theorem claim_owner (locals : List Local) (claimed : Array (Option MethodId) × Array Local) (id : Nat) :
    (locals.foldl (claimLocal method) claimed).1[id]?.join =
      if id ∈ locals.map Local.id ∧ id < claimed.1.size ∧ claimed.1[id]?.join = none then some method
      else claimed.1[id]?.join := by
  induction locals generalizing claimed with
  | nil => simp
  | cons slot locals ih =>
    have size := claim_size method [slot] claimed
    rw [List.foldl_cons, List.foldl_nil] at size
    rw [List.foldl_cons, ih, claimLocal_owner, size]
    by_cases taken : id = slot.id ∧ id < claimed.1.size ∧ claimed.1[id]?.join = none
    · rw [if_pos taken, if_neg (by simp), if_pos ⟨List.mem_cons.mpr (.inl taken.1), taken.2⟩]
    · rw [if_neg taken]
      simp only [List.map_cons, List.mem_cons, or_and_right, taken, false_or]

/-- Claiming lists locals without an owner, and each once if they were issued. -/
theorem claim_lists (locals : List Local) (claimed : Array (Option MethodId) × Array Local) :
    ∃ fresh, (locals.foldl (claimLocal method) claimed).2 = claimed.2 ++ fresh ∧
      (∀ slot ∈ fresh, slot ∈ locals ∧ claimed.1[slot.id]?.join = none) ∧
      ((∀ slot ∈ locals, slot.id < claimed.1.size) → (fresh.toList.map Local.id).Nodup ∧
        ∀ slot ∈ locals, claimed.1[slot.id]?.join = none → slot.id ∈ fresh.toList.map Local.id) := by
  induction locals generalizing claimed with
  | nil => exact ⟨#[], by simp⟩
  | cons slot locals ih =>
    rw [List.foldl_cons]
    cases owned : claimed.1[slot.id]?.join with
    | some owner =>
      have same : claimLocal method claimed slot = claimed := by rw [claimLocal, owned]
      obtain ⟨fresh, list, free, once⟩ := ih claimed
      rw [same]
      refine ⟨fresh, list, fun other member => (free other member).imp_left (List.mem_cons_of_mem _), ?_⟩
      intro issued
      rw [List.forall_mem_cons] at issued
      obtain ⟨distinct, all⟩ := once issued.2
      refine ⟨distinct, List.forall_mem_cons.mpr ⟨fun vacant => ?_, all⟩⟩
      rw [owned] at vacant
      cases vacant
    | none =>
      have pushed : (claimLocal method claimed slot).2 = claimed.2.push slot := by rw [claimLocal, owned]
      obtain ⟨fresh, list, free, once⟩ := ih (claimLocal method claimed slot)
      have size : (claimLocal method claimed slot).1.size = claimed.1.size := claim_size method [slot] claimed
      refine ⟨#[slot] ++ fresh, ?_, ?_, ?_⟩
      · rw [list, pushed, Array.push_eq_append, Array.append_assoc]
      · intro other member
        rcases Array.mem_append.mp member with first | rest
        · obtain rfl := Array.mem_singleton.mp first
          exact ⟨List.mem_cons_self, owned⟩
        · exact ⟨List.mem_cons_of_mem _ (free other rest).1, (claimLocal_vacant.mp (free other rest).2).1⟩
      · intro issued
        rw [List.forall_mem_cons] at issued
        obtain ⟨distinct, all⟩ := once (size ▸ issued.2)
        rw [Array.toList_append, List.map_append, List.forall_mem_cons]
        refine ⟨List.nodup_cons.mpr ⟨?_, distinct⟩, fun _ => List.mem_cons_self, ?_⟩
        · intro member
          obtain ⟨other, listed, same⟩ := List.mem_map.mp member
          have vacant := claimLocal_vacant.mp (free other (Array.mem_toList_iff.mp listed)).2
          exact vacant.2 ⟨same, same ▸ issued.1⟩
        · intro other member vacant
          by_cases same : other.id = slot.id
          · exact List.mem_cons.mpr (.inl same)
          · exact List.mem_cons_of_mem _
              (all other member (claimLocal_vacant.mpr ⟨vacant, fun taken => same taken.1⟩))

/-- Of locals that were issued, claiming lists those without an owner, each once. -/
theorem claim_fresh (locals : List Local) (claimed : Array (Option MethodId) × Array Local)
    (issued : ∀ slot ∈ locals, slot.id < claimed.1.size) :
    ∃ fresh, (locals.foldl (claimLocal method) claimed).2 = claimed.2 ++ fresh ∧
      (∀ slot ∈ fresh, slot ∈ locals) ∧ (fresh.toList.map Local.id).Nodup ∧
      ∀ id, id ∈ fresh.toList.map Local.id ↔ id ∈ locals.map Local.id ∧ claimed.1[id]?.join = none := by
  obtain ⟨fresh, list, free, once⟩ := claim_lists method locals claimed
  obtain ⟨distinct, all⟩ := once issued
  refine ⟨fresh, list, fun slot listed => (free slot listed).1, distinct, ?_⟩
  intro id
  constructor
  · intro listed
    obtain ⟨slot, member, rfl⟩ := List.mem_map.mp listed
    exact (free slot (Array.mem_toList_iff.mp member)).imp_left List.mem_map_of_mem
  · rintro ⟨used, vacant⟩
    obtain ⟨slot, member, rfl⟩ := List.mem_map.mp used
    exact all slot member vacant

theorem owner?_attach (program : Program) (position : Nat) (id : InstructionId)
    (instruction : Instruction) (slot : Local) :
    (program.attach method position id instruction).owner? slot =
      if slot.id ∈ instruction.locals.map Local.id ∧ slot.id < program.owners.size ∧
          program.owner? slot = none then some method
      else program.owner? slot :=
  claim_owner method instruction.locals (program.owners, #[]) slot.id

theorem owner?_attach_of_owned {method : MethodId} {program : Program} {slot : Local} {holder : MethodId}
    (owned : program.owner? slot = some holder) (position : Nat) (id : InstructionId)
    (instruction : Instruction) :
    (program.attach method position id instruction).owner? slot = some holder := by
  rw [owner?_attach, owned, if_neg (by simp)]

theorem size_owners_attach (program : Program) (position : Nat) (id : InstructionId)
    (instruction : Instruction) :
    (program.attach method position id instruction).owners.size = program.owners.size :=
  claim_size method instruction.locals (program.owners, #[])

end Claiming

theorem checkLocals_ok {program : Program} {method : MethodId} {instruction : Instruction} :
    program.checkLocals method instruction = .ok () ↔ ∀ slot ∈ instruction.locals,
      program.owner? slot = none ∨ program.owner? slot = some method := by
  rw [checkLocals, Except.forM_ok]
  apply forall₂_congr
  intro slot member
  cases program.owner? slot with
  | none => simp
  | some owner =>
    by_cases same : owner = method
    · simp [same]
    · simp [same]

/-- A client holds the local, or some body lists it. -/
def Shows (program : Program) (held : List Local) (slot : Local) : Prop :=
  slot ∈ held ∨ ∃ method body, program.body? method = some body ∧ slot ∈ body.locals

theorem Shows.of_bodies {before after : Program} {held : List Local} {slot : Local}
    (shown : before.Shows held slot)
    (bodies : ∀ method, (after.body? method).map Body.locals = (before.body? method).map Body.locals) :
    after.Shows held slot := by
  rcases shown with member | ⟨method, body, here, listed⟩
  · exact .inl member
  · have same := bodies method
    rw [here, Option.map_some] at same
    obtain ⟨other, there, same⟩ := Option.map_eq_some_iff.mp same
    exact .inr ⟨method, other, there, same ▸ listed⟩

theorem locals_detach (program : Program) (id : InstructionId) (slot : Slot) (method : MethodId) :
    ((program.detach id slot).body? method).map Body.locals =
      (program.body? method).map Body.locals := by
  rw [body?_detach]
  split
  · rw [Option.map_map]
    rfl
  · rfl

/-- What is shown after a body was added was shown before, or is a parameter of it. -/
theorem shows_addBody {program : Program} {method : MethodId}
    (known : method.index < program.methods.size) {parameters held : List Local} {slot : Local}
    (shown : (program.addBody method parameters).Shows held slot) :
    program.Shows held slot ∨ slot ∈ parameters := by
  rcases shown with member | ⟨other, body, here, listed⟩
  · exact .inl (.inl member)
  · rw [body?_addBody program known] at here
    split at here
    · cases here
      exact .inr (Array.mem_toList_iff.mpr listed)
    · exact .inl (.inr ⟨other, body, here, listed⟩)

/-- A local that a body lists stays listed. -/
theorem Step.shows {before after : Program} (step : Step before after) {held : List Local}
    {slot : Local} (shown : before.Shows held slot) : after.Shows held slot := by
  cases step with
  | grow growth =>
    apply shown.of_bodies
    intro method
    rw [growth.body?]
  | declareMethod =>
    apply shown.of_bodies
    intro method
    rw [body?_listMethod]
  | define | declareField | handles => exact shown.of_bodies fun _ => rfl
  | @body method access declared coded fresh =>
    have known := known_of_declaration declared
    rcases shown with member | ⟨other, body, here, listed⟩
    · exact .inl member
    · refine .inr ⟨other, body, ?_, listed⟩
      rw [body?_addBody _ known, if_neg, here]
      rintro rfl
      rw [fresh] at here
      cases here
  | attach =>
    rcases shown with member | ⟨other, body, here, listed⟩
    · exact .inl member
    · refine .inr ⟨other, ?_⟩
      rw [body?_attach]
      split
      · rw [here]
        exact ⟨_, rfl, Array.mem_append_left _ listed⟩
      · exact ⟨body, here, listed⟩
  | detach => exact shown.of_bodies (locals_detach _ _ _)
  | retarget =>
    apply shown.of_bodies
    intro method
    rw [body?_retarget]

theorem Steps.shows {before after : Program} (steps : Steps before after) {held : List Local}
    {slot : Local} (shown : before.Shows held slot) : after.Shows held slot := by
  induction steps with
  | refl => exact shown
  | tail _ step ih => exact step.shows ih

/-- Bodies come to own locals that no body owned. -/
structure Claims (fresh : MethodId → List Local) (before after : Program) : Prop where
  size : before.owners.size ≤ after.owners.size
  opened : ∀ {method slot}, slot ∈ fresh method → (before.body? method).isSome
  distinct : ∀ method, ((fresh method).map Local.id).Nodup
  free : ∀ {method} {slot : Local}, slot.id ∈ (fresh method).map Local.id →
    before.owner? slot = none
  owners : ∀ {slot method}, after.owner? slot = some method ↔
    before.owner? slot = some method ∨ slot.id ∈ (fresh method).map Local.id
  bodies : ∀ method, (after.body? method).map (fun body => (body.parameters, body.locals.toList)) =
    (before.body? method).map fun body => (body.parameters, body.locals.toList ++ fresh method)

namespace Claims

variable {before after : Program} {fresh : MethodId → List Local}

theorem empty (size : before.owners.size ≤ after.owners.size) (owners : after.owner? = before.owner?)
    (bodies : ∀ method, (after.body? method).map (fun body => (body.parameters, body.locals)) =
      (before.body? method).map fun body => (body.parameters, body.locals)) :
    Claims (fun _ => []) before after := by
  refine ⟨size, by simp, by simp, by simp, by simp [owners], ?_⟩
  intro method
  have same := congrArg (Option.map (Prod.map id Array.toList)) (bodies method)
  rw [Option.map_map, Option.map_map] at same
  simp only [List.append_nil]
  exact same

theorem single {method : MethodId} {fresh : List Local} (opened : (before.body? method).isSome)
    (size : before.owners.size ≤ after.owners.size) (distinct : (fresh.map Local.id).Nodup)
    (free : ∀ slot : Local, slot.id ∈ fresh.map Local.id → before.owner? slot = none)
    (owners : ∀ slot, after.owner? slot =
      if slot.id ∈ fresh.map Local.id then some method else before.owner? slot)
    (bodies : ∀ other, (after.body? other).map (fun body => (body.parameters, body.locals.toList)) =
      (before.body? other).map fun body =>
        (body.parameters, body.locals.toList ++ if other = method then fresh else [])) :
    Claims (fun other => if other = method then fresh else []) before after := by
  refine ⟨size, ?_, ?_, ?_, ?_, bodies⟩
  · intro other slot fresh
    split at fresh
    · rename_i same
      rw [same]
      exact opened
    · cases fresh
  · intro other
    split
    · exact distinct
    · exact List.nodup_nil
  · intro other slot fresh
    split at fresh
    · exact free slot fresh
    · cases fresh
  · intro slot other
    rw [owners]
    by_cases new : slot.id ∈ fresh.map Local.id
    · by_cases same : other = method
      · simp [new, same]
      · simp [new, same, Ne.symm same, free slot new]
    · by_cases same : other = method
      · simp [new, same]
      · simp [new, same]

/-- An attached instruction brings to its body those of its locals that had no owner. -/
theorem attach {program : Program} {method : MethodId} {body : Body} {instruction : Instruction}
    (here : program.body? method = some body)
    (issued : ∀ slot ∈ instruction.locals, slot.id < program.owners.size) (position : Nat)
    (id : InstructionId) :
    ∃ fresh : List Local, (∀ slot ∈ fresh, slot ∈ instruction.locals) ∧
      Claims (fun other => if other = method then fresh else []) program
        (program.attach method position id instruction) := by
  obtain ⟨fresh, list, sources, distinct, free⟩ :=
    claim_fresh method instruction.locals (program.owners, #[]) issued
  refine ⟨fresh.toList, fun slot listed => sources slot (Array.mem_toList_iff.mp listed), ?_⟩
  refine .single (by rw [here]; rfl) (size_owners_attach method _ _ _ _).ge distinct ?_ ?_ ?_
  · exact fun slot listed => ((free slot.id).mp listed).2
  · intro slot
    rw [owner?_attach]
    congr 1
    rw [free]
    apply propext
    constructor
    · exact fun ⟨used, _, vacant⟩ => ⟨used, vacant⟩
    · rintro ⟨used, vacant⟩
      obtain ⟨other, member, same⟩ := List.mem_map.mp used
      exact ⟨used, same ▸ issued other member, vacant⟩
  · intro other
    rw [body?_attach]
    split
    · rw [Option.map_map]
      congr 1
      funext body
      simp [list]
    · simp

theorem origin (claims : Claims fresh before after) {method : MethodId} {body : Body}
    (here : after.body? method = some body) : ∃ old, before.body? method = some old ∧
      body.parameters = old.parameters ∧ body.locals.toList = old.locals.toList ++ fresh method := by
  have same := claims.bodies method
  rw [here, Option.map_some] at same
  obtain ⟨old, there, same⟩ := Option.map_eq_some_iff.mp same.symm
  obtain ⟨parameters, locals⟩ := Prod.mk.inj same
  exact ⟨old, there, parameters.symm, locals.symm⟩

theorem isSome_body? (claims : Claims fresh before after) (method : MethodId) :
    (after.body? method).isSome = (before.body? method).isSome := by
  have same := congrArg Option.isSome (claims.bodies method)
  rwa [Option.isSome_map, Option.isSome_map] at same

theorem shows (claims : Claims fresh before after) {held : List Local}
    (shown : ∀ method, ∀ slot ∈ fresh method, before.Shows held slot) {slot : Local}
    (visible : after.Shows held slot) : before.Shows held slot := by
  rcases visible with member | ⟨method, body, here, listed⟩
  · exact .inl member
  · obtain ⟨old, there, -, locals⟩ := claims.origin here
    rw [← Array.mem_toList_iff, locals, List.mem_append, Array.mem_toList_iff] at listed
    rcases listed with listed | new
    · exact .inr ⟨method, old, there, listed⟩
    · exact shown method slot new

end Claims

structure LocalsSound (program : Program) (held : List Local) : Prop where
  issued : ∀ {slot}, program.Shows held slot → slot.id < program.owners.size
  unique : ∀ {one other}, program.Shows held one → program.Shows held other → one.id = other.id →
    one = other
  distinct : ∀ {method body}, program.body? method = some body →
    (body.locals.toList.map Local.id).Nodup
  parameters : ∀ {method body}, program.body? method = some body →
    body.parameters <+: body.locals.toList
  owned : ∀ {method body}, program.body? method = some body → ∀ slot : Local,
    slot.id ∈ body.locals.toList.map Local.id ↔ program.owner? slot = some method
  opened : ∀ {slot method}, program.owner? slot = some method → (program.body? method).isSome
  used : ∀ {id slot}, program.slot? id = some slot → ∀ operand ∈ slot.instruction.locals,
    ∃ body, program.body? slot.method = some body ∧ operand ∈ body.locals

namespace LocalsSound

variable {program before after : Program} {held : List Local}

theorem shows_of_used (sound : program.LocalsSound held) {id : InstructionId} {slot : Slot}
    (attached : program.slot? id = some slot) {operand : Local}
    (uses : operand ∈ slot.instruction.locals) : program.Shows held operand := by
  obtain ⟨body, here, listed⟩ := sound.used attached operand uses
  exact .inr ⟨slot.method, body, here, listed⟩

/-- A body lists a shown local exactly if it owns it. -/
theorem listed_iff (sound : program.LocalsSound held) {method : MethodId} {body : Body}
    (here : program.body? method = some body) {slot : Local} (shown : program.Shows held slot) :
    slot ∈ body.locals ↔ program.owner? slot = some method := by
  rw [← sound.owned here, List.mem_map]
  constructor
  · intro listed
    exact ⟨slot, Array.mem_toList_iff.mpr listed, rfl⟩
  · rintro ⟨other, listed, same⟩
    have listed := Array.mem_toList_iff.mp listed
    rw [← sound.unique (.inr ⟨method, body, here, listed⟩) shown same]
    exact listed

theorem owner?_of_used (sound : program.LocalsSound held) {id : InstructionId} {slot : Slot}
    (attached : program.slot? id = some slot) {operand : Local}
    (uses : operand ∈ slot.instruction.locals) : program.owner? operand = some slot.method := by
  obtain ⟨body, here, listed⟩ := sound.used attached operand uses
  exact (sound.listed_iff here (.inr ⟨slot.method, body, here, listed⟩)).mp listed

/-- A client may hold what it is shown. -/
theorem hold (sound : program.LocalsSound held) {more : List Local}
    (shown : ∀ slot ∈ more, program.Shows held slot) : program.LocalsSound more := by
  have all : ∀ {slot}, program.Shows more slot → program.Shows held slot := by
    rintro slot (member | listed)
    · exact shown slot member
    · exact .inr listed
  refine ⟨?_, ?_, sound.distinct, sound.parameters, sound.owned,
    sound.opened, sound.used⟩
  · exact fun shown => sound.issued (all shown)
  · exact fun one other => sound.unique (all one) (all other)

/-- A client may hold one local more that was just issued. -/
theorem hold_new (sound : program.LocalsSound held) {slot : Local}
    (issued : slot.id < program.owners.size)
    (new : ∀ other, program.Shows held other → other.id ≠ slot.id) :
    program.LocalsSound (slot :: held) := by
  have all : ∀ {other}, program.Shows (slot :: held) other → other = slot ∨ program.Shows held other := by
    rintro other (member | listed)
    · rcases List.mem_cons.mp member with same | member
      · exact .inl same
      · exact .inr (.inl member)
    · exact .inr (.inr listed)
  refine ⟨?_, ?_, sound.distinct, sound.parameters, sound.owned,
    sound.opened, sound.used⟩
  · intro other shown
    rcases all shown with rfl | shown
    · exact issued
    · exact sound.issued shown
  · intro one other shown shown' same
    rcases all shown with here | shown <;> rcases all shown' with here' | shown'
    · rw [here, here']
    · exact absurd (here ▸ same).symm (new _ shown')
    · exact absurd (here' ▸ same) (new _ shown)
    · exact sound.unique shown shown' same

theorem ne_of_new (sound : program.LocalsSound held) {kinds : List ValueKind} {slot other : Local}
    (shown : program.Shows held slot) (new : other ∈ program.newLocals kinds) : slot.id ≠ other.id := by
  intro same
  have low := sound.issued shown
  have high := (mem_ids_newLocals.mp (List.mem_map_of_mem new)).1
  omega

/-- Bodies may come to own what was shown before. -/
theorem claims (sound : before.LocalsSound held) {fresh : MethodId → List Local}
    (claims : Claims fresh before after)
    (shown : ∀ method, ∀ slot ∈ fresh method, before.Shows held slot)
    (used : ∀ {id slot}, after.slot? id = some slot → ∀ operand ∈ slot.instruction.locals,
      before.Shows held operand ∧ after.owner? operand = some slot.method) :
    after.LocalsSound held := by
  have owned : ∀ {method body}, after.body? method = some body → ∀ slot : Local,
      slot.id ∈ body.locals.toList.map Local.id ↔ after.owner? slot = some method := by
    intro method body here slot
    obtain ⟨old, there, -, locals⟩ := claims.origin here
    rw [locals, List.map_append, List.mem_append, sound.owned there, claims.owners]
  have opened : ∀ {slot method}, after.owner? slot = some method → (after.body? method).isSome := by
    intro slot method owner
    rw [claims.isSome_body?]
    rcases claims.owners.mp owner with old | new
    · exact sound.opened old
    · obtain ⟨other, member, -⟩ := List.mem_map.mp new
      exact claims.opened member
  refine ⟨?_, ?_, ?_, ?_, owned, opened, ?_⟩
  · exact fun visible => (sound.issued (claims.shows shown visible)).trans_le claims.size
  · exact fun one other => sound.unique (claims.shows shown one) (claims.shows shown other)
  · intro method body here
    obtain ⟨old, there, -, locals⟩ := claims.origin here
    rw [locals, List.map_append]
    refine List.Nodup.append (sound.distinct there) (claims.distinct method) ?_
    intro number listed new
    obtain ⟨slot, -, rfl⟩ := List.mem_map.mp new
    rw [sound.owned there, claims.free new] at listed
    cases listed
  · intro method body here
    obtain ⟨old, there, parameters, locals⟩ := claims.origin here
    rw [parameters, locals]
    exact (sound.parameters there).trans (List.prefix_append _ _)
  · intro id slot attached operand uses
    obtain ⟨visible, owner⟩ := used attached operand uses
    obtain ⟨body, here⟩ := Option.isSome_iff_exists.mp (opened owner)
    obtain ⟨other, listed, same⟩ := List.mem_map.mp ((owned here operand).mpr owner)
    have listed := Array.mem_toList_iff.mp listed
    have shows := claims.shows shown (.inr ⟨slot.method, body, here, listed⟩)
    exact ⟨body, here, sound.unique shows visible same ▸ listed⟩

/-- Changes that neither touch the locals of bodies nor attach anything. -/
theorem of_same (sound : before.LocalsSound held) (size : before.owners.size ≤ after.owners.size)
    (owners : after.owner? = before.owner?)
    (bodies : ∀ method, (after.body? method).map (fun body => (body.parameters, body.locals)) =
      (before.body? method).map fun body => (body.parameters, body.locals))
    (slots : ∀ {id slot}, after.slot? id = some slot → ∃ old, before.slot? id = some old ∧
      slot.method = old.method ∧ slot.instruction.locals = old.instruction.locals) :
    after.LocalsSound held := by
  refine sound.claims (.empty size owners bodies) (by simp) ?_
  intro id slot attached operand uses
  obtain ⟨old, there, method, locals⟩ := slots attached
  rw [locals] at uses
  rw [method, owners]
  exact ⟨sound.shows_of_used there uses, sound.owner?_of_used there uses⟩

theorem growth (sound : before.LocalsSound held) (growth : Growth before after) :
    after.LocalsSound held := by
  refine sound.of_same growth.owners_size growth.owner? ?_ ?_
  · intro method
    rw [growth.body?]
  · intro id slot attached
    rw [slot?, growth.code] at attached
    exact ⟨slot, attached, rfl, rfl⟩

theorem growths (sound : before.LocalsSound held) (growths : Growths before after) :
    after.LocalsSound held := by
  induction growths with
  | refl => exact sound
  | tail _ grown ih => exact ih.growth grown

theorem addLocal (sound : program.LocalsSound held) (kind : ValueKind) :
    program.addLocal.LocalsSound (⟨program.owners.size, kind⟩ :: held) := by
  refine (sound.growth .slot).hold_new (by simp [Program.addLocal]) ?_
  intro other shown same
  exact absurd same (sound.issued (shown.of_bodies fun _ => rfl)).ne

theorem owned_newBody (sound : program.LocalsSound held) {method : MethodId}
    (known : method.index < program.methods.size) (fresh : program.body? method = none)
    {kinds : List ValueKind} {other : MethodId} {body : Body}
    (here : (program.addBody method (program.newLocals kinds)).body? other = some body) (slot : Local) :
    slot.id ∈ body.locals.toList.map Local.id ↔
      (program.addBody method (program.newLocals kinds)).owner? slot = some other := by
  rw [body?_addBody program known] at here
  rw [owner?_newBody]
  by_cases mine : other = method
  · subst mine
    rw [if_pos rfl] at here
    cases here
    split
    · rename_i new
      exact iff_of_true new rfl
    · rename_i old
      refine ⟨fun listed => absurd listed old, fun owned => ?_⟩
      have opened := sound.opened owned
      rw [fresh] at opened
      cases opened
  · rw [if_neg mine] at here
    rw [sound.owned here]
    split
    · rename_i new
      rw [owner?_of_new (mem_ids_newLocals.mp new).1]
      simp [Ne.symm mine]
    · rfl

/-- The parameters of a new body are new locals. -/
theorem body (sound : program.LocalsSound held) {method : MethodId}
    (known : method.index < program.methods.size) (fresh : program.body? method = none)
    (kinds : List ValueKind) :
    (program.addBody method (program.newLocals kinds)).LocalsSound held := by
  have view := body?_addBody program known (program.newLocals kinds)
  have older : ∀ {other body}, program.body? other = some body → other ≠ method := by
    rintro _ body here rfl
    rw [fresh] at here
    cases here
  constructor
  · intro slot shown
    rw [size_addBody, length_newLocals]
    rcases shows_addBody known shown with shown | new
    · exact (sound.issued shown).trans_le (Nat.le_add_right _ _)
    · exact (mem_ids_newLocals.mp (List.mem_map_of_mem new)).2
  · intro one other shown shown' same
    rcases shows_addBody known shown with shown | new <;>
      rcases shows_addBody known shown' with shown' | new'
    · exact sound.unique shown shown' same
    · exact absurd same (sound.ne_of_new shown new')
    · exact absurd same.symm (sound.ne_of_new shown' new)
    · exact List.inj_on_of_nodup_map (nodup_ids_newLocals program kinds) new new' same
  · intro other body here
    rw [view] at here
    split at here
    · cases here
      exact nodup_ids_newLocals program kinds
    · exact sound.distinct here
  · intro other body here
    rw [view] at here
    split at here
    · cases here
      exact List.prefix_rfl
    · exact sound.parameters here
  · exact sound.owned_newBody known fresh
  · intro slot other owned
    rw [view]
    split
    · rfl
    · rename_i elsewhere
      rw [owner?_newBody] at owned
      split at owned
      · cases owned
        exact absurd rfl elsewhere
      · exact sound.opened owned
  · intro id slot attached operand uses
    obtain ⟨body, here, listed⟩ := sound.used (attached : program.slot? id = some slot) operand uses
    refine ⟨body, ?_, listed⟩
    rw [view, if_neg (older here), here]

theorem attach (sound : program.LocalsSound held) {method : MethodId} {body : Body} {position : Nat}
    {id : InstructionId} {instruction : Instruction} (here : program.body? method = some body)
    (issued : id.index < program.code.size)
    (locals : program.checkLocals method instruction = .ok ())
    (shown : ∀ slot ∈ instruction.locals, program.Shows held slot) :
    (program.attach method position id instruction).LocalsSound held := by
  obtain ⟨fresh, sources, claims⟩ :=
    Claims.attach here (fun slot uses => sound.issued (shown slot uses)) position id
  refine sound.claims claims ?_ ?_
  · intro other slot listed
    split at listed
    · exact shown slot (sources slot listed)
    · cases listed
  · intro other slot attached operand uses
    rw [slot?_attach program issued] at attached
    split at attached
    · cases attached
      refine ⟨shown operand uses, ?_⟩
      rcases checkLocals_ok.mp locals operand uses with none | mine
      · rw [owner?_attach, if_pos ⟨List.mem_map_of_mem uses, sound.issued (shown operand uses), none⟩]
      · exact owner?_attach_of_owned mine _ _ _
    · have owner := sound.owner?_of_used attached uses
      exact ⟨sound.shows_of_used attached uses, owner?_attach_of_owned owner _ _ _⟩

theorem detach (sound : program.LocalsSound held) (id : InstructionId) (slot : Slot) :
    (program.detach id slot).LocalsSound held := by
  refine sound.of_same le_rfl rfl ?_ ?_
  · intro method
    rw [body?_detach]
    split
    · rw [Option.map_map]
      rfl
    · rfl
  · intro other old attached
    rw [slot?_detach] at attached
    split at attached
    · cases attached
    · exact ⟨old, attached, rfl, rfl⟩

theorem retarget (sound : program.LocalsSound held) (branches : List InstructionId)
    (old new : InstructionId) : (program.retarget branches old new).LocalsSound held := by
  refine sound.of_same ?_ ?_ ?_ ?_
  · rw [retarget_eq]
  · rw [retarget_eq]
    rfl
  · intro method
    rw [body?_retarget]
  · intro id slot attached
    rw [slot?_retarget] at attached
    obtain ⟨before, there, same⟩ := Option.map_eq_some_iff.mp attached
    refine ⟨before, there, ?_⟩
    split at same
    · cases same
      exact ⟨rfl, Instruction.locals_retarget _ _ _⟩
    · cases same
      exact ⟨rfl, rfl⟩

theorem handles (sound : program.LocalsSound held) (count : Nat) :
    (program.addHandles count).LocalsSound held := by
  refine sound.of_same le_rfl rfl (fun _ => rfl) ?_
  intro id slot attached
  rw [slot?_addHandles] at attached
  exact ⟨slot, attached, rfl, rfl⟩

/-- Steps that leave code alone. -/
theorem quiet (sound : before.LocalsSound held) (step : Step before after)
    (code : after.code = before.code) : after.LocalsSound held := by
  have slots : after.slot? = before.slot? := by
    funext id
    rw [slot?, code, slot?]
  cases step with
  | grow growth => exact sound.growth growth
  | define | declareField =>
    exact sound.of_same le_rfl rfl (fun _ => rfl) fun attached => ⟨_, attached, rfl, rfl⟩
  | declareMethod =>
    refine sound.of_same le_rfl rfl (fun method => ?_) fun attached => ⟨_, attached, rfl, rfl⟩
    rw [body?_listMethod]
  | @body method access declared coded fresh =>
    exact sound.body (known_of_declaration declared) fresh _
  | handles => exact sound.handles _
  | @attach method _ position instruction id here place issued latest =>
    have attached : (before.attach method position id instruction).slot? id = _ :=
      slot?_attach before issued id
    rw [if_pos rfl, slots] at attached
    exact absurd (latest id _ attached) (lt_irrefl _)
  | detach => exact sound.detach _ _
  | retarget => exact sound.retarget _ _ _

theorem rewrite (sound : before.LocalsSound held) {instruction : Option Instruction}
    (rewrite : Rewrite instruction before after)
    (shown : ∀ joining, instruction = some joining →
      ∀ slot ∈ joining.locals, before.Shows held slot) : after.LocalsSound held := by
  cases rewrite with
  | insert here place locals =>
    refine (sound.handles 1).attach here ?_ locals (shown _ rfl)
    rw [size_addHandles]
    exact Nat.lt_succ_self _
  | remove attached => exact sound.detach _ _
  | @replace _ old slot body position joining attached here found locals =>
    have opened : ((before.addHandles 1).detach old slot).body? slot.method =
        some { body with instructions := body.instructions.filter (· ≠ old) } := by
      rw [body?_detach, if_pos rfl]
      exact congrArg (Option.map _) here
    refine (((sound.handles 1).detach old slot).attach opened ?_ locals ?_).retarget _ _ _
    · rw [size_detach, size_addHandles]
      exact Nat.lt_succ_self _
    · intro operand uses
      exact (shown _ rfl operand uses).of_bodies (locals_detach (before.addHandles 1) old slot)

end LocalsSound

end Program

end ClassImage
