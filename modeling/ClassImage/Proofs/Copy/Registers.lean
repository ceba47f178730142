import ClassImage.Proofs.Copy.Units

/-!
Registers and the locals of a copy. The registers of a body hold its locals in
the order of the plan, so a body of the copy that has one local of the same kind
for each, in the same order, finds under every register the local that stands
for the one the register was given to.
-/

namespace ClassImage

/-- Two entries stand in the same place of two lists. -/
def Paired (list : List α) (others : List β) (entry : α) (other : β) : Prop :=
  (entry, other) ∈ list.zip others

section Paired

variable {α β : Type} {list : List α} {others : List β} {entry : α} {other : β}

theorem paired_iff : Paired list others entry other ↔
    ∃ place : Nat, list[place]? = some entry ∧ others[place]? = some other := by
  simp only [Paired, List.mem_iff_getElem?, List.getElem?_zip_eq_some]

theorem Paired.eq_right (distinct : list.Nodup) {second : β} (left : Paired list others entry other)
    (right : Paired list others entry second) : other = second := by
  obtain ⟨place, here, there⟩ := paired_iff.mp left
  obtain ⟨place', here', there'⟩ := paired_iff.mp right
  obtain ⟨inside, first⟩ := List.getElem?_eq_some_iff.mp here
  obtain ⟨inside', first'⟩ := List.getElem?_eq_some_iff.mp here'
  cases (List.Nodup.getElem_inj_iff distinct).mp (first.trans first'.symm)
  exact Option.some.inj (there.symm.trans there')

theorem Paired.eq_left (distinct : others.Nodup) {second : α} (left : Paired list others entry other)
    (right : Paired list others second other) : entry = second := by
  obtain ⟨place, here, there⟩ := paired_iff.mp left
  obtain ⟨place', here', there'⟩ := paired_iff.mp right
  obtain ⟨inside, first⟩ := List.getElem?_eq_some_iff.mp there
  obtain ⟨inside', first'⟩ := List.getElem?_eq_some_iff.mp there'
  cases (List.Nodup.getElem_inj_iff distinct).mp (first.trans first'.symm)
  exact Option.some.inj (here.symm.trans here')

theorem Paired.mem_left (paired : Paired list others entry other) : entry ∈ list :=
  (List.of_mem_zip paired).1

theorem Paired.mem_right (paired : Paired list others entry other) : other ∈ others :=
  (List.of_mem_zip paired).2

theorem Paired.append {first : List α} {first' : List β} (length : first.length = first'.length) :
    Paired (first ++ list) (first' ++ others) entry other ↔
      Paired first first' entry other ∨ Paired list others entry other := by
  rw [Paired, List.zip_append length, List.mem_append]
  rfl

theorem forall₂_paired (length : list.length = others.length) :
    List.Forall₂ (Paired list others) list others := by
  apply List.forall₂_iff_zip.mpr
  exact ⟨length, fun paired => paired⟩

theorem biUnique_paired (left : list.Nodup) (right : others.Nodup) :
    Relator.BiUnique (Paired list others) := by
  constructor
  · intro first second other here there
    exact here.eq_left right there
  · intro entry first second here there
    exact here.eq_right left there

end Paired

theorem Paired.kind {list others : List Local} (kinds : others.map Local.kind = list.map Local.kind)
    {slot other : Local} (paired : Paired list others slot other) : other.kind = slot.kind := by
  obtain ⟨place, here, there⟩ := paired_iff.mp paired
  have left : (list.map Local.kind)[place]? = some slot.kind := by rw [List.getElem?_map, here, Option.map_some]
  have right : (others.map Local.kind)[place]? = some other.kind := by
    rw [List.getElem?_map, there, Option.map_some]
  rw [kinds, left] at right
  exact (Option.some.inj right).symm

/-- The tags of the registers that values of these kinds take. -/
def kindTags (kinds : List ValueKind) : List UInt8 := kinds.flatMap ValueKind.registerTags

theorem tags_eq (plan : RegisterPlan) : plan.tags = kindTags (plan.order.map Local.kind) := by
  rw [RegisterPlan.tags, kindTags, List.flatMap_map]

theorem length_kindTags (locals : List Local) :
    (kindTags (locals.map Local.kind)).length = RegisterPlan.slots locals := by
  rw [← RegisterPlan.length_tags ⟨locals, 0⟩, tags_eq]

theorem placeParameters_spread (locals : List Local) :
    placeParameters locals (kindTags (locals.map Local.kind)) = some (spread locals, []) := by
  induction locals with
  | nil => rfl
  | cons slot locals ih =>
    obtain ⟨id, kind⟩ := slot
    rw [List.map_cons, kindTags, List.flatMap_cons, ← kindTags, spread_cons]
    have wide := kind.isWide_tag
    cases size : kind.isWide with
    | true => simp [ValueKind.registerTags, placeParameters, wide, size, ih]
    | false => simp [ValueKind.registerTags, placeParameters, wide, size, ih]

/-- A local's first register holds, among others of the same kinds, the one in its place. -/
theorem find?_spread {wanted : Local} {first place : Nat} {order others : List Local}
    (kinds : others.map Local.kind = order.map Local.kind)
    (found : RegisterPlan.find? wanted first order = some place) :
    first ≤ place ∧ place < first + RegisterPlan.slots order ∧
      ∃ other, (spread others)[place - first]? = some (some other) ∧ Paired order others wanted other := by
  induction order generalizing first others with
  | nil => cases found
  | cons slot order ih =>
    cases others with
    | nil => cases kinds
    | cons other others =>
      rw [List.map_cons, List.map_cons, List.cons.injEq] at kinds
      have size : RegisterPlan.slots (slot :: order) = slot.kind.slots + RegisterPlan.slots order := rfl
      have some' : 0 < slot.kind.slots := by
        unfold ValueKind.slots
        split <;> omega
      have width : (if other.kind.isWide then [some other, none] else [some other]).length =
          slot.kind.slots := by
        rw [kinds.1, ValueKind.slots]
        split <;> rfl
      unfold RegisterPlan.find? at found
      by_cases here : slot = wanted
      · rw [if_pos here] at found
        cases found
        refine ⟨le_rfl, by omega, other, ?_, ?_⟩
        · rw [spread_cons, Nat.sub_self]
          split <;> rfl
        · rw [← here]
          exact List.mem_cons_self
      · rw [if_neg here] at found
        obtain ⟨low, high, held, there, paired⟩ := ih kinds.2 found
        refine ⟨by omega, by omega, held, ?_, List.mem_cons_of_mem _ paired⟩
        rw [spread_cons, List.getElem?_append_right (by rw [width]; omega), width, Nat.sub_sub]
        exact there

/-- Registers of locals that stand for those of a plan serve every register of the plan. -/
theorem register?_spread {plan : RegisterPlan} {others : List Local} {slot : Local} {register : UInt16}
    (room : RegisterPlan.slots plan.order ≤ 65535)
    (kinds : others.map Local.kind = plan.order.map Local.kind)
    (placed : plan.register? slot = some register) :
    ∃ other, (spread others).toArray[register.toNat]?.join = some other ∧
      Paired plan.order others slot other := by
  obtain ⟨place, found, rfl⟩ := Option.map_eq_some_iff.mp placed
  obtain ⟨-, bound, other, held, paired⟩ := find?_spread kinds found
  refine ⟨other, ?_, paired⟩
  rw [UInt16.toNat_ofNat', Nat.mod_eq_of_lt (by omega), List.getElem?_toArray]
  rw [Nat.sub_zero] at held
  rw [held, Option.join_some]

end ClassImage
