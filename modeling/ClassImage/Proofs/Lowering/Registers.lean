import ClassImage.Program.Registers
import ClassImage.Proofs.Codec.Verify

/-!
Registers of a body. The locals that a body uses are gathered by first use, so
they are distinct and none of them is a parameter; with the parameters they are
all locals of its instructions. Each of them finds its register below the number
of registers, and every pair of registers is tagged as one.
-/

namespace ClassImage

namespace RegisterPlan

theorem length_registerTags (kind : ValueKind) : kind.registerTags.length = kind.slots := by
  cases kind <;> rfl

theorem slots_eq_sum (locals : List Local) :
    slots locals = (locals.map fun slot => slot.kind.slots).sum := by
  rw [slots, List.sum_eq_foldr, List.foldr_map]

theorem length_tags (plan : RegisterPlan) : plan.tags.length = slots plan.order := by
  simp [tags, slots_eq_sum, List.length_flatMap, length_registerTags]

theorem slots_append (first second : List Local) :
    slots (first ++ second) = slots first + slots second := by
  simp [slots_eq_sum]

theorem slots_pos (kind : ValueKind) : 0 < kind.slots := by
  cases kind <;> decide

theorem find?_of_mem {wanted : Local} {order : List Local} (member : wanted ∈ order) (first : Nat) :
    ∃ place, find? wanted first order = some place := by
  induction order generalizing first with
  | nil => cases member
  | cons slot order ih =>
    unfold find?
    split
    · exact ⟨first, rfl⟩
    · rename_i other
      exact ih (List.mem_of_ne_of_mem (Ne.symm other) member) _

theorem find?_lt {wanted : Local} {order : List Local} {first place : Nat}
    (found : find? wanted first order = some place) : place < first + slots order := by
  induction order generalizing first with
  | nil => cases found
  | cons slot order ih =>
    have size : slots (slot :: order) = slot.kind.slots + slots order := rfl
    have some' := slots_pos slot.kind
    unfold find? at found
    split at found
    · cases found
      omega
    · have bound := ih found
      omega

/-- A register lies within the registers of the plan. -/
theorem register?_lt {plan : RegisterPlan} {slot : Local} {register : UInt16}
    (room : slots plan.order ≤ 65535) (placed : plan.register? slot = some register) :
    register.toNat < slots plan.order := by
  obtain ⟨place, found, rfl⟩ := Option.map_eq_some_iff.mp placed
  have bound := find?_lt found
  rw [UInt16.toNat_ofNat', Nat.mod_eq_of_lt (by omega)]
  omega

/-- Tags of kinds, one after the other, form pairs. -/
theorem paired_tags (plan : RegisterPlan) : CodeItem.Paired plan.tags := by
  have each : ∀ (kind : ValueKind) (rest : List UInt8), CodeItem.Paired rest →
      CodeItem.Paired (kind.registerTags ++ rest) := by
    intro kind rest paired
    cases kind with
    | long => exact ⟨by decide, fun _ => rfl, by decide, fun wide => absurd wide (by decide), paired⟩
    | double => exact ⟨by decide, fun _ => rfl, by decide, fun wide => absurd wide (by decide), paired⟩
    | _ => exact ⟨by decide, fun wide => absurd wide (by decide), paired⟩
  rw [tags]
  induction plan.order with
  | nil => trivial
  | cons slot order ih =>
    rw [List.flatMap_cons]
    exact each slot.kind _ ih

end RegisterPlan

namespace Program

/-- Lists a local unless it is a parameter or listed already. -/
def note (parameters : List Local) (found : Array Local) (slot : Local) : Array Local :=
  if parameters.contains slot || found.contains slot then found else found.push slot

theorem usedLocals_eq (program : Program) (body : Body) :
    program.usedLocals body = (((program.instructionsOf body).flatMap Instruction.locals).foldl
      (note body.parameters) #[]).toList := by
  rw [List.foldl_flatMap]
  rfl

theorem mem_note {parameters : List Local} {found : Array Local} {slot other : Local} :
    other ∈ (note parameters found slot).toList ++ parameters ↔
      other ∈ found.toList ++ parameters ∨ other = slot := by
  unfold note
  split
  · rename_i known
    simp only [List.contains_eq_mem, Array.contains_eq_mem, Bool.or_eq_true, decide_eq_true_eq] at known
    refine ⟨.inl, ?_⟩
    rintro (listed | rfl)
    · exact listed
    · simpa [or_comm] using known
  · simp only [Array.toList_push, List.mem_append, List.mem_singleton]
    tauto

theorem mem_foldl_note {parameters locals : List Local} {found : Array Local} {other : Local} :
    other ∈ (locals.foldl (note parameters) found).toList ++ parameters ↔
      other ∈ found.toList ++ parameters ∨ other ∈ locals := by
  induction locals generalizing found with
  | nil => simp
  | cons slot locals ih =>
    rw [List.foldl_cons, ih, mem_note, List.mem_cons, or_assoc]

/-- Every local of an instruction is used or a parameter. -/
theorem mem_usedLocals {program : Program} {body : Body} {instruction : Instruction}
    (listed : instruction ∈ program.instructionsOf body) {slot : Local}
    (uses : slot ∈ instruction.locals) : slot ∈ program.usedLocals body ++ body.parameters := by
  rw [usedLocals_eq, mem_foldl_note]
  exact .inr (List.mem_flatMap.mpr ⟨instruction, listed, uses⟩)

theorem nodup_note {parameters : List Local} {found : Array Local} (slot : Local)
    (distinct : (found.toList ++ parameters).Nodup) :
    ((note parameters found slot).toList ++ parameters).Nodup := by
  unfold note
  split
  · exact distinct
  · rename_i new
    simp only [List.contains_eq_mem, Array.contains_eq_mem, Bool.or_eq_true, decide_eq_true_eq, not_or] at new
    rw [Array.toList_push, List.append_assoc, List.singleton_append, List.nodup_middle, List.nodup_cons]
    refine ⟨?_, distinct⟩
    rw [List.mem_append, Array.mem_toList_iff, not_or]
    exact ⟨new.2, new.1⟩

theorem nodup_foldl_note {parameters locals : List Local} {found : Array Local}
    (distinct : (found.toList ++ parameters).Nodup) :
    ((locals.foldl (note parameters) found).toList ++ parameters).Nodup := by
  induction locals generalizing found with
  | nil => exact distinct
  | cons slot locals ih => exact ih (nodup_note slot distinct)

/-- The locals of a body are distinct, those used and the parameters. -/
theorem nodup_usedLocals (program : Program) {body : Body} (distinct : body.parameters.Nodup) :
    (program.usedLocals body ++ body.parameters).Nodup := by
  rw [usedLocals_eq]
  exact nodup_foldl_note distinct

end Program

end ClassImage
