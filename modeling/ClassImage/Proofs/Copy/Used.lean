import ClassImage.Proofs.Copy.Bodies

/-!
The locals that like bodies use. They are gathered by first use, so like bodies
use, in the same order, locals that stand for one another.
-/

namespace ClassImage

namespace Program

section Related

variable {parameters parameters' : List Local} {slots : Local → Local → Prop}
  (unique : Relator.BiUnique slots)
  (listed : ∀ slot other, slots slot other → (slot ∈ parameters ↔ other ∈ parameters'))

include unique listed

theorem forall₂_note {found found' : Array Local} {slot other : Local}
    (related : List.Forall₂ slots found.toList found'.toList) (stands : slots slot other) :
    List.Forall₂ slots (note parameters found slot).toList (note parameters' found' other).toList := by
  have known : slot ∈ found ↔ other ∈ found' := by
    rw [← Array.mem_toList_iff, ← Array.mem_toList_iff]
    exact List.rel_mem unique stands related
  unfold note
  simp only [List.contains_eq_mem, Array.contains_eq_mem, Bool.or_eq_true, decide_eq_true_eq,
    listed _ _ stands, known]
  split
  · exact related
  · rw [Array.toList_push, Array.toList_push]
    exact List.rel_append related (.cons stands .nil)

theorem forall₂_foldl_note {locals locals' : List Local} (all : List.Forall₂ slots locals locals')
    {found found' : Array Local} (related : List.Forall₂ slots found.toList found'.toList) :
    List.Forall₂ slots (locals.foldl (note parameters) found).toList
      (locals'.foldl (note parameters') found').toList := by
  induction all generalizing found found' with
  | nil => exact related
  | cons first _ ih => exact ih (forall₂_note unique listed related first)

end Related

/-- Two bodies of alike instructions, with parameters and handles that stand for one another. -/
structure Mirrored (program copy : Program) (slots : Local → Local → Prop)
    (targets : InstructionId → InstructionId → Prop) (body other : Body) : Prop where
  parameters : List.Forall₂ slots body.parameters other.parameters
  handles : List.Forall₂ targets body.instructions.toList other.instructions.toList
  code : List.Forall₂ (fun id place => ∃ instruction built, program.instruction? id = some instruction ∧
      copy.instruction? place = some built ∧ Alike program copy slots targets instruction built)
    body.instructions.toList other.instructions.toList

section Mirrored

variable {program copy : Program} {slots : Local → Local → Prop}
  {targets : InstructionId → InstructionId → Prop} {body other : Body}
  (mirrored : Mirrored program copy slots targets body other)

include mirrored

theorem Mirrored.instructions :
    List.Forall₂ (Alike program copy slots targets) (program.instructionsOf body) (copy.instructionsOf other) := by
  refine List.rel_filterMap ?_ mirrored.code
  rintro id place ⟨instruction, built, original, attached, alike⟩
  rw [original, attached]
  exact .some alike

/-- The bodies use locals that stand for one another. -/
theorem Mirrored.usedLocals (unique : Relator.BiUnique slots) :
    List.Forall₂ slots (program.usedLocals body) (copy.usedLocals other) := by
  have listed : ∀ slot place, slots slot place → (slot ∈ body.parameters ↔ place ∈ other.parameters) :=
    fun slot place stands => List.rel_mem unique stands mirrored.parameters
  have locals : List.Forall₂ slots ((program.instructionsOf body).flatMap Instruction.locals)
      ((copy.instructionsOf other).flatMap Instruction.locals) :=
    List.rel_flatMap mirrored.instructions fun _ _ alike => alike.locals
  have start : List.Forall₂ slots (#[] : Array Local).toList (#[] : Array Local).toList := .nil
  rw [usedLocals_eq, usedLocals_eq]
  exact forall₂_foldl_note unique listed locals start

end Mirrored

end Program

open Program

namespace BodyLike

variable {program copy : Program} {body other : Body} {used : List Local}
  (like : BodyLike program copy body other used)

include like

theorem length : (program.usedLocals body).length = used.length := by
  simpa using (congrArg List.length like.kinds).symm

theorem mirrored :
    Mirrored program copy (Paired (program.usedLocals body ++ body.parameters) (used ++ other.parameters))
      (Paired body.instructions.toList other.instructions.toList) body other where
  parameters := by
    have length : body.parameters.length = other.parameters.length := by
      simpa using (congrArg List.length like.parameters).symm
    exact (forall₂_paired length).imp fun _ _ paired => (Paired.append like.length).mpr (.inr paired)
  handles := forall₂_paired like.code.length_eq
  code := like.code

/-- The copy uses the locals that were made for it. -/
theorem usedLocals (distinct : body.parameters.Nodup) : copy.usedLocals other = used := by
  have unique := biUnique_paired (nodup_usedLocals program distinct) like.distinct
  have made : List.Forall₂
      (Paired (program.usedLocals body ++ body.parameters) (used ++ other.parameters))
      (program.usedLocals body) used :=
    (forall₂_paired like.length).imp fun _ _ paired => (Paired.append like.length).mpr (.inl paired)
  exact List.right_unique_forall₂' unique.2 (like.mirrored.usedLocals unique) made

end BodyLike

end ClassImage
