import Mathlib.Data.List.Forall2

/-!
Lists and options whose entries are related one by one: what was lowered and the
result, or what was loaded and the original.
-/

namespace ClassImage

section Lists

variable {relation : α → β → Prop} {left : List α} {right : List β}
  (related : List.Forall₂ relation left right)

include related

theorem forall₂_exists_left {other : β} (member : other ∈ right) :
    ∃ entry ∈ left, relation entry other := by
  induction related with
  | nil => cases member
  | cons first _ ih =>
    rcases List.mem_cons.mp member with rfl | member
    · exact ⟨_, List.mem_cons_self, first⟩
    · obtain ⟨entry, inside, twin⟩ := ih member
      exact ⟨entry, List.mem_cons_of_mem _ inside, twin⟩

theorem forall₂_exists_right {entry : α} (member : entry ∈ left) :
    ∃ other ∈ right, relation entry other :=
  forall₂_exists_left related.flip member

theorem forall₂_comp {following : β → γ → Prop} {last : List γ}
    (onward : List.Forall₂ following right last) :
    List.Forall₂ (fun entry final => ∃ other, relation entry other ∧ following other final) left last := by
  induction related generalizing last with
  | nil =>
    cases onward
    exact .nil
  | cons here _ ih =>
    cases onward with
    | cons there others => exact .cons ⟨_, here, there⟩ (ih others)

theorem forall₂_zipIdx {start : Nat} :
    List.Forall₂ (fun entry other => relation entry.1 other.1 ∧ other.2 = entry.2)
      (left.zipIdx start) (right.zipIdx start) := by
  induction related generalizing start with
  | nil => exact .nil
  | cons first _ ih => exact .cons ⟨first, rfl⟩ ih

theorem map_eq_of_forall₂ {first : α → γ} {second : β → γ}
    (each : ∀ entry other, relation entry other → second other = first entry) :
    right.map second = left.map first := by
  induction related with
  | nil => rfl
  | cons here _ ih => rw [List.map_cons, List.map_cons, each _ _ here, ih]

theorem mapM_eq_of_forall₂ {m : Type → Type} [Monad m] [LawfulMonad m] {first : α → m γ} {second : β → m γ}
    (each : ∀ entry other, relation entry other → second other = first entry) :
    right.mapM second = left.mapM first := by
  induction related with
  | nil => rfl
  | cons here _ ih => rw [List.mapM_cons, List.mapM_cons, each _ _ here, ih]

/-- Related entries have the same first place. -/
theorem idxOf_eq_of_forall₂ [DecidableEq α] [DecidableEq β] (unique : Relator.BiUnique relation)
    {entry : α} {other : β} (here : relation entry other) : right.idxOf other = left.idxOf entry := by
  induction related with
  | nil => rfl
  | @cons first second _ _ met _ ih =>
    have same : first = entry ↔ second = other :=
      ⟨fun same => unique.2 (same ▸ met) here, fun same => unique.1 (same ▸ met) here⟩
    simp only [List.idxOf_cons, beq_iff_eq, same, ih, Bool.cond_eq_ite]

omit related in
theorem flatten_of_forall₂ {list : List α} {values : List (List β)} {first : β → γ}
    {second : α → List γ}
    (each : List.Forall₂ (fun entry value => value.map first = second entry) list values) :
    values.flatten.map first = list.flatMap second := by
  induction each with
  | nil => rfl
  | cons here _ ih => rw [List.flatten_cons, List.map_append, here, ih, List.flatMap_cons]

end Lists

section Options

variable {relation : α → β → Prop} {left : Option α} {right : Option β}
  (related : Option.Rel relation left right)

include related

theorem forall₂_toList : List.Forall₂ relation left.toList right.toList := by
  cases related with
  | none => exact .nil
  | some same => exact .cons same .nil

theorem rel_imp {weaker : α → β → Prop} (each : ∀ entry other, relation entry other → weaker entry other) :
    Option.Rel weaker left right := by
  cases related with
  | none => exact .none
  | some here => exact .some (each _ _ here)

theorem rel_map {weaker : γ → δ → Prop} {first : α → γ} {second : β → δ}
    (each : ∀ entry other, relation entry other → weaker (first entry) (second other)) :
    Option.Rel weaker (left.map first) (right.map second) := by
  cases related with
  | none => exact .none
  | some here => exact .some (each _ _ here)

theorem rel_and_left {condition : α → Prop} (all : ∀ entry, left = some entry → condition entry) :
    Option.Rel (fun entry other => condition entry ∧ relation entry other) left right := by
  cases related with
  | none => exact .none
  | some here => exact .some ⟨all _ rfl, here⟩

theorem map_eq_of_rel {first : α → γ} {second : β → γ}
    (each : ∀ entry other, relation entry other → second other = first entry) :
    right.map second = left.map first := by
  cases related with
  | none => rfl
  | some here => rw [Option.map_some, Option.map_some, each _ _ here]

theorem mapM_eq_of_rel {m : Type → Type} [Monad m] {first : α → m γ} {second : β → m γ}
    (each : ∀ entry other, relation entry other → second other = first entry) :
    right.mapM second = left.mapM first := by
  cases related with
  | none => rfl
  | some here => rw [Option.mapM_some, Option.mapM_some, each _ _ here]

theorem isNone_of_rel : right.isNone = left.isNone := by
  cases related <;> rfl

end Options

end ClassImage
