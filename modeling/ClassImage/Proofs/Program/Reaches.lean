import ClassImage.Proofs.Program.Lookups

/-!
Edits as sequences of steps. An edit reaches a goal when it takes the program
along steps of one kind, whether it fails or not, and its result, if there is
one, meets the goal in the program that it leaves. It may trust the lookups of
the program, and has to leave them as the inverses of the tables. The rules
follow the way in which edits are composed.
-/

namespace ClassImage

namespace Edit

open Program

/-- The program moves along steps even if the edit fails; a result meets the goal. -/
def Reaches (step : Program → Program → Prop) (edit : Edit α) (before : Program)
    (goal : α → Program → Prop) : Prop :=
  before.Indexed → (outcome edit before).2.Indexed ∧
    Relation.ReflTransGen step before (outcome edit before).2 ∧
    ∀ value, (outcome edit before).1 = .ok value → goal value (outcome edit before).2

namespace Reaches

variable {step : Program → Program → Prop} {before : Program} {α β : Type}
  {goal : α → Program → Prop}

theorem pure {value : α} (met : goal value before) :
    Reaches step (pure value) before goal := by
  intro indexed
  refine ⟨indexed, .refl, ?_⟩
  intro other same
  cases same
  exact met

theorem throw {fault : Fault} : Reaches step (throw fault : Edit α) before goal :=
  fun indexed => ⟨indexed, .refl, fun _ same => by cases same⟩

/-- An edit that is told by what it leaves. -/
theorem leave {edit : Edit α} (kept : before.Indexed → (outcome edit before).2.Indexed)
    (moved : Relation.ReflTransGen step before (outcome edit before).2)
    (met : ∀ value, (outcome edit before).1 = .ok value → goal value (outcome edit before).2) :
    Reaches step edit before goal :=
  fun indexed => ⟨kept indexed, moved, met⟩

/-- An edit may trust the lookups that it finds. -/
theorem trust {edit : Edit α} (reached : before.Indexed → Reaches step edit before goal) :
    Reaches step edit before goal :=
  fun indexed => reached indexed indexed

theorem imp {edit : Edit α} {other : α → Program → Prop} (reached : Reaches step edit before goal)
    (weaker : ∀ value after, Relation.ReflTransGen step before after → goal value after →
      other value after) : Reaches step edit before other := by
  intro indexed
  obtain ⟨kept, moved, met⟩ := reached indexed
  exact ⟨kept, moved, fun value same => weaker value _ moved (met value same)⟩

/-- What holds of an edit that has succeeded. -/
theorem ran {edit : Edit α} (reached : Reaches step edit before goal) (indexed : before.Indexed)
    {value : α} {after : Program} (ran : outcome edit before = (.ok value, after)) :
    Relation.ReflTransGen step before after ∧ goal value after := by
  obtain ⟨-, moved, met⟩ := reached indexed
  rw [ran] at moved met
  exact ⟨moved, met value rfl⟩

theorem with_ran {edit : Edit α} (reached : Reaches step edit before goal) :
    Reaches step edit before fun value after => outcome edit before = (.ok value, after) ∧ goal value after := by
  intro indexed
  obtain ⟨kept, moved, met⟩ := reached indexed
  exact ⟨kept, moved, fun value same => ⟨Prod.ext same rfl, met value same⟩⟩

theorem mono {other : Program → Program → Prop} {edit : Edit α} (reached : Reaches step edit before goal)
    (wider : ∀ first second, step first second → other first second) :
    Reaches other edit before goal := by
  intro indexed
  obtain ⟨kept, moved, met⟩ := reached indexed
  exact ⟨kept, Relation.ReflTransGen.mono wider _ _ moved, met⟩

theorem bind {edit : Edit α} {next : α → Edit β} {last : β → Program → Prop}
    (first : Reaches step edit before goal)
    (second : ∀ value middle, Relation.ReflTransGen step before middle → goal value middle →
      Reaches step (next value) middle last) : Reaches step (edit >>= next) before last := by
  intro indexed
  obtain ⟨kept, moved, met⟩ := first indexed
  rw [outcome_bind]
  revert kept moved met
  rcases outcome edit before with ⟨fault | value, middle⟩ <;> intro kept moved met
  · exact ⟨kept, moved, fun _ same => by cases same⟩
  · obtain ⟨still, onward, meets⟩ := second value middle moved (met value rfl) kept
    exact ⟨still, moved.trans onward, meets⟩

theorem map {edit : Edit β} {change : β → α}
    (reached : Reaches step edit before fun value after => goal (change value) after) :
    Reaches step (change <$> edit) before goal := by
  rw [← bind_pure_comp]
  exact reached.bind fun value after _ met => pure met

theorem get_bind {next : Program → Edit α} (second : Reaches step (next before) before goal) :
    Reaches step (get >>= next) before goal :=
  second

theorem refuse {condition : Prop} [Decidable condition] {fault : Fault}
    {goal : Unit → Program → Prop} (met : ¬condition → goal () before) :
    Reaches step (ClassImage.refuse condition fault) before goal := by
  by_cases refused : condition
  · rw [ClassImage.refuse, if_pos refused]
    exact throw
  · rw [ClassImage.refuse, if_neg refused]
    exact pure (met refused)

theorem refuse_bind {condition : Prop} [Decidable condition] {fault : Fault} {next : Unit → Edit α}
    (second : ¬condition → Reaches step (next ()) before goal) :
    Reaches step (ClassImage.refuse condition fault >>= next) before goal := by
  by_cases refused : condition
  · rw [ClassImage.refuse, if_pos refused]
    exact throw
  · rw [ClassImage.refuse, if_neg refused]
    exact second refused

theorem check_bind {test : Program → Except Fault α} {next : α → Edit β}
    {last : β → Program → Prop}
    (second : ∀ value, test before = .ok value → Reaches step (next value) before last) :
    Reaches step (Edit.check test >>= next) before last := by
  have checked : Reaches step (Edit.check test) before
      fun value after => after = before ∧ test before = .ok value :=
    .leave id .refl fun value same => ⟨rfl, same⟩
  apply checked.bind
  rintro value middle - ⟨rfl, passed⟩
  exact second value passed

theorem set_bind {next : PUnit → Edit α} {after : Program} (kept : before.Indexed → after.Indexed)
    (moved : Relation.ReflTransGen step before after)
    (second : Reaches step (next ⟨⟩) after goal) :
    Reaches step (set after >>= next) before goal := by
  intro indexed
  obtain ⟨still, onward, met⟩ := second (kept indexed)
  exact ⟨still, moved.trans onward, met⟩

theorem adapt {edit : Edit α} {relabel : Fault → Fault} (reached : Reaches step edit before goal) :
    Reaches step (ExceptT.adapt relabel edit) before goal := by
  intro indexed
  obtain ⟨kept, moved, met⟩ := reached indexed
  refine ⟨kept, moved, ?_⟩
  intro value same
  have done : outcome edit before = (.ok value, (outcome edit before).2) :=
    outcome_adapt_ok.mp (Prod.ext same rfl)
  exact met value (congrArg Prod.fst done)

/-- The entries of a list are treated one by one; what holds of a result has to last. -/
theorem mapM {list : List β} {action : β → Edit α} {relate : β → α → Program → Prop}
    (lasting : ∀ entry value middle after, Relation.ReflTransGen step middle after →
      relate entry value middle → relate entry value after)
    (each : ∀ entry ∈ list, ∀ middle, Relation.ReflTransGen step before middle →
      Reaches step (action entry) middle (relate entry)) :
    Reaches step (list.mapM action) before fun values after =>
      List.Forall₂ (fun entry value => relate entry value after) list values := by
  induction list generalizing before with
  | nil => exact pure .nil
  | cons entry rest ih =>
    rw [List.mapM_cons]
    apply (each entry (by simp) before .refl).bind
    intro value middle moved met
    have others : ∀ entry ∈ rest, ∀ later, Relation.ReflTransGen step middle later →
        Reaches step (action entry) later (relate entry) := by
      intro other member later onward
      exact each other (List.mem_cons_of_mem _ member) later (moved.trans onward)
    apply (ih others).bind
    intro values after onward all
    exact pure (.cons (lasting entry value middle after onward met) all)

theorem forM {list : List β} {action : β → Edit PUnit} {invariant : Program → Prop}
    (start : invariant before)
    (each : ∀ entry ∈ list, ∀ middle, Relation.ReflTransGen step before middle → invariant middle →
      Reaches step (action entry) middle fun _ after => invariant after) :
    Reaches step (list.forM action) before fun _ after => invariant after := by
  induction list generalizing before with
  | nil => exact pure start
  | cons entry rest ih =>
    change Reaches step (action entry >>= fun _ => rest.forM action) before _
    apply (each entry (by simp) before .refl start).bind
    intro _ middle moved kept
    apply ih kept
    intro other member later onward
    exact each other (List.mem_cons_of_mem _ member) later (moved.trans onward)

theorem optional {value : Option β} {action : β → Edit α}
    (each : ∀ entry, value = some entry → Reaches step (action entry) before goal) :
    Reaches step (value.mapM action) before fun result after =>
      ∀ value, result = some value → goal value after := by
  cases value with
  | none => exact pure (by simp)
  | some entry =>
    refine map ((each entry rfl).imp ?_)
    intro value after _ met other same
    cases same
    exact met

end Reaches

end Edit

end ClassImage
