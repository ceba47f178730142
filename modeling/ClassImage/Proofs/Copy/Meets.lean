import ClassImage.Proofs.Program.Reaches

/-!
Edits that succeed. An edit meets a goal when it returns a result, which meets
the goal in the program that it leaves, and has taken the program there along
steps of one kind. The rules follow the way in which edits are composed, as
those of edits that may fail do.
-/

namespace ClassImage

namespace Edit

open Program

/-- The edit succeeds after steps, with a result that meets the goal. -/
def Meets (step : Program → Program → Prop) (edit : Edit α) (before : Program)
    (goal : α → Program → Prop) : Prop :=
  ∃ value after, outcome edit before = (.ok value, after) ∧
    Relation.ReflTransGen step before after ∧ goal value after

/-- The edit returns a value and leaves the program as it is. -/
def Gives (edit : Edit α) (program : Program) (value : α) : Prop :=
  outcome edit program = (.ok value, program)

namespace Gives

variable {program : Program} {α β : Type}

theorem bind {edit : Edit α} {next : α → Edit β} {value : α} {result : β}
    (first : Gives edit program value) (second : Gives (next value) program result) :
    Gives (edit >>= next) program result :=
  outcome_bind_ok.mpr ⟨value, program, first, second⟩

theorem map {edit : Edit α} {value : α} (change : α → β) (first : Gives edit program value) :
    Gives (change <$> edit) program (change value) := by
  rw [← bind_pure_comp]
  exact first.bind rfl

theorem adapt {edit : Edit α} {relabel : Fault → Fault} {value : α} (given : Gives edit program value) :
    Gives (ExceptT.adapt relabel edit) program value :=
  outcome_adapt_ok.mpr given

theorem mapM {list : List β} {action : β → Edit α} {values : List α}
    (each : List.Forall₂ (fun entry value => Gives (action entry) program value) list values) :
    Gives (list.mapM action) program values := by
  induction each with
  | nil => rfl
  | cons first _ ih =>
    rw [List.mapM_cons]
    exact first.bind (ih.bind rfl)

end Gives

namespace Meets

variable {step : Program → Program → Prop} {before : Program} {α β γ : Type}
  {goal : α → Program → Prop}

theorem pure {value : α} (met : goal value before) : Meets step (pure value) before goal :=
  ⟨value, before, rfl, .refl, met⟩

theorem imp {edit : Edit α} {other : α → Program → Prop} (meets : Meets step edit before goal)
    (weaker : ∀ value after, Relation.ReflTransGen step before after → goal value after →
      other value after) : Meets step edit before other := by
  obtain ⟨value, after, ran, moved, met⟩ := meets
  exact ⟨value, after, ran, moved, weaker value after moved met⟩

theorem with_moves {edit : Edit α} (meets : Meets step edit before goal) :
    Meets step edit before fun value after => Relation.ReflTransGen step before after ∧ goal value after :=
  meets.imp fun _ _ moved met => ⟨moved, met⟩

theorem mono {edit : Edit α} {wider : Program → Program → Prop}
    (covers : ∀ first second, step first second → wider first second)
    (meets : Meets step edit before goal) : Meets wider edit before goal := by
  obtain ⟨value, after, ran, moved, met⟩ := meets
  exact ⟨value, after, ran, Relation.ReflTransGen.mono covers _ _ moved, met⟩

theorem bind {edit : Edit α} {next : α → Edit β} {last : β → Program → Prop}
    (first : Meets step edit before goal)
    (second : ∀ value middle, Relation.ReflTransGen step before middle → goal value middle →
      Meets step (next value) middle last) : Meets step (edit >>= next) before last := by
  obtain ⟨value, middle, ran, moved, met⟩ := first
  obtain ⟨result, after, continued, onward, done⟩ := second value middle moved met
  exact ⟨result, after, outcome_bind_ok.mpr ⟨value, middle, ran, continued⟩, moved.trans onward, done⟩

theorem gives_bind {edit : Edit α} {next : α → Edit β} {value : α} {last : β → Program → Prop}
    (given : Gives edit before value) (second : Meets step (next value) before last) :
    Meets step (edit >>= next) before last := by
  obtain ⟨result, after, ran, moved, met⟩ := second
  exact ⟨result, after, outcome_bind_ok.mpr ⟨value, before, given, ran⟩, moved, met⟩

theorem get_bind {next : Program → Edit α} (second : Meets step (next before) before goal) :
    Meets step (get >>= next) before goal :=
  second

theorem set_bind {next : PUnit → Edit α} {after : Program} (moved : step before after)
    (second : Meets step (next ⟨⟩) after goal) : Meets step (set after >>= next) before goal := by
  obtain ⟨value, last, ran, onward, met⟩ := second
  exact ⟨value, last, ran, .head moved onward, met⟩

theorem refuse_bind {condition : Prop} [Decidable condition] {fault : Fault} {next : Unit → Edit α}
    (passed : ¬condition) (second : Meets step (next ()) before goal) :
    Meets step (ClassImage.refuse condition fault >>= next) before goal := by
  rw [ClassImage.refuse, if_neg passed]
  exact second

theorem check_bind {test : Program → Except Fault α} {next : α → Edit β} {value : α}
    {last : β → Program → Prop} (passed : test before = .ok value)
    (second : Meets step (next value) before last) :
    Meets step (Edit.check test >>= next) before last := by
  have given : Gives (Edit.check test) before value := Prod.ext passed rfl
  exact gives_bind given second

theorem adapt {edit : Edit α} {relabel : Fault → Fault} (meets : Meets step edit before goal) :
    Meets step (ExceptT.adapt relabel edit) before goal := by
  obtain ⟨value, after, ran, moved, met⟩ := meets
  exact ⟨value, after, outcome_adapt_ok.mpr ran, moved, met⟩

theorem map {edit : Edit β} {change : β → α}
    (meets : Meets step edit before fun value after => goal (change value) after) :
    Meets step (change <$> edit) before goal := by
  rw [← bind_pure_comp]
  exact meets.bind fun value after _ met => pure met

/-- Entries are treated one by one; the invariant speaks of the sources and results so far. -/
theorem mapM {relation : γ → β → Prop} {sources : List γ} {list : List β} {action : β → Edit α}
    (invariant : List γ → List α → Program → Prop) (related : List.Forall₂ relation sources list)
    (start : invariant [] [] before)
    (each : ∀ done source rest values entry middle, sources = done ++ source :: rest →
      relation source entry → Relation.ReflTransGen step before middle → invariant done values middle →
      Meets step (action entry) middle fun value after =>
        invariant (done ++ [source]) (values ++ [value]) after) :
    Meets step (list.mapM action) before (invariant sources) := by
  have general : ∀ {rest list}, List.Forall₂ relation rest list → ∀ done values middle,
      sources = done ++ rest → Relation.ReflTransGen step before middle → invariant done values middle →
      Meets step (list.mapM action) middle fun results after =>
        invariant sources (values ++ results) after := by
    intro rest list related
    induction related with
    | nil =>
      intro done values middle whole _ kept
      rw [List.mapM_nil]
      apply pure
      rw [List.append_nil] at whole ⊢
      rw [whole]
      exact kept
    | @cons source entry rest list first _ ih =>
      intro done values middle whole moved kept
      rw [List.mapM_cons]
      apply (each done source rest values entry middle whole first moved kept).bind
      intro value next onward held
      have split : sources = (done ++ [source]) ++ rest := by rw [whole, List.append_assoc]; rfl
      apply (ih (done ++ [source]) (values ++ [value]) next split (moved.trans onward) held).bind
      intro results after _ reached
      apply pure
      rw [List.append_assoc] at reached
      exact reached
  exact general related [] [] before rfl .refl start

/-- What holds of each result has to last. -/
theorem mapM_each {relation : γ → β → Prop} {sources : List γ} {list : List β} {action : β → Edit α}
    {goal : γ → α → Program → Prop} (related : List.Forall₂ relation sources list)
    (lasting : ∀ source value middle after, Relation.ReflTransGen step middle after →
      goal source value middle → goal source value after)
    (each : ∀ source entry middle, relation source entry → Relation.ReflTransGen step before middle →
      Meets step (action entry) middle (goal source)) :
    Meets step (list.mapM action) before fun values after =>
      List.Forall₂ (fun source value => goal source value after) sources values := by
  induction related generalizing before with
  | nil => exact pure .nil
  | @cons source entry sources list first _ ih =>
    rw [List.mapM_cons]
    apply (each source entry before first .refl).bind
    intro value middle moved met
    apply (ih fun source entry later here onward => each source entry later here (moved.trans onward)).bind
    intro values after onward all
    exact pure (.cons (lasting source value middle after onward met) all)

theorem forM {relation : γ → β → Prop} {sources : List γ} {list : List β} {action : β → Edit PUnit}
    (invariant : List γ → Program → Prop) (related : List.Forall₂ relation sources list)
    (start : invariant [] before)
    (each : ∀ done source rest entry middle, sources = done ++ source :: rest →
      relation source entry → Relation.ReflTransGen step before middle → invariant done middle →
      Meets step (action entry) middle fun _ after => invariant (done ++ [source]) after) :
    Meets step (list.forM action) before fun _ => invariant sources := by
  have general : ∀ {rest list}, List.Forall₂ relation rest list → ∀ done middle,
      sources = done ++ rest → Relation.ReflTransGen step before middle → invariant done middle →
      Meets step (list.forM action) middle fun _ after => invariant sources after := by
    intro rest list related
    induction related with
    | nil =>
      intro done middle whole _ kept
      apply pure
      rw [whole, List.append_nil]
      exact kept
    | @cons source entry rest list first _ ih =>
      intro done middle whole moved kept
      change Meets step (action entry >>= fun _ => list.forM action) middle _
      apply (each done source rest entry middle whole first moved kept).bind
      intro _ next onward held
      have split : sources = (done ++ [source]) ++ rest := by rw [whole, List.append_assoc]; rfl
      exact ih (done ++ [source]) next split (moved.trans onward) held
  exact general related [] before rfl .refl start

theorem optional {relation : γ → β → Prop} {source : Option γ} {value : Option β} {action : β → Edit α}
    {goal : γ → α → Program → Prop} (related : Option.Rel relation source value)
    (each : ∀ source entry, relation source entry → Meets step (action entry) before (goal source)) :
    Meets step (value.mapM action) before fun result after =>
      Option.Rel (fun source value => goal source value after) source result := by
  cases related with
  | none => exact pure .none
  | some first => exact map ((each _ _ first).imp fun value after _ met => .some met)

end Meets

end Edit

end ClassImage
