import Mathlib.Tactic
import ClassImage.Program.Basic

/-!
Actions that may fail and that change a state whether they fail or not. The
readers of bytes and the edits of programs are such actions. An action is judged
by its outcome from a state: the result or the fault, and the state afterwards.
-/

namespace ClassImage

/-- The result or the fault of an action, and the state that it leaves. -/
def outcome {ε σ α : Type} (action : ExceptT ε (StateM σ) α) (state : σ) : Except ε α × σ :=
  action state

section

variable {ε ε' σ α β : Type}

theorem outcome_pure (value : α) (state : σ) :
    outcome (pure value : ExceptT ε (StateM σ) α) state = (.ok value, state) := rfl

theorem outcome_throw (fault : ε) (state : σ) :
    outcome (throw fault : ExceptT ε (StateM σ) α) state = (.error fault, state) := rfl

theorem outcome_bind (action : ExceptT ε (StateM σ) α) (next : α → ExceptT ε (StateM σ) β) (state : σ) :
    outcome (action >>= next) state =
      match outcome action state with
      | (.ok value, middle) => outcome (next value) middle
      | (.error fault, middle) => (.error fault, middle) := by
  change (match action state with | (result, middle) => ExceptT.bindCont next result middle) = _
  unfold outcome
  rcases action state with ⟨_ | _, _⟩ <;> rfl

theorem outcome_bind_ok {action : ExceptT ε (StateM σ) α} {next : α → ExceptT ε (StateM σ) β}
    {state after : σ} {result : β} :
    outcome (action >>= next) state = (.ok result, after) ↔
      ∃ value middle, outcome action state = (.ok value, middle) ∧
        outcome (next value) middle = (.ok result, after) := by
  rw [outcome_bind]
  rcases outcome action state with ⟨_ | value, middle⟩
  · simp
  · constructor
    · intro found
      exact ⟨value, middle, rfl, found⟩
    · rintro ⟨_, _, same, found⟩
      cases same
      exact found

theorem outcome_refuse_ok {condition : Prop} [Decidable condition] {fault : ε} {state after : σ} {result : Unit} :
    outcome (refuse condition fault : ExceptT ε (StateM σ) Unit) state = (.ok result, after) ↔
      ¬condition ∧ after = state := by
  unfold refuse
  split
  · simp [outcome_throw, *]
  · simp [outcome_pure, eq_comm, *]

theorem refuse_bind_ok {condition : Prop} [Decidable condition] {fault : ε}
    {next : Unit → ExceptT ε (StateM σ) α} {state after : σ} {result : α} :
    outcome (refuse condition fault >>= next) state = (.ok result, after) ↔
      ¬condition ∧ outcome (next ()) state = (.ok result, after) := by
  rw [outcome_bind_ok]
  constructor
  · rintro ⟨_, _, passed, done⟩
    obtain ⟨holds, rfl⟩ := outcome_refuse_ok.mp passed
    exact ⟨holds, done⟩
  · rintro ⟨holds, done⟩
    exact ⟨(), state, outcome_refuse_ok.mpr ⟨holds, rfl⟩, done⟩

theorem get_bind (next : σ → ExceptT ε (StateM σ) α) (state : σ) :
    outcome (get >>= next) state = outcome (next state) state := rfl

/-- A rewriting step of its own, so that nothing has to find it out by unfolding. -/
theorem get_bind_ok {next : σ → ExceptT ε (StateM σ) α} {state after : σ} {result : α} :
    outcome (get >>= next) state = (.ok result, after) ↔
      outcome (next state) state = (.ok result, after) := by
  rw [get_bind]

theorem outcome_adapt (relabel : ε → ε') (action : ExceptT ε (StateM σ) α) (state : σ) :
    outcome (ExceptT.adapt relabel action) state =
      ((outcome action state).1.mapError relabel, (outcome action state).2) := rfl

theorem outcome_adapt_ok {relabel : ε → ε'} {action : ExceptT ε (StateM σ) α} {state after : σ}
    {result : α} :
    outcome (ExceptT.adapt relabel action) state = (.ok result, after) ↔
      outcome action state = (.ok result, after) := by
  rw [outcome_adapt]
  rcases outcome action state with ⟨_ | value, middle⟩ <;> simp [Except.mapError]

/-- What every run of an action says of its result holds of all results of a list. -/
theorem outcome_mapM_ok {list : List α} {action : α → ExceptT ε (StateM σ) β} {relate : α → β → Prop}
    (each : ∀ entry ∈ list, ∀ state value after, outcome (action entry) state = (.ok value, after) →
      relate entry value) {state after : σ} {values : List β}
    (ran : outcome (list.mapM action) state = (.ok values, after)) : List.Forall₂ relate list values := by
  induction list generalizing state values with
  | nil =>
    cases ran
    exact .nil
  | cons entry rest ih =>
    rw [List.mapM_cons] at ran
    rw [List.forall_mem_cons] at each
    obtain ⟨value, middle, here, ran⟩ := outcome_bind_ok.mp ran
    obtain ⟨others, last, there, done⟩ := outcome_bind_ok.mp ran
    cases done
    exact .cons (each.1 state value middle here) (ih each.2 there)

theorem Except.bind_ok {action : Except ε α} {next : α → Except ε β} {result : β} :
    (action >>= next) = .ok result ↔ ∃ value, action = .ok value ∧ next value = .ok result := by
  rcases action with _ | value
  · simp [bind, Except.bind]
  · simp [bind, Except.bind]

/-- A check, and then the rest. -/
theorem Except.check_bind_ok {check : Except ε Unit} {next : Unit → Except ε α} {result : α} :
    (check >>= next) = .ok result ↔ check = .ok () ∧ next () = .ok result := by
  rw [Except.bind_ok]
  exact ⟨fun ⟨_, passed, done⟩ => ⟨passed, done⟩, fun ⟨passed, done⟩ => ⟨(), passed, done⟩⟩

theorem Except.refuse_ok {condition : Prop} [Decidable condition] {fault : ε} {done : Unit} :
    (refuse condition fault : Except ε Unit) = .ok done ↔ ¬condition := by
  unfold refuse
  split <;> simp [*, throw, throwThe, MonadExceptOf.throw, pure, Except.pure]

theorem Except.forM_ok {list : List α} {action : α → Except ε Unit} :
    list.forM action = .ok () ↔ ∀ entry ∈ list, action entry = .ok () := by
  induction list with
  | nil => simp [pure, Except.pure]
  | cons entry rest ih =>
    change (action entry >>= fun _ => rest.forM action) = _ ↔ _
    rw [Except.bind_ok, List.forall_mem_cons, ← ih]
    constructor
    · rintro ⟨_, first, others⟩
      exact ⟨first, others⟩
    · rintro ⟨first, others⟩
      exact ⟨(), first, others⟩

theorem Except.forM_array_ok {table : Array α} {action : α → Except ε Unit} :
    table.forM action = .ok () ↔ ∀ entry ∈ table, action entry = .ok () := by
  obtain ⟨list⟩ := table
  change list.toArray.forM action = _ ↔ _
  rw [List.forM_toArray' _ _ rfl]
  simpa using Except.forM_ok

theorem Except.forM_option_ok {value : Option α} {action : α → Except ε Unit} :
    value.forM action = .ok () ↔ ∀ entry ∈ value, action entry = .ok () := by
  cases value <;> simp [Option.forM, pure, Except.pure]

theorem Except.mapM_ok {list : List α} {action : α → Except ε β} {values : List β} :
    list.mapM action = .ok values ↔
      List.Forall₂ (fun entry value => action entry = .ok value) list values := by
  induction list generalizing values with
  | nil => simp [pure, Except.pure, eq_comm]
  | cons entry rest ih =>
    simp only [List.mapM_cons, Except.bind_ok, ih, List.forall₂_cons_left_iff, pure, Except.pure,
      Except.ok.injEq]
    constructor
    · rintro ⟨value, first, others, all, rfl⟩
      exact ⟨value, others, first, all, rfl⟩
    · rintro ⟨value, others, first, all, rfl⟩
      exact ⟨value, first, others, all, rfl⟩

end

end ClassImage
