import ClassImage.Proofs.Merge.Lasting

/-!
Edits that are run twice. The first run succeeds on the way to a final program,
and the second starts from another program; it repeats the first when it
succeeds as well and the two results and the two programs are related. The first
run may trust the lookups that it finds. The rules follow the way in which edits
are composed. Where one edit comes after another, the rest has to keep what the
first run has learnt, for it is the final program that the second run is compared
with.
-/

namespace ClassImage

namespace Edit

open Program

/-- If the first edit succeeds on the way to the final program, the second succeeds as well. -/
def Repeats (final : Program) (first second : Edit α) (source copy : Program)
    (goal : α → α → Program → Program → Prop) : Prop :=
  source.Indexed → ∀ value later, outcome first source = (.ok value, later) → later.Lasts final →
    later.Indexed ∧ ∃ other after, outcome second copy = (.ok other, after) ∧ goal value other later after

namespace Repeats

variable {final source copy : Program} {α β γ : Type} {goal : α → α → Program → Program → Prop}

theorem pure {value other : α} (met : goal value other source copy) :
    Repeats final (pure value) (pure other) source copy goal := by
  intro indexed result later ran _
  cases ran
  exact ⟨indexed, other, copy, rfl, met⟩

theorem throw {fault : Fault} {second : Edit α} :
    Repeats final (throw fault) second source copy goal := by
  intro _ result later ran
  cases ran

theorem imp {first second : Edit α} {weaker : α → α → Program → Program → Prop}
    (repeats : Repeats final first second source copy goal)
    (each : ∀ value other later after, goal value other later after → weaker value other later after) :
    Repeats final first second source copy weaker := by
  intro indexed value later ran lasts
  obtain ⟨still, other, after, again, met⟩ := repeats indexed value later ran lasts
  exact ⟨still, other, after, again, each value other later after met⟩

/-- What each run brings about on its own. -/
theorem reached {first second : Edit α} {step again : Program → Program → Prop}
    {left right : α → Program → Prop} (repeats : Repeats final first second source copy goal)
    (here : Reaches step first source left) (there : Reaches again second copy right)
    (twin : copy.Indexed) :
    Repeats final first second source copy fun value other later after =>
      goal value other later after ∧ (Relation.ReflTransGen step source later ∧ left value later) ∧
        Relation.ReflTransGen again copy after ∧ right other after := by
  intro indexed value later ran lasts
  obtain ⟨still, other, after, ended, met⟩ := repeats indexed value later ran lasts
  exact ⟨still, other, after, ended, met, here.ran indexed ran, there.ran twin ended⟩

theorem with_lasts {first second : Edit α} (repeats : Repeats final first second source copy goal)
    (lasting : Lasting first) :
    Repeats final first second source copy fun value other later after =>
      source.Lasts later ∧ goal value other later after := by
  intro indexed value later ran lasts
  obtain ⟨still, other, after, again, met⟩ := repeats indexed value later ran lasts
  have kept := lasting.lasts source
  rw [ran] at kept
  exact ⟨still, other, after, again, kept, met⟩

/-- What the first run has learnt before may be taken to last. -/
theorem given_lasts {first second : Edit α} (lasting : Lasting first)
    (repeats : source.Lasts final → Repeats final first second source copy goal) :
    Repeats final first second source copy goal := by
  intro indexed value later ran lasts
  have kept := lasting.lasts source
  rw [ran] at kept
  exact repeats (kept.trans lasts) indexed value later ran lasts

theorem bind {first second : Edit α} {next following : α → Edit β}
    {last : β → β → Program → Program → Prop} (repeats : Repeats final first second source copy goal)
    (lasting : ∀ value, Lasting (next value))
    (onward : ∀ value other later after, goal value other later after →
      Repeats final (next value) (following other) later after last) :
    Repeats final (first >>= next) (second >>= following) source copy last := by
  intro indexed result later ran lasts
  obtain ⟨value, middle, began, ended⟩ := outcome_bind_ok.mp ran
  have kept := (lasting value).lasts middle
  rw [ended] at kept
  obtain ⟨still, other, between, again, met⟩ := repeats indexed value middle began (kept.trans lasts)
  obtain ⟨last, answer, after, closed, done⟩ :=
    onward value other middle between met still result later ended lasts
  exact ⟨last, answer, after, outcome_bind_ok.mpr ⟨other, between, again, closed⟩, done⟩

theorem get_bind {next following : Program → Edit α}
    (onward : Repeats final (next source) (following copy) source copy goal) :
    Repeats final (get >>= next) (get >>= following) source copy goal :=
  onward

theorem refuse_bind {condition other : Prop} [Decidable condition] [Decidable other]
    {fault blame : Fault} {next following : Unit → Edit α} (passed : ¬condition → ¬other)
    (onward : ¬condition → Repeats final (next ()) (following ()) source copy goal) :
    Repeats final (ClassImage.refuse condition fault >>= next) (ClassImage.refuse other blame >>= following)
      source copy goal := by
  intro indexed result later ran lasts
  obtain ⟨holds, ended⟩ := refuse_bind_ok.mp ran
  obtain ⟨still, answer, after, closed, done⟩ := onward holds indexed result later ended lasts
  exact ⟨still, answer, after, refuse_bind_ok.mpr ⟨passed holds, closed⟩, done⟩

theorem adapt {first second : Edit α} {relabel : Fault → Fault}
    (repeats : Repeats final first second source copy goal) :
    Repeats final (ExceptT.adapt relabel first) (ExceptT.adapt relabel second) source copy goal := by
  intro indexed value later ran lasts
  obtain ⟨still, other, after, again, met⟩ := repeats indexed value later (outcome_adapt_ok.mp ran) lasts
  exact ⟨still, other, after, outcome_adapt_ok.mpr again, met⟩

theorem map {first second : Edit β} {change : β → α}
    (repeats : Repeats final first second source copy fun value other later after =>
      goal (change value) (change other) later after) :
    Repeats final (change <$> first) (change <$> second) source copy goal := by
  rw [← bind_pure_comp, ← bind_pure_comp]
  exact repeats.bind (fun _ => .pure) fun value other later after met => pure met

/-- What both runs do to the same list; the invariant speaks of the entries and results so far. -/
theorem mapM {list : List β} {action again : β → Edit α}
    (invariant : List β → List α → List α → Program → Program → Prop)
    (lasting : ∀ entry, Lasting (action entry)) (start : invariant [] [] [] source copy)
    (each : ∀ done entry rest values others later after, list = done ++ entry :: rest →
      invariant done values others later after →
      Repeats final (action entry) (again entry) later after fun value other later after =>
        invariant (done ++ [entry]) (values ++ [value]) (others ++ [other]) later after) :
    Repeats final (list.mapM action) (list.mapM again) source copy (invariant list) := by
  have general : ∀ {rest : List β} done values others later after, list = done ++ rest →
      invariant done values others later after →
      Repeats final (rest.mapM action) (rest.mapM again) later after fun results answers later after =>
        invariant list (values ++ results) (others ++ answers) later after := by
    intro rest
    induction rest with
    | nil =>
      intro done values others later after whole kept
      rw [List.mapM_nil, List.mapM_nil]
      apply pure
      rw [whole, List.append_nil, List.append_nil, List.append_nil]
      exact kept
    | cons entry rest ih =>
      intro done values others later after whole kept
      rw [List.mapM_cons, List.mapM_cons]
      apply (each done entry rest values others later after whole kept).bind
      · exact fun _ => (Lasting.mapM lasting).bind fun _ => .pure
      intro value other later after kept
      have split : list = (done ++ [entry]) ++ rest := by rw [whole, List.append_assoc]; rfl
      apply (ih _ _ _ later after split kept).bind
      · exact fun _ => .pure
      intro results answers later after kept
      apply pure
      rw [List.append_assoc, List.append_assoc] at kept
      exact kept
  exact general [] [] [] source copy rfl start

/-- What the runs do to related lists; the invariant speaks of the entries so far. -/
theorem forM {relation : β → γ → Prop} {list : List β} {others : List γ} {action : β → Edit PUnit}
    {again : γ → Edit PUnit} (invariant : List β → Program → Program → Prop)
    (related : List.Forall₂ relation list others) (lasting : ∀ entry, Lasting (action entry))
    (start : invariant [] source copy)
    (each : ∀ done entry rest other later after, list = done ++ entry :: rest → relation entry other →
      invariant done later after → Repeats final (action entry) (again other) later after
        fun _ _ later after => invariant (done ++ [entry]) later after) :
    Repeats final (list.forM action) (others.forM again) source copy
      fun _ _ later after => invariant list later after := by
  have general : ∀ {rest others}, List.Forall₂ relation rest others → ∀ done later after,
      list = done ++ rest → invariant done later after →
      Repeats final (rest.forM action) (others.forM again) later after
        fun _ _ later after => invariant list later after := by
    intro rest others related
    induction related with
    | nil =>
      intro done later after whole kept
      apply pure
      rw [whole, List.append_nil]
      exact kept
    | @cons entry other rest others first _ ih =>
      intro done later after whole kept
      change Repeats final (action entry >>= fun _ => rest.forM action)
        (again other >>= fun _ => others.forM again) later after _
      apply (each done entry rest other later after whole first kept).bind
      · exact fun _ => Lasting.forM lasting
      intro _ _ later after kept
      have split : list = (done ++ [entry]) ++ rest := by rw [whole, List.append_assoc]; rfl
      exact ih (done ++ [entry]) later after split kept
  exact general related [] source copy rfl start

theorem optional {value : Option β} {action again : β → Edit α}
    (nothing : value = none → weaker none none source copy)
    (each : ∀ entry, value = some entry → Repeats final (action entry) (again entry) source copy
      fun value other later after => weaker (some value) (some other) later after) :
    Repeats final (value.mapM action) (value.mapM again) source copy weaker := by
  cases value with
  | none => exact pure (nothing rfl)
  | some entry => exact map (each entry rfl)

end Repeats

end Edit

end ClassImage
