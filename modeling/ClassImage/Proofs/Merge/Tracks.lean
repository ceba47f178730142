import ClassImage.Proofs.Merge.Lasting
import ClassImage.Proofs.Merge.Remark
import ClassImage.Proofs.Program.Faults

/-!
An edit that is run on one program twice, once with some markers given in
advance. The run without them tracks the other one: as long as the run with the
markers succeeds, it does the same and leaves the same program but for the
markers, or it stops at a marker that is known to be another one or that
attached instructions contradict.
-/

namespace ClassImage

open Program Edit

namespace Program

/-- Marks that are given for members of the first program; in the second, which extends it, a member
with a mark has the marker that it had, or the one that is given. -/
structure Kept (mark : Symbol → Marker) (start program : Program) : Prop where
  indexed : program.Indexed
  more : start.Extends program
  members : ∀ {symbol static}, mark symbol = some static → start.HasMember symbol
  markers : ∀ {symbol static}, mark symbol = some static →
    program.marker symbol = start.marker symbol ∨ program.marker symbol = some static

/-- No other mark is given for the symbol. -/
def Unopposed (mark : Symbol → Marker) (symbol : Symbol) (static : Bool) : Prop :=
  ∀ other, mark symbol = some other → other = static

/-- The marker of a member is known, and no other mark is given for it. -/
def Settled (mark : Symbol → Marker) (program : Program) (symbol : Symbol) (static : Bool) : Prop :=
  program.marker symbol = some static ∧ Unopposed mark symbol static

/-- An attached instruction implies another marker for its member than the one that is known, or that is
given while none is known. -/
inductive Misfit (mark : Symbol → Marker) (program : Program) : Conflict → Prop
  | use {id : InstructionId} {instruction : Instruction} {symbol : Symbol} {static : Bool}
      (attached : program.instruction? id = some instruction)
      (shape : program.memberShape? instruction = some (symbol, !static))
      (said : program.marker symbol = some static ∨
        program.marker symbol = none ∧ mark symbol = some static) :
      Misfit mark program (.use (program.symbolText symbol) static (!static))

variable {mark : Symbol → Marker} {start program after : Program} {symbol : Symbol} {static : Bool}

theorem Extends.hasMember (more : program.Extends after) (member : program.HasMember symbol) :
    after.HasMember symbol := by
  cases symbol with
  | type => exact member.elim
  | method id =>
    obtain ⟨key, found⟩ := Option.isSome_iff_exists.mp member
    exact Option.isSome_iff_exists.mpr ⟨key, more.methods found⟩
  | field id =>
    obtain ⟨key, found⟩ := Option.isSome_iff_exists.mp member
    exact Option.isSome_iff_exists.mpr ⟨key, more.fields found⟩

theorem Kept.change (kept : Kept mark start program) (preserves : program.Preserves after)
    (markers : after.marker = program.marker) : Kept mark start after := by
  refine ⟨preserves.indexed kept.indexed, kept.more.trans preserves.more, kept.members, ?_⟩
  rw [markers]
  exact kept.markers

/-- Marks are given for members that were there at the start. -/
theorem Kept.unmarked (kept : Kept mark start program) (absent : ¬program.HasMember symbol) :
    mark symbol = none := by
  cases given : mark symbol with
  | none => rfl
  | some static => exact absurd (kept.more.hasMember (kept.members given)) absent

theorem Kept.marker_overlay (kept : Kept mark start program) (symbol : Symbol) :
    (program.overlay mark).marker symbol = (mark symbol).or (program.marker symbol) := by
  by_cases member : program.HasMember symbol
  · exact marker_remark _ _ member
  · have absent : ∀ {other : Program}, ¬other.HasMember symbol → other.marker symbol = none := by
      intro other missing
      cases known : other.marker symbol with
      | none => rfl
      | some static => exact absurd (hasMember_of_marker known) missing
    rw [absent (by rwa [hasMember_remark]), kept.unmarked member, absent member]
    rfl

/-- A marker becomes known, as the mark has it if one is given. -/
theorem Kept.told (kept : Kept mark start program) (preserves : program.Preserves after)
    (told : after.marker = Function.update program.marker symbol (some static))
    (unopposed : Unopposed mark symbol static) : Kept mark start after := by
  refine ⟨preserves.indexed kept.indexed, kept.more.trans preserves.more, kept.members, ?_⟩
  intro other asked marked
  rw [told]
  by_cases same : other = symbol
  · subst same
    right
    rw [Function.update_self, unopposed asked marked]
  · rw [Function.update_of_ne same]
    exact kept.markers marked

theorem markersOver_update (unopposed : Unopposed mark symbol static) (marker : Symbol → Marker) :
    markersOver mark (Function.update marker symbol (some static)) =
      Function.update (markersOver mark marker) symbol (some static) := by
  funext other
  by_cases same : other = symbol
  · subst same
    rw [markersOver, Function.update_self, Function.update_self]
    cases marked : mark other with
    | none => rfl
    | some asked => rw [unopposed asked marked, Option.some_or]
  · rw [markersOver, Function.update_of_ne same, Function.update_of_ne same, markersOver]

theorem Settled.lasts (settled : Settled mark program symbol static) (lasts : program.Lasts after) :
    Settled mark after symbol static :=
  ⟨lasts.markers settled.1, settled.2⟩

theorem Settled.marker_overlay (settled : Settled mark program symbol static) :
    (program.overlay mark).marker symbol = some static := by
  rw [marker_remark _ _ (hasMember_of_marker settled.1), markersOver, settled.1]
  cases given : mark symbol with
  | none => rfl
  | some other => rw [settled.2 other given, Option.some_or]

theorem Settled.methodAt_overlay {id : MethodId} (settled : Settled mark program (.method id) static) :
    (program.overlay mark).methodAt id = program.methodAt id := by
  have known : (program.methodAt id).marker = some static := settled.1
  rw [methodAt_remark, settled.marker_overlay, ← known]

theorem Settled.fieldAt_overlay {id : FieldId} (settled : Settled mark program (.field id) static) :
    (program.overlay mark).fieldAt id = program.fieldAt id := by
  have known : (program.fieldAt id).marker = some static := settled.1
  rw [fieldAt_remark, settled.marker_overlay, ← known]

end Program

namespace Edit

/-- When the first edit succeeds on the program with the marks, the second succeeds on the program itself,
with the same result and the same program but for the marks, or its fault is excused. -/
def Tracks (mark : Symbol → Marker) (start : Program) (excuse : Fault → Program → Prop)
    (first second : Edit α) (program : Program) (goal : α → Program → Prop) : Prop :=
  Kept mark start program → ∀ value later, outcome first (program.overlay mark) = (.ok value, later) →
    (∃ after, outcome second program = (.ok value, after) ∧ later = after.overlay mark ∧
      Kept mark start after ∧ goal value after) ∨
    ∃ fault after, outcome second program = (.error fault, after) ∧ excuse fault after

namespace Tracks

variable {mark : Symbol → Marker} {start program : Program} {excuse : Fault → Program → Prop}
  {α β : Type} {first second : Edit α} {goal : α → Program → Prop}

theorem pure {value : α} (met : goal value program) :
    Tracks mark start excuse (pure value) (pure value) program goal := by
  intro kept result later ran
  cases ran
  exact .inl ⟨program, rfl, rfl, kept, met⟩

theorem throw {fault : Fault} : Tracks mark start excuse (throw fault) second program goal := by
  intro _ result later ran
  cases ran

theorem imp {weaker : α → Program → Prop} (tracks : Tracks mark start excuse first second program goal)
    (each : ∀ value after, goal value after → weaker value after) :
    Tracks mark start excuse first second program weaker := by
  intro kept value later ran
  rcases tracks kept value later ran with ⟨after, ended, same, kept', met⟩ | stopped
  · exact .inl ⟨after, ended, same, kept', each value after met⟩
  · exact .inr stopped

theorem excused {wider : Fault → Program → Prop}
    (tracks : Tracks mark start excuse first second program goal)
    (each : ∀ fault after, excuse fault after → wider fault after) :
    Tracks mark start wider first second program goal := by
  intro kept value later ran
  rcases tracks kept value later ran with ended | ⟨fault, after, stopped, allowed⟩
  · exact .inl ended
  · exact .inr ⟨fault, after, stopped, each fault after allowed⟩

theorem given_kept (tracks : Kept mark start program → Tracks mark start excuse first second program goal) :
    Tracks mark start excuse first second program goal :=
  fun kept => tracks kept kept

theorem bind {next following : α → Edit β} {last : β → Program → Prop}
    (tracks : Tracks mark start excuse first second program goal)
    (onward : ∀ value after, goal value after →
      Tracks mark start excuse (next value) (following value) after last) :
    Tracks mark start excuse (first >>= next) (second >>= following) program last := by
  intro kept result later ran
  obtain ⟨value, middle, began, ended⟩ := outcome_bind_ok.mp ran
  rw [outcome_bind]
  rcases tracks kept value middle began with
    ⟨between, again, rfl, kept', met⟩ | ⟨fault, after, stopped, allowed⟩
  · rw [again]
    exact onward value between met kept' result later ended
  · rw [stopped]
    exact .inr ⟨fault, after, rfl, allowed⟩

/-- What is settled stays settled while other edits run. -/
theorem settled_bind {next following : α → Edit β} {last : β → Program → Prop} {symbol : Symbol} {static : Bool}
    (settled : Settled mark program symbol static)
    (tracks : Tracks mark start excuse first second program fun _ _ => True) (lasting : Lasting second)
    (onward : ∀ value after, Settled mark after symbol static →
      Tracks mark start excuse (next value) (following value) after last) :
    Tracks mark start excuse (first >>= next) (second >>= following) program last := by
  have kept : Tracks mark start excuse first second program
      fun _ after => Settled mark after symbol static := by
    intro kept value later ran
    rcases tracks kept value later ran with ⟨after, ended, same, kept', -⟩ | stopped
    · have lasts := lasting.lasts program
      rw [ended] at lasts
      exact .inl ⟨after, ended, same, kept', settled.lasts lasts⟩
    · exact .inr stopped
  exact kept.bind onward

theorem map {first second : Edit β} {change : β → α}
    (tracks : Tracks mark start excuse first second program fun value after => goal (change value) after) :
    Tracks mark start excuse (change <$> first) (change <$> second) program goal := by
  rw [← bind_pure_comp, ← bind_pure_comp]
  exact tracks.bind fun value after met => pure met

theorem get_bind {next following : Program → Edit α}
    (onward : Tracks mark start excuse (next (program.overlay mark)) (following program) program goal) :
    Tracks mark start excuse (get >>= next) (get >>= following) program goal :=
  onward

theorem refuse {condition : Prop} [Decidable condition] {fault : Fault} :
    Tracks mark start excuse (ClassImage.refuse condition fault) (ClassImage.refuse condition fault) program
      fun _ after => after = program := by
  by_cases refused : condition
  · rw [ClassImage.refuse, if_pos refused]
    exact throw
  · rw [ClassImage.refuse, if_neg refused]
    exact pure rfl

theorem refuse_bind {condition : Prop} [Decidable condition] {fault : Fault} {next following : Unit → Edit α}
    (onward : ¬condition → Tracks mark start excuse (next ()) (following ()) program goal) :
    Tracks mark start excuse (ClassImage.refuse condition fault >>= next)
      (ClassImage.refuse condition fault >>= following) program goal := by
  by_cases refused : condition
  · rw [ClassImage.refuse, if_pos refused]
    exact throw
  · rw [ClassImage.refuse, if_neg refused]
    exact onward refused

theorem check {test again : Program → Except Fault α}
    (each : ∀ value, test (program.overlay mark) = .ok value → again program = .ok value ∨
      ∃ fault, again program = .error fault ∧ excuse fault program) :
    Tracks mark start excuse (check test) (check again) program fun _ after => after = program := by
  intro kept value later ran
  obtain ⟨passed, rfl⟩ := Prod.mk.inj ran
  rcases each value passed with again | ⟨fault, failed, allowed⟩
  · exact .inl ⟨program, Prod.ext again rfl, rfl, kept, rfl⟩
  · exact .inr ⟨fault, program, Prod.ext failed rfl, allowed⟩

/-- A check that markers have nothing to do with. -/
theorem check_bind {test : Program → Except Fault β} {next following : β → Edit α}
    (same : test (program.overlay mark) = test program)
    (onward : ∀ value, Tracks mark start excuse (next value) (following value) program goal) :
    Tracks mark start excuse (Edit.check test >>= next) (Edit.check test >>= following) program goal := by
  refine (check fun value passed => .inl (same ▸ passed)).bind ?_
  rintro value _ rfl
  exact onward value

/-- A change that markers have nothing to do with. -/
theorem set {marked after : Program} (preserves : program.Preserves after) (markers : after.marker = program.marker)
    (same : marked = after.remark (markersOver mark program.marker)) :
    Tracks mark start excuse (set marked) (set after) program fun _ last => last = after := by
  intro kept value later ran
  rw [← markers] at same
  subst same
  cases ran
  exact .inl ⟨after, rfl, rfl, kept.change preserves markers, rfl⟩

theorem set_bind {next following : PUnit → Edit α} {marked after : Program}
    (preserves : program.Preserves after)
    (markers : after.marker = program.marker)
    (same : marked = after.remark (markersOver mark program.marker))
    (onward : Tracks mark start excuse (next ⟨⟩) (following ⟨⟩) after goal) :
    Tracks mark start excuse (MonadStateOf.set marked >>= next) (MonadStateOf.set after >>= following) program
      goal := by
  refine (set preserves markers same).bind ?_
  rintro _ _ rfl
  exact onward

theorem modify {change : Program → Program} (preserves : program.Preserves (change program))
    (markers : (change program).marker = program.marker)
    (same : change (program.overlay mark) =
      (change program).remark (markersOver mark program.marker)) :
    Tracks mark start excuse (modify change) (modify change) program fun _ last => last = change program :=
  fun kept value later ran => set preserves markers same kept value later ran

theorem adapt_left {relabel : Fault → Fault} (tracks : Tracks mark start excuse first second program goal) :
    Tracks mark start excuse (ExceptT.adapt relabel first) second program goal :=
  fun kept value later ran => tracks kept value later (outcome_adapt_ok.mp ran)

theorem adapt_right {relabel : Fault → Fault}
    (tracks : Tracks mark start (fun fault after => excuse (relabel fault) after) first second program goal) :
    Tracks mark start excuse first (ExceptT.adapt relabel second) program goal := by
  intro kept value later ran
  rw [outcome_adapt]
  rcases tracks kept value later ran with ⟨after, ended, met⟩ | ⟨fault, after, stopped, allowed⟩
  · rw [ended]
    exact .inl ⟨after, rfl, met⟩
  · rw [stopped]
    exact .inr ⟨relabel fault, after, rfl, allowed⟩

theorem adapt {relabel : Fault → Fault}
    (tracks : Tracks mark start (fun fault after => excuse (relabel fault) after) first second program goal) :
    Tracks mark start excuse (ExceptT.adapt relabel first) (ExceptT.adapt relabel second) program goal :=
  tracks.adapt_right.adapt_left

theorem mapM {list : List β} {action again : β → Edit α}
    (each : ∀ entry after, Tracks mark start excuse (action entry) (again entry) after fun _ _ => True) :
    Tracks mark start excuse (list.mapM action) (list.mapM again) program fun _ _ => True := by
  induction list generalizing program with
  | nil => exact pure trivial
  | cons entry rest ih =>
    rw [List.mapM_cons, List.mapM_cons]
    exact (each entry program).bind fun value after _ => ih.bind fun values last _ => pure trivial

theorem forM {list : List β} {action again : β → Edit PUnit}
    (each : ∀ entry after, Tracks mark start excuse (action entry) (again entry) after fun _ _ => True) :
    Tracks mark start excuse (list.forM action) (list.forM again) program fun _ _ => True := by
  induction list generalizing program with
  | nil => exact pure trivial
  | cons entry rest ih =>
    change Tracks mark start excuse (action entry >>= fun _ => rest.forM action)
      (again entry >>= fun _ => rest.forM again) program _
    exact (each entry program).bind fun _ after _ => ih

theorem optional {value : Option β} {action again : β → Edit α}
    (each : ∀ entry, Tracks mark start excuse (action entry) (again entry) program fun _ _ => True) :
    Tracks mark start excuse (value.mapM action) (value.mapM again) program fun _ _ => True := by
  cases value with
  | none => exact pure trivial
  | some entry => exact map (each entry)

end Tracks

end Edit

end ClassImage
