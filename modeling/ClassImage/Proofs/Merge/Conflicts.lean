import ClassImage.Proofs.Merge.Lockstep
import ClassImage.Proofs.Merge.Order
import ClassImage.Proofs.Program.Blame

/-!
What adding an image to a program can fail with when the image loads by itself.
The markers that the image gives its members are given in advance; then the image
loads, and the run without them stops at a class that is defined already or at a
marker. A marker that the program knew is a contradiction of the program. Where
the program knew none but attached instructions imply the other one, the image
is called malformed, although nothing is wrong with it.
-/

namespace ClassImage

open Program Edit

namespace Program

/-- The markers that another program has for the members of this one. -/
def marksOf (program other : Program) (symbol : Symbol) : Marker :=
  (program.key? symbol).bind fun key => (other.find? key).bind other.marker

section Marks

variable {program other : Program} {symbol : Symbol} {static : Bool}

theorem marksOf_some (indexed : other.Indexed) (given : program.marksOf other symbol = some static) :
    ∃ twin, program.Same other symbol twin ∧ other.marker twin = some static := by
  obtain ⟨key, named, inner⟩ := Option.bind_eq_some_iff.mp given
  obtain ⟨twin, found, marked⟩ := Option.bind_eq_some_iff.mp inner
  exact ⟨twin, ⟨key, named, indexed.key?_of_find? found⟩, marked⟩

/-- Only members have markers, and a member is found again as a member. -/
theorem hasMember_of_marksOf (indexed : other.Indexed) (given : program.marksOf other symbol = some static) :
    program.HasMember symbol := by
  obtain ⟨twin, ⟨key, named, found⟩, marked⟩ := marksOf_some indexed given
  cases symbol with
  | type id =>
    obtain ⟨descriptor, -, rfl⟩ := key?_type.mp named
    rw [marker_of_key?_type found] at marked
    cases marked
  | method id =>
    obtain ⟨_, _, _, _, known, -⟩ := key?_method.mp named
    exact Option.isSome_iff_exists.mpr ⟨_, known⟩
  | field id =>
    obtain ⟨_, _, _, _, known, -⟩ := key?_field.mp named
    exact Option.isSome_iff_exists.mpr ⟨_, known⟩

theorem kept_marksOf (indexed : program.Indexed) (indexed' : other.Indexed) :
    Kept (program.marksOf other) program program :=
  ⟨indexed, .refl program, hasMember_of_marksOf indexed', fun _ => .inl rfl⟩

theorem key?_remark (program : Program) (markers : Symbol → Marker) :
    (program.remark markers).key? = program.key? := by
  have same := sameKeys_remark program markers
  funext symbol
  cases symbol with
  | type => rfl
  | method id => simp only [key?, same.methods, same.types]
  | field id => simp only [key?, same.fields, same.types]

/-- A program with known markers for all its members is followed by every program that takes them over. -/
theorem follows_overlay (decided : other.Decided) (sound : other.KeysSound) (orderly : program.Orderly) :
    other.Follows (program.overlay (program.marksOf other)) := by
  refine ⟨orderly.remark _, ?_⟩
  rintro twin symbol ⟨key, named, found⟩
  rw [key?_remark] at found
  have given : program.marksOf other symbol = other.marker twin := by
    rw [marksOf, found, Option.bind_some, sound.find?_eq named, Option.bind_some]
  rw [(kept_marksOf orderly.keys.indexed sound.indexed).marker_overlay, given]
  cases twin with
  | type id =>
    obtain ⟨descriptor, -, rfl⟩ := key?_type.mp named
    exact marker_of_key?_type found
  | method id =>
    obtain ⟨_, _, _, _, known, -⟩ := key?_method.mp named
    obtain ⟨static, marked⟩ := Option.isSome_iff_exists.mp (decided (.method id) (by rw [HasMember, known]; rfl))
    rw [marked, Option.some_or]
  | field id =>
    obtain ⟨_, _, _, _, known, -⟩ := key?_field.mp named
    obtain ⟨static, marked⟩ := Option.isSome_iff_exists.mp (decided (.field id) (by rw [HasMember, known]; rfl))
    rw [marked, Option.some_or]

end Marks

end Program

namespace Loading

/-- A check for duplicates that an empty program passes fails only at a class that is defined. -/
theorem checkDuplicates_error {program : Program} {pool : Pool} {seen : List String} {classes : List ClassDef}
    {fault : Fault} (alone : checkDuplicates {} pool seen classes = .ok ())
    (failed : checkDuplicates program pool seen classes = .error fault) : ∃ name, fault = .duplicateType name := by
  induction classes generalizing seen with
  | nil => cases failed
  | cons definition classes ih =>
    unfold checkDuplicates at alone failed
    cases named : pool.type? definition.type with
    | none =>
      simp only [named] at alone
      cases alone
    | some name =>
      simp only [named] at alone failed
      split at failed
      · cases failed
        exact ⟨name, rfl⟩
      · split at alone
        · cases alone
        · exact ih alone failed

namespace Context

/-- Loading attaches instructions whose members have known markers; where a member's marker is unknown
afterwards, its instructions were attached before. -/
theorem Loads.attached_before {context : Context} {before after : Program}
    (moved : Relation.ReflTransGen context.Loads before after) (begun : Steps {} before) {id : InstructionId}
    {instruction : Instruction} {symbol : Symbol} {used : Bool}
    (attached : after.instruction? id = some instruction)
    (shape : after.memberShape? instruction = some (symbol, used)) (unknown : after.marker symbol = none) :
    before.instruction? id = some instruction ∧ before.memberShape? instruction = some (symbol, used) := by
  induction moved with
  | refl => exact ⟨attached, shape⟩
  | @tail middle after earlier loads ih =>
    have steps : Steps {} middle := begun.trans (Loads.steps earlier)
    have unmarked : middle.marker symbol = none := by
      cases marked : middle.marker symbol with
      | none => rfl
      | some static =>
        rw [Steps.marker_kept (.single loads.step) marked] at unknown
        cases unknown
    rcases loads.instruction?_cases attached with there | ⟨admitted, marked, -⟩
    · obtain ⟨slot, here, rfl⟩ := Option.map_eq_some_iff.mp there
      rw [loads.step.extends.memberShape?_eq (steps.codeAdmitted id slot here)] at shape
      exact ih there shape unmarked
    · rw [loads.step.extends.memberShape?_eq admitted] at shape
      have known := marked symbol used shape
      rw [unmarked] at known
      cases known

end Context

end Loading

namespace Program

/-- The other program has a marker for a member that this program knows no marker of, and an instruction
that is attached here implies the opposite. -/
inductive UsedOtherwise (program other : Program) : Conflict → Prop
  | use {symbol twin : Symbol} {static : Bool} {id : InstructionId} {instruction : Instruction}
      (same : program.Same other symbol twin) (stated : other.marker twin = some static)
      (unknown : program.marker symbol = none) (attached : program.instruction? id = some instruction)
      (shape : program.memberShape? instruction = some (symbol, !static)) :
      UsedOtherwise program other (.use (program.symbolText symbol) static (!static))

/-- What does not fit when loading stops was attached before. -/
theorem Misfit.usedOtherwise {program other last : Program} {context : Loading.Context} {cause : Conflict}
    (begun : Steps {} program) (indexed : other.Indexed)
    (moved : Relation.ReflTransGen context.Loads program last) (misfit : Misfit (program.marksOf other) last cause) : program.UsedOtherwise other cause := by
  have onward : Steps program last := Loading.Context.Loads.steps moved
  have steps : Steps {} last := begun.trans onward
  cases misfit with
  | @use id instruction symbol static attached shape said =>
    obtain known | ⟨unknown, given⟩ := said
    · -- Known markers fit all that is attached, also where loading stopped.
      obtain ⟨slot, there, rfl⟩ := Option.map_eq_some_iff.mp attached
      have fits : static = !static := steps.markersSound.code there symbol _ shape static known
      exact absurd fits (Bool.not_eq_not.mpr rfl)
    · obtain ⟨earlier, implied⟩ := Loading.Context.Loads.attached_before moved begun attached shape unknown
      obtain ⟨twin, same, stated⟩ := marksOf_some indexed given
      have unknown' : program.marker symbol = none := by
        cases marked : program.marker symbol with
        | none => rfl
        | some other => exact absurd (onward.marker_kept marked) (by simp [unknown])
      obtain ⟨key, named, found⟩ := same
      rw [symbolText_of_key? (onward.extends.key? named), ← symbolText_of_key? named]
      exact .use ⟨key, named, found⟩ stated unknown' earlier implied

end Program

namespace Session

section Loaded

variable {session : Session} (reached : session.Reachable) {image : Image} {alone : Program}
  (added : Edit.addImage image {} = (.ok (), alone))

include reached added

/-- The image loads where the markers of its members are given. -/
theorem Reachable.load_overlay
    (distinct : Loading.checkDuplicates session.program image.pool [] image.classes = .ok ()) :
    ∃ copy, outcome ((Loading.Context.mk image session.program).overlay (session.program.marksOf alone)).load
      (session.program.overlay (session.program.marksOf alone)) = (.ok (), copy) := by
  obtain ⟨fresh, loaded, rfl⟩ := reachable_of_addImage added
  have follows : fresh.program.Follows (session.program.overlay (session.program.marksOf fresh.program)) :=
    follows_overlay (decided_of_addImage added) loaded.steps.keysSound reached.steps.orderly
  have lacks : ∀ name ∈ image.classNames,
      (session.program.overlay (session.program.marksOf fresh.program)).LacksClass name := by
    intro name listed
    obtain ⟨definition, member, found⟩ := List.mem_filterMap.mp listed
    exact ((Loading.checkDuplicates_iff reached.steps.keysSound).mp distinct).2 definition member name found
  obtain ⟨copy, _, _, _, _, again, -⟩ := addImage_again .refl loaded.steps added follows lacks
  exact ⟨copy, (addImage_ok.mp again).2.2⟩

theorem Reachable.load_error
    (distinct : Loading.checkDuplicates session.program image.pool [] image.classes = .ok ()) {fault : Fault}
    {last : Program}
    (failed : outcome (Loading.Context.mk image session.program).load session.program = (.error fault, last)) :
    (∃ cause, fault = .conflict cause) ∨
      ∃ cause, fault = .malformedImage (.conflict cause) ∧ session.program.UsedOtherwise alone cause := by
  obtain ⟨copy, ran⟩ := reached.load_overlay added distinct
  obtain ⟨fresh, loaded, rfl⟩ := reachable_of_addImage added
  have indexed := reached.steps.indexed .empty
  have tracks := @Loading.Context.tracks_load ⟨image, session.program⟩ (session.program.marksOf fresh.program)
    session.program reached.steps.keysSound
  rcases tracks (kept_marksOf indexed (loaded.steps.indexed .empty)) () copy ran with ⟨after, ended, -⟩ | ⟨other, after, stopped, excused⟩
  · cases failed.symm.trans ended
  · cases failed.symm.trans stopped
    rcases excused with clash | ⟨cause, rfl, misfit⟩
    · exact .inl clash
    · have verified := (addImage_ok.mp added).1
      have loading : Reaches (Loading.Context.mk image session.program).Loads
          (Loading.Context.mk image session.program).load session.program _ :=
        Loading.Context.reaches_load (Image.verify_ok.mp verified).2 reached.sound.locals
      obtain ⟨-, moved, -⟩ := loading indexed
      rw [failed] at moved
      exact .inr ⟨cause, rfl, misfit.usedOtherwise reached.steps (loaded.steps.indexed .empty) moved⟩

end Loaded

/-- An image that loads by itself can be added to the program of a session, or one of its classes is
defined already, or the program contradicts it. It is called malformed in one case only: it has a marker for
a member that the program knows no marker of, and an instruction attached in the program implies the other. -/
theorem Reachable.addImage_error {session : Session} (reached : session.Reachable) {image : Image}
    {alone after : Program} {fault : Fault} (added : (Edit.addImage image).run {} = (.ok (), alone))
    (failed : (Edit.addImage image).run session.program = (.error fault, after)) :
    (∃ name, fault = .duplicateType name) ∨ (∃ cause, fault = .conflict cause) ∨
      ∃ cause, fault = .malformedImage (.conflict cause) ∧ session.program.UsedOtherwise alone cause := by
  have added : Edit.addImage image {} = (.ok (), alone) := added
  obtain ⟨verified, distinct, -⟩ := addImage_ok.mp added
  change Edit.addImage image session.program = (.error fault, after) at failed
  unfold Edit.addImage at failed
  simp only [verified] at failed
  cases checked : Loading.checkDuplicates session.program image.pool [] image.classes with
  | error found =>
    simp only [checked] at failed
    cases failed
    exact .inl (Loading.checkDuplicates_error distinct checked)
  | ok =>
    simp only [checked] at failed
    rcases loaded : (Loading.Context.mk image session.program).load session.program with ⟨found | done, last⟩
    · simp only [loaded] at failed
      cases failed
      exact .inr (reached.load_error added checked loaded)
    · simp only [loaded] at failed
      cases failed

/-- A class with a static method that loads a field of an object; nothing says whether the field is static. -/
def loading : Session :=
  [.define (.object "A") {}, .declareMethod ⟨0⟩ "m" ⟨[], .void⟩ 8, .createBody ⟨0⟩, .type (.object "X"),
    .field ⟨1⟩ "f" .int none, .freshLocal .int, .freshLocal .reference,
    .access ⟨.load, some ⟨0⟩, some ⟨0, .int⟩, some ⟨1, .reference⟩⟩,
    .append ⟨0⟩ (.access ⟨.load, ⟨0⟩, ⟨0, .int⟩, some ⟨1, .reference⟩⟩)].foldl perform {}

/-- A class with a method that loads the same field as a static one. -/
def staticReader : Image where
  flags := 0
  pool := ⟨#["LB;", "g", "V", "LX;", "f", "I"], #[0, 2, 3, 5], #[⟨1, []⟩], #[⟨2, 3, 4⟩], #[⟨0, 0, 1⟩]⟩
  classes := [⟨0, 1, none, [], none, [], [⟨0, 8, some ⟨1, 0, [5], #[.staticGet 0 0, .returnVoid]⟩⟩]⟩]

theorem loading_reachable : loading.Reachable := by
  rw [loading]
  simp only [List.foldl_cons, List.foldl_nil]
  refine .next (.next (.next (.next (.next (.next (.next (.next (.next .start ?_) ?_) ?_) ?_) ?_) ?_) ?_) ?_) ?_
  · exact ⟨by simp, by simp⟩
  · change Option.isSome _ = true
    decide +kernel
  · change Option.isSome _ = true
    decide +kernel
  · trivial
  · change Option.isSome _ = true
    decide +kernel
  · trivial
  · trivial
  · refine ⟨?_, ?_⟩
    · rintro _ ⟨⟩
      decide +kernel
    · intro slot listed
      left
      revert slot
      decide +kernel
  · exact ⟨by decide +kernel, by decide +kernel⟩

/-- The image loads by itself. -/
theorem staticReader_added :
    (Edit.addImage staticReader).run {} = (.ok (), ((Edit.addImage staticReader).run {}).2) :=
  Prod.fst_eq_iff.mp (by decide +kernel)

theorem staticReader_refused : (Edit.addImage staticReader).run loading.program =
    (.error (.malformedImage (.conflict (.use "LX;->f:I" true false))),
      ((Edit.addImage staticReader).run loading.program).2) :=
  Prod.fst_eq_iff.mp (by decide +kernel)

theorem addImage_error_loading :
    (Edit.addImage staticReader).run loading.program =
      (.error (.malformedImage (.conflict (.use "LX;->f:I" true false))),
        ((Edit.addImage staticReader).run loading.program).2) ∧
    loading.program.UsedOtherwise ((Edit.addImage staticReader).run {}).2 (.use "LX;->f:I" true false) := by
  refine ⟨staticReader_refused, ?_⟩
  rcases loading_reachable.addImage_error staticReader_added staticReader_refused with
    ⟨_, same⟩ | ⟨_, same⟩ | ⟨cause, same, used⟩
  · cases same
  · cases same
  · cases same
    exact used

/-- Some images that load by themselves are called malformed where they contradict the program. -/
theorem addImage_malformed : ¬∀ (session : Session) (image : Image) (alone after : Program) (fault : Fault),
    session.Reachable → (Edit.addImage image).run {} = (.ok (), alone) →
    (Edit.addImage image).run session.program = (.error fault, after) →
    (∃ name, fault = .duplicateType name) ∨ ∃ cause, fault = .conflict cause := by
  intro always
  rcases always loading staticReader _ _ _ loading_reachable staticReader_added staticReader_refused with
    ⟨_, same⟩ | ⟨_, same⟩
  · cases same
  · cases same

end Session

end ClassImage
