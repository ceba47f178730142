import Mathlib.Tactic
import ClassImage.Proofs.Program.Markers
import ClassImage.Proofs.Program.Session

/-!
Edits that fail change nothing. Most edits run all their checks before they
change the program. The exceptions create a type or a member first and check it
afterwards; what they have just created passes the check, and what they find
they leave alone. For declarations that takes more than a look at the edit:
asking for a member may settle its marker, but not that of a member that is
declared already, since its declaration has settled it.
-/

namespace ClassImage

namespace Edit

open Program

/-- If the edit fails, the program is as it was. -/
def Atomic (edit : Edit α) (before : Program) : Prop :=
  ∀ fault after, outcome edit before = (.error fault, after) → after = before

/-- The edit gives a result. -/
def Succeeds (edit : Edit α) (before : Program) : Prop :=
  ∃ value after, outcome edit before = (.ok value, after)

namespace Atomic

variable {before : Program} {edit : Edit α} {next : α → Edit β}

theorem of_succeeds (succeeds : Succeeds edit before) : Atomic edit before := by
  obtain ⟨value, after, done⟩ := succeeds
  intro fault left failed
  have clash := done.symm.trans failed
  cases clash

theorem pure {value : α} : Atomic (pure value) before :=
  of_succeeds ⟨value, before, rfl⟩

theorem throw {fault : Fault} : Atomic (throw fault : Edit α) before := by
  intro other after failed
  cases failed
  rfl

theorem check {test : Program → Except Fault α} : Atomic (Edit.check test) before := by
  intro fault after failed
  exact (congrArg Prod.snd failed).symm

/-- A part that changes the program may be followed only by what cannot fail. -/
theorem bind (first : Atomic edit before)
    (second : ∀ value middle, outcome edit before = (.ok value, middle) →
      middle = before ∧ Atomic (next value) before ∨ Succeeds (next value) middle) :
    Atomic (edit >>= next) before := by
  intro fault after failed
  rw [outcome_bind] at failed
  cases ran : outcome edit before with
  | mk result middle =>
    rw [ran] at failed
    cases result with
    | error cause =>
      have stopped := first cause middle ran
      cases failed
      exact stopped
    | ok value =>
      rcases second value middle ran with ⟨same, atomic⟩ | succeeds
      · rw [same] at failed
        exact atomic fault after failed
      · obtain ⟨_, _, done⟩ := succeeds
        cases done.symm.trans failed

theorem map {change : α → β} (atomic : Atomic edit before) : Atomic (change <$> edit) before := by
  rw [← bind_pure_comp]
  apply atomic.bind
  intro value middle _
  exact .inr ⟨change value, middle, rfl⟩

theorem get_bind {next : Program → Edit α} (second : Atomic (next before) before) :
    Atomic (get >>= next) before :=
  second

theorem check_bind {test : Program → Except Fault α}
    (second : ∀ value, test before = .ok value → Atomic (next value) before) :
    Atomic (Edit.check test >>= next) before := by
  apply check.bind
  intro value middle passed
  have same : before = middle := congrArg Prod.snd passed
  exact .inl ⟨same.symm, second value (congrArg Prod.fst passed)⟩

theorem refuse_bind {condition : Prop} [Decidable condition] {fault : Fault} {next : Unit → Edit α}
    (second : ¬condition → Atomic (next ()) before) :
    Atomic (refuse condition fault >>= next) before := by
  by_cases refused : condition
  · rw [refuse, if_pos refused]
    exact throw
  · rw [refuse, if_neg refused]
    exact second refused

theorem refuse {condition : Prop} [Decidable condition] {fault : Fault} :
    Atomic (ClassImage.refuse condition fault) before := by
  by_cases refused : condition
  · rw [ClassImage.refuse, if_pos refused]
    exact throw
  · rw [ClassImage.refuse, if_neg refused]
    exact pure

/-- What is found is left alone, and what is not refused is entered: if the search had to create
what it yields, that is not refused. -/
theorem enter {find : Edit α} {refused : Program → α → Prop} {fault : Program → α → Fault}
    {enter : Program → α → Program} [∀ program value, Decidable (refused program value)]
    (found : Atomic find before)
    (fresh : ∀ value after, outcome find before = (.ok value, after) →
      after = before ∨ ¬refused after value) :
    Atomic (do
      let value ← find
      let program ← get
      ClassImage.refuse (refused program value) (fault program value)
      set (enter program value)
      return value) before := by
  apply found.bind
  intro value middle ran
  by_cases passed : refused middle value
  · have same := (fresh value middle ran).resolve_right (not_not.mpr passed)
    left
    refine ⟨same, get_bind (refuse_bind ?_)⟩
    intro passes
    exact absurd (same ▸ passed) passes
  · right
    refine ⟨value, enter middle value, ?_⟩
    rw [outcome_bind, show outcome get middle = (.ok middle, middle) from rfl]
    exact refuse_bind_ok.mpr ⟨passed, rfl⟩

end Atomic

section Symbols

variable {before : Program}

theorem atomic_type {descriptor : Descriptor} : Atomic (type descriptor) before := by
  apply Atomic.refuse_bind
  intro _
  apply Atomic.get_bind
  cases before.findType? descriptor with
  | some id => exact .pure
  | none => exact .of_succeeds ⟨_, _, rfl⟩

/-- A type that was just created is external. -/
theorem type_fresh {descriptor : Descriptor} {id : TypeId} {after : Program}
    (ran : outcome (type descriptor) before = (.ok id, after)) :
    after = before ∨ ¬(after.typeAt id).isDefined := by
  unfold type at ran
  obtain ⟨-, ran⟩ := refuse_bind_ok.mp ran
  rw [get_bind] at ran
  cases found : before.findType? descriptor with
  | some known =>
    rw [found] at ran
    cases ran
    exact .inl rfl
  | none =>
    rw [found] at ran
    cases ran
    right
    simp [typeAt, addType, TypeEntry.isDefined, TypeEntry.definition?]

theorem atomic_setInterface {type : TypeId} {interface : Bool} :
    Atomic (setInterface type interface) before := by
  apply Atomic.get_bind
  cases status : (before.typeAt type).status with
  | external _ => exact .of_succeeds ⟨_, _, by simp only [status]; rfl⟩
  | defined definition =>
    simp only [status]
    exact .refuse

theorem atomic_define {descriptor : Descriptor} {header : Header} :
    Atomic (Edit.define descriptor header) before := by
  cases descriptor with
  | object name => exact .enter atomic_type fun _ _ => type_fresh
  | _ => exact .throw

theorem atomic_refine {symbol : Symbol} {hint : Marker} : Atomic (refine symbol hint) before := by
  apply Atomic.get_bind
  cases hint with
  | none => exact .pure
  | some static =>
    cases marker : before.marker symbol with
    | none =>
      simp only
      apply Atomic.check_bind
      intro _ _
      exact .of_succeeds ⟨_, _, rfl⟩
    | some known =>
      simp only
      exact .refuse

/-- A known marker is left alone. -/
theorem refine_known {symbol : Symbol} {hint : Marker} {static : Bool} {after : Program}
    (known : before.marker symbol = some static)
    (ran : outcome (refine symbol hint) before = (.ok (), after)) : after = before := by
  unfold refine at ran
  rw [get_bind, known] at ran
  cases hint with
  | none =>
    cases ran
    rfl
  | some requested =>
    obtain ⟨-, same⟩ := outcome_refuse_ok.mp ran
    exact same

theorem atomic_method {owner : TypeId} {name : String} {signature : Signature} {hint : Marker} :
    Atomic (method owner name signature hint) before := by
  apply Atomic.get_bind
  cases before.findMethod? owner name signature with
  | none => exact .of_succeeds ⟨_, _, rfl⟩
  | some id =>
    apply atomic_refine.bind
    intro _ middle _
    exact .inr ⟨id, middle, rfl⟩

theorem atomic_field {owner : TypeId} {name : String} {type : Descriptor} {hint : Marker} :
    Atomic (field owner name type hint) before := by
  apply Atomic.refuse_bind
  intro _
  apply Atomic.get_bind
  cases before.findField? owner name type with
  | none => exact .of_succeeds ⟨_, _, rfl⟩
  | some id =>
    apply atomic_refine.bind
    intro _ middle _
    exact .inr ⟨id, middle, rfl⟩

theorem descriptor?_of_isDefined {type : TypeId} (defined : (before.typeAt type).isDefined) :
    (before.descriptor? type).isSome := by
  apply descriptor?_isSome.mpr
  by_contra outside
  rw [typeAt, Array.getD_eq_getD_getElem?, Array.getElem?_eq_none (by omega)] at defined
  cases defined

section Declared

variable (indexed : before.Indexed) (markers : before.MarkersSound) {owner : TypeId}
  (defined : (before.typeAt owner).isDefined)

include indexed markers defined

/-- Asking for a declared method changes nothing, since its marker is known. -/
theorem method_fresh {name : String} {signature : Signature} {hint : Marker} {id : MethodId}
    {after : Program} (ran : outcome (method owner name signature hint) before = (.ok id, after)) :
    after = before ∨ ¬(after.methodAt id).declaration.isSome := by
  have reached : Reaches Growth (method owner name signature hint) before _ :=
    reaches_method (descriptor?_of_isDefined defined) (fun growth => growth) fun _ _ growth => growth
  obtain ⟨-, grown, -, -⟩ := reached.ran indexed ran
  cases declared : before.declaredMethod? id with
  | none =>
    right
    have kept : after.declaredMethod? id = none := by rw [grown.sameDefinitions.methods, declared]
    simpa [declaredMethod?] using kept
  | some entry =>
    left
    have known := markers.methods declared
    unfold method at ran
    rw [get_bind] at ran
    cases found : before.findMethod? owner name signature with
    | none =>
      rw [found] at ran
      cases ran
      have inside := methodKey?_isSome.mp (knowsMethod_of_declared declared)
      exact absurd inside (lt_irrefl _)
    | some other =>
      rw [found] at ran
      obtain ⟨_, middle, refined, last⟩ := outcome_bind_ok.mp ran
      cases last
      exact refine_known known refined

theorem field_fresh {name : String} {type : Descriptor} {hint : Marker} {id : FieldId}
    {after : Program} (ran : outcome (field owner name type hint) before = (.ok id, after)) :
    after = before ∨ ¬(after.fieldAt id).declaration.isSome := by
  have reached : Reaches Growth (field owner name type hint) before _ :=
    reaches_field (descriptor?_of_isDefined defined) (fun growth => growth) fun _ _ growth => growth
  obtain ⟨-, grown, -, -⟩ := reached.ran indexed ran
  cases declared : before.declaredField? id with
  | none =>
    right
    have kept : after.declaredField? id = none := by rw [grown.sameDefinitions.fields, declared]
    simpa [declaredField?] using kept
  | some entry =>
    left
    have known := markers.fields declared
    unfold field at ran
    obtain ⟨-, ran⟩ := refuse_bind_ok.mp ran
    rw [get_bind] at ran
    cases found : before.findField? owner name type with
    | none =>
      rw [found] at ran
      cases ran
      have inside := fieldKey?_isSome.mp (knowsField_of_declared declared)
      exact absurd inside (lt_irrefl _)
    | some other =>
      rw [found] at ran
      obtain ⟨_, middle, refined, last⟩ := outcome_bind_ok.mp ran
      cases last
      exact refine_known known refined

end Declared

theorem atomic_requireDefined_bind {owner : TypeId} {next : Unit → Edit α}
    (second : (before.typeAt owner).isDefined → Atomic (next ()) before) :
    Atomic (requireDefined owner >>= next) before := by
  unfold requireDefined
  rw [bind_assoc]
  apply Atomic.get_bind
  apply Atomic.refuse_bind
  intro defined
  exact second (not_not.mp defined)

theorem atomic_declareMethod (indexed : before.Indexed) (markers : before.MarkersSound) {owner : TypeId}
    {name : String} {signature : Signature} {access : UInt32} :
    Atomic (declareMethod owner name signature access) before := by
  apply atomic_requireDefined_bind
  intro defined
  exact .enter atomic_method fun _ _ => method_fresh indexed markers defined

theorem atomic_declareField (indexed : before.Indexed) (markers : before.MarkersSound) {owner : TypeId}
    {name : String} {type : Descriptor} {access : UInt32} :
    Atomic (declareField owner name type access) before := by
  apply atomic_requireDefined_bind
  intro defined
  exact .enter atomic_field fun _ _ => field_fresh indexed markers defined

theorem atomic_createBody {method : MethodId} : Atomic (createBody method) before := by
  apply Atomic.get_bind
  cases declared : (before.methodAt method).declaration with
  | none =>
    simp only [declared]
    exact .throw
  | some access =>
    simp only [declared]
    apply Atomic.refuse_bind
    intro _
    apply Atomic.refuse_bind
    intro _
    exact .of_succeeds ⟨_, _, rfl⟩

end Symbols

section Code

variable {before : Program} {instruction : Instruction}

theorem atomic_insert {method : MethodId} {position : Nat} :
    Atomic (insert method position instruction) before := by
  apply Atomic.check_bind
  intro _ _
  exact .of_succeeds ⟨_, _, rfl⟩

theorem atomic_insertBefore {anchor : InstructionId} :
    Atomic (insertBefore anchor instruction) before := by
  apply Atomic.check_bind
  intro _ _
  exact atomic_insert

theorem atomic_insertAfter {anchor : InstructionId} :
    Atomic (insertAfter anchor instruction) before := by
  apply Atomic.check_bind
  intro _ _
  exact atomic_insert

theorem atomic_append {method : MethodId} : Atomic (append method instruction) before := by
  apply Atomic.check_bind
  intro _ _
  exact atomic_insert

theorem atomic_remove {id : InstructionId} : Atomic (remove id) before := by
  apply Atomic.check_bind
  rintro ⟨method, position⟩ _
  apply Atomic.get_bind
  cases before.branchesTo method id with
  | cons branch _ => exact .throw
  | nil =>
    cases before.slot? id with
    | none => exact .throw
    | some slot => exact .of_succeeds ⟨_, _, rfl⟩

theorem atomic_replace {old : InstructionId} : Atomic (replace old instruction) before := by
  apply Atomic.check_bind
  rintro ⟨method, position⟩ _
  apply Atomic.check_bind
  intro _ _
  apply Atomic.get_bind
  cases before.slot? old with
  | none => exact .throw
  | some slot => exact .of_succeeds ⟨_, _, rfl⟩

theorem atomic_addImage {image : Image} : Atomic (addImage image) before := by
  intro fault after failed
  change addImage image before = (.error fault, after) at failed
  unfold addImage at failed
  cases verified : image.verify with
  | error cause =>
    rw [verified] at failed
    exact (congrArg Prod.snd failed).symm
  | ok =>
    rw [verified] at failed
    cases fresh : Loading.checkDuplicates before image.pool [] image.classes with
    | error cause =>
      simp only [fresh] at failed
      exact (congrArg Prod.snd failed).symm
    | ok =>
      simp only [fresh] at failed
      split at failed
      · cases failed
      · exact (congrArg Prod.snd failed).symm

end Code

end Edit

namespace Session

open Edit Program

/-- An operation that fails, whatever it is asked for, leaves the program of a reachable session
exactly as it was: tables, lookups, code, locals and uses. -/
theorem Reachable.failed_unchanged {session : Session} (reached : session.Reachable)
    (operation : Operation) {fault : Fault} {after : Program}
    (failed : operation.run.run session.program = (.error fault, after)) :
    after = session.program := by
  have indexed := reached.steps.indexed .empty
  have markers := reached.steps.markersSound
  have atomic : Atomic operation.run session.program := by
    cases operation with
    | type => exact atomic_type.map
    | setInterface => exact atomic_setInterface.map
    | define => exact atomic_define.map
    | method => exact atomic_method.map
    | field => exact atomic_field.map
    | declareMethod => exact (atomic_declareMethod indexed markers).map
    | declareField => exact (atomic_declareField indexed markers).map
    | createBody => exact atomic_createBody.map
    | freshLocal => exact Atomic.map (.of_succeeds ⟨_, _, rfl⟩)
    | call => exact Atomic.check.map
    | access => exact Atomic.check.map
    | make => exact .pure
    | copy => exact Atomic.map (.of_succeeds ⟨_, _, rfl⟩)
    | append => exact atomic_append.map
    | insertBefore => exact atomic_insertBefore.map
    | insertAfter => exact atomic_insertAfter.map
    | remove => exact atomic_remove.map
    | replace => exact atomic_replace.map
    | addImage => exact atomic_addImage.map
  exact atomic fault after failed

/-- The method is declared again: its entry is found, and only then turns out to be declared. -/
theorem failed_unchanged_recursive :
    (Operation.declareMethod ⟨0⟩ "f" ⟨[], .void⟩ 8).run.run recursive.program =
      (.error (.flaw (.duplicate (.member "LA;->f()V"))), recursive.program) := by
  have refused : ((Operation.declareMethod ⟨0⟩ "f" ⟨[], .void⟩ 8).run.run recursive.program).1 =
      .error (.flaw (.duplicate (.member "LA;->f()V"))) := by rfl
  exact Prod.ext refused (recursive_reachable.failed_unchanged _ (Prod.ext refused rfl))

end Session

end ClassImage
