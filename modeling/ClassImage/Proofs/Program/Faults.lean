import ClassImage.Proofs.Program.Loading

/-!
How edits end. Every outcome of an edit is accounted for: a result meets a goal,
and a fault is one of those that are allowed. Flaws, and contradictions of what
is known, are all that checks of operands and requests for symbols find. What is
built from an image therefore fails with a fault of the image, as long as the
markers that it meets were not known before.
-/

namespace ClassImage

namespace Fault

/-- The image is to blame. -/
def OfImage (fault : Fault) : Prop := ∃ cause, fault = .malformedImage cause

/-- A flaw, which an image is blamed for. -/
def Flawed (fault : Fault) : Prop := fault.blameImage.OfImage

/-- A flaw or a contradiction. -/
def Clashing (fault : Fault) : Prop := fault.blameImageFully.OfImage

theorem flawed_flaw (flaw : Flaw) : (Fault.flaw flaw).Flawed := ⟨_, rfl⟩

theorem clashing_conflict (conflict : Conflict) : (Fault.conflict conflict).Clashing := ⟨_, rfl⟩

theorem OfImage.flawed {fault : Fault} (imputed : fault.OfImage) : fault.Flawed := by
  obtain ⟨cause, rfl⟩ := imputed
  exact ⟨cause, rfl⟩

theorem Flawed.clashing {fault : Fault} (flawed : fault.Flawed) : fault.Clashing := by
  cases fault with
  | flaw flaw => exact ⟨_, rfl⟩
  | conflict conflict => exact ⟨_, rfl⟩
  | _ => exact flawed

end Fault

namespace Edit

open Program

/-- A result meets the goal, and a fault is allowed. -/
def Ends (edit : Edit α) (before : Program) (goal : α → Program → Prop) (allowed : Fault → Prop) : Prop :=
  match outcome edit before with
  | (.ok value, after) => goal value after
  | (.error fault, _) => allowed fault

namespace Ends

variable {before : Program} {α β : Type} {goal : α → Program → Prop} {allowed : Fault → Prop}

theorem pure {value : α} (met : goal value before) : Ends (pure value) before goal allowed := met

theorem throw {fault : Fault} (faulty : allowed fault) : Ends (throw fault : Edit α) before goal allowed :=
  faulty

theorem fault {edit : Edit α} (ends : Ends edit before goal allowed) {fault : Fault} {after : Program}
    (ran : outcome edit before = (.error fault, after)) : allowed fault := by
  rw [Ends, ran] at ends
  exact ends

theorem imp {edit : Edit α} {weaker : α → Program → Prop} {wider : Fault → Prop}
    (ends : Ends edit before goal allowed) (results : ∀ value after, goal value after → weaker value after)
    (faults : ∀ fault, allowed fault → wider fault) : Ends edit before weaker wider := by
  unfold Ends at ends ⊢
  split at ends
  · exact results _ _ ends
  · exact faults _ ends

theorem widen {edit : Edit α} {wider : Fault → Prop} (ends : Ends edit before goal allowed)
    (faults : ∀ fault, allowed fault → wider fault) : Ends edit before goal wider :=
  ends.imp (fun _ _ met => met) faults

/-- What an edit reaches holds of its result, however it fails. -/
theorem reaching {edit : Edit α} {step : Program → Program → Prop} {reached : α → Program → Prop}
    (ends : Ends edit before goal allowed) (indexed : before.Indexed)
    (reaches : Reaches step edit before reached) :
    Ends edit before (fun value after => Relation.ReflTransGen step before after ∧ reached value after ∧
      goal value after) allowed := by
  obtain ⟨-, moved, met⟩ := reaches indexed
  unfold Ends at ends ⊢
  revert ends moved met
  rcases outcome edit before with ⟨fault | value, after⟩ <;> intro ends moved met
  · exact ends
  · exact ⟨moved, met value rfl, ends⟩

theorem bind {edit : Edit α} {next : α → Edit β} {last : β → Program → Prop}
    (first : Ends edit before goal allowed)
    (second : ∀ value middle, goal value middle → Ends (next value) middle last allowed) :
    Ends (edit >>= next) before last allowed := by
  unfold Ends at first ⊢
  rw [outcome_bind]
  revert first
  rcases outcome edit before with ⟨fault | value, middle⟩ <;> intro first
  · exact first
  · exact second value middle first

theorem map {edit : Edit β} {change : β → α}
    (ends : Ends edit before (fun value after => goal (change value) after) allowed) :
    Ends (change <$> edit) before goal allowed := by
  rw [← bind_pure_comp]
  exact ends.bind fun _ _ met => pure met

theorem get_bind {next : Program → Edit α} (second : Ends (next before) before goal allowed) :
    Ends (get >>= next) before goal allowed :=
  second

theorem set_bind {next : PUnit → Edit α} {after : Program} (second : Ends (next ⟨⟩) after goal allowed) :
    Ends (set after >>= next) before goal allowed :=
  second

theorem refuse {condition : Prop} [Decidable condition] {fault : Fault} {goal : Unit → Program → Prop}
    (faulty : condition → allowed fault) (met : ¬condition → goal () before) :
    Ends (ClassImage.refuse condition fault) before goal allowed := by
  by_cases refused : condition
  · rw [ClassImage.refuse, if_pos refused]
    exact throw (faulty refused)
  · rw [ClassImage.refuse, if_neg refused]
    exact pure (met refused)

theorem refuse_bind {condition : Prop} [Decidable condition] {fault : Fault} {next : Unit → Edit α}
    (faulty : condition → allowed fault) (second : ¬condition → Ends (next ()) before goal allowed) :
    Ends (ClassImage.refuse condition fault >>= next) before goal allowed := by
  by_cases refused : condition
  · rw [ClassImage.refuse, if_pos refused]
    exact throw (faulty refused)
  · rw [ClassImage.refuse, if_neg refused]
    exact second refused

theorem check {test : Program → Except Fault α} (passed : ∀ value, test before = .ok value → goal value before)
    (failed : ∀ fault, test before = .error fault → allowed fault) :
    Ends (Edit.check test) before goal allowed := by
  change match (test before, before) with
    | (.ok value, after) => goal value after
    | (.error fault, _) => allowed fault
  cases tested : test before with
  | ok value => exact passed value tested
  | error fault => exact failed fault tested

theorem adapt {edit : Edit α} {relabel : Fault → Fault}
    (ends : Ends edit before goal fun fault => allowed (relabel fault)) :
    Ends (ExceptT.adapt relabel edit) before goal allowed := by
  unfold Ends at ends ⊢
  rw [outcome_adapt]
  revert ends
  rcases outcome edit before with ⟨fault | value, middle⟩ <;> intro ends
  · exact ends
  · exact ends

/-- Entries are treated one by one under an invariant. -/
theorem mapM {list : List β} {action : β → Edit α} {invariant : Program → Prop} (start : invariant before)
    (each : ∀ entry ∈ list, ∀ middle, invariant middle →
      Ends (action entry) middle (fun _ after => invariant after) allowed) :
    Ends (list.mapM action) before (fun _ after => invariant after) allowed := by
  induction list generalizing before with
  | nil => exact pure start
  | cons entry rest ih =>
    rw [List.forall_mem_cons] at each
    rw [List.mapM_cons]
    apply (each.1 before start).bind
    intro value middle kept
    apply (ih kept each.2).bind
    intro values after held
    exact pure held

theorem forM {list : List β} {action : β → Edit PUnit} {invariant : Program → Prop} (start : invariant before)
    (each : ∀ entry ∈ list, ∀ middle, invariant middle →
      Ends (action entry) middle (fun _ after => invariant after) allowed) :
    Ends (list.forM action) before (fun _ after => invariant after) allowed := by
  induction list generalizing before with
  | nil => exact pure start
  | cons entry rest ih =>
    rw [List.forall_mem_cons] at each
    change Ends (action entry >>= fun _ => rest.forM action) before _ _
    apply (each.1 before start).bind
    intro _ middle kept
    exact ih kept each.2

theorem optional {value : Option β} {action : β → Edit α} {invariant : Program → Prop}
    (start : invariant before)
    (each : ∀ entry, value = some entry →
      Ends (action entry) before (fun _ after => invariant after) allowed) :
    Ends (value.mapM action) before (fun _ after => invariant after) allowed := by
  cases value with
  | none => exact pure start
  | some entry => exact map (each entry rfl)

end Ends

end Edit

/-! ## What checks find -/

/-- A check fails only with faults that are allowed. -/
def FailsWith (allowed : Fault → Prop) (check : Except Fault α) : Prop :=
  ∀ fault, check = .error fault → allowed fault

namespace FailsWith

variable {α β : Type} {allowed : Fault → Prop}

theorem ok {value : α} : FailsWith allowed (.ok value) := by
  intro fault failed
  cases failed

theorem error {fault : Fault} (faulty : allowed fault) : FailsWith allowed (.error fault : Except Fault α) := by
  intro other failed
  cases failed
  exact faulty

theorem bind {check : Except Fault α} {next : α → Except Fault β} (first : FailsWith allowed check)
    (second : ∀ value, FailsWith allowed (next value)) : FailsWith allowed (check >>= next) := by
  cases check with
  | error fault => exact error (first fault rfl)
  | ok value => exact second value

theorem refuse {condition : Prop} [Decidable condition] {fault : Fault} (faulty : allowed fault) :
    FailsWith allowed (ClassImage.refuse condition fault : Except Fault Unit) := by
  unfold ClassImage.refuse
  split
  · exact error faulty
  · exact ok

theorem imp {check : Except Fault α} {wider : Fault → Prop} (fails : FailsWith allowed check)
    (faults : ∀ fault, allowed fault → wider fault) : FailsWith wider check :=
  fun fault failed => faults fault (fails fault failed)

theorem forM {list : List β} {action : β → Except Fault Unit}
    (each : ∀ entry ∈ list, FailsWith allowed (action entry)) : FailsWith allowed (list.forM action) := by
  induction list with
  | nil => exact ok
  | cons entry rest ih =>
    rw [List.forall_mem_cons] at each
    change FailsWith allowed (action entry >>= fun _ => rest.forM action)
    exact each.1.bind fun _ => ih each.2

end FailsWith

open Fault

theorem fails_parse (text : String) : FailsWith Flawed (Descriptor.parse text) := by
  unfold Descriptor.parse
  split
  · exact .ok
  · exact .error (flawed_flaw _)

namespace CallRequest

theorem fails_checkKinds (method : String) (position : Nat) (arguments : List Local) (kinds : List ValueKind) :
    FailsWith Clashing (checkKinds method position arguments kinds) := by
  fun_induction checkKinds method position arguments kinds with
  | case1 position given arguments expected kinds fits ih => exact ih
  | case2 => exact .error (flawed_flaw _).clashing
  | case3 => exact .ok

theorem fails_checkResult (method : String) (produced : Option ValueKind) (result : Option Local) :
    FailsWith Clashing (checkResult method produced result) := by
  unfold checkResult
  split
  · exact .ok
  · exact .error (clashing_conflict _)
  · exact .error (clashing_conflict _)
  · split
    · exact .ok
    · exact .error (clashing_conflict _)

theorem fails_build (kind : CallKind) (method : MethodId) (arguments : List Local) (result : Option Local)
    (program : Program) :
    FailsWith Clashing ((CallRequest.mk kind (some method) arguments result).build program) := by
  refine (FailsWith.refuse (flawed_flaw _).clashing).bind fun _ => ?_
  refine (FailsWith.refuse (clashing_conflict _)).bind fun _ => ?_
  refine (FailsWith.refuse (flawed_flaw _).clashing).bind fun _ => ?_
  refine (fails_checkKinds _ _ _ _).bind fun _ => ?_
  exact (fails_checkResult _ _ _).bind fun _ => .ok

end CallRequest

namespace AccessRequest

theorem fails_checkObject (field : String) (marker : Marker) (object : Option Local) :
    FailsWith Clashing (checkObject field marker object) := by
  unfold checkObject
  split
  · exact .error (flawed_flaw _).clashing
  · exact .error (flawed_flaw _).clashing
  · split
    · exact .ok
    · exact .error (flawed_flaw _).clashing
  · exact .ok

theorem fails_build (kind : AccessKind) (field : FieldId) (value : Local) (object : Option Local)
    (program : Program) :
    FailsWith Clashing ((AccessRequest.mk kind (some field) (some value) object).build program) := by
  refine (fails_checkObject _ _ _).bind fun _ => ?_
  split
  · exact (FailsWith.refuse (clashing_conflict _)).bind fun _ => .ok
  · exact .ok

end AccessRequest

namespace Program

variable (program : Program)

/-- An instruction that does not fit implies another marker for its member than the known or assumed one. -/
theorem fails_checkShape (assumed : Option (Symbol × Bool)) (instruction : Instruction) :
    FailsWith (fun fault => ∃ symbol static, program.memberShape? instruction = some (symbol, !static) ∧
      program.markerAssuming assumed symbol = some static ∧
      fault = .conflict (.use (program.symbolText symbol) static (!static)))
      (program.checkShape assumed instruction) := by
  unfold checkShape
  split
  · exact .ok
  · rename_i symbol used shape
    split
    · exact .ok
    · rename_i known marked
      split
      · exact .ok
      · rename_i apart
        obtain rfl : used = !known := Bool.eq_not.mpr fun same => apart same.symm
        exact .error ⟨symbol, known, shape, marked, rfl⟩

theorem fails_checkUses (symbol : Symbol) (static : Bool) :
    FailsWith (fun fault => ∃ use ∈ program.useList symbol, ∃ instruction,
      program.instruction? use.instruction = some instruction ∧
      program.checkShape (some (symbol, static)) instruction = .error fault)
      (program.checkUses symbol static) := by
  refine .forM fun use listed => ?_
  split
  · rename_i instruction attached
    exact fun fault failed => ⟨use, listed, instruction, attached, failed⟩
  · exact .ok

theorem clashing_checkShape (assumed : Option (Symbol × Bool)) (instruction : Instruction) :
    FailsWith Clashing (program.checkShape assumed instruction) := by
  refine (program.fails_checkShape assumed instruction).imp ?_
  rintro _ ⟨symbol, static, -, -, rfl⟩
  exact clashing_conflict _

theorem clashing_checkUses (symbol : Symbol) (static : Bool) :
    FailsWith Clashing (program.checkUses symbol static) := by
  refine (program.fails_checkUses symbol static).imp ?_
  rintro fault ⟨_, -, instruction, -, failed⟩
  exact program.clashing_checkShape _ instruction fault failed

theorem fails_bodyLength (method : MethodId) : FailsWith Flawed (program.bodyLength method) := by
  unfold bodyLength
  split
  · exact .ok
  · exact .error (flawed_flaw _)

theorem fails_checkLocals (method : MethodId) (instruction : Instruction) :
    FailsWith Flawed (program.checkLocals method instruction) := by
  refine .forM fun slot _ => ?_
  split
  · split
    · exact .ok
    · exact .error (flawed_flaw _)
  · exact .ok

end Program

/-! ## How requests end -/

namespace Program

/-- Types may be added or change; members stay as they are. -/
structure SameMembers (before after : Program) : Prop extends before.Preserves after where
  methods : after.methodKey? = before.methodKey?
  fields : after.fieldKey? = before.fieldKey?
  markers : after.marker = before.marker

theorem SameMembers.refl (program : Program) : program.SameMembers program :=
  ⟨⟨.refl _, fun indexed => indexed⟩, rfl, rfl, rfl⟩

theorem SameMembers.trans {first second third : Program} (left : first.SameMembers second)
    (right : second.SameMembers third) : first.SameMembers third :=
  ⟨⟨left.more.trans right.more, right.indexed ∘ left.indexed⟩, right.methods.trans left.methods,
    right.fields.trans left.fields, right.markers.trans left.markers⟩

theorem SameKeys.sameMembers {before after : Program} (same : before.SameKeys after)
    (markers : after.marker = before.marker) : before.SameMembers after :=
  ⟨same.preserves, same.methods, same.fields, markers⟩

theorem SameMembers.hasMember {before after : Program} (same : before.SameMembers after) :
    after.HasMember = before.HasMember := by
  funext symbol
  cases symbol with
  | type => rfl
  | method id => rw [HasMember, HasMember, same.methods]
  | field id => rw [HasMember, HasMember, same.fields]

end Program

namespace Edit

open Program

variable {before : Program}

theorem Ends.check_any {test : Program → Except Fault α} {allowed : Fault → Prop}
    (fails : FailsWith allowed (test before)) :
    Ends (Edit.check test) before (fun value after => after = before ∧ test before = .ok value) allowed :=
  .check (fun _ passed => ⟨rfl, passed⟩) fails

theorem Ends.since {edit : Edit α} {allowed : Fault → Prop} {earlier : Program}
    (ends : Ends edit before (fun _ after => before.SameMembers after) allowed)
    (same : earlier.SameMembers before) :
    Ends edit before (fun _ after => earlier.SameMembers after) allowed :=
  ends.imp (fun _ _ later => same.trans later) fun _ faulty => faulty

theorem ends_type (descriptor : Descriptor) :
    Ends (Edit.type descriptor) before (fun _ after => before.SameMembers after) Flawed := by
  refine .refuse_bind (fun _ => flawed_flaw _) fun _ => .get_bind ?_
  cases found : before.findType? descriptor with
  | some id => exact .pure (.refl before)
  | none =>
    have more := extends_addType before descriptor
    exact .set_bind (.pure ⟨⟨more, fun indexed => indexed.addType found⟩, rfl, rfl, rfl⟩)

theorem ends_define (descriptor : Descriptor) (header : Header) :
    Ends (Edit.define descriptor header) before (fun _ after => before.SameMembers after) fun fault =>
      fault.Flawed ∨ ∃ type, fault = .duplicateType type := by
  unfold Edit.define
  cases descriptor with
  | object name =>
    apply ((ends_type (.object name)).widen fun _ flawed => .inl flawed).bind
    intro id middle same
    refine .get_bind (.refuse_bind (fun _ => .inr ⟨_, rfl⟩) fun _ => .set_bind (.pure ?_))
    exact same.trans ((sameKeys_addDefinition middle id header).sameMembers rfl)
  | _ => exact .throw (.inl (flawed_flaw _))

theorem ends_requireDefined (owner : TypeId) :
    Ends (requireDefined owner) before (fun _ after => after = before) Flawed :=
  .get_bind (.refuse (fun _ => flawed_flaw _) fun _ => rfl)

theorem ends_refine (symbol : Symbol) (hint : Marker) :
    Ends (Edit.refine symbol hint) before (fun _ _ => True) Clashing := by
  unfold Edit.refine
  refine .get_bind ?_
  cases before.marker symbol with
  | none =>
    cases hint with
    | none => exact .pure trivial
    | some static => exact (Ends.check_any (before.clashing_checkUses symbol static)).bind fun _ _ _ => trivial
  | some known =>
    cases hint with
    | none => exact .pure trivial
    | some requested =>
      simp only
      exact .refuse (fun _ => clashing_conflict _) fun _ => trivial

theorem ends_method (owner : TypeId) (name : String) (signature : Signature) (hint : Marker) :
    Ends (Edit.method owner name signature hint) before (fun _ _ => True) Clashing := by
  refine .get_bind ?_
  cases before.findMethod? owner name signature with
  | some id => exact (ends_refine _ _).bind fun _ _ _ => .pure trivial
  | none => exact .set_bind (.pure trivial)

theorem ends_field (owner : TypeId) (name : String) (type : Descriptor) (hint : Marker) :
    Ends (Edit.field owner name type hint) before (fun _ _ => True) Clashing := by
  refine .refuse_bind (fun _ => (flawed_flaw _).clashing) fun _ => .get_bind ?_
  cases before.findField? owner name type with
  | some id => exact (ends_refine _ _).bind fun _ _ _ => .pure trivial
  | none => exact .set_bind (.pure trivial)

theorem ends_createBody (method : MethodId) :
    Ends (Edit.createBody method) before (fun _ _ => True) Clashing := by
  unfold Edit.createBody
  refine .get_bind ?_
  simp only
  split
  · exact .throw (flawed_flaw _).clashing
  · refine .refuse_bind (fun _ => clashing_conflict _) fun _ => ?_
    exact .refuse_bind (fun _ => (flawed_flaw _).clashing) fun _ => .set_bind (.pure trivial)

/-- An instruction whose operands fit is attached, or something is missing or misplaced. -/
theorem ends_appendReserved {method : MethodId} {id : InstructionId} {instruction : Instruction}
    (fits : before.Fits instruction) :
    Ends (Edit.appendReserved method id instruction) before (fun _ _ => True) Flawed := by
  have shape : before.checkShape none instruction = .ok () := checkShape_ok.mpr fits
  refine (Ends.check_any (before.fails_bodyLength method)).bind ?_
  rintro length middle ⟨rfl, -⟩
  refine (Ends.check_any (middle.fails_checkLocals method instruction)).bind ?_
  rintro _ middle ⟨rfl, -⟩
  have checked : FailsWith Flawed (middle.checkShape none instruction) := by
    rw [shape]
    exact .ok
  exact (Ends.check_any checked).bind fun _ _ _ => trivial

end Edit

end ClassImage
