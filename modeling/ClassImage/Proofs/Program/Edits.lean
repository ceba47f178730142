import ClassImage.Proofs.Program.Code
import ClassImage.Proofs.Program.Reaches

/-!
Every edit of a program is a sequence of steps, and so is what a failed edit
leaves behind. Finding and creating symbols is growth; definitions, declarations
and edits of bodies take the other steps.
-/

namespace ClassImage

namespace Program

/-- The symbol is a method or a field that the program knows. -/
def HasMember (program : Program) : Symbol → Prop
  | .type _ => False
  | .method id => (program.methodKey? id).isSome
  | .field id => (program.fieldKey? id).isSome

theorem not_hasMember_empty (symbol : Symbol) : ¬({} : Program).HasMember symbol := by
  cases symbol with
  | type => exact id
  | method id => simp [HasMember, methodKey?]
  | field id => simp [HasMember, fieldKey?]

theorem marker_setMarker (program : Program) (symbol other : Symbol) (static : Bool) :
    (program.setMarker symbol static).marker other = some static ∧ other = symbol ∨
      (program.setMarker symbol static).marker other = program.marker other ∧
        (other = symbol → ¬program.HasMember symbol) := by
  cases symbol with
  | type id => exact .inr ⟨rfl, fun _ => False.elim⟩
  | method id =>
    cases other with
    | method other =>
      simp only [marker, methodAt, setMarker, Array.getD_modify]
      by_cases here : id.index = other.index ∧ other.index < program.methods.size
      · rw [if_pos here]
        exact .inl ⟨rfl, congrArg Symbol.method (congrArg MethodId.mk here.1.symm)⟩
      · rw [if_neg here]
        refine .inr ⟨rfl, ?_⟩
        intro same member
        cases same
        exact here ⟨rfl, methodKey?_isSome.mp member⟩
    | _ => exact .inr ⟨rfl, fun same => by cases same⟩
  | field id =>
    cases other with
    | field other =>
      simp only [marker, fieldAt, setMarker, Array.getD_modify]
      by_cases here : id.index = other.index ∧ other.index < program.fields.size
      · rw [if_pos here]
        exact .inl ⟨rfl, congrArg Symbol.field (congrArg FieldId.mk here.1.symm)⟩
      · rw [if_neg here]
        refine .inr ⟨rfl, ?_⟩
        intro same member
        cases same
        exact here ⟨rfl, fieldKey?_isSome.mp member⟩
    | _ => exact .inr ⟨rfl, fun same => by cases same⟩

theorem hasMember_of_marker {program : Program} {symbol : Symbol} {static : Bool}
    (known : program.marker symbol = some static) : program.HasMember symbol := by
  cases symbol with
  | type => cases known
  | method id =>
    apply methodKey?_isSome.mpr
    by_contra outside
    rw [marker, methodAt, Array.getD_eq_getD_getElem?, Array.getElem?_eq_none (by omega)] at known
    cases known
  | field id =>
    apply fieldKey?_isSome.mpr
    by_contra outside
    rw [marker, fieldAt, Array.getD_eq_getD_getElem?, Array.getElem?_eq_none (by omega)] at known
    cases known

/-- The marker of a known member stays, or becomes known after its uses were checked. -/
theorem Growth.marker_cases {before after : Program} (growth : Growth before after) {symbol : Symbol}
    (member : before.HasMember symbol) :
    after.marker symbol = before.marker symbol ∨
      ∃ static, before.marker symbol = none ∧ before.checkUses symbol static = .ok () ∧
        after.marker symbol = some static := by
  cases growth with
  | @marker other static unknown checked =>
    rcases marker_setMarker before other symbol static with ⟨marked, rfl⟩ | ⟨same, -⟩
    · exact .inr ⟨static, unknown, checked, marked⟩
    · exact .inl same
  | method =>
    left
    cases symbol with
    | method id =>
      have inside := methodKey?_isSome.mp member
      simp only [Program.marker, methodAt, addMethod, Array.getD_push]
      rw [if_neg (by omega)]
    | _ => rfl
  | field =>
    left
    cases symbol with
    | field id =>
      have inside := fieldKey?_isSome.mp member
      simp only [Program.marker, fieldAt, addField, Array.getD_push]
      rw [if_neg (by omega)]
    | _ => rfl
  | _ => exact .inl rfl

theorem marker_listMethod (program : Program) (owner : TypeId) (id : MethodId) (access : UInt32) :
    (program.listMethod owner id access).marker = program.marker := by
  funext symbol
  cases symbol with
  | method other =>
    simp only [marker, methodAt, listMethod, modifyDefinition, Array.getD_modify]
    split <;> rfl
  | _ => rfl

theorem marker_listField (program : Program) (owner : TypeId) (id : FieldId) (access : UInt32) :
    (program.listField owner id access).marker = program.marker := by
  funext symbol
  cases symbol with
  | field other =>
    simp only [marker, fieldAt, listField, modifyDefinition, Array.getD_modify]
    split <;> rfl
  | _ => rfl

theorem marker_addBody (program : Program) (method : MethodId) (parameters : List Local) :
    (program.addBody method parameters).marker = program.marker := by
  funext symbol
  cases symbol with
  | method other =>
    simp only [marker, methodAt, addBody, Array.getD_modify]
    split <;> rfl
  | _ => rfl

/-- Only growth touches markers. -/
theorem Step.growth_or_marker {before after : Program} (step : Step before after) :
    Growth before after ∨ after.marker = before.marker := by
  cases step with
  | grow growth => exact .inl growth
  | define => exact .inr rfl
  | declareMethod => exact .inr (marker_listMethod _ _ _ _)
  | declareField => exact .inr (marker_listField _ _ _ _)
  | body => exact .inr (marker_addBody _ _ _)
  | handles => exact .inr rfl
  | attach => exact .inr (marker_attach _ _ _ _ _)
  | detach => exact .inr (marker_detach _ _ _)
  | retarget =>
    rw [retarget_eq]
    exact .inr rfl

/-- A known marker never changes. -/
theorem Steps.marker_kept {before after : Program} (steps : Steps before after) {symbol : Symbol}
    {static : Bool} (known : before.marker symbol = some static) :
    after.marker symbol = some static := by
  induction steps with
  | refl => exact known
  | @tail middle last _ step ih =>
    rcases step.growth_or_marker with growth | same
    · rcases growth.marker_cases (hasMember_of_marker ih) with same | ⟨_, unknown, -⟩
      · rw [same, ih]
      · rw [unknown] at ih
        cases ih
    · rw [same, ih]

/-- Single edits of code, with what they check first. The instruction is the one that joins a body. -/
inductive Rewrite : Option Instruction → Program → Program → Prop
  | insert {program : Program} {method : MethodId} {body : Body} {position : Nat}
      {instruction : Instruction} (here : program.body? method = some body)
      (place : position ≤ body.instructions.size)
      (locals : program.checkLocals method instruction = .ok ())
      (target : program.checkTarget method instruction = .ok ())
      (fits : program.Fits instruction) :
      Rewrite (some instruction) program
        ((program.addHandles 1).attach method position ⟨program.code.size⟩ instruction)
  | remove {program : Program} {id : InstructionId} {slot : Slot}
      (attached : program.slot? id = some slot) (free : program.branchesTo slot.method id = []) :
      Rewrite none program (program.detach id slot)
  | replace {program : Program} {old : InstructionId} {slot : Slot} {body : Body} {position : Nat}
      {instruction : Instruction} (attached : program.slot? old = some slot)
      (here : program.body? slot.method = some body)
      (found : body.instructions.idxOf? old = some position)
      (locals : program.checkLocals slot.method instruction = .ok ())
      (target : program.checkTarget slot.method instruction = .ok ())
      (fits : program.Fits instruction) :
      Rewrite (some instruction) program
        ((((program.addHandles 1).detach old slot).attach slot.method position ⟨program.code.size⟩
          instruction).retarget (program.branchesTo slot.method old ++ [⟨program.code.size⟩]) old
          ⟨program.code.size⟩)

/-- The program with an instruction in the place of another one. -/
def swap (program : Program) (old : InstructionId) (slot : Slot) (position : Nat) (instruction : Instruction) :
    Program :=
  (((program.addHandles 1).detach old slot).attach slot.method position ⟨program.code.size⟩
    instruction).retarget (program.branchesTo slot.method old ++ [⟨program.code.size⟩]) old ⟨program.code.size⟩

/-- A handle that was just issued comes after all that are in use. -/
theorem slot?_addHandles_lt {program : Program} {count : Nat} {other : InstructionId} {slot : Slot}
    (attached : (program.addHandles count).slot? other = some slot) :
    other.index < program.code.size := by
  rw [slot?_addHandles] at attached
  exact slot?_lt attached

theorem size_addHandles (program : Program) (count : Nat) :
    (program.addHandles count).code.size = program.code.size + count := by
  simp [addHandles]

theorem size_detach (program : Program) (id : InstructionId) (slot : Slot) :
    (program.detach id slot).code.size = program.code.size :=
  Array.size_setIfInBounds

theorem Rewrite.sameKeys {instruction : Option Instruction} {before after : Program}
    (rewrite : Rewrite instruction before after) : before.SameKeys after := by
  cases rewrite with
  | insert => exact (sameKeys_addHandles _ _).trans (sameKeys_attach _ _ _ _ _)
  | remove => exact sameKeys_detach _ _ _
  | @replace _ old slot =>
    have detached := (sameKeys_addHandles before 1).trans (sameKeys_detach _ old slot)
    exact (detached.trans (sameKeys_attach _ _ _ _ _)).trans (sameKeys_retarget _ _ _ _)

theorem Rewrite.indexed {instruction : Option Instruction} {before after : Program}
    (rewrite : Rewrite instruction before after) (indexed : before.Indexed) : after.Indexed :=
  indexed.of_sameKeys rewrite.sameKeys

theorem Rewrite.steps {instruction : Option Instruction} {before after : Program}
    (rewrite : Rewrite instruction before after)
    (admitted : ∀ joining, instruction = some joining → before.Admits joining) :
    Steps before after := by
  cases rewrite with
  | insert here place locals target fits =>
    have issued : before.code.size < (before.addHandles 1).code.size := by
      rw [size_addHandles]
      omega
    have attached : Step (before.addHandles 1) _ := .attach ⟨before.code.size⟩ here place issued
      (fun _ _ => slot?_addHandles_lt) (admitted _ rfl) fits locals
    exact .trans (.single .handles) (.single attached)
  | remove attached => exact .single (.detach attached)
  | @replace _ old slot body position joining attached here found locals target fits =>
    have issued : before.code.size < ((before.addHandles 1).detach old slot).code.size := by
      rw [size_detach, size_addHandles]
      omega
    have opened : ((before.addHandles 1).detach old slot).body? slot.method =
        some { body with instructions := body.instructions.filter (· ≠ old) } := by
      rw [body?_detach, if_pos rfl]
      exact congrArg (Option.map _) here
    have detached : Step (before.addHandles 1) _ := .detach (slot?_addHandles before 1 ▸ attached)
    have latest : ∀ other slot', ((before.addHandles 1).detach old slot).slot? other = some slot' →
        other.index < before.code.size := by
      intro other slot' there
      rw [slot?_detach] at there
      split at there
      · cases there
      · exact slot?_addHandles_lt there
    have more := (Step.handles : Step before (before.addHandles 1)).extends.trans detached.extends
    have renewed := Step.attach ⟨before.code.size⟩ opened (Array.idxOf?_le_filter found) issued latest
      (more.admits (admitted _ rfl))
      (fits_of_marker more (marker_detach _ _ _) (admitted _ rfl) fits) locals
    exact .trans (.single .handles) (.trans (.single detached) (.trans (.single renewed)
      (.single .retarget)))

end Program

namespace Edit

open Program

variable {before : Program} {step : Program → Program → Prop}

theorem reaches_refine {symbol : Symbol} {hint : Marker} (member : before.HasMember symbol)
    (mark : ∀ static, Growth before (before.setMarker symbol static) →
      step before (before.setMarker symbol static)) :
    Reaches step (refine symbol hint) before fun _ after =>
      Growths before after ∧ ∀ static, hint = some static → after.marker symbol = some static := by
  unfold refine
  refine .get_bind ?_
  rcases hint with _ | static
  · exact .pure ⟨.refl, by simp⟩
  · rcases marker : before.marker symbol with _ | known
    · simp only
      refine .check_bind ?_
      intro _ fits
      have growth := Growth.marker marker fits
      refine .leave growth.indexed (.single (mark static growth)) ?_
      intro _ _
      refine ⟨.single growth, ?_⟩
      intro other same
      cases same
      rcases marker_setMarker before symbol symbol static with ⟨found, -⟩ | ⟨-, absent⟩
      · exact found
      · exact absurd member (absent rfl)
    · simp only
      refine .refuse ?_
      intro agree
      refine ⟨.refl, ?_⟩
      intro other same
      cases same
      rw [marker, not_not.mp agree]

theorem reaches_type {descriptor : Descriptor}
    (add : Growth before (before.addType descriptor) → step before (before.addType descriptor)) :
    Reaches step (type descriptor) before fun id after =>
      Growths before after ∧ after.descriptor? id = some descriptor := by
  unfold type
  refine .refuse_bind ?_
  intro reference
  refine .get_bind ?_
  cases found : before.findType? descriptor with
  | some id => exact .trust fun indexed => .pure ⟨.refl, (indexed.types _ _).mp found⟩
  | none =>
    have growth := Growth.type (not_not.mp reference) found
    refine .set_bind growth.indexed (.single (add growth)) (.pure ⟨.single growth, ?_⟩)
    rw [descriptor?_addType, if_pos rfl]

theorem reaches_setInterface {type : TypeId} {interface : Bool}
    (say : Growth before (before.setExternal type interface) →
      step before (before.setExternal type interface)) :
    Reaches step (setInterface type interface) before fun _ after =>
      after = if (before.typeAt type).isDefined then before
        else before.setExternal type interface := by
  unfold setInterface
  refine .get_bind ?_
  cases status : (before.typeAt type).status with
  | external known =>
    have external : ¬(before.typeAt type).isDefined := by
      simp [TypeEntry.isDefined, TypeEntry.definition?, status]
    simp only [status]
    have growth : Growth before (before.setExternal type interface) := .interface external
    exact .leave growth.indexed (.single (say growth)) fun _ _ => (if_neg external).symm
  | defined definition =>
    have defined : (before.typeAt type).isDefined := by
      simp [TypeEntry.isDefined, TypeEntry.definition?, status]
    simp only [status]
    exact .refuse fun _ => (if_pos defined).symm

theorem reaches_method {owner : TypeId} {name : String} {signature : Signature} {hint : Marker}
    (known : (before.descriptor? owner).isSome)
    (add : Growth before (before.addMethod owner name signature hint) →
      step before (before.addMethod owner name signature hint))
    (mark : ∀ symbol static, Growth before (before.setMarker symbol static) →
      step before (before.setMarker symbol static)) :
    Reaches step (method owner name signature hint) before fun id after =>
      Growths before after ∧ after.methodKey? id = some (owner, name, signature) ∧
        ∀ static, hint = some static → (after.methodAt id).marker = some static := by
  unfold method
  refine .get_bind ?_
  cases found : before.findMethod? owner name signature with
  | some id =>
    refine .trust fun indexed => ?_
    have key := (indexed.methods _ _).mp found
    have member : before.HasMember (.method id) := Option.isSome_iff_exists.mpr ⟨_, key⟩
    apply (reaches_refine member (mark _)).bind
    rintro _ after - ⟨grown, met⟩
    exact .pure ⟨grown, grown.extends.methods key, met⟩
  | none =>
    have growth : Growth before (before.addMethod owner name signature hint) := .method known found
    refine .set_bind growth.indexed (.single (add growth)) (.pure ⟨.single growth, ?_, ?_⟩)
    · rw [methodKey?_addMethod, if_pos rfl]
    · rintro static rfl
      simp [methodAt, addMethod]

theorem reaches_field {owner : TypeId} {name : String} {type : Descriptor} {hint : Marker}
    (known : (before.descriptor? owner).isSome)
    (add : Growth before (before.addField owner name type hint) →
      step before (before.addField owner name type hint))
    (mark : ∀ symbol static, Growth before (before.setMarker symbol static) →
      step before (before.setMarker symbol static)) :
    Reaches step (field owner name type hint) before fun id after =>
      Growths before after ∧ after.fieldKey? id = some (owner, name, type) ∧
        ∀ static, hint = some static → (after.fieldAt id).marker = some static := by
  unfold field
  refine .refuse_bind ?_
  intro value
  refine .get_bind ?_
  cases found : before.findField? owner name type with
  | some id =>
    refine .trust fun indexed => ?_
    have key := (indexed.fields _ _).mp found
    have member : before.HasMember (.field id) := Option.isSome_iff_exists.mpr ⟨_, key⟩
    apply (reaches_refine member (mark _)).bind
    rintro _ after - ⟨grown, met⟩
    exact .pure ⟨grown, grown.extends.fields key, met⟩
  | none =>
    have growth : Growth before (before.addField owner name type hint) := .field known value found
    refine .set_bind growth.indexed (.single (add growth)) (.pure ⟨.single growth, ?_, ?_⟩)
    · rw [fieldKey?_addField, if_pos rfl]
    · rintro static rfl
      simp [fieldAt, addField]

theorem reaches_freshLocal {kind : ValueKind}
    (add : Growth before before.addLocal → step before before.addLocal) :
    Reaches step (freshLocal kind) before fun slot after =>
      slot = ⟨before.owners.size, kind⟩ ∧ after = before.addLocal := by
  refine .leave Growth.slot.indexed (.single (add .slot)) ?_
  intro slot same
  cases same
  exact ⟨rfl, rfl⟩

theorem reaches_define {descriptor : Descriptor} {header : Header} (known : before.Knows header)
    (add : Growth before (before.addType descriptor) → step before (before.addType descriptor))
    (define : ∀ {middle id}, Relation.ReflTransGen step before middle →
      middle.descriptor? id = some descriptor → ¬(middle.typeAt id).isDefined →
      Step middle (middle.addDefinition id header) →
      step middle (middle.addDefinition id header)) :
    Reaches step (Edit.define descriptor header) before fun id after =>
      after.descriptor? id = some descriptor ∧ ∃ middle, Relation.ReflTransGen step before middle ∧
        middle.descriptor? id = some descriptor ∧ after = middle.addDefinition id header := by
  unfold Edit.define
  cases descriptor with
  | object name =>
    apply (reaches_type add).bind
    rintro id middle moved ⟨grown, found⟩
    refine .get_bind (.refuse_bind ?_)
    intro external
    have defined := Step.define found external (grown.extends.knowsHeader known)
    exact .set_bind defined.indexed (.single (define moved found external defined))
      (.pure ⟨defined.extends.types found, middle, moved, found, rfl⟩)
  | _ => exact .throw

theorem requireDefined_bind {owner : TypeId} {next : Unit → Edit α} {goal : α → Program → Prop}
    (second : (before.typeAt owner).isDefined → Reaches step (next ()) before goal) :
    Reaches step (requireDefined owner >>= next) before goal := by
  have required : Reaches step (requireDefined owner) before fun _ after =>
      after = before ∧ (before.typeAt owner).isDefined :=
    .get_bind (.refuse fun defined => ⟨rfl, not_not.mp defined⟩)
  apply required.bind
  rintro _ middle - ⟨rfl, defined⟩
  exact second defined

theorem reaches_declareMethod {owner : TypeId} {name : String} {signature : Signature}
    {access : UInt32} (known : (before.descriptor? owner).isSome)
    (add : Growth before (before.addMethod owner name signature
        (some (Access.isSet access Access.static))) →
      step before (before.addMethod owner name signature (some (Access.isSet access Access.static))))
    (mark : ∀ symbol static, Growth before (before.setMarker symbol static) →
      step before (before.setMarker symbol static))
    (declare : ∀ {middle id}, Step middle (middle.listMethod owner id access) →
      step middle (middle.listMethod owner id access)) :
    Reaches step (declareMethod owner name signature access) before fun id after =>
      after.methodKey? id = some (owner, name, signature) := by
  unfold declareMethod
  apply requireDefined_bind
  intro defined
  apply (reaches_method known add mark).bind
  rintro id middle - ⟨grown, key, marked⟩
  refine .get_bind (.refuse_bind ?_)
  intro fresh
  have fresh := Option.not_isSome_iff_eq_none.mp fresh
  have declared := Step.declareMethod key (grown.isDefined defined) fresh (marked _ rfl)
  exact .set_bind declared.indexed (.single (declare declared)) (.pure (declared.extends.methods key))

theorem reaches_declareField {owner : TypeId} {name : String} {type : Descriptor}
    {access : UInt32} (known : (before.descriptor? owner).isSome)
    (add : Growth before (before.addField owner name type
        (some (Access.isSet access Access.static))) →
      step before (before.addField owner name type (some (Access.isSet access Access.static))))
    (mark : ∀ symbol static, Growth before (before.setMarker symbol static) →
      step before (before.setMarker symbol static))
    (declare : ∀ {middle id}, Step middle (middle.listField owner id access) →
      step middle (middle.listField owner id access)) :
    Reaches step (declareField owner name type access) before fun id after =>
      after.fieldKey? id = some (owner, name, type) := by
  unfold declareField
  apply requireDefined_bind
  intro defined
  apply (reaches_field known add mark).bind
  rintro id middle - ⟨grown, key, marked⟩
  refine .get_bind (.refuse_bind ?_)
  intro fresh
  have fresh := Option.not_isSome_iff_eq_none.mp fresh
  have declared := Step.declareField key (grown.isDefined defined) fresh (marked _ rfl)
  exact .set_bind declared.indexed (.single (declare declared)) (.pure (declared.extends.fields key))

theorem reaches_createBody {method : MethodId}
    (enter : ∀ {parameters}, Step before (before.addBody method parameters) →
      step before (before.addBody method parameters)) :
    Reaches step (createBody method) before fun parameters after =>
      after = before.addBody method parameters ∧ (before.methodAt method).declaration.isSome ∧
        before.body? method = none ∧ ∃ kinds, parameters = before.newLocals kinds := by
  unfold createBody
  refine .get_bind ?_
  cases declared : (before.methodAt method).declaration with
  | none =>
    simp only [declared]
    exact .throw
  | some access =>
    simp only [declared]
    refine .refuse_bind ?_
    intro coded
    refine .refuse_bind ?_
    intro fresh
    have fresh := Option.not_isSome_iff_eq_none.mp fresh
    have opened := Step.body declared coded fresh
    exact .set_bind opened.indexed (.single (enter opened)) (.pure ⟨rfl, rfl, fresh, _, rfl⟩)

theorem reaches_call {request : CallRequest}
    (known : ∀ method, request.method = some method → (before.methodKey? method).isSome) :
    Reaches step (Edit.check request.build) before fun call after =>
      after = before ∧ request = ⟨call.kind, some call.method, call.arguments, call.result⟩ ∧
        after.Admits (.invoke call) := by
  refine .leave id .refl ?_
  intro call built
  obtain ⟨rfl, owner, suits, -⟩ := CallRequest.build_ok.mp built
  obtain ⟨⟨holder, name, signature⟩, key⟩ := Option.isSome_iff_exists.mp (known _ rfl)
  obtain ⟨same, rfl, rfl⟩ := methodKey?_methodAt key
  refine ⟨rfl, rfl, _, _, ?_, suits⟩
  rw [owner, same]
  exact key

theorem reaches_access {request : AccessRequest}
    (known : ∀ field, request.field = some field → (before.fieldKey? field).isSome) :
    Reaches step (Edit.check request.build) before fun use after =>
      after = before ∧ request = ⟨use.kind, some use.field, some use.value, use.object⟩ ∧
        after.Admits (.access use) := by
  refine .leave id .refl ?_
  intro use built
  obtain ⟨rfl, suits, -⟩ := AccessRequest.build_ok.mp built
  obtain ⟨⟨owner, name, type⟩, key⟩ := Option.isSome_iff_exists.mp (known _ rfl)
  obtain ⟨rfl, rfl, rfl⟩ := fieldKey?_fieldAt key
  exact ⟨rfl, rfl, _, _, _, key, suits⟩

theorem bodyLength_ok {method : MethodId} {length : Nat} (found : before.bodyLength method = .ok length) :
    ∃ body, before.body? method = some body ∧ body.instructions.size = length := by
  unfold bodyLength at found
  split at found
  · rename_i body here
    cases found
    exact ⟨body, here, rfl⟩
  · cases found

theorem locate_ok {id : InstructionId} {method : MethodId} {position : Nat}
    (found : before.locate id = .ok (method, position)) :
    ∃ body, before.holder? id = some method ∧ before.body? method = some body ∧
      body.instructions.idxOf? id = some position := by
  unfold locate at found
  simp only at found
  split at found
  · rename_i place here
    cases found
    simp only [Option.bind_eq_bind, Option.bind_eq_some_iff, Option.pure_def, Option.some.injEq,
      Prod.mk.injEq] at here
    obtain ⟨_, holder, body, here, _, place, rfl, rfl⟩ := here
    exact ⟨body, holder, here, place⟩
  · cases found

theorem checkInstruction_ok {method : MethodId} {instruction : Instruction}
    (checked : before.checkInstruction method instruction = .ok ()) :
    (∃ body, before.body? method = some body) ∧ before.checkLocals method instruction = .ok () ∧
      before.checkTarget method instruction = .ok () ∧ before.Fits instruction := by
  unfold checkInstruction at checked
  simp only [Except.bind_ok] at checked
  obtain ⟨length, found, _, locals, _, target, shape⟩ := checked
  obtain ⟨body, here, -⟩ := bodyLength_ok found
  exact ⟨⟨body, here⟩, locals, target, fun symbol used => checkShape_ok.mp shape symbol used⟩

section Code

variable {method : MethodId} {instruction : Instruction}
  (edit : ∀ {after}, Rewrite (some instruction) before after → step before after)

include edit

theorem reaches_insert {position : Nat}
    (place : ∀ body, before.body? method = some body → position ≤ body.instructions.size) :
    Reaches step (insert method position instruction) before fun _ _ => True := by
  refine .check_bind ?_
  intro _ checked
  obtain ⟨⟨body, here⟩, locals, target, fits⟩ := checkInstruction_ok checked
  have inserted := Rewrite.insert here (place body here) locals target fits
  exact .leave inserted.indexed (.single (edit inserted)) fun _ _ => trivial

theorem reaches_insertBefore {anchor : InstructionId} :
    Reaches step (insertBefore anchor instruction) before fun _ _ => True := by
  refine .check_bind ?_
  rintro ⟨method, position⟩ located
  obtain ⟨body, -, here, found⟩ := locate_ok located
  refine reaches_insert edit ?_
  intro other same
  cases here.symm.trans same
  exact (Array.idxOf?_lt found).le

theorem reaches_insertAfter {anchor : InstructionId} :
    Reaches step (insertAfter anchor instruction) before fun _ _ => True := by
  refine .check_bind ?_
  rintro ⟨method, position⟩ located
  obtain ⟨body, -, here, found⟩ := locate_ok located
  refine reaches_insert edit ?_
  intro other same
  cases here.symm.trans same
  exact Array.idxOf?_lt found

theorem reaches_append :
    Reaches step (append method instruction) before fun _ _ => True := by
  refine .check_bind ?_
  intro length counted
  obtain ⟨body, here, rfl⟩ := bodyLength_ok counted
  refine reaches_insert edit ?_
  intro other same
  cases here.symm.trans same
  exact le_rfl

theorem reaches_replace {old : InstructionId} :
    Reaches step (replace old instruction) before fun result after =>
      ∃ slot body position, before.slot? old = some slot ∧ before.body? slot.method = some body ∧
        body.instructions.idxOf? old = some position ∧ result = (⟨before.code.size⟩, slot.instruction) ∧
        after = before.swap old slot position instruction := by
  refine .check_bind ?_
  rintro ⟨method, position⟩ located
  refine .check_bind ?_
  intro _ checked
  refine .get_bind ?_
  obtain ⟨body, holder, here, found⟩ := locate_ok located
  obtain ⟨-, locals, target, fits⟩ := checkInstruction_ok checked
  cases attached : before.slot? old with
  | none => exact .throw
  | some slot =>
    have same : slot.method = method := by
      rw [holder?, attached] at holder
      exact Option.some.inj holder
    subst same
    have replaced := Rewrite.replace attached here found locals target fits
    refine .leave replaced.indexed (.single (edit replaced)) ?_
    intro result same
    cases same
    exact ⟨slot, body, position, rfl, here, found, rfl, rfl⟩

end Code

theorem reaches_remove {id : InstructionId}
    (edit : ∀ {after}, Rewrite none before after → step before after) :
    Reaches step (remove id) before fun instruction _ =>
      ∃ slot, before.slot? id = some slot ∧ slot.instruction = instruction := by
  refine .check_bind ?_
  rintro ⟨method, position⟩ located
  refine .get_bind ?_
  obtain ⟨-, holder, -, -⟩ := locate_ok located
  cases branches : before.branchesTo method id with
  | cons branch _ => exact .throw
  | nil =>
    cases attached : before.slot? id with
    | none => exact .throw
    | some slot =>
      have same : slot.method = method := by
        rw [holder?, attached] at holder
        exact Option.some.inj holder
      have removed := Rewrite.remove attached (same ▸ branches)
      exact .set_bind removed.indexed (.single (edit removed)) (.pure ⟨slot, rfl, rfl⟩)

theorem reaches_appendReserved {method : MethodId} {id : InstructionId} {instruction : Instruction}
    (join : ∀ {body}, before.body? method = some body →
      before.checkLocals method instruction = .ok () → before.Fits instruction →
      step before (before.attach method body.instructions.size id instruction)) :
    Reaches step (appendReserved method id instruction) before fun _ after =>
      ∃ body, before.body? method = some body ∧ before.checkLocals method instruction = .ok () ∧
        after = before.attach method body.instructions.size id instruction := by
  refine .check_bind ?_
  intro length counted
  obtain ⟨body, here, rfl⟩ := bodyLength_ok counted
  refine .check_bind ?_
  intro _ locals
  refine .check_bind ?_
  intro _ shape
  exact .leave (fun indexed => indexed.of_sameKeys (sameKeys_attach _ _ _ _ _))
    (.single (join here locals (checkShape_ok.mp shape))) fun _ _ => ⟨body, here, locals, rfl⟩

end Edit

end ClassImage
