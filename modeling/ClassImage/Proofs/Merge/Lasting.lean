import ClassImage.Proofs.Program.Loading

/-!
What loading leaves untouched. Whatever a program knows of a symbol (its key, its
marker, its declaration) it knows after every edit that loading is made of,
whether the edit fails or not and whatever the program is.
-/

namespace ClassImage

namespace Program

/-- What is known of symbols stays known. -/
structure Lasts (before after : Program) : Prop where
  more : before.Extends after
  markers : ∀ {symbol static}, before.marker symbol = some static → after.marker symbol = some static
  methods : ∀ {method entry}, before.declaredMethod? method = some entry →
    after.declaredMethod? method = some entry
  fields : ∀ {field entry}, before.declaredField? field = some entry →
    after.declaredField? field = some entry

theorem Lasts.refl (program : Program) : program.Lasts program := ⟨.refl program, id, id, id⟩

theorem Lasts.trans {first second third : Program} (left : first.Lasts second)
    (right : second.Lasts third) : first.Lasts third :=
  ⟨left.more.trans right.more, right.markers ∘ left.markers, right.methods ∘ left.methods,
    right.fields ∘ left.fields⟩

theorem Steps.lasts {before after : Program} (steps : Steps before after) : before.Lasts after := by
  refine ⟨steps.extends, steps.marker_kept, ?_, ?_⟩
  · intro method entry declared
    induction steps with
    | refl => exact declared
    | tail _ step ih => exact step.declaredMethod?_kept ih
  · intro field entry declared
    induction steps with
    | refl => exact declared
    | tail _ step ih => exact step.declaredField?_kept ih

theorem Growths.lasts {before after : Program} (growths : Growths before after) : before.Lasts after :=
  growths.steps.lasts

theorem Growth.lasts {before after : Program} (growth : Growth before after) : before.Lasts after :=
  Growths.lasts (.single growth)

section

variable (program : Program)

theorem lasts_addMethod (owner : TypeId) (name : String) (signature : Signature) (marker : Marker) :
    program.Lasts (program.addMethod owner name signature marker) := by
  have kept : ∀ {id}, (program.methodKey? id).isSome →
      (program.addMethod owner name signature marker).methodAt id = program.methodAt id := by
    intro id known
    have inside := methodKey?_isSome.mp known
    simp only [methodAt, addMethod, Array.getD_push]
    rw [if_neg (by omega)]
  refine ⟨extends_addMethod _ _ _ _ _, ?_, ?_, id⟩
  · intro symbol static known
    cases symbol with
    | method id =>
      rw [Program.marker, kept (hasMember_of_marker known)]
      exact known
    | _ => exact known
  · intro method entry declared
    rw [declaredMethod?, kept (knowsMethod_of_declared declared)]
    exact declared

theorem lasts_addField (owner : TypeId) (name : String) (type : Descriptor) (marker : Marker) :
    program.Lasts (program.addField owner name type marker) := by
  have kept : ∀ {id}, (program.fieldKey? id).isSome →
      (program.addField owner name type marker).fieldAt id = program.fieldAt id := by
    intro id known
    have inside := fieldKey?_isSome.mp known
    simp only [fieldAt, addField, Array.getD_push]
    rw [if_neg (by omega)]
  refine ⟨extends_addField _ _ _ _ _, ?_, id, ?_⟩
  · intro symbol static known
    cases symbol with
    | field id =>
      rw [Program.marker, kept (hasMember_of_marker known)]
      exact known
    | _ => exact known
  · intro field entry declared
    rw [declaredField?, kept (knowsField_of_declared declared)]
    exact declared

theorem lasts_setMarker {symbol : Symbol} (unknown : program.marker symbol = none) (static : Bool) :
    program.Lasts (program.setMarker symbol static) := by
  refine ⟨(sameKeys_setMarker _ _ _).extends, ?_, ?_, ?_⟩
  · intro other known marked
    rcases marker_setMarker program symbol other static with ⟨-, rfl⟩ | ⟨same, -⟩
    · rw [unknown] at marked
      cases marked
    · rw [same, marked]
  · cases symbol with
    | method place =>
      have same : (program.setMarker (.method place) static).declaredMethod? = program.declaredMethod? :=
        declaredMethod?_modify _ _ _ fun _ => ⟨rfl, rfl⟩
      intro _ _ declared
      rw [same, declared]
    | _ => exact id
  · cases symbol with
    | field place =>
      have same : (program.setMarker (.field place) static).declaredField? = program.declaredField? :=
        declaredField?_modify _ _ _ fun _ => ⟨rfl, rfl⟩
      intro _ _ declared
      rw [same, declared]
    | _ => exact id

theorem lasts_listMethod {id : MethodId} (fresh : (program.methodAt id).declaration = none)
    (owner : TypeId) (access : UInt32) : program.Lasts (program.listMethod owner id access) := by
  refine ⟨(sameKeys_listMethod _ _ _ _).extends, ?_, ?_, fun same => same⟩
  · rw [marker_listMethod]
    exact fun same => same
  · intro method entry declared
    have apart : id.index ≠ method.index := by
      intro same
      obtain rfl : id = method := congrArg MethodId.mk same
      rw [declaredMethod?, fresh] at declared
      cases declared
    simpa only [declaredMethod?, methodAt, listMethod, modifyDefinition, Array.getD_modify, apart,
      false_and, if_false] using declared

theorem lasts_listField {id : FieldId} (fresh : (program.fieldAt id).declaration = none)
    (owner : TypeId) (access : UInt32) : program.Lasts (program.listField owner id access) := by
  refine ⟨(sameKeys_listField _ _ _ _).extends, ?_, fun same => same, ?_⟩
  · rw [marker_listField]
    exact fun same => same
  · intro field entry declared
    have apart : id.index ≠ field.index := by
      intro same
      obtain rfl : id = field := congrArg FieldId.mk same
      rw [declaredField?, fresh] at declared
      cases declared
    simpa only [declaredField?, fieldAt, listField, modifyDefinition, Array.getD_modify, apart,
      false_and, if_false] using declared

theorem lasts_addBody (method : MethodId) (parameters : List Local) :
    program.Lasts (program.addBody method parameters) := by
  refine ⟨(sameKeys_addBody _ _ _).extends, ?_, ?_, id⟩
  · rw [marker_addBody]
    exact id
  · rw [(sameDefinitions_addBody _ _ _).methods]
    exact id

theorem lasts_attach (method : MethodId) (position : Nat) (id : InstructionId) (instruction : Instruction) :
    program.Lasts (program.attach method position id instruction) := by
  refine ⟨(sameKeys_attach _ _ _ _ _).extends, ?_, ?_, fun same => same⟩
  · rw [marker_attach]
    exact fun same => same
  · rw [(sameDefinitions_attach _ _ _ _ _).methods]
    exact fun same => same

end

end Program

open Program

namespace Edit

/-- What the program knows of symbols it knows after the edit. -/
def Upholds (edit : Edit α) (before : Program) : Prop := before.Lasts (outcome edit before).2

namespace Upholds

variable {before : Program} {edit : Edit α} {next : α → Edit β}

theorem pure {value : α} : Upholds (pure value) before := .refl before

theorem throw {fault : Fault} : Upholds (throw fault : Edit α) before := .refl before

theorem bind (first : Upholds edit before) (second : ∀ value middle, Upholds (next value) middle) :
    Upholds (edit >>= next) before := by
  unfold Upholds at first ⊢
  rw [outcome_bind]
  revert first
  rcases outcome edit before with ⟨fault | value, middle⟩ <;> intro first
  · exact first
  · exact first.trans (second value middle)

theorem get_bind {next : Program → Edit α} (second : Upholds (next before) before) :
    Upholds (get >>= next) before :=
  second

theorem check_bind {test : Program → Except Fault α} (second : ∀ value, Upholds (next value) before) :
    Upholds (Edit.check test >>= next) before := by
  unfold Upholds
  rw [outcome_bind, show outcome (Edit.check test) before = (test before, before) from rfl]
  cases test before with
  | error fault => exact .refl before
  | ok value => exact second value

theorem refuse_bind {condition : Prop} [Decidable condition] {fault : Fault} {next : Unit → Edit α}
    (second : ¬condition → Upholds (next ()) before) :
    Upholds (ClassImage.refuse condition fault >>= next) before := by
  by_cases refused : condition
  · rw [ClassImage.refuse, if_pos refused]
    exact throw
  · rw [ClassImage.refuse, if_neg refused]
    exact second refused

theorem set_bind {next : PUnit → Edit α} {after : Program} (lasts : before.Lasts after)
    (second : Upholds (next ⟨⟩) after) : Upholds (set after >>= next) before :=
  lasts.trans second

end Upholds

/-- The edit upholds what is known, whatever the program is. -/
def Lasting (edit : Edit α) : Prop := ∀ before, Upholds edit before

namespace Lasting

variable {edit : Edit α} {next : α → Edit β}

theorem lasts (lasting : Lasting edit) (before : Program) : before.Lasts (outcome edit before).2 :=
  lasting before

theorem pure {value : α} : Lasting (pure value) := fun _ => .pure

theorem throw {fault : Fault} : Lasting (throw fault : Edit α) := fun _ => .throw

theorem bind (first : Lasting edit) (second : ∀ value, Lasting (next value)) : Lasting (edit >>= next) :=
  fun before => (first before).bind second

theorem map {change : α → β} (lasting : Lasting edit) : Lasting (change <$> edit) := by
  rw [← bind_pure_comp]
  exact lasting.bind fun _ => .pure

theorem get_bind {next : Program → Edit α} (second : ∀ program, Lasting (next program)) :
    Lasting (get >>= next) :=
  fun before => .get_bind (second before before)

theorem refuse {condition : Prop} [Decidable condition] {fault : Fault} :
    Lasting (ClassImage.refuse condition fault) := by
  by_cases refused : condition
  · rw [ClassImage.refuse, if_pos refused]
    exact throw
  · rw [ClassImage.refuse, if_neg refused]
    exact pure

theorem check {test : Program → Except Fault α} : Lasting (Edit.check test) := fun before => .refl before

theorem adapt {relabel : Fault → Fault} (lasting : Lasting edit) : Lasting (ExceptT.adapt relabel edit) :=
  lasting

theorem mapM {list : List β} {action : β → Edit α} (each : ∀ entry, Lasting (action entry)) :
    Lasting (list.mapM action) := by
  induction list with
  | nil => exact .pure
  | cons entry rest ih =>
    rw [List.mapM_cons]
    exact (each entry).bind fun _ => ih.bind fun _ => .pure

theorem forM {list : List β} {action : β → Edit PUnit} (each : ∀ entry, Lasting (action entry)) :
    Lasting (list.forM action) := by
  induction list with
  | nil => exact .pure
  | cons entry rest ih => exact Lasting.bind (each entry) fun _ => ih

theorem optional {value : Option β} {action : β → Edit α} (each : ∀ entry, Lasting (action entry)) :
    Lasting (value.mapM action) := by
  cases value with
  | none => exact .pure
  | some entry => exact .map (each entry)

end Lasting

theorem lasting_refine (symbol : Symbol) (hint : Marker) : Lasting (refine symbol hint) := by
  intro before
  unfold refine
  refine .get_bind ?_
  rcases hint with _ | static
  · exact .pure
  · rcases unknown : before.marker symbol with _ | known
    · exact .check_bind fun _ => lasts_setMarker before unknown static
    · exact Lasting.refuse before

theorem lasting_type (descriptor : Descriptor) : Lasting (type descriptor) := by
  intro before
  unfold type
  refine .refuse_bind fun reference => .get_bind ?_
  cases found : before.findType? descriptor with
  | some id => exact .pure
  | none => exact .set_bind (Growth.type (not_not.mp reference) found).lasts .pure

theorem lasting_setInterface (type : TypeId) (interface : Bool) : Lasting (setInterface type interface) := by
  intro before
  unfold setInterface
  refine .get_bind ?_
  cases status : (before.typeAt type).status with
  | external known =>
    have growth : Growth before (before.setExternal type interface) :=
      .interface (by simp [TypeEntry.isDefined, TypeEntry.definition?, status])
    simp only [status]
    exact growth.lasts
  | defined definition =>
    simp only [status]
    exact Lasting.refuse before

theorem lasting_method (owner : TypeId) (name : String) (signature : Signature) (hint : Marker) :
    Lasting (method owner name signature hint) := by
  intro before
  unfold method
  refine .get_bind ?_
  cases before.findMethod? owner name signature with
  | some id => exact (lasting_refine _ _).bind (fun _ => .pure) before
  | none => exact .set_bind (lasts_addMethod before _ _ _ _) .pure

theorem lasting_field (owner : TypeId) (name : String) (type : Descriptor) (hint : Marker) :
    Lasting (field owner name type hint) := by
  intro before
  unfold field
  refine .refuse_bind fun _ => .get_bind ?_
  cases before.findField? owner name type with
  | some id => exact (lasting_refine _ _).bind (fun _ => .pure) before
  | none => exact .set_bind (lasts_addField before _ _ _ _) .pure

theorem lasting_define (descriptor : Descriptor) (header : Header) : Lasting (define descriptor header) := by
  intro before
  unfold define
  cases descriptor with
  | object name =>
    refine (lasting_type _ before).bind fun id middle => .get_bind (.refuse_bind fun _ => ?_)
    have same := (sameKeys_addDefinition middle id header).extends
    exact .set_bind ⟨same, fun same => same, fun same => same, fun same => same⟩ .pure
  | _ => exact .throw

theorem lasting_requireDefined (owner : TypeId) : Lasting (requireDefined owner) :=
  .get_bind fun _ => .refuse

theorem lasting_declareMethod (owner : TypeId) (name : String) (signature : Signature) (access : UInt32) :
    Lasting (declareMethod owner name signature access) := by
  refine (lasting_requireDefined owner).bind fun _ => (lasting_method _ _ _ _).bind fun id before => ?_
  refine .get_bind (.refuse_bind fun fresh => ?_)
  have fresh := Option.not_isSome_iff_eq_none.mp fresh
  exact .set_bind (lasts_listMethod before fresh owner access) .pure

theorem lasting_declareField (owner : TypeId) (name : String) (type : Descriptor) (access : UInt32) :
    Lasting (declareField owner name type access) := by
  refine (lasting_requireDefined owner).bind fun _ => (lasting_field _ _ _ _).bind fun id before => ?_
  refine .get_bind (.refuse_bind fun fresh => ?_)
  have fresh := Option.not_isSome_iff_eq_none.mp fresh
  exact .set_bind (lasts_listField before fresh owner access) .pure

theorem lasting_createBody (method : MethodId) : Lasting (createBody method) := by
  intro before
  unfold createBody
  refine .get_bind ?_
  cases declared : (before.methodAt method).declaration with
  | none =>
    simp only [declared]
    exact .throw
  | some access =>
    simp only [declared]
    refine .refuse_bind fun _ => .refuse_bind fun _ => ?_
    exact .set_bind (lasts_addBody before _ _) .pure

theorem lasting_freshLocal (kind : ValueKind) : Lasting (freshLocal kind) := by
  intro before
  have growth : Growth before before.addLocal := .slot
  exact growth.lasts

theorem lasting_reserve (count : Nat) : Lasting (reserve count) := by
  intro before
  have steps : Steps before (before.addHandles count) := .single .handles
  exact steps.lasts

theorem lasting_appendReserved (method : MethodId) (id : InstructionId) (instruction : Instruction) :
    Lasting (appendReserved method id instruction) :=
  fun before => .check_bind fun _ => .check_bind fun _ => .check_bind fun _ => lasts_attach before _ _ _ _

end Edit

namespace Loading

open Edit

theorem lasting_require (table : PoolTable) (index : UInt32) (entry : Option α) :
    Lasting (require table index entry) := by
  cases entry with
  | none => exact .throw
  | some value => exact .pure

namespace Context

variable (context : Context)

theorem lasting_text (index : UInt32) : Lasting (context.text index) := lasting_require _ _ _

theorem lasting_descriptor (index : UInt32) : Lasting (context.descriptor index) :=
  (lasting_require _ _ _).bind fun _ => .adapt .check

theorem lasting_type (index : UInt32) : Lasting (context.type index) :=
  (context.lasting_descriptor index).bind fun _ => .adapt (Edit.lasting_type _)

theorem lasting_methodKey (index : UInt32) : Lasting (context.methodKey index) :=
  (lasting_require _ _ _).bind fun _ => (lasting_require _ _ _).bind fun _ =>
    (context.lasting_descriptor _).bind fun _ => (Lasting.mapM context.lasting_descriptor).bind fun _ =>
      (context.lasting_text _).bind fun _ => (context.lasting_type _).bind fun _ => .pure

theorem lasting_fieldKey (index : UInt32) : Lasting (context.fieldKey index) :=
  (lasting_require _ _ _).bind fun _ => (context.lasting_descriptor _).bind fun _ =>
    (context.lasting_text _).bind fun _ => (context.lasting_type _).bind fun _ => .pure

theorem lasting_blame {known : Bool} {edit : Edit α} (lasting : Lasting edit) :
    Lasting (blame known edit) := by
  cases known with
  | false => exact lasting.adapt
  | true => exact lasting

theorem lasting_method (index : UInt32) (static : Bool) : Lasting (context.method index static) :=
  (context.lasting_methodKey index).bind fun (_, _, _) => .get_bind fun _ =>
    lasting_blame (Edit.lasting_method _ _ _ _)

theorem lasting_field (index : UInt32) (static : Bool) : Lasting (context.field index static) :=
  (context.lasting_fieldKey index).bind fun (_, _, _) => .get_bind fun _ =>
    lasting_blame (Edit.lasting_field _ _ _ _)

theorem lasting_markInterface (type : TypeId) : Lasting (markInterface type) := by
  refine .get_bind fun program => ?_
  split
  · exact lasting_setInterface _ _
  · exact .pure

theorem lasting_interface (index : UInt32) : Lasting (context.interface index) :=
  (context.lasting_type index).bind fun _ => (lasting_markInterface _).bind fun _ => .pure

theorem lasting_defineClass (definition : ClassDef) : Lasting (context.defineClass definition) :=
  (context.lasting_descriptor _).bind fun _ => (Lasting.optional context.lasting_type).bind fun _ =>
    (Lasting.mapM context.lasting_interface).bind fun _ =>
      (Lasting.optional context.lasting_text).bind fun _ => .adapt (lasting_define _ _)

theorem lasting_declareField (owner : TypeId) (field : FieldDef) :
    Lasting (context.declareField owner field) :=
  (context.lasting_fieldKey _).bind fun (_, _, _) =>
    (Lasting.adapt (Edit.lasting_declareField _ _ _ _)).bind fun _ => .pure

theorem lasting_declareMethod (owner : TypeId) (method : MethodDef) :
    Lasting (context.declareMethod owner method) :=
  (context.lasting_methodKey _).bind fun (_, _, _) =>
    (Lasting.adapt (Edit.lasting_declareMethod _ _ _ _)).bind fun _ => .pure

theorem lasting_declareClass (definition : ClassDef) : Lasting (context.declareClass definition) :=
  (context.lasting_defineClass _).bind fun _ => (Lasting.forM (context.lasting_declareField _)).bind fun _ =>
    (Lasting.mapM (context.lasting_declareMethod _)).bind fun _ => .pure

theorem lasting_slot (frame : Frame) (register : UInt16) : Lasting (frame.slot register) := by
  unfold Frame.slot
  split
  · exact .pure
  · exact .throw

theorem lasting_buildCall (request : CallRequest) : Lasting (buildCall request) :=
  (Lasting.adapt .check).bind fun _ => .pure

theorem lasting_buildAccess (request : AccessRequest) : Lasting (buildAccess request) :=
  (Lasting.adapt .check).bind fun _ => .pure

theorem lasting_resultSlot (frame : Frame) (signature : Signature) (result : Option UInt16) :
    Lasting (resultSlot frame signature result) := by
  cases result with
  | some dst => exact .map (lasting_slot frame dst)
  | none => exact .optional lasting_freshLocal

theorem lasting_lowRegisters (tags : List UInt8) :
    Lasting (tags.mapM fun tag => (ValueKind.ofTag? tag).mapM Edit.freshLocal) :=
  .mapM fun _ => .optional lasting_freshLocal

variable (frame : Frame)

theorem lasting_buildAllocation (dst : UInt16) (type constructor : UInt32) (arguments : List UInt16) :
    Lasting (context.buildAllocation frame dst type constructor arguments) :=
  (context.lasting_method _ _).bind fun _ => (context.lasting_type _).bind fun _ => .get_bind fun _ =>
    Lasting.refuse.bind fun _ => (lasting_slot _ _).bind fun _ =>
      (Lasting.mapM (lasting_slot _)).bind fun _ => lasting_buildCall _

theorem lasting_noteDispatch (dispatch : Dispatch) (owner : TypeId) :
    Lasting (noteDispatch dispatch owner) := by
  unfold noteDispatch
  split
  · exact lasting_markInterface _
  · exact .pure

theorem lasting_buildInvoke (dispatch : Dispatch) (method : UInt32) (arguments : List UInt16)
    (result : Option UInt16) : Lasting (context.buildInvoke frame dispatch method arguments result) :=
  (context.lasting_method _ _).bind fun _ => .get_bind fun _ => (lasting_noteDispatch _ _).bind fun _ =>
    (Lasting.mapM (lasting_slot _)).bind fun _ => (lasting_resultSlot _ _ _).bind fun _ =>
      lasting_buildCall _

theorem lasting_buildSingle (raw : RawInstruction) : Lasting (context.buildSingle frame raw) := by
  cases raw with
  | returnVoid | goto => exact .pure
  | returnValue | throwValue | constInt | constWide | constFloat | constDouble | constNull | ifZero =>
    exact (lasting_slot _ _).bind fun _ => .pure
  | move | arrayLength | ifCompare =>
    exact (lasting_slot _ _).bind fun _ => (lasting_slot _ _).bind fun _ => .pure
  | binary =>
    exact (lasting_slot _ _).bind fun _ => (lasting_slot _ _).bind fun _ =>
      (lasting_slot _ _).bind fun _ => .pure
  | constText => exact (lasting_slot _ _).bind fun _ => (context.lasting_text _).bind fun _ => .pure
  | constClass => exact (lasting_slot _ _).bind fun _ => (context.lasting_type _).bind fun _ => .pure
  | newArray | checkCast | instanceOf =>
    exact (lasting_slot _ _).bind fun _ => (lasting_slot _ _).bind fun _ =>
      (context.lasting_type _).bind fun _ => .pure
  | instanceGet | instancePut =>
    exact (context.lasting_field _ _).bind fun _ => (lasting_slot _ _).bind fun _ =>
      (lasting_slot _ _).bind fun _ => lasting_buildAccess _
  | staticGet | staticPut =>
    exact (context.lasting_field _ _).bind fun _ => (lasting_slot _ _).bind fun _ => lasting_buildAccess _
  | nop | moveResult | newInstance | invoke => exact .throw

theorem lasting_buildUnit (unit : CodeUnit) : Lasting (context.buildUnit frame unit) := by
  cases unit with
  | allocation => exact context.lasting_buildAllocation _ _ _ _ _
  | call => exact context.lasting_buildInvoke _ _ _ _ _
  | single => exact context.lasting_buildSingle _ _

theorem lasting_loadUnit (method : MethodId) (entry : (Nat × CodeUnit) × Nat) :
    Lasting (context.loadUnit frame method entry) :=
  (context.lasting_buildUnit _ _).bind fun _ => lasting_appendReserved _ _ _

theorem lasting_assignRegisters (method : MethodId) (code : CodeItem) :
    Lasting (assignRegisters method code) := by
  refine (Lasting.adapt (lasting_createBody method)).bind fun parameters => .get_bind fun program => ?_
  dsimp only
  split
  · exact .throw
  · exact Lasting.refuse.bind fun _ => (lasting_lowRegisters _).bind fun _ => .pure

theorem lasting_loadBody (method : MethodId) (code : CodeItem) : Lasting (context.loadBody method code) :=
  (lasting_assignRegisters method code).bind fun _ => (lasting_reserve _).bind fun _ =>
    Lasting.forM (context.lasting_loadUnit _ method)

theorem lasting_load : Lasting context.load :=
  (Lasting.mapM context.lasting_declareClass).bind fun _ =>
    Lasting.forM fun (method, code) => .adapt (context.lasting_loadBody method code)

end Context

end Loading

end ClassImage
