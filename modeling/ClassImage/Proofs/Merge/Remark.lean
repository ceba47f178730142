import ClassImage.Proofs.Program.Bodies
import ClassImage.Proofs.Program.Edits

/-!
Programs that differ only in what they say about static markers. Keys,
definitions, bodies, code and uses do not depend on markers, and every change
but one of the markers themselves can be made before or after the markers are
replaced.
-/

namespace ClassImage

namespace Program

/-- The program with other static markers for its members. -/
def remark (program : Program) (markers : Symbol → Marker) : Program :=
  { program with
    methods := program.methods.mapIdx fun index entry => { entry with marker := markers (.method ⟨index⟩) }
    fields := program.fields.mapIdx fun index entry => { entry with marker := markers (.field ⟨index⟩) } }

/-- The marks that are given, and the markers where none is. -/
def markersOver (mark marker : Symbol → Marker) (symbol : Symbol) : Marker := (mark symbol).or (marker symbol)

/-- The program in which some markers are given; it goes on saying what it says about the others. -/
abbrev overlay (program : Program) (mark : Symbol → Marker) : Program :=
  program.remark (markersOver mark program.marker)

variable (program : Program) (markers : Symbol → Marker)

/-! ## What replacing markers leaves alone -/

theorem marker_remark {symbol : Symbol} (member : program.HasMember symbol) :
    (program.remark markers).marker symbol = markers symbol := by
  cases symbol with
  | type => exact member.elim
  | method id =>
    have inside := methodKey?_isSome.mp member
    simp [marker, methodAt, remark, Array.getD_eq_getD_getElem?, inside]
  | field id =>
    have inside := fieldKey?_isSome.mp member
    simp [marker, fieldAt, remark, Array.getD_eq_getD_getElem?, inside]

/-- A member has the marker that is set; nothing changes for the others. -/
theorem marker_setMarker_eq {symbol : Symbol} (member : program.HasMember symbol) (static : Bool) :
    (program.setMarker symbol static).marker = Function.update program.marker symbol (some static) := by
  funext other
  rcases marker_setMarker program symbol other static with ⟨set, rfl⟩ | ⟨kept, absent⟩
  · rw [set, Function.update_self]
  · rw [kept, Function.update_of_ne fun same => absent same member]

theorem methodAt_remark (id : MethodId) :
    (program.remark markers).methodAt id =
      { program.methodAt id with marker := (program.remark markers).marker (.method id) } := by
  simp only [marker, methodAt, remark, Array.getD_eq_getD_getElem?, Array.getElem?_mapIdx]
  cases program.methods[id.index]? <;> rfl

theorem fieldAt_remark (id : FieldId) :
    (program.remark markers).fieldAt id =
      { program.fieldAt id with marker := (program.remark markers).marker (.field id) } := by
  simp only [marker, fieldAt, remark, Array.getD_eq_getD_getElem?, Array.getElem?_mapIdx]
  cases program.fields[id.index]? <;> rfl

theorem sameKeys_remark : program.SameKeys (program.remark markers) := by
  refine ⟨rfl, ?_, ?_, rfl⟩
  · funext id
    simp only [methodKey?, remark, Array.getElem?_mapIdx, Option.map_map]
    rfl
  · funext id
    simp only [fieldKey?, remark, Array.getElem?_mapIdx, Option.map_map]
    rfl

theorem sameDefinitions_remark : program.SameDefinitions (program.remark markers) := by
  refine ⟨rfl, rfl, ?_, ?_⟩
  · funext id
    simp only [declaredMethod?, methodAt_remark]
  · funext id
    simp only [declaredField?, fieldAt_remark]

theorem hasMember_remark : (program.remark markers).HasMember = program.HasMember := by
  have same := sameKeys_remark program markers
  funext symbol
  cases symbol with
  | type => rfl
  | method id => simp only [HasMember, same.methods]
  | field id => simp only [HasMember, same.fields]

@[simp] theorem typeAt_remark (id : TypeId) : (program.remark markers).typeAt id = program.typeAt id := rfl

@[simp] theorem findType?_remark (descriptor : Descriptor) :
    (program.remark markers).findType? descriptor = program.findType? descriptor := rfl

@[simp] theorem size_methods_remark : (program.remark markers).methods.size = program.methods.size :=
  Array.size_mapIdx

@[simp] theorem size_fields_remark : (program.remark markers).fields.size = program.fields.size :=
  Array.size_mapIdx

@[simp] theorem findMethod?_remark (owner : TypeId) (name : String) (signature : Signature) :
    (program.remark markers).findMethod? owner name signature = program.findMethod? owner name signature :=
  rfl

@[simp] theorem findField?_remark (owner : TypeId) (name : String) (type : Descriptor) :
    (program.remark markers).findField? owner name type = program.findField? owner name type :=
  rfl

@[simp] theorem body?_remark (method : MethodId) :
    (program.remark markers).body? method = program.body? method := by
  rw [body?, methodAt_remark]
  rfl

@[simp] theorem methodText_remark (id : MethodId) :
    (program.remark markers).methodText id = program.methodText id := by
  simp only [methodText, methodAt_remark]
  rfl

@[simp] theorem fieldText_remark (id : FieldId) :
    (program.remark markers).fieldText id = program.fieldText id := by
  simp only [fieldText, fieldAt_remark]
  rfl

@[simp] theorem memberShape?_remark (instruction : Instruction) :
    (program.remark markers).memberShape? instruction = program.memberShape? instruction := by
  cases instruction with
  | invoke call => simp only [memberShape?_invoke, methodAt_remark]
  | _ => rfl

/-! ## Changes before and after markers are replaced -/

theorem remark_remark (others : Symbol → Marker) :
    (program.remark others).remark markers = program.remark markers := by
  simp only [remark, Array.mapIdx_mapIdx]
  rfl

theorem remark_self : program.remark program.marker = program := by
  have methods : (program.methods.mapIdx fun index entry =>
      { entry with marker := program.marker (.method ⟨index⟩) }) = program.methods := by
    rw [Array.mapIdx_eq_iff]
    intro index
    simp only [marker, methodAt, Array.getD_eq_getD_getElem?]
    cases program.methods[index]? <;> rfl
  have fields : (program.fields.mapIdx fun index entry =>
      { entry with marker := program.marker (.field ⟨index⟩) }) = program.fields := by
    rw [Array.mapIdx_eq_iff]
    intro index
    simp only [marker, fieldAt, Array.getD_eq_getD_getElem?]
    cases program.fields[index]? <;> rfl
  rw [remark, methods, fields]

variable {markers} in
/-- Only what is said about members counts. -/
theorem remark_congr {others : Symbol → Marker}
    (same : ∀ symbol, program.HasMember symbol → markers symbol = others symbol) :
    program.remark markers = program.remark others := by
  have methods : (program.methods.mapIdx fun index entry => { entry with marker := markers (.method ⟨index⟩) }) =
      program.methods.mapIdx fun index entry => { entry with marker := others (.method ⟨index⟩) } := by
    rw [Array.mapIdx_eq_mapIdx_iff]
    intro index inside
    rw [same (.method ⟨index⟩) (methodKey?_isSome.mpr inside)]
  have fields : (program.fields.mapIdx fun index entry => { entry with marker := markers (.field ⟨index⟩) }) =
      program.fields.mapIdx fun index entry => { entry with marker := others (.field ⟨index⟩) } := by
    rw [Array.mapIdx_eq_mapIdx_iff]
    intro index inside
    rw [same (.field ⟨index⟩) (fieldKey?_isSome.mpr inside)]
  rw [remark, remark, methods, fields]

theorem remark_setMarker (symbol : Symbol) (static : Bool) :
    (program.setMarker symbol static).remark markers = program.remark markers := by
  cases symbol with
  | type => rfl
  | method id =>
    simp only [remark, setMarker]
    congr 1
    rw [Array.mapIdx_eq_iff]
    intro index
    rw [Array.getElem?_mapIdx, Array.getElem?_modify]
    split <;> cases program.methods[index]? <;> rfl
  | field id =>
    simp only [remark, setMarker]
    congr 1
    rw [Array.mapIdx_eq_iff]
    intro index
    rw [Array.getElem?_mapIdx, Array.getElem?_modify]
    split <;> cases program.fields[index]? <;> rfl

theorem setMarker_remark (symbol : Symbol) (static : Bool) :
    (program.remark markers).setMarker symbol static =
      program.remark (Function.update markers symbol (some static)) := by
  have marked : ∀ other, program.HasMember other →
      ((program.remark markers).setMarker symbol static).marker other =
        Function.update markers symbol (some static) other := by
    intro other member
    rcases marker_setMarker (program.remark markers) symbol other static with ⟨set, rfl⟩ | ⟨kept, absent⟩
    · rw [set, Function.update_self]
    · rw [hasMember_remark] at absent
      rw [kept, marker_remark program markers member,
        Function.update_of_ne fun same => absent same (same ▸ member)]
  calc (program.remark markers).setMarker symbol static
      = ((program.remark markers).setMarker symbol static).remark
          ((program.remark markers).setMarker symbol static).marker := (remark_self _).symm
    _ = program.remark ((program.remark markers).setMarker symbol static).marker := by
        rw [remark_setMarker, remark_remark]
    _ = program.remark (Function.update markers symbol (some static)) := remark_congr program marked

theorem marker_addMethod (owner : TypeId) (name : String) (signature : Signature) (marker : Marker) :
    (program.addMethod owner name signature marker).marker =
      Function.update program.marker (.method ⟨program.methods.size⟩) marker := by
  funext symbol
  cases symbol with
  | method id =>
    simp only [Program.marker, methodAt, addMethod, Array.getD_push, Function.update_apply, Symbol.method.injEq]
    by_cases last : id.index = program.methods.size
    · rw [if_pos last, if_pos (congrArg MethodId.mk last)]
    · rw [if_neg last]
      exact (if_neg fun same => last (congrArg MethodId.index same)).symm
  | _ => simp [Program.marker, fieldAt, addMethod]

theorem marker_addField (owner : TypeId) (name : String) (type : Descriptor) (marker : Marker) :
    (program.addField owner name type marker).marker =
      Function.update program.marker (.field ⟨program.fields.size⟩) marker := by
  funext symbol
  cases symbol with
  | field id =>
    simp only [Program.marker, fieldAt, addField, Array.getD_push, Function.update_apply, Symbol.field.injEq]
    by_cases last : id.index = program.fields.size
    · rw [if_pos last, if_pos (congrArg FieldId.mk last)]
    · rw [if_neg last]
      exact (if_neg fun same => last (congrArg FieldId.index same)).symm
  | _ => simp [Program.marker, methodAt, addField]

theorem addMethod_remark (owner : TypeId) (name : String) (signature : Signature) (marker : Marker) :
    (program.remark markers).addMethod owner name signature marker =
      (program.addMethod owner name signature marker).remark
        (Function.update markers (.method ⟨program.methods.size⟩) marker) := by
  have same : program.remark (Function.update markers (.method ⟨program.methods.size⟩) marker) =
      program.remark markers := by
    refine remark_congr program fun symbol member => Function.update_of_ne ?_ _ _
    rintro rfl
    exact Nat.lt_irrefl _ (methodKey?_isSome.mp member)
  rw [← same]
  simp only [addMethod, remark, Array.mapIdx_push, Array.size_mapIdx, Function.update_self]

theorem addField_remark (owner : TypeId) (name : String) (type : Descriptor) (marker : Marker) :
    (program.remark markers).addField owner name type marker =
      (program.addField owner name type marker).remark
        (Function.update markers (.field ⟨program.fields.size⟩) marker) := by
  have same : program.remark (Function.update markers (.field ⟨program.fields.size⟩) marker) =
      program.remark markers := by
    refine remark_congr program fun symbol member => Function.update_of_ne ?_ _ _
    rintro rfl
    exact Nat.lt_irrefl _ (fieldKey?_isSome.mp member)
  rw [← same]
  simp only [addField, remark, Array.mapIdx_push, Array.size_mapIdx, Function.update_self]

theorem addBody_remark (method : MethodId) (parameters : List Local) :
    (program.remark markers).addBody method parameters = (program.addBody method parameters).remark markers := by
  simp only [addBody, remark]
  rw [Array.mapIdx_modify]
  exact fun _ _ => rfl

theorem attach_remark (method : MethodId) (position : Nat) (id : InstructionId) (instruction : Instruction) :
    (program.remark markers).attach method position id instruction =
      (program.attach method position id instruction).remark markers := by
  simp only [attach, modifyBody, remark]
  rw [Array.mapIdx_modify]
  exact fun _ _ => rfl

theorem listMethod_remark (owner : TypeId) (id : MethodId) (access : UInt32) :
    (program.remark markers).listMethod owner id access = (program.listMethod owner id access).remark markers := by
  simp only [listMethod, modifyDefinition, remark]
  rw [Array.mapIdx_modify]
  exact fun _ _ => rfl

theorem listField_remark (owner : TypeId) (id : FieldId) (access : UInt32) :
    (program.remark markers).listField owner id access = (program.listField owner id access).remark markers := by
  simp only [listField, modifyDefinition, remark]
  rw [Array.mapIdx_modify]
  exact fun _ _ => rfl

variable {program}

/-- What is known beside markers stays in order when markers are replaced. -/
theorem Orderly.remark (orderly : program.Orderly) : (program.remark markers).Orderly := by
  have keys := sameKeys_remark program markers
  have same := sameDefinitions_remark program markers
  have bodies : (program.remark markers).body? = program.body? := funext (body?_remark program markers)
  refine ⟨orderly.keys.of_sameKeys keys, orderly.definitions.of_same keys.extends same, ?_⟩
  constructor
  all_goals
    simp only [bodies, keys.methods, same.methods]
  · exact orderly.bodies.declared
  · exact orderly.bodies.parameters
  · exact orderly.bodies.distinct
  · exact orderly.bodies.attached
  · exact orderly.bodies.held

end Program

end ClassImage
