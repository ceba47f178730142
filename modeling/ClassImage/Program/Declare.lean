import ClassImage.Program.Basic

/-!
Symbols of a program: finding or creating types and members, defining types,
declaring members and giving methods a body.

A member's static marker may be unknown at first. It becomes known by a request
or a declaration that says so, provided every attached use fits, and never
changes afterwards.
-/

namespace ClassImage

namespace Program

/-- The member whose marker decides an instruction's operands, and the marker they imply. -/
def memberShape? (program : Program) : Instruction → Option (Symbol × Bool)
  | .invoke call =>
    match call.kind with
    | .normal =>
      some (.method call.method,
        call.arguments.length = (program.methodAt call.method).signature.arity)
    | .special | .construct => some (.method call.method, false)
  | .access use => some (.field use.field, use.object.isNone)
  | _ => none

/-- The marker of a symbol, or the one assumed for it. -/
def markerAssuming (program : Program) (assumed : Option (Symbol × Bool)) (symbol : Symbol) : Marker :=
  match assumed with
  | some (other, static) => if other = symbol then some static else program.marker symbol
  | none => program.marker symbol

/-- The operands of an instruction fit the marker of its member. -/
def checkShape (program : Program) (assumed : Option (Symbol × Bool)) (instruction : Instruction) :
    Except Fault Unit :=
  match program.memberShape? instruction with
  | none => .ok ()
  | some (symbol, used) =>
    match program.markerAssuming assumed symbol with
    | none => .ok ()
    | some known =>
      if known = used then .ok ()
      else .error (.conflict (.use (program.symbolText symbol) known used))

/-- Every attached use of a member fits a marker. -/
def checkUses (program : Program) (symbol : Symbol) (static : Bool) : Except Fault Unit :=
  (program.useList symbol).forM fun use =>
    match program.instruction? use.instruction with
    | some instruction => program.checkShape (some (symbol, static)) instruction
    | none => .ok ()

def setMarker (program : Program) (symbol : Symbol) (static : Bool) : Program :=
  match symbol with
  | .type _ => program
  | .method id =>
    { program with
      methods := program.methods.modify id.index fun entry => { entry with marker := some static } }
  | .field id =>
    { program with
      fields := program.fields.modify id.index fun entry => { entry with marker := some static } }

/-- Adds an external type, to be found under its descriptor. -/
def addType (program : Program) (descriptor : Descriptor) : Program :=
  { program with
    types := program.types.push { descriptor }
    typeLookup := program.typeLookup.insert descriptor ⟨program.types.size⟩ }

/-- Says of an external type whether it is an interface. -/
def setExternal (program : Program) (type : TypeId) (interface : Bool) : Program :=
  { program with
    types := program.types.modify type.index fun entry =>
      { entry with status := .external interface } }

/-- Turns a type into a defined one, without members so far. -/
def addDefinition (program : Program) (type : TypeId) (header : Header) : Program :=
  { program with
    types := program.types.modify type.index fun entry =>
      { entry with status := .defined { header with } }
    defined := program.defined.push type }

def addMethod (program : Program) (owner : TypeId) (name : String) (signature : Signature)
    (marker : Marker) : Program :=
  { program with
    methods := program.methods.push { owner, name, signature, marker }
    methodLookup := program.methodLookup.insert (owner, name, signature) ⟨program.methods.size⟩ }

def addField (program : Program) (owner : TypeId) (name : String) (type : Descriptor)
    (marker : Marker) : Program :=
  { program with
    fields := program.fields.push { owner, name, type, marker }
    fieldLookup := program.fieldLookup.insert (owner, name, type) ⟨program.fields.size⟩ }

/-- Changes the definition of a type, if it has one. -/
def modifyDefinition (program : Program) (owner : TypeId) (change : Definition → Definition) : Program :=
  { program with
    types := program.types.modify owner.index fun entry =>
      match entry.status with
      | .external _ => entry
      | .defined definition => { entry with status := .defined (change definition) } }

/-- Gives a method its access flags and lists it in the definition of its owner. -/
def listMethod (program : Program) (owner : TypeId) (id : MethodId) (access : UInt32) : Program :=
  { program with
    methods := program.methods.modify id.index fun entry =>
      { entry with declaration := some access } }.modifyDefinition owner fun definition =>
    { definition with methods := definition.methods.push id }

/-- Gives a field its access flags and lists it in the definition of its owner. -/
def listField (program : Program) (owner : TypeId) (id : FieldId) (access : UInt32) : Program :=
  { program with
    fields := program.fields.modify id.index fun entry =>
      { entry with declaration := some access } }.modifyDefinition owner fun definition =>
    { definition with fields := definition.fields.push id }

/-- One local for each kind, none of which was issued before. -/
def newLocals (program : Program) (kinds : List ValueKind) : List Local :=
  kinds.zipIdx.map fun (kind, index) => ⟨program.owners.size + index, kind⟩

/-- Gives a method an empty body, and the parameters to the method. -/
def addBody (program : Program) (method : MethodId) (parameters : List Local) : Program :=
  { program with
    owners := program.owners ++ Array.replicate parameters.length (some method)
    methods := program.methods.modify method.index fun entry =>
      { entry with body := some ⟨parameters, parameters.toArray, #[]⟩ } }

/-- Issues a local that no body owns yet. -/
def addLocal (program : Program) : Program := { program with owners := program.owners.push none }

end Program

namespace Edit

open Program

/-- Applies a hint to the marker of an existing member. -/
def refine (symbol : Symbol) (hint : Marker) : Edit Unit := do
  let program ← get
  match program.marker symbol, hint with
  | _, none => pure ()
  | none, some static =>
    Edit.check (·.checkUses symbol static)
    modify (·.setMarker symbol static)
  | some known, some requested =>
    refuse (known ≠ requested)
      (Fault.conflict (.marker (program.symbolText symbol) known requested))

/-- The entry of a class or array type, created as external on first request. -/
def type (descriptor : Descriptor) : Edit TypeId := do
  refuse (¬descriptor.isReference) (Fault.flaw (.descriptor (.notReference descriptor.text)))
  let program ← get
  match program.findType? descriptor with
  | some id => return id
  | none =>
    set (program.addType descriptor)
    return ⟨program.types.size⟩

/-- Says whether an external type is an interface; a defined type already says so itself. -/
def setInterface (type : TypeId) (interface : Bool) : Edit Unit := do
  let program ← get
  let entry := program.typeAt type
  match entry.status with
  | .external _ => set (program.setExternal type interface)
  | .defined definition =>
    refuse (definition.isInterface ≠ interface)
      (Fault.conflict (.interfaceFlag entry.descriptor.text interface))

/-- Defines a class. An external entry becomes the definition, under the same handle. -/
def define (descriptor : Descriptor) (header : Header) : Edit TypeId := do
  match descriptor with
  | .object _ => pure ()
  | _ => throw (.flaw (.descriptor (.notDefinable descriptor.text)))
  let id ← type descriptor
  let program ← get
  refuse (program.typeAt id).isDefined (Fault.duplicateType descriptor.text)
  set (program.addDefinition id header)
  return id

/-- A method of a type, created on first request. -/
def method (owner : TypeId) (name : String) (signature : Signature) (hint : Marker) :
    Edit MethodId := do
  let program ← get
  match program.findMethod? owner name signature with
  | some id =>
    refine (.method id) hint
    return id
  | none =>
    set (program.addMethod owner name signature hint)
    return ⟨program.methods.size⟩

/-- A field of a type, created on first request. -/
def field (owner : TypeId) (name : String) (type : Descriptor) (hint : Marker) : Edit FieldId := do
  refuse type.isVoid (Fault.flaw (.descriptor (.voidField name)))
  let program ← get
  match program.findField? owner name type with
  | some id =>
    refine (.field id) hint
    return id
  | none =>
    set (program.addField owner name type hint)
    return ⟨program.fields.size⟩

def requireDefined (owner : TypeId) : Edit Unit := do
  let program ← get
  refuse (¬(program.typeAt owner).isDefined)
    (Fault.flaw (.notLocal (.definition (program.typeText owner))))

/-- Declares a method of a defined type. Its access flags fix the marker. -/
def declareMethod (owner : TypeId) (name : String) (signature : Signature) (access : UInt32) :
    Edit MethodId := do
  requireDefined owner
  let id ← method owner name signature (some (Access.isSet access Access.static))
  let program ← get
  refuse (program.methodAt id).declaration.isSome
    (Fault.flaw (.duplicate (.member (program.methodText id))))
  set (program.listMethod owner id access)
  return id

/-- Declares a field of a defined type. Its access flags fix the marker. -/
def declareField (owner : TypeId) (name : String) (type : Descriptor) (access : UInt32) :
    Edit FieldId := do
  requireDefined owner
  let id ← field owner name type (some (Access.isSet access Access.static))
  let program ← get
  refuse (program.fieldAt id).declaration.isSome
    (Fault.flaw (.duplicate (.member (program.fieldText id))))
  set (program.listField owner id access)
  return id

/-- A local that no body owns yet. -/
def freshLocal (kind : ValueKind) : Edit Local :=
  modifyGet fun program => (⟨program.owners.size, kind⟩, program.addLocal)

/-- Gives a declared method an empty body. The parameters are the receiver, unless the method is
static, and one local for each parameter of the signature. -/
def createBody (method : MethodId) : Edit (List Local) := do
  let program ← get
  let entry := program.methodAt method
  match entry.declaration with
  | none => throw (.flaw (.notLocal (.declaration (program.methodText method))))
  | some access =>
    refuse (Access.isSet access (Access.abstract ||| Access.native))
      (Fault.conflict (.noCode (program.methodText method)))
    refuse entry.body.isSome (Fault.flaw (.duplicate (.code (program.methodText method))))
    let receiver := if Access.isSet access Access.static then [] else [ValueKind.reference]
    let parameters := program.newLocals (receiver ++ entry.signature.parameterKinds)
    set (program.addBody method parameters)
    return parameters

end Edit

end ClassImage
