import ClassImage.Program.Edit
import ClassImage.Program.Operands

/-!
Loading images into a program. All classes of an image are declared first, then
their bodies are built. Raw instructions are grouped into units, each of which
becomes one instruction: an allocation with its constructor call, an invocation
with the instruction that takes its result, or a single instruction. Instructions
that do nothing are dropped, and a branch to one goes to the unit after it.

An image is loaded as a whole or not at all.
-/

namespace ClassImage

namespace Fault

/-- A flaw in what an image asks for is a flaw of the image. -/
def blameImage : Fault → Fault
  | .flaw cause => .malformedImage (.flaw cause)
  | fault => fault

/-- A contradiction inside an image is a flaw of the image as well. -/
def blameImageFully : Fault → Fault
  | .conflict cause => .malformedImage (.conflict cause)
  | fault => fault.blameImage

end Fault

/-- A group of raw instructions that becomes one instruction. -/
inductive CodeUnit where
  | allocation (dst : UInt16) (type : UInt32) (constructor : UInt32) (arguments : List UInt16)
  | call (dispatch : Dispatch) (method : UInt32) (arguments : List UInt16) (result : Option UInt16)
  | single (instruction : RawInstruction)

/-- Groups raw instructions; each unit comes with the position of its first instruction. -/
def CodeUnit.split : Nat → List RawInstruction → List (Nat × CodeUnit)
  | _, [] => []
  | start, .nop :: rest => split (start + 1) rest
  | start, .newInstance dst type :: .invoke _ constructor arguments :: rest =>
    (start, .allocation dst type constructor arguments) :: split (start + 2) rest
  | start, .invoke dispatch method arguments :: .moveResult dst :: rest =>
    (start, .call dispatch method arguments (some dst)) :: split (start + 2) rest
  | start, .invoke dispatch method arguments :: rest =>
    (start, .call dispatch method arguments none) :: split (start + 1) rest
  | start, instruction :: rest => (start, .single instruction) :: split (start + 1) rest

/-- The number of units before a position. -/
def CodeUnit.indexOf (units : List (Nat × CodeUnit)) (position : Nat) : Nat :=
  (units.takeWhile fun (start, _) => start < position).length

/-- Assigns parameters to the tags of their registers. A wide parameter leaves its second register
without a local. -/
def placeParameters : List Local → List UInt8 → Option (List (Option Local) × List UInt8)
  | [], tags => some ([], tags)
  | _ :: _, [] => none
  | parameter :: parameters, tag :: tags =>
    if RegisterTag.isWide tag ≠ parameter.kind.isWide then none
    else if parameter.kind.isWide then
      match tags with
      | [] => none
      | _ :: tags =>
        (placeParameters parameters tags).map fun (placed, rest) =>
          (some parameter :: none :: placed, rest)
    else
      (placeParameters parameters tags).map fun (placed, rest) =>
        (some parameter :: placed, rest)

namespace Loading

/-- What loading an image refers to: the image, and the program before it. -/
structure Context where
  image : Image
  before : Program

/-- A pool entry that verification has found to exist. -/
def require (table : PoolTable) (index : UInt32) : Option α → Edit α
  | some value => pure value
  | none => throw (.malformedImage (.missingEntry table index))

namespace Context

def text (context : Context) (index : UInt32) : Edit String :=
  require .text index (context.image.pool.text? index)

def descriptor (context : Context) (index : UInt32) : Edit Descriptor := do
  let text ← require .type index (context.image.pool.type? index)
  ExceptT.adapt Fault.blameImage (Edit.check fun _ => Descriptor.parse text)

def type (context : Context) (index : UInt32) : Edit TypeId := do
  let descriptor ← context.descriptor index
  ExceptT.adapt Fault.blameImage (Edit.type descriptor)

def methodKey (context : Context) (index : UInt32) : Edit (TypeId × String × Signature) := do
  let method ← require .method index (context.image.pool.method? index)
  let proto ← require .proto method.proto (context.image.pool.proto? method.proto)
  let result ← context.descriptor proto.result
  let parameters ← proto.parameters.mapM context.descriptor
  let name ← context.text method.name
  let owner ← context.type method.owner
  return (owner, name, ⟨parameters, result⟩)

def fieldKey (context : Context) (index : UInt32) : Edit (TypeId × String × Descriptor) := do
  let field ← require .field index (context.image.pool.field? index)
  let type ← context.descriptor field.type
  let name ← context.text field.name
  let owner ← context.type field.owner
  return (owner, name, type)

/-- Runs an edit on a member. A contradiction is the image's own fault unless the member's marker
was known before the image. -/
def blame (known : Bool) (edit : Edit α) : Edit α :=
  if known then edit else ExceptT.adapt Fault.blameImageFully edit

def method (context : Context) (index : UInt32) (static : Bool) : Edit MethodId := do
  let (owner, name, signature) ← context.methodKey index
  let earlier := (context.before.findType? ((← get).typeAt owner).descriptor).bind fun owner =>
    context.before.findMethod? owner name signature
  let known := earlier.any fun id => (context.before.methodAt id).marker.isSome
  blame known (Edit.method owner name signature (some static))

def field (context : Context) (index : UInt32) (static : Bool) : Edit FieldId := do
  let (owner, name, type) ← context.fieldKey index
  let earlier := (context.before.findType? ((← get).typeAt owner).descriptor).bind fun owner =>
    context.before.findField? owner name type
  let known := earlier.any fun id => (context.before.fieldAt id).marker.isSome
  blame known (Edit.field owner name type (some static))

/-- Notes that an external type is an interface. -/
def markInterface (type : TypeId) : Edit Unit := do
  if !((← get).typeAt type).isDefined then Edit.setInterface type true

def interface (context : Context) (index : UInt32) : Edit TypeId := do
  let type ← context.type index
  markInterface type
  return type

def defineClass (context : Context) (definition : ClassDef) : Edit TypeId := do
  let descriptor ← context.descriptor definition.type
  let superclass ← definition.superclass.mapM context.type
  let interfaces ← definition.interfaces.mapM context.interface
  let source ← definition.source.mapM context.text
  ExceptT.adapt Fault.blameImage
    (Edit.define descriptor ⟨definition.access, superclass, interfaces, source⟩)

def declareField (context : Context) (owner : TypeId) (field : FieldDef) : Edit Unit := do
  let (_, name, type) ← context.fieldKey field.field
  let _ ← ExceptT.adapt Fault.blameImage (Edit.declareField owner name type field.access)

/-- Declares a method, and lists it when it has code. -/
def declareMethod (context : Context) (owner : TypeId) (method : MethodDef) :
    Edit (List (MethodId × CodeItem)) := do
  let (_, name, signature) ← context.methodKey method.method
  let id ← ExceptT.adapt Fault.blameImage (Edit.declareMethod owner name signature method.access)
  return method.code.toList.map fun code => (id, code)

/-- Declares a class and its members, and lists the methods that have code. -/
def declareClass (context : Context) (definition : ClassDef) : Edit (List (MethodId × CodeItem)) := do
  let owner ← context.defineClass definition
  definition.fields.forM (context.declareField owner)
  let coded ← definition.methods.mapM (context.declareMethod owner)
  return coded.flatten

/-- Gives every register its local: parameters at the top, one local for each other register that
is not the high half of a pair. -/
def assignRegisters (method : MethodId) (code : CodeItem) : Edit (Array (Option Local)) := do
  let parameters ← ExceptT.adapt Fault.blameImageFully (Edit.createBody method)
  let name := (← get).methodText method
  let first := code.registers.toNat - code.parameterRegisters.toNat
  match placeParameters parameters (code.kinds.drop first) with
  | none => throw (.malformedImage (.parameterKinds name))
  | some (placed, rest) =>
    refuse (¬rest.isEmpty)
      (Fault.malformedImage (.parameterCount name code.parameterRegisters.toNat placed.length))
    let low ← (code.kinds.take first).mapM fun tag => (ValueKind.ofTag? tag).mapM Edit.freshLocal
    return (low ++ placed).toArray

/-- Where the operands of a body's units are found. -/
structure Frame where
  registers : Array (Option Local)
  units : List (Nat × CodeUnit)
  firstUnit : InstructionId

namespace Frame

def slot (frame : Frame) (register : UInt16) : Edit Local :=
  match frame.registers[register.toNat]?.join with
  | some slot => pure slot
  | none => throw (.malformedImage (.highHalf register))

/-- The instruction of the unit that a raw position stands for. -/
def target (frame : Frame) (position : UInt32) : InstructionId :=
  ⟨frame.firstUnit.index + CodeUnit.indexOf frame.units position.toNat⟩

end Frame

def buildCall (request : CallRequest) : Edit Instruction := do
  return .invoke (← ExceptT.adapt Fault.blameImageFully (Edit.check request.build))

def buildAccess (request : AccessRequest) : Edit Instruction := do
  return .access (← ExceptT.adapt Fault.blameImageFully (Edit.check request.build))

def buildAllocation (context : Context) (frame : Frame) (dst : UInt16) (type constructor : UInt32)
    (arguments : List UInt16) : Edit Instruction := do
  let method ← context.method constructor false
  let allocated ← context.type type
  let program ← get
  refuse ((program.methodAt method).owner ≠ allocated)
    (Fault.malformedImage (.foreignConstructor (program.methodText method)))
  let result ← frame.slot dst
  let arguments ← (arguments.drop 1).mapM frame.slot
  buildCall ⟨.construct, some method, arguments, some result⟩

/-- A call through an interface notes what its target's owner is. -/
def noteDispatch (dispatch : Dispatch) (owner : TypeId) : Edit Unit :=
  if dispatch = .interface then markInterface owner else pure ()

/-- The local that takes the result of a call: a fresh one when no instruction takes it. -/
def resultSlot (frame : Frame) (signature : Signature) : Option UInt16 → Edit (Option Local)
  | some dst => some <$> frame.slot dst
  | none => signature.result.kind?.mapM Edit.freshLocal

def buildInvoke (context : Context) (frame : Frame) (dispatch : Dispatch) (method : UInt32)
    (arguments : List UInt16) (result : Option UInt16) : Edit Instruction := do
  let target ← context.method method (dispatch = .static)
  let entry := (← get).methodAt target
  noteDispatch dispatch entry.owner
  let kind := if dispatch = .direct ∨ dispatch = .super then CallKind.special else .normal
  let arguments ← arguments.mapM frame.slot
  let result ← resultSlot frame entry.signature result
  buildCall ⟨kind, some target, arguments, result⟩

def buildSingle (context : Context) (frame : Frame) : RawInstruction → Edit Instruction
  | .move dst src => return .move (← frame.slot dst) (← frame.slot src)
  | .returnVoid => return .ret none
  | .returnValue src => return .ret (some (← frame.slot src))
  | .constInt dst value => return .const (← frame.slot dst) (.int value)
  | .constWide dst value => return .const (← frame.slot dst) (.long value)
  | .constFloat dst bits => return .const (← frame.slot dst) (.float bits)
  | .constDouble dst bits => return .const (← frame.slot dst) (.double bits)
  | .constText dst text => return .const (← frame.slot dst) (.text (← context.text text))
  | .constClass dst type => return .const (← frame.slot dst) (.classOf (← context.type type))
  | .constNull dst => return .const (← frame.slot dst) .null
  | .newArray dst length type =>
    return .newArray (← frame.slot dst) (← frame.slot length) (← context.type type)
  | .arrayLength dst array => return .arrayLength (← frame.slot dst) (← frame.slot array)
  | .checkCast dst src type =>
    return .checkCast (← frame.slot dst) (← frame.slot src) (← context.type type)
  | .instanceOf dst src type =>
    return .instanceOf (← frame.slot dst) (← frame.slot src) (← context.type type)
  | .throwValue src => return .throwValue (← frame.slot src)
  | .goto target => return .branch none (frame.target target)
  | .ifCompare comparison a b target =>
    return .branch (some ⟨comparison, ← frame.slot a, some (← frame.slot b)⟩) (frame.target target)
  | .ifZero comparison a target =>
    return .branch (some ⟨comparison, ← frame.slot a, none⟩) (frame.target target)
  | .binary operator dst a b =>
    return .binary operator (← frame.slot dst) (← frame.slot a) (← frame.slot b)
  | .instanceGet dst object field => do
    let field ← context.field field false
    buildAccess ⟨.load, some field, some (← frame.slot dst), some (← frame.slot object)⟩
  | .instancePut src object field => do
    let field ← context.field field false
    buildAccess ⟨.store, some field, some (← frame.slot src), some (← frame.slot object)⟩
  | .staticGet dst field => do
    let field ← context.field field true
    buildAccess ⟨.load, some field, some (← frame.slot dst), none⟩
  | .staticPut src field => do
    let field ← context.field field true
    buildAccess ⟨.store, some field, some (← frame.slot src), none⟩
  | instruction@(.nop) | instruction@(.moveResult _) | instruction@(.newInstance _ _)
  | instruction@(.invoke _ _ _) => throw (.malformedImage (.misplaced instruction.opcode))

def buildUnit (context : Context) (frame : Frame) : CodeUnit → Edit Instruction
  | .allocation dst type constructor arguments =>
    context.buildAllocation frame dst type constructor arguments
  | .call dispatch method arguments result =>
    context.buildInvoke frame dispatch method arguments result
  | .single instruction => context.buildSingle frame instruction

/-- Builds the instruction of a unit and attaches it under its reserved handle. -/
def loadUnit (context : Context) (frame : Frame) (method : MethodId) :
    (Nat × CodeUnit) × Nat → Edit Unit
  | ((_, unit), index) => do
    let instruction ← context.buildUnit frame unit
    Edit.appendReserved method ⟨frame.firstUnit.index + index⟩ instruction

/-- Builds a body from its code. -/
def loadBody (context : Context) (method : MethodId) (code : CodeItem) : Edit Unit := do
  let registers ← assignRegisters method code
  let units := CodeUnit.split 0 code.instructions.toList
  let first ← Edit.reserve units.length
  units.zipIdx.forM (context.loadUnit ⟨registers, units, first⟩ method)

def load (context : Context) : Edit Unit := do
  let coded ← context.image.classes.mapM context.declareClass
  coded.flatten.forM fun (method, code) =>
    ExceptT.adapt Fault.blameImage (context.loadBody method code)

end Context

/-- No class is defined twice, neither in the image nor in the image and the program. -/
def checkDuplicates (program : Program) (pool : Pool) : List String → List ClassDef → Except Fault Unit
  | _, [] => .ok ()
  | seen, definition :: rest =>
    match pool.type? definition.type with
    | none => .error (.malformedImage (.missingEntry .type definition.type))
    | some name =>
      let defined := ((Descriptor.ofText? name).bind program.findType?).any fun id =>
        (program.typeAt id).isDefined
      if seen.contains name || defined then .error (.duplicateType name)
      else checkDuplicates program pool (name :: seen) rest

end Loading

namespace Edit

/-- Adds all classes of an image, or changes nothing. -/
def addImage (image : Image) : Edit Unit := fun before =>
  match image.verify with
  | .error fault => (.error (.malformedImage (.unverified fault)), before)
  | .ok () =>
    match Loading.checkDuplicates before image.pool [] image.classes with
    | .error fault => (.error fault, before)
    | .ok () =>
      match (Loading.Context.mk image before).load before with
      | (.ok (), after) => (.ok (), after)
      | (.error fault, _) => (.error fault, before)

/-- Adds all classes of an encoded image, or changes nothing. -/
def addBytes (bytes : Bytes) : Edit Unit := fun before =>
  match Image.decode bytes with
  | .error fault => (.error (.malformedImage (.undecodable fault)), before)
  | .ok image => addImage image before

end Edit

/-- The program that holds the classes of one encoded image. -/
def Program.ofBytes (bytes : Bytes) : Except Fault Program :=
  match Edit.addBytes bytes {} with
  | (.ok (), program) => .ok program
  | (.error fault, _) => .error fault

end ClassImage
