import ClassImage.Format.Builder
import ClassImage.Program.Registers

/-!
Lowering a program to an image under limits. Only defined types are written;
everything else is referred to by name through the constant pool, whose entries
are added in the order in which code and declarations first need them. A call
that allocates or yields a result becomes two raw instructions, all others one.

The finished image is verified, so no image is handed out that a reader would
refuse.
-/

namespace ClassImage

abbrev Lower := StateT Pool.Builder (Except Fault)

namespace Lower

/-- Adds to the pool. -/
def intern (entry : StateM Pool.Builder α) : Lower α := fun builder => .ok (entry.run builder)

def typeRef (program : Program) (type : TypeId) : Lower UInt32 :=
  intern (Pool.Builder.internType (program.typeText type))

def methodRef (program : Program) (method : MethodId) : Lower UInt32 :=
  let entry := program.methodAt method
  intern (Pool.Builder.internMethod (program.typeText entry.owner) entry.name entry.signature.result.text
    (entry.signature.parameters.map Descriptor.text))

def fieldRef (program : Program) (field : FieldId) : Lower UInt32 :=
  let entry := program.fieldAt field
  intern (Pool.Builder.internField (program.typeText entry.owner) entry.name entry.type.text)

end Lower

/-- What lowering an instruction needs to know about its surroundings. -/
structure CodeContext where
  program : Program
  method : MethodId
  plan : RegisterPlan
  /-- The raw position of every instruction of the body. -/
  starts : List (InstructionId × Nat)
  argumentLimit : UInt32

/-- The number of raw instructions an instruction becomes. -/
def Instruction.rawLength : Instruction → Nat
  | .invoke call => if call.kind = .construct ∨ call.result.isSome then 2 else 1
  | _ => 1

namespace CodeContext

def register (context : CodeContext) (slot : Local) : Lower UInt16 :=
  match context.plan.register? slot with
  | some register => pure register
  | none => throw (.flaw (.foreignLocal slot))

def target (context : CodeContext) (id : InstructionId) : Lower UInt32 :=
  match context.starts.lookup id with
  | some start => pure (UInt32.ofNat start)
  | none => throw (.flaw (.target (.outside id (context.program.methodText context.method))))

/-- How a call is dispatched, given that its target's marker is known. -/
def dispatch (context : CodeContext) (call : Call) : Dispatch :=
  let entry := context.program.methodAt call.method
  match call.kind with
  | .construct => .direct
  | .special =>
    if entry.isConstructor ∨ entry.owner = (context.program.methodAt context.method).owner then .direct
    else .super
  | .normal =>
    if entry.marker = some true then .static
    else if (context.program.typeAt entry.owner).isInterface then .interface
    else .virtual

def requireMarker (context : CodeContext) (symbol : Symbol) : Lower Unit :=
  match context.program.marker symbol with
  | some _ => pure ()
  | none => throw (.unresolved (.marker (context.program.symbolText symbol)))

def lowerCall (context : CodeContext) (call : Call) : Lower (List RawInstruction) := do
  context.requireMarker (.method call.method)
  let instance? := if call.kind = .construct then call.result.toList else []
  let arguments ← (instance? ++ call.arguments).mapM context.register
  refuse (arguments.length > context.argumentLimit.toNat)
    (Fault.capacityExceeded .arguments arguments.length context.argumentLimit.toNat)
  let method ← Lower.methodRef context.program call.method
  let invoke := RawInstruction.invoke (context.dispatch call) method arguments
  if call.kind = .construct then
    match arguments with
    | [] =>
      throw (.flaw (.operands (.missingInstance (context.program.methodText call.method))))
    | dst :: _ =>
      let type ← Lower.typeRef context.program (context.program.methodAt call.method).owner
      return [.newInstance dst type, invoke]
  else
    match call.result with
    | none => return [invoke]
    | some result => return [invoke, .moveResult (← context.register result)]

def lowerAccess (context : CodeContext) (use : FieldAccess) : Lower RawInstruction := do
  context.requireMarker (.field use.field)
  let field ← Lower.fieldRef context.program use.field
  let value ← context.register use.value
  match use.kind, use.object with
  | .load, none => return .staticGet value field
  | .load, some object => return .instanceGet value (← context.register object) field
  | .store, none => return .staticPut value field
  | .store, some object => return .instancePut value (← context.register object) field

def lowerConstant (context : CodeContext) (dst : UInt16) : Constant → Lower RawInstruction
  | .null => return .constNull dst
  | .int value => return .constInt dst value
  | .long value => return .constWide dst value
  | .float bits => return .constFloat dst bits
  | .double bits => return .constDouble dst bits
  | .text value => return .constText dst (← Lower.intern (Pool.Builder.internText value))
  | .classOf type => return .constClass dst (← Lower.typeRef context.program type)

def lower (context : CodeContext) : Instruction → Lower (List RawInstruction)
  | .invoke call => context.lowerCall call
  | .access use => return [← context.lowerAccess use]
  | .const target value => return [← context.lowerConstant (← context.register target) value]
  | .move target source =>
    return [.move (← context.register target) (← context.register source)]
  | .ret none => return [.returnVoid]
  | .ret (some value) => return [.returnValue (← context.register value)]
  | .branch test target => do
    let position ← context.target target
    match test with
    | none => return [.goto position]
    | some ⟨comparison, left, some right⟩ =>
      return [.ifCompare comparison (← context.register left) (← context.register right) position]
    | some ⟨comparison, left, none⟩ =>
      return [.ifZero comparison (← context.register left) position]
  | .binary operator target left right =>
    return [.binary operator (← context.register target) (← context.register left)
      (← context.register right)]
  | .newArray target length type =>
    return [.newArray (← context.register target) (← context.register length)
      (← Lower.typeRef context.program type)]
  | .arrayLength target array =>
    return [.arrayLength (← context.register target) (← context.register array)]
  | .checkCast target value type =>
    return [.checkCast (← context.register target) (← context.register value)
      (← Lower.typeRef context.program type)]
  | .instanceOf target value type =>
    return [.instanceOf (← context.register target) (← context.register value)
      (← Lower.typeRef context.program type)]
  | .throwValue value => return [.throwValue (← context.register value)]

end CodeContext

namespace Program

/-- The attached instructions of a body with their handles. -/
def listBody (program : Program) (body : Body) : Except Fault (List (InstructionId × Instruction)) :=
  body.instructions.toList.mapM fun id =>
    match program.instruction? id with
    | some instruction => .ok (id, instruction)
    | none => .error (.unknownInstruction id)

/-- The raw position of every instruction, when the first stands at `start`. -/
def rawStarts : Nat → List (InstructionId × Instruction) → List (InstructionId × Nat)
  | _, [] => []
  | start, (id, instruction) :: rest => (id, start) :: rawStarts (start + instruction.rawLength) rest

def rawTotal (listed : List (InstructionId × Instruction)) : Nat :=
  listed.foldr (fun entry total => entry.2.rawLength + total) 0

def lowerBody (program : Program) (limits : Limits) (method : MethodId) (body : Body) :
    Lower CodeItem := do
  let plan ← RegisterPlan.ofBody program body limits.registers
  let listed ← program.listBody body
  let total := rawTotal listed
  refuse (total > limits.instructions.toNat)
    (Fault.capacityExceeded .instructions total limits.instructions.toNat)
  let context : CodeContext :=
    ⟨program, method, plan, rawStarts 0 listed, limits.arguments⟩
  let raw ← listed.mapM fun (_, instruction) => context.lower instruction
  return ⟨UInt16.ofNat plan.tags.length, UInt16.ofNat plan.parameterRegisters, plan.tags,
    raw.flatten.toArray⟩

def lowerMethod (program : Program) (limits : Limits) (method : MethodId) : Lower MethodDef := do
  let entry := program.methodAt method
  let code ← entry.body.mapM (program.lowerBody limits method)
  let reference ← Lower.methodRef program method
  return ⟨reference, entry.declaration.getD 0, code⟩

def lowerField (program : Program) (field : FieldId) : Lower FieldDef := do
  let reference ← Lower.fieldRef program field
  return ⟨reference, (program.fieldAt field).declaration.getD 0⟩

def lowerClass (program : Program) (limits : Limits) (type : TypeId) : Lower ClassDef := do
  match (program.typeAt type).definition? with
  | none => throw (.flaw (.notLocal (.definition (program.typeText type))))
  | some definition =>
    let fields ← definition.fields.toList.mapM program.lowerField
    let methods ← definition.methods.toList.mapM (program.lowerMethod limits)
    let self ← Lower.typeRef program type
    let superclass ← definition.superclass.mapM (Lower.typeRef program)
    let interfaces ← definition.interfaces.mapM (Lower.typeRef program)
    let source ← definition.source.mapM fun source => Lower.intern (Pool.Builder.internText source)
    return ⟨self, definition.access, superclass, interfaces, source, fields, methods⟩

/-- The pool stays within the limits. -/
def checkPool (limits : Limits) (pool : Pool) : Except Fault Unit := do
  let bound (capacity : Capacity) (count : Nat) (limit : UInt32) : Except Fault Unit :=
    if count > limit.toNat then .error (.capacityExceeded capacity count limit.toNat) else .ok ()
  bound .texts pool.texts.size limits.texts
  bound .types pool.types.size limits.types
  bound .fields pool.fields.size limits.fields
  bound .methods pool.methods.size limits.methods

/-- The image of all defined types. -/
def toImage (program : Program) (limits : Limits) : Except Fault Image := do
  let (classes, builder) ← (program.defined.toList.mapM (program.lowerClass limits)).run {}
  checkPool limits builder.pool
  let flags := if classes.any fun definition => definition.source.isSome then Image.hasSources else 0
  let image : Image := ⟨flags, builder.pool, classes⟩
  match image.verify with
  | .ok () => return image
  | .error fault => throw (.invalidBody fault)

def encode (program : Program) (limits : Limits) : Except Fault Bytes := do
  return (← program.toImage limits).encode

end Program

end ClassImage
