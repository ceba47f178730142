import ClassImage.Format.Image

/-!
Structural verification of an image: every index resolves, declared members
belong to their class, and code is well formed. Two pairs of instructions are
fused: an allocation with the constructor call after it, and an invocation with
the instruction that takes its result. Control can neither enter a pair in the
middle nor run past the last instruction.

The checks run in a fixed order and the first that fails is reported.
-/

namespace ClassImage

namespace RegisterTag

def long : UInt8 := 6

def double : UInt8 := 8

/-- The second register of a pair. -/
def highHalf : UInt8 := 9

/-- The first register of a pair. -/
def isWide (tag : UInt8) : Bool := tag = long || tag = double

def isValid (tag : UInt8) : Bool := tag ≤ highHalf

end RegisterTag

inductive CodeFlaw where
  | kindTableSize
  | parameterRegisters
  | unknownKind
  | missingHighHalf
  | orphanResult
  | orphanAllocation
  | openEnd
deriving DecidableEq

def CodeFlaw.message : CodeFlaw → String
  | .kindTableSize => "register kind table size mismatch"
  | .parameterRegisters => "more parameter registers than registers"
  | .unknownKind => "unknown register kind"
  | .missingHighHalf => "wide register without its high half"
  | .orphanResult => "move-result without preceding invoke"
  | .orphanAllocation => "new-instance not followed by its constructor call"
  | .openEnd => "execution falls off the end of the code"

inductive VerifyFault where
  | invalidIndex (table : PoolTable) (index : UInt32) (size : Nat)
  | invalidRegister (register registers : UInt16) (method : String) (offset : Nat)
  | invalidTarget (target : UInt32) (method : String) (offset : Nat)
  | malformedCode (method : String) (offset : Nat) (flaw : CodeFlaw)
  | foreignField (field : UInt32)
  | foreignMethod (method : UInt32)
deriving DecidableEq

def VerifyFault.message : VerifyFault → String
  | .invalidIndex table index size =>
    s!"Invalid {table.name} reference: index {index.toNat} (pool size {size})"
  | .invalidRegister register registers method offset =>
    s!"Invalid register v{register.toNat} (registers: {registers.toNat}) in {method} at {offset}"
  | .invalidTarget target method offset =>
    s!"Invalid branch target {target.toNat} in {method} at {offset}"
  | .malformedCode method offset flaw => s!"Malformed code in {method} at {offset}: {flaw.message}"
  | .foreignField field => s!"Class validation error: field {field.toNat} declared outside its owner"
  | .foreignMethod method =>
    s!"Class validation error: method {method.toNat} declared outside its owner"

namespace Pool

def checkIndex (pool : Pool) (table : PoolTable) (index : UInt32) : Except VerifyFault Unit :=
  if index.toNat < pool.size table then .ok ()
  else .error (.invalidIndex table index (pool.size table))

/-- Every index inside the pool resolves. -/
def verify (pool : Pool) : Except VerifyFault Unit := do
  pool.types.forM (pool.checkIndex .text)
  pool.protos.forM fun proto => do
    pool.checkIndex .type proto.result
    proto.parameters.forM (pool.checkIndex .type)
  pool.fields.forM fun field => do
    pool.checkIndex .type field.owner
    pool.checkIndex .type field.type
    pool.checkIndex .text field.name
  pool.methods.forM fun method => do
    pool.checkIndex .type method.owner
    pool.checkIndex .proto method.proto
    pool.checkIndex .text method.name

def constructorName : String := "<init>"

def isConstructor (pool : Pool) (method : UInt32) : Bool :=
  ((pool.method? method).bind fun reference => pool.text? reference.name) == some constructorName

/-- Owner, name and prototype of a method, or its index where one of them is missing. -/
def methodText (pool : Pool) (method : UInt32) : String :=
  let text := do
    let reference ← pool.method? method
    let owner ← pool.type? reference.owner
    let name ← pool.text? reference.name
    let proto ← pool.protoText? reference.proto
    return owner ++ "->" ++ name ++ proto
  text.getD s!"method#{method.toNat}"

end Pool

namespace CodeItem

/-- Kinds are known and every wide register is followed by its high half. -/
def checkKinds (method : String) : List UInt8 → Except VerifyFault Unit
  | [] => .ok ()
  | tag :: rest =>
    if !RegisterTag.isValid tag then .error (.malformedCode method 0 .unknownKind)
    else if RegisterTag.isWide tag && rest.head? != some RegisterTag.highHalf then
      .error (.malformedCode method 0 .missingHighHalf)
    else checkKinds method rest

def instruction? (code : CodeItem) (index : Nat) : Option RawInstruction := code.instructions[index]?

def before? (code : CodeItem) : Nat → Option RawInstruction
  | 0 => none
  | index + 1 => code.instruction? index

/-- Control may arrive at this position: it holds an instruction, and not the second of a pair. -/
def isStart (code : CodeItem) (index : Nat) : Bool :=
  match code.instruction? index with
  | none => false
  | some (.moveResult _) => false
  | some (.invoke .direct _ _) =>
    match code.before? index with
    | some (.newInstance _ _) => false
    | _ => true
  | some _ => true

/-- The instruction is in its place with respect to its neighbours. -/
def checkPairing (code : CodeItem) (pool : Pool) (method : String) (offset : Nat) :
    RawInstruction → Except VerifyFault Unit
  | .moveResult _ =>
    match code.before? offset with
    | some (.invoke _ _ _) => .ok ()
    | _ => .error (.malformedCode method offset .orphanResult)
  | .newInstance dst _ =>
    match code.instruction? (offset + 1) with
    | some (.invoke .direct constructor arguments) =>
      if arguments.head? = some dst ∧ pool.isConstructor constructor then .ok ()
      else .error (.malformedCode method offset .orphanAllocation)
    | _ => .error (.malformedCode method offset .orphanAllocation)
  | _ => .ok ()

def checkInstruction (code : CodeItem) (pool : Pool) (method : String) (offset : Nat)
    (instruction : RawInstruction) : Except VerifyFault Unit := do
  instruction.registers.forM fun register =>
    if register < code.registers then .ok ()
    else .error (.invalidRegister register code.registers method offset)
  match instruction.poolEntry? with
  | some (table, index) => pool.checkIndex table index
  | none => pure ()
  match instruction.target? with
  | some target =>
    refuse (¬code.isStart target.toNat) (VerifyFault.invalidTarget target method offset)
  | none => pure ()
  code.checkPairing pool method offset instruction

def verify (code : CodeItem) (pool : Pool) (method : String) : Except VerifyFault Unit := do
  refuse (code.kinds.length ≠ code.registers.toNat)
    (VerifyFault.malformedCode method 0 .kindTableSize)
  refuse (code.parameterRegisters > code.registers)
    (VerifyFault.malformedCode method 0 .parameterRegisters)
  checkKinds method code.kinds
  code.instructions.toList.zipIdx.forM fun (instruction, offset) =>
    code.checkInstruction pool method offset instruction
  match code.instructions.back? with
  | some last =>
    refuse (¬last.opcode.isTerminator)
      (VerifyFault.malformedCode method (code.instructions.size - 1) .openEnd)
  | none => pure ()

end CodeItem

namespace ClassDef

def verify (definition : ClassDef) (pool : Pool) : Except VerifyFault Unit := do
  pool.checkIndex .type definition.type
  definition.superclass.forM (pool.checkIndex .type)
  definition.interfaces.forM (pool.checkIndex .type)
  definition.source.forM (pool.checkIndex .text)
  definition.fields.forM fun field => do
    pool.checkIndex .field field.field
    refuse ((pool.field? field.field).map (·.owner) ≠ some definition.type)
      (VerifyFault.foreignField field.field)
  definition.methods.forM fun method => do
    pool.checkIndex .method method.method
    refuse ((pool.method? method.method).map (·.owner) ≠ some definition.type)
      (VerifyFault.foreignMethod method.method)
    match method.code with
    | some code => code.verify pool (pool.methodText method.method)
    | none => pure ()

end ClassDef

def Image.verify (image : Image) : Except VerifyFault Unit := do
  image.pool.verify
  image.classes.forM fun definition => definition.verify image.pool

end ClassImage
