import ClassImage.Bytes.Reader
import ClassImage.Format.Opcode

/-!
Instructions as an image stores them. Operands are register numbers, pool
indices and instruction positions; nothing here resolves them. Floating-point
constants are kept as bit patterns. An instruction is its operation code
followed by its operands in the order of its fields.
-/

namespace ClassImage

inductive RawInstruction where
  | nop
  | move (dst src : UInt16)
  | returnVoid
  | returnValue (src : UInt16)
  | moveResult (dst : UInt16)
  | constInt (dst : UInt16) (value : Int32)
  | constWide (dst : UInt16) (value : Int64)
  | constFloat (dst : UInt16) (bits : UInt32)
  | constDouble (dst : UInt16) (bits : UInt64)
  | constText (dst : UInt16) (text : UInt32)
  | constClass (dst : UInt16) (type : UInt32)
  | constNull (dst : UInt16)
  | newInstance (dst : UInt16) (type : UInt32)
  | newArray (dst length : UInt16) (type : UInt32)
  | arrayLength (dst array : UInt16)
  | checkCast (dst src : UInt16) (type : UInt32)
  | instanceOf (dst src : UInt16) (type : UInt32)
  | throwValue (src : UInt16)
  | goto (target : UInt32)
  | ifCompare (comparison : Comparison) (a b : UInt16) (target : UInt32)
  | ifZero (comparison : Comparison) (a : UInt16) (target : UInt32)
  | binary (operator : Operator) (dst a b : UInt16)
  | instanceGet (dst object : UInt16) (field : UInt32)
  | instancePut (src object : UInt16) (field : UInt32)
  | staticGet (dst : UInt16) (field : UInt32)
  | staticPut (src : UInt16) (field : UInt32)
  | invoke (dispatch : Dispatch) (method : UInt32) (arguments : List UInt16)
deriving DecidableEq

/-- A table of the constant pool that instructions refer to. -/
inductive PoolTable where
  | text
  | type
  | proto
  | field
  | method
deriving DecidableEq

def PoolTable.name : PoolTable → String
  | .text => "string"
  | .type => "type"
  | .proto => "proto"
  | .field => "field"
  | .method => "method"

namespace RawInstruction

def opcode : RawInstruction → Opcode
  | .nop => .nop
  | .move .. => .move
  | .returnVoid => .returnVoid
  | .returnValue .. => .returnValue
  | .moveResult .. => .moveResult
  | .constInt .. => .constInt
  | .constWide .. => .constWide
  | .constFloat .. => .constFloat
  | .constDouble .. => .constDouble
  | .constText .. => .constText
  | .constClass .. => .constClass
  | .constNull .. => .constNull
  | .newInstance .. => .newInstance
  | .newArray .. => .newArray
  | .arrayLength .. => .arrayLength
  | .checkCast .. => .checkCast
  | .instanceOf .. => .instanceOf
  | .throwValue .. => .throwValue
  | .goto .. => .goto
  | .ifCompare .. => .ifCompare
  | .ifZero .. => .ifZero
  | .binary .. => .binary
  | .instanceGet .. => .instanceGet
  | .instancePut .. => .instancePut
  | .staticGet .. => .staticGet
  | .staticPut .. => .staticPut
  | .invoke dispatch .. => dispatch.opcode

/-- Every register operand, in operand order. -/
def registers : RawInstruction → List UInt16
  | .nop | .returnVoid | .goto _ => []
  | .move dst src => [dst, src]
  | .returnValue src | .throwValue src | .staticPut src _ => [src]
  | .moveResult dst | .constInt dst _ | .constWide dst _ | .constFloat dst _ | .constDouble dst _
  | .constText dst _ | .constClass dst _ | .constNull dst | .newInstance dst _
  | .staticGet dst _ => [dst]
  | .newArray dst length _ => [dst, length]
  | .arrayLength dst array => [dst, array]
  | .checkCast dst src _ | .instanceOf dst src _ => [dst, src]
  | .ifCompare _ a b _ => [a, b]
  | .ifZero _ a _ => [a]
  | .binary _ dst a b => [dst, a, b]
  | .instanceGet dst object _ => [dst, object]
  | .instancePut src object _ => [src, object]
  | .invoke _ _ arguments => arguments

def target? : RawInstruction → Option UInt32
  | .goto target | .ifCompare _ _ _ target | .ifZero _ _ target => some target
  | _ => none

/-- The pool entry an instruction refers to. -/
def poolEntry? : RawInstruction → Option (PoolTable × UInt32)
  | .constText _ text => some (.text, text)
  | .constClass _ type | .newInstance _ type | .newArray _ _ type | .checkCast _ _ type
  | .instanceOf _ _ type => some (.type, type)
  | .instanceGet _ _ field | .instancePut _ _ field | .staticGet _ field
  | .staticPut _ field => some (.field, field)
  | .invoke _ method _ => some (.method, method)
  | _ => none

open Bytes (ofUInt16 ofUInt32 ofUInt64)

/-- The operands in stream order. An argument count has one byte. -/
def operands : RawInstruction → Bytes
  | .nop | .returnVoid => []
  | .move a b | .arrayLength a b => ofUInt16 a ++ ofUInt16 b
  | .returnValue a | .moveResult a | .constNull a | .throwValue a => ofUInt16 a
  | .constInt dst value => ofUInt16 dst ++ ofUInt32 value.toUInt32
  | .constWide dst value => ofUInt16 dst ++ ofUInt64 value.toUInt64
  | .constFloat dst bits => ofUInt16 dst ++ ofUInt32 bits
  | .constDouble dst bits => ofUInt16 dst ++ ofUInt64 bits
  | .constText a index | .constClass a index | .newInstance a index | .staticGet a index
  | .staticPut a index => ofUInt16 a ++ ofUInt32 index
  | .newArray a b index | .checkCast a b index | .instanceOf a b index | .instanceGet a b index
  | .instancePut a b index => ofUInt16 a ++ ofUInt16 b ++ ofUInt32 index
  | .goto target => ofUInt32 target
  | .ifCompare comparison a b target =>
    comparison.tag :: (ofUInt16 a ++ ofUInt16 b ++ ofUInt32 target)
  | .ifZero comparison a target => comparison.tag :: (ofUInt16 a ++ ofUInt32 target)
  | .binary operator dst a b => operator.tag :: (ofUInt16 dst ++ ofUInt16 a ++ ofUInt16 b)
  | .invoke _ method arguments =>
    ofUInt32 method ++ UInt8.ofNat arguments.length :: arguments.flatMap ofUInt16

def encode (instruction : RawInstruction) : Bytes :=
  instruction.opcode.byte :: instruction.operands

end RawInstruction

namespace Reader

def opcode : Reader Opcode := do
  let offset ← position
  let byte ← u8
  match Opcode.ofByte? byte with
  | some opcode => return opcode
  | none => throw (.invalidOpcode byte offset)

/-- A tag byte that must denote one of a few values. -/
def tagged (ofTag? : UInt8 → Option α) : Reader α := do
  let offset ← position
  let tag ← u8
  match ofTag? tag with
  | some value => return value
  | none => throw (.invalidTag tag offset)

def invoke (dispatch : Dispatch) : Reader RawInstruction := do
  let method ← u32
  let size ← u8
  return .invoke dispatch method (← times size.toNat u16)

/-- The operands that follow an operation code. -/
def operands : Opcode → Reader RawInstruction
  | .nop => return .nop
  | .move => return .move (← u16) (← u16)
  | .returnVoid => return .returnVoid
  | .returnValue => return .returnValue (← u16)
  | .moveResult => return .moveResult (← u16)
  | .constInt => return .constInt (← u16) (← int32)
  | .constWide => return .constWide (← u16) (← int64)
  | .constFloat => return .constFloat (← u16) (← u32)
  | .constDouble => return .constDouble (← u16) (← u64)
  | .constText => return .constText (← u16) (← u32)
  | .constClass => return .constClass (← u16) (← u32)
  | .constNull => return .constNull (← u16)
  | .newInstance => return .newInstance (← u16) (← u32)
  | .newArray => return .newArray (← u16) (← u16) (← u32)
  | .arrayLength => return .arrayLength (← u16) (← u16)
  | .checkCast => return .checkCast (← u16) (← u16) (← u32)
  | .instanceOf => return .instanceOf (← u16) (← u16) (← u32)
  | .throwValue => return .throwValue (← u16)
  | .goto => return .goto (← u32)
  | .ifCompare => return .ifCompare (← tagged Comparison.ofTag?) (← u16) (← u16) (← u32)
  | .ifZero => return .ifZero (← tagged Comparison.ofTag?) (← u16) (← u32)
  | .binary => return .binary (← tagged Operator.ofTag?) (← u16) (← u16) (← u16)
  | .instanceGet => return .instanceGet (← u16) (← u16) (← u32)
  | .instancePut => return .instancePut (← u16) (← u16) (← u32)
  | .staticGet => return .staticGet (← u16) (← u32)
  | .staticPut => return .staticPut (← u16) (← u32)
  | .invokeVirtual => invoke .virtual
  | .invokeSuper => invoke .super
  | .invokeDirect => invoke .direct
  | .invokeStatic => invoke .static
  | .invokeInterface => invoke .interface

def instruction : Reader RawInstruction := do operands (← opcode)

end Reader

end ClassImage
