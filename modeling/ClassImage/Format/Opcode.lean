/-!
Operation codes of the instruction stream, with the byte and the mnemonic of
each, and the small tagged operands: comparisons, operators and dispatch.
-/

namespace ClassImage

inductive Opcode where
  | nop
  | move
  | returnVoid
  | returnValue
  | moveResult
  | constInt
  | constWide
  | constFloat
  | constDouble
  | constText
  | constClass
  | constNull
  | newInstance
  | newArray
  | arrayLength
  | checkCast
  | instanceOf
  | throwValue
  | goto
  | ifCompare
  | ifZero
  | binary
  | instanceGet
  | instancePut
  | staticGet
  | staticPut
  | invokeVirtual
  | invokeSuper
  | invokeDirect
  | invokeStatic
  | invokeInterface
deriving DecidableEq

namespace Opcode

def all : List Opcode :=
  [.nop, .move, .returnVoid, .returnValue, .moveResult, .constInt, .constWide,
   .constFloat, .constDouble, .constText, .constClass, .constNull, .newInstance,
   .newArray, .arrayLength, .checkCast, .instanceOf, .throwValue, .goto, .ifCompare,
   .ifZero, .binary, .instanceGet, .instancePut, .staticGet, .staticPut, .invokeVirtual,
   .invokeSuper, .invokeDirect, .invokeStatic, .invokeInterface]

def byte : Opcode → UInt8
  | .nop => 0x00
  | .move => 0x01
  | .returnVoid => 0x02
  | .returnValue => 0x03
  | .moveResult => 0x04
  | .constInt => 0x10
  | .constWide => 0x11
  | .constFloat => 0x12
  | .constDouble => 0x13
  | .constText => 0x14
  | .constClass => 0x15
  | .constNull => 0x16
  | .newInstance => 0x20
  | .newArray => 0x21
  | .arrayLength => 0x22
  | .checkCast => 0x23
  | .instanceOf => 0x24
  | .throwValue => 0x25
  | .goto => 0x30
  | .ifCompare => 0x31
  | .ifZero => 0x32
  | .binary => 0x38
  | .instanceGet => 0x40
  | .instancePut => 0x41
  | .staticGet => 0x42
  | .staticPut => 0x43
  | .invokeVirtual => 0x50
  | .invokeSuper => 0x51
  | .invokeDirect => 0x52
  | .invokeStatic => 0x53
  | .invokeInterface => 0x54

/-- The operation a byte encodes, if any. -/
def ofByte? (byte : UInt8) : Option Opcode :=
  all.find? fun opcode => opcode.byte = byte

def name : Opcode → String
  | .nop => "nop"
  | .move => "move"
  | .returnVoid => "return-void"
  | .returnValue => "return"
  | .moveResult => "move-result"
  | .constInt => "const"
  | .constWide => "const-wide"
  | .constFloat => "const-float"
  | .constDouble => "const-double"
  | .constText => "const-string"
  | .constClass => "const-class"
  | .constNull => "const-null"
  | .newInstance => "new-instance"
  | .newArray => "new-array"
  | .arrayLength => "array-length"
  | .checkCast => "check-cast"
  | .instanceOf => "instance-of"
  | .throwValue => "throw"
  | .goto => "goto"
  | .ifCompare => "if"
  | .ifZero => "if-z"
  | .binary => "binop"
  | .instanceGet => "iget"
  | .instancePut => "iput"
  | .staticGet => "sget"
  | .staticPut => "sput"
  | .invokeVirtual => "invoke-virtual"
  | .invokeSuper => "invoke-super"
  | .invokeDirect => "invoke-direct"
  | .invokeStatic => "invoke-static"
  | .invokeInterface => "invoke-interface"

def isBranch : Opcode → Bool
  | .goto | .ifCompare | .ifZero => true
  | _ => false

def isInvoke : Opcode → Bool
  | .invokeVirtual | .invokeSuper | .invokeDirect | .invokeStatic | .invokeInterface => true
  | _ => false

def isReturn : Opcode → Bool
  | .returnValue | .returnVoid => true
  | _ => false

/-- Control never reaches the instruction after this one. -/
def isTerminator : Opcode → Bool
  | .returnValue | .returnVoid | .goto | .throwValue => true
  | _ => false

end Opcode

/-- Comparison of a conditional branch. -/
inductive Comparison where
  | eq
  | ne
  | lt
  | ge
  | gt
  | le
deriving DecidableEq

namespace Comparison

def all : List Comparison := [.eq, .ne, .lt, .ge, .gt, .le]

def tag : Comparison → UInt8
  | .eq => 0
  | .ne => 1
  | .lt => 2
  | .ge => 3
  | .gt => 4
  | .le => 5

def ofTag? (tag : UInt8) : Option Comparison :=
  all.find? fun comparison => comparison.tag = tag

def name : Comparison → String
  | .eq => "eq"
  | .ne => "ne"
  | .lt => "lt"
  | .ge => "ge"
  | .gt => "gt"
  | .le => "le"

end Comparison

/-- Arithmetic operator. -/
inductive Operator where
  | add
  | sub
  | mul
  | div
  | rem
  | and
  | or
  | xor
  | shl
  | shr
  | ushr
deriving DecidableEq

namespace Operator

def all : List Operator :=
  [.add, .sub, .mul, .div, .rem, .and, .or, .xor, .shl, .shr, .ushr]

def tag : Operator → UInt8
  | .add => 0
  | .sub => 1
  | .mul => 2
  | .div => 3
  | .rem => 4
  | .and => 5
  | .or => 6
  | .xor => 7
  | .shl => 8
  | .shr => 9
  | .ushr => 10

def ofTag? (tag : UInt8) : Option Operator :=
  all.find? fun operator => operator.tag = tag

def name : Operator → String
  | .add => "add"
  | .sub => "sub"
  | .mul => "mul"
  | .div => "div"
  | .rem => "rem"
  | .and => "and"
  | .or => "or"
  | .xor => "xor"
  | .shl => "shl"
  | .shr => "shr"
  | .ushr => "ushr"

end Operator

/-- How an invocation finds the code to run. -/
inductive Dispatch where
  | virtual
  | super
  | direct
  | static
  | interface
deriving DecidableEq

namespace Dispatch

def all : List Dispatch := [.virtual, .super, .direct, .static, .interface]

def opcode : Dispatch → Opcode
  | .virtual => .invokeVirtual
  | .super => .invokeSuper
  | .direct => .invokeDirect
  | .static => .invokeStatic
  | .interface => .invokeInterface

end Dispatch

end ClassImage
