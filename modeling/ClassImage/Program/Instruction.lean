import ClassImage.Format.Numeric
import ClassImage.Program.Symbol

/-!
Instructions of a program. Operands are locals and handles of the program that
holds the instruction; a branch names the instruction it goes to.
-/

namespace ClassImage

inductive CallKind where
  /-- Static, virtual or interface dispatch, as the target decides. -/
  | normal
  /-- Dispatch to exactly the named instance method. -/
  | special
  /-- Allocation of the constructor's owner, then the constructor. -/
  | construct
deriving DecidableEq

structure Call where
  kind : CallKind
  method : MethodId
  owner : TypeId
  /-- The receiver comes first, except that a constructor's receiver is the result. -/
  arguments : List Local
  result : Option Local
deriving DecidableEq

inductive Constant where
  | null
  | int (value : Int32)
  | long (value : Int64)
  | float (bits : UInt32)
  | double (bits : UInt64)
  | text (value : String)
  | classOf (type : TypeId)
deriving DecidableEq

inductive AccessKind where
  | load
  | store
deriving DecidableEq

structure FieldAccess where
  kind : AccessKind
  field : FieldId
  value : Local
  /-- The object that holds the field; static fields have none. -/
  object : Option Local
deriving DecidableEq

/-- The condition of a branch. Without a right side the left is compared with zero. -/
structure Test where
  comparison : Comparison
  left : Local
  right : Option Local
deriving DecidableEq

inductive Instruction where
  | invoke (call : Call)
  | const (target : Local) (value : Constant)
  | access (field : FieldAccess)
  | move (target source : Local)
  | ret (value : Option Local)
  | branch (test : Option Test) (target : InstructionId)
  | binary (operator : Operator) (target left right : Local)
  | newArray (target length : Local) (type : TypeId)
  | arrayLength (target array : Local)
  | checkCast (target value : Local) (type : TypeId)
  | instanceOf (target value : Local) (type : TypeId)
  | throwValue (value : Local)
deriving DecidableEq

namespace Instruction

/-- The symbols an instruction refers to, and how. -/
def references : Instruction → List (Symbol × UseKind)
  | .invoke call =>
    match call.kind with
    | .construct => [(.type call.owner, .newInstance), (.method call.method, .newInstance)]
    | .normal | .special => [(.method call.method, .invoke)]
  | .const _ (.classOf type) => [(.type type, .constClass)]
  | .access use =>
    match use.kind with
    | .load => [(.field use.field, .fieldLoad)]
    | .store => [(.field use.field, .fieldStore)]
  | .newArray _ _ type => [(.type type, .newArray)]
  | .checkCast _ _ type => [(.type type, .checkCast)]
  | .instanceOf _ _ type => [(.type type, .instanceOf)]
  | _ => []

def writes : Instruction → List Local
  | .invoke call => call.result.toList
  | .const target _ => [target]
  | .access use =>
    match use.kind with
    | .load => [use.value]
    | .store => []
  | .move target _ | .binary _ target _ _ | .newArray target _ _ | .arrayLength target _
  | .checkCast target _ _ | .instanceOf target _ _ => [target]
  | .ret _ | .branch _ _ | .throwValue _ => []

/-- The locals read, in operand order. -/
def reads : Instruction → List Local
  | .invoke call => call.arguments
  | .const _ _ => []
  | .access use =>
    match use.kind with
    | .load => use.object.toList
    | .store => use.value :: use.object.toList
  | .move _ source => [source]
  | .ret value => value.toList
  | .branch none _ => []
  | .branch (some test) _ => test.left :: test.right.toList
  | .binary _ _ left right => [left, right]
  | .newArray _ length _ => [length]
  | .arrayLength _ array => [array]
  | .checkCast _ value _ | .instanceOf _ value _ => [value]
  | .throwValue value => [value]

/-- Every local operand: writes first, then reads. -/
def locals (instruction : Instruction) : List Local := instruction.writes ++ instruction.reads

def target? : Instruction → Option InstructionId
  | .branch _ target => some target
  | _ => none

/-- Moves a branch from one target to another; all else stays. -/
def retarget (old new : InstructionId) : Instruction → Instruction
  | .branch test target => .branch test (if target = old then new else target)
  | instruction => instruction

/-- The instruction up to the sign of zero; none when it holds a value that is not a number. -/
def numeric? : Instruction → Option Instruction
  | .const target (.float bits) =>
    (FloatBits.number32? bits).map fun bits => .const target (.float bits)
  | .const target (.double bits) =>
    (FloatBits.number64? bits).map fun bits => .const target (.double bits)
  | instruction => some instruction

def sameNumbers (left right : Instruction) : Bool :=
  match left.numeric?, right.numeric? with
  | some left, some right => left = right
  | _, _ => false

end Instruction

end ClassImage
