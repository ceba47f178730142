import ClassImage.Program.Loading
import ClassImage.Proofs.Codec.Instruction
import ClassImage.Proofs.Lowering.Yields

/-!
Instructions and the units they are lowered to. One instruction becomes one
unit: the raw instructions that loading groups together again. The relation
between the two names the registers of the locals, the raw positions of branch
targets, and indices by what they stand for in the finished pool.
-/

namespace ClassImage

/-- The raw instructions of a unit. -/
def CodeUnit.raws : CodeUnit → List RawInstruction
  | .allocation dst type constructor arguments =>
    [.newInstance dst type, .invoke .direct constructor arguments]
  | .call dispatch method arguments none => [.invoke dispatch method arguments]
  | .call dispatch method arguments (some dst) => [.invoke dispatch method arguments, .moveResult dst]
  | .single instruction => [instruction]

theorem CodeUnit.raws_ne_nil (unit : CodeUnit) : unit.raws ≠ [] := by
  cases unit with
  | call dispatch method arguments result => cases result <;> simp [raws]
  | _ => simp [raws]

/-- A unit of one raw instruction, as far as it does not begin or end another unit. -/
def RawInstruction.Single : RawInstruction → Prop
  | .nop | .moveResult _ | .newInstance _ _ | .invoke _ _ _ => False
  | _ => True

/-- A unit that is found again in its raw instructions. -/
def CodeUnit.Proper : CodeUnit → Prop
  | .single instruction => instruction.Single
  | _ => True

namespace Pool

/-- The index stands for the descriptor of a type of the program. -/
def NamesType (pool : Pool) (program : Program) (index : UInt32) (type : TypeId) : Prop :=
  pool.type? index = some (program.typeText type)

def NamesMethod (pool : Pool) (program : Program) (index : UInt32) (method : MethodId) : Prop :=
  pool.MethodIs index (program.typeText (program.methodAt method).owner)
    (program.methodAt method).name (program.methodAt method).signature.result.text
    ((program.methodAt method).signature.parameters.map Descriptor.text)

def NamesField (pool : Pool) (program : Program) (index : UInt32) (field : FieldId) : Prop :=
  pool.FieldIs index (program.typeText (program.fieldAt field).owner)
    (program.fieldAt field).name (program.fieldAt field).type.text

/-- The raw instruction puts a constant into a register. -/
def Loads (pool : Pool) (program : Program) (dst : UInt16) : Constant → RawInstruction → Prop
  | .null, raw => raw = .constNull dst
  | .int value, raw => raw = .constInt dst value
  | .long value, raw => raw = .constWide dst value
  | .float bits, raw => raw = .constFloat dst bits
  | .double bits, raw => raw = .constDouble dst bits
  | .text value, raw => ∃ index, pool.text? index = some value ∧ raw = .constText dst index
  | .classOf type, raw => ∃ index, pool.NamesType program index type ∧ raw = .constClass dst index

end Pool

def CodeContext.Places (context : CodeContext) (slot : Local) (register : UInt16) : Prop :=
  context.plan.register? slot = some register

/-- The raw position of a branch is the start of its target. -/
def CodeContext.Reaches (context : CodeContext) (target : InstructionId) (position : UInt32) : Prop :=
  ∃ start, context.starts.lookup target = some start ∧ position = UInt32.ofNat start

/-- The raw form of a field access. -/
def AccessKind.raw (value : UInt16) (field : UInt32) : AccessKind → Option UInt16 → RawInstruction
  | .load, none => .staticGet value field
  | .load, some object => .instanceGet value object field
  | .store, none => .staticPut value field
  | .store, some object => .instancePut value object field

/-- How an instruction is lowered, in terms of the finished pool. -/
inductive Lowered (final : Pool) (context : CodeContext) : Instruction → CodeUnit → Prop
  | construct {call : Call} {result : Local} {dst : UInt16} {type constructor : UInt32}
      {arguments : List UInt16} (kind : call.kind = .construct)
      (marked : (context.program.marker (.method call.method)).isSome)
      (bound : call.result = some result) (placed : context.Places result dst)
      (operands : List.Forall₂ context.Places call.arguments arguments)
      (target : final.NamesMethod context.program constructor call.method)
      (allocated : final.NamesType context.program type (context.program.methodAt call.method).owner) :
      Lowered final context (.invoke call) (.allocation dst type constructor (dst :: arguments))
  | call {call : Call} {method : UInt32} {arguments : List UInt16} {result : Option UInt16}
      (kind : call.kind ≠ .construct)
      (marked : (context.program.marker (.method call.method)).isSome)
      (operands : List.Forall₂ context.Places call.arguments arguments)
      (target : final.NamesMethod context.program method call.method)
      (bound : Option.Rel context.Places call.result result) :
      Lowered final context (.invoke call) (.call (context.dispatch call) method arguments result)
  | access {use : FieldAccess} {field : UInt32} {value : UInt16} {object : Option UInt16}
      (marked : (context.program.marker (.field use.field)).isSome)
      (target : final.NamesField context.program field use.field)
      (placed : context.Places use.value value) (held : Option.Rel context.Places use.object object) :
      Lowered final context (.access use) (.single (use.kind.raw value field object))
  | const {target : Local} {dst : UInt16} {value : Constant} {raw : RawInstruction}
      (placed : context.Places target dst) (loads : final.Loads context.program dst value raw) :
      Lowered final context (.const target value) (.single raw)
  | move {target source : Local} {dst src : UInt16} (placed : context.Places target dst)
      (taken : context.Places source src) :
      Lowered final context (.move target source) (.single (.move dst src))
  | returnVoid : Lowered final context (.ret none) (.single .returnVoid)
  | returnValue {value : Local} {src : UInt16} (taken : context.Places value src) :
      Lowered final context (.ret (some value)) (.single (.returnValue src))
  | goto {target : InstructionId} {position : UInt32} (found : context.Reaches target position) :
      Lowered final context (.branch none target) (.single (.goto position))
  | ifCompare {comparison : Comparison} {left right : Local} {a b : UInt16} {target : InstructionId}
      {position : UInt32} (first : context.Places left a) (second : context.Places right b)
      (found : context.Reaches target position) :
      Lowered final context (.branch (some ⟨comparison, left, some right⟩) target)
        (.single (.ifCompare comparison a b position))
  | ifZero {comparison : Comparison} {left : Local} {a : UInt16} {target : InstructionId}
      {position : UInt32} (first : context.Places left a) (found : context.Reaches target position) :
      Lowered final context (.branch (some ⟨comparison, left, none⟩) target)
        (.single (.ifZero comparison a position))
  | binary {operator : Operator} {target left right : Local} {dst a b : UInt16}
      (placed : context.Places target dst) (first : context.Places left a)
      (second : context.Places right b) :
      Lowered final context (.binary operator target left right) (.single (.binary operator dst a b))
  | newArray {target length : Local} {type : TypeId} {dst size : UInt16} {index : UInt32}
      (placed : context.Places target dst) (taken : context.Places length size)
      (meant : final.NamesType context.program index type) :
      Lowered final context (.newArray target length type) (.single (.newArray dst size index))
  | arrayLength {target array : Local} {dst src : UInt16} (placed : context.Places target dst)
      (taken : context.Places array src) :
      Lowered final context (.arrayLength target array) (.single (.arrayLength dst src))
  | checkCast {target value : Local} {type : TypeId} {dst src : UInt16} {index : UInt32}
      (placed : context.Places target dst) (taken : context.Places value src)
      (meant : final.NamesType context.program index type) :
      Lowered final context (.checkCast target value type) (.single (.checkCast dst src index))
  | instanceOf {target value : Local} {type : TypeId} {dst src : UInt16} {index : UInt32}
      (placed : context.Places target dst) (taken : context.Places value src)
      (meant : final.NamesType context.program index type) :
      Lowered final context (.instanceOf target value type) (.single (.instanceOf dst src index))
  | throwValue {value : Local} {src : UInt16} (taken : context.Places value src) :
      Lowered final context (.throwValue value) (.single (.throwValue src))

theorem Pool.Loads.single {pool : Pool} {program : Program} {dst : UInt16} {value : Constant}
    {raw : RawInstruction} (loads : pool.Loads program dst value raw) : raw.Single := by
  cases value
  case text | classOf =>
    obtain ⟨index, -, rfl⟩ := loads
    trivial
  all_goals
    cases loads
    trivial

namespace Lowered

variable {final : Pool} {context : CodeContext} {instruction : Instruction} {unit : CodeUnit}

theorem proper (lowered : Lowered final context instruction unit) : unit.Proper := by
  cases lowered with
  | @access use field value object marked target placed held =>
    cases kind : use.kind <;> cases object <;> trivial
  | const placed loads => exact loads.single
  | _ => trivial

theorem length_raws (lowered : Lowered final context instruction unit) :
    unit.raws.length = instruction.rawLength := by
  cases lowered with
  | construct kind => simp [CodeUnit.raws, Instruction.rawLength, kind]
  | @call call method arguments result kind marked operands target bound =>
    obtain ⟨form, method, owner, operands, value⟩ := call
    simp only at bound kind
    cases bound with
    | none => simp [CodeUnit.raws, Instruction.rawLength, kind]
    | some => simp [CodeUnit.raws, Instruction.rawLength, kind]
  | _ => rfl

end Lowered

end ClassImage
