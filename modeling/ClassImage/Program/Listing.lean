import ClassImage.Decimal.FloatText
import ClassImage.Program.Registers
import ClassImage.Text.Quoted

/-!
The listing of a program: every defined type with its members and their code.
Locals are numbered by first appearance, parameters first, and branches name
positions, so the text depends neither on handles nor on registers.
-/

namespace ClassImage

namespace Listing

/-- What the listing of a body's instructions refers to. -/
structure Frame where
  program : Program
  /-- The locals of the body in the order of their numbers. -/
  locals : List Local
  instructions : Array InstructionId

namespace Frame

def ofBody (program : Program) (body : Body) : Frame :=
  ⟨program, body.parameters ++ program.usedLocals body, body.instructions⟩

def slot (frame : Frame) (slot : Local) : String :=
  s!"v{frame.locals.idxOf slot}:{slot.kind.name}"

def label (frame : Frame) (target : InstructionId) : String :=
  match frame.instructions.idxOf? target with
  | some position => s!"@{position}"
  | none => target.text

def callText (frame : Frame) (call : Call) : String :=
  let result := match call.result with
    | some result => frame.slot result ++ " = "
    | none => ""
  let operation := match call.kind with
    | .normal => "invoke"
    | .special => "invoke-special"
    | .construct => "new-instance"
  result ++ operation ++ " " ++ frame.program.methodText call.method ++ " (" ++
    ", ".intercalate (call.arguments.map frame.slot) ++ ")"

def constantText (frame : Frame) : Constant → String
  | .null => "null"
  | .int value => "int " ++ toString value.toInt
  | .long value => "long " ++ toString value.toInt
  | .float bits => "float " ++ Decimal.text Decimal.single bits.toNat
  | .double bits => "double " ++ Decimal.text Decimal.double bits.toNat
  | .text value => "string " ++ Text.quoted value
  | .classOf type => "class " ++ frame.program.typeText type

def accessText (frame : Frame) (use : FieldAccess) : String :=
  let object := match use.object with
    | some object => " " ++ frame.slot object
    | none => ""
  let field := frame.program.fieldText use.field
  match use.kind with
  | .load => frame.slot use.value ++ " = load" ++ object ++ " " ++ field
  | .store => "store " ++ frame.slot use.value ++ object ++ " " ++ field

def instructionText (frame : Frame) : Instruction → String
  | .invoke call => frame.callText call
  | .const target value => frame.slot target ++ " = const " ++ frame.constantText value
  | .access use => frame.accessText use
  | .move target source => frame.slot target ++ " = " ++ frame.slot source
  | .ret none => "return"
  | .ret (some value) => "return " ++ frame.slot value
  | .branch none target => "goto " ++ frame.label target
  | .branch (some ⟨comparison, left, some right⟩) target =>
    "if-" ++ comparison.name ++ " " ++ frame.slot left ++ ", " ++ frame.slot right ++ " " ++
      frame.label target
  | .branch (some ⟨comparison, left, none⟩) target =>
    "if-" ++ comparison.name ++ "z " ++ frame.slot left ++ " " ++ frame.label target
  | .binary operator target left right =>
    frame.slot target ++ " = " ++ operator.name ++ " " ++ frame.slot left ++ ", " ++ frame.slot right
  | .newArray target length type =>
    frame.slot target ++ " = new-array " ++ frame.program.typeText type ++ " " ++ frame.slot length
  | .arrayLength target array => frame.slot target ++ " = array-length " ++ frame.slot array
  | .checkCast target value type =>
    frame.slot target ++ " = check-cast " ++ frame.program.typeText type ++ " " ++ frame.slot value
  | .instanceOf target value type =>
    frame.slot target ++ " = instance-of " ++ frame.program.typeText type ++ " " ++ frame.slot value
  | .throwValue value => "throw " ++ frame.slot value

end Frame

/-- A number in at least three places. -/
def position (number : Nat) : String :=
  let digits := toString number
  "".pushn ' ' (3 - digits.length) ++ digits

def bodyText (program : Program) (indent : String) (body : Body) : String :=
  let frame := Frame.ofBody program body
  let lines := body.instructions.toList.zipIdx.filterMap fun (id, index) =>
    (program.instruction? id).map fun instruction =>
      indent ++ "  " ++ position index ++ ": " ++ frame.instructionText instruction ++ "\n"
  " (" ++ ", ".intercalate (body.parameters.map frame.slot) ++ ") \x7b\n" ++ String.join lines ++
    indent ++ "\x7d\n"

def accessFlags (flags : UInt32) : String := " access 0x" ++ Hex.ofNat flags.toNat

def methodText (program : Program) (indent : String) (method : MethodId) : String :=
  let entry := program.methodAt method
  let flags := match entry.declaration with
    | some access => accessFlags access
    | none => ""
  let body := match entry.body with
    | some body => bodyText program indent body
    | none => "\n"
  indent ++ "method " ++ entry.name ++ entry.signature.text ++ flags ++ body

def fieldText (program : Program) (field : FieldId) : String :=
  let entry := program.fieldAt field
  "  field " ++ entry.name ++ ":" ++ entry.type.text ++ accessFlags (entry.declaration.getD 0) ++ "\n"

def typeText (program : Program) (type : TypeId) : String :=
  let entry := program.typeAt type
  match entry.definition? with
  | none => "; external " ++ entry.descriptor.text ++ "\n"
  | some definition =>
    let superclass := match definition.superclass with
      | some type => " extends " ++ program.typeText type
      | none => ""
    let interfaces := definition.interfaces.map fun type => " implements " ++ program.typeText type
    let source := match definition.source with
      | some source => " source " ++ Text.quoted source
      | none => ""
    "class " ++ entry.descriptor.text ++ accessFlags definition.access ++ superclass ++
      String.join interfaces ++ source ++ "\n" ++
      String.join (definition.fields.toList.map (fieldText program)) ++
      String.join (definition.methods.toList.map (methodText program "  "))

end Listing

namespace Program

/-- Every defined type in order, each followed by an empty line. -/
def listing (program : Program) : String :=
  String.join (program.defined.toList.map fun type => Listing.typeText program type ++ "\n")

/-- One method: its header and, if it has one, its body. -/
def methodListing (program : Program) (method : MethodId) : String :=
  Listing.methodText program "" method

end Program

end ClassImage
