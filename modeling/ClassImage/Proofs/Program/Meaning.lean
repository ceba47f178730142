import ClassImage.Proofs.Lowering.Units
import ClassImage.Proofs.Program.Learning
import ClassImage.Proofs.Related

/-!
What the units of code mean in a program. A unit stands for an instruction whose
operands are the locals of its registers, whose symbols have the names that the
pool of the image gives to its indices, and whose target is the instruction of
the unit that its position stands for. What a unit means stays what it means
while loading goes on.
-/

namespace ClassImage

open Program Edit

/-- Where a unit may branch to. -/
def CodeUnit.target? : CodeUnit → Option UInt32
  | .single instruction => instruction.target?
  | _ => none

/-- Control never goes on to what stands after the unit. -/
def CodeUnit.isClosing : CodeUnit → Bool
  | .single instruction => instruction.opcode.isTerminator
  | _ => false

namespace Loading

namespace Context

/-- The locals of a frame. -/
def Frame.locals (frame : Frame) : List Local := frame.registers.toList.filterMap id

/-- The register has been given to the local. -/
def Frame.Holds (frame : Frame) (register : UInt16) (slot : Local) : Prop :=
  frame.registers[register.toNat]?.join = some slot

/-- Where the result of a call goes: to the local of the register that takes it. What no register takes
goes to a local that is in no register. -/
def Frame.Takes (frame : Frame) (signature : Signature) : Option UInt16 → Option Local → Prop
  | some dst, slot => ∃ taken, slot = some taken ∧ frame.Holds dst taken
  | none, slot => slot.map Local.kind = signature.result.kind? ∧ ∀ taken ∈ slot, taken ∉ frame.locals

/-- A method of the program has the owner, the name and the signature of the one at an index. -/
def NamesMethod (context : Context) (index : UInt32) (id : MethodId) (program : Program) : Prop :=
  ∃ owner descriptor name signature, program.methodKey? id = some (owner, name, signature) ∧
    program.descriptor? owner = some descriptor ∧ context.ReadsMethod index descriptor name signature

/-- Which constant an instruction puts into which register. -/
inductive Puts (context : Context) (program : Program) : RawInstruction → UInt16 → Constant → Prop
  | int (dst : UInt16) (value : Int32) : Puts context program (.constInt dst value) dst (.int value)
  | long (dst : UInt16) (value : Int64) : Puts context program (.constWide dst value) dst (.long value)
  | float (dst : UInt16) (bits : UInt32) : Puts context program (.constFloat dst bits) dst (.float bits)
  | double (dst : UInt16) (bits : UInt64) : Puts context program (.constDouble dst bits) dst (.double bits)
  | text {dst : UInt16} {index : UInt32} {text : String}
      (read : context.image.pool.text? index = some text) :
      Puts context program (.constText dst index) dst (.text text)
  | classOf {dst : UInt16} {index : UInt32} {type : TypeId} (found : context.FindsType index type program) :
      Puts context program (.constClass dst index) dst (.classOf type)
  | null (dst : UInt16) : Puts context program (.constNull dst) dst .null

/-- What a unit means. -/
inductive Means (context : Context) (frame : Frame) (program : Program) : CodeUnit → Instruction → Prop
  | allocation {dst : UInt16} {type constructor : UInt32} {arguments : List UInt16} {call : Call}
      {result : Local} (kind : call.kind = .construct)
      (target : context.FindsMethod constructor false call.method program)
      (allocated : context.FindsType type call.owner program)
      (operands : List.Forall₂ frame.Holds (arguments.drop 1) call.arguments)
      (bound : call.result = some result) (held : frame.Holds dst result) :
      Means context frame program (.allocation dst type constructor arguments) (.invoke call)
  | call {dispatch : Dispatch} {index : UInt32} {arguments : List UInt16} {result : Option UInt16} {call : Call}
      {name : String} {signature : Signature}
      (kind : call.kind = if dispatch = .direct ∨ dispatch = .super then .special else .normal)
      (key : program.methodKey? call.method = some (call.owner, name, signature))
      (target : context.FindsMethod index (dispatch = .static) call.method program)
      (noted : dispatch = .interface → program.Noted call.owner)
      (operands : List.Forall₂ frame.Holds arguments call.arguments)
      (taken : frame.Takes signature result call.result) :
      Means context frame program (.call dispatch index arguments result) (.invoke call)
  | access {use : FieldAccess} {index : UInt32} {value : UInt16} {object : Option UInt16}
      (target : context.FindsField index object.isNone use.field program) (held : frame.Holds value use.value)
      (holder : Option.Rel frame.Holds object use.object) :
      Means context frame program (.single (use.kind.raw value index object)) (.access use)
  | const {raw : RawInstruction} {dst : UInt16} {value : Constant} {target : Local}
      (puts : context.Puts program raw dst value) (held : frame.Holds dst target) :
      Means context frame program (.single raw) (.const target value)
  | move {dst src : UInt16} {target source : Local} (held : frame.Holds dst target)
      (read : frame.Holds src source) : Means context frame program (.single (.move dst src)) (.move target source)
  | returnVoid : Means context frame program (.single .returnVoid) (.ret none)
  | returnValue {src : UInt16} {value : Local} (read : frame.Holds src value) :
      Means context frame program (.single (.returnValue src)) (.ret (some value))
  | goto (position : UInt32) :
      Means context frame program (.single (.goto position)) (.branch none (frame.target position))
  | ifCompare {comparison : Comparison} {a b : UInt16} {left right : Local} (position : UInt32)
      (first : frame.Holds a left) (second : frame.Holds b right) :
      Means context frame program (.single (.ifCompare comparison a b position))
        (.branch (some ⟨comparison, left, some right⟩) (frame.target position))
  | ifZero {comparison : Comparison} {a : UInt16} {left : Local} (position : UInt32)
      (first : frame.Holds a left) :
      Means context frame program (.single (.ifZero comparison a position))
        (.branch (some ⟨comparison, left, none⟩) (frame.target position))
  | binary {operator : Operator} {dst a b : UInt16} {target left right : Local} (held : frame.Holds dst target)
      (first : frame.Holds a left) (second : frame.Holds b right) :
      Means context frame program (.single (.binary operator dst a b)) (.binary operator target left right)
  | newArray {dst size : UInt16} {index : UInt32} {target length : Local} {type : TypeId}
      (held : frame.Holds dst target) (read : frame.Holds size length)
      (found : context.FindsType index type program) :
      Means context frame program (.single (.newArray dst size index)) (.newArray target length type)
  | arrayLength {dst src : UInt16} {target array : Local} (held : frame.Holds dst target)
      (read : frame.Holds src array) :
      Means context frame program (.single (.arrayLength dst src)) (.arrayLength target array)
  | checkCast {dst src : UInt16} {index : UInt32} {target value : Local} {type : TypeId}
      (held : frame.Holds dst target) (read : frame.Holds src value)
      (found : context.FindsType index type program) :
      Means context frame program (.single (.checkCast dst src index)) (.checkCast target value type)
  | instanceOf {dst src : UInt16} {index : UInt32} {target value : Local} {type : TypeId}
      (held : frame.Holds dst target) (read : frame.Holds src value)
      (found : context.FindsType index type program) :
      Means context frame program (.single (.instanceOf dst src index)) (.instanceOf target value type)
  | throwValue {src : UInt16} {value : Local} (read : frame.Holds src value) :
      Means context frame program (.single (.throwValue src)) (.throwValue value)

variable {context : Context} {before : Program} {frame : Frame}

theorem Frame.Holds.mem {register : UInt16} {slot : Local} (held : frame.Holds register slot) :
    slot ∈ frame.locals := by
  have listed := Array.mem_of_getElem? (Option.join_eq_some_iff.mp held)
  exact List.mem_filterMap.mpr ⟨some slot, Array.mem_toList_iff.mpr listed, rfl⟩

theorem Frame.mem_of_forall₂ {registers : List UInt16} {slots : List Local}
    (all : List.Forall₂ frame.Holds registers slots) : ∀ slot ∈ slots, slot ∈ frame.locals := by
  intro slot member
  obtain ⟨register, -, held⟩ := forall₂_exists_left all member
  exact held.mem

section Kept

variable {after : Program}

theorem FindsType.kept {index : UInt32} {id : TypeId} (found : context.FindsType index id before)
    (steps : Steps before after) : context.FindsType index id after := by
  obtain ⟨descriptor, read, known⟩ := found
  exact ⟨descriptor, read, steps.extends.types known⟩

theorem FindsType.known {index : UInt32} {id : TypeId} (found : context.FindsType index id before) :
    (before.descriptor? id).isSome := by
  obtain ⟨_, -, known⟩ := found
  rw [known]
  rfl

theorem NamesMethod.kept {index : UInt32} {id : MethodId} (named : context.NamesMethod index id before)
    (steps : Steps before after) : context.NamesMethod index id after := by
  obtain ⟨owner, descriptor, name, signature, key, known, read⟩ := named
  exact ⟨owner, descriptor, name, signature, steps.extends.methods key, steps.extends.types known, read⟩

theorem FindsMethod.kept {index : UInt32} {static : Bool} {id : MethodId}
    (found : context.FindsMethod index static id before) (steps : Steps before after) :
    context.FindsMethod index static id after := by
  obtain ⟨owner, descriptor, name, signature, key, known, read, marked⟩ := found
  exact ⟨owner, descriptor, name, signature, steps.extends.methods key, steps.extends.types known,
    read, steps.marker_kept marked⟩

theorem FindsMethod.known {index : UInt32} {static : Bool} {id : MethodId}
    (found : context.FindsMethod index static id before) : (before.methodKey? id).isSome := by
  obtain ⟨_, _, _, _, key, -⟩ := found
  rw [key]
  rfl

theorem FindsField.kept {index : UInt32} {static : Bool} {id : FieldId}
    (found : context.FindsField index static id before) (steps : Steps before after) :
    context.FindsField index static id after := by
  obtain ⟨owner, descriptor, name, type, key, known, read, marked⟩ := found
  exact ⟨owner, descriptor, name, type, steps.extends.fields key, steps.extends.types known,
    read, steps.marker_kept marked⟩

theorem FindsField.known {index : UInt32} {static : Bool} {id : FieldId}
    (found : context.FindsField index static id before) : (before.fieldKey? id).isSome := by
  obtain ⟨_, _, _, _, key, -⟩ := found
  rw [key]
  rfl

theorem Puts.kept {raw : RawInstruction} {dst : UInt16} {value : Constant}
    (puts : context.Puts before raw dst value) (steps : Steps before after) :
    context.Puts after raw dst value := by
  cases puts with
  | int => exact .int _ _
  | long => exact .long _ _
  | float => exact .float _ _
  | double => exact .double _ _
  | text read => exact .text read
  | classOf found => exact .classOf (found.kept steps)
  | null => exact .null _

theorem Loads.noted_kept (moved : Relation.ReflTransGen context.Loads before after)
    {type : TypeId} (noted : before.Noted type) : after.Noted type := by
  induction moved with
  | refl => exact noted
  | tail _ loads ih => exact loads.noted ih

/-- A unit that has its instruction keeps its meaning. -/
theorem Means.kept {unit : CodeUnit} {instruction : Instruction}
    (means : context.Means frame before unit instruction)
    (moved : Relation.ReflTransGen context.Loads before after) :
    context.Means frame after unit instruction := by
  have steps := Loads.steps moved
  cases means with
  | allocation kind target allocated operands bound held =>
    exact .allocation kind (target.kept steps) (allocated.kept steps) operands bound held
  | call kind key target noted operands taken =>
    refine .call kind (steps.extends.methods key) (target.kept steps) ?_ operands taken
    exact fun through => Loads.noted_kept moved (noted through)
  | access target held holder => exact .access (target.kept steps) held holder
  | const puts held => exact .const (puts.kept steps) held
  | move held read => exact .move held read
  | returnVoid => exact .returnVoid
  | returnValue read => exact .returnValue read
  | goto position => exact .goto position
  | ifCompare position first second => exact .ifCompare position first second
  | ifZero position first => exact .ifZero position first
  | binary held first second => exact .binary held first second
  | newArray held read found => exact .newArray held read (found.kept steps)
  | arrayLength held read => exact .arrayLength held read
  | checkCast held read found => exact .checkCast held read (found.kept steps)
  | instanceOf held read found => exact .instanceOf held read (found.kept steps)
  | throwValue read => exact .throwValue read

end Kept

namespace Means

variable {unit : CodeUnit} {instruction : Instruction} (means : context.Means frame before unit instruction)

include means

/-- Only a unit that can be told from its raw instructions has a meaning. -/
theorem proper : unit.Proper := by
  cases means with
  | @access use index value object =>
    obtain ⟨kind, _, _, _⟩ := use
    cases kind <;> cases object <;> trivial
  | const puts => cases puts <;> trivial
  | _ => trivial

theorem target : instruction.target? = unit.target?.map frame.target := by
  cases means with
  | @access use index value object =>
    obtain ⟨kind, _, _, _⟩ := use
    cases kind <;> cases object <;> rfl
  | const puts => cases puts <;> rfl
  | _ => rfl

theorem closing (ends : unit.isClosing) : instruction.isClosing := by
  cases means with
  | @access use index value object =>
    obtain ⟨kind, _, _, _⟩ := use
    cases kind <;> cases object <;> cases ends
  | const puts => cases puts <;> cases ends
  | returnVoid | returnValue | goto | throwValue => rfl
  | _ => cases ends

theorem marked : before.Marked instruction := by
  intro symbol used shape
  cases means with
  | allocation kind target | call kind key target =>
    rw [memberShape?_invoke] at shape
    cases shape
    obtain ⟨_, _, _, _, -, -, -, marked⟩ := target
    rw [marked]
    rfl
  | access target =>
    cases shape
    obtain ⟨_, _, _, _, -, -, -, marked⟩ := target
    rw [marked]
    rfl
  | _ => cases shape

end Means

/-- The locals of an instruction that calls nothing are in the frame. -/
theorem Means.uses {raw : RawInstruction} {instruction : Instruction}
    (means : context.Means frame before (.single raw) instruction) :
    ∀ slot ∈ instruction.locals, slot ∈ frame.locals := by
  cases means with
  | @access use index value object target held holder =>
    obtain ⟨kind, field, slot, owner⟩ := use
    have inside : ∀ taken ∈ owner, taken ∈ frame.locals := by
      rintro taken ⟨⟩
      cases holder with
      | some held => exact held.mem
    cases kind <;>
      simpa [Instruction.locals, Instruction.writes, Instruction.reads, held.mem] using inside
  | const puts held => simp [Instruction.locals, Instruction.writes, Instruction.reads, held.mem]
  | returnVoid | goto => simp [Instruction.locals, Instruction.writes, Instruction.reads]
  | returnValue read | throwValue read | ifZero _ read =>
    simp [Instruction.locals, Instruction.writes, Instruction.reads, read.mem]
  | move held read | arrayLength held read | newArray held read | checkCast held read | instanceOf held read
  | ifCompare _ held read =>
    simp [Instruction.locals, Instruction.writes, Instruction.reads, held.mem, read.mem]
  | binary held first second =>
    simp [Instruction.locals, Instruction.writes, Instruction.reads, held.mem, first.mem, second.mem]

theorem Means.text {unit : CodeUnit} {target : Local} {text : String}
    (means : context.Means frame before unit (.const target (.text text))) :
    ∃ index, context.image.pool.text? index = some text := by
  cases means with
  | const puts =>
    cases puts with
    | text read => exact ⟨_, read⟩

/-- A call through an interface names a method of a type that is known to be one. -/
theorem Means.called {index : UInt32} {arguments : List UInt16} {result : Option UInt16}
    {instruction : Instruction}
    (means : context.Means frame before (.call .interface index arguments result) instruction) :
    ∃ call, instruction = .invoke call ∧ call.kind = .normal ∧
      context.FindsMethod index false call.method before ∧ before.Noted call.owner := by
  cases means with
  | @call _ _ _ _ call _ _ kind key target noted => exact ⟨call, rfl, kind, target, noted rfl⟩

end Context

end Loading

end ClassImage
