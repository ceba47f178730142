import ClassImage.Program.Declare

/-!
Edits of method bodies. An edit first checks the instruction against the body
and only then attaches or detaches it; attaching and detaching are the only
places that touch a body's sequence, the use lists and the ownership of locals.

A local belongs to the first body in which it is attached. An instruction that a
branch goes to cannot be removed, only replaced, and the branch follows.
-/

namespace ClassImage

namespace Program

/-- The number of instructions in a method's body. -/
def bodyLength (program : Program) (method : MethodId) : Except Fault Nat :=
  match program.body? method with
  | some body => .ok body.instructions.size
  | none => .error (.flaw (.notLocal (.code (program.methodText method))))

/-- The body and the position of an attached instruction. -/
def locate (program : Program) (id : InstructionId) : Except Fault (MethodId × Nat) :=
  let found := do
    let method ← program.holder? id
    let body ← program.body? method
    let position ← body.instructions.idxOf? id
    return (method, position)
  match found with
  | some place => .ok place
  | none => .error (.unknownInstruction id)

/-- The instructions of a body that branch to `id`, in order. -/
def branchesTo (program : Program) (method : MethodId) (id : InstructionId) : List InstructionId :=
  match program.body? method with
  | none => []
  | some body =>
    body.instructions.toList.filter fun other =>
      (program.instruction? other).bind Instruction.target? = some id

/-- No local of the instruction belongs to another body. -/
def checkLocals (program : Program) (method : MethodId) (instruction : Instruction) :
    Except Fault Unit :=
  instruction.locals.forM fun slot =>
    match program.owner? slot with
    | some owner => if owner = method then .ok () else .error (.flaw (.foreignLocal slot))
    | none => .ok ()

/-- A branch goes to an instruction of the same body. -/
def checkTarget (program : Program) (method : MethodId) (instruction : Instruction) :
    Except Fault Unit :=
  match instruction.target? with
  | none => .ok ()
  | some target =>
    if program.holder? target = some method then .ok ()
    else .error (.flaw (.target (.notAttached target (program.methodText method))))

/-- The instruction can join the body. -/
def checkInstruction (program : Program) (method : MethodId) (instruction : Instruction) :
    Except Fault Unit := do
  let _ ← program.bodyLength method
  program.checkLocals method instruction
  program.checkTarget method instruction
  program.checkShape none instruction

/-- Gives a local to a method, unless it has an owner, and lists it when it is new. -/
def claimLocal (method : MethodId) (claimed : Array (Option MethodId) × Array Local) (slot : Local) :
    Array (Option MethodId) × Array Local :=
  match claimed.1[slot.id]?.join with
  | some _ => claimed
  | none => (claimed.1.setIfInBounds slot.id (some method), claimed.2.push slot)

/-- Changes a method's body, if it has one. -/
def modifyBody (program : Program) (method : MethodId) (change : Body → Body) : Program :=
  { program with
    methods := program.methods.modify method.index fun entry =>
      { entry with body := entry.body.map change } }

/-- Issues consecutive instruction handles. -/
def addHandles (program : Program) (count : Nat) : Program :=
  { program with code := program.code ++ Array.replicate count none }

/-- Puts an instruction into a body at a position. -/
def attach (program : Program) (method : MethodId) (position : Nat) (id : InstructionId)
    (instruction : Instruction) : Program :=
  let uses := instruction.references.foldl (fun uses (symbol, kind) => uses.add symbol ⟨kind, id⟩)
    program.uses
  let (owners, declared) := instruction.locals.foldl (claimLocal method) (program.owners, #[])
  let code := program.code.setIfInBounds id.index (some ⟨method, instruction⟩)
  { program with uses, owners, code }.modifyBody method fun body =>
    { body with
      locals := body.locals ++ declared
      instructions := body.instructions.insertIdxIfInBounds position id }

/-- Takes an attached instruction out of its body. -/
def detach (program : Program) (id : InstructionId) (slot : Slot) : Program :=
  let uses := slot.instruction.references.foldl (fun uses (symbol, _) => uses.remove symbol id)
    program.uses
  let code := program.code.setIfInBounds id.index none
  { program with uses, code }.modifyBody slot.method fun body =>
    { body with instructions := body.instructions.filter (· ≠ id) }

/-- Turns branches of some attached instructions from one target to another. -/
def retarget (program : Program) (branches : List InstructionId) (old new : InstructionId) : Program :=
  branches.foldl (fun program branch =>
    { program with
      code := program.code.modify branch.index fun slot =>
        slot.map fun slot => { slot with instruction := slot.instruction.retarget old new } })
    program

end Program

namespace Edit

open Program

/-- Issues consecutive instruction handles; the first is returned. -/
def reserve (count : Nat) : Edit InstructionId :=
  modifyGet fun program => (⟨program.code.size⟩, program.addHandles count)

/-- Checks an instruction and attaches it under a new handle. -/
def insert (method : MethodId) (position : Nat) (instruction : Instruction) : Edit InstructionId := do
  Edit.check (·.checkInstruction method instruction)
  let id ← reserve 1
  modify (·.attach method position id instruction)
  return id

def insertBefore (anchor : InstructionId) (instruction : Instruction) : Edit InstructionId := do
  let (method, position) ← Edit.check (·.locate anchor)
  insert method position instruction

def insertAfter (anchor : InstructionId) (instruction : Instruction) : Edit InstructionId := do
  let (method, position) ← Edit.check (·.locate anchor)
  insert method (position + 1) instruction

def append (method : MethodId) (instruction : Instruction) : Edit InstructionId := do
  let length ← Edit.check (·.bodyLength method)
  insert method length instruction

/-- Detaches an instruction that no branch goes to, and hands it back. -/
def remove (id : InstructionId) : Edit Instruction := do
  let (method, _) ← Edit.check (·.locate id)
  let program ← get
  match program.branchesTo method id with
  | branch :: _ =>
    throw (.flaw (.target (.stillTargeted id branch (program.methodText method))))
  | [] =>
    match program.slot? id with
    | none => throw (.unknownInstruction id)
    | some slot =>
      set (program.detach id slot)
      return slot.instruction

/-- Puts an instruction in the place of another. Branches to the old one go to the new one. -/
def replace (old : InstructionId) (instruction : Instruction) :
    Edit (InstructionId × Instruction) := do
  let (method, position) ← Edit.check (·.locate old)
  Edit.check (·.checkInstruction method instruction)
  let program ← get
  match program.slot? old with
  | none => throw (.unknownInstruction old)
  | some slot =>
    let branches := program.branchesTo method old
    let id ← reserve 1
    modify fun program =>
      let swapped := (program.detach old slot).attach method position id instruction
      swapped.retarget (branches ++ [id]) old id
    return (id, slot.instruction)

/-- Attaches an instruction at the end under a reserved handle. Where its branch goes is not checked. -/
def appendReserved (method : MethodId) (id : InstructionId) (instruction : Instruction) : Edit Unit := do
  let length ← Edit.check (·.bodyLength method)
  Edit.check (·.checkLocals method instruction)
  Edit.check (·.checkShape none instruction)
  modify (·.attach method length id instruction)

end Edit

end ClassImage
