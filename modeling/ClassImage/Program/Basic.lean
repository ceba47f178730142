import ClassImage.Program.Fault
import ClassImage.Program.Instruction
import ClassImage.Program.Uses
import ClassImage.Types.Lookup

/-!
Programs: tables of types, methods and fields with a lookup for each, the bodies
of methods, the instructions in them, and the use lists. Tables only grow, so a
handle stays good for ever. Handles are issued by the program itself; a handle
it did not issue reads as a blank entry.

An `Edit` is a change that may fail. It yields a result or a fault and, in both
cases, the program afterwards.
-/

namespace ClassImage

/-- What a type definition says beside its members. -/
structure Header where
  access : UInt32 := 0
  superclass : Option TypeId := none
  interfaces : List TypeId := []
  source : Option String := none

structure Definition extends Header where
  methods : Array MethodId := #[]
  fields : Array FieldId := #[]

def Definition.isInterface (definition : Definition) : Bool :=
  Access.isSet definition.access Access.interface

inductive TypeStatus where
  /-- Assumed to exist elsewhere. -/
  | external (interface : Bool)
  | defined (definition : Definition)
deriving Inhabited

structure TypeEntry where
  descriptor : Descriptor
  status : TypeStatus := .external false
deriving Inhabited

namespace TypeEntry

def definition? (entry : TypeEntry) : Option Definition :=
  match entry.status with
  | .external _ => none
  | .defined definition => some definition

def isDefined (entry : TypeEntry) : Bool := entry.definition?.isSome

def isInterface (entry : TypeEntry) : Bool :=
  match entry.status with
  | .external interface => interface
  | .defined definition => definition.isInterface

end TypeEntry

structure Body where
  parameters : List Local
  /-- Every local of the body: parameters first, then in order of first use. -/
  locals : Array Local
  instructions : Array InstructionId

structure MethodEntry where
  owner : TypeId
  name : String
  signature : Signature
  marker : Marker
  /-- Access flags, once a defined type declares the method. -/
  declaration : Option UInt32 := none
  body : Option Body := none
deriving Inhabited

def MethodEntry.isConstructor (entry : MethodEntry) : Bool := entry.name = Pool.constructorName

structure FieldEntry where
  owner : TypeId
  name : String
  type : Descriptor
  marker : Marker
  declaration : Option UInt32 := none
deriving Inhabited

/-- An attached instruction and the method whose body holds it. -/
structure Slot where
  method : MethodId
  instruction : Instruction

structure Program where
  types : Array TypeEntry := #[]
  /-- The type of a descriptor, for every descriptor that has one. -/
  typeLookup : Lookup Descriptor TypeId := {}
  /-- Defined types, in the order of their definitions. -/
  defined : Array TypeId := #[]
  methods : Array MethodEntry := #[]
  methodLookup : Lookup (TypeId × String × Signature) MethodId := {}
  fields : Array FieldEntry := #[]
  fieldLookup : Lookup (TypeId × String × Descriptor) FieldId := {}
  /-- One place for every instruction handle ever issued; detached ones are empty. -/
  code : Array (Option Slot) := #[]
  /-- One place for every local ever issued, with the method that owns it. -/
  owners : Array (Option MethodId) := #[]
  uses : UseIndex := {}

abbrev Edit := ExceptT Fault (StateM Program)

namespace Edit

def run (edit : Edit α) (program : Program) : Except Fault α × Program := edit program

/-- A check of the program, which does not change it. -/
def check (test : Program → Except Fault α) : Edit α := fun program => (test program, program)

end Edit

namespace Program

def typeAt (program : Program) (id : TypeId) : TypeEntry := program.types.getD id.index default

def methodAt (program : Program) (id : MethodId) : MethodEntry :=
  program.methods.getD id.index default

def fieldAt (program : Program) (id : FieldId) : FieldEntry := program.fields.getD id.index default

def findType? (program : Program) (descriptor : Descriptor) : Option TypeId :=
  program.typeLookup.find? descriptor

def findMethod? (program : Program) (owner : TypeId) (name : String) (signature : Signature) :
    Option MethodId :=
  program.methodLookup.find? (owner, name, signature)

def findField? (program : Program) (owner : TypeId) (name : String) (type : Descriptor) :
    Option FieldId :=
  program.fieldLookup.find? (owner, name, type)

def typeText (program : Program) (id : TypeId) : String := (program.typeAt id).descriptor.text

def methodText (program : Program) (id : MethodId) : String :=
  let entry := program.methodAt id
  program.typeText entry.owner ++ "->" ++ entry.name ++ entry.signature.text

def fieldText (program : Program) (id : FieldId) : String :=
  let entry := program.fieldAt id
  program.typeText entry.owner ++ "->" ++ entry.name ++ ":" ++ entry.type.text

def symbolText (program : Program) : Symbol → String
  | .type id => program.typeText id
  | .method id => program.methodText id
  | .field id => program.fieldText id

def body? (program : Program) (method : MethodId) : Option Body := (program.methodAt method).body

def slot? (program : Program) (id : InstructionId) : Option Slot := program.code[id.index]?.join

def instruction? (program : Program) (id : InstructionId) : Option Instruction :=
  (program.slot? id).map Slot.instruction

/-- The method whose body holds an instruction. -/
def holder? (program : Program) (id : InstructionId) : Option MethodId :=
  (program.slot? id).map Slot.method

/-- The method that owns a local; a local that was never attached has no owner. -/
def owner? (program : Program) (slot : Local) : Option MethodId := program.owners[slot.id]?.join

/-- The static marker of a member; types have none. -/
def marker (program : Program) : Symbol → Marker
  | .type _ => none
  | .method id => (program.methodAt id).marker
  | .field id => (program.fieldAt id).marker

def useList (program : Program) (symbol : Symbol) : List Use := (program.uses.get symbol).uses.toList

/-- The next use a cursor accepts. -/
def nextUse (program : Program) (cursor : UseCursor) : Except Fault (Option Use × UseCursor) :=
  let list := program.uses.get cursor.symbol
  if list.revision ≠ cursor.revision then .error (.concurrentModification cursor.symbol)
  else .ok (cursor.walk (list.uses.toList.drop cursor.position))

end Program

end ClassImage
