import ClassImage.Types.Signature

/-!
Names for the things a program holds: handles of types, methods, fields and
instructions, typed locals, and the symbols that instructions refer to. Handles
are positions in the program's tables, and a program never reuses one.
-/

namespace ClassImage

structure TypeId where
  index : Nat
deriving DecidableEq, Inhabited

structure MethodId where
  index : Nat
deriving DecidableEq, Inhabited

structure FieldId where
  index : Nat
deriving DecidableEq, Inhabited

structure InstructionId where
  index : Nat
deriving DecidableEq, Inhabited

def TypeId.text (id : TypeId) : String := s!"type#{id.index}"

def MethodId.text (id : MethodId) : String := s!"method#{id.index}"

def FieldId.text (id : FieldId) : String := s!"field#{id.index}"

def InstructionId.text (id : InstructionId) : String := s!"insn#{id.index}"

/-- A value slot of one body. The number identifies it; the kind never changes. -/
structure Local where
  id : Nat
  kind : ValueKind
deriving DecidableEq, Inhabited

def Local.text (slot : Local) : String := s!"%{slot.id}:{slot.kind.name}"

/-- Whether a member is static, when that is known. -/
abbrev Marker := Option Bool

inductive Symbol where
  | type (id : TypeId)
  | method (id : MethodId)
  | field (id : FieldId)
deriving DecidableEq

namespace Symbol

def text : Symbol → String
  | .type id => id.text
  | .method id => id.text
  | .field id => id.text

/-- The symbol with its kind and number spelled out. -/
def longText : Symbol → String
  | .type id => s!"Type(TypeId({id.index}))"
  | .method id => s!"Method(MethodId({id.index}))"
  | .field id => s!"Field(FieldId({id.index}))"

/-- A number of its own for each symbol. -/
def code : Symbol → Nat
  | .type id => 3 * id.index
  | .method id => 3 * id.index + 1
  | .field id => 3 * id.index + 2

theorem code_inj {left right : Symbol} (same : left.code = right.code) : left = right := by
  rcases left with ⟨⟨_⟩⟩ | ⟨⟨_⟩⟩ | ⟨⟨_⟩⟩ <;> rcases right with ⟨⟨_⟩⟩ | ⟨⟨_⟩⟩ | ⟨⟨_⟩⟩ <;>
    simp only [code] at same <;> congr <;> omega

end Symbol

/-- How an instruction uses a symbol. -/
inductive UseKind where
  | invoke
  | newInstance
  | fieldLoad
  | fieldStore
  | checkCast
  | instanceOf
  | constClass
  | newArray
deriving DecidableEq

namespace UseKind

def all : List UseKind :=
  [.invoke, .newInstance, .fieldLoad, .fieldStore, .checkCast, .instanceOf, .constClass, .newArray]

def name : UseKind → String
  | .invoke => "Invoke"
  | .newInstance => "NewInstance"
  | .fieldLoad => "FieldLoad"
  | .fieldStore => "FieldStore"
  | .checkCast => "CheckCast"
  | .instanceOf => "InstanceOf"
  | .constClass => "ConstClass"
  | .newArray => "NewArray"

end UseKind

end ClassImage
