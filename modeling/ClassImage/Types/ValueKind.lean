import ClassImage.Format.Verify

/-!
Kinds of values that locals and registers hold. Long and double values take two
registers; the small integer kinds share the representation of `int`.
-/

namespace ClassImage

inductive ValueKind where
  | reference
  | boolean
  | byte
  | char
  | short
  | int
  | long
  | float
  | double
deriving DecidableEq, Inhabited

namespace ValueKind

def all : List ValueKind :=
  [.reference, .boolean, .byte, .char, .short, .int, .long, .float, .double]

def isWide : ValueKind → Bool
  | .long | .double => true
  | _ => false

/-- Number of registers a value takes. -/
def slots (kind : ValueKind) : Nat := if kind.isWide then 2 else 1

def isIntLike : ValueKind → Bool
  | .boolean | .byte | .char | .short | .int => true
  | _ => false

/-- A value of this kind may stand where `expected` is declared. -/
def fits (kind expected : ValueKind) : Bool :=
  kind = expected || (kind.isIntLike && expected.isIntLike)

/-- The tag of a register that holds such a value, or its low half. -/
def tag : ValueKind → UInt8
  | .reference => 0
  | .boolean => 1
  | .byte => 2
  | .char => 3
  | .short => 4
  | .int => 5
  | .long => RegisterTag.long
  | .float => 7
  | .double => RegisterTag.double

/-- The kind a register tag stands for; the high half of a pair has none. -/
def ofTag? (tag : UInt8) : Option ValueKind := all.find? fun kind => kind.tag = tag

def name : ValueKind → String
  | .reference => "ref"
  | .boolean => "boolean"
  | .byte => "byte"
  | .char => "char"
  | .short => "short"
  | .int => "int"
  | .long => "long"
  | .float => "float"
  | .double => "double"

/-- The register tags of a value: one, or one and the high half. -/
def registerTags (kind : ValueKind) : List UInt8 :=
  if kind.isWide then [kind.tag, RegisterTag.highHalf] else [kind.tag]

end ValueKind

end ClassImage
