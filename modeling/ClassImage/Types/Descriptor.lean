import ClassImage.Types.ValueKind

/-!
Type descriptors: one letter for a primitive type or `void`, `Lname;` for a
class, and a `[` for each array dimension. The grammar admits no empty class
name, no array of `void` and at most 255 dimensions; descriptors built directly
are not held to it.
-/

namespace ClassImage

inductive Descriptor where
  | void
  | boolean
  | byte
  | char
  | short
  | int
  | long
  | float
  | double
  | object (name : String)
  | array (element : Descriptor)
deriving DecidableEq, Inhabited

namespace Descriptor

def text : Descriptor → String
  | .void => "V"
  | .boolean => "Z"
  | .byte => "B"
  | .char => "C"
  | .short => "S"
  | .int => "I"
  | .long => "J"
  | .float => "F"
  | .double => "D"
  | .object name => "L" ++ name ++ ";"
  | .array element => "[" ++ element.text

/-- An array type with `dimensions` levels over `element`. -/
def arrayOf : Nat → Descriptor → Descriptor
  | 0, element => element
  | dimensions + 1, element => .array (arrayOf dimensions element)

/-- Number of leading array levels. -/
def dimensions : Descriptor → Nat
  | .array element => element.dimensions + 1
  | _ => 0

/-- The type below all array levels. -/
def innermost : Descriptor → Descriptor
  | .array element => element.innermost
  | descriptor => descriptor

/-- The kind of a value of this type; `void` has none. -/
def kind? : Descriptor → Option ValueKind
  | .void => none
  | .boolean => some .boolean
  | .byte => some .byte
  | .char => some .char
  | .short => some .short
  | .int => some .int
  | .long => some .long
  | .float => some .float
  | .double => some .double
  | .object _ | .array _ => some .reference

def isReference : Descriptor → Bool
  | .object _ | .array _ => true
  | _ => false

def isVoid : Descriptor → Bool
  | .void => true
  | _ => false

def maxDimensions : Nat := 255

/-- Reads a class name up to its semicolon, and what follows it. -/
def className? (input : List Char) : Option (Descriptor × List Char) :=
  match input.dropWhile (· ≠ ';') with
  | [] => none
  | _ :: rest =>
    if (input.takeWhile (· ≠ ';')).isEmpty then none
    else some (.object (String.ofList (input.takeWhile (· ≠ ';'))), rest)

/-- Reads a descriptor that is not an array, and what follows it. -/
def element? : List Char → Option (Descriptor × List Char)
  | 'V' :: rest => some (.void, rest)
  | 'Z' :: rest => some (.boolean, rest)
  | 'B' :: rest => some (.byte, rest)
  | 'C' :: rest => some (.char, rest)
  | 'S' :: rest => some (.short, rest)
  | 'I' :: rest => some (.int, rest)
  | 'J' :: rest => some (.long, rest)
  | 'F' :: rest => some (.float, rest)
  | 'D' :: rest => some (.double, rest)
  | 'L' :: rest => className? rest
  | _ => none

/-- Reads one descriptor from the front, and what follows it. -/
def front? (input : List Char) : Option (Descriptor × List Char) :=
  let dimensions := (input.takeWhile (· = '[')).length
  if dimensions > maxDimensions then none
  else
    match element? (input.dropWhile (· = '[')) with
    | none => none
    | some (element, rest) =>
      if 0 < dimensions ∧ element = .void then none
      else some (arrayOf dimensions element, rest)

/-- Reads a text that is exactly one descriptor. -/
def ofText? (text : String) : Option Descriptor :=
  match front? text.toList with
  | some (descriptor, []) => some descriptor
  | _ => none

theorem length_dropWhile_le (p : Char → Bool) (input : List Char) :
    (input.dropWhile p).length ≤ input.length :=
  (List.dropWhile_sublist p).length_le

theorem className?_shorter {input rest : List Char} {descriptor : Descriptor}
    (read : className? input = some (descriptor, rest)) : rest.length < input.length := by
  have bound := length_dropWhile_le (· ≠ ';') input
  unfold className? at read
  split at read
  · cases read
  · rename_i found
    rw [found] at bound
    split at read
    · cases read
    · cases read
      exact bound

theorem element?_shorter {input rest : List Char} {descriptor : Descriptor}
    (read : element? input = some (descriptor, rest)) : rest.length < input.length := by
  unfold element? at read
  split at read
  case h_10 => exact Nat.lt_succ_of_lt (className?_shorter read)
  case h_11 => cases read
  all_goals
    cases read
    simp

theorem front?_shorter {input rest : List Char} {descriptor : Descriptor}
    (read : front? input = some (descriptor, rest)) : rest.length < input.length := by
  unfold front? at read
  simp only at read
  split at read
  · cases read
  · split at read
    · cases read
    · rename_i element after inner
      split at read
      · cases read
      · cases read
        exact Nat.lt_of_lt_of_le (element?_shorter inner) (length_dropWhile_le _ input)

end Descriptor

end ClassImage
