import ClassImage.Bytes.Hex

/-!
Grammars over characters. A grammar either takes a part off the front of the
text or fails; `<|>` tries its second side on the same text. Repetition is
bounded by the length of what is left, which is enough for every item that
takes at least one character.
-/

namespace ClassImage

abbrev Grammar := StateT (List Char) Option

namespace Grammar

/-- What a grammar reads when it takes the whole text. -/
def whole {α : Type} (grammar : Grammar α) (text : String) : Option α :=
  match grammar.run text.toList with
  | some (value, []) => some value
  | _ => none

/-- The next character, left in place; none at the end. -/
def peek : Grammar (Option Char) := do
  return (← get).head?

/-- Takes one character of a class. -/
def one (accepted : Char → Bool) : Grammar Char := do
  match ← get with
  | c :: rest =>
    if accepted c then
      set rest
      return c
    else failure
  | [] => failure

def char (c : Char) : Grammar Unit := do
  let _ ← one (· == c)

/-- Takes exactly the given characters. -/
def word : List Char → Grammar Unit
  | [] => pure ()
  | c :: rest => do
    char c
    word rest

/-- Takes the longest run of a class, which may be empty. -/
def run (accepted : Char → Bool) : Grammar (List Char) := do
  let text ← get
  set (text.dropWhile accepted)
  return text.takeWhile accepted

/-- Takes the longest run of a class that is not empty. -/
def run1 (accepted : Char → Bool) : Grammar (List Char) := do
  let first ← one accepted
  return first :: (← run accepted)

/-- Takes exactly `count` characters of a class. -/
def exactly (accepted : Char → Bool) : Nat → Grammar (List Char)
  | 0 => pure []
  | count + 1 => do
    let first ← one accepted
    return first :: (← exactly accepted count)

/-- Takes at most `bound` items. -/
def atMost {α : Type} (grammar : Grammar α) : Nat → Grammar (List α)
  | 0 => pure []
  | bound + 1 => do
    match ← optional grammar with
    | none => return []
    | some first => return first :: (← atMost grammar bound)

/-- Takes items for as long as there is one. -/
def many {α : Type} (grammar : Grammar α) : Grammar (List α) := do
  atMost grammar (← get).length

/-- Takes one or more items with a separator between each two. -/
def separated {α : Type} (grammar : Grammar α) (separator : Grammar Unit) :
    Grammar (List α) := do
  let first ← grammar
  return first :: (← many (do separator; grammar))

/-- Succeeds at the end of the text only. -/
def atEnd : Grammar Unit := do
  if (← get).isEmpty then pure () else failure

end Grammar

/-- The value of digits in a base. -/
def digitsValue (base : Nat) (digits : List Char) : Nat :=
  digits.foldl (fun value digit => value * base + (Hex.digit? digit).getD 0) 0

def isHexDigit (c : Char) : Bool := (Hex.digit? c).isSome

/-- The character with a given code, if there is one. -/
def charOfCode? (code : Nat) : Option Char :=
  if code.isValidChar then some (Char.ofNat code) else none

end ClassImage
