import ClassImage.Text.Grammar

/-!
Scalars of configuration text: quoted texts on one or several lines, whole
numbers in four bases, decimal numbers, booleans, dates and times. A number may
have an underscore between two digits. Only keys and whole numbers keep their
content; every other scalar is checked and forgotten.
-/

namespace ClassImage

namespace Toml

open Grammar

def blank : Grammar Unit := do
  let _ ← run fun c => c == ' ' || c == '\t'

def newline : Grammar Unit := char '\n' <|> word ['\r', '\n']

/-- Characters that may stand on a line: a tab and all but the control characters. -/
def isPlain (c : Char) : Bool := c == '\t' || (' ' ≤ c && c != '\x7f')

def comment : Grammar Unit := do
  char '#'
  let _ ← run isPlain

def quote : Char := '\x22'

def apostrophe : Char := '\x27'

def hexCode (width : Nat) : Grammar Char := do
  let digits ← exactly isHexDigit width
  match charOfCode? (digitsValue 16 digits) with
  | some c => return c
  | none => failure

/-- The character that an escape sequence stands for. -/
def escaped : Grammar Char := do
  char '\\'
  match ← one fun _ => true with
  | 'b' => return '\x08'
  | 't' => return '\t'
  | 'n' => return '\n'
  | 'f' => return '\x0c'
  | 'r' => return '\r'
  | '\x22' => return '\x22'
  | '\\' => return '\\'
  | 'u' => hexCode 4
  | 'U' => hexCode 8
  | _ => failure

def basicChar : Grammar Char :=
  one (fun c => isPlain c && c != quote && c != '\\') <|> escaped

/-- A text in quotes, with escape sequences. -/
def basicText : Grammar String := do
  char quote
  let content ← many basicChar
  char quote
  return String.ofList content

/-- A text in apostrophes, taken as it stands. -/
def literalText : Grammar String := do
  char apostrophe
  let content ← run fun c => isPlain c && c != apostrophe
  char apostrophe
  return String.ofList content

/-- A backslash at the end of a line, with the blank space and the blank lines after it. -/
def lineContinuation : Grammar Unit := do
  char '\\'
  blank
  newline
  let _ ← many (newline <|> do let _ ← run1 fun c => c == ' ' || c == '\t')

/--
A text between two triples of a mark. One or two marks may stand inside it, also
right before the closing triple.
-/
def longText (mark : Char) (content : Grammar Unit) : Grammar Unit := do
  word [mark, mark, mark]
  let _ ← optional newline
  let _ ← many (content <|> newline <|> do
    if (← run1 (· == mark)).length ≤ 2 then pure () else failure)
  let closing ← run (· == mark)
  if 3 ≤ closing.length ∧ closing.length ≤ 5 then pure () else failure

def text : Grammar Unit :=
  longText quote (lineContinuation <|> do let _ ← basicChar)
    <|> longText apostrophe (do let _ ← one fun c => isPlain c && c != apostrophe)
    <|> (do let _ ← basicText)
    <|> do let _ ← literalText

/-- Digits, each two of which may have one underscore between them. -/
def digitGroups (accepted : Char → Bool) : Grammar (List Char) := do
  let first ← one accepted
  let others ← many (one accepted <|> do char '_'; one accepted)
  return first :: others

/-- An optional sign; true for minus. -/
def sign : Grammar Bool :=
  (do char '-'; return true) <|> (do char '+'; return false) <|> pure false

/-- The sign and digits of a decimal whole number, without leading zeros. -/
def decimalDigits : Grammar (Bool × List Char) := do
  let negative ← sign
  match ← peek with
  | some '0' =>
    char '0'
    return (negative, ['0'])
  | _ => return (negative, ← digitGroups Char.isDigit)

def based (mark : Char) (base : Nat) (accepted : Char → Bool) : Grammar Int := do
  word ['0', mark]
  return digitsValue base (← digitGroups accepted)

/-- A whole number of 64 bits. -/
def integer : Grammar Int := do
  let value ← based 'x' 16 isHexDigit
    <|> based 'o' 8 (fun c => '0' ≤ c && c ≤ '7')
    <|> based 'b' 2 (fun c => c == '0' || c == '1')
    <|> do
      let (negative, digits) ← decimalDigits
      let magnitude : Int := digitsValue 10 digits
      return if negative then -magnitude else magnitude
  if Int64.minValue.toInt ≤ value ∧ value ≤ Int64.maxValue.toInt then return value else failure

def exponent : Grammar Int := do
  let _ ← one fun c => c == 'e' || c == 'E'
  let negative ← sign
  let magnitude : Int := digitsValue 10 (← digitGroups Char.isDigit)
  return if negative then -magnitude else magnitude

def fraction : Grammar (List Char) := do
  char '.'
  digitGroups Char.isDigit

/--
Whether a number rounds to a double above every finite one: it is then at least
half a step above the largest. Numbers far from that bound are told by their
number of digits alone.
-/
def overflows (digits : List Char) (scale : Int) : Bool :=
  let significant := digits.dropWhile (· == '0')
  let places : Int := significant.length + scale
  if significant.isEmpty || places < 300 then false
  else if places > 400 then true
  else
    let bound := Nat.pow 2 1024 - Nat.pow 2 970
    let value := digitsValue 10 significant
    if 0 ≤ scale then bound ≤ value * Nat.pow 10 scale.toNat
    else bound * Nat.pow 10 (-scale).toNat ≤ value

/-- A decimal number with a fraction or an exponent; a positive one must be finite. -/
def decimal : Grammar Unit := do
  let (negative, whole) ← decimalDigits
  let (part, scale) ← (do return ([], ← exponent)) <|> do
    let part ← fraction
    return (part, (← optional exponent).getD 0)
  if !negative && overflows (whole ++ part) (scale - part.length) then failure

def specialNumber : Grammar Unit := do
  let _ ← sign
  word ['i', 'n', 'f'] <|> word ['n', 'a', 'n']

/-- A number of a fixed count of digits within bounds. -/
def ranged (width low high : Nat) : Grammar Nat := do
  let value := digitsValue 10 (← exactly Char.isDigit width)
  if low ≤ value ∧ value ≤ high then return value else failure

def daysInMonth (year month : Nat) : Nat :=
  if month = 2 then
    if year % 4 = 0 ∧ (year % 100 ≠ 0 ∨ year % 400 = 0) then 29 else 28
  else if month = 4 ∨ month = 6 ∨ month = 9 ∨ month = 11 then 30
  else 31

def date : Grammar Unit := do
  let year ← ranged 4 0 9999
  char '-'
  let month ← ranged 2 1 12
  char '-'
  let _ ← ranged 2 1 (daysInMonth year month)

def timeOfDay : Grammar Unit := do
  let _ ← ranged 2 0 23
  char ':'
  let _ ← ranged 2 0 59
  char ':'
  let _ ← ranged 2 0 60
  let _ ← optional (do char '.'; run1 Char.isDigit)

def zone : Grammar Unit :=
  (do let _ ← one fun c => c == 'Z' || c == 'z') <|> do
    let _ ← one fun c => c == '+' || c == '-'
    let _ ← ranged 2 0 23
    char ':'
    let _ ← ranged 2 0 59

def moment : Grammar Unit :=
  (do
    date
    let _ ← optional (do
      let _ ← one fun c => c == 'T' || c == 't' || c == ' '
      timeOfDay
      optional zone))
    <|> timeOfDay

def boolean : Grammar Unit :=
  word ['t', 'r', 'u', 'e'] <|> word ['f', 'a', 'l', 's', 'e']

/-- A scalar; the value of a whole number and nothing for any other. -/
def scalar : Grammar (Option Int) :=
  (do text; return none) <|> (do moment; return none) <|> (do decimal; return none)
    <|> (do specialNumber; return none) <|> (do boolean; return none)
    <|> some <$> integer

end Toml

end ClassImage
