import ClassImage.Limits.Basic
import ClassImage.Text.Grammar

/-!
Limits in JSON text: an object with some of the limits by name, or an array of
the first limits in order. Members with other names are checked and ignored.
-/

namespace ClassImage

namespace Json

open Grammar

def blank : Grammar Unit := do
  let _ ← run fun c => c == ' ' || c == '\n' || c == '\t' || c == '\r'

def quote : Char := '\x22'

def isTextChar (c : Char) : Bool := ' ' ≤ c && c != quote && c != '\\'

/-- Four hexadecimal digits after `\u`. -/
def codeUnit : Grammar Nat := do
  word ['\\', 'u']
  return digitsValue 16 (← exactly isHexDigit 4)

/-- An escape sequence of one character. -/
def shortEscape : Grammar Char := do
  char '\\'
  match ← one fun _ => true with
  | 'b' => return '\x08'
  | 't' => return '\t'
  | 'n' => return '\n'
  | 'f' => return '\x0c'
  | 'r' => return '\r'
  | '\x22' => return '\x22'
  | '\\' => return '\\'
  | '/' => return '/'
  | _ => failure

/-- A character by one code unit, or by two that form a surrogate pair. -/
def codedChar : Grammar Char := do
  let unit ← codeUnit
  if 0xd800 ≤ unit ∧ unit < 0xdc00 then
    let low ← codeUnit
    if 0xdc00 ≤ low ∧ low < 0xe000 then
      return Char.ofNat (0x10000 + (unit - 0xd800) * 0x400 + (low - 0xdc00))
    else failure
  else
    match charOfCode? unit with
    | some c => return c
    | none => failure

def text : Grammar String := do
  char quote
  let content ← many (one isTextChar <|> shortEscape <|> codedChar)
  char quote
  return String.ofList content

/-- A text that is not read, in which code units need not form characters. -/
def ignoredText : Grammar Unit := do
  char quote
  let _ ← many ((do let _ ← one isTextChar) <|> (do let _ ← shortEscape) <|> do
    let _ ← codeUnit)
  char quote

/-- The digits of a whole number, without leading zeros. -/
def digits : Grammar (List Char) := do
  match ← peek with
  | some '0' =>
    char '0'
    return ['0']
  | _ => run1 Char.isDigit

def ignoredNumber : Grammar Unit := do
  let _ ← optional (char '-')
  let _ ← digits
  let _ ← optional (do char '.'; run1 Char.isDigit)
  let _ ← optional (do
    let _ ← one fun c => c == 'e' || c == 'E'
    let _ ← optional (one fun c => c == '+' || c == '-')
    run1 Char.isDigit)

/-- Items between two marks, with commas between them. -/
def enclosed {α : Type} (first last : Char) (item : Grammar α) : Grammar (List α) := do
  char first
  blank
  let items ← optional (separated (do let value ← item; blank; return value) (do
    char ','
    blank))
  char last
  return items.getD []

/-- A value that is not read, nested at most `nesting` deep. -/
def ignoredValue : Nat → Grammar Unit
  | 0 => failure
  | nesting + 1 => do
    match ← peek with
    | some '\x22' => ignoredText
    | some '[' => let _ ← enclosed '[' ']' (ignoredValue nesting)
    | some '\x7b' =>
      let _ ← enclosed '\x7b' '\x7d' (do
        ignoredText
        blank
        char ':'
        blank
        ignoredValue nesting)
    | some 't' => word ['t', 'r', 'u', 'e']
    | some 'f' => word ['f', 'a', 'l', 's', 'e']
    | some 'n' => word ['n', 'u', 'l', 'l']
    | _ => ignoredNumber

/-- A value that is not read. It cannot nest deeper than it is long. -/
def ignored : Grammar Unit := do
  ignoredValue (← get).length

/-- A whole number of 32 bits. -/
def number32 : Grammar UInt32 := do
  let value := digitsValue 10 (← digits)
  if value < UInt32.size then return UInt32.ofNat value else failure

/-- A member of the object: a limit with its value, or nothing for another name. -/
def member : Grammar (Option (String × UInt32)) := do
  let name ← text
  blank
  char ':'
  blank
  if name ∈ Limits.names then return some (name, ← number32)
  else
    ignored
    return none

/-- Named limits, none of them set twice. -/
def namedLimits : Grammar (List (String × UInt32)) := do
  let found := (← enclosed '\x7b' '\x7d' member).filterMap id
  if (found.map Prod.fst).Nodup then return found else failure

/-- The first limits in their order. -/
def listedLimits : Grammar (List (String × UInt32)) := do
  let values ← enclosed '[' ']' number32
  if values.length ≤ Limits.names.length then return Limits.names.zip values else failure

def settings : Grammar (List (String × UInt32)) := do
  blank
  let found ← namedLimits <|> listedLimits
  blank
  return found

end Json

namespace Limits

/-- Sets limits by name, over the most that the format can express. -/
def ofSettings (settings : List (String × UInt32)) : Limits :=
  settings.foldl (fun limits (name, value) => limits.set name value) {}

/-- Reads valid limits from JSON text. -/
def ofJson (text : String) : Except LimitsFault Limits := do
  let some settings := Grammar.whole Json.settings text | throw .unreadable
  let limits := ofSettings settings
  limits.validate
  return limits

end Limits

end ClassImage
