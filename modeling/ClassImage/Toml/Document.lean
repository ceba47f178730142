import ClassImage.Toml.Scalar
import ClassImage.Toml.Table

/-!
Whole configuration texts: lines that set a key, open a table, open a table of a
list, or hold nothing but a comment. Values nest at most 79 deep, and a key has at
most 79 parts.
-/

namespace ClassImage

namespace Toml

open Grammar

def maxNesting : Nat := 79

def isKeyChar (c : Char) : Bool := c.isAlphanum || c == '_' || c == '-'

def keyPart : Grammar String :=
  basicText <|> literalText <|> String.ofList <$> run1 isKeyChar

/-- The parts of a key, with dots between them. -/
def key : Grammar (List String) := do
  let parts ← separated (do blank; let part ← keyPart; blank; return part) (char '.')
  if parts.length ≤ maxNesting then return parts else failure

/-- Blank space over several lines, with comments. -/
def gap : Grammar Unit := do
  blank
  let _ ← many (do
    newline <|> do comment; newline
    blank)

/-- An array over any number of lines; a comma may follow its last item. -/
def array (value : Grammar Item) : Grammar Item := do
  char '['
  let _ ← optional (do
    let _ ← separated (do gap; let _ ← value; gap) (char ',')
    optional (char ','))
  gap
  char ']'
  return .closed

/-- A table on one line. -/
def lineTable (value : Grammar Item) : Grammar Item := do
  char '\x7b'
  let members ← optional (separated (do
    let path ← key
    char '='
    blank
    let item ← value
    blank
    return (path, item)) (char ','))
  blank
  char '\x7d'
  let assigned := (members.getD []).foldlM
    (fun (table : Members) (path, item) => table.assign .header path item) []
  if assigned.isSome then return .closed else failure

def scalarItem : Grammar Item := do
  match ← scalar with
  | some value => return .integer value
  | none => return .closed

/-- A value with at most `nesting` arrays and tables inside one another. -/
def value : Nat → Grammar Item
  | 0 => scalarItem
  | nesting + 1 => scalarItem <|> array (value nesting) <|> lineTable (value nesting)

inductive Line where
  | assign (path : List String) (item : Item)
  | openTable (path : List String)
  | openElement (path : List String)
  | empty

def lineEnd : Grammar Unit := do
  blank
  let _ ← optional comment
  newline <|> atEnd

def line : Grammar Line :=
  (do newline; return .empty)
    <|> (do comment; newline <|> atEnd; return .empty)
    <|> (do
      word ['[', '[']
      let path ← key
      word [']', ']']
      lineEnd
      return .openElement path)
    <|> (do
      char '['
      let path ← key
      char ']'
      lineEnd
      return .openTable path)
    <|> do
      let path ← key
      char '='
      blank
      let item ← value maxNesting
      lineEnd
      return .assign path item

/-- All lines of a text, which may start with a byte order mark. -/
def lines : Grammar (List Line) := do
  let _ ← optional (char '\ufeff')
  blank
  many (do let line ← line; blank; return line)

/-- Keys set so far, and the path of the table that lines add to. -/
structure Document where
  members : Members := []
  current : List String := []

namespace Document

def extend (document : Document) : Line → Option Document
  | .empty => some document
  | .assign path item => do
    let change := fun origin (members : Members) => members.assign origin path item
    return { document with
      members := ← document.members.within false change document.current .header }
  | .openTable path => do
    return { members := ← document.members.openTable path, current := path }
  | .openElement path => do
    return { members := ← document.members.openElement path, current := path }

def ofText? (text : String) : Option Document := do
  (← whole lines text).foldlM extend {}

end Document

end Toml

end ClassImage
