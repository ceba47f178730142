import Std.Data.TreeMap
import ClassImage.Program.Symbol

/-!
The use lists of a program: for every symbol, the attached instructions that
refer to it, in the order in which they were attached. Each list counts its
changes, and a cursor that meets another count than it started with refuses to
go on.
-/

namespace ClassImage

structure Use where
  kind : UseKind
  instruction : InstructionId
deriving DecidableEq

structure UseList where
  uses : Array Use := #[]
  revision : Nat := 0
deriving Inhabited

structure UseIndex where
  lists : Std.TreeMap Nat UseList := ∅

namespace UseIndex

def get (index : UseIndex) (symbol : Symbol) : UseList := index.lists.getD symbol.code {}

def put (index : UseIndex) (symbol : Symbol) (list : UseList) : UseIndex :=
  ⟨index.lists.insert symbol.code list⟩

/-- Appends a use to a symbol's list. -/
def add (index : UseIndex) (symbol : Symbol) (use : Use) : UseIndex :=
  let list := index.get symbol
  index.put symbol ⟨list.uses.push use, list.revision + 1⟩

/-- Drops an instruction from a symbol's list. -/
def remove (index : UseIndex) (symbol : Symbol) (instruction : InstructionId) : UseIndex :=
  let list := index.get symbol
  index.put symbol ⟨list.uses.filter (·.instruction ≠ instruction), list.revision + 1⟩

end UseIndex

/-- A walk over the uses of one symbol, of one kind or of all. -/
structure UseCursor where
  symbol : Symbol
  kind : Option UseKind
  position : Nat
  revision : Nat

namespace UseCursor

def start (index : UseIndex) (symbol : Symbol) (kind : Option UseKind) : UseCursor :=
  ⟨symbol, kind, 0, (index.get symbol).revision⟩

def accepts (cursor : UseCursor) (use : Use) : Bool :=
  match cursor.kind with
  | none => true
  | some kind => use.kind = kind

/-- Steps over uses until one is accepted, or all are passed. -/
def walk (cursor : UseCursor) : List Use → Option Use × UseCursor
  | [] => (none, cursor)
  | use :: rest =>
    let moved := { cursor with position := cursor.position + 1 }
    if cursor.accepts use then (some use, moved) else moved.walk rest

end UseCursor

end ClassImage
