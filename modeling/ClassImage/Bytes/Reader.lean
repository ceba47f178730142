import ClassImage.Bytes.Hex

/-!
Reading bytes from front to back. A reader either yields a value or a fault,
and in both cases leaves a cursor, so the position of a failure and what was
consumed before it are part of the result. A fixed-size field that does not
fit is not consumed at all.
-/

namespace ClassImage

structure Cursor where
  position : Nat
  rest : Bytes

inductive ReadFault where
  | unexpectedEnd (offset : Nat)
  | invalidText (offset : Nat)
  | invalidOpcode (byte : UInt8) (offset : Nat)
  | invalidTag (tag : UInt8) (offset : Nat)
deriving DecidableEq

def ReadFault.message : ReadFault → String
  | .unexpectedEnd offset => s!"Unexpected end of image at offset {offset}"
  | .invalidText offset => s!"Invalid UTF-8 string at offset {offset}"
  | .invalidOpcode byte offset => s!"Invalid opcode 0x{Hex.padded 2 byte.toNat} at offset {offset}"
  | .invalidTag tag offset => s!"Invalid operand tag {tag.toNat} at offset {offset}"

/-- Fails when a condition holds. -/
def refuse [Monad m] [MonadExcept ε m] (condition : Prop) [Decidable condition] (fault : ε) : m Unit :=
  if condition then throw fault else pure ()

abbrev Reader := ExceptT ReadFault (StateM Cursor)

namespace Cursor

def ofBytes (bytes : Bytes) : Cursor := ⟨0, bytes⟩

def remaining (cursor : Cursor) : Nat := cursor.rest.length

def hasMore (cursor : Cursor) : Bool := !cursor.rest.isEmpty

end Cursor

namespace Reader

/-- Splits off exactly `count` bytes, if there are that many. -/
def split? : Nat → Bytes → Option (Bytes × Bytes)
  | 0, bytes => some ([], bytes)
  | _ + 1, [] => none
  | count + 1, byte :: bytes =>
    match split? count bytes with
    | some (front, back) => some (byte :: front, back)
    | none => none

def run (reader : Reader α) (cursor : Cursor) : Except ReadFault α × Cursor := reader cursor

def position : Reader Nat := do return (← get).position

/-- The next `count` bytes; a failure consumes nothing. -/
def bytes (count : Nat) : Reader Bytes := fun cursor =>
  match split? count cursor.rest with
  | some (front, back) => (.ok front, ⟨cursor.position + count, back⟩)
  | none => (.error (.unexpectedEnd cursor.position), cursor)

def number (width : Nat) : Reader Nat := do return Bytes.value (← bytes width)

def u8 : Reader UInt8 := do return UInt8.ofNat (← number 1)

def u16 : Reader UInt16 := do return UInt16.ofNat (← number 2)

def u32 : Reader UInt32 := do return UInt32.ofNat (← number 4)

def u64 : Reader UInt64 := do return UInt64.ofNat (← number 8)

def int32 : Reader Int32 := do return (← u32).toInt32

def int64 : Reader Int64 := do return (← u64).toInt64

/-- A length, then that many bytes of well-formed text. -/
def text : Reader String := do
  let length ← u32
  let start ← position
  let content ← bytes length.toNat
  match String.fromUTF8? ⟨content.toArray⟩ with
  | some text => return text
  | none => throw (.invalidText start)

/-- A presence byte, which is 0 or 1, then the number if it is 1. -/
def optional : Reader (Option UInt32) := do
  let offset ← position
  let tag ← u8
  if tag = 0 then return none
  else if tag = 1 then return some (← u32)
  else throw (.invalidTag tag offset)

/-- A table size. It is refused when that many entries of at least `smallest` bytes cannot follow. -/
def count (smallest : Nat) : Reader Nat := do
  let offset ← position
  let size ← u32
  let cursor ← get
  refuse (size.toNat * max smallest 1 > cursor.remaining) (ReadFault.unexpectedEnd offset)
  return size.toNat

/-- Runs a reader a number of times. -/
def times (size : Nat) (entry : Reader α) : Reader (List α) :=
  (List.replicate size ()).mapM fun _ => entry

/-- A counted table whose entries take at least `smallest` bytes each. -/
def table (smallest : Nat) (entry : Reader α) : Reader (List α) := do
  times (← count smallest) entry

end Reader

end ClassImage
