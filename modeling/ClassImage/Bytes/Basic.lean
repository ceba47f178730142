/-!
Byte strings and their little-endian fields. A field of `width` bytes holds a
number below `256 ^ width`; writing takes the number modulo that bound, and
reading a field back is `value`. Strings carry a four-byte length, optional
numbers a presence byte.
-/

namespace ClassImage

abbrev Bytes := List UInt8

namespace Bytes

/-- The `width` low bytes of a number, least significant first. -/
def little : Nat → Nat → Bytes
  | 0, _ => []
  | width + 1, number => UInt8.ofNat number :: little width (number / 256)

/-- The number a little-endian field holds. -/
def value : Bytes → Nat
  | [] => 0
  | byte :: rest => byte.toNat + 256 * value rest

def ofUInt16 (word : UInt16) : Bytes := little 2 word.toNat

def ofUInt32 (word : UInt32) : Bytes := little 4 word.toNat

def ofUInt64 (word : UInt64) : Bytes := little 8 word.toNat

/-- A table size or text length, which has four bytes. -/
def ofCount (count : Nat) : Bytes := little 4 count

def ofText (text : String) : Bytes :=
  let content := text.toUTF8.data.toList
  ofCount content.length ++ content

/-- A presence byte, then the number if there is one. -/
def ofOptional : Option UInt32 → Bytes
  | none => [0]
  | some word => 1 :: ofUInt32 word

/-- A counted table: the number of entries, then each entry. -/
def ofTable (entry : α → Bytes) (entries : List α) : Bytes :=
  ofCount entries.length ++ entries.flatMap entry

/-- Overwrites the bytes that start at `offset`. -/
def patch (bytes : Bytes) (offset : Nat) (replacement : Bytes) : Bytes :=
  bytes.take offset ++ replacement ++ bytes.drop (offset + replacement.length)

theorem length_little (width number : Nat) : (little width number).length = width := by
  induction width generalizing number with
  | zero => rfl
  | succ width ih => simp [little, ih]

theorem little_value (bytes : Bytes) : little bytes.length (value bytes) = bytes := by
  induction bytes with
  | nil => rfl
  | cons byte rest ih =>
    have bound := byte.toNat_lt
    have low : UInt8.ofNat (byte.toNat + 256 * value rest) = byte := by
      apply UInt8.toNat_inj.mp
      simp only [UInt8.toNat_ofNat']
      omega
    have high : (byte.toNat + 256 * value rest) / 256 = value rest := by omega
    simp only [List.length_cons, little, value, low, high, ih]

end Bytes

end ClassImage
