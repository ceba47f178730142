import ClassImage.Bytes.Basic

/-! Hexadecimal text of byte strings and numbers, in lower case. -/

namespace ClassImage

namespace Hex

/-- The digits of a number, without leading zeros. -/
def ofNat (number : Nat) : String := String.ofList (Nat.toDigits 16 number)

/-- The digits of a number, padded with zeros to `width`. -/
def padded (width number : Nat) : String :=
  let digits := Nat.toDigits 16 number
  String.ofList (List.replicate (width - digits.length) '0' ++ digits)

def ofBytes (bytes : Bytes) : String :=
  String.ofList (bytes.flatMap fun byte => (padded 2 byte.toNat).toList)

def digit? (c : Char) : Option Nat :=
  if '0' ≤ c ∧ c ≤ '9' then some (c.toNat - 48)
  else if 'a' ≤ c ∧ c ≤ 'f' then some (c.toNat - 87)
  else if 'A' ≤ c ∧ c ≤ 'F' then some (c.toNat - 55)
  else none

/-- The number that hexadecimal digits denote. -/
def toNat? (digits : List Char) : Option Nat :=
  digits.foldlM (fun number c => (digit? c).map (16 * number + ·)) 0

def toBytes? : List Char → Option Bytes
  | [] => some []
  | high :: low :: rest => do
    let byte ← toNat? [high, low]
    let bytes ← toBytes? rest
    return UInt8.ofNat byte :: bytes
  | [_] => none

end Hex

end ClassImage
