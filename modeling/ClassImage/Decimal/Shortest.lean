/-!
The shortest decimal that reads back as a given binary floating-point number.
The numbers that read back form an interval around the value. For 1, 2, ...
digits the two decimals next to the value are tried; the first that lies in the
interval is the answer, the nearer one if both do, and the larger one on a tie.
All arithmetic is exact.
-/

namespace ClassImage

namespace Decimal

/-- The number `mantissa * 2 ^ exponent`. At a power of two the gap below is half the gap above. -/
structure Binary where
  mantissa : Nat
  exponent : Int
  isPower : Bool

/-- The number `digits * 10 ^ exponent`. -/
structure Scaled where
  digits : Nat
  exponent : Int
deriving DecidableEq

/-- A quotient of natural numbers. -/
structure Ratio where
  num : Nat
  den : Nat

namespace Ratio

/-- The number `factor * base ^ exponent`. -/
def scaled (factor base : Nat) (exponent : Int) : Ratio :=
  ⟨factor * base.pow exponent.toNat, base.pow (-exponent).toNat⟩

def lt (left right : Ratio) : Bool := left.num * right.den < right.num * left.den

def le (left right : Ratio) : Bool := left.num * right.den ≤ right.num * left.den

end Ratio

namespace Binary

def value (number : Binary) : Ratio := .scaled number.mantissa 2 number.exponent

/-- The decimal reads back as the number. The ends of the interval do so for even mantissas. -/
def accepts (number : Binary) (decimal : Scaled) : Bool :=
  let low := Ratio.scaled (4 * number.mantissa - if number.isPower then 1 else 2) 2 (number.exponent - 2)
  let high := Ratio.scaled (4 * number.mantissa + 2) 2 (number.exponent - 2)
  let middle := Ratio.scaled decimal.digits 10 decimal.exponent
  if number.mantissa % 2 = 0 then low.le middle && middle.le high
  else low.lt middle && middle.lt high

/-- The power of ten of the leading digit. -/
def magnitude (number : Binary) : Int :=
  let value := number.value
  ((Nat.toDigits 10 (value.num * Nat.pow 10 400 / value.den)).length : Int) - 401

/-- The best decimal on the grid of multiples of a power of ten, if one reads back. -/
def onGrid (number : Binary) (grid : Int) : Option Scaled :=
  let value := number.value
  let unit := Ratio.scaled 1 10 grid
  let below := value.num * unit.den / (value.den * unit.num)
  let remainder := value.num * unit.den % (value.den * unit.num)
  let lower : Scaled := ⟨below, grid⟩
  let upper : Scaled := ⟨below + 1, grid⟩
  match number.accepts lower, number.accepts upper with
  | true, true => some (if 2 * remainder < value.den * unit.num then lower else upper)
  | true, false => some lower
  | false, true => some upper
  | false, false => none

/-- Seventeen digits always suffice for a double. -/
def maxDigits : Nat := 17

/-- The shortest decimal that reads back. -/
def shortest (number : Binary) : Scaled :=
  let magnitude := number.magnitude
  let found := (List.range maxDigits).findSome? fun (digits : Nat) =>
    number.onGrid (magnitude - digits)
  found.getD ⟨0, 0⟩

end Binary

end Decimal

end ClassImage
