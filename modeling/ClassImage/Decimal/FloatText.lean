import ClassImage.Decimal.Shortest

/-!
The text of floating-point numbers given by their bit patterns: the shortest
digits that read back, positional from 0.0001 to below 10 ^ 16 and with an
exponent elsewhere. A positional text always has a fraction.
-/

namespace ClassImage

namespace Decimal

/-- A binary interchange format: the sizes of its fraction and exponent fields. -/
structure Format where
  fractionBits : Nat
  exponentBits : Nat

def single : Format := ⟨23, 8⟩

def double : Format := ⟨52, 11⟩

/-- Where positional notation ends on either side, by the power of ten of the leading digit. -/
structure Notation where
  leastPositional : Int
  leastScientific : Int

def plainNotation : Notation := ⟨-4, 16⟩

/-- The decimal digits without trailing zeros. -/
def significant (digits : Nat) : List Char :=
  ((Nat.toDigits 10 digits).reverse.dropWhile (· = '0')).reverse

def positional (digits : List Char) (magnitude : Int) : List Char :=
  if magnitude < 0 then
    '0' :: '.' :: (List.replicate ((-magnitude).toNat - 1) '0' ++ digits)
  else
    let whole := magnitude.toNat + 1
    let fraction := digits.drop whole
    digits.take whole ++ List.replicate (whole - digits.length) '0' ++
      '.' :: (if fraction.isEmpty then ['0'] else fraction)

def scientific (digits : List Char) (magnitude : Int) : List Char :=
  let fraction := digits.drop 1
  digits.take 1 ++ (if fraction.isEmpty then [] else '.' :: fraction) ++
    'e' :: (toString magnitude).toList

/-- The text of a positive decimal. -/
def scaledText (style : Notation) (decimal : Scaled) : List Char :=
  let digits := significant decimal.digits
  let magnitude := decimal.exponent + ((Nat.toDigits 10 decimal.digits).length : Int) - 1
  if style.leastPositional ≤ magnitude ∧ magnitude < style.leastScientific then
    positional digits magnitude
  else scientific digits magnitude

/-- The text of the number with these bits. -/
def text (format : Format) (bits : Nat) : String :=
  let fractions := Nat.pow 2 format.fractionBits
  let exponents := Nat.pow 2 format.exponentBits
  let fraction := bits % fractions
  let exponent := bits / fractions % exponents
  let isNegative := bits / (fractions * exponents) % 2 = 1
  let sign := if isNegative then "-" else ""
  let bias : Int := Nat.pow 2 (format.exponentBits - 1) - 1 + format.fractionBits
  if exponent = exponents - 1 then
    if fraction = 0 then sign ++ "inf" else "NaN"
  else if exponent = 0 then
    if fraction = 0 then sign ++ "0.0"
    else sign ++ String.ofList (scaledText plainNotation
      (Binary.shortest ⟨fraction, 1 - bias, false⟩))
  else sign ++ String.ofList (scaledText plainNotation
    (Binary.shortest ⟨fractions + fraction, exponent - bias, fraction = 0⟩))

end Decimal

end ClassImage
