import Mathlib.Tactic
import ClassImage.Bytes.Checksum

/-!
Changes that the checksum shows. A shift loses nothing: the polynomial sets the
top bit, which a halved remainder never has, so the result tells whether a bit
fell out. Absorbing a byte is therefore one-to-one in the remainder and in the
byte, and remainders that differ once differ until the end, whatever follows.
-/

namespace ClassImage

namespace Checksum

theorem isOdd_iff (remainder : UInt32) : remainder &&& 1 = 1 ↔ remainder.toNat % 2 = 1 := by
  rw [← UInt32.toNat_inj, UInt32.toNat_and, UInt32.toNat_one, Nat.and_one_is_mod]

theorem toNat_half (remainder : UInt32) : (remainder >>> 1).toNat = remainder.toNat / 2 := by
  rw [UInt32.toNat_shiftRight, UInt32.toNat_one]
  simp [Nat.shiftRight_succ]

theorem half_lt (remainder : UInt32) : (remainder >>> 1).toNat < 2 ^ 31 := by
  have bound := remainder.toNat_lt
  rw [toNat_half]
  omega

/-- Two halves never differ by the polynomial, which has the top bit. -/
theorem half_xor_ne (left right : UInt32) : (left >>> 1) ^^^ polynomial ≠ right >>> 1 := by
  intro same
  have whole : polynomial = (left >>> 1) ^^^ (right >>> 1) := by
    rw [← same, ← UInt32.xor_assoc, UInt32.xor_self, UInt32.zero_xor]
  have small : polynomial.toNat < 2 ^ 31 := by
    rw [whole, UInt32.toNat_xor]
    exact Nat.xor_lt_two_pow (half_lt left) (half_lt right)
  exact absurd small (by decide)

theorem shift_injective : Function.Injective shift := by
  intro left right same
  have halves : left >>> 1 = right >>> 1 ∧ (left &&& 1 = 1 ↔ right &&& 1 = 1) := by
    unfold shift at same
    split_ifs at same with odd odd' odd'
    · exact ⟨(UInt32.xor_left_inj polynomial).mp same, by simp [odd, odd']⟩
    · exact absurd same (half_xor_ne left right)
    · exact absurd same.symm (half_xor_ne right left)
    · exact ⟨same, by simp [odd, odd']⟩
  obtain ⟨half, parity⟩ := halves
  rw [isOdd_iff, isOdd_iff] at parity
  have half := congrArg UInt32.toNat half
  rw [toNat_half, toNat_half] at half
  apply UInt32.toNat_inj.mp
  omega

theorem shifts_injective (steps : Nat) : Function.Injective (shifts steps) := by
  induction steps with
  | zero => exact fun _ _ same => same
  | succ steps ih => exact ih.comp shift_injective

theorem absorb_left_injective (byte : UInt8) : Function.Injective (absorb · byte) := by
  intro left right same
  exact (UInt32.xor_left_inj _).mp (shifts_injective 8 same)

theorem absorb_right_injective (remainder : UInt32) : Function.Injective (absorb remainder) := by
  intro left right same
  have words := (UInt32.xor_right_inj _).mp (shifts_injective 8 same)
  have numbers := congrArg UInt32.toNat words
  rw [UInt8.toNat_toUInt32, UInt8.toNat_toUInt32] at numbers
  exact UInt8.toNat_inj.mp numbers

theorem foldl_absorb_injective (bytes : Bytes) : Function.Injective (bytes.foldl absorb) := by
  induction bytes with
  | nil => exact fun _ _ same => same
  | cons byte bytes ih => exact ih.comp (absorb_left_injective byte)

/-- The checksum tells byte strings apart that differ in one place. -/
theorem crc32_ne {front back : Bytes} {first second : UInt8} (other : first ≠ second) :
    crc32 (front ++ first :: back) ≠ crc32 (front ++ second :: back) := by
  intro same
  simp only [crc32, UInt32.xor_left_inj, List.foldl_append, List.foldl_cons] at same
  exact other (absorb_right_injective _ (foldl_absorb_injective back same))

theorem crc32_set_ne {bytes : Bytes} {place : Nat} {old byte : UInt8} (there : bytes[place]? = some old)
    (other : byte ≠ old) : crc32 (bytes.set place byte) ≠ crc32 bytes := by
  obtain ⟨inside, rfl⟩ := List.getElem?_eq_some_iff.mp there
  rw [List.set_eq_take_append_cons_drop, if_pos inside]
  have whole : bytes = bytes.take place ++ bytes[place] :: bytes.drop (place + 1) := by
    rw [List.getElem_cons_drop, List.take_append_drop]
  nth_rewrite 3 [whole]
  exact crc32_ne other

end Checksum

end ClassImage
