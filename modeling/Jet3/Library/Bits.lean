import Mathlib.Data.Nat.Bitwise

/-!
# Packed words

A word made of a number in its low bits and flags above them: the number is recovered by a mask,
the flags by their own bits.
-/

namespace Bits

/-- The low `k` bits of a number below `2 ^ k` are the number. -/
theorem and_mask_of_lt {n k : ℕ} (h : n < 2 ^ k) : n &&& (2 ^ k - 1) = n := by
  rw [Nat.and_two_pow_sub_one_eq_mod, Nat.mod_eq_of_lt h]

/-- A number below `2 ^ k` does not have bit `k`. -/
theorem and_two_pow_of_lt {n k : ℕ} (h : n < 2 ^ k) : n &&& 2 ^ k = 0 := by
  rw [Nat.and_two_pow, Nat.testBit_lt_two_pow h]
  simp

/-- A bit above the low part of a packed word is a bit of its flags. -/
theorem or_and_two_pow_of_lt {n k flags : ℕ} (h : n < 2 ^ k) :
    (n ||| flags) &&& 2 ^ k = flags &&& 2 ^ k := by
  rw [Nat.and_or_distrib_right, and_two_pow_of_lt h, Nat.zero_or]

/-- The low part of a packed word whose flags lie above the mask. -/
theorem or_and_mask_of_lt {n k flags : ℕ} (h : n < 2 ^ k) (hflags : flags &&& (2 ^ k - 1) = 0) :
    (n ||| flags) &&& (2 ^ k - 1) = n := by
  rw [Nat.and_or_distrib_right, hflags, Nat.or_zero, and_mask_of_lt h]

/-- A flag that is present contributes its own bit. -/
theorem ite_and_two_pow (n k : ℕ) : (if n &&& 2 ^ k ≠ 0 then 2 ^ k else 0) = n &&& 2 ^ k := by
  rw [Nat.and_two_pow]
  cases n.testBit k <;> simp

end Bits
