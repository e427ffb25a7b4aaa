import Mathlib.Algebra.Order.Ring.Nat

/-! Masks of low bits on machine words: `x & (2^k - 1)` is a remainder, and
`x & ~(2^k - 1)` rounds down to a multiple. Fields of a word are quotients. -/

namespace AstraOS.Foundation

theorem and_mask_toNat (x : BitVec w) (inside : k ≤ w) :
    (x &&& BitVec.ofNat w (2 ^ k - 1)).toNat = x.toNat % 2 ^ k := by
  have small : 2 ^ k - 1 < 2 ^ w :=
    lt_of_lt_of_le (Nat.sub_lt (Nat.two_pow_pos k) Nat.one_pos) (Nat.pow_le_pow_right (by decide) inside)
  rw [BitVec.toNat_and, BitVec.toNat_ofNat, Nat.mod_eq_of_lt small, Nat.and_two_pow_sub_one_eq_mod]

theorem and_not_mask_toNat (x : BitVec w) (k : Nat) :
    (x &&& ~~~BitVec.ofNat w (2 ^ k - 1)).toNat = x.toNat / 2 ^ k * 2 ^ k := by
  have shifted : x &&& ~~~BitVec.ofNat w (2 ^ k - 1) = (x >>> k) <<< k := by
    apply BitVec.eq_of_getLsbD_eq
    intro i bound
    have low : (BitVec.ofNat w (2 ^ k - 1)).getLsbD i = decide (i < k) := by
      rw [BitVec.getLsbD_ofNat, Nat.testBit_two_pow_sub_one]
      simp [bound]
    rw [BitVec.getLsbD_and, BitVec.getLsbD_not, low, BitVec.getLsbD_shiftLeft, BitVec.getLsbD_ushiftRight]
    rcases Nat.lt_or_ge i k with below | above
    · simp [bound, below]
    · have above' : ¬ i < k := Nat.not_lt.mpr above
      simp [bound, above', Nat.add_sub_of_le above]
  have value : x.toNat / 2 ^ k * 2 ^ k < 2 ^ w :=
    lt_of_le_of_lt (Nat.div_mul_le_self _ _) x.isLt
  rw [shifted, BitVec.toNat_shiftLeft, BitVec.toNat_ushiftRight, Nat.shiftRight_eq_div_pow,
    Nat.shiftLeft_eq, Nat.mod_eq_of_lt value]

theorem append_toNat (high : BitVec m) (low : BitVec n) : (high ++ low).toNat = high.toNat * 2 ^ n + low.toNat := by
  rw [BitVec.toNat_append, ← Nat.shiftLeft_add_eq_or_of_lt low.isLt, Nat.shiftLeft_eq]

theorem extract_toNat (word : BitVec w) (start length : Nat) :
    (word.extractLsb' start length).toNat = word.toNat / 2 ^ start % 2 ^ length := by
  rw [BitVec.extractLsb'_toNat, Nat.shiftRight_eq_div_pow]

end AstraOS.Foundation
