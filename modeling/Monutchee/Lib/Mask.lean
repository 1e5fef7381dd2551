import Mathlib.Data.Nat.Bitwise
import Mathlib.Data.List.Basic

/-!
# Prefix masks

A word of ones shifted left by `n` separates the last `n` bits of a word from the others: the
part under the mask is the quotient by `2^n`, the part outside it the remainder.
-/

namespace Monutchee.Lib

variable {w : ℕ}

def mask (w n : ℕ) : BitVec w := BitVec.allOnes w <<< n

theorem mask_bit {n i : ℕ} (hi : i < w) : (mask w n).getLsbD i = decide (n ≤ i) := by
  by_cases h : n ≤ i
  · simp [mask, hi, h]
  · have hlt : i < n := by omega
    simp [mask, hi, h, hlt]

theorem not_mask_toNat {n : ℕ} (h : n ≤ w) : (~~~mask w n).toNat = 2^n - 1 := by
  have hpow : 2^n ≤ 2^w := Nat.pow_le_pow_right (by decide) h
  have hpos : 0 < 2^n := Nat.two_pow_pos n
  have hword : ~~~mask w n = BitVec.ofNat w (2^n - 1) := by
    apply BitVec.eq_of_getLsbD_eq
    intro i hi
    rw [BitVec.getLsbD_not, mask_bit hi, BitVec.getLsbD_ofNat, Nat.testBit_two_pow_sub_one]
    by_cases hn : n ≤ i
    · simp [hi, hn]
    · simp [hi, hn, Nat.lt_of_not_le hn]
  rw [hword, BitVec.toNat_ofNat]
  exact Nat.mod_eq_of_lt (by omega)

theorem and_not_mask {n : ℕ} (h : n ≤ w) (a : BitVec w) :
    (a &&& ~~~mask w n).toNat = a.toNat % 2^n := by
  rw [BitVec.toNat_and, not_mask_toNat h, Nat.and_two_pow_sub_one_eq_mod]

theorem and_mask {n : ℕ} (a : BitVec w) : a &&& mask w n = (a >>> n) <<< n := by
  apply BitVec.eq_of_getLsbD_eq
  intro i hi
  rw [BitVec.getLsbD_and, mask_bit hi]
  by_cases hn : n ≤ i
  · simp [hi, hn, Nat.not_lt.mpr hn]
  · simp [hn, Nat.lt_of_not_le hn]

theorem shift_back {n : ℕ} (a : BitVec w) : ((a >>> n) <<< n) >>> n = a >>> n := by
  apply BitVec.eq_of_getLsbD_eq
  intro i hi
  by_cases hn : n + i < w
  · simp [hn]
  · have hout : a.getLsbD (n + i) = false := BitVec.getLsbD_of_ge a _ (Nat.not_lt.mp hn)
    simp [hout]

/-- Two words agree under the mask when their quotients do. -/
theorem and_mask_eq_iff {n : ℕ} {a b : BitVec w} :
    a &&& mask w n = b &&& mask w n ↔ a.toNat / 2^n = b.toNat / 2^n := by
  have hquotient : ∀ c : BitVec w, (c >>> n).toNat = c.toNat / 2^n := fun c => by
    rw [BitVec.toNat_ushiftRight, Nat.shiftRight_eq_div_pow]
  rw [and_mask, and_mask, ← hquotient a, ← hquotient b]
  constructor
  · intro h
    rw [← shift_back a, h, shift_back]
  · intro h
    rw [BitVec.eq_of_toNat_eq h]

/-- Shifting the digits of base `2^k` together one after another. -/
theorem shift_or_toNat {k n : ℕ} (a : BitVec w) (hn : n < 2^k) (ha : a.toNat * 2^k + n < 2^w) :
    ((a <<< k) ||| BitVec.ofNat w n).toNat = a.toNat * 2^k + n := by
  have hshift : (a <<< k).toNat = a.toNat <<< k := by
    rw [BitVec.toNat_shiftLeft, Nat.shiftLeft_eq]
    exact Nat.mod_eq_of_lt (by omega)
  have hlow : (BitVec.ofNat w n).toNat = n := by
    rw [BitVec.toNat_ofNat]
    exact Nat.mod_eq_of_lt (by omega)
  rw [BitVec.toNat_or, hshift, hlow, ← Nat.shiftLeft_add_eq_or_of_lt hn, Nat.shiftLeft_eq]

end Monutchee.Lib
