import Mathlib.Algebra.Group.Nat.Defs

/-!
# Fixed-width arithmetic

Counters of `w` bits: the successor below the largest value, and the signed reading of a difference
of two counters that are less than half the number space apart. And the masks that round a number
to a power of two.
-/

namespace Infra

variable {w : Nat}

/-- Counting up by one does not wrap below the largest value. -/
theorem toNat_succ {a : BitVec w} (hw : 0 < w) (h : a ≠ BitVec.allOnes w) :
    (a + 1).toNat = a.toNat + 1 := by
  have hlt := a.isLt
  have hone : (1 : BitVec w).toNat = 1 := by
    simp [Nat.mod_eq_of_lt (Nat.one_lt_two_pow (by omega : w ≠ 0))]
  have hne : a.toNat ≠ 2 ^ w - 1 := fun he => h (BitVec.eq_of_toNat_eq (by simpa using he))
  rw [BitVec.toNat_add_of_lt (by omega), hone]

/-! ## Signed readings -/

theorem toInt_of_lt_half {a : BitVec w} (hw : 0 < w) (h : a.toNat < 2 ^ (w - 1)) :
    a.toInt = a.toNat := by
  rw [BitVec.toInt_eq_toNat_cond, if_pos]
  rw [← Nat.two_pow_pred_mul_two hw]
  omega

theorem toInt_of_half_le {a : BitVec w} (hw : 0 < w) (h : 2 ^ (w - 1) ≤ a.toNat) :
    a.toInt = (a.toNat : Int) - (2 ^ w : Nat) := by
  rw [BitVec.toInt_eq_toNat_cond, if_neg]
  rw [← Nat.two_pow_pred_mul_two hw]
  omega

/-- Signed distance from a counter that is not ahead, less than half the number space behind. -/
theorem toInt_sub_of_le {a b : BitVec w} (hw : 0 < w) (hle : b.toNat ≤ a.toNat)
    (h : a.toNat - b.toNat < 2 ^ (w - 1)) : (a - b).toInt = (a.toNat : Int) - b.toNat := by
  have hsub := BitVec.toNat_sub_of_le (BitVec.le_def.mpr hle)
  rw [toInt_of_lt_half hw (by rwa [hsub]), hsub]
  omega

/-- Signed distance from a counter that is ahead by at most half the number space. -/
theorem toInt_sub_of_lt {a b : BitVec w} (hw : 0 < w) (hlt : a.toNat < b.toNat)
    (h : b.toNat - a.toNat ≤ 2 ^ (w - 1)) : (a - b).toInt = (a.toNat : Int) - b.toNat := by
  have hp := Nat.two_pow_pred_mul_two hw
  have hb := b.isLt
  have hsub := BitVec.toNat_sub_of_lt (BitVec.lt_def.mpr hlt)
  rw [toInt_of_half_le hw (by omega), hsub]
  omega

/-! ## Rounding to a power of two -/

/-- Clearing the `k` lowest bits rounds down to a multiple of `2 ^ k`. -/
theorem toNat_and_not_mask (a : BitVec w) (k : Nat) :
    (a &&& ~~~BitVec.ofNat w (2 ^ k - 1)).toNat = a.toNat / 2 ^ k * 2 ^ k := by
  have hshift : a &&& ~~~BitVec.ofNat w (2 ^ k - 1) = (a >>> k) <<< k := by
    refine BitVec.eq_of_getLsbD_eq fun i hi => ?_
    rw [BitVec.getLsbD_and, BitVec.getLsbD_not, BitVec.getLsbD_ofNat, Nat.testBit_two_pow_sub_one,
      BitVec.getLsbD_shiftLeft, BitVec.getLsbD_ushiftRight]
    by_cases hik : i < k
    · simp [hik, hi]
    · simp [hik, hi, Nat.add_sub_cancel' (Nat.le_of_not_lt hik)]
  have hle := Nat.div_mul_le_self a.toNat (2 ^ k)
  rw [hshift, BitVec.toNat_shiftLeft, BitVec.toNat_ushiftRight, Nat.shiftRight_eq_div_pow,
    Nat.shiftLeft_eq, Nat.mod_eq_of_lt (Nat.lt_of_le_of_lt hle a.isLt)]

end Infra
