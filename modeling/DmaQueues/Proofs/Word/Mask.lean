import DmaQueues.Word.Mask
import Mathlib.Data.Nat.Bitwise

/-!
# Bits of masked fields

Words are compared bit by bit, through `Nat.testBit`. A mask is `Contiguous` if its bits
stand in a row; then bit `j` of a field is bit `shift + j` of the word, and placing and
reading a field move its bits by the shift of the mask.
-/

namespace DmaQueues

/-! ## Bits of words -/

/-- A number below `2 ^ n` has its bits below `n`. -/
theorem lt_of_testBit {n x j : Nat} (hx : x < 2 ^ n) (h : x.testBit j = true) : j < n := by
  by_contra hj
  have hlt : x < 2 ^ j := Nat.lt_of_lt_of_le hx (Nat.pow_le_pow_right (by decide) (by omega))
  rw [Nat.testBit_lt_two_pow hlt] at h
  cases h

theorem lt_of_testBit32 {x : UInt32} {j : Nat} (h : x.toNat.testBit j = true) : j < 32 :=
  lt_of_testBit x.toNat_lt h

theorem eq_of_testBit64 {x y : UInt64} (h : ∀ j, x.toNat.testBit j = y.toNat.testBit j) :
    x = y :=
  UInt64.toNat_inj.1 (Nat.eq_of_testBit_eq h)

theorem toNat_ofNat32 {k : Nat} (hk : k < 32) : (UInt32.ofNat k).toNat % 32 = k := by
  rw [UInt32.toNat_ofNat', Nat.mod_eq_of_lt (by omega : k < 2 ^ 32), Nat.mod_eq_of_lt hk]

theorem toNat_ofNat64 {k : Nat} (hk : k < 64) : (UInt64.ofNat k).toNat % 64 = k := by
  rw [UInt64.toNat_ofNat', Nat.mod_eq_of_lt (by omega : k < 2 ^ 64), Nat.mod_eq_of_lt hk]

theorem testBit_shiftLeft32 (x : UInt32) {k : Nat} (hk : k < 32) (j : Nat) :
    (x <<< UInt32.ofNat k).toNat.testBit j =
      (decide (j < 32) && (decide (k ≤ j) && x.toNat.testBit (j - k))) := by
  rw [UInt32.toNat_shiftLeft, toNat_ofNat32 hk, Nat.testBit_mod_two_pow, Nat.testBit_shiftLeft]

theorem testBit_shiftRight32 (x : UInt32) {k : Nat} (hk : k < 32) (j : Nat) :
    (x >>> UInt32.ofNat k).toNat.testBit j = x.toNat.testBit (k + j) := by
  rw [UInt32.toNat_shiftRight, toNat_ofNat32 hk, Nat.testBit_shiftRight]

theorem testBit_shiftLeft64 (x : UInt64) {k : Nat} (hk : k < 64) (j : Nat) :
    (x <<< UInt64.ofNat k).toNat.testBit j =
      (decide (j < 64) && (decide (k ≤ j) && x.toNat.testBit (j - k))) := by
  rw [UInt64.toNat_shiftLeft, toNat_ofNat64 hk, Nat.testBit_mod_two_pow, Nat.testBit_shiftLeft]

theorem testBit_shiftRight64 (x : UInt64) {k : Nat} (hk : k < 64) (j : Nat) :
    (x >>> UInt64.ofNat k).toNat.testBit j = x.toNat.testBit (k + j) := by
  rw [UInt64.toNat_shiftRight, toNat_ofNat64 hk, Nat.testBit_shiftRight]

theorem eq_of_testBit32 {x y : UInt32} (h : ∀ j, x.toNat.testBit j = y.toNat.testBit j) :
    x = y :=
  UInt32.toNat_inj.1 (Nat.eq_of_testBit_eq h)

/-- `2 ^ n - (c + 1)` has the bits below `n` that `c` has not. -/
theorem and_complement_eq_zero {n x c : Nat} (hx : x < 2 ^ n) (hc : c < 2 ^ n) :
    x &&& (2 ^ n - (c + 1)) = 0 ↔ ∀ j, x.testBit j = true → c.testBit j = true := by
  constructor
  · intro h j hj
    have hand := congrArg (Nat.testBit · j) h
    simp only [Nat.testBit_and, Nat.testBit_two_pow_sub_succ hc, hj, lt_of_testBit hx hj,
      decide_true, Bool.true_and, Nat.zero_testBit] at hand
    simpa using hand
  · intro h
    refine Nat.eq_of_testBit_eq fun j => ?_
    rw [Nat.testBit_and, Nat.testBit_two_pow_sub_succ hc, Nat.zero_testBit]
    cases hj : x.testBit j with
    | false => rfl
    | true => simp [h j hj]

/-- A word has no bit outside of `c`. -/
theorem and_not_eq_zero32 {x c : UInt32} :
    x &&& ~~~c = 0 ↔ ∀ j, x.toNat.testBit j = true → c.toNat.testBit j = true := by
  have hnot : (~~~c).toNat = 2 ^ 32 - (c.toNat + 1) := by
    rw [UInt32.toNat_not, UInt32.size]
    omega
  rw [← UInt32.toNat_inj, UInt32.toNat_and, hnot, UInt32.toNat_zero]
  exact and_complement_eq_zero x.toNat_lt c.toNat_lt

/-- A value has no bit outside of `c`. -/
theorem and_not_eq_zero {x c : UInt64} :
    x &&& ~~~c = 0 ↔ ∀ j, x.toNat.testBit j = true → c.toNat.testBit j = true := by
  have hnot : (~~~c).toNat = 2 ^ 64 - (c.toNat + 1) := by
    rw [UInt64.toNat_not, UInt64.size]
    omega
  rw [← UInt64.toNat_inj, UInt64.toNat_and, hnot, UInt64.toNat_zero]
  exact and_complement_eq_zero x.toNat_lt c.toNat_lt

theorem toNat_widthMax {w : Nat} (hw : w ≤ 64) : (widthMax w).toNat = 2 ^ w - 1 := by
  unfold widthMax
  by_cases h64 : w ≥ 64
  · rw [if_pos h64, show w = 64 by omega]
    rfl
  · rw [if_neg h64]
    have hone : ((1 : UInt64) <<< UInt64.ofNat w).toNat = 2 ^ w := by
      rw [UInt64.toNat_shiftLeft, toNat_ofNat64 (by omega), Nat.shiftLeft_eq,
        show (1 : UInt64).toNat = 1 from rfl, Nat.one_mul]
      exact Nat.mod_eq_of_lt (Nat.pow_lt_pow_right (by decide) (by omega))
    rw [UInt64.toNat_sub_of_le, hone]
    · rfl
    · rw [UInt64.le_iff_toNat_le, hone]
      exact Nat.one_le_two_pow

theorem testBit_widthMax {w : Nat} (hw : w ≤ 64) (j : Nat) :
    (widthMax w).toNat.testBit j = decide (j < w) := by
  rw [toNat_widthMax hw, Nat.testBit_two_pow_sub_one]

/-! ## Masks -/

namespace Mask

/-- The set bits stand in a row, and there is one. -/
def Contiguous (m : Mask) : Prop :=
  m ≠ 0 ∧ m.toNat = (2 ^ width m - 1) <<< shift m

instance (m : Mask) : Decidable m.Contiguous :=
  inferInstanceAs (Decidable (_ ∧ _))

theorem toNat_get_le (m : Mask) (word : UInt32) : (get m word).toNat ≤ m.toNat := by
  unfold get
  split
  · exact Nat.zero_le _
  · rw [UInt32.toNat_shiftRight, UInt32.toNat_and]
    exact (Nat.shiftRight_le _ _).trans Nat.and_le_right

namespace Contiguous

variable {m : Mask}

theorem testBit (h : Contiguous m) (j : Nat) :
    m.toNat.testBit j = decide (shift m ≤ j ∧ j < shift m + width m) := by
  rw [h.2, Nat.testBit_shiftLeft, Nat.testBit_two_pow_sub_one]
  by_cases hj : shift m ≤ j
  · simp [hj]
    omega
  · simp [hj]

theorem width_pos (h : Contiguous m) : 0 < width m := by
  by_contra hw
  have hzero : m.toNat = 0 := by
    rw [h.2, show width m = 0 by omega]
    exact Nat.zero_shiftLeft _
  exact h.1 (UInt32.toNat_inj.1 hzero)

theorem bound (h : Contiguous m) : shift m + width m ≤ 32 := by
  have hpos := h.width_pos
  have htop : m.toNat.testBit (shift m + width m - 1) = true := by
    rw [h.testBit]
    simp only [decide_eq_true_eq]
    omega
  have hlt := lt_of_testBit32 htop
  omega

theorem testBit_get (h : Contiguous m) (word : UInt32) (k : Nat) :
    (get m word).toNat.testBit k =
      (decide (k < width m) && word.toNat.testBit (shift m + k)) := by
  have hbound := h.bound
  have hpos := h.width_pos
  unfold get
  rw [if_neg h.1, testBit_shiftRight32 _ (by omega), UInt32.toNat_and, Nat.testBit_and, h.testBit]
  by_cases hk : k < width m
  · simp [hk]
  · simp [hk]

theorem testBit_place (h : Contiguous m) (value : UInt32) (j : Nat) :
    (place m value).toNat.testBit j =
      (m.toNat.testBit j && value.toNat.testBit (j - shift m)) := by
  have hbound := h.bound
  have hpos := h.width_pos
  unfold place
  rw [UInt32.toNat_and, Nat.testBit_and, testBit_shiftLeft32 _ (by omega)]
  cases hm : m.toNat.testBit j with
  | false => simp
  | true =>
    have hlt := lt_of_testBit32 hm
    rw [h.testBit] at hm
    simp only [decide_eq_true_eq] at hm
    simp [hlt, hm.1]

end Contiguous

end Mask

end DmaQueues
