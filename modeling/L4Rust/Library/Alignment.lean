import Mathlib.Algebra.Order.Group.Nat
import Mathlib.Data.Nat.Bitwise
import Mathlib.Tactic.Ring

/-- The least multiple of `a` that is not below `off`. -/
def roundUp (a off : Nat) : Nat := (off + a - 1) / a * a

namespace Alignment

variable {a b off : Nat}

theorem dvd_roundUp (a off : Nat) : a ∣ roundUp a off := Nat.dvd_mul_left _ _

theorem le_roundUp (ha : 0 < a) (off : Nat) : off ≤ roundUp a off := by
  have hdiv := Nat.div_add_mod (off + a - 1) a
  have hmod := Nat.mod_lt (off + a - 1) ha
  unfold roundUp
  rw [Nat.mul_comm]
  omega

theorem roundUp_lt (ha : 0 < a) (off : Nat) : roundUp a off < off + a := by
  have h := Nat.div_mul_le_self (off + a - 1) a
  unfold roundUp
  omega

/-- An aligned offset is its own rounding. -/
theorem roundUp_of_dvd (ha : 0 < a) (h : a ∣ off) : roundUp a off = off := by
  obtain ⟨q, rfl⟩ := h
  have hlo := le_roundUp ha (a * q)
  have hhi := roundUp_lt ha (a * q)
  obtain ⟨r, hr⟩ := dvd_roundUp a (a * q)
  rw [hr] at hlo hhi ⊢
  have h1 : q ≤ r := Nat.le_of_mul_le_mul_left hlo ha
  have h2 : r < q + 1 := by
    have hexpand : a * r < a * (q + 1) := by
      calc a * r < a * q + a := hhi
        _ = a * (q + 1) := by ring
    exact Nat.lt_of_mul_lt_mul_left hexpand
  have : r = q := by omega
  rw [this]

/-- A positive offset within the first unit rounds up to its end. -/
theorem roundUp_of_le (hpos : 0 < off) (h : off ≤ a) : roundUp a off = a := by
  have hquot : (off + a - 1) / a = 1 := by
    rw [Nat.div_eq_iff (by omega)]
    omega
  rw [roundUp, hquot, Nat.one_mul]

/-- Clearing the low `k` bits of a word rounds it down to a multiple of `2 ^ k`. -/
theorem and_mask_eq_div_mul {w k x : Nat} (hk : k ≤ w) (hx : x < 2 ^ w) :
    x &&& (2 ^ w - 1 - (2 ^ k - 1)) = x / 2 ^ k * 2 ^ k := by
  have hpow : 2 ^ k ≤ 2 ^ w := Nat.pow_le_pow_right (by decide) hk
  have hpos : 0 < 2 ^ k := Nat.two_pow_pos k
  have hmask : 2 ^ w - 1 - (2 ^ k - 1) = 2 ^ w - ((2 ^ k - 1) + 1) := by omega
  rw [hmask]
  apply Nat.eq_of_testBit_eq
  intro i
  have hone : 2 ^ k - 1 < 2 ^ w := by omega
  rw [← Nat.shiftRight_eq_div_pow, ← Nat.shiftLeft_eq, Nat.testBit_and,
    Nat.testBit_two_pow_sub_succ hone, Nat.testBit_two_pow_sub_one, Nat.testBit_shiftLeft,
    Nat.testBit_shiftRight]
  by_cases hki : k ≤ i
  · have hnot : ¬ i < k := by omega
    simp only [hnot, hki, decide_false, decide_true, Bool.not_false, Bool.and_true, Bool.true_and,
      Nat.add_sub_cancel' hki]
    by_cases hiw : i < w
    · simp [hiw]
    · have hbit : x.testBit i = false :=
        Nat.testBit_lt_two_pow (hx.trans_le (Nat.pow_le_pow_right (by decide) (by omega)))
      simp [hbit]
  · have hlt : i < k := by omega
    simp [hlt, hki]

end Alignment
