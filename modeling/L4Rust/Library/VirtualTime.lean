import Mathlib.Algebra.BigOperators.Group.List.Basic
import Mathlib.Algebra.Order.Ring.Abs
import Mathlib.Algebra.Order.Ring.Int
import Mathlib.Algebra.Order.Ring.Nat
import Mathlib.Logic.Function.Basic
import Mathlib.Tactic.Common
import Mathlib.Tactic.LinearCombination
import Mathlib.Tactic.Positivity
import Mathlib.Tactic.Ring

namespace VirtualTime

variable {ι : Type} {ids : List ι} {quantum v : ι → Nat} {c : ι} {d : Nat}

/-- Nobody is ahead of anybody else by more than its own quantum. -/
def Spread (ids : List ι) (quantum v : ι → Nat) : Prop := ∀ i ∈ ids, ∀ j ∈ ids, v i ≤ v j + quantum i

/-- One of them may go on as long as it stays within its quantum. -/
theorem Spread.charge [DecidableEq ι] (h : Spread ids quantum v)
    (hc : ∀ j ∈ ids, v c + d ≤ v j + quantum c) :
    Spread ids quantum (Function.update v c (v c + d)) := by
  have hgrows (j : ι) : v j ≤ Function.update v c (v c + d) j := by
    by_cases hj : j = c
    · subst hj
      rw [Function.update_self]
      exact Nat.le_add_right _ _
    · rw [Function.update_of_ne hj]
  intro i hi j hj
  by_cases hic : i = c
  · subst hic
    rw [Function.update_self]
    exact (hc j hj).trans (Nat.add_le_add_right (hgrows j) _)
  · rw [Function.update_of_ne hic]
    exact (h i hi j hj).trans (Nat.add_le_add_right (hgrows j) _)

/-- The sum over distinct elements grows with each of them. -/
theorem sum_map_update [DecidableEq ι] (hnodup : ids.Nodup) (hc : c ∈ ids) (f : ι → Nat) :
    (ids.map (Function.update f c (f c + d))).sum = (ids.map f).sum + d := by
  induction ids with
  | nil => cases hc
  | cons i ids ih =>
    obtain ⟨hi, hids⟩ := List.nodup_cons.mp hnodup
    rw [List.map_cons, List.map_cons, List.sum_cons, List.sum_cons]
    rcases List.mem_cons.mp hc with rfl | hc
    · have hrest : ids.map (Function.update f c (f c + d)) = ids.map f := by
        apply List.map_congr_left
        intro j hj
        apply Function.update_of_ne
        rintro rfl
        exact hi hj
      rw [hrest, Function.update_self]
      omega
    · have hne : i ≠ c := by
        rintro rfl
        exact hi hc
      rw [ih hids hc, Function.update_of_ne hne]
      omega

/-- However the time was spent, everybody's share of it grows. -/
theorem Spread.sum_le (h : Spread ids quantum v) {j : ι} (hj : j ∈ ids) :
    (ids.map v).sum ≤ ids.length * v j + (ids.map quantum).sum := by
  have hall : ∀ i ∈ ids, v i ≤ v j + quantum i := fun i hi => h i hi j hj
  clear h hj
  induction ids with
  | nil => simp
  | cons i ids ih =>
    obtain ⟨hi, hids⟩ := List.forall_mem_cons.mp hall
    have hrest := ih hids
    rw [List.map_cons, List.map_cons, List.sum_cons, List.sum_cons, List.length_cons, Nat.succ_mul]
    omega

section Shares

/-! Two clocks of `i₁` and `i₂` units a step that have made `r₁` and `r₂` steps and
show times that differ by at most `d`, compared with the weights `w₁` and `w₂`. -/

variable {r₁ r₂ i₁ i₂ w₁ w₂ d : Nat}

theorem abs_scaled (a b : Nat) (x : ℤ) : |(a * b : ℤ) * x| = a * b * |x| := by
  rw [abs_mul, abs_of_nonneg (by positivity : (0 : ℤ) ≤ a * b)]

theorem abs_sub_le (h₁ : r₁ * i₁ ≤ r₂ * i₂ + d) (h₂ : r₂ * i₂ ≤ r₁ * i₁ + d) :
    |(r₁ * i₁ : ℤ) - r₂ * i₂| ≤ d := by
  rw [abs_le]
  constructor <;> omega

/-- Where a step is worth the same on both clocks, the numbers of steps are in
proportion to the weights. -/
theorem proportion_le (hi₁ : 1 ≤ i₁) (hi₂ : 1 ≤ i₂) (h₁ : r₁ * i₁ ≤ r₂ * i₂ + d)
    (h₂ : r₂ * i₂ ≤ r₁ * i₁ + d) (hworth : w₁ * i₁ = w₂ * i₂) :
    |(r₁ * w₂ : ℤ) - r₂ * w₁| ≤ w₁ * i₁ * d := by
  have hworth' : (w₁ * i₁ : ℤ) = w₂ * i₂ := by exact_mod_cast hworth
  have hscale : (1 : ℤ) ≤ i₁ * i₂ := by exact_mod_cast Nat.mul_pos hi₁ hi₂
  calc |(r₁ * w₂ : ℤ) - r₂ * w₁|
      ≤ (i₁ * i₂ : ℤ) * |(r₁ * w₂ : ℤ) - r₂ * w₁| := le_mul_of_one_le_left (abs_nonneg _) hscale
    _ = |(i₁ * i₂ : ℤ) * (r₁ * w₂ - r₂ * w₁)| := (abs_scaled _ _ _).symm
    _ = |(w₁ * i₁ : ℤ) * (r₁ * i₁ - r₂ * i₂)| := by
        congr 1
        linear_combination (r₁ * i₁ : ℤ) * hworth'.symm
    _ = (w₁ * i₁ : ℤ) * |(r₁ * i₁ : ℤ) - r₂ * i₂| := abs_scaled _ _ _
    _ ≤ (w₁ * i₁ : ℤ) * d := by
        gcongr
        exact abs_sub_le h₁ h₂

/-- Anywhere else the disproportion grows with the time. -/
theorem le_disproportion (h₁ : r₁ * i₁ ≤ r₂ * i₂ + d) (h₂ : r₂ * i₂ ≤ r₁ * i₁ + d)
    (hworth : w₁ * i₁ ≠ w₂ * i₂) :
    (r₁ * i₁ : ℤ) ≤ i₁ * i₂ * |(r₁ * w₂ : ℤ) - r₂ * w₁| + w₁ * i₁ * d := by
  have hgap : (1 : ℤ) ≤ |(w₂ * i₂ : ℤ) - w₁ * i₁| := by
    apply Int.one_le_abs
    rw [sub_ne_zero]
    exact_mod_cast hworth.symm
  calc (r₁ * i₁ : ℤ)
      ≤ (r₁ * i₁ : ℤ) * |(w₂ * i₂ : ℤ) - w₁ * i₁| := le_mul_of_one_le_right (by positivity) hgap
    _ = |(r₁ * i₁ : ℤ) * (w₂ * i₂ - w₁ * i₁)| := (abs_scaled _ _ _).symm
    _ = |(i₁ * i₂ : ℤ) * (r₁ * w₂ - r₂ * w₁) - (w₁ * i₁ : ℤ) * (r₁ * i₁ - r₂ * i₂)| := by
        congr 1
        ring
    _ ≤ |(i₁ * i₂ : ℤ) * (r₁ * w₂ - r₂ * w₁)| + |(w₁ * i₁ : ℤ) * (r₁ * i₁ - r₂ * i₂)| := abs_sub _ _
    _ = (i₁ * i₂ : ℤ) * |(r₁ * w₂ : ℤ) - r₂ * w₁| + (w₁ * i₁ : ℤ) * |(r₁ * i₁ : ℤ) - r₂ * i₂| := by
        rw [abs_scaled, abs_scaled]
    _ ≤ (i₁ * i₂ : ℤ) * |(r₁ * w₂ : ℤ) - r₂ * w₁| + (w₁ * i₁ : ℤ) * d := by
        gcongr
        exact abs_sub_le h₁ h₂

end Shares

end VirtualTime
