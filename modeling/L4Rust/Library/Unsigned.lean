import Mathlib

namespace Unsigned

variable {bits a b c : Nat}

/-- Addition of unsigned words of a fixed width. As with the operations below, what
is not a word is no result. -/
def add (bits a b : Nat) : Option Nat := if a + b < 2 ^ bits then some (a + b) else none

def mul (bits a b : Nat) : Option Nat := if a * b < 2 ^ bits then some (a * b) else none

def sub (a b : Nat) : Option Nat := if b ≤ a then some (a - b) else none

def div (a b : Nat) : Option Nat := if b = 0 then none else some (a / b)

@[simp] theorem add_eq_some : add bits a b = some c ↔ a + b < 2 ^ bits ∧ a + b = c := by
  simp [add, Option.ite_none_right_eq_some]

@[simp] theorem mul_eq_some : mul bits a b = some c ↔ a * b < 2 ^ bits ∧ a * b = c := by
  simp [mul, Option.ite_none_right_eq_some]

@[simp] theorem sub_eq_some : sub a b = some c ↔ b ≤ a ∧ a - b = c := by
  simp [sub, Option.ite_none_right_eq_some]

@[simp] theorem div_eq_some : div a b = some c ↔ b ≠ 0 ∧ a / b = c := by
  simp [div, Option.ite_none_left_eq_some]

/-! Words that are read as signed numbers. -/

theorem toInt64_ofInt (n : Int) : (UInt64.ofInt n).toInt64 = Int64.ofInt n := by
  have hlt : (n % 2 ^ 64).toNat < 2 ^ 64 := by omega
  apply Int64.toBitVec_inj.mp
  apply BitVec.eq_of_toNat_eq
  rw [UInt64.toBitVec_toInt64, UInt64.toNat_toBitVec, UInt64.ofInt, UInt64.toNat_ofNat_of_lt' hlt,
    Int64.toBitVec_ofInt, BitVec.toNat_ofInt]
  rfl

theorem toInt_ofInt {n : Int} (hle : -2 ^ 63 ≤ n) (hlt : n < 2 ^ 63) :
    (UInt64.ofInt n).toInt64.toInt = n := by
  rw [toInt64_ofInt, Int64.toInt_ofInt_of_le hle hlt]

end Unsigned
