import Mathlib.Algebra.Order.Group.Nat
import Mathlib.Tactic.Ring

namespace LittleEndian

/-- The low `size` bytes of a number, least significant first. -/
def encode : Nat → Nat → List UInt8
  | 0, _ => []
  | size + 1, n => UInt8.ofNat n :: encode size (n / 256)

/-- The number a byte string stands for, least significant byte first. -/
def decode : List UInt8 → Nat
  | [] => 0
  | b :: bytes => b.toNat + 256 * decode bytes

@[simp] theorem length_encode (size n : Nat) : (encode size n).length = size := by
  induction size generalizing n with
  | zero => rfl
  | succ size ih => simp [encode, ih]

theorem decode_encode (size n : Nat) : decode (encode size n) = n % 256 ^ size := by
  induction size generalizing n with
  | zero => simp [encode, decode, Nat.mod_one]
  | succ size ih =>
    have hsplit : n % 256 ^ (size + 1) = n % 256 + 256 * (n / 256 % 256 ^ size) := by
      rw [pow_succ', Nat.mod_mul]
    simp only [encode, decode, ih, UInt8.toNat_ofNat', hsplit]

/-- Numbers that fit are decoded as they were encoded. -/
theorem decode_encode_of_lt {size n : Nat} (h : n < 256 ^ size) : decode (encode size n) = n := by
  rw [decode_encode, Nat.mod_eq_of_lt h]

theorem decode_lt (bytes : List UInt8) : decode bytes < 256 ^ bytes.length := by
  induction bytes with
  | nil => exact Nat.one_pos
  | cons b bytes ih =>
    have hbyte := b.toNat_lt
    rw [decode, List.length_cons, pow_succ']
    omega

/-- What is beyond the size of an encoding is not looked at. -/
theorem encode_mod (size n : Nat) : encode size (n % 256 ^ size) = encode size n := by
  induction size generalizing n with
  | zero => rfl
  | succ size ih =>
    have hlow : UInt8.ofNat (n % 256 ^ (size + 1)) = UInt8.ofNat n := by
      apply UInt8.toNat_inj.mp
      rw [UInt8.toNat_ofNat', UInt8.toNat_ofNat', pow_succ']
      exact Nat.mod_mul_right_mod ..
    have hhigh : n % 256 ^ (size + 1) / 256 = n / 256 % 256 ^ size := by
      rw [pow_succ']
      exact Nat.mod_mul_right_div_self ..
    rw [encode, encode, hlow, hhigh, ih]

theorem getElem_encode {size n i : Nat} (h : i < (encode size n).length) :
    (encode size n)[i] = UInt8.ofNat (n / 256 ^ i) := by
  induction size generalizing n i with
  | zero => simp [encode] at h
  | succ size ih =>
    cases i with
    | zero => simp [encode]
    | succ i =>
      simp only [encode, List.getElem_cons_succ]
      rw [ih, Nat.div_div_eq_div_mul, pow_succ']

/-- The low bytes of a longer encoding are the shorter encoding. -/
theorem take_encode {k size : Nat} (n : Nat) (h : k ≤ size) :
    (encode size n).take k = encode k n := by
  apply List.ext_getElem
  · rw [List.length_take, length_encode, length_encode, Nat.min_eq_left h]
  · intro i _ _
    rw [List.getElem_take, getElem_encode, getElem_encode]

end LittleEndian
