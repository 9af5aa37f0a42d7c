import Mathlib.Data.BitVec
import Mathlib.Tactic.Common

namespace l4_sys

/-- Message registers of a UTCB, in words (the generated arm64 constant
`L4_UTCB_GENERIC_DATA_SIZE`). -/
def UTCB_GENERIC_DATA_SIZE : Nat := 63

/-- Buffer registers of a UTCB, in words (the generated constant
`L4_UTCB_GENERIC_BUFFERS_SIZE`). -/
def UTCB_GENERIC_BUFFERS_SIZE : Nat := 58

/-- The error flag of a message tag (the generated constant `L4_MSGTAG_ERROR`). -/
def MSGTAG_ERROR : BitVec 64 := 0x8000#64

/-- The raw message tag: the label above bit 16, the flags in bits 12 to 15, and
two six-bit counters. Labels wider than 48 bits lose their upper bits. -/
def l4_msgtag (label : BitVec 64) (words items flags : BitVec 32) : BitVec 64 :=
  (label <<< 16) ||| (words &&& 0x3f#32).setWidth 64 |||
    ((items &&& 0x3f#32) <<< 6).setWidth 64 ||| (flags &&& 0xf000#32).setWidth 64

/-- The masks of the code cover the low bits of a word, or the bits between two such
masks. -/
theorem getLsbD_low_ones {w n : Nat} (h : n ≤ w) (i : Nat) :
    (BitVec.ofNat w (2 ^ n - 1)).getLsbD i = decide (i < n) := by
  rw [BitVec.getLsbD_ofNat, Nat.testBit_two_pow_sub_one]
  simp only [← Bool.decide_and, decide_eq_decide]
  omega

theorem getLsbD_flags_mask (i : Nat) :
    (0xf000#32).getLsbD i = decide (12 ≤ i ∧ i < 16) := by
  have hmask : 0xf000#32 = BitVec.ofNat 32 (2 ^ 16 - 1) ^^^ BitVec.ofNat 32 (2 ^ 12 - 1) := rfl
  rw [hmask, BitVec.getLsbD_xor, getLsbD_low_ones (by decide), getLsbD_low_ones (by decide)]
  by_cases hlow : i < 12
  · simp [hlow, show i < 16 by omega]
  · simp [hlow, Nat.le_of_not_lt hlow]

/-- Bit by bit: which argument each bit of a tag comes from. -/
theorem getLsbD_l4_msgtag (label : BitVec 64) (words items flags : BitVec 32) (i : Nat) :
    (l4_msgtag label words items flags).getLsbD i =
      if i < 6 then words.getLsbD i
      else if i < 12 then items.getLsbD (i - 6)
      else if i < 16 then flags.getLsbD i
      else decide (i < 64) && label.getLsbD (i - 16) := by
  have hcounter (j : Nat) : (0x3f#32).getLsbD j = decide (j < 6) :=
    getLsbD_low_ones (w := 32) (n := 6) (by decide) j
  unfold l4_msgtag
  simp only [BitVec.getLsbD_or, BitVec.getLsbD_shiftLeft, BitVec.getLsbD_setWidth,
    BitVec.getLsbD_and, hcounter, getLsbD_flags_mask]
  by_cases h64 : i < 64
  · by_cases h6 : i < 6
    · simp [h6, h64, show i < 16 by omega, show ¬ 12 ≤ i by omega]
    · by_cases h12 : i < 12
      · simp [h6, h12, h64, show i < 16 by omega, show i < 32 by omega, show i - 6 < 6 by omega,
          show ¬ 12 ≤ i by omega]
      · by_cases h16 : i < 16
        · simp [h6, h12, h16, h64, show ¬ i - 6 < 6 by omega, show 12 ≤ i by omega]
        · simp [h6, h12, h16, h64, show ¬ i - 6 < 6 by omega]
  · simp [h64, show ¬ i < 6 by omega, show ¬ i < 12 by omega, show ¬ i < 16 by omega]

def l4_msgtag_flags (t : BitVec 64) : BitVec 64 := t &&& 0xf000#64

def l4_msgtag_items (t : BitVec 64) : Nat := (t.sshiftRight 6 &&& 0x3f#64).toNat

def l4_msgtag_label (t : BitVec 64) : BitVec 64 := t.sshiftRight 16

def l4_msgtag_words (t : BitVec 64) : BitVec 32 := (t &&& 0x3f#64).setWidth 32

theorem getLsbD_six_ones (i : Nat) : (0x3f#64).getLsbD i = decide (i < 6) :=
  getLsbD_low_ones (w := 64) (n := 6) (by decide) i

theorem getLsbD_l4_msgtag_flags (t : BitVec 64) {i : Nat} (hi : i < 32) :
    ((l4_msgtag_flags t).setWidth 32).getLsbD i = (t.getLsbD i && decide (12 ≤ i ∧ i < 16)) := by
  have hmask : (0xf000#64) = (0xf000#32).setWidth 64 := rfl
  simp only [l4_msgtag_flags, hmask, BitVec.getLsbD_setWidth, BitVec.getLsbD_and, getLsbD_flags_mask, hi,
    show i < 64 by omega, decide_true, Bool.true_and]

/-- A tag that is taken apart and put together again with another item count
changes in the six bits of that count only. -/
theorem getLsbD_retag (t : BitVec 64) (items : BitVec 32) {i : Nat} (hi : i < 64) :
    (l4_msgtag (l4_msgtag_label t) (l4_msgtag_words t) items ((l4_msgtag_flags t).setWidth 32)).getLsbD i =
      if 6 ≤ i ∧ i < 12 then items.getLsbD (i - 6) else t.getLsbD i := by
  rw [getLsbD_l4_msgtag]
  by_cases h6 : i < 6
  · simp only [l4_msgtag_words, BitVec.getLsbD_setWidth, BitVec.getLsbD_and, getLsbD_six_ones, h6,
      show i < 32 by omega, show ¬ 6 ≤ i by omega, if_true, false_and, if_false, decide_true,
      Bool.true_and, Bool.and_true]
  by_cases h12 : i < 12
  · simp [h6, h12, show 6 ≤ i by omega]
  by_cases h16 : i < 16
  · rw [getLsbD_l4_msgtag_flags t (by omega)]
    simp [h6, h12, h16, show 12 ≤ i by omega]
  · simp [h6, h12, h16, hi, l4_msgtag_label, BitVec.getLsbD_sshiftRight, show ¬ 64 ≤ i - 16 by omega,
      show 16 + (i - 16) = i by omega]

/-! Each field of a tag is in bits of its own. -/

section fields

variable {t u : BitVec 64} {count : Nat}

theorem l4_msgtag_label_congr (h : ∀ i, 16 ≤ i → i < 64 → t.getLsbD i = u.getLsbD i) :
    l4_msgtag_label t = l4_msgtag_label u := by
  apply BitVec.eq_of_getLsbD_eq
  intro i _
  rw [l4_msgtag_label, l4_msgtag_label, BitVec.getLsbD_sshiftRight, BitVec.getLsbD_sshiftRight,
    BitVec.msb_eq_getLsbD_last, BitVec.msb_eq_getLsbD_last, h (64 - 1) (by decide) (by decide)]
  by_cases hi : 16 + i < 64
  · rw [h (16 + i) (by omega) hi]
  · rw [if_neg hi, if_neg hi]

theorem l4_msgtag_flags_congr (h : ∀ i, 12 ≤ i → i < 16 → t.getLsbD i = u.getLsbD i) :
    l4_msgtag_flags t = l4_msgtag_flags u := by
  have hmask : (0xf000#64) = (0xf000#32).setWidth 64 := rfl
  apply BitVec.eq_of_getLsbD_eq
  intro i _
  simp only [l4_msgtag_flags, hmask, BitVec.getLsbD_setWidth, BitVec.getLsbD_and, getLsbD_flags_mask]
  by_cases hi : 12 ≤ i ∧ i < 16
  · rw [h i hi.1 hi.2]
  · simp [hi]

/-- A word whose low six bits are those of a number below 64. -/
theorem and_six_ones {word : BitVec 64} (hcount : count < 64)
    (h : ∀ i, i < 6 → word.getLsbD i = count.testBit i) : word &&& 0x3f#64 = BitVec.ofNat 64 count := by
  apply BitVec.eq_of_getLsbD_eq
  intro i hi
  rw [BitVec.getLsbD_and, getLsbD_six_ones, BitVec.getLsbD_ofNat]
  by_cases h6 : i < 6
  · rw [h i h6]
    simp [h6, hi]
  · have hpow : 2 ^ 6 ≤ 2 ^ i := Nat.pow_le_pow_right (by decide) (by omega)
    have hbit : count.testBit i = false := Nat.testBit_lt_two_pow (by omega)
    simp [h6, hbit]

theorem l4_msgtag_words_eq (hcount : count < 64) (h : ∀ i, i < 6 → t.getLsbD i = count.testBit i) :
    (l4_msgtag_words t).toNat = count := by
  rw [l4_msgtag_words, and_six_ones hcount h, BitVec.toNat_setWidth, BitVec.toNat_ofNat]
  omega

theorem l4_msgtag_items_eq (hcount : count < 64)
    (h : ∀ i, 6 ≤ i → i < 12 → t.getLsbD i = count.testBit (i - 6)) : l4_msgtag_items t = count := by
  rw [l4_msgtag_items, and_six_ones hcount, BitVec.toNat_ofNat]
  · omega
  · intro i hi
    rw [BitVec.getLsbD_sshiftRight, if_pos (by omega), h (6 + i) (by omega) (by omega),
      Nat.add_sub_cancel_left]
    simp [show i < 64 by omega]

theorem l4_msgtag_words_congr (h : ∀ i, i < 6 → t.getLsbD i = u.getLsbD i) :
    l4_msgtag_words t = l4_msgtag_words u := by
  apply BitVec.eq_of_getLsbD_eq
  intro i _
  simp only [l4_msgtag_words, BitVec.getLsbD_setWidth, BitVec.getLsbD_and, getLsbD_six_ones]
  by_cases hi : i < 6
  · rw [h i hi]
  · simp [hi]

theorem l4_msgtag_items_congr (h : ∀ i, 6 ≤ i → i < 12 → t.getLsbD i = u.getLsbD i) :
    l4_msgtag_items t = l4_msgtag_items u := by
  rw [l4_msgtag_items, l4_msgtag_items]
  congr 1
  apply BitVec.eq_of_getLsbD_eq
  intro i _
  rw [BitVec.getLsbD_and, BitVec.getLsbD_and, getLsbD_six_ones, BitVec.getLsbD_sshiftRight,
    BitVec.getLsbD_sshiftRight]
  by_cases hi : i < 6
  · rw [if_pos (by omega), if_pos (by omega), h (6 + i) (by omega) (by omega)]
  · simp [hi]

end fields

end l4_sys
