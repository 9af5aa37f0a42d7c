import L4Rust.L4.Error
import L4Rust.L4Sys.IpcBasic

open l4.error l4_sys

namespace l4.ipc

/-- A message tag, as the machine word the kernel sees. -/
structure MsgTag where
  raw : BitVec 64
  deriving DecidableEq, Repr

def MsgTag.new (label : BitVec 64) (words items flags : BitVec 32) : MsgTag :=
  ⟨l4_msgtag label words items flags⟩

def MsgTag.label (self : MsgTag) : BitVec 64 := self.raw.sshiftRight 16

def MsgTag.words (self : MsgTag) : Nat := (self.raw &&& 0x3f#64).toNat

def MsgTag.items (self : MsgTag) : Nat := ((self.raw >>> 6) &&& 0x3f#64).toNat

def MsgTag.flags (self : MsgTag) : BitVec 32 := self.raw.setWidth 32 &&& 0xf000#32

def MsgTag.set_label (self : MsgTag) (l : BitVec 64) : MsgTag :=
  ⟨(self.raw &&& 0xffff#64) ||| (l <<< 16)⟩

def MsgTag.has_error (self : MsgTag) : Bool := self.raw &&& MSGTAG_ERROR != 0

/-- The error of a failed IPC, from the thread control register value
`l4_ipc_error` returns. -/
def from_tag_raw (codes : Codes) (l4_ipc_error : MsgTag → BitVec 64) (tag : MsgTag) : Error :=
  match TcrErr.from_u64 codes (l4_ipc_error tag) with
  | some tc => .Tcr tc
  | none => .Unknown (l4_ipc_error tag)

/-- What a caller makes of the tag an IPC returned. -/
def MsgTag.result (codes : Codes) (l4_ipc_error : MsgTag → BitVec 64) (self : MsgTag) :
    Except Error MsgTag :=
  if self.has_error then .error (from_tag_raw codes l4_ipc_error self)
  else if self.label.toInt < 0 then .error (Error.from_ipc codes self.label)
  else .ok self

/-- Labels come back as the sign extension of their low 48 bits. -/
theorem MsgTag.label_new (label : BitVec 64) (words items flags : BitVec 32) :
    (MsgTag.new label words items flags).label = (label.setWidth 48).signExtend 64 := by
  apply BitVec.eq_of_getLsbD_eq
  intro i hi
  simp only [MsgTag.label, MsgTag.new, BitVec.getLsbD_sshiftRight, BitVec.getLsbD_signExtend,
    BitVec.getLsbD_setWidth, BitVec.msb_eq_getLsbD_last, getLsbD_l4_msgtag]
  by_cases h48 : i < 48
  · simp [h48, show ¬ 64 ≤ i by omega, show 16 + i < 64 by omega, show ¬ 16 + i < 6 by omega,
      show ¬ 16 + i < 12 by omega, show ¬ 16 + i < 16 by omega, hi]
  · simp [h48, show ¬ 64 ≤ i by omega, show ¬ 16 + i < 64 by omega, hi]

theorem MsgTag.label_new_toInt (label : BitVec 64) (words items flags : BitVec 32) :
    (MsgTag.new label words items flags).label.toInt = label.toInt.bmod (2 ^ 48) := by
  rw [label_new, BitVec.toInt_signExtend_of_le (by decide), BitVec.toInt_setWidth,
    BitVec.toInt_eq_toNat_bmod, Int.bmod_bmod_of_dvd (by decide)]

/-- The label fits the 48-bit label field of a message tag. -/
def LabelFits (label : BitVec 64) : Prop := -2 ^ 47 ≤ label.toInt ∧ label.toInt < 2 ^ 47

/-- Exactly the labels that fit their field come back unchanged. -/
theorem MsgTag.label_new_eq_iff (label : BitVec 64) (words items flags : BitVec 32) :
    (MsgTag.new label words items flags).label = label ↔ LabelFits label := by
  rw [← BitVec.toInt_inj, MsgTag.label_new_toInt]
  unfold LabelFits
  have hlo := BitVec.le_toInt label
  have hhi : label.toInt < 2 ^ 63 := BitVec.toInt_lt
  rw [Int.bmod_def]
  constructor
  · intro h
    omega
  · intro h
    omega

/-- A word count below 64 is read back from a tag. -/
theorem MsgTag.words_new (label : BitVec 64) {words : Nat} (items flags : BitVec 32)
    (h : words < 64) : (MsgTag.new label (BitVec.ofNat 32 words) items flags).words = words := by
  rw [MsgTag.words, and_six_ones h, BitVec.toNat_ofNat]
  · omega
  · intro i hi
    rw [MsgTag.new, getLsbD_l4_msgtag, if_pos hi, BitVec.getLsbD_ofNat]
    simp [show i < 32 by omega]

/-- An item count below 64 is read back from a tag. -/
theorem MsgTag.items_new (label : BitVec 64) (words : BitVec 32) {items : Nat} (flags : BitVec 32)
    (h : items < 64) : (MsgTag.new label words (BitVec.ofNat 32 items) flags).items = items := by
  rw [MsgTag.items, and_six_ones h, BitVec.toNat_ofNat]
  · omega
  · intro i hi
    rw [BitVec.getLsbD_ushiftRight, MsgTag.new, getLsbD_l4_msgtag, if_neg (by omega), if_pos (by omega),
      Nat.add_sub_cancel_left, BitVec.getLsbD_ofNat]
    simp [show i < 32 by omega]

/-- A tag built without flags never has its error flag set. -/
theorem MsgTag.has_error_new (label : BitVec 64) (words items : BitVec 32) :
    (MsgTag.new label words items 0#32).has_error = false := by
  have hzero : (MsgTag.new label words items 0#32).raw &&& MSGTAG_ERROR = 0#64 := by
    apply BitVec.eq_of_getLsbD_eq
    intro i hi
    have hbit : MSGTAG_ERROR.getLsbD i = decide (i = 15) := by
      have hflag : MSGTAG_ERROR = BitVec.twoPow 64 15 := by decide
      rw [hflag, BitVec.getLsbD_twoPow]
      simp [eq_comm]
    simp only [MsgTag.new, BitVec.getLsbD_and, getLsbD_l4_msgtag, hbit, BitVec.getLsbD_zero]
    by_cases h15 : i = 15
    · subst h15
      simp
    · simp [h15]
  simp [MsgTag.has_error, hzero]

theorem MsgTag.words_lt (t : MsgTag) : t.words < 64 := by
  have hand : t.words = t.raw.toNat &&& 0x3f := BitVec.toNat_and ..
  exact hand ▸ Nat.and_lt_two_pow (n := 6) _ (by decide)

theorem MsgTag.items_lt (t : MsgTag) : t.items < 64 := by
  have hand : t.items = (t.raw >>> 6).toNat &&& 0x3f := BitVec.toNat_and ..
  exact hand ▸ Nat.and_lt_two_pow (n := 6) _ (by decide)

/-- Bit by bit: a tag put together from the fields of another one, with a label of
its own. -/
theorem MsgTag.getLsbD_relabelled (t : MsgTag) (label : BitVec 64) {i : Nat} (hi : i < 64) :
    (l4_msgtag label (.ofNat 32 t.words) (.ofNat 32 t.items) t.flags).getLsbD i =
      if i < 16 then t.raw.getLsbD i else label.getLsbD (i - 16) := by
  simp only [MsgTag.words, MsgTag.items, MsgTag.flags, getLsbD_l4_msgtag, BitVec.ofNat_toNat,
    BitVec.getLsbD_setWidth, BitVec.getLsbD_and, BitVec.getLsbD_ushiftRight, getLsbD_six_ones,
    getLsbD_flags_mask]
  by_cases h6 : i < 6
  · simp [h6, show i < 32 by omega, show i < 16 by omega]
  by_cases h12 : i < 12
  · simp [h6, h12, show i - 6 < 32 by omega, show i < 16 by omega, show i - 6 < 6 by omega,
      show 6 + (i - 6) = i by omega]
  by_cases h16 : i < 16
  · simp [h6, h12, h16, show i < 32 by omega, show 12 ≤ i by omega]
  · simp [h6, h12, h16, hi]

/-- The fields of a tag are all there is to it. -/
theorem MsgTag.new_fields (t : MsgTag) :
    MsgTag.new t.label (.ofNat 32 t.words) (.ofNat 32 t.items) t.flags = t := by
  apply congrArg MsgTag.mk
  apply BitVec.eq_of_getLsbD_eq
  intro i hi
  rw [MsgTag.getLsbD_relabelled t t.label hi]
  by_cases h16 : i < 16
  · rw [if_pos h16]
  · simp [h16, MsgTag.label, BitVec.getLsbD_sshiftRight, hi, show ¬ 64 ≤ i - 16 by omega,
      show 16 + (i - 16) = i by omega]

theorem MsgTag.set_label_eq_new (t : MsgTag) (label : BitVec 64) :
    t.set_label label = MsgTag.new label (.ofNat 32 t.words) (.ofNat 32 t.items) t.flags := by
  apply congrArg MsgTag.mk
  apply BitVec.eq_of_getLsbD_eq
  intro i hi
  have hmask : (0xffff#64).getLsbD i = decide (i < 16) :=
    getLsbD_low_ones (w := 64) (n := 16) (by decide) i
  rw [MsgTag.getLsbD_relabelled t label hi]
  simp only [BitVec.getLsbD_or, BitVec.getLsbD_and, BitVec.getLsbD_shiftLeft, hmask]
  by_cases h16 : i < 16
  · simp [h16]
  · simp [h16, hi]

theorem MsgTag.flags_new (label : BitVec 64) (words items flags : BitVec 32) :
    (MsgTag.new label words items flags).flags = flags &&& 0xf000#32 := by
  apply BitVec.eq_of_getLsbD_eq
  intro i hi
  simp only [MsgTag.flags, MsgTag.new, BitVec.getLsbD_and, BitVec.getLsbD_setWidth, getLsbD_l4_msgtag,
    getLsbD_flags_mask]
  by_cases hflag : 12 ≤ i ∧ i < 16
  · simp [hflag, hi, show ¬ i < 6 by omega, show ¬ i < 12 by omega]
  · simp [hflag]

/-- The flags are in the four bits that a message tag has for them. -/
def FlagsFit (flags : BitVec 32) : Prop := 0x1000 ∣ flags.toNat ∧ flags.toNat < 0x10000

theorem FlagsFit.and_mask {flags : BitVec 32} (h : FlagsFit flags) : flags &&& 0xf000#32 = flags := by
  obtain ⟨⟨k, hk⟩, hlt⟩ := h
  apply BitVec.eq_of_getLsbD_eq
  intro i _
  rw [BitVec.getLsbD_and, getLsbD_flags_mask, BitVec.getLsbD, hk, show 0x1000 = 2 ^ 12 from rfl,
    Nat.testBit_two_pow_mul]
  by_cases hlow : 12 ≤ i
  · by_cases hhigh : i < 16
    · simp [hlow, hhigh]
    · have hpow : 2 ^ 4 ≤ 2 ^ (i - 12) := Nat.pow_le_pow_right (by decide) (by omega)
      have hbit : k.testBit (i - 12) = false := Nat.testBit_lt_two_pow (by omega)
      simp [hbit]
  · simp [hlow]

/-- A tag is what its fields say, the fields are what the tag was made of, and a new
label is all that setting it changes. -/
theorem MsgTag.lossless (t : MsgTag) (label : BitVec 64) (words items flags : BitVec 32) :
    (MsgTag.new t.label (.ofNat 32 t.words) (.ofNat 32 t.items) t.flags).raw = t.raw ∧
      (LabelFits label → words.toNat < 64 → items.toNat < 64 → FlagsFit flags →
        (MsgTag.new label words items flags).label = label ∧
          (MsgTag.new label words items flags).words = words.toNat ∧
          (MsgTag.new label words items flags).items = items.toNat ∧
          (MsgTag.new label words items flags).flags = flags) ∧
      (LabelFits label →
        (t.set_label label).label = label ∧ (t.set_label label).words = t.words ∧
          (t.set_label label).items = t.items ∧ (t.set_label label).flags = t.flags) := by
  refine ⟨by rw [MsgTag.new_fields], ?_, ?_⟩
  · intro hlabel hwords hitems hflags
    have hwords' := MsgTag.words_new label items flags hwords
    have hitems' := MsgTag.items_new label words flags hitems
    rw [BitVec.ofNat_toNat, BitVec.setWidth_eq] at hwords' hitems'
    exact ⟨(MsgTag.label_new_eq_iff ..).mpr hlabel, hwords', hitems',
      (MsgTag.flags_new ..).trans hflags.and_mask⟩
  · intro hlabel
    rw [MsgTag.set_label_eq_new]
    refine ⟨(MsgTag.label_new_eq_iff ..).mpr hlabel, MsgTag.words_new _ _ _ t.words_lt,
      MsgTag.items_new _ _ _ t.items_lt, ?_⟩
    rw [MsgTag.flags_new, MsgTag.flags, BitVec.and_assoc, BitVec.and_self]

/-- A reply with a negative label, seven words, one item and the error flag. -/
theorem MsgTag.lossless_error_reply :
    (MsgTag.new (-12) 7 1 0x8000).label = -12 ∧ (MsgTag.new (-12) 7 1 0x8000).words = 7 ∧
      (MsgTag.new (-12) 7 1 0x8000).items = 1 ∧ (MsgTag.new (-12) 7 1 0x8000).flags = 0x8000 := by
  have hlabel : LabelFits (-12) := ⟨by decide, by decide⟩
  have hflags : FlagsFit 0x8000 := ⟨by decide, by decide⟩
  exact (MsgTag.lossless ⟨0⟩ (-12) 7 1 0x8000).2.1 hlabel (by decide) (by decide) hflags

end l4.ipc
