import L4Rust.Library.LittleEndian
import L4Rust.Library.Memory

/-- A record of a message: its kind and its bytes. -/
structure Record where
  kind : Nat
  bytes : List UInt8
  deriving DecidableEq

namespace Records

/-- How many words of eight bytes a byte string takes. -/
def wordsFor (len : Nat) : Nat := (len + 7) / 8

/-- The word at an index. -/
def wordAt (m : Memory) (w : Nat) : Nat := LittleEndian.decode (m.load (8 * w) 8)

/-- Read records from one word on up to another. A header has the kind in its low 16
bits and the number of bytes above, and is followed by the words with the bytes. -/
def walk (m : Memory) (w stop : Nat) : List Record :=
  if w < stop then
    let len := wordAt m w / 2 ^ 16
    ⟨wordAt m w % 2 ^ 16, m.load (8 * (w + 1)) len⟩ :: walk m (w + 1 + wordsFor len) stop
  else []
termination_by stop - w

/-- The records stand one behind the other from one word on, and end at another. -/
def Laid (m : Memory) : Nat → List Record → Nat → Prop
  | w, [], stop => w = stop
  | w, r :: rs, stop =>
    r.kind < 2 ^ 16 ∧ wordAt m w = r.kind + 2 ^ 16 * r.bytes.length ∧
      m.load (8 * (w + 1)) r.bytes.length = r.bytes ∧ Laid m (w + 1 + wordsFor r.bytes.length) rs stop

variable {m n : Memory} {w mid stop : Nat} {rs rs' : List Record}

theorem le_wordsFor (len : Nat) : len ≤ 8 * wordsFor len := by
  unfold wordsFor
  omega

theorem Laid.le (h : Laid m w rs stop) : w ≤ stop := by
  induction rs generalizing w with
  | nil => exact Nat.le_of_eq h
  | cons r rs ih =>
    obtain ⟨_, _, _, hrest⟩ := h
    have hle := ih hrest
    omega

theorem Laid.append (h : Laid m w rs mid) (h' : Laid m mid rs' stop) : Laid m w (rs ++ rs') stop := by
  induction rs generalizing w with
  | nil =>
    cases h
    exact h'
  | cons r rs ih =>
    obtain ⟨hkind, hheader, hbytes, hrest⟩ := h
    exact ⟨hkind, hheader, hbytes, ih hrest⟩

/-- Records depend on nothing but the words they take. -/
theorem Laid.congr (h : Laid m w rs stop) (hsame : Memory.AgreeOn (8 * w) (8 * stop) n m) :
    Laid n w rs stop := by
  induction rs generalizing w with
  | nil => exact h
  | cons r rs ih =>
    obtain ⟨hkind, hheader, hbytes, hrest⟩ := h
    have hle := hrest.le
    have hlen := le_wordsFor r.bytes.length
    have hword : n.load (8 * w) 8 = m.load (8 * w) 8 :=
      Memory.load_congr hsame (Nat.le_refl _) (by omega)
    have hdata : n.load (8 * (w + 1)) r.bytes.length = m.load (8 * (w + 1)) r.bytes.length :=
      Memory.load_congr hsame (by omega) (by omega)
    refine ⟨hkind, ?_, hdata.trans hbytes, ih hrest (hsame.mono (by omega) (Nat.le_refl _))⟩
    rw [wordAt, hword]
    exact hheader

/-- Walking over records finds them. -/
theorem Laid.walk (h : Laid m w rs stop) : walk m w stop = rs := by
  induction rs generalizing w with
  | nil =>
    cases h
    rw [Records.walk, if_neg (Nat.lt_irrefl _)]
  | cons r rs ih =>
    obtain ⟨hkind, hheader, hbytes, hrest⟩ := h
    have hle := hrest.le
    have hlen : wordAt m w / 2 ^ 16 = r.bytes.length := by
      rw [hheader]
      omega
    have hmod : wordAt m w % 2 ^ 16 = r.kind := by
      rw [hheader]
      omega
    rw [Records.walk, if_pos (by omega)]
    simp only [hlen, hmod, hbytes, ih hrest]

/-- A record is laid by writing its header and then its bytes, with whatever else
comes behind these. -/
theorem laid_store {r : Record} (m : Memory) (w : Nat) (behind : List UInt8)
    (hkind : r.kind < 2 ^ 16) (hlen : r.bytes.length < 2 ^ 48) :
    Laid ((m.store (8 * w) (LittleEndian.encode 8 (r.kind + 2 ^ 16 * r.bytes.length))).store
      (8 * (w + 1)) (r.bytes ++ behind)) w [r] (w + 1 + wordsFor r.bytes.length) := by
  refine ⟨hkind, ?_, ?_, rfl⟩
  · have hkeep : Memory.AgreeOn 0 (8 * (w + 1)) _ _ := Memory.agreeOn_store_below
      (m.store (8 * w) (LittleEndian.encode 8 (r.kind + 2 ^ 16 * r.bytes.length)))
      (8 * (w + 1)) (r.bytes ++ behind)
    have hheader := Memory.load_store m (8 * w)
      (LittleEndian.encode 8 (r.kind + 2 ^ 16 * r.bytes.length))
    rw [LittleEndian.length_encode] at hheader
    rw [wordAt, Memory.load_congr hkeep (Nat.zero_le _) (by omega), hheader,
      LittleEndian.decode_encode_of_lt (by omega)]
  · have hstored := Memory.load_store
      (m.store (8 * w) (LittleEndian.encode 8 (r.kind + 2 ^ 16 * r.bytes.length)))
      (8 * (w + 1)) (r.bytes ++ behind)
    rw [← Memory.load_take _ _ (List.length_append ▸ Nat.le_add_right ..), hstored, List.take_left]

end Records
