import Mathlib.Algebra.Order.Group.Nat
import Mathlib.Data.List.Basic
import Mathlib.Tactic.Common

/-- Byte-addressed memory, as seen from a base pointer. Nothing bounds it: an
access outside the object behind the pointer is representable, so staying
inside is something to prove. -/
abbrev Memory : Type := Nat → UInt8

namespace Memory

/-- The `len` bytes from `start` on. -/
def load (m : Memory) (start len : Nat) : List UInt8 :=
  (List.range len).map fun i => m (start + i)

/-- Overwrite the bytes from `start` on. -/
def store (m : Memory) (start : Nat) (bytes : List UInt8) : Memory := fun i =>
  if start ≤ i then bytes.getD (i - start) (m i) else m i

/-- Two memories hold the same bytes in `[lo, hi)`. -/
def AgreeOn (lo hi : Nat) (m n : Memory) : Prop := ∀ i, lo ≤ i → i < hi → m i = n i

variable {m n : Memory} {lo hi start len : Nat} {bytes : List UInt8}

theorem AgreeOn.refl (lo hi : Nat) (m : Memory) : AgreeOn lo hi m m := fun _ _ _ => rfl

theorem AgreeOn.symm (h : AgreeOn lo hi m n) : AgreeOn lo hi n m :=
  fun i hlo hhi => (h i hlo hhi).symm

theorem AgreeOn.trans {p : Memory} (h : AgreeOn lo hi m n) (h' : AgreeOn lo hi n p) :
    AgreeOn lo hi m p := fun i hlo hhi => (h i hlo hhi).trans (h' i hlo hhi)

theorem AgreeOn.mono {lo' hi' : Nat} (h : AgreeOn lo hi m n) (hlo : lo ≤ lo') (hhi : hi' ≤ hi) :
    AgreeOn lo' hi' m n := fun i h1 h2 => h i (by omega) (by omega)

@[simp] theorem length_load (m : Memory) (start len : Nat) : (m.load start len).length = len := by
  simp [load]

theorem load_add (m : Memory) (start first second : Nat) :
    m.load start (first + second) = m.load start first ++ m.load (start + first) second := by
  simp only [load, List.range_add, List.map_append, List.map_map]
  congr 1
  apply List.map_congr_left
  intro i _
  simp [Nat.add_assoc]

theorem load_take (m : Memory) (start : Nat) {k len : Nat} (h : k ≤ len) :
    (m.load start len).take k = m.load start k := by
  obtain ⟨rest, rfl⟩ := Nat.exists_eq_add_of_le h
  rw [load_add]
  apply List.take_left'
  exact length_load m start k

/-- A part of a range is read as it is read alone. -/
theorem take_drop_load (m : Memory) (start : Nat) {off len n : Nat} (h : off + len ≤ n) :
    ((m.load start n).drop off).take len = m.load (start + off) len := by
  obtain ⟨rest, rfl⟩ := Nat.exists_eq_add_of_le h
  rw [Nat.add_assoc, load_add, List.drop_left' (length_load ..), load_take _ _ (Nat.le_add_right ..)]

theorem getElem_load (m : Memory) {i : Nat} (h : i < (m.load start len).length) :
    (m.load start len)[i] = m (start + i) := by
  simp [load]

/-- Equal bytes in a range are read back as equal lists. -/
theorem load_congr (h : AgreeOn lo hi m n) (hlo : lo ≤ start) (hhi : start + len ≤ hi) :
    m.load start len = n.load start len := by
  apply List.map_congr_left
  intro i hi'
  have hlt : i < len := List.mem_range.mp hi'
  exact h (start + i) (by omega) (by omega)

/-- A store reads back as what was stored. -/
theorem load_store (m : Memory) (start : Nat) (bytes : List UInt8) :
    (m.store start bytes).load start bytes.length = bytes := by
  apply List.ext_getElem
  · simp
  · intro i h1 h2
    rw [getElem_load]
    simp [store, List.getD_eq_getElem?_getD, List.getElem?_eq_getElem h2]

/-- A store leaves every byte outside its range alone. -/
theorem store_of_outside (m : Memory) {i : Nat} (h : i < start ∨ start + bytes.length ≤ i) :
    m.store start bytes i = m i := by
  unfold store
  split
  · have hlen : bytes.length ≤ i - start := by omega
    rw [List.getD_eq_getElem?_getD, List.getElem?_eq_none_iff.mpr hlen]
    rfl
  · rfl

theorem store_nil (m : Memory) (start : Nat) : m.store start [] = m := by
  funext i
  exact store_of_outside m (by simp; omega)

/-- Two stores one behind the other are one. -/
theorem store_append (m : Memory) (start : Nat) (first second : List UInt8) :
    m.store start (first ++ second) = (m.store start first).store (start + first.length) second := by
  funext i
  by_cases hfirst : i < start + first.length
  · have hsecond : (m.store start first).store (start + first.length) second i = m.store start first i :=
      store_of_outside _ (.inl hfirst)
    rw [hsecond]
    unfold store
    split
    · have hlt : i - start < first.length := by omega
      simp only [List.getD_eq_getElem?_getD, List.getElem?_append_left hlt,
        List.getElem?_eq_getElem hlt, Option.getD_some]
    · rfl
  · have hold : m.store start first i = m i := store_of_outside m (.inr (by omega))
    have hrest : i - (start + first.length) = i - start - first.length := by omega
    unfold store at hold ⊢
    rw [if_pos (show start + first.length ≤ i by omega), hold, if_pos (show start ≤ i by omega), hrest]
    simp only [List.getD_eq_getElem?_getD]
    rw [List.getElem?_append_right (by omega)]

/-- In particular it leaves everything below its start alone. -/
theorem agreeOn_store_below (m : Memory) (start : Nat) (bytes : List UInt8) :
    AgreeOn 0 start (m.store start bytes) m :=
  fun _ _ hi => store_of_outside m (Or.inl hi)

end Memory
