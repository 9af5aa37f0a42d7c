import L4Rust.Library.Memory
import Mathlib.Logic.Function.Basic

namespace Blocks

variable {n pos len : Nat} {content : Nat → List UInt8} {block bytes : List UInt8}

/-- The memory that consists of numbered blocks of one size. -/
def flat (n : Nat) (content : Nat → List UInt8) : Memory := fun a => (content (a / n)).getD (a % n) 0

/-- A block with the bytes from a position on overwritten. -/
def splice (block : List UInt8) (off : Nat) (bytes : List UInt8) : List UInt8 :=
  block.take off ++ bytes ++ block.drop (off + bytes.length)

theorem length_splice {off : Nat} (h : off + bytes.length ≤ block.length) :
    (splice block off bytes).length = block.length := by
  simp only [splice, List.length_append, List.length_take, List.length_drop]
  omega

/-- Overwriting all of a block leaves nothing of it. -/
theorem splice_all (h : block.length = bytes.length) : splice block 0 bytes = bytes := by
  simp [splice, h]

theorem take_splice (block bytes : List UInt8) {off : Nat} (h : off + bytes.length ≤ block.length) :
    (splice block off bytes).take (off + bytes.length) = block.take off ++ bytes := by
  apply List.take_left'
  rw [List.length_append, List.length_take]
  omega

theorem getD_splice {off : Nat} (h : off + bytes.length ≤ block.length) (i : Nat) :
    (splice block off bytes).getD i 0 =
      if off ≤ i then bytes.getD (i - off) (block.getD i 0) else block.getD i 0 := by
  have htake : (block.take off).length = off := by
    rw [List.length_take]
    omega
  simp only [splice, List.getD_eq_getElem?_getD]
  by_cases hoff : off ≤ i
  · rw [if_pos hoff]
    by_cases hin : i < off + bytes.length
    · have hmid : (block.take off ++ bytes ++ block.drop (off + bytes.length))[i]? = bytes[i - off]? := by
        rw [List.append_assoc, List.getElem?_append_right (by omega), htake,
          List.getElem?_append_left (by omega)]
      rw [hmid, List.getElem?_eq_getElem (by omega)]
      rfl
    · have hbehind : (block.take off ++ bytes ++ block.drop (off + bytes.length))[i]? = block[i]? := by
        rw [List.getElem?_append_right (by simp; omega), List.getElem?_drop]
        congr 1
        simp
        omega
      rw [hbehind, List.getElem?_eq_none_iff.mpr (show bytes.length ≤ i - off by omega)]
      rfl
  · rw [if_neg hoff, List.append_assoc, List.getElem?_append_left (by omega),
      List.getElem?_take_of_lt (by omega)]

/-- Overwriting a block that was read is reading what was overwritten. -/
theorem splice_load (m : Memory) {off : Nat} (h : off + bytes.length ≤ n) :
    splice (m.load 0 n) off bytes = (m.store off bytes).load 0 n := by
  obtain ⟨rest, rfl⟩ := Nat.exists_eq_add_of_le h
  have hfront : (m.store off bytes).load 0 off = m.load 0 off :=
    Memory.load_congr (Memory.agreeOn_store_below m off bytes) (Nat.le_refl 0) (Nat.zero_add off).le
  have hbehind : (m.store off bytes).load (off + bytes.length) rest = m.load (off + bytes.length) rest := by
    apply List.map_congr_left
    intro i _
    exact Memory.store_of_outside m (.inr (Nat.le_add_right ..))
  have hdrop : (m.load 0 (off + bytes.length + rest)).drop (off + bytes.length) =
      m.load (off + bytes.length) rest := by
    rw [Memory.load_add, List.drop_left' (Memory.length_load ..), Nat.zero_add]
  rw [splice, hdrop, Memory.load_take _ _ (by omega), Memory.load_add _ _ (off + bytes.length),
    Memory.load_add _ _ off, hfront, Nat.zero_add, Nat.zero_add, Memory.load_store, hbehind]

/-- A range inside one block is read from that block. -/
theorem load_flat (h : pos % n + len ≤ n) (hlen : (content (pos / n)).length = n) :
    (flat n content).load pos len = ((content (pos / n)).drop (pos % n)).take len := by
  apply List.ext_getElem
  · simp only [Memory.length_load, List.length_take, List.length_drop, hlen]
    omega
  · intro i hi _
    rw [Memory.length_load] at hi
    have hpos := Nat.div_add_mod pos n
    have hdiv : (pos + i) / n = pos / n := by
      apply Nat.div_eq_of_lt_le
      · rw [Nat.mul_comm]
        omega
      · rw [Nat.succ_mul, Nat.mul_comm]
        omega
    have hmod : (pos + i) % n = pos % n + i := by
      have hsum := Nat.div_add_mod (pos + i) n
      rw [hdiv] at hsum
      omega
    rw [Memory.getElem_load]
    simp only [flat, hdiv, hmod, List.getElem_take, List.getElem_drop, List.getD_eq_getElem?_getD]
    rw [List.getElem?_eq_getElem (by omega)]
    rfl

/-- Overwriting a range inside one block is a store to that range. -/
theorem flat_update (h : pos % n + bytes.length ≤ n) (hlen : (content (pos / n)).length = n) :
    flat n (Function.update content (pos / n) (splice (content (pos / n)) (pos % n) bytes)) =
      (flat n content).store pos bytes := by
  funext a
  have hpos := Nat.div_add_mod pos n
  have ha := Nat.div_add_mod a n
  by_cases hblock : a / n = pos / n
  · rw [hblock] at ha
    simp only [flat, hblock, Function.update_self, Memory.store]
    rw [getD_splice (by omega)]
    by_cases hle : pos ≤ a
    · rw [if_pos hle, if_pos (by omega)]
      congr 1
      omega
    · rw [if_neg hle, if_neg (by omega)]
  · have houtside : a < pos ∨ pos + bytes.length ≤ a := by
      by_contra hinside
      apply hblock
      apply Nat.div_eq_of_lt_le
      · rw [Nat.mul_comm]
        omega
      · rw [Nat.succ_mul, Nat.mul_comm]
        omega
    rw [Memory.store_of_outside _ houtside]
    simp only [flat, Function.update_of_ne hblock]

end Blocks
