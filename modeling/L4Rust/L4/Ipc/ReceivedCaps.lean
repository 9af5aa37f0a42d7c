import L4Rust.L4.Ipc.Buffers
import L4Rust.L4.Ipc.Serialise
import L4Rust.Library.Machine

open l4.error l4.utcb

namespace l4.ipc

variable {N : Nat}

/-- The receive items with the mask that leaves a capability of one: the bits that
make a word a receive item are not among those of a capability. -/
structure CapConsts extends RcvItems where
  L4_CAP_MASK : BitVec 64
  single_cap_masked : L4_RCV_ITEM_SINGLE_CAP &&& L4_CAP_MASK = 0

/-- The constants of the L4Re headers. -/
def CapConsts.l4re : CapConsts where
  toRcvItems := RcvItems.l4re
  L4_CAP_MASK := BitVec.allOnes 64 <<< 11
  single_cap_masked := by decide

namespace BufferManager

def rcv_cap (sys : CapConsts) (self : BufferManager N) (index : Nat) : Except Error (BitVec 64) :=
  if index < self.caps then .ok (self.br.getD index 0 &&& sys.L4_CAP_MASK)
  else .error (.InvalidArg "Index not allocated" (some (BitVec.ofNat 64 index)))

/-- A pointer to the first slot. Behind the array there is no slot to speak of. -/
def access_buffers (self : BufferManager N) : BufferAccess := ⟨fun i => self.br.getD i 0, some 0⟩

/-- One allocation, with what `l4re_util_cap_alloc` returns during it. -/
structure Alloc where
  cap_demand : Nat
  supply : Nat → BitVec 64

/-- A manager on which slots are allocated, whether a call succeeds or not. The
demand is a `u8`. -/
def allocations (sys : RcvItems) (N : Nat) : Machine (BufferManager N) Alloc where
  init s := s = new sys
  allowed _ call := call.cap_demand < 2 ^ 8
  step s call :=
    match alloc_capslots sys call.cap_demand call.supply s with
    | .ok _ t | .err _ t => some t
    | .abort => none

variable {sys : CapConsts} {s : BufferManager N} {past : List (BufferManager N × Alloc)}

/-- The word has the bits that make it a receive item. -/
def IsItem (sys : RcvItems) (word : BitVec 64) : Prop :=
  sys.L4_RCV_ITEM_SINGLE_CAP &&& word = sys.L4_RCV_ITEM_SINGLE_CAP

theorem isItem_item (sys : RcvItems) (flags cap : BitVec 64) : IsItem sys (item sys flags cap) := by
  apply BitVec.eq_of_getLsbD_eq
  intro i _
  simp only [item, BitVec.getLsbD_and, BitVec.getLsbD_or]
  cases sys.L4_RCV_ITEM_SINGLE_CAP.getLsbD i <;> simp

/-- A receive item is not a capability. -/
theorem IsItem.masked_ne {word : BitVec 64} (h : IsItem sys.toRcvItems word) :
    word &&& sys.L4_CAP_MASK ≠ word := by
  intro hmask
  apply sys.single_cap_ne_zero
  calc sys.L4_RCV_ITEM_SINGLE_CAP
      = sys.L4_RCV_ITEM_SINGLE_CAP &&& (word &&& sys.L4_CAP_MASK) := by rw [hmask, h]
    _ = (sys.L4_RCV_ITEM_SINGLE_CAP &&& sys.L4_CAP_MASK) &&& word := by
      rw [BitVec.and_assoc, BitVec.and_comm word]
    _ = 0 := by simp [sys.single_cap_masked]

theorem allocations_isItem (hrun : (allocations sys.toRcvItems N).Run past s) :
    ∀ word ∈ s.items, IsItem sys.toRcvItems word := by
  refine hrun.invariant (P := fun s => ∀ word ∈ s.items, IsItem sys.toRcvItems word) ?_ ?_
  · rintro s rfl word hword
    cases hword
  · intro s call t hs _ hstep
    have hkeep := alloc_capslots_forall (isItem_item sys.toRcvItems) call.cap_demand call.supply s hs
    simp only [allocations] at hstep
    split at hstep
    · next hok =>
      rw [hok] at hkeep
      cases hstep
      exact hkeep
    · next herr =>
      rw [herr] at hkeep
      cases hstep
      exact hkeep
    · cases hstep

/-- `Serialiser::read` for a capability. -/
def readCap (fp : Fpages) : Exec Error Reader (BitVec 64) := ArgTy.cap.read fp

/-- Read a number of capability arguments in a row. -/
def readCaps (fp : Fpages) : Nat → Exec Error Reader (List (BitVec 64))
  | 0 => pure []
  | n + 1 => do
    let cap ← readCap fp
    let rest ← readCaps fp n
    pure (cap :: rest)

/-- Each of them is the word in the first slot. -/
theorem readCaps_eq (fp : Fpages) (mr : UtcbMr) (n : Nat) :
    readCaps fp n ⟨mr, s.access_buffers⟩ =
      .ok (List.replicate n (s.br.getD 0 0)) ⟨mr, s.access_buffers⟩ := by
  induction n with
  | zero => rfl
  | succ n ih =>
    have hread : readCap fp ⟨mr, s.access_buffers⟩ =
        .ok (s.br.getD 0 0) ⟨mr, s.access_buffers⟩ := rfl
    rw [readCaps, Exec.bind_of_ok hread, Exec.bind_of_ok ih]
    rfl

theorem first_mem_items (h : 0 < s.caps) : s.br.getD 0 0 ∈ s.items := by
  have hlen : 0 < s.items.length := by
    rw [length_items]
    exact h
  have hfirst : s.items[0]? = s.br[0]? := List.getElem?_take_of_lt h
  rw [List.getElem?_eq_getElem hlen] at hfirst
  rw [List.getD_eq_getElem?_getD, ← hfirst]
  exact List.getElem_mem hlen

/-- In every state that allocations lead to, reading capabilities through the
buffer access gives the received ones only where none is read: the pointer does
not move, and the bits of the receive item stay on. -/
theorem received_caps_iff (sys : CapConsts) (fp : Fpages)
    (hrun : (allocations sys.toRcvItems N).Run past s) {n : Nat} (hn : n ≤ s.caps_used) (mr : UtcbMr) :
    (∃ caps t, readCaps fp n ⟨mr, s.access_buffers⟩ = .ok caps t ∧
      caps.map Except.ok = (List.range n).map (s.rcv_cap sys)) ↔ n = 0 := by
  rw [readCaps_eq]
  constructor
  · rintro ⟨caps, t, hread, hcaps⟩
    injection hread with hread _
    subst hread
    cases n with
    | zero => rfl
    | succ n =>
      have hpos : 0 < s.caps := Nat.lt_of_lt_of_le (Nat.succ_pos n) hn
      rw [List.replicate_succ, List.map_cons, List.range_succ_eq_map, List.map_cons] at hcaps
      have hfirst := List.head_eq_of_cons_eq hcaps
      rw [rcv_cap, if_pos hpos] at hfirst
      have hitem := allocations_isItem hrun _ (first_mem_items hpos)
      exact (hitem.masked_ne (Except.ok.inj hfirst).symm).elim
  · rintro rfl
    exact ⟨[], _, rfl, rfl⟩

/-- Two slots, at the indices that the allocator hands out first. -/
private def twoSlots : Alloc := ⟨2, fun k => BitVec.ofNat 64 (0x1000 * (k + 1))⟩

private theorem twoSlots_run :
    ∃ past s, (allocations RcvItems.l4re 8).Run past s ∧ s.caps_used = 2 ∧
      s.br = [0x100e, 0x200e, 0, 0, 0, 0, 0, 0] :=
  ⟨_, _, .call (i := twoSlots) (.start rfl) (show 2 < 2 ^ 8 by decide) rfl, rfl, by decide⟩

/-- With two slots, and no capability to read, what is read is right. -/
theorem received_caps_none_read :
    ∃ past s, (allocations RcvItems.l4re 8).Run past s ∧ s.caps_used = 2 ∧
      ∃ caps t, readCaps Fpages.l4re 0 ⟨UtcbMr.from_mr fun _ => 0, s.access_buffers⟩ = .ok caps t ∧
        caps.map Except.ok = (List.range 0).map (s.rcv_cap CapConsts.l4re) := by
  obtain ⟨past, s, hrun, hcaps, _⟩ := twoSlots_run
  exact ⟨past, s, hrun, hcaps,
    (received_caps_iff CapConsts.l4re Fpages.l4re hrun (Nat.zero_le _) _).mpr rfl⟩

/-- With slots at 0x1000 and 0x2000 two reads return the first receive item twice,
with its flags. -/
theorem received_caps_fail :
    ∃ past s, (allocations RcvItems.l4re 8).Run past s ∧ s.caps_used = 2 ∧
      (∃ t, readCaps Fpages.l4re 2 ⟨UtcbMr.from_mr fun _ => 0, s.access_buffers⟩ =
        .ok [0x100e, 0x100e] t) ∧
      [0x100e, 0x100e].map Except.ok ≠ (List.range 2).map (s.rcv_cap CapConsts.l4re) ∧
      (List.range 2).map (s.rcv_cap CapConsts.l4re) = [.ok 0x1000, .ok 0x2000] := by
  obtain ⟨past, s, hrun, hcaps, hbr⟩ := twoSlots_run
  have hread := readCaps_eq (s := s) Fpages.l4re (UtcbMr.from_mr fun _ => 0) 2
  rw [hbr] at hread
  have hlookup : (List.range 2).map (s.rcv_cap CapConsts.l4re) = [.ok 0x1000, .ok 0x2000] := by
    have hcount : s.caps = 2 := hcaps
    simp [List.range_succ, rcv_cap, hcount, hbr]
    decide
  refine ⟨past, s, hrun, hcaps, ⟨_, hread⟩, ?_, hlookup⟩
  rw [hlookup]
  intro hsame
  injection hsame with hfirst _
  injection hfirst with hfirst
  exact absurd hfirst (by decide)

end BufferManager

end l4.ipc
