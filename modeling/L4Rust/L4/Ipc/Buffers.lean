import L4Rust.L4.Error
import L4Rust.L4Sys.IpcBasic
import L4Rust.Library.Exec

open l4.error

namespace l4.ipc

/-- The constants of the C headers for receive items and capabilities. A receive
item for a capability is never the zero word. -/
structure RcvItems where
  L4_RCV_ITEM_SINGLE_CAP : BitVec 64
  L4_RCV_ITEM_LOCAL_ID : BitVec 64
  L4_INVALID_CAP_BIT : BitVec 64
  single_cap_ne_zero : L4_RCV_ITEM_SINGLE_CAP ≠ 0

/-- The receive items of the L4Re headers. -/
def RcvItems.l4re : RcvItems where
  L4_RCV_ITEM_SINGLE_CAP := 8 ||| 2
  L4_RCV_ITEM_LOCAL_ID := 4
  L4_INVALID_CAP_BIT := 1 <<< 11
  single_cap_ne_zero := by decide

/-- The buffer registers of a UTCB. -/
structure BufRegs where
  bdr : BitVec 64
  br : List (BitVec 64)
  length_br : br.length = l4_sys.UTCB_GENERIC_BUFFERS_SIZE

/-- Receive slots: the number of allocated ones, the flags new ones get, and the
receive items themselves. -/
structure BufferManager (N : Nat) where
  caps : Nat
  cap_flags : BitVec 64
  br : List (BitVec 64)
  length_br : br.length = N
  caps_le : caps ≤ N

namespace BufferManager

variable {N : Nat} (sys : RcvItems)

def new : BufferManager N where
  caps := 0
  cap_flags := sys.L4_RCV_ITEM_LOCAL_ID
  br := List.replicate N 0
  length_br := List.length_replicate
  caps_le := Nat.zero_le N

/-- The receive item for a capability, in the format the kernel understands. -/
def item (flags cap : BitVec 64) : BitVec 64 := cap ||| sys.L4_RCV_ITEM_SINGLE_CAP ||| flags

/-- The allocated receive items. -/
def items (self : BufferManager N) : List (BitVec 64) := self.br.take self.caps

def caps_used (self : BufferManager N) : Nat := self.caps

/-- Store a word behind the allocated items; past the array the index panics. -/
def store (self : BufferManager N) (word : BitVec 64) : Option (BufferManager N) :=
  if self.caps < N then
    some { self with
      br := self.br.set self.caps word
      length_br := (List.length_set ..).trans self.length_br }
  else none

/-- Take one more slot into use. -/
def push (self : BufferManager N) (word : BitVec 64) : Option (BufferManager N) :=
  if h : self.caps < N then
    some { self with
      caps := self.caps + 1
      br := self.br.set self.caps word
      length_br := (List.length_set ..).trans self.length_br
      caps_le := h }
  else none

/-- Allocate a number of slots; `supply` is what `l4re_util_cap_alloc` returns on
its calls. -/
def fill (supply : Nat → BitVec 64) : Nat → Nat → Exec Error (BufferManager N) Unit
  | 0, _ => pure ()
  | missing + 1, taken => do
    let cap := supply taken
    if cap &&& sys.L4_INVALID_CAP_BIT ≠ 0 then Exec.throw (.Generic .NoMem)
    else do
      let self ← Exec.get
      let self ← Exec.checked (self.push (item sys self.cap_flags cap))
      Exec.modify fun _ => self
      fill supply missing (taken + 1)

/-- The demand and the size are compared as `u8`. The sum must not overflow: with
overflow checks the program stops there, and in the release profile the sum wraps,
so that a demand that is too large is let through. -/
def alloc_capslots (cap_demand : Nat) (supply : Nat → BitVec 64) :
    Exec Error (BufferManager N) Unit := do
  let sum ← Exec.checked (if cap_demand + 3 < 2 ^ 8 then some (cap_demand + 3) else none)
  if sum ≥ N % 2 ^ 8 then
    Exec.throw (.InvalidArg "Capability slot demand too large" (some (BitVec.ofNat 64 cap_demand)))
  else do
    let self ← Exec.get
    fill sys supply (cap_demand - self.caps) 0
    let self ← Exec.get
    let self ← Exec.checked (self.store 0)
    Exec.modify fun _ => self

def set_rcv_cap_flags (flags : BitVec 64) : Exec Error (BufferManager N) Unit := do
  let self ← Exec.get
  if self.cap_flags = 0 then Exec.modify fun self => { self with cap_flags := flags }
  else
    Exec.throw (.InvalidState
      "Unable to set buffer flags when capabilities were already allocated")

theorem length_items (self : BufferManager N) : self.items.length = self.caps := by
  have hle : self.caps ≤ self.br.length := by
    rw [self.length_br]
    exact self.caps_le
  exact List.length_take_of_le hle

/-- Copy the allocated items to the buffer registers. Slicing panics when there
are not enough of them. -/
def setup_wait (self : BufferManager N) (u : BufRegs) : Option BufRegs :=
  if h : self.caps ≤ u.br.length then
    some { bdr := 0
           br := self.items ++ u.br.drop self.caps
           length_br := by
             rw [List.length_append, List.length_drop, length_items, ← u.length_br]
             omega }
  else none

/-- The items allocated for what the allocator returns first. -/
def fresh (flags : BitVec 64) (supply : Nat → BitVec 64) (taken count : Nat) : List (BitVec 64) :=
  (List.range count).map fun k => item sys flags (supply (taken + k))

variable {sys} {s t : BufferManager N}

theorem item_ne_zero (flags cap : BitVec 64) : item sys flags cap ≠ 0 := by
  intro hzero
  obtain ⟨hcap, _⟩ := BitVec.or_eq_zero_iff.mp hzero
  exact sys.single_cap_ne_zero (BitVec.or_eq_zero_iff.mp hcap).2

theorem push_cases {word : BitVec 64} (h : s.push word = some t) :
    t.items = s.items ++ [word] ∧ t.caps = s.caps + 1 ∧ t.cap_flags = s.cap_flags := by
  unfold push at h
  split at h
  · next hlt =>
    cases h
    refine ⟨?_, rfl, rfl⟩
    have hlen : s.caps < s.br.length := by
      rw [s.length_br]
      exact hlt
    unfold items
    dsimp only
    rw [List.take_add_one, List.take_set_of_le (Nat.le_refl _), List.getElem?_set_self hlen]
    rfl
  · cases h

theorem store_cases {word : BitVec 64} (h : s.store word = some t) :
    t.items = s.items ∧ t.caps = s.caps ∧ t.cap_flags = s.cap_flags := by
  unfold store at h
  split at h
  · cases h
    exact ⟨List.take_set_of_le (Nat.le_refl _), rfl, rfl⟩
  · cases h

theorem fresh_succ (flags : BitVec 64) (supply : Nat → BitVec 64) (taken count : Nat) :
    fresh sys flags supply taken (count + 1) =
      item sys flags (supply taken) :: fresh sys flags supply (taken + 1) count := by
  unfold fresh
  rw [List.range_succ_eq_map, List.map_cons, List.map_map]
  congr 1
  apply List.map_congr_left
  intro k _
  simp only [Function.comp_apply, Nat.add_succ, Nat.succ_add]

/-- The slots allocated by a loop that runs to its end. -/
theorem fill_success {supply : Nat → BitVec 64} {missing taken : Nat}
    (h : fill sys supply missing taken s = .ok () t) :
    t.items = s.items ++ fresh sys s.cap_flags supply taken missing ∧
      t.caps = s.caps + missing ∧ t.cap_flags = s.cap_flags := by
  induction missing generalizing s taken with
  | zero =>
    cases h
    exact ⟨(List.append_nil _).symm, rfl, rfl⟩
  | succ missing ih =>
    rw [fill] at h
    split at h
    · cases h
    rw [Exec.bind_get, Exec.bind_checked_eq_ok_iff] at h
    obtain ⟨next, hnext, h⟩ := h
    rw [Exec.bind_modify] at h
    obtain ⟨hitems, hcaps, hflags⟩ := push_cases hnext
    obtain ⟨hrest, hcaps', hflags'⟩ := ih h
    refine ⟨?_, by omega, hflags'.trans hflags⟩
    rw [hrest, hitems, hflags, fresh_succ, List.append_assoc]
    rfl

/-- What a successful call leaves: the slots from before, and behind them those
that were missing. -/
theorem alloc_capslots_success {cap_demand : Nat} {supply : Nat → BitVec 64}
    (h : alloc_capslots sys cap_demand supply s = .ok () t) :
    t.items = s.items ++ fresh sys s.cap_flags supply 0 (cap_demand - s.caps) ∧
      t.caps = max s.caps cap_demand := by
  unfold alloc_capslots at h
  rw [Exec.bind_checked_eq_ok_iff] at h
  obtain ⟨sum, _, h⟩ := h
  split at h
  · cases h
  rw [Exec.bind_get, Exec.bind_eq_ok_iff] at h
  obtain ⟨_, filled, hfill, h⟩ := h
  rw [Exec.bind_get, Exec.bind_checked_eq_ok_iff] at h
  obtain ⟨done, hdone, h⟩ := h
  obtain rfl : done = t := by
    cases h
    rfl
  obtain ⟨hitems, hcaps, _⟩ := fill_success hfill
  obtain ⟨hkept, hcaps', _⟩ := store_cases hdone
  exact ⟨hkept.trans hitems, by omega⟩

/-- What holds of every receive item for a capability keeps holding of all
allocated items. -/
theorem fill_forall {P : BitVec 64 → Prop} (hP : ∀ flags cap, P (item sys flags cap))
    (supply : Nat → BitVec 64) (missing taken : Nat) :
    Exec.Preserves (fun s : BufferManager N => ∀ word ∈ s.items, P word)
      (fill sys supply missing taken) := by
  induction missing generalizing taken with
  | zero => exact .pure ()
  | succ missing ih =>
    rw [fill]
    split
    · exact .throw _
    intro s hs
    rw [Exec.bind_get]
    cases hpush : s.push (item sys s.cap_flags (supply taken)) with
    | none => trivial
    | some next =>
      apply ih (taken + 1) next
      intro word hword
      rw [(push_cases hpush).1, List.mem_append, List.mem_singleton] at hword
      rcases hword with hword | rfl
      · exact hs word hword
      · exact hP _ _

theorem alloc_capslots_forall {P : BitVec 64 → Prop} (hP : ∀ flags cap, P (item sys flags cap))
    (cap_demand : Nat) (supply : Nat → BitVec 64) :
    Exec.Preserves (fun s : BufferManager N => ∀ word ∈ s.items, P word)
      (alloc_capslots sys cap_demand supply) := by
  refine .bind (.checked _) fun sum => ?_
  split
  · exact .throw _
  intro s hs
  rw [Exec.bind_get]
  refine Exec.Preserves.bind (fill_forall hP supply _ 0) (fun _ => ?_) s hs
  intro filled hfilled
  rw [Exec.bind_get]
  cases hstore : filled.store 0 with
  | none => trivial
  | some done =>
    intro word hword
    apply hfilled word
    rw [← (store_cases hstore).1]
    exact hword

/-- Every allocated item is a word the kernel does not take for the end of the
list. -/
def NonZero (self : BufferManager N) : Prop := ∀ word ∈ self.items, word ≠ 0

theorem alloc_capslots_nonZero (cap_demand : Nat) (supply : Nat → BitVec 64) :
    Exec.Preserves (NonZero (N := N)) (alloc_capslots sys cap_demand supply) :=
  alloc_capslots_forall item_ne_zero cap_demand supply

end BufferManager

end l4.ipc
