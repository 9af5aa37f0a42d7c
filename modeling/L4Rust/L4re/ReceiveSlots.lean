import L4Rust.L4.Ipc.ReceiveWindow
import L4Rust.L4Sys.Task

open l4.error l4.ipc l4.utcb l4_sys

namespace l4re.cap

variable {N : Nat}

/-- The slots of a thread for received capabilities. -/
def received (r : Receiver N) : List (BitVec 64) := r.slots.items.map slot

/-- What `l4re_util_cap_alloc` returns during an event of a thread. -/
def supply : l4.ipc.Event → Nat → BitVec 64
  | .alloc_capslots _ supply => supply
  | .stub _ _ _ _ supply => supply
  | .set_rcv_cap_flags _ | .foreign _ | .start | .reply_and_wait .. => fun _ => 0

/-- The slots that a thread has taken from the allocator in an event. -/
def taken (event : l4.ipc.Event) (r r' : Receiver N) : List (BitVec 64) :=
  (List.range (r'.slots.caps - r.slots.caps)).map fun k => slot (supply event k)

/-- The window that a thread has announced when it last entered the kernel. -/
def announced (r : Receiver N) : Option (Entry N) := r.entries.getLast?

variable {sys : Fpages} {r r' : Receiver N} {s t : BufferManager N} {event : l4.ipc.Event}

/-- Slots that an allocator has filled are added behind the others. -/
structure Grown (supply : Nat → BitVec 64) (s t : BufferManager N) : Prop where
  items : t.items = s.items ++ BufferManager.fresh .l4re s.cap_flags supply 0 (t.caps - s.caps)
  caps_le : s.caps ≤ t.caps
  cap_flags : t.cap_flags = s.cap_flags

theorem Grown.refl (supply : Nat → BitVec 64) (s : BufferManager N) : Grown supply s s := by
  refine ⟨?_, Nat.le_refl _, rfl⟩
  rw [Nat.sub_self]
  exact (List.append_nil _).symm

/-- However far the loop gets, what it has allocated is in the slots. -/
theorem fill_grown (supply : Nat → BitVec 64) (missing taken : Nat) (s : BufferManager N) :
    match BufferManager.fill .l4re supply missing taken s with
    | .ok _ t | .err _ t => ∃ n, t.items = s.items ++ BufferManager.fresh .l4re s.cap_flags supply taken n ∧
        t.caps = s.caps + n ∧ t.cap_flags = s.cap_flags
    | .abort => True := by
  induction missing generalizing s taken with
  | zero => exact ⟨0, (List.append_nil _).symm, rfl, rfl⟩
  | succ missing ih =>
    rw [BufferManager.fill]
    by_cases hcap : supply taken &&& RcvItems.l4re.L4_INVALID_CAP_BIT ≠ 0
    · rw [if_pos hcap]
      exact ⟨0, (List.append_nil _).symm, rfl, rfl⟩
    rw [if_neg hcap, Exec.bind_get]
    cases hpush : s.push (BufferManager.item .l4re s.cap_flags (supply taken)) with
    | none => trivial
    | some next =>
      obtain ⟨hitems, hcaps, hflags⟩ := BufferManager.push_cases hpush
      have hrest := ih (taken + 1) next
      rw [Exec.checked_some]
      change match BufferManager.fill .l4re supply missing (taken + 1) next with
        | .ok _ t | .err _ t => _
        | .abort => True
      have hfresh (n : Nat) : next.items ++ BufferManager.fresh .l4re next.cap_flags supply (taken + 1) n =
          s.items ++ BufferManager.fresh .l4re s.cap_flags supply taken (n + 1) := by
        rw [BufferManager.fresh_succ, hitems, hflags, List.append_assoc]
        rfl
      cases hfill : BufferManager.fill .l4re supply missing (taken + 1) next with
      | ok _ t | err _ t =>
        rw [hfill] at hrest
        obtain ⟨n, htitems, htcaps, htflags⟩ := hrest
        exact ⟨n + 1, htitems.trans (hfresh n), by omega, htflags.trans hflags⟩
      | abort => trivial

theorem alloc_capslots_grown (cap_demand : Nat) (supply : Nat → BitVec 64) (s : BufferManager N) :
    match BufferManager.alloc_capslots .l4re cap_demand supply s with
    | .ok _ t | .err _ t => Grown supply s t
    | .abort => True := by
  unfold BufferManager.alloc_capslots
  by_cases hsum : cap_demand + 3 < 2 ^ 8
  · rw [Exec.bind_checked_of_some (if_pos hsum)]
    by_cases hlarge : cap_demand + 3 ≥ N % 2 ^ 8
    · rw [if_pos hlarge]
      exact .refl supply s
    rw [if_neg hlarge, Exec.bind_get]
    have hgrown := fill_grown supply (cap_demand - s.caps) 0 s
    cases hfill : BufferManager.fill .l4re supply (cap_demand - s.caps) 0 s with
    | ok _ filled =>
      rw [hfill] at hgrown
      obtain ⟨n, hitems, hcaps, hflags⟩ := hgrown
      rw [Exec.bind_of_ok hfill, Exec.bind_get]
      cases hstore : filled.store 0 with
      | none => trivial
      | some done =>
        obtain ⟨hkept, hcaps', hflags'⟩ := BufferManager.store_cases hstore
        change Grown supply s done
        refine ⟨?_, by omega, hflags'.trans hflags⟩
        rw [hkept, hitems, hcaps', hcaps, Nat.add_sub_cancel_left]
    | err _ filled =>
      rw [hfill] at hgrown
      obtain ⟨n, hitems, hcaps, hflags⟩ := hgrown
      rw [Exec.bind_of_err hfill]
      refine ⟨?_, by omega, hflags⟩
      rw [hitems, hcaps, Nat.add_sub_cancel_left]
    | abort =>
      rw [Exec.bind_of_abort hfill]
      trivial
  · rw [if_neg hsum]
    trivial

theorem onSlots_grown {cap_demand : Nat} {supply : Nat → BitVec 64}
    (h : r.onSlots (BufferManager.alloc_capslots .l4re cap_demand supply) = some r') :
    Grown supply r.slots r'.slots ∧ r'.entries = r.entries := by
  have hgrown := alloc_capslots_grown cap_demand supply r.slots
  unfold Receiver.onSlots at h
  cases halloc : BufferManager.alloc_capslots .l4re cap_demand supply r.slots with
  | ok _ slots | err _ slots =>
    rw [halloc] at h hgrown
    cases h
    exact ⟨hgrown, rfl⟩
  | abort =>
    rw [halloc] at h
    cases h

/-- What a thread has found announced was among its slots. -/
structure Consistent (r : Receiver N) : Prop where
  cap_flags : r.slots.cap_flags = RcvItems.l4re.L4_RCV_ITEM_LOCAL_ID
  entries : ∀ e ∈ r.entries, e.slots.items <+: r.slots.items

theorem Grown.keeps_items {supply : Nat → BitVec 64} (h : Grown supply s t) : s.items <+: t.items := by
  rw [h.items]
  exact List.prefix_append ..

/-- An event takes slots at most, and what it adds to the entries has the slots of its end. -/
structure Advanced (supply : Nat → BitVec 64) (r r' : Receiver N) : Prop where
  grown : Grown supply r.slots r'.slots
  entries : ∀ e ∈ r'.entries, e ∈ r.entries ∨ e.slots = r'.slots

theorem Advanced.quiet {supply : Nat → BitVec 64} (hslots : r'.slots = r.slots)
    (hentries : ∀ e ∈ r'.entries, e ∈ r.entries ∨ e.slots = r'.slots) : Advanced supply r r' := by
  refine ⟨?_, hentries⟩
  rw [hslots]
  exact .refl supply r.slots

theorem Advanced.consistent {supply : Nat → BitVec 64} (h : Advanced supply r r') (hr : Consistent r) :
    Consistent r' := by
  refine ⟨h.grown.cap_flags.trans hr.cap_flags, fun e he => ?_⟩
  obtain hold | hslots := h.entries e he
  · exact (hr.entries e hold).trans h.grown.keeps_items
  · rw [hslots]

theorem mem_enter {e : Entry N} (he : e ∈ r.enter.entries) : e ∈ r.entries ∨ e.slots = r.slots := by
  rw [Receiver.enter, List.mem_append, List.mem_singleton] at he
  obtain he | rfl := he
  · exact .inl he
  · exact .inr rfl

theorem run_advanced (hr : Consistent r) (h : event.run .l4re sys r = some r') :
    Advanced (supply event) r r' := by
  cases event with
  | alloc_capslots cap_demand supply =>
    obtain ⟨hgrown, hentries⟩ := onSlots_grown h
    exact ⟨hgrown, fun e he => .inl (hentries ▸ he)⟩
  | set_rcv_cap_flags flags =>
    -- The flags are set from the start on, so that they cannot be changed.
    have hflags : r.slots.cap_flags ≠ 0 := by
      rw [hr.cap_flags]
      decide
    have hsame : BufferManager.set_rcv_cap_flags flags r.slots = .err (.InvalidState
        "Unable to set buffer flags when capabilities were already allocated") r.slots := by
      rw [BufferManager.set_rcv_cap_flags, Exec.bind_get, if_neg hflags]
      rfl
    rw [l4.ipc.Event.run, Receiver.onSlots, hsame] at h
    cases h
    exact .quiet rfl fun e he => .inl he
  | «foreign» regs =>
    cases h
    exact .quiet rfl fun e he => .inl he
  | start =>
    obtain ⟨regs, hregs, h⟩ := Option.bind_eq_some_iff.mp h
    cases h
    refine .quiet rfl fun e he => ?_
    have hentered := mem_enter he
    exact hentered
  | reply_and_wait label client_tag =>
    obtain ⟨regs, hregs, h⟩ := Option.bind_eq_some_iff.mp h
    dsimp only at h
    split at h
    · cases h
      refine .quiet rfl fun e he => ?_
      obtain hfirst | hslots := mem_enter he
      · have hentered := mem_enter hfirst
        exact hentered
      · exact .inr hslots
    · cases h
      refine .quiet rfl fun e he => ?_
      have hentered := mem_enter he
      exact hentered
  | stub I opcode args mem supply =>
    obtain ⟨_, slots, halloc, rfl⟩ | ⟨_, hquiet⟩ := stub_cases h
    · have hgrown := alloc_capslots_grown I.CAP_DEMAND supply r.slots
      rw [halloc] at hgrown
      refine ⟨hgrown, fun e he => ?_⟩
      have hentered := mem_enter he
      exact hentered
    · obtain ⟨hgrown, hentries⟩ := onSlots_grown hquiet
      exact ⟨hgrown, fun e he => .inl (hentries ▸ he)⟩

theorem slot_item (cap : BitVec 64) :
    slot (BufferManager.item .l4re RcvItems.l4re.L4_RCV_ITEM_LOCAL_ID cap) = slot cap := by
  simp [slot, BufferManager.item, RcvItems.l4re, L4_CAP_SHIFT, BitVec.ushiftRight_or_distrib]

/-- A thread receives in the slots it had, and in those it has taken. -/
theorem received_advanced (hr : Consistent r) (h : Advanced (supply event) r r') :
    received r' = received r ++ taken event r r' := by
  rw [received, h.grown.items, List.map_append, hr.cap_flags, BufferManager.fresh, List.map_map]
  congr 1
  apply List.map_congr_left
  intro k _
  rw [Function.comp_apply, slot_item, Nat.zero_add]

end l4re.cap
