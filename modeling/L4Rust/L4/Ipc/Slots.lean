import L4Rust.L4.Ipc.ReceivedCaps

open l4.error

namespace l4.ipc

variable {N : Nat}

/-- A buffer manager with what `l4re_util_cap_alloc` has returned to it so far,
which the code does not record. -/
structure Ledger (N : Nat) where
  manager : BufferManager N
  returned : List (BitVec 64)

/-- There is room for a terminator behind the slots, if there are any. -/
def BufferManager.Room (self : BufferManager N) : Prop := self.caps = 0 ∨ self.caps + 3 < N

namespace Ledger

variable (sys : RcvItems)

/-- The allocator marks with a bit that it has no capability. -/
def Granted (cap : BitVec 64) : Prop := cap &&& sys.L4_INVALID_CAP_BIT = 0

instance (cap : BitVec 64) : Decidable (Granted sys cap) :=
  inferInstanceAs (Decidable (cap &&& sys.L4_INVALID_CAP_BIT = 0))

/-- The capabilities successfully taken from the allocator. -/
def taken (s : Ledger N) : List (BitVec 64) := s.returned.filter fun cap => Granted sys cap

/-- The loop of `alloc_capslots`, recording every call of the allocator. -/
def fill (supply : Nat → BitVec 64) : Nat → Nat → Exec Error (Ledger N) Unit
  | 0, _ => pure ()
  | missing + 1, asked => do
    let cap := supply asked
    Exec.modify fun s => { s with returned := s.returned ++ [cap] }
    if cap &&& sys.L4_INVALID_CAP_BIT ≠ 0 then Exec.throw (.Generic .NoMem)
    else do
      let s ← Exec.get
      let manager ← Exec.checked (s.manager.push (BufferManager.item sys s.manager.cap_flags cap))
      Exec.modify fun s => { s with manager := manager }
      fill supply missing (asked + 1)

/-- `alloc_capslots`, recording every call of the allocator. -/
def alloc_capslots (cap_demand : Nat) (supply : Nat → BitVec 64) : Exec Error (Ledger N) Unit := do
  let sum ← Exec.checked (if cap_demand + 3 < 2 ^ 8 then some (cap_demand + 3) else none)
  if sum ≥ N % 2 ^ 8 then
    Exec.throw (.InvalidArg "Capability slot demand too large" (some (BitVec.ofNat 64 cap_demand)))
  else do
    let s ← Exec.get
    fill sys supply (cap_demand - s.manager.caps) 0
    let s ← Exec.get
    let manager ← Exec.checked (s.manager.store 0)
    Exec.modify fun s => { s with manager := manager }

variable {sys} {s t u : Ledger N}

/-- Without the record the loop is the one of the manager. -/
theorem fill_mapState (supply : Nat → BitVec 64) (missing asked : Nat) (s : Ledger N) :
    (fill sys supply missing asked s).mapState manager =
      BufferManager.fill sys supply missing asked s.manager := by
  induction missing generalizing s asked with
  | zero => rfl
  | succ missing ih =>
    rw [fill, BufferManager.fill, Exec.bind_modify]
    split
    · rfl
    · rw [Exec.bind_get, Exec.bind_get]
      cases hpush : s.manager.push (BufferManager.item sys s.manager.cap_flags (supply asked)) with
      | none => rfl
      | some manager => exact ih (asked + 1) ⟨manager, s.returned ++ [supply asked]⟩

theorem alloc_capslots_mapState (cap_demand : Nat) (supply : Nat → BitVec 64) (s : Ledger N) :
    (alloc_capslots sys cap_demand supply s).mapState manager =
      BufferManager.alloc_capslots sys cap_demand supply s.manager := by
  unfold alloc_capslots BufferManager.alloc_capslots
  by_cases hsum : cap_demand + 3 < 2 ^ 8
  · rw [Exec.bind_checked_of_some (if_pos hsum), Exec.bind_checked_of_some (if_pos hsum)]
    split
    · rfl
    · rw [Exec.bind_get, Exec.bind_get, Exec.bind_apply, Exec.bind_apply,
        ← fill_mapState supply (cap_demand - s.manager.caps) 0 s]
      cases fill sys supply (cap_demand - s.manager.caps) 0 s with
      | ok value filled =>
        dsimp only [Outcome.mapState]
        rw [Exec.bind_get, Exec.bind_get]
        cases filled.manager.store 0 <;> rfl
      | err e filled => rfl
      | abort => rfl
  · rw [if_neg hsum]
    rfl

/-- The manager after some more capabilities were taken into its slots. -/
structure Grown (sys : RcvItems) (caps : List (BitVec 64)) (s t : Ledger N) : Prop where
  taken : t.taken sys = s.taken sys ++ caps
  items : t.manager.items = s.manager.items ++ caps.map (BufferManager.item sys s.manager.cap_flags)
  rest : t.manager.br.drop t.manager.caps = s.manager.br.drop t.manager.caps
  caps_used : t.manager.caps = s.manager.caps + caps.length
  cap_flags : t.manager.cap_flags = s.manager.cap_flags

theorem Grown.refl (s : Ledger N) : Grown sys [] s s :=
  ⟨(List.append_nil _).symm, (List.append_nil _).symm, rfl, rfl, rfl⟩

theorem Grown.trans {caps caps' : List (BitVec 64)} (h : Grown sys caps s t) (h' : Grown sys caps' t u) :
    Grown sys (caps ++ caps') s u := by
  refine ⟨?_, ?_, ?_, ?_, h'.cap_flags.trans h.cap_flags⟩
  · rw [h'.taken, h.taken, List.append_assoc]
  · rw [h'.items, h.items, h.cap_flags, List.map_append, List.append_assoc]
  · have hsplit : u.manager.caps = t.manager.caps + caps'.length := h'.caps_used
    rw [h'.rest, hsplit, ← List.drop_drop, h.rest, List.drop_drop]
  · rw [h'.caps_used, h.caps_used, List.length_append, Nat.add_assoc]

/-- One turn of the loop that gets a capability. -/
theorem grown_of_push {cap : BitVec 64} {manager : BufferManager N} (hcap : Granted sys cap)
    (h : s.manager.push (BufferManager.item sys s.manager.cap_flags cap) = some manager) :
    Grown sys [cap] s ⟨manager, s.returned ++ [cap]⟩ := by
  obtain ⟨hitems, hcaps, hflags⟩ := BufferManager.push_cases h
  refine ⟨?_, hitems, ?_, hcaps, hflags⟩
  · simp [Ledger.taken, hcap]
  · unfold BufferManager.push at h
    split at h
    · cases h
      exact List.drop_set_of_lt (Nat.lt_succ_self _)
    · cases h

/-- A refusal of the allocator is recorded, but nothing is taken. -/
theorem grown_of_refused {cap : BitVec 64} (hcap : ¬ Granted sys cap) :
    Grown sys [] s { s with returned := s.returned ++ [cap] } := by
  refine ⟨?_, (List.append_nil _).symm, rfl, rfl, rfl⟩
  simp [Ledger.taken, hcap]

/-- With room for what is missing the loop ends, when everything is there or when
the allocator first refuses. -/
theorem fill_spec (sys : RcvItems) (supply : Nat → BitVec 64) (missing asked : Nat) (s : Ledger N)
    (hroom : s.manager.caps + missing ≤ N) :
    ∃ caps t, Grown sys caps s t ∧
      (fill sys supply missing asked s = .ok () t ∧ caps.length = missing ∨
        fill sys supply missing asked s = .err (.Generic .NoMem) t ∧ caps.length < missing) := by
  induction missing generalizing s asked with
  | zero => exact ⟨[], s, .refl s, Or.inl ⟨rfl, rfl⟩⟩
  | succ missing ih =>
    rw [fill, Exec.bind_modify]
    by_cases hcap : supply asked &&& sys.L4_INVALID_CAP_BIT = 0
    · rw [if_neg (not_not.mpr hcap), Exec.bind_get]
      have hlt : s.manager.caps < N := by omega
      obtain ⟨manager, hpush⟩ : ∃ manager, s.manager.push
          (BufferManager.item sys s.manager.cap_flags (supply asked)) = some manager :=
        ⟨_, dif_pos hlt⟩
      rw [Exec.bind_checked_of_some hpush, Exec.bind_modify]
      have hgrown := grown_of_push hcap hpush
      have hcaps := hgrown.caps_used
      dsimp only [List.length_singleton] at hcaps
      obtain ⟨caps, t, hrest, hend⟩ := ih (asked + 1) ⟨manager, s.returned ++ [supply asked]⟩
        (by dsimp only; omega)
      refine ⟨[supply asked] ++ caps, t, hgrown.trans hrest, ?_⟩
      rw [List.length_append, List.length_singleton]
      rcases hend with ⟨hok, hlen⟩ | ⟨herr, hlen⟩
      · exact Or.inl ⟨hok, by omega⟩
      · exact Or.inr ⟨herr, by omega⟩
    · rw [if_pos hcap]
      exact ⟨[], _, grown_of_refused hcap, Or.inr ⟨rfl, Nat.succ_pos missing⟩⟩

/-- What the manager answers to a demand it has no room for. -/
def demandTooLarge (cap_demand : Nat) : Error :=
  .InvalidArg "Capability slot demand too large" (some (BitVec.ofNat 64 cap_demand))

theorem alloc_capslots_of_overflow {cap_demand : Nat} (supply : Nat → BitVec 64) (s : Ledger N)
    (h : ¬ cap_demand + 3 < 2 ^ 8) : alloc_capslots sys cap_demand supply s = .abort := by
  unfold alloc_capslots
  rw [if_neg h]
  rfl

theorem alloc_capslots_of_refused {cap_demand : Nat} (supply : Nat → BitVec 64) (s : Ledger N)
    (hsum : cap_demand + 3 < 2 ^ 8) (h : N % 2 ^ 8 ≤ cap_demand + 3) :
    alloc_capslots sys cap_demand supply s = .err (demandTooLarge cap_demand) s := by
  unfold alloc_capslots
  rw [Exec.bind_checked_of_some (if_pos hsum), if_pos h]
  rfl

/-- A demand that passes the check is met, or the allocator refuses before. In
both cases what was taken is in the slots. -/
theorem alloc_capslots_of_fits (sys : RcvItems) {cap_demand : Nat} (supply : Nat → BitVec 64)
    (s : Ledger N) (h : cap_demand + 3 < N % 2 ^ 8) (hroom : s.manager.Room) :
    ∃ caps filled, Grown sys caps s filled ∧ filled.manager.Room ∧
      ((∃ manager, filled.manager.store 0 = some manager ∧
          alloc_capslots sys cap_demand supply s = .ok () ⟨manager, filled.returned⟩ ∧
          caps.length = cap_demand - s.manager.caps) ∨
        alloc_capslots sys cap_demand supply s = .err (.Generic .NoMem) filled ∧
          caps.length < cap_demand - s.manager.caps) := by
  have hsize : N % 2 ^ 8 ≤ N := Nat.mod_le ..
  have hsum : cap_demand + 3 < 2 ^ 8 := h.trans (Nat.mod_lt _ (by decide))
  unfold BufferManager.Room at hroom
  obtain ⟨caps, filled, hgrown, hend⟩ := fill_spec sys supply (cap_demand - s.manager.caps) 0 s
    (by omega)
  have hcaps := hgrown.caps_used
  refine ⟨caps, filled, hgrown, ?_, ?_⟩
  · unfold BufferManager.Room
    omega
  unfold alloc_capslots
  rw [Exec.bind_checked_of_some (if_pos hsum), if_neg (Nat.not_le.mpr h), Exec.bind_get]
  rcases hend with ⟨hfill, hlen⟩ | ⟨hfill, hlen⟩
  · rw [Exec.bind_of_ok hfill, Exec.bind_get]
    have hlt : filled.manager.caps < N := by omega
    obtain ⟨manager, hstore⟩ : ∃ manager, filled.manager.store 0 = some manager := ⟨_, if_pos hlt⟩
    refine Or.inl ⟨manager, hstore, ?_, hlen⟩
    rw [Exec.bind_checked_of_some hstore]
    rfl
  · rw [Exec.bind_of_err hfill]
    exact Or.inr ⟨rfl, hlen⟩

/-- What holds of the slots and of what the allocator returned, between any two
calls. -/
structure Kept (sys : RcvItems) (s : Ledger N) : Prop where
  items : s.manager.items = (s.taken sys).map (BufferManager.item sys sys.L4_RCV_ITEM_LOCAL_ID)
  rest : ∀ word ∈ s.manager.br.drop s.manager.caps, word = 0
  cap_flags : s.manager.cap_flags = sys.L4_RCV_ITEM_LOCAL_ID
  room : s.manager.Room

theorem Grown.kept {caps : List (BitVec 64)} (h : Grown sys caps s t) (hs : s.Kept sys)
    (ht : t.manager.Room) : t.Kept sys := by
  refine ⟨?_, ?_, h.cap_flags.trans hs.cap_flags, ht⟩
  · rw [h.items, hs.items, h.taken, hs.cap_flags, List.map_append]
  · intro word hword
    rw [h.rest, h.caps_used, ← List.drop_drop] at hword
    exact hs.rest word (List.mem_of_mem_drop hword)

/-- The terminator is written where a zero word already stands. -/
theorem Kept.store {manager : BufferManager N} (h : s.Kept sys) (hstore : s.manager.store 0 = some manager) :
    Kept sys ⟨manager, s.returned⟩ := by
  obtain ⟨hitems, hcaps, hflags⟩ := BufferManager.store_cases hstore
  refine ⟨hitems.trans h.items, ?_, hflags.trans h.cap_flags, ?_⟩
  · intro word hword
    unfold BufferManager.store at hstore
    split at hstore
    · cases hstore
      dsimp only at hword
      rw [List.drop_set, if_neg (Nat.lt_irrefl _)] at hword
      rcases List.mem_or_eq_of_mem_set hword with hold | rfl
      · exact h.rest word hold
      · rfl
    · cases hstore
  · have hroom := h.room
    unfold BufferManager.Room at hroom ⊢
    rw [hcaps]
    exact hroom

/-- The slots are those taken from the allocator, in order, and zero words follow
them. -/
structure Exact (sys : RcvItems) (s : Ledger N) : Prop where
  count : (s.taken sys).length = s.manager.caps_used
  slots : s.manager.br.take s.manager.caps_used =
    (s.taken sys).map (BufferManager.item sys sys.L4_RCV_ITEM_LOCAL_ID)
  rest : s.manager.br.drop s.manager.caps_used = List.replicate (N - s.manager.caps_used) 0

theorem Kept.exact (h : s.Kept sys) : s.Exact sys := by
  refine ⟨?_, h.items, ?_⟩
  · have hlen := congrArg List.length h.items
    rw [BufferManager.length_items, List.length_map] at hlen
    exact hlen.symm
  · rw [List.eq_replicate_iff, List.length_drop, s.manager.length_br]
    exact ⟨rfl, h.rest⟩

/-- The slots from before the call are still there. -/
def SlotsKept (s t : Ledger N) : Prop :=
  t.manager.br.take s.manager.caps_used = s.manager.br.take s.manager.caps_used

theorem slotsKept_of_items {words : List (BitVec 64)}
    (h : t.manager.items = s.manager.items ++ words) : SlotsKept s t := by
  have hlen : s.manager.items.length = s.manager.caps := BufferManager.length_items _
  have hle : s.manager.caps ≤ t.manager.caps := by
    have htotal := congrArg List.length h
    rw [BufferManager.length_items, List.length_append, hlen] at htotal
    omega
  calc t.manager.br.take s.manager.caps
      = t.manager.items.take s.manager.caps := by
        rw [BufferManager.items, List.take_take, Nat.min_eq_left hle]
    _ = s.manager.items := by rw [h, List.take_append_of_le_length hlen.ge, List.take_of_length_le hlen.le]

/-- What a call with the given demand leaves, with a property of the slots. -/
def After (P : Ledger N → Prop) (cap_demand : Nat) (s : Ledger N) :
    Outcome Error (Ledger N) Unit → Prop
  | .ok _ t => P t ∧ SlotsKept s t ∧ t.manager.caps_used = max s.manager.caps_used cap_demand
  | .err e t => P t ∧ SlotsKept s t ∧
    (e = demandTooLarge cap_demand ∧ t = s ∨
      e = .Generic .NoMem ∧ s.manager.caps_used ≤ t.manager.caps_used ∧
        t.manager.caps_used < cap_demand)
  | .abort => True

theorem After.mono {P Q : Ledger N → Prop} {cap_demand : Nat} {o : Outcome Error (Ledger N) Unit}
    (hPQ : ∀ t, P t → Q t) (h : After P cap_demand s o) : After Q cap_demand s o := by
  cases o with
  | ok _ t => exact ⟨hPQ t h.1, h.2⟩
  | err e t => exact ⟨hPQ t h.1, h.2⟩
  | abort => trivial

theorem alloc_capslots_after (cap_demand : Nat) (supply : Nat → BitVec 64) (h : s.Kept sys) :
    After (Kept sys) cap_demand s (alloc_capslots sys cap_demand supply s) := by
  by_cases hsum : cap_demand + 3 < 2 ^ 8
  · by_cases hfits : cap_demand + 3 < N % 2 ^ 8
    · obtain ⟨caps, filled, hgrown, hroom, hend⟩ := alloc_capslots_of_fits sys supply s hfits h.room
      have hfilled := hgrown.kept h hroom
      have hcaps := hgrown.caps_used
      rcases hend with ⟨manager, hstore, hok, hlen⟩ | ⟨herr, hlen⟩
      · obtain ⟨hitems, hcaps', _⟩ := BufferManager.store_cases hstore
        rw [hok]
        refine ⟨hfilled.store hstore, slotsKept_of_items (hitems.trans hgrown.items), ?_⟩
        unfold BufferManager.caps_used
        dsimp only
        omega
      · rw [herr]
        refine ⟨hfilled, slotsKept_of_items hgrown.items, Or.inr ⟨rfl, ?_⟩⟩
        unfold BufferManager.caps_used
        omega
    · rw [alloc_capslots_of_refused supply s hsum (Nat.not_lt.mp hfits)]
      exact ⟨h, rfl, Or.inl ⟨rfl, rfl⟩⟩
  · rw [alloc_capslots_of_overflow supply s hsum]
    trivial

/-- A new manager on which slots are allocated, whether a call succeeds or not. -/
def allocated (sys : RcvItems) (N : Nat) : Machine (Ledger N) BufferManager.Alloc where
  init s := s = ⟨BufferManager.new sys, []⟩
  allowed _ call := call.cap_demand < 2 ^ 8
  step s call :=
    match alloc_capslots sys call.cap_demand call.supply s with
    | .ok _ t | .err _ t => some t
    | .abort => none

instance (s : Ledger N) (call : BufferManager.Alloc) : Decidable ((allocated sys N).allowed s call) :=
  inferInstanceAs (Decidable (call.cap_demand < 2 ^ 8))

theorem new_kept (sys : RcvItems) : Kept sys (⟨BufferManager.new sys, []⟩ : Ledger N) := by
  refine ⟨rfl, ?_, rfl, Or.inl rfl⟩
  intro word hword
  exact List.eq_of_mem_replicate hword

theorem allocated_kept {past : List (Ledger N × BufferManager.Alloc)}
    (hrun : (allocated sys N).Run past s) : s.Kept sys := by
  refine hrun.invariant (P := Kept sys) ?_ ?_
  · rintro s rfl
    exact new_kept sys
  · intro s call t hs _ hstep
    have hafter := alloc_capslots_after call.cap_demand call.supply hs
    simp only [allocated] at hstep
    split at hstep
    · next hok =>
      rw [hok] at hafter
      cases hstep
      exact hafter.1
    · next herr =>
      rw [herr] at hafter
      cases hstep
      exact hafter.1
    · cases hstep

/-- Whatever the allocator does, in every state the slots are exactly what was
taken from it, and every call that returns keeps them and extends them up to its
demand, leaves them alone, or runs out of capabilities on the way. -/
theorem slots_incremental (sys : RcvItems) (N : Nat) (past : List (Ledger N × BufferManager.Alloc))
    (s : Ledger N) (hrun : (allocated sys N).Run past s) :
    s.Exact sys ∧ ∀ (cap_demand : Nat) (supply : Nat → BitVec 64), cap_demand < 2 ^ 8 →
      BufferManager.alloc_capslots sys cap_demand supply s.manager =
          (alloc_capslots sys cap_demand supply s).mapState manager ∧
        After (Exact sys) cap_demand s (alloc_capslots sys cap_demand supply s) := by
  have hkept := allocated_kept hrun
  refine ⟨hkept.exact, fun cap_demand supply _ => ⟨(alloc_capslots_mapState ..).symm, ?_⟩⟩
  exact (alloc_capslots_after cap_demand supply hkept).mono fun t ht => ht.exact

/-- The allocator gives one capability for the first demand and then none. The
second demand is smaller. -/
private def refusedOnce : List BufferManager.Alloc :=
  [⟨3, fun k => if k = 0 then 0x1000 else 0x800⟩, ⟨2, fun _ => 0x2000⟩]

/-- After a refusal the slot that was obtained stays, and the next call adds one. -/
theorem slots_incremental_refused :
    ∃ past s, (allocated RcvItems.l4re 8).Run past s ∧ past.map Prod.snd = refusedOnce ∧
      s.returned = [0x1000, 0x800, 0x2000] ∧ s.manager.br = [0x100e, 0x200e, 0, 0, 0, 0, 0, 0] ∧
      s.Exact RcvItems.l4re := by
  obtain ⟨past, s, hrun, hcalls, _, hend⟩ := Machine.exists_run_of_reaches
    (M := allocated RcvItems.l4re 8) (.start rfl) (fun _ _ => true)
    (fun s => s.returned = [0x1000, 0x800, 0x2000] ∧
      s.manager.br = [0x100e, 0x200e, 0, 0, 0, 0, 0, 0])
    refusedOnce (by decide +kernel)
  rw [decide_eq_true_eq] at hend
  exact ⟨past, s, hrun, hcalls, hend.1, hend.2, (slots_incremental _ _ past s hrun).1⟩

end Ledger

end l4.ipc
