import L4Rust.L4.Ipc.Slots

open l4.error

namespace l4.ipc.BufferManager

variable {N : Nat}

/-- The calls that change a manager. -/
inductive SlotCall where
  | alloc_capslots (cap_demand : Nat) (supply : Nat → BitVec 64)
  | set_rcv_cap_flags (flags : BitVec 64)

def SlotCall.exec (sys : RcvItems) : SlotCall → Exec Error (BufferManager N) Unit
  | .alloc_capslots cap_demand supply => BufferManager.alloc_capslots sys cap_demand supply
  | .set_rcv_cap_flags flags => BufferManager.set_rcv_cap_flags flags

/-- The demand is a `u8`. -/
def SlotCall.Typed : SlotCall → Prop
  | .alloc_capslots cap_demand _ => cap_demand < 2 ^ 8
  | .set_rcv_cap_flags _ => True

instance (call : SlotCall) : Decidable call.Typed :=
  match call with
  | .alloc_capslots cap_demand _ => inferInstanceAs (Decidable (cap_demand < 2 ^ 8))
  | .set_rcv_cap_flags _ => inferInstanceAs (Decidable True)

/-- A manager in use, whether its calls succeed or not. -/
def managed (sys : RcvItems) (N : Nat) : Machine (BufferManager N) SlotCall where
  init s := s = new sys
  allowed _ call := call.Typed
  step s call :=
    match call.exec sys s with
    | .ok _ t | .err _ t => some t
    | .abort => none

instance (sys : RcvItems) (s : BufferManager N) (call : SlotCall) :
    Decidable ((managed sys N).allowed s call) :=
  inferInstanceAs (Decidable call.Typed)

variable {sys : RcvItems} {s t : BufferManager N} {past : List (BufferManager N × SlotCall)}

/-- An allocation overflows, is refused, or ends with the flags as they were. -/
theorem alloc_capslots_cases (sys : RcvItems) (cap_demand : Nat) (supply : Nat → BitVec 64) (hroom : s.Room) :
    (¬ cap_demand + 3 < 2 ^ 8 ∧ alloc_capslots sys cap_demand supply s = .abort) ∨
      (cap_demand + 3 < 2 ^ 8 ∧ N % 2 ^ 8 ≤ cap_demand + 3 ∧
        alloc_capslots sys cap_demand supply s = .err (Ledger.demandTooLarge cap_demand) s) ∨
      (cap_demand + 3 < N % 2 ^ 8 ∧ ∃ t, t.Room ∧ t.cap_flags = s.cap_flags ∧
        (alloc_capslots sys cap_demand supply s = .ok () t ∨
          alloc_capslots sys cap_demand supply s = .err (.Generic .NoMem) t)) := by
  rw [← Ledger.alloc_capslots_mapState cap_demand supply ⟨s, []⟩]
  by_cases hsum : cap_demand + 3 < 2 ^ 8
  · by_cases hfits : cap_demand + 3 < N % 2 ^ 8
    · obtain ⟨caps, filled, hgrown, hfilled, hend⟩ :=
        Ledger.alloc_capslots_of_fits sys supply ⟨s, []⟩ hfits hroom
      refine Or.inr (Or.inr ⟨hfits, ?_⟩)
      rcases hend with ⟨manager, hstore, hok, _⟩ | ⟨herr, _⟩
      · obtain ⟨_, hcaps, hflags⟩ := store_cases hstore
        refine ⟨manager, ?_, hflags.trans hgrown.cap_flags, Or.inl ?_⟩
        · unfold Room at hfilled ⊢
          rw [hcaps]
          exact hfilled
        · rw [hok]
          rfl
      · refine ⟨filled.manager, hfilled, hgrown.cap_flags, Or.inr ?_⟩
        rw [herr]
        rfl
    · have hle : N % 2 ^ 8 ≤ cap_demand + 3 := Nat.not_lt.mp hfits
      rw [Ledger.alloc_capslots_of_refused supply ⟨s, []⟩ hsum hle]
      exact Or.inr (Or.inl ⟨hsum, hle, rfl⟩)
  · rw [Ledger.alloc_capslots_of_overflow supply ⟨s, []⟩ hsum]
    exact Or.inl ⟨hsum, rfl⟩

theorem set_rcv_cap_flags_cases (flags : BitVec 64) (s : BufferManager N) :
    (s.cap_flags = 0 ∧ set_rcv_cap_flags flags s = .ok () { s with cap_flags := flags }) ∨
      (s.cap_flags ≠ 0 ∧ ∃ e, set_rcv_cap_flags flags s = .err e s) := by
  unfold set_rcv_cap_flags
  rw [Exec.bind_get]
  by_cases hflags : s.cap_flags = 0
  · rw [if_pos hflags]
    exact Or.inl ⟨hflags, rfl⟩
  · rw [if_neg hflags]
    exact Or.inr ⟨hflags, _, rfl⟩

/-- What a call leaves, whether it succeeds or not. -/
theorem SlotCall.step_cases {call : SlotCall} (hroom : s.Room)
    (hstep : (managed sys N).step s call = some t) :
    t.Room ∧ (t.cap_flags = s.cap_flags ∨ s.cap_flags = 0) := by
  cases call with
  | alloc_capslots cap_demand supply =>
    simp only [managed, SlotCall.exec] at hstep
    rcases alloc_capslots_cases sys cap_demand supply hroom with
      ⟨_, habort⟩ | ⟨_, _, herr⟩ | ⟨_, t', hroom', hflags, hok | herr⟩
    · rw [habort] at hstep
      cases hstep
    · rw [herr] at hstep
      cases hstep
      exact ⟨hroom, Or.inl rfl⟩
    · rw [hok] at hstep
      cases hstep
      exact ⟨hroom', Or.inl hflags⟩
    · rw [herr] at hstep
      cases hstep
      exact ⟨hroom', Or.inl hflags⟩
  | set_rcv_cap_flags flags =>
    simp only [managed, SlotCall.exec] at hstep
    rcases set_rcv_cap_flags_cases flags s with ⟨hzero, hok⟩ | ⟨_, e, herr⟩
    · rw [hok] at hstep
      cases hstep
      exact ⟨hroom, Or.inr hzero⟩
    · rw [herr] at hstep
      cases hstep
      exact ⟨hroom, Or.inl rfl⟩

theorem managed_room (hrun : (managed sys N).Run past s) : s.Room := by
  refine hrun.invariant (P := Room) ?_ ?_
  · rintro s rfl
    exact Or.inl rfl
  · intro s call t hs _ hstep
    exact (SlotCall.step_cases hs hstep).1

/-- The call returns `InvalidArg` exactly for a demand that leaves no room for three
more words, and ends for every other demand. -/
def DemandExact (sys : RcvItems) (cap_demand : Nat) (supply : Nat → BitVec 64) (s : BufferManager N) :
    Prop :=
  ((∃ msg arg t, alloc_capslots sys cap_demand supply s = .err (.InvalidArg msg arg) t) ↔
      N ≤ cap_demand + 3) ∧
    (cap_demand + 3 < N → alloc_capslots sys cap_demand supply s ≠ .abort)

theorem demandExact_of_fits {cap_demand : Nat} {supply : Nat → BitVec 64}
    (hlt : cap_demand + 3 < N % 2 ^ 8)
    (hend : alloc_capslots sys cap_demand supply s = .ok () t ∨
      alloc_capslots sys cap_demand supply s = .err (.Generic .NoMem) t) :
    DemandExact sys cap_demand supply s := by
  have hfits : ¬ N ≤ cap_demand + 3 := Nat.not_le.mpr (hlt.trans_le (Nat.mod_le ..))
  rcases hend with hok | herr
  · rw [DemandExact, hok]
    exact ⟨iff_of_false nofun hfits, nofun⟩
  · rw [DemandExact, herr]
    exact ⟨iff_of_false nofun hfits, nofun⟩

/-- In every state the bound on the demand is exact where neither side of the
comparison is cut off: the sum is a byte, and so is the size of the array, unless
what is left of it still exceeds the sum. -/
theorem demand_bound_iff (sys : RcvItems) (N : Nat) (past : List (BufferManager N × SlotCall))
    (s : BufferManager N) (hrun : (managed sys N).Run past s) (cap_demand : Nat)
    (hdemand : cap_demand < 2 ^ 8) (supply : Nat → BitVec 64) :
    DemandExact sys cap_demand supply s ↔
      cap_demand + 3 < 2 ^ 8 ∧ (N < 2 ^ 8 ∨ cap_demand + 3 < N % 2 ^ 8) := by
  have hsize : N % 2 ^ 8 ≤ N := Nat.mod_le ..
  rcases alloc_capslots_cases sys cap_demand supply (managed_room hrun) with
    ⟨hsum, habort⟩ | ⟨hsum, hle, herr⟩ | ⟨hlt, t, _, _, hend⟩
  · rw [DemandExact, habort]
    simp only [reduceCtorEq, exists_false, false_iff, ne_eq, not_true_eq_false, imp_false]
    omega
  · rw [DemandExact, herr]
    have hinvalid : ∃ msg arg t, Outcome.err (α := Unit) (Ledger.demandTooLarge cap_demand) s =
        .err (.InvalidArg msg arg) t := ⟨_, _, _, rfl⟩
    simp only [hinvalid, true_iff, ne_eq, reduceCtorEq, not_false_eq_true, implies_true, and_true]
    constructor
    · intro hN
      exact ⟨hsum, Or.inl (by omega)⟩
    · rintro ⟨_, hN | hlt⟩
      · rwa [Nat.mod_eq_of_lt hN] at hle
      · omega
  · have hsum : cap_demand + 3 < 2 ^ 8 := hlt.trans (Nat.mod_lt _ (by decide))
    exact iff_of_true (demandExact_of_fits hlt hend) ⟨hsum, Or.inr hlt⟩

/-- One slot too many for an array of eight. -/
theorem demand_bound_five_of_eight :
    DemandExact RcvItems.l4re 5 (fun _ => 0x1000) (new RcvItems.l4re : BufferManager 8) :=
  (demand_bound_iff RcvItems.l4re 8 [] _ (.start rfl) 5 (by decide) _).mpr (by decide)

/-- The sum of 253 and 3 is not a byte, and of an array of 300 words the check sees
44. -/
theorem demand_bound_fails :
    (∃ past s, (managed RcvItems.l4re 58).Run past s ∧
        alloc_capslots RcvItems.l4re 253 (fun _ => 0x1000) s = .abort ∧
        ¬ DemandExact RcvItems.l4re 253 (fun _ => 0x1000) s) ∧
      ∃ past s, (managed RcvItems.l4re 300).Run past s ∧
        alloc_capslots RcvItems.l4re 50 (fun _ => 0x1000) s = .err (Ledger.demandTooLarge 50) s ∧
        ¬ DemandExact RcvItems.l4re 50 (fun _ => 0x1000) s := by
  refine ⟨⟨[], _, .start rfl, rfl, ?_⟩, ⟨[], _, .start rfl, rfl, ?_⟩⟩
  · rintro ⟨hinvalid, _⟩
    obtain ⟨msg, arg, t, h⟩ := hinvalid.mpr (by decide)
    cases h
  · rintro ⟨hinvalid, _⟩
    have hle : 300 ≤ 50 + 3 := hinvalid.mp ⟨_, _, _, rfl⟩
    exact absurd hle (by decide)

/-- The flags of a new manager are not zero, and so they never change. -/
theorem managed_cap_flags (hlocal : sys.L4_RCV_ITEM_LOCAL_ID ≠ 0) (hrun : (managed sys N).Run past s) :
    s.cap_flags = sys.L4_RCV_ITEM_LOCAL_ID := by
  have hboth : s.Room ∧ s.cap_flags = sys.L4_RCV_ITEM_LOCAL_ID := by
    refine hrun.invariant (P := fun s => s.Room ∧ s.cap_flags = sys.L4_RCV_ITEM_LOCAL_ID) ?_ ?_
    · rintro s rfl
      exact ⟨Or.inl rfl, rfl⟩
    · rintro s call t ⟨hroom, hflags⟩ _ hstep
      obtain ⟨hroom', hsame | hzero⟩ := SlotCall.step_cases hroom hstep
      · exact ⟨hroom', hsame.trans hflags⟩
      · exact (hlocal (hflags.symm.trans hzero)).elim
  exact hboth.2

/-- The call succeeds exactly while no slot is allocated, and changes nothing when
it fails. -/
def FlagsAnswer (flags : BitVec 64) (s : BufferManager N) : Prop :=
  ((∃ t, set_rcv_cap_flags flags s = .ok () t) ↔ s.caps_used = 0) ∧
    ∀ e t, set_rcv_cap_flags flags s = .err e t → t = s

/-- Every call of the run is answered like that, and after a success all slots
allocated up to now carry the flags. -/
def FlagsSettable (sys : RcvItems) (past : List (BufferManager N × SlotCall)) (s : BufferManager N) :
    Prop :=
  ∀ before at' flags after, past = before ++ (at', .set_rcv_cap_flags flags) :: after →
    FlagsAnswer flags at' ∧
      ∀ t, set_rcv_cap_flags flags at' = .ok () t →
        ∀ i, at'.caps_used ≤ i → i < s.caps_used → ∃ cap, s.br[i]? = some (item sys flags cap)

theorem set_rcv_cap_flags_fails {flags : BitVec 64} (h : s.cap_flags ≠ 0) :
    ¬ ∃ t, set_rcv_cap_flags flags s = .ok () t := by
  rintro ⟨t, ht⟩
  rcases set_rcv_cap_flags_cases flags s with ⟨hzero, _⟩ | ⟨_, e, herr⟩
  · exact h hzero
  · rw [herr] at ht
    cases ht

theorem flagsAnswer_iff {flags : BitVec 64} (h : s.cap_flags ≠ 0) :
    FlagsAnswer flags s ↔ s.caps_used ≠ 0 := by
  unfold FlagsAnswer
  rw [iff_false_left (set_rcv_cap_flags_fails h), and_iff_left]
  intro e t ht
  rcases set_rcv_cap_flags_cases flags s with ⟨hzero, _⟩ | ⟨_, e', herr⟩
  · exact (h hzero).elim
  · rw [herr] at ht
    cases ht
    rfl

/-- The manager tests its flags, which are set from the start, instead of the
number of its slots. So the flags can be set as documented only in runs that try
it too late. -/
theorem flags_settable_iff (sys : RcvItems) (hlocal : sys.L4_RCV_ITEM_LOCAL_ID ≠ 0) (N : Nat)
    (past : List (BufferManager N × SlotCall)) (s : BufferManager N)
    (hrun : (managed sys N).Run past s) :
    FlagsSettable sys past s ↔
      ∀ p ∈ past, ∀ flags, p.2 = .set_rcv_cap_flags flags → p.1.caps_used ≠ 0 := by
  have hflags (before after : List (BufferManager N × SlotCall)) (p : BufferManager N × SlotCall)
      (hsplit : past = before ++ p :: after) : p.1.cap_flags ≠ 0 := by
    rw [managed_cap_flags hlocal (hrun.throughout.2 before p after hsplit)]
    exact hlocal
  constructor
  · rintro h ⟨at', call⟩ hp flags rfl
    obtain ⟨before, after, hsplit⟩ := List.append_of_mem hp
    exact (flagsAnswer_iff (hflags before after _ hsplit)).mp (h before at' flags after hsplit).1
  · intro h before at' flags after hsplit
    have hne := hflags before after _ hsplit
    have hmem : (at', SlotCall.set_rcv_cap_flags flags) ∈ past := by
      rw [hsplit]
      exact List.mem_append_right _ (List.mem_cons_self ..)
    refine ⟨(flagsAnswer_iff hne).mpr (h _ hmem flags rfl), ?_⟩
    intro t ht
    exact (set_rcv_cap_flags_fails hne ⟨t, ht⟩).elim

/-- The flags are refused after the first slot. -/
theorem flags_settable_late :
    ∃ past s, (managed RcvItems.l4re 8).Run past s ∧
      past.map Prod.snd = [.alloc_capslots 1 fun _ => 0x1000, .set_rcv_cap_flags 2] ∧
      FlagsSettable RcvItems.l4re past s := by
  obtain ⟨past, s, hrun, hcalls, hused, _⟩ := Machine.exists_run_of_reaches
    (M := managed RcvItems.l4re 8) (.start rfl)
    (fun s call => match call with
      | .alloc_capslots .. => true
      | .set_rcv_cap_flags _ => s.caps_used ≠ 0)
    (fun _ => true) [.alloc_capslots 1 fun _ => 0x1000, .set_rcv_cap_flags 2] (by decide +kernel)
  refine ⟨past, s, hrun, hcalls, (flags_settable_iff _ (by decide) 8 past s hrun).mpr ?_⟩
  intro p hp flags hcall
  have h := hused p hp
  rw [hcall] at h
  exact of_decide_eq_true h

/-- A new manager has no slots, and refuses to set its flags. -/
theorem flags_settable_fails :
    ∃ past s, (managed RcvItems.l4re 8).Run past s ∧ past.map Prod.snd = [.set_rcv_cap_flags 2] ∧
      ¬ FlagsSettable RcvItems.l4re past s := by
  refine ⟨[(new RcvItems.l4re, .set_rcv_cap_flags 2)], new RcvItems.l4re, ?_, rfl, ?_⟩
  · exact .call (.start rfl) trivial rfl
  · intro h
    obtain ⟨hanswer, _⟩ := h [] (new RcvItems.l4re) 2 [] rfl
    obtain ⟨t, ht⟩ := hanswer.1.mpr rfl
    cases ht

end l4.ipc.BufferManager
