import Mathlib
import L4Rust.Library.Machine
import L4Rust.VirtioFrontend.Queue

open virtio_frontend.queue

namespace virtio_frontend

/-- The C interface to the queue tells success and failure apart, no more. -/
def ffi.virtio_queue_add (queue : VirtQueue) (descs : List VirtqDesc) : Int × VirtQueue :=
  match queue.add descs with
  | (.ok _, queue) => (0, queue)
  | (.error _, queue) => (-1, queue)

/-- An entry of the available ring: the slot it was published in and the chain that
was passed to `add`. -/
structure Request where
  slot : Nat
  chain : List VirtqDesc
  deriving DecidableEq, Repr

/-- The queue and the entries that are published and not yet used. -/
structure System where
  queue : VirtQueue
  outstanding : List Request

/-- The driver adds a chain, or the device makes progress. -/
inductive Event where
  | add (chain : List VirtqDesc)
  | use (elem : VirtqUsedElem)
  deriving DecidableEq, Repr

def Event.run (s : System) : Event → Option System
  | .add chain =>
    match s.queue.add chain with
    | (.ok slot, queue) => some ⟨queue, s.outstanding ++ [⟨slot.toNat, chain⟩]⟩
    | (.error _, queue) => some ⟨queue, s.outstanding⟩
  | .use elem => some ⟨s.queue.use elem, s.outstanding.tail⟩

/-- The device does not get ahead of the driver. -/
def Event.Allowed (s : System) : Event → Prop
  | .add _ => True
  | .use _ => s.queue.used.idx ≠ s.queue.avail.idx

instance (s : System) (event : Event) : Decidable (event.Allowed s) :=
  match event with
  | .add _ => inferInstanceAs (Decidable True)
  | .use _ => inferInstanceAs (Decidable (s.queue.used.idx ≠ s.queue.avail.idx))

/-- The driver and the device at work. -/
def system : Machine System Event where
  init s := s = ⟨.new, []⟩
  allowed := Event.Allowed
  step := Event.run

instance (s : System) (event : Event) : Decidable (system.allowed s event) :=
  inferInstanceAs (Decidable (event.Allowed s))

/-- The descriptor an outstanding request starts at. -/
def System.head (s : System) (r : Request) : Option Nat :=
  s.queue.avail.ring[r.slot]?.map UInt16.toNat

/-- The descriptors that no outstanding request needs. -/
def System.room (s : System) : Nat := QUEUE_SIZE - (s.outstanding.map fun r => r.chain.length).sum

/-- The chain of an outstanding request can be read from the table where its entry
says. -/
def System.Readable (s : System) (r : Request) : Prop :=
  ∃ head, s.head r = some head ∧ ∀ i d, r.chain[i]? = some d → s.queue.desc[head + i]? = some d

/-- No descriptor belongs to both requests. -/
def System.Disjoint (s : System) (r q : Request) : Prop :=
  ∀ a b, s.head r = some a → s.head q = some b →
    ∀ i j, i < r.chain.length → j < q.chain.length → a + i ≠ b + j

/-- No outstanding request has been touched. -/
structure Intact (s : System) : Prop where
  readable : ∀ r ∈ s.outstanding, s.Readable r
  disjoint : s.outstanding.Pairwise s.Disjoint

/-- A chain for which there is no room is refused. -/
def Refuses (s : System) (chain : List VirtqDesc) : Prop :=
  s.room < chain.length → s.queue.add chain = (.error (), s.queue)

/-- The driver adds a chain only when the device has used all others. -/
def Event.Patient (s : System) : Event → Prop
  | .add _ => s.queue.used.idx = s.queue.avail.idx
  | .use _ => True

instance (s : System) (event : Event) : Decidable (event.Patient s) :=
  match event with
  | .add _ => inferInstanceAs (Decidable (s.queue.used.idx = s.queue.avail.idx))
  | .use _ => inferInstanceAs (Decidable True)

/-- The chain an event passes to `add`, if it fits the table. -/
def Event.accepted : Event → Option (List VirtqDesc)
  | .add chain => if QUEUE_SIZE < chain.length then none else some chain
  | .use _ => none

def accepted (past : List (System × Event)) : List (List VirtqDesc) :=
  (past.map Prod.snd).filterMap Event.accepted

/-- The descriptor at an index of the last of the chains that is long enough. -/
def last_at (chains : List (List VirtqDesc)) (i : Nat) : Option VirtqDesc :=
  chains.foldl (fun last chain => chain[i]?.or last) none

theorem last_at_concat (chains : List (List VirtqDesc)) (chain : List VirtqDesc) (i : Nat) :
    last_at (chains ++ [chain]) i = chain[i]?.or (last_at chains i) := by
  simp [last_at]

variable {s t : System} {chain : List VirtqDesc}

/-- A chain is refused exactly when it is longer than the table. -/
theorem add_refuses_iff (queue : VirtQueue) (chain : List VirtqDesc) :
    (queue.add chain = (.error (), queue) ↔ QUEUE_SIZE < chain.length) ∧
      ((ffi.virtio_queue_add queue chain).1 = -1 ↔ QUEUE_SIZE < chain.length) := by
  unfold ffi.virtio_queue_add VirtQueue.add
  by_cases hlong : QUEUE_SIZE < chain.length
  · simp [hlong]
  · simp [hlong]

/-- What an event does. -/
theorem Event.run_cases {event : Event} (h : event.run s = some t) :
    (∃ chain, event = .add chain ∧ QUEUE_SIZE < chain.length ∧ t = s) ∨
      (∃ chain, event = .add chain ∧ ¬ QUEUE_SIZE < chain.length ∧
        t.queue.desc = copy_chain s.queue.desc 0 chain ∧
        t.queue.avail.ring = s.queue.avail.ring.setIfInBounds (s.queue.avail.idx.toNat % QUEUE_SIZE) 0 ∧
        t.queue.avail.idx = s.queue.avail.idx + 1 ∧ t.queue.used = s.queue.used ∧
        t.outstanding = s.outstanding ++ [⟨s.queue.avail.idx.toNat % QUEUE_SIZE, chain⟩]) ∨
      ∃ elem, event = .use elem ∧ t = ⟨s.queue.use elem, s.outstanding.tail⟩ := by
  cases event with
  | add chain =>
    unfold Event.run VirtQueue.add at h
    by_cases hlong : QUEUE_SIZE < chain.length
    · simp only [if_pos hlong, Option.some.injEq] at h
      exact Or.inl ⟨chain, rfl, hlong, h.symm⟩
    · simp only [if_neg hlong, Option.some.injEq] at h
      subst h
      refine Or.inr (Or.inl ⟨chain, rfl, hlong, rfl, rfl, rfl, rfl, ?_⟩)
      have hslot : s.queue.avail.idx.toNat % QUEUE_SIZE < 2 ^ 16 :=
        Nat.lt_trans (Nat.mod_lt _ (by decide : 0 < QUEUE_SIZE)) (by decide)
      rw [UInt16.toNat_ofNat_of_lt' hslot]
  | use elem =>
    cases h
    exact Or.inr (Or.inr ⟨elem, rfl, rfl⟩)

/-- All published entries name index 0, and the indices count the outstanding ones
as far as 16 bits can. -/
structure Books (s : System) : Prop where
  ring : s.queue.avail.ring = .replicate QUEUE_SIZE 0
  slot : ∀ r ∈ s.outstanding, r.slot < QUEUE_SIZE
  count : s.queue.avail.idx = s.queue.used.idx + .ofNat s.outstanding.length

theorem Event.run_books {event : Event} (hbooks : Books s) (hevent : event.Allowed s)
    (h : event.run s = some t) : Books t := by
  rcases Event.run_cases h with ⟨chain, _, _, rfl⟩ |
    ⟨chain, _, _, _, hring, hidx, hused, houtstanding⟩ | ⟨elem, rfl, rfl⟩
  · exact hbooks
  · refine ⟨?_, ?_, ?_⟩
    · rw [hring, hbooks.ring]
      ext i hi
      simp
    · rw [houtstanding]
      intro r hr
      rcases List.mem_append.mp hr with hr | hr
      · exact hbooks.slot r hr
      · rw [List.mem_singleton.mp hr]
        exact Nat.mod_lt _ (by decide)
    · rw [hidx, hused, houtstanding, hbooks.count, List.length_append, List.length_singleton,
        UInt16.ofNat_add, UInt16.add_assoc]
      rfl
  · cases hlist : s.outstanding with
    | nil =>
      have hcount := hbooks.count
      rw [hlist] at hcount
      exact absurd (by simpa using hcount.symm) hevent
    | cons r rest =>
      have hcount := hbooks.count
      have hslot := hbooks.slot
      rw [hlist] at hcount hslot
      refine ⟨hbooks.ring, ?_, ?_⟩
      · intro q hq
        exact hslot q (List.mem_cons_of_mem _ hq)
      · simp only [VirtQueue.use]
        rw [hcount, List.length_cons, UInt16.ofNat_add, UInt16.add_assoc, UInt16.add_comm (.ofNat _)]
        rfl

theorem books_of_run {past : List (System × Event)} (hrun : system.Run past s) : Books s := by
  refine hrun.invariant ?_ ?_
  · rintro s rfl
    exact ⟨rfl, nofun, rfl⟩
  · intro s event t hbooks hevent h
    exact Event.run_books hbooks hevent h

theorem Books.head {r : Request} (h : Books s) (hr : r ∈ s.outstanding) : s.head r = some 0 := by
  unfold System.head
  rw [h.ring, Vector.getElem?_replicate, if_pos (h.slot r hr)]
  rfl

/-- The table holds what the accepted chains wrote last. -/
theorem desc_of_run {past : List (System × Event)} (hrun : system.Run past s) {i : Nat}
    (hi : i < QUEUE_SIZE) :
    s.queue.desc[i]? = (last_at (accepted past) i).or (some ⟨0, 0, 0, 0⟩) := by
  induction hrun with
  | start hinit =>
    subst hinit
    simp [VirtQueue.new, accepted, last_at, hi]
  | @call past s t event hrun hevent h ih =>
    have hpast : accepted (past ++ [(s, event)]) = accepted past ++ event.accepted.toList := by
      unfold accepted
      rw [List.map_append, List.filterMap_append]
      cases haccepted : event.accepted <;> simp [haccepted]
    rcases Event.run_cases h with ⟨chain, rfl, hlong, rfl⟩ |
      ⟨chain, rfl, hfits, hdesc, _⟩ | ⟨elem, rfl, rfl⟩
    · have hnone : (Event.add chain).accepted = none := if_pos hlong
      rw [hpast, hnone, Option.toList_none, List.append_nil]
      exact ih
    · have hsome : (Event.add chain).accepted = some chain := if_neg hfits
      rw [hpast, hsome, Option.toList_some, last_at_concat, hdesc,
        copy_chain_getElem? _ _ _ hi, if_neg (Nat.not_lt_zero i), Nat.sub_zero, ih, Option.or_assoc]
    · rw [hpast, Event.accepted, Option.toList_none, List.append_nil]
      exact ih

/-- Equal indices tell that nothing is outstanding as long as it is at most one
request. -/
theorem idle_of_patient (hbooks : Books s)
    (hone : s.outstanding = [] ∨ ∃ r, s.outstanding = [r] ∧ s.Readable r)
    (hidx : s.queue.used.idx = s.queue.avail.idx) : s.outstanding = [] := by
  rcases hone with hnil | ⟨r, hr, _⟩
  · exact hnil
  · have hcount := hbooks.count
    rw [hr, ← hidx] at hcount
    simp at hcount

/-- A patient driver has at most one outstanding request, and that one is in the
table. -/
theorem outstanding_of_patient {past : List (System × Event)} (hrun : system.Run past s)
    (hpatient : ∀ p ∈ past, p.2.Patient p.1) :
    s.outstanding = [] ∨ ∃ r, s.outstanding = [r] ∧ s.Readable r := by
  induction hrun with
  | start hinit =>
    subst hinit
    exact Or.inl rfl
  | @call past s t event hrun hevent h ih =>
    obtain ⟨hbefore, hnow⟩ := List.forall_mem_append.mp hpatient
    have hnow := hnow _ (List.mem_singleton_self _)
    have hbooks := books_of_run hrun
    have hone := ih hbefore
    have hbooks' := books_of_run (hrun.call hevent h)
    rcases Event.run_cases h with ⟨chain, _, _, rfl⟩ |
      ⟨chain, rfl, hfits, hdesc, _, _, _, houtstanding⟩ | ⟨elem, rfl, rfl⟩
    · exact hone
    · have hidle : s.outstanding = [] := idle_of_patient hbooks hone hnow
      rw [hidle, List.nil_append] at houtstanding
      refine Or.inr ⟨_, houtstanding, 0, hbooks'.head (by rw [houtstanding]; exact List.mem_singleton_self _), ?_⟩
      intro i d hd
      have hlt : i < chain.length := (List.getElem?_eq_some_iff.mp hd).1
      rw [hdesc, Nat.zero_add, copy_chain_getElem? _ _ _ (by omega), if_neg (Nat.not_lt_zero i),
        Nat.sub_zero]
      dsimp only at hd
      rw [hd, Option.some_or]
    · left
      rcases hone with hnil | ⟨r, hr, _⟩
      · simp [hnil]
      · simp [hr]

/-- What the queue keeps in any run: every outstanding entry names index 0, and the
table holds what the accepted chains wrote last. A chain is refused exactly when it
is longer than the table. A patient driver finds its request intact, and every chain
refused for which there is no room. -/
theorem requests_in_queue (past : List (System × Event)) (s : System) (hrun : system.Run past s) :
    (∀ r ∈ s.outstanding, s.head r = some 0) ∧
      (∀ i, i < QUEUE_SIZE → s.queue.desc[i]? = (last_at (accepted past) i).or (some ⟨0, 0, 0, 0⟩)) ∧
      (∀ chain, s.queue.add chain = (.error (), s.queue) ↔ QUEUE_SIZE < chain.length) ∧
      ((∀ p ∈ past, p.2.Patient p.1) →
        Intact s ∧ ∀ chain, (Event.add chain).Patient s → Refuses s chain) := by
  have hbooks := books_of_run hrun
  refine ⟨fun r hr => hbooks.head hr, fun i hi => desc_of_run hrun hi,
    fun chain => (add_refuses_iff s.queue chain).1, ?_⟩
  intro hpatient
  have hone := outstanding_of_patient hrun hpatient
  refine ⟨?_, ?_⟩
  · rcases hone with hnil | ⟨r, hr, hreadable⟩
    · exact ⟨by simp [hnil], by simp [hnil]⟩
    · exact ⟨by simpa [hr] using hreadable, by simp [hr]⟩
  · intro chain hnow hroom
    have hidle : s.outstanding = [] := idle_of_patient hbooks hone hnow
    apply (add_refuses_iff s.queue chain).1.mpr
    rw [System.room, hidle] at hroom
    exact hroom

def readChain : List VirtqDesc := [⟨0x1000, 16, 2, 1⟩, ⟨0x2000, 512, 3, 0⟩]

def writeChain : List VirtqDesc := [⟨0x3000, 16, 2, 1⟩, ⟨0x4000, 64, 0, 0⟩]

/-- A chain is added when the one before has been used: only the second one is outstanding, and it is intact. -/
theorem requests_in_queue_patient :
    ∃ past s, system.Run past s ∧
      past.map Prod.snd = [.add readChain, .use ⟨0, 512⟩, .add writeChain] ∧
      s.outstanding = [⟨1, writeChain⟩] ∧ Intact s := by
  obtain ⟨past, s, hrun, hcalls, hpatient, hend⟩ := Machine.exists_run_of_reaches
    (M := system) (.start rfl) (fun s event => event.Patient s)
    (fun s => s.outstanding = [⟨1, writeChain⟩])
    [.add readChain, .use ⟨0, 512⟩, .add writeChain] (by decide +kernel)
  rw [decide_eq_true_eq] at hend
  have hintact := (requests_in_queue past s hrun).2.2.2 fun p hp => of_decide_eq_true (hpatient p hp)
  exact ⟨past, s, hrun, hcalls, hend, hintact.1⟩

/-- The second chain is written over the first while the device may still read it,
and both are at index 0. -/
theorem requests_in_queue_clobbered :
    ∃ past s, system.Run past s ∧ past.map Prod.snd = [.add readChain, .add writeChain] ∧
      s.outstanding = [⟨0, readChain⟩, ⟨1, writeChain⟩] ∧ ¬ Intact s := by
  obtain ⟨past, s, hrun, hcalls, _, hend⟩ := Machine.exists_run_of_reaches
    (M := system) (.start rfl) (fun _ _ => true)
    (fun s => s.outstanding = [⟨0, readChain⟩, ⟨1, writeChain⟩] ∧
      s.head ⟨0, readChain⟩ = some 0 ∧ s.queue.desc[0]? = some ⟨0x3000, 16, 2, 1⟩)
    [.add readChain, .add writeChain] (by decide +kernel)
  rw [decide_eq_true_eq] at hend
  obtain ⟨houtstanding, hhead, hdesc⟩ := hend
  refine ⟨past, s, hrun, hcalls, houtstanding, ?_⟩
  intro hintact
  obtain ⟨head, hhead', hread⟩ := hintact.readable ⟨0, readChain⟩ (by simp [houtstanding])
  obtain rfl := Option.some.inj (hhead.symm.trans hhead')
  have hfirst := hread 0 ⟨0x1000, 16, 2, 1⟩ rfl
  rw [hdesc] at hfirst
  exact absurd hfirst (by decide)

end virtio_frontend
