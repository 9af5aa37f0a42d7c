import L4Rust.L4.Scheduler.Autosar.Queue

namespace l4.scheduler.autosar.AutosarScheduler

variable {search : BinarySearch Nat} {s t : AutosarScheduler} {task mutex : Nat}

theorem mem_insert_owned {m mutex : Nat} (k : Task) :
    m ∈ (insert_owned mutex k).owned_mutexes ↔ m = mutex ∨ m ∈ k.owned_mutexes := by
  unfold insert_owned
  dsimp only
  split
  · next hmem =>
    constructor
    · exact Or.inr
    · rintro (rfl | hm)
      · exact hmem
      · exact hm
  · exact List.mem_orderedInsert _

theorem mem_remove_owned {m mutex : Nat} (k : Task) :
    m ∈ (remove_owned mutex k).owned_mutexes ↔ m ∈ k.owned_mutexes ∧ m ≠ mutex := by
  simp [remove_owned]

/-- A lower bound of the priority a task keeps. -/
theorem le_kept_priority_iff {k : Task} {p : Nat} (hk : s.tasks task = some k)
    (h : s.kept_priority task = some p) (x : Nat) :
    x ≤ p ↔ x ≤ k.base_priority ∧
      ∀ m ∈ k.owned_mutexes, ∀ w, s.first_waiter m = some w → x ≤ s.prio w := by
  unfold kept_priority at h
  rw [hk] at h
  simp only [Option.bind_eq_bind, Option.bind_some] at h
  -- The induction is on the mutexes still to be looked at, for any minimum so far.
  generalize k.base_priority = base at h ⊢
  generalize k.owned_mutexes = owned at h ⊢
  induction owned generalizing base with
  | nil =>
    cases h
    simp
  | cons m ms ih =>
    rw [List.foldlM_cons] at h
    obtain ⟨next, hnext, h⟩ := Option.bind_eq_some_iff.mp h
    rw [ih next h, List.forall_mem_cons, ← and_assoc]
    apply and_congr_left'
    cases hw : s.first_waiter m with
    | none =>
      rw [hw] at hnext
      cases hnext
      simp
    | some w =>
      rw [hw] at hnext
      obtain ⟨q, hq, hnext⟩ := Option.bind_eq_some_iff.mp hnext
      cases hnext
      obtain rfl := eq_prio hq
      simp

/-- An upper bound of the priority a task keeps. -/
theorem kept_priority_le_iff {k : Task} {p : Nat} (hk : s.tasks task = some k)
    (h : s.kept_priority task = some p) (x : Nat) :
    p ≤ x ↔ k.base_priority ≤ x ∨
      ∃ m ∈ k.owned_mutexes, ∃ w, s.first_waiter m = some w ∧ s.prio w ≤ x := by
  have hnot := not_congr (le_kept_priority_iff hk h (x + 1))
  rw [Nat.not_le, Nat.lt_succ_iff] at hnot
  rw [hnot, not_and_or, Nat.not_le, Nat.lt_succ_iff]
  apply or_congr_right
  push Not
  simp only [Nat.lt_succ_iff]

/-- Blocking on an owned mutex: the caller leaves the ready list and joins the
waiters, the owner inherits its priority and finds its place in the ready list,
and another task runs if the caller was running. -/
structure Blocked (search : BinarySearch Nat) (s : AutosarScheduler) (task mutex owner : Nat)
    (waiters front back : List Nat) (old : Task) (boosted placed t : AutosarScheduler) : Prop where
  caller : (s.tasks task).isSome
  split : waiters = front ++ back
  boost : Edited
    (set_mutex { s with ready := s.ready.filter (· ≠ task) } mutex ⟨some owner, front ++ task :: back⟩)
    owner old { old with current_priority := min old.current_priority (s.prio task) } boosted
  place : owner ∈ boosted.ready ∧ boosted.reinsert_ready search owner = some placed ∨
    owner ∉ boosted.ready ∧ placed = boosted
  next : placed.current = some task ∧ run_next { placed with current := none } = some t ∨
    placed.current ≠ some task ∧ t = placed
  order : waiters.Pairwise (fun a b => s.prio a ≤ s.prio b) →
    (∀ w ∈ front, s.prio w ≤ s.prio task) ∧ ∀ w ∈ back, s.prio task ≤ s.prio w

theorem lock_mutex_cases {m : MutexState} (hm : (s.mutexes mutex).getD ⟨none, []⟩ = m)
    (h : s.lock_mutex search task mutex = some t) :
    (m.owner = none ∧
      (s.set_mutex mutex ⟨some task, m.waiters⟩).get_mut task (insert_owned mutex) = some t) ∨
    ∃ owner front back old boosted placed, m.owner = some owner ∧
      Blocked search s task mutex owner m.waiters front back old boosted placed t := by
  unfold lock_mutex at h
  rw [hm] at h
  cases howner : m.owner with
  | none =>
    simp only [howner] at h
    exact Or.inl ⟨rfl, h⟩
  | some owner =>
    simp only [howner] at h
    obtain ⟨prio, hprio, hqueue⟩ := Option.bind_eq_some_iff.mp h
    obtain ⟨pos, hpos, hinherit⟩ := Option.bind_eq_some_iff.mp hqueue
    obtain ⟨boosted, hboosted, hrest⟩ := Option.bind_eq_some_iff.mp hinherit
    have hsome := isSome_of_task_priority hprio
    obtain rfl := eq_prio hprio
    obtain rfl := sorted_position_eq hpos
    obtain ⟨front, back, hsplit, hinsert, horder⟩ := search.insertIdx_splits s.prio m.waiters task
    obtain ⟨old, hedit⟩ := get_mut_edited hboosted
    have hboost : Edited (set_mutex { s with ready := s.ready.filter (· ≠ task) } mutex
        ⟨some owner, front ++ task :: back⟩) owner old
        { old with current_priority := min old.current_priority (s.prio task) } boosted := by
      rw [← hinsert]
      exact hedit
    have hlast (placed : AutosarScheduler)
        (hrun : (if placed.current = some task then run_next { placed with current := none }
          else pure placed) = some t) :
        placed.current = some task ∧ run_next { placed with current := none } = some t ∨
          placed.current ≠ some task ∧ t = placed := by
      split at hrun
      · next hcurrent => exact Or.inl ⟨hcurrent, hrun⟩
      · next hcurrent =>
        cases hrun
        exact Or.inr ⟨hcurrent, rfl⟩
    right
    split at hrest
    · next hready =>
      obtain ⟨placed, hplaced, hrest⟩ := Option.bind_eq_some_iff.mp hrest
      exact ⟨owner, front, back, old, boosted, placed, rfl, hsome, hsplit, hboost,
        Or.inl ⟨hready, hplaced⟩, hlast placed hrest, horder⟩
    · next hready =>
      exact ⟨owner, front, back, old, boosted, boosted, rfl, hsome, hsplit, hboost,
        Or.inr ⟨hready, rfl⟩, hlast boosted hrest, horder⟩

/-- What unlocking does before the owner finds its new place: the mutex goes to
its first waiter, if any, and the owner gives it up; no priority has changed. -/
structure Released (s : AutosarScheduler) (task mutex : Nat) (m : MutexState)
    (t : AutosarScheduler) : Prop where
  same : SamePriorities s t
  mutexes : t.mutexes = Function.update s.mutexes mutex (some ⟨m.waiters.head?, m.waiters.tail⟩)
  owned : ∀ k k', s.tasks task = some k → t.tasks task = some k' →
    ∀ i, i ∈ k'.owned_mutexes ↔ i ∈ k.owned_mutexes ∧ i ≠ mutex

/-- Handing over changes the tasks by one more mutex for the new owner, and then
makes that task ready. -/
theorem hand_over_cases {m : MutexState} (h : s.hand_over search mutex m = some t) :
    (m.waiters = [] ∧ t = s.set_mutex mutex ⟨none, []⟩) ∨
      ∃ next waiters mid, m.waiters = next :: waiters ∧
        (s.set_mutex mutex ⟨some next, waiters⟩).get_mut next (insert_owned mutex) = some mid ∧
        mid.make_ready search next = some t := by
  unfold hand_over at h
  cases hwaiters : m.waiters with
  | nil =>
    rw [hwaiters] at h
    cases h
    exact Or.inl ⟨rfl, rfl⟩
  | cons next waiters =>
    rw [hwaiters] at h
    obtain ⟨mid, hmid, h⟩ := Option.bind_eq_some_iff.mp h
    exact Or.inr ⟨next, waiters, mid, rfl, hmid, h⟩

theorem released_of_hand_over {m : MutexState} {mid : AutosarScheduler}
    (hover : s.hand_over search mutex m = some mid)
    (hremove : mid.get_mut task (remove_owned mutex) = some t) : Released s task mutex m t := by
  obtain ⟨k, hedit⟩ := get_mut_edited hremove
  have hsame : SamePriorities mid t := hedit.samePriorities rfl rfl
  rcases hand_over_cases hover with ⟨hwaiters, rfl⟩ | ⟨next, waiters, given, hwaiters, hgiven, hready⟩
  · refine ⟨hsame, ?_, ?_⟩
    · rw [hedit.mutexes, hwaiters]
      rfl
    · intro old new hold hnew i
      obtain rfl : old = k := Option.some.inj (hold.symm.trans hedit.task_before)
      obtain rfl := Option.some.inj (hnew.symm.trans hedit.task_after)
      exact mem_remove_owned old
  · have hframe := make_ready_frame hready
    obtain ⟨kn, hgive⟩ := get_mut_edited hgiven
    have hgivenSame : SamePriorities s given := hgive.samePriorities rfl rfl
    refine ⟨(hgivenSame.trans (.of_tasks hframe.tasks)).trans hsame, ?_, ?_⟩
    · rw [hedit.mutexes, hframe.mutexes, hgive.mutexes, hwaiters]
      rfl
    · intro old new hold hnew i
      obtain rfl := Option.some.inj (hnew.symm.trans hedit.task_after)
      have hk := hedit.task_before
      rw [hframe.tasks] at hk
      by_cases hnext : task = next
      · subst hnext
        obtain rfl := Option.some.inj (hk.symm.trans hgive.task_after)
        obtain rfl : old = kn := Option.some.inj (hold.symm.trans hgive.task_before)
        rw [mem_remove_owned, mem_insert_owned]
        constructor
        · rintro ⟨rfl | hi, hne⟩
          · exact absurd rfl hne
          · exact ⟨hi, hne⟩
        · rintro ⟨hi, hne⟩
          exact ⟨Or.inr hi, hne⟩
      · rw [hgive.others task hnext] at hk
        obtain rfl : old = k := Option.some.inj (hold.symm.trans hk)
        exact mem_remove_owned old

/-- The first waiters of the other mutexes are still those from before the
release. -/
theorem Released.first_waiter {i : Nat} {m : MutexState}
    (h : Released s task mutex m t) (hi : i ≠ mutex) : t.first_waiter i = s.first_waiter i := by
  unfold AutosarScheduler.first_waiter
  rw [h.mutexes, Function.update_of_ne hi]

/-- Unlocking a mutex the caller does not own does nothing; otherwise the mutex
is released and the caller keeps what priority it still has a claim to. -/
theorem unlock_mutex_cases (h : s.unlock_mutex search task mutex = some t) :
    (t = s ∧ ∀ m, s.mutexes mutex = some m → m.owner ≠ some task) ∨
    ∃ m given freed old p mid, s.mutexes mutex = some m ∧ m.owner = some task ∧
      s.hand_over search mutex m = some given ∧
      given.get_mut task (remove_owned mutex) = some freed ∧
      freed.kept_priority task = some p ∧
      Edited freed task old { old with current_priority := p } mid ∧
      mid.reposition search task = some t := by
  unfold unlock_mutex at h
  cases hm : s.mutexes mutex with
  | none =>
    rw [hm] at h
    cases h
    exact Or.inl ⟨rfl, nofun⟩
  | some m =>
    simp only [hm] at h
    split at h
    · next howner =>
      obtain ⟨given, hgiven, hremove⟩ := Option.bind_eq_some_iff.mp h
      obtain ⟨freed, hfreed, hkept⟩ := Option.bind_eq_some_iff.mp hremove
      obtain ⟨p, hp, hset⟩ := Option.bind_eq_some_iff.mp hkept
      obtain ⟨mid, hmid, hdone⟩ := Option.bind_eq_some_iff.mp hset
      obtain ⟨old, hedit⟩ := get_mut_edited hmid
      exact Or.inr ⟨m, given, freed, old, p, mid, rfl, howner, hgiven, hfreed, hp, hedit, hdone⟩
    · next howner =>
      cases h
      refine Or.inl ⟨rfl, ?_⟩
      rintro m' hm'
      cases hm'
      exact howner

theorem Edited.isSome {old new : Task} {id : Nat} (h : Edited s id old new t) {i : Nat}
    (hi : (s.tasks i).isSome) : (t.tasks i).isSome := by
  by_cases hid : i = id
  · subst hid
    rw [h.task_after]
    rfl
  · rw [h.others i hid]
    exact hi

theorem reinsert_ready_frame {id : Nat} (h : s.reinsert_ready search id = some t) : Frame s t :=
  ⟨(insert_ready_sorted_frame h).tasks, (insert_ready_sorted_frame h).mutexes⟩

theorem reposition_frame (h : s.reposition search task = some t) : Frame s t := by
  unfold reposition at h
  split at h
  · exact reinsert_ready_frame h
  split at h
  · split at h
    · obtain ⟨next_prio, _, h⟩ := Option.bind_eq_some_iff.mp h
      obtain ⟨prio, _, h⟩ := Option.bind_eq_some_iff.mp h
      split at h
      · exact preempt_frame h
      · cases h
        exact ⟨rfl, rfl⟩
    · cases h
      exact ⟨rfl, rfl⟩
  · cases h
    exact ⟨rfl, rfl⟩

/-- Once the owner is boosted, blocking only rearranges the ready list. -/
theorem Blocked.frame {owner : Nat} {waiters front back : List Nat} {old : Task}
    {boosted placed : AutosarScheduler}
    (h : Blocked search s task mutex owner waiters front back old boosted placed t) :
    Frame boosted t := by
  have hplace : Frame boosted placed := by
    rcases h.place with ⟨_, hplace⟩ | ⟨_, rfl⟩
    · exact reinsert_ready_frame hplace
    · exact ⟨rfl, rfl⟩
  rcases h.next with ⟨_, hrun⟩ | ⟨_, rfl⟩
  · exact hplace.trans ⟨(run_next_frame hrun).tasks, (run_next_frame hrun).mutexes⟩
  · exact hplace

/-- What blocking leaves behind: the caller among the waiters and the owner with
the more urgent of the two priorities. -/
theorem Blocked.effect {owner : Nat} {waiters front back : List Nat} {old : Task}
    {boosted placed : AutosarScheduler}
    (h : Blocked search s task mutex owner waiters front back old boosted placed t) :
    t.mutexes = Function.update s.mutexes mutex (some ⟨some owner, front ++ task :: back⟩) ∧
      (∀ i, (s.tasks i).isSome → (t.tasks i).isSome) ∧ (s.tasks owner).isSome ∧
      t.prio owner = min (s.prio owner) (s.prio task) ∧ ∀ i, i ≠ owner → t.prio i = s.prio i := by
  have hframe := h.frame
  have hbefore : s.tasks owner = some old := h.boost.task_before
  refine ⟨hframe.mutexes.trans h.boost.mutexes, ?_, by rw [hbefore]; rfl, ?_, ?_⟩
  · intro i hi
    rw [hframe.tasks]
    exact h.boost.isSome hi
  · rw [hframe.prio, prio_of_task h.boost.task_after, prio_of_task hbefore]
  · intro i hi
    rw [hframe.prio]
    exact prio_congr (h.boost.others i hi)

theorem unlock_mutex_mutexes {m : MutexState} (hm : s.mutexes mutex = some m)
    (howner : m.owner = some task) (h : s.unlock_mutex search task mutex = some t) :
    t.mutexes = Function.update s.mutexes mutex (some ⟨m.waiters.head?, m.waiters.tail⟩) := by
  rcases unlock_mutex_cases h with ⟨_, hother⟩ |
    ⟨m', given, freed, old, p, mid, hm', _, hgiven, hfreed, _, hedit, hdone⟩
  · exact absurd howner (hother m hm)
  obtain rfl := Option.some.inj (hm.symm.trans hm')
  have hreleased := released_of_hand_over hgiven hfreed
  exact (reposition_frame hdone).mutexes.trans (hedit.mutexes.trans hreleased.mutexes)

end l4.scheduler.autosar.AutosarScheduler
