import L4Rust.L4.Scheduler.Autosar.ReadyQueue

namespace l4.scheduler.autosar

namespace AutosarScheduler

variable {search : BinarySearch Nat} {s t : AutosarScheduler} {task mutex id : Nat}

/-- The owner a mutex records. -/
def owner (s : AutosarScheduler) (mutex : Nat) : Option Nat := (s.mutexes mutex).bind MutexState.owner

/-- The mutexes a task records as its own. -/
def owned (s : AutosarScheduler) (id : Nat) : List Nat := (s.tasks id).elim [] Task.owned_mutexes

/-- Both records of who owns what agree. -/
def OwnershipAgrees (s : AutosarScheduler) : Prop :=
  ∀ id mutex, mutex ∈ s.owned id ↔ s.owner mutex = some id

/-- A task records no mutex that it does not own. -/
def OwnsRecorded (s : AutosarScheduler) : Prop :=
  ∀ id mutex, mutex ∈ s.owned id → s.owner mutex = some id

/-- A task is never less urgent than its base priority, and as urgent as that when
it owns nothing. -/
def BoostsHeld (s : AutosarScheduler) : Prop :=
  ∀ id k, s.tasks id = some k → k.current_priority ≤ k.base_priority ∧
    ((∀ mutex, s.owner mutex ≠ some id) → k.current_priority = k.base_priority)

theorem owned_of_task {k : Task} (h : s.tasks id = some k) : s.owned id = k.owned_mutexes := by
  simp [owned, h]

theorem owned_congr (h : t.tasks id = s.tasks id) : t.owned id = s.owned id := by
  simp [owned, h]

theorem owner_of_mutex {m : MutexState} (h : s.mutexes mutex = some m) : s.owner mutex = m.owner := by
  simp [owner, h]

theorem owner_update {m : MutexState} (h : t.mutexes = Function.update s.mutexes mutex (some m))
    (i : Nat) : t.owner i = if i = mutex then m.owner else s.owner i := by
  unfold owner
  rw [h]
  by_cases hi : i = mutex
  · subst hi
    simp
  · simp [hi]

theorem Frame.owner (h : Frame s t) (i : Nat) : t.owner i = s.owner i := by
  simp [AutosarScheduler.owner, h.mutexes]

theorem Frame.owned (h : Frame s t) (i : Nat) : t.owned i = s.owned i := owned_congr (by rw [h.tasks])

theorem add_task_owned {period thread_cap : Nat} (h : s.tasks id = none) (i : Nat) :
    (s.add_task id period thread_cap).owned i = s.owned i := by
  by_cases hi : i = id
  · subst hi
    simp [owned, add_task, h]
  · exact owned_congr (Function.update_of_ne hi ..)

theorem Edited.owned_of_ne {old new : Task} (h : Edited s id old new t) {i : Nat} (hi : i ≠ id) :
    t.owned i = s.owned i :=
  owned_congr (h.others i hi)

/-- Locking a free mutex: the caller owns it on both records. -/
theorem lock_free_owned {m : MutexState}
    (h : (s.set_mutex mutex ⟨some task, m.waiters⟩).get_mut task (insert_owned mutex) = some t) :
    (∀ i x, x ∈ t.owned i ↔ x ∈ s.owned i ∨ i = task ∧ x = mutex) ∧
      ∀ x, t.owner x = if x = mutex then some task else s.owner x := by
  obtain ⟨k, hedit⟩ := get_mut_edited h
  constructor
  · intro i x
    by_cases hi : i = task
    · subst hi
      have hbefore : s.owned i = k.owned_mutexes := owned_of_task hedit.task_before
      rw [owned_of_task hedit.task_after, mem_insert_owned, hbefore, or_comm]
      simp
    · have hsame : t.owned i = s.owned i := hedit.owned_of_ne hi
      rw [hsame]
      simp [hi]
  · intro x
    exact owner_update (m := ⟨some task, m.waiters⟩) hedit.mutexes x

/-- Blocking: nothing changes hands. -/
theorem Blocked.owned {m : MutexState} {owner : Nat} {front back : List Nat} {old : Task}
    {boosted placed : AutosarScheduler} (hm : s.mutexes mutex = some m)
    (howner : m.owner = some owner)
    (h : Blocked search s task mutex owner m.waiters front back old boosted placed t) :
    (∀ i, t.owned i = s.owned i) ∧ ∀ x, t.owner x = s.owner x := by
  have hframe := h.frame
  constructor
  · intro i
    rw [hframe.owned]
    by_cases hi : i = owner
    · subst hi
      have hbefore : s.owned i = old.owned_mutexes := owned_of_task h.boost.task_before
      rw [owned_of_task h.boost.task_after, hbefore]
    · exact h.boost.owned_of_ne hi
  · intro x
    rw [owner_update h.effect.1]
    split
    · next hx =>
      rw [hx, owner_of_mutex hm, howner]
    · rfl

theorem hand_over_owned {m : MutexState} (h : s.hand_over search mutex m = some t) (i x : Nat) :
    x ∈ t.owned i ↔ x ∈ s.owned i ∨ x = mutex ∧ m.waiters.head? = some i := by
  rcases hand_over_cases h with ⟨hwaiters, rfl⟩ | ⟨next, waiters, given, hwaiters, hgiven, hready⟩
  · have hsame : (s.set_mutex mutex ⟨none, []⟩).owned i = s.owned i := owned_congr rfl
    rw [hsame, hwaiters]
    simp
  · rw [(make_ready_frame hready).owned, (lock_free_owned (m := ⟨none, waiters⟩) hgiven).1, hwaiters,
      List.head?_cons, Option.some.injEq]
    simp only [eq_comm, and_comm]

/-- Unlocking: the mutex goes to its first waiter, and the caller strikes it off
its own record afterwards. -/
theorem unlock_mutex_owned {m : MutexState} (hm : s.mutexes mutex = some m)
    (howner : m.owner = some task) (h : s.unlock_mutex search task mutex = some t) :
    (∀ i x, x ∈ t.owned i ↔
        (x ∈ s.owned i ∨ x = mutex ∧ m.waiters.head? = some i) ∧ ¬ (i = task ∧ x = mutex)) ∧
      ∀ x, t.owner x = if x = mutex then m.waiters.head? else s.owner x := by
  constructor
  · intro i x
    rcases unlock_mutex_cases h with ⟨_, hother⟩ |
      ⟨m', given, freed, old, p, mid, hm', _, hgiven, hfreed, hp, hedit, hdone⟩
    · exact absurd howner (hother m hm)
    obtain rfl := Option.some.inj (hm.symm.trans hm')
    obtain ⟨k, hremoved⟩ := get_mut_edited hfreed
    rw [(reposition_frame hdone).owned, ← hand_over_owned hgiven]
    by_cases hi : i = task
    · subst hi
      rw [owned_of_task hedit.task_after]
      obtain rfl := Option.some.inj (hremoved.task_after.symm.trans hedit.task_before)
      simp only [mem_remove_owned]
      rw [owned_of_task hremoved.task_before]
      simp
    · rw [hedit.owned_of_ne hi, hremoved.owned_of_ne hi]
      simp [hi]
  · intro x
    exact owner_update (unlock_mutex_mutexes hm howner h) x

theorem new_ownership (scheduler_cap : Nat) :
    (new scheduler_cap).OwnershipAgrees ∧ (new scheduler_cap).OwnsRecorded ∧
      (new scheduler_cap).BoostsHeld := by
  refine ⟨?_, ?_, ?_⟩
  · intro id mutex
    simp [owned, owner, new]
  · intro id mutex hmem
    simp [owned, new] at hmem
  · intro id k hk
    cases hk

theorem OwnershipAgrees.congr (hagrees : s.OwnershipAgrees) (howned : ∀ i, t.owned i = s.owned i)
    (howner : ∀ x, t.owner x = s.owner x) : t.OwnershipAgrees := by
  intro id mutex
  rw [howned, howner]
  exact hagrees id mutex

/-- The branch that a call of `lock_mutex` takes. -/
theorem lock_mutex_owned (h : s.lock_mutex search task mutex = some t) :
    (s.owner mutex = none ∧
      (s.set_mutex mutex ⟨some task, ((s.mutexes mutex).getD ⟨none, []⟩).waiters⟩).get_mut task
        (insert_owned mutex) = some t) ∨
    ∃ m owner front back old boosted placed, s.mutexes mutex = some m ∧ m.owner = some owner ∧
      Blocked search s task mutex owner m.waiters front back old boosted placed t := by
  rcases lock_mutex_cases rfl h with ⟨hfree, hlock⟩ |
    ⟨owner, front, back, old, boosted, placed, howner, hblock⟩
  · refine Or.inl ⟨?_, hlock⟩
    unfold owner
    cases hm : s.mutexes mutex with
    | none => rfl
    | some m =>
      rw [hm] at hfree
      exact hfree
  · cases hm : s.mutexes mutex with
    | none =>
      rw [hm] at howner
      cases howner
    | some m =>
      rw [hm] at howner hblock
      exact Or.inr ⟨m, owner, front, back, old, boosted, placed, rfl, howner, hblock⟩

/-- Unlocking by anybody but the owner does nothing. -/
theorem unlock_mutex_of_not_owner (hnot : s.owner mutex ≠ some task)
    (h : s.unlock_mutex search task mutex = some t) : t = s := by
  rcases unlock_mutex_cases h with ⟨rfl, _⟩ | ⟨m, _, _, _, _, _, hm, howner, _⟩
  · rfl
  · rw [owner_of_mutex hm] at hnot
    exact absurd howner hnot

theorem exists_mutex_of_owner (h : s.owner mutex = some task) :
    ∃ m, s.mutexes mutex = some m ∧ m.owner = some task :=
  Option.bind_eq_some_iff.mp h

end AutosarScheduler

open AutosarScheduler

/-- No task gives a mutex to itself. -/
def Call.HandsToAnother (s : AutosarScheduler) : Call → Prop
  | .unlock_mutex task mutex => s.owner mutex = some task → s.first_waiter mutex ≠ some task
  | .add_task .. | .make_ready _ | .lock_mutex .. => True

variable {search : BinarySearch Nat} {s t : AutosarScheduler} {task mutex : Nat}

theorem lock_mutex_agrees (hagrees : s.OwnershipAgrees)
    (h : s.lock_mutex search task mutex = some t) : t.OwnershipAgrees := by
  rcases lock_mutex_owned h with ⟨hfree, hlock⟩ | ⟨m, o, _, _, _, _, _, hm, howner, hblock⟩
  · obtain ⟨howned, howner⟩ := lock_free_owned hlock
    intro i x
    rw [howned, howner, hagrees]
    by_cases hx : x = mutex
    · subst hx
      simp [hfree, eq_comm]
    · simp [hx]
  · obtain ⟨howned, howner'⟩ := hblock.owned hm howner
    exact hagrees.congr howned howner'

/-- A mutex handed to the caller itself is struck off its record again. -/
theorem unlock_mutex_agrees_iff (hagrees : s.OwnershipAgrees)
    (h : s.unlock_mutex search task mutex = some t) :
    t.OwnershipAgrees ↔ (Call.unlock_mutex task mutex).HandsToAnother s := by
  by_cases hown : s.owner mutex = some task
  · obtain ⟨m, hm, howner⟩ := exists_mutex_of_owner hown
    obtain ⟨howned, howner'⟩ := unlock_mutex_owned hm howner h
    have hfirst : s.first_waiter mutex = m.waiters.head? := by simp [first_waiter, hm]
    have hrecord (i : Nat) : mutex ∈ t.owned i ↔ m.waiters.head? = some i ∧ i ≠ task := by
      rw [howned, hagrees, hown]
      constructor
      · rintro ⟨hi | ⟨_, hi⟩, hne⟩
        · exact absurd ⟨(Option.some.inj hi).symm, rfl⟩ hne
        · exact ⟨hi, fun heq => hne ⟨heq, rfl⟩⟩
      · rintro ⟨hi, hne⟩
        exact ⟨Or.inr ⟨rfl, hi⟩, fun heq => hne heq.1⟩
    constructor
    · intro hafter _ hself
      have hmem := (hafter task mutex).mpr (by rw [howner', if_pos rfl, ← hfirst, hself])
      exact ((hrecord task).mp hmem).2 rfl
    · intro hother i x
      by_cases hx : x = mutex
      · subst hx
        rw [hrecord, howner', if_pos rfl]
        refine and_iff_left_of_imp ?_
        rintro hi rfl
        exact hother hown (hfirst.trans hi)
      · rw [howned, howner', if_neg hx, hagrees]
        simp [hx]
  · obtain rfl := unlock_mutex_of_not_owner hown h
    exact iff_of_true hagrees fun howner => absurd howner hown

theorem Call.run_agrees_iff {call : Call} (hagrees : s.OwnershipAgrees) (hcall : call.Registered s)
    (h : call.run search s = some t) : t.OwnershipAgrees ↔ call.HandsToAnother s := by
  cases call with
  | add_task id period thread_cap =>
    cases h
    exact iff_of_true (hagrees.congr (add_task_owned hcall) fun _ => rfl) trivial
  | make_ready id =>
    have hframe := make_ready_frame h
    exact iff_of_true (hagrees.congr hframe.owned hframe.owner) trivial
  | lock_mutex task mutex => exact iff_of_true (lock_mutex_agrees hagrees h) trivial
  | unlock_mutex task mutex => exact unlock_mutex_agrees_iff hagrees h

/-- A run has both records of ownership agree in every state exactly when nobody
in it hands a mutex to itself. -/
theorem ownership_agrees_iff (search : BinarySearch Nat) (past : List (AutosarScheduler × Call))
    (s : AutosarScheduler) (hrun : (disciplined search).Run past s) :
    (s.OwnershipAgrees ∧ ∀ p ∈ past, p.1.OwnershipAgrees) ↔ ∀ p ∈ past, p.2.HandsToAnother p.1 := by
  refine hrun.throughout_iff (I := WellFormed) (P := OwnershipAgrees)
    (Q := fun s call => call.HandsToAnother s) ?_ ?_ ?_
  · rintro s ⟨scheduler_cap, rfl⟩
    exact ⟨(new_wellFormed scheduler_cap).1, (new_ownership scheduler_cap).1⟩
  · intro s call t hwf hcall h
    exact Call.run_wellFormed hwf (hcall.registered hwf) h
  · intro s call t hwf hagrees hcall h
    exact Call.run_agrees_iff hagrees (hcall.registered hwf) h

/-- Whether unlocking gives the mutex to another task. -/
def Call.handsToAnother (s : AutosarScheduler) : Call → Bool
  | .unlock_mutex task mutex => s.first_waiter mutex ≠ some task
  | .add_task .. | .make_ready _ | .lock_mutex .. => true

theorem Call.handsToAnother_spec {call : Call} (h : call.handsToAnother s = true) :
    call.HandsToAnother s := by
  cases call with
  | unlock_mutex task mutex => exact fun _ => of_decide_eq_true h
  | add_task id period thread_cap => trivial
  | make_ready id => trivial
  | lock_mutex task mutex => trivial

/-- A mutex is handed from one task to the next. -/
def handOverCalls : List Call :=
  [.add_task 1 200 0, .add_task 2 100 0, .make_ready 1, .lock_mutex 1 1, .make_ready 2,
    .lock_mutex 2 1, .unlock_mutex 1 1]

/-- A mutex that is handed over is in the list of the next owner, and no longer in that of the one before. -/
theorem ownership_agrees_hand_over :
    ∃ past s, (disciplined .std).Run past s ∧ past.length = 7 ∧ s.owned 2 = [1] ∧ s.owned 1 = [] ∧
      s.OwnershipAgrees ∧ ∀ p ∈ past, p.1.OwnershipAgrees := by
  obtain ⟨past, s, hrun, hcalls, hstep, hend⟩ := Machine.exists_run_of_reaches
    (M := disciplined .std) (.start ⟨0, rfl⟩) (fun s call => call.handsToAnother s)
    (fun s => s.owned 2 = [1] ∧ s.owned 1 = []) handOverCalls (by decide +kernel)
  rw [decide_eq_true_eq] at hend
  have hlen := congrArg List.length hcalls
  rw [List.length_map] at hlen
  refine ⟨past, s, hrun, hlen, hend.1, hend.2, ?_⟩
  apply (ownership_agrees_iff .std past s hrun).mpr
  intro p hp
  exact Call.handsToAnother_spec (hstep p hp)

/-- A task locks a mutex it owns, is woken from the wait for itself and unlocks. -/
def relockCalls : List Call :=
  [.add_task 1 100 0, .make_ready 1, .lock_mutex 1 1, .lock_mutex 1 1, .make_ready 1,
    .unlock_mutex 1 1]

/-- The mutex is recorded as owned by task 1, and task 1 as owning nothing. -/
theorem ownership_agrees_fails :
    ∃ past s, (disciplined .std).Run past s ∧ s.owner 1 = some 1 ∧ s.owned 1 = [] ∧
      ¬ s.OwnershipAgrees := by
  obtain ⟨past, s, hrun, _, _, hend⟩ := Machine.exists_run_of_reaches
    (M := disciplined .std) (.start ⟨0, rfl⟩) (fun _ _ => true)
    (fun s => s.owner 1 = some 1 ∧ s.owned 1 = []) relockCalls (by decide +kernel)
  rw [decide_eq_true_eq] at hend
  refine ⟨past, s, hrun, hend.1, hend.2, ?_⟩
  intro hagrees
  have hmem := (hagrees 1 1).mpr hend.1
  rw [hend.2] at hmem
  cases hmem

end l4.scheduler.autosar
