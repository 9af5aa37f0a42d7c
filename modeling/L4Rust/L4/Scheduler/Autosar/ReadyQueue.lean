import L4Rust.L4.Scheduler.Autosar.Mutexes

namespace l4.scheduler.autosar

namespace AutosarScheduler

variable {search : BinarySearch Nat} {s t : AutosarScheduler} {task mutex id : Nat}

/-- The ready list: registered tasks, each once and not the current one, the most
urgent first, and none at all while nothing runs. -/
structure ReadyQueue (s : AutosarScheduler) : Prop where
  nodup : s.ready.Nodup
  current_not_ready : ∀ c, s.current = some c → c ∉ s.ready
  registered : ∀ r ∈ s.ready, (s.tasks r).isSome
  sorted : s.Sorted
  idle : s.current = none → s.ready = []

theorem WellFormed.readyQueue (h : s.WellFormed) : s.ReadyQueue where
  nodup := (List.nodup_append.mp h.nodup).2.1
  current_not_ready _ := h.current_not_ready
  registered r hr := h.registered r (List.mem_append_right _ hr)
  sorted := h.sorted
  idle := h.idle

theorem mem_runnable : id ∈ s.runnable ↔ s.current = some id ∨ id ∈ s.ready := by
  simp [runnable, Option.mem_toList]

theorem add_task_wellFormed {period thread_cap : Nat} (hwf : s.WellFormed) (hid : s.tasks id = none) :
    (s.add_task id period thread_cap).WellFormed ∧
      (s.MostUrgent → (s.add_task id period thread_cap).MostUrgent) := by
  have hold (i : Nat) (hi : i ∈ s.runnable) :
      (s.add_task id period thread_cap).tasks i = s.tasks i := by
    apply Function.update_of_ne
    rintro rfl
    have hsome := hwf.registered i hi
    rw [hid] at hsome
    cases hsome
  have hprio (i : Nat) (hi : i ∈ s.runnable) :
      (s.add_task id period thread_cap).prio i = s.prio i := prio_congr (hold i hi)
  have hready (i : Nat) (hi : i ∈ s.ready) : i ∈ s.runnable := mem_runnable.mpr (Or.inr hi)
  refine ⟨⟨hwf.nodup, ?_, hwf.idle, ?_, ?_⟩, ?_⟩
  · apply List.Pairwise.imp_of_mem _ hwf.sorted
    intro a b ha hb hle
    rw [hprio a (hready a ha), hprio b (hready b hb)]
    exact hle
  · intro i hi
    rw [hold i hi]
    exact hwf.registered i hi
  · intro i k hk
    by_cases hi : i = id
    · subst hi
      simp only [add_task, Function.update_self, Option.some.injEq] at hk
      subst hk
      exact Nat.le_refl _
    · exact hwf.boosted i k ((Function.update_of_ne hi ..).symm.trans hk)
  · intro hurgent
    refine ⟨hurgent.idle, ?_⟩
    intro c hc r hr
    rw [hprio c (mem_runnable.mpr (Or.inl hc)), hprio r (hready r hr)]
    exact hurgent.current_le c hc r hr

theorem hand_over_wellFormed {m : MutexState} (hwf : s.WellFormed)
    (h : s.hand_over search mutex m = some t) : t.WellFormed ∧ (s.MostUrgent → t.MostUrgent) := by
  have hset (m' : MutexState) : SamePriorities s (s.set_mutex mutex m') := .of_tasks rfl
  rcases hand_over_cases h with ⟨_, rfl⟩ | ⟨next, waiters, given, _, hgiven, hready⟩
  · exact ⟨hwf.same_queue (hset _) rfl rfl, fun hurgent => hurgent.same_queue (hset _) rfl rfl⟩
  · obtain ⟨k, hedit⟩ := get_mut_edited hgiven
    have hsame := (hset _).trans (hedit.samePriorities rfl rfl)
    have hgivenWf := hwf.same_queue hsame hedit.ready hedit.current
    obtain ⟨hdone, hkeeps⟩ := make_ready_wellFormed hgivenWf hready
    exact ⟨hdone, fun hurgent => hkeeps (hurgent.same_queue hsame hedit.ready hedit.current)⟩

/-- The ready list without a task is in order whatever that task's priority
becomes. -/
theorem pairwise_filter_ne {old new : Task} (hsorted : s.Sorted) (hedit : Edited s id old new t) :
    (t.ready.filter (· ≠ id)).Pairwise fun a b => t.prio a ≤ t.prio b := by
  have hrest : (s.ready.filter (· ≠ id)).Pairwise fun a b => s.prio a ≤ s.prio b :=
    List.Pairwise.filter _ hsorted
  rw [hedit.ready]
  apply List.Pairwise.imp_of_mem _ hrest
  intro a b ha hb hle
  have hane : a ≠ id := by simpa using (List.mem_filter.mp ha).2
  have hbne : b ≠ id := by simpa using (List.mem_filter.mp hb).2
  rw [prio_congr (hedit.others a hane), prio_congr (hedit.others b hbne)]
  exact hle

/-- One task's priority has changed and the ready list is in order again. -/
theorem WellFormed.edited {mid : AutosarScheduler} {old new : Task} (hwf : s.WellFormed)
    (hedit : Edited s id old new mid) (hbase : new.current_priority ≤ new.base_priority)
    (htasks : t.tasks = mid.tasks) (hcurrent : t.current = s.current)
    (hready : t.ready.Perm s.ready) (hsorted : t.Sorted) : t.WellFormed := by
  have hrunnable : t.runnable.Perm s.runnable := by
    unfold runnable
    rw [hcurrent]
    exact hready.append_left _
  refine ⟨hrunnable.nodup_iff.mpr hwf.nodup, hsorted, ?_, ?_, ?_⟩
  · intro hnone
    rw [hcurrent] at hnone
    rw [hwf.idle hnone] at hready
    exact hready.eq_nil
  · intro i hi
    rw [htasks]
    by_cases hid : i = id
    · subst hid
      rw [hedit.task_after]
      rfl
    · rw [hedit.others i hid]
      exact hwf.registered i (hrunnable.mem_iff.mp hi)
  · intro i k hk
    rw [htasks] at hk
    by_cases hid : i = id
    · subst hid
      obtain rfl := Option.some.inj (hk.symm.trans hedit.task_after)
      exact hbase
    · rw [hedit.others i hid] at hk
      exact hwf.boosted i k hk

theorem sorted_of_not_ready {old new : Task} (hsorted : s.Sorted) (hedit : Edited s id old new t)
    (hready : id ∉ s.ready) : t.Sorted := by
  have hrest := pairwise_filter_ne hsorted hedit
  have hall : t.ready.filter (· ≠ id) = t.ready := by
    apply List.filter_eq_self.mpr
    intro i hi
    rw [hedit.ready] at hi
    simp only [decide_eq_true_eq]
    rintro rfl
    exact hready hi
  rw [hall] at hrest
  exact hrest

/-- A task in the ready list whose priority has changed is put back in order. -/
theorem reinsert_ready_wellFormed {mid : AutosarScheduler} {old new : Task} (hwf : s.WellFormed)
    (hedit : Edited s id old new mid) (hbase : new.current_priority ≤ new.base_priority)
    (hid : id ∈ s.ready) (h : mid.reinsert_ready search id = some t) :
    t.WellFormed ∧ Frame mid t ∧ t.current = s.current ∧ t.ready.Perm s.ready := by
  have hframe := insert_ready_sorted_frame h
  obtain ⟨hcurrent, hperm, hsorted⟩ :=
    insert_ready_sorted_sorted (s := { mid with ready := mid.ready.filter (· ≠ id) })
      (pairwise_filter_ne hwf.sorted hedit) h
  have hnodup : s.ready.Nodup := (List.nodup_append.mp hwf.nodup).2.1
  have hready : t.ready.Perm s.ready := by
    rw [hedit.ready] at hperm
    exact hperm.trans (Lists.perm_cons_filter_ne hnodup hid)
  have hcurrent' : t.current = s.current := hcurrent.trans hedit.current
  exact ⟨hwf.edited hedit hbase hframe.tasks hcurrent' hready hsorted,
    ⟨hframe.tasks, hframe.mutexes⟩, hcurrent', hready⟩

/-- The running task yields to a more urgent one at the head of the ready list. -/
theorem reposition_current (hwf : s.WellFormed) (hcurrent : s.current = some task)
    (h : s.reposition search task = some t) :
    t.WellFormed ∧ t.runnable.Perm s.runnable ∧ t.MostUrgent := by
  unfold reposition at h
  rw [if_neg (hwf.current_not_ready hcurrent), if_pos hcurrent] at h
  have hsorted := hwf.sorted
  unfold Sorted at hsorted
  cases hready : s.ready with
  | nil =>
    rw [hready] at h
    cases h
    refine ⟨hwf, .refl _, hwf.idle, ?_⟩
    intro c _ r hr
    rw [hready] at hr
    cases hr
  | cons next rest =>
    rw [hready] at h hsorted
    obtain ⟨next_prio, hnext, h⟩ := Option.bind_eq_some_iff.mp h
    obtain ⟨prio, hprio, h⟩ := Option.bind_eq_some_iff.mp h
    obtain rfl := eq_prio hnext
    obtain rfl := eq_prio hprio
    split at h
    · obtain ⟨hdone, hurgent⟩ := preempt_dispatched hwf.sorted h
      exact ⟨hwf.dispatched (preempt_frame h) hdone hwf.nodup hwf.registered, hdone.runnable, hurgent⟩
    · next hge =>
      cases h
      refine ⟨hwf, .refl _, hwf.idle, ?_⟩
      rintro c hc r hr
      obtain rfl : task = c := Option.some.inj (hcurrent.symm.trans hc)
      rw [hready] at hr
      apply Nat.le_trans (Nat.le_of_not_lt hge)
      rcases List.mem_cons.mp hr with rfl | hr
      · exact Nat.le_refl _
      · exact (List.pairwise_cons.mp hsorted).1 r hr

/-- Once its priority has changed, a task in the ready list is not compared with
the running task. -/
theorem reposition_ready {mid : AutosarScheduler} {old new : Task} (hwf : s.WellFormed)
    (hedit : Edited s task old new mid) (hbase : new.current_priority ≤ new.base_priority)
    (hready : task ∈ s.ready) (h : mid.reposition search task = some t) :
    t.WellFormed ∧ t.runnable.Perm s.runnable ∧ (s.MostUrgent → (t.MostUrgent ↔
      ∀ c, s.current = some c → s.prio c ≤ new.current_priority)) := by
  have hprio (i : Nat) (hi : i ≠ task) : mid.prio i = s.prio i := prio_congr (hedit.others i hi)
  have htask : mid.prio task = new.current_priority := prio_of_task hedit.task_after
  have hne (c : Nat) (hc : s.current = some c) : c ≠ task := by
    rintro rfl
    exact hwf.current_not_ready hc hready
  unfold reposition at h
  rw [if_pos (by rw [hedit.ready]; exact hready)] at h
  obtain ⟨hdone, hframe, hcurrent, hperm⟩ := reinsert_ready_wellFormed hwf hedit hbase hready h
  have hrunnable : t.runnable.Perm s.runnable := by
    unfold runnable
    rw [hcurrent]
    exact hperm.append_left _
  refine ⟨hdone, hrunnable, fun hurgent => ⟨?_, ?_⟩⟩
  · intro hafter c hc
    have hle := hafter.current_le c (hcurrent.trans hc) task (hperm.mem_iff.mpr hready)
    rw [hframe.prio, hframe.prio, htask, hprio c (hne c hc)] at hle
    exact hle
  · intro hle
    refine ⟨hdone.idle, ?_⟩
    intro c hc r hr
    rw [hcurrent] at hc
    rw [hframe.prio, hframe.prio, hprio c (hne c hc)]
    by_cases hrt : r = task
    · rw [hrt, htask]
      exact hle c hc
    · rw [hprio r hrt]
      exact hurgent.current_le c hc r (hperm.mem_iff.mp hr)

/-- A task in the ready list stays behind the running task; a running task is compared
with the ready list. -/
theorem reposition_cases {mid : AutosarScheduler} {old new : Task} (hwf : s.WellFormed)
    (hedit : Edited s task old new mid) (hbase : new.current_priority ≤ new.base_priority)
    (h : mid.reposition search task = some t) :
    t.WellFormed ∧ t.runnable.Perm s.runnable ∧ (s.MostUrgent → (t.MostUrgent ↔
      (task ∈ s.ready → ∀ c, s.current = some c → s.prio c ≤ new.current_priority))) := by
  by_cases hready : task ∈ s.ready
  · simpa only [hready, forall_const] using reposition_ready hwf hedit hbase hready h
  have hmid : mid.WellFormed := hwf.edited hedit hbase rfl hedit.current (by rw [hedit.ready])
    (sorted_of_not_ready hwf.sorted hedit hready)
  have hsame : mid.runnable = s.runnable := by
    unfold runnable
    rw [hedit.ready, hedit.current]
  by_cases hcurrent : s.current = some task
  · obtain ⟨hdone, hperm, hafter⟩ := reposition_current hmid (hedit.current.trans hcurrent) h
    rw [hsame] at hperm
    exact ⟨hdone, hperm, fun _ => ⟨fun _ hmem => absurd hmem hready, fun _ => hafter⟩⟩
  · unfold reposition at h
    rw [if_neg (by rw [hedit.ready]; exact hready), if_neg (by rw [hedit.current]; exact hcurrent)] at h
    cases h
    refine ⟨hmid, by rw [hsame], fun hurgent => ⟨fun _ hmem => absurd hmem hready, fun _ => ⟨hmid.idle, ?_⟩⟩⟩
    have hprio (i : Nat) (hi : i ≠ task) : t.prio i = s.prio i := prio_congr (hedit.others i hi)
    intro c hc r hr
    rw [hedit.current] at hc
    rw [hedit.ready] at hr
    have hct : c ≠ task := by
      rintro rfl
      exact hcurrent hc
    have hrt : r ≠ task := by
      rintro rfl
      exact hready hr
    rw [hprio c hct, hprio r hrt]
    exact hurgent.current_le c hc r hr

/-- Taking a task off the ready list keeps the others in order. -/
theorem WellFormed.without (hwf : s.WellFormed) (id : Nat) :
    WellFormed { s with ready := s.ready.filter (· ≠ id) } := by
  have hsub : (s.current.toList ++ s.ready.filter (· ≠ id)).Sublist s.runnable :=
    List.Sublist.append_left List.filter_sublist _
  refine ⟨hwf.nodup.sublist hsub, List.Pairwise.filter _ hwf.sorted, ?_, ?_, hwf.boosted⟩
  · intro hnone
    have hempty := hwf.idle hnone
    simp [hempty]
  · intro i hi
    exact hwf.registered i (hsub.subset hi)

/-- The queue once a task has left it to block and the owner has its place. -/
theorem Blocked.placed_wellFormed {owner : Nat} {waiters front back : List Nat} {old : Task}
    {boosted placed : AutosarScheduler} (hwf : s.WellFormed)
    (h : Blocked search s task mutex owner waiters front back old boosted placed t) :
    placed.WellFormed ∧ placed.current = s.current ∧
      placed.ready.Perm (s.ready.filter (· ≠ task)) := by
  have hset : (set_mutex { s with ready := s.ready.filter (· ≠ task) } mutex
      ⟨some owner, front ++ task :: back⟩).WellFormed :=
    (hwf.without task).same_queue (.of_tasks rfl) rfl rfl
  have hbase : min old.current_priority (s.prio task) ≤ old.base_priority :=
    (Nat.min_le_left _ _).trans (hset.boosted _ _ h.boost.task_before)
  rcases h.place with ⟨hready, hplace⟩ | ⟨hready, rfl⟩
  · rw [h.boost.ready] at hready
    obtain ⟨hdone, _, hsame, hperm⟩ := reinsert_ready_wellFormed hset h.boost hbase hready hplace
    exact ⟨hdone, hsame, hperm⟩
  · have hsame : placed.ready.Perm (s.ready.filter (· ≠ task)) := .of_eq h.boost.ready
    rw [h.boost.ready] at hready
    have hsorted := sorted_of_not_ready hset.sorted h.boost hready
    exact ⟨hset.edited h.boost hbase rfl h.boost.current hsame hsorted, h.boost.current, hsame⟩

/-- A task that blocks leaves the ready list, and gives way to a most urgent task
if it was running, also after the owner's boost. -/
theorem lock_mutex_wellFormed (hwf : s.WellFormed) (h : s.lock_mutex search task mutex = some t) :
    t.WellFormed ∧ (s.current = some task → s.MostUrgent → t.MostUrgent) := by
  rcases lock_mutex_cases rfl h with ⟨_, hlock⟩ | ⟨owner, front, back, old, boosted, placed, _, hblock⟩
  · obtain ⟨k, hedit⟩ := get_mut_edited hlock
    have hsame : SamePriorities s t := SamePriorities.trans (.of_tasks rfl) (hedit.samePriorities rfl rfl)
    exact ⟨hwf.same_queue hsame hedit.ready hedit.current,
      fun _ hurgent => hurgent.same_queue hsame hedit.ready hedit.current⟩
  obtain ⟨hdone, hsame, _⟩ := hblock.placed_wellFormed hwf
  rcases hblock.next with ⟨_, hrun⟩ | ⟨hother, rfl⟩
  · have hframe := run_next_frame hrun
    obtain ⟨hdispatched, hurgent⟩ :=
      run_next_dispatched (s := { placed with current := none }) hdone.sorted rfl hrun
    have hmem (i : Nat) (hi : i ∈ placed.ready) : (placed.tasks i).isSome :=
      hdone.registered i (mem_runnable.mpr (Or.inr hi))
    refine ⟨hdone.dispatched ⟨hframe.tasks, hframe.mutexes⟩ hdispatched ?_ hmem, fun _ _ => hurgent⟩
    exact (List.nodup_append.mp hdone.nodup).2.1
  · exact ⟨hdone, fun hcurrent => absurd (hsame.trans hcurrent) hother⟩

/-- Unlocking up to the caller's new place in the queue. -/
theorem freed_wellFormed {m : MutexState} {given freed : AutosarScheduler} (hwf : s.WellFormed)
    (hgiven : s.hand_over search mutex m = some given)
    (hfreed : given.get_mut task (remove_owned mutex) = some freed) :
    freed.WellFormed ∧ freed.ready = given.ready ∧ freed.current = given.current ∧
      (s.MostUrgent → freed.MostUrgent) := by
  obtain ⟨hgivenWf, hgivenUrgent⟩ := hand_over_wellFormed hwf hgiven
  obtain ⟨k, hremoved⟩ := get_mut_edited hfreed
  have hsame := hremoved.samePriorities rfl rfl
  exact ⟨hgivenWf.same_queue hsame hremoved.ready hremoved.current, hremoved.ready, hremoved.current,
    fun hurgent => (hgivenUrgent hurgent).same_queue hsame hremoved.ready hremoved.current⟩

theorem unlock_mutex_wellFormed (hwf : s.WellFormed) (h : s.unlock_mutex search task mutex = some t) :
    t.WellFormed := by
  rcases unlock_mutex_cases h with ⟨rfl, _⟩ |
    ⟨m, given, freed, old, p, mid, _, _, hgiven, hfreed, hp, hedit, hdone⟩
  · exact hwf
  · have hkept : p ≤ old.base_priority :=
      (kept_priority_le_iff hedit.task_before hp _).mpr (Or.inl (Nat.le_refl _))
    exact (reposition_cases (freed_wellFormed hwf hgiven hfreed).1 hedit hkept hdone).1

end AutosarScheduler

open AutosarScheduler

variable {search : BinarySearch Nat} {s t : AutosarScheduler}

theorem new_wellFormed (scheduler_cap : Nat) :
    (new scheduler_cap).WellFormed ∧ (new scheduler_cap).MostUrgent :=
  ⟨⟨List.nodup_nil, List.Pairwise.nil, fun _ => rfl, nofun, nofun⟩, ⟨fun _ => rfl, nofun⟩⟩

theorem Call.run_wellFormed {call : Call} (hwf : s.WellFormed) (hcall : call.Registered s)
    (h : call.run search s = some t) : t.WellFormed := by
  cases call with
  | add_task id period thread_cap =>
    cases h
    exact (add_task_wellFormed hwf hcall).1
  | make_ready id => exact (make_ready_wellFormed hwf h).1
  | lock_mutex task mutex => exact (lock_mutex_wellFormed hwf h).1
  | unlock_mutex task mutex => exact unlock_mutex_wellFormed hwf h

/-- The running task is a registered one. -/
theorem Call.Disciplined.registered {call : Call} (hcall : call.Disciplined s) (hwf : s.WellFormed) :
    call.Registered s := by
  cases call with
  | add_task id period thread_cap => exact hcall
  | make_ready id => exact hcall
  | lock_mutex task mutex => exact hwf.registered task (mem_runnable.mpr (Or.inl hcall))
  | unlock_mutex task mutex => exact hwf.registered task (mem_runnable.mpr (Or.inl hcall))

theorem registered_wellFormed {past : List (AutosarScheduler × Call)}
    (hrun : (registered search).Run past s) : s.WellFormed := by
  refine hrun.invariant ?_ ?_
  · rintro s ⟨scheduler_cap, rfl⟩
    exact (new_wellFormed scheduler_cap).1
  · intro s call t hwf hcall h
    exact Call.run_wellFormed hwf hcall h

/-- Whoever locks and unlocks, the ready list is in order in every state. -/
theorem ready_queue_in_order (search : BinarySearch Nat) (past : List (AutosarScheduler × Call))
    (s : AutosarScheduler) (hrun : (registered search).Run past s) : s.ReadyQueue :=
  (registered_wellFormed hrun).readyQueue

/-- Tasks 1 and 2 lock and unlock while task 3 is running. -/
def foreignCalls : List Call :=
  [.add_task 1 200 0, .add_task 2 100 0, .add_task 3 50 0, .make_ready 1, .make_ready 2,
    .make_ready 3, .lock_mutex 1 7, .lock_mutex 2 7, .unlock_mutex 1 7]

/-- Tasks that are not running lock and unlock a mutex, and the ready queue is in order all the same. -/
theorem ready_queue_foreign_callers :
    ∃ past s, (registered .std).Run past s ∧ past.length = 9 ∧ s.current = some 3 ∧
      s.ready = [2, 1] ∧ s.ReadyQueue := by
  obtain ⟨past, s, hrun, hcalls, _, hend⟩ := Machine.exists_run_of_reaches
    (M := registered .std) (.start ⟨0, rfl⟩) (fun _ _ => true)
    (fun s => s.current = some 3 ∧ s.ready = [2, 1]) foreignCalls (by decide +kernel)
  rw [decide_eq_true_eq] at hend
  have hlen := congrArg List.length hcalls
  rw [List.length_map] at hlen
  exact ⟨past, s, hrun, hlen, hend.1, hend.2, ready_queue_in_order .std past s hrun⟩

end l4.scheduler.autosar
