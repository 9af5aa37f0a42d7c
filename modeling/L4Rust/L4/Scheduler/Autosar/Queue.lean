import L4Rust.L4.Scheduler.Autosar

namespace l4.scheduler.autosar.AutosarScheduler

variable {search : BinarySearch Nat} {s t : AutosarScheduler} {id : Nat}

/-- The current priority of a task. -/
def prio (s : AutosarScheduler) (id : Nat) : Nat := (s.task_priority id).getD 0

/-- The tasks that may run: the current one and those in the ready list. -/
def runnable (s : AutosarScheduler) : List Nat := s.current.toList ++ s.ready

/-- The ready list has the most urgent tasks first. -/
def Sorted (s : AutosarScheduler) : Prop := s.ready.Pairwise fun a b => s.prio a ≤ s.prio b

/-- A most urgent task is running, and nothing is ready when none is. -/
structure MostUrgent (s : AutosarScheduler) : Prop where
  idle : s.current = none → s.ready = []
  current_le : ∀ c, s.current = some c → ∀ r ∈ s.ready, s.prio c ≤ s.prio r

theorem task_priority_of_task {task : Task} (h : s.tasks id = some task) :
    s.task_priority id = some task.current_priority := by
  simp [task_priority, h]

theorem prio_of_task {task : Task} (h : s.tasks id = some task) :
    s.prio id = task.current_priority := by
  simp [prio, task_priority_of_task h]

theorem prio_congr (h : t.tasks id = s.tasks id) : t.prio id = s.prio id := by
  simp [prio, task_priority, h]

theorem eq_prio {p : Nat} (h : s.task_priority id = some p) : p = s.prio id := by
  simp [prio, h]

theorem isSome_of_task_priority {p : Nat} (h : s.task_priority id = some p) :
    (s.tasks id).isSome := by
  obtain ⟨task, htask, _⟩ := Option.bind_eq_some_iff.mp h
  rw [htask]
  rfl

theorem sorted_position_eq {ids : List Nat} {p pos : Nat}
    (h : s.sorted_position search ids p = some pos) :
    pos = search.position (ids.map s.prio) p := by
  obtain ⟨keys, hkeys, h⟩ := Option.bind_eq_some_iff.mp h
  cases h
  rw [Lists.eq_map_of_mapM (fun _ _ => eq_prio) hkeys]

/-- What inserting into the ready list does. -/
theorem insert_ready_sorted_cases (h : s.insert_ready_sorted search id = some t) :
    (s.tasks id).isSome ∧ ∃ front back, s.ready = front ++ back ∧
      t = { s with ready := front ++ id :: back } ∧
      (s.Sorted → (∀ r ∈ front, s.prio r ≤ s.prio id) ∧ ∀ r ∈ back, s.prio id ≤ s.prio r) := by
  obtain ⟨p, hp, h⟩ := Option.bind_eq_some_iff.mp h
  obtain ⟨pos, hpos, h⟩ := Option.bind_eq_some_iff.mp h
  cases h
  obtain rfl := eq_prio hp
  obtain rfl := sorted_position_eq hpos
  refine ⟨isSome_of_task_priority hp, ?_⟩
  obtain ⟨front, back, hsplit, hinsert, horder⟩ := search.insertIdx_splits s.prio s.ready id
  exact ⟨front, back, hsplit, by rw [hinsert], horder⟩

/-- No task and no mutex has changed. -/
structure Frame (s t : AutosarScheduler) : Prop where
  tasks : t.tasks = s.tasks
  mutexes : t.mutexes = s.mutexes

theorem Frame.trans {u : AutosarScheduler} (h : Frame s t) (h' : Frame t u) : Frame s u :=
  ⟨h'.tasks.trans h.tasks, h'.mutexes.trans h.mutexes⟩

theorem Frame.prio (h : Frame s t) (i : Nat) : t.prio i = s.prio i := prio_congr (by rw [h.tasks])

theorem insert_ready_sorted_frame (h : s.insert_ready_sorted search id = some t) : Frame s t := by
  obtain ⟨_, front, back, _, rfl, _⟩ := insert_ready_sorted_cases h
  exact ⟨rfl, rfl⟩

theorem run_next_frame (h : s.run_next = some t) : Frame s t := by
  unfold run_next at h
  cases hready : s.ready with
  | nil =>
    rw [hready] at h
    cases h
    exact ⟨rfl, rfl⟩
  | cons next rest =>
    rw [hready] at h
    obtain ⟨task, _, h⟩ := Option.bind_eq_some_iff.mp h
    cases h
    exact ⟨rfl, rfl⟩

theorem preempt_frame (h : s.preempt search = some t) : Frame s t := by
  unfold preempt at h
  cases hcurrent : s.current with
  | none =>
    rw [hcurrent] at h
    exact run_next_frame h
  | some cur =>
    rw [hcurrent] at h
    obtain ⟨mid, hmid, hrun⟩ := Option.bind_eq_some_iff.mp h
    have hinsert : Frame s mid := ⟨(insert_ready_sorted_frame hmid).tasks,
      (insert_ready_sorted_frame hmid).mutexes⟩
    exact hinsert.trans (run_next_frame hrun)

theorem make_ready_frame (h : s.make_ready search id = some t) : Frame s t := by
  unfold make_ready at h
  split at h
  · cases h
    exact ⟨rfl, rfl⟩
  obtain ⟨mid, hmid, h⟩ := Option.bind_eq_some_iff.mp h
  have hinsert := insert_ready_sorted_frame hmid
  cases hcurrent : mid.current with
  | none =>
    rw [hcurrent] at h
    exact hinsert.trans (run_next_frame h)
  | some cur =>
    rw [hcurrent] at h
    obtain ⟨cur_prio, _, h⟩ := Option.bind_eq_some_iff.mp h
    obtain ⟨new_prio, _, h⟩ := Option.bind_eq_some_iff.mp h
    split at h
    · exact hinsert.trans (preempt_frame h)
    · cases h
      exact hinsert

/-- The outcome of a scheduling decision: the given tasks may run now, and the
ready list is in order. -/
structure Dispatched (ids : List Nat) (t : AutosarScheduler) : Prop where
  runnable : t.runnable.Perm ids
  sorted : t.Sorted
  idle : t.current = none → t.ready = []

theorem insert_ready_sorted_sorted (hsorted : s.Sorted)
    (h : s.insert_ready_sorted search id = some t) :
    t.current = s.current ∧ t.ready.Perm (id :: s.ready) ∧ t.Sorted := by
  obtain ⟨_, front, back, hsplit, rfl, horder⟩ := insert_ready_sorted_cases h
  obtain ⟨hfront, hback⟩ := horder hsorted
  refine ⟨rfl, ?_, ?_⟩
  · rw [hsplit]
    exact List.perm_middle
  · unfold Sorted at hsorted
    rw [hsplit] at hsorted
    exact BinarySearch.pairwise_insert hsorted hfront hback

/-- The head of the ready list runs next, and it is a most urgent task. -/
theorem run_next_dispatched (hsorted : s.Sorted) (hidle : s.current = none)
    (h : s.run_next = some t) : Dispatched s.ready t ∧ t.MostUrgent := by
  unfold run_next at h
  unfold Sorted at hsorted
  cases hready : s.ready with
  | nil =>
    rw [hready] at h
    cases h
    refine ⟨⟨?_, ?_, fun _ => hready⟩, ⟨fun _ => hready, ?_⟩⟩
    · simp [AutosarScheduler.runnable, hidle, hready]
    · simp [Sorted, hready]
    · intro c hc
      rw [hidle] at hc
      cases hc
  | cons next rest =>
    rw [hready] at h hsorted
    obtain ⟨task, _, h⟩ := Option.bind_eq_some_iff.mp h
    cases h
    obtain ⟨hnext, hrest⟩ := List.pairwise_cons.mp hsorted
    refine ⟨⟨List.Perm.refl _, hrest, nofun⟩, ⟨nofun, ?_⟩⟩
    rintro c hc r hr
    cases hc
    exact hnext r hr

theorem preempt_dispatched (hsorted : s.Sorted) (h : s.preempt search = some t) :
    Dispatched s.runnable t ∧ t.MostUrgent := by
  unfold preempt at h
  cases hcurrent : s.current with
  | none =>
    rw [hcurrent] at h
    have hrun := run_next_dispatched hsorted hcurrent h
    simpa [AutosarScheduler.runnable, hcurrent] using hrun
  | some cur =>
    rw [hcurrent] at h
    obtain ⟨mid, hmid, hrun⟩ := Option.bind_eq_some_iff.mp h
    have hsorted' : Sorted { s with current := none } := hsorted
    obtain ⟨hnone, hperm, hmidSorted⟩ := insert_ready_sorted_sorted hsorted' hmid
    obtain ⟨hdone, hurgent⟩ := run_next_dispatched hmidSorted hnone hrun
    refine ⟨⟨?_, hdone.sorted, hdone.idle⟩, hurgent⟩
    simpa [AutosarScheduler.runnable, hcurrent] using hdone.runnable.trans hperm

/-- A task that may already run stays where it is. -/
theorem make_ready_of_runnable (hid : id ∈ s.runnable) (h : s.make_ready search id = some t) :
    t = s := by
  have hknown : s.current = some id ∨ id ∈ s.ready := by
    simpa [AutosarScheduler.runnable, Option.mem_toList] using hid
  unfold make_ready at h
  rw [if_pos hknown] at h
  cases h
  rfl

/-- Any other task runs at once when nothing runs or something less urgent does,
and waits in the ready list otherwise. -/
theorem make_ready_cases (hsorted : s.Sorted) (hid : id ∉ s.runnable)
    (h : s.make_ready search id = some t) :
    (s.tasks id).isSome ∧ Dispatched (id :: s.runnable) t ∧
      (((∀ c, s.current = some c → s.prio id < s.prio c) ∧ t.MostUrgent) ∨
        ∃ c, s.current = some c ∧ s.prio c ≤ s.prio id ∧ t.current = some c ∧
          t.ready.Perm (id :: s.ready)) := by
  have hnew : ¬ (s.current = some id ∨ id ∈ s.ready) := by
    simpa [AutosarScheduler.runnable, Option.mem_toList] using hid
  unfold make_ready at h
  rw [if_neg hnew] at h
  obtain ⟨mid, hmid, h⟩ := Option.bind_eq_some_iff.mp h
  have hsome := (insert_ready_sorted_cases hmid).1
  have hprio := (insert_ready_sorted_frame hmid).prio
  obtain ⟨hsame, hperm, hmidSorted⟩ := insert_ready_sorted_sorted hsorted hmid
  have hids : mid.runnable.Perm (id :: s.runnable) := by
    unfold AutosarScheduler.runnable
    rw [hsame]
    exact (List.Perm.append_left _ hperm).trans List.perm_middle
  refine ⟨hsome, ?_⟩
  cases hcurrent : s.current with
  | none =>
    rw [hsame, hcurrent] at h
    obtain ⟨hdone, hurgent⟩ := run_next_dispatched hmidSorted (hsame.trans hcurrent) h
    refine ⟨⟨?_, hdone.sorted, hdone.idle⟩, Or.inl ⟨nofun, hurgent⟩⟩
    refine hdone.runnable.trans (hperm.trans ?_)
    simp [AutosarScheduler.runnable, hcurrent]
  | some c =>
    rw [hsame, hcurrent] at h
    obtain ⟨cur_prio, hcur, h⟩ := Option.bind_eq_some_iff.mp h
    obtain ⟨new_prio, hnewPrio, h⟩ := Option.bind_eq_some_iff.mp h
    obtain rfl := eq_prio hcur
    obtain rfl := eq_prio hnewPrio
    rw [hprio, hprio] at h
    split at h
    · next hless =>
      obtain ⟨hdone, hurgent⟩ := preempt_dispatched hmidSorted h
      refine ⟨⟨hdone.runnable.trans hids, hdone.sorted, hdone.idle⟩, Or.inl ⟨?_, hurgent⟩⟩
      rintro c' hc'
      cases hc'
      exact hless
    · next hge =>
      cases h
      refine ⟨⟨hids, hmidSorted, ?_⟩,
        Or.inr ⟨c, rfl, Nat.le_of_not_lt hge, hsame.trans hcurrent, hperm⟩⟩
      intro hnone
      rw [hsame, hcurrent] at hnone
      cases hnone

/-- Every task still has the priorities it had. -/
def SamePriorities (s t : AutosarScheduler) : Prop :=
  ∀ i, (t.tasks i).map (fun k => (k.base_priority, k.current_priority)) =
    (s.tasks i).map fun k => (k.base_priority, k.current_priority)

theorem SamePriorities.of_tasks (h : t.tasks = s.tasks) : SamePriorities s t := by
  intro i
  rw [h]

theorem SamePriorities.trans {u : AutosarScheduler} (h : SamePriorities s t)
    (h' : SamePriorities t u) : SamePriorities s u :=
  fun i => (h' i).trans (h i)

theorem SamePriorities.prio (h : SamePriorities s t) (i : Nat) : t.prio i = s.prio i := by
  have hi := h i
  cases hs : s.tasks i with
  | none =>
    rw [hs, Option.map_none, Option.map_eq_none_iff] at hi
    simp [AutosarScheduler.prio, task_priority, hs, hi]
  | some old =>
    rw [hs] at hi
    obtain ⟨new, hnew, hsame⟩ := Option.map_eq_some_iff.mp hi
    rw [prio_of_task hs, prio_of_task hnew]
    exact congrArg Prod.snd hsame

theorem SamePriorities.isSome (h : SamePriorities s t) {i : Nat} (hi : (s.tasks i).isSome) :
    (t.tasks i).isSome := by
  have hmap := congrArg Option.isSome (h i)
  rw [Option.isSome_map, Option.isSome_map] at hmap
  rw [hmap, hi]

theorem SamePriorities.task (h : SamePriorities s t) {i : Nat} {new : Task}
    (hnew : t.tasks i = some new) :
    ∃ old, s.tasks i = some old ∧ new.base_priority = old.base_priority ∧
      new.current_priority = old.current_priority := by
  have hi := h i
  rw [hnew] at hi
  obtain ⟨old, hold, hsame⟩ := Option.map_eq_some_iff.mp hi.symm
  simp only [Prod.mk.injEq] at hsame
  exact ⟨old, hold, hsame.1.symm, hsame.2.symm⟩

/-- Only the task of the given id has changed. -/
structure Edited (s : AutosarScheduler) (id : Nat) (old new : Task) (t : AutosarScheduler) : Prop where
  task_before : s.tasks id = some old
  task_after : t.tasks id = some new
  others : ∀ i, i ≠ id → t.tasks i = s.tasks i
  mutexes : t.mutexes = s.mutexes
  ready : t.ready = s.ready
  current : t.current = s.current

theorem get_mut_edited {f : Task → Task} (h : s.get_mut id f = some t) :
    ∃ k, Edited s id k (f k) t := by
  obtain ⟨k, hk, h⟩ := Option.bind_eq_some_iff.mp h
  cases h
  exact ⟨k, hk, Function.update_self .., fun i hi => Function.update_of_ne hi .., rfl, rfl, rfl⟩

theorem Edited.samePriorities {old new : Task} (h : Edited s id old new t)
    (hbase : new.base_priority = old.base_priority)
    (hcurrent : new.current_priority = old.current_priority) : SamePriorities s t := by
  intro i
  by_cases hi : i = id
  · subst hi
    simp [h.task_before, h.task_after, hbase, hcurrent]
  · rw [h.others i hi]

/-- What every state of a run has in common. -/
structure WellFormed (s : AutosarScheduler) : Prop where
  nodup : s.runnable.Nodup
  sorted : s.Sorted
  idle : s.current = none → s.ready = []
  registered : ∀ i ∈ s.runnable, (s.tasks i).isSome
  boosted : ∀ i task, s.tasks i = some task → task.current_priority ≤ task.base_priority

theorem WellFormed.current_not_ready (h : s.WellFormed) (hcurrent : s.current = some id) :
    id ∉ s.ready := by
  have hnodup := h.nodup
  unfold AutosarScheduler.runnable at hnodup
  rw [hcurrent] at hnodup
  exact (List.nodup_cons.mp hnodup).1

/-- A scheduling decision among tasks that are there. -/
theorem WellFormed.dispatched (h : s.WellFormed) {ids : List Nat} (hframe : Frame s t)
    (hdone : Dispatched ids t) (hnodup : ids.Nodup) (hids : ∀ i ∈ ids, (s.tasks i).isSome) :
    t.WellFormed where
  nodup := hdone.runnable.nodup_iff.mpr hnodup
  sorted := hdone.sorted
  idle := hdone.idle
  registered := by
    intro i hi
    rw [hframe.tasks]
    exact hids i (hdone.runnable.mem_iff.mp hi)
  boosted := by
    rw [hframe.tasks]
    exact h.boosted

/-- Nothing that concerns the queue has changed. -/
theorem WellFormed.same_queue (h : s.WellFormed) (hprio : SamePriorities s t)
    (hready : t.ready = s.ready) (hcurrent : t.current = s.current) : t.WellFormed := by
  have hrunnable : t.runnable = s.runnable := by
    unfold AutosarScheduler.runnable
    rw [hready, hcurrent]
  refine ⟨?_, ?_, ?_, ?_, ?_⟩
  · rw [hrunnable]
    exact h.nodup
  · unfold Sorted
    simp only [hready, hprio.prio]
    exact h.sorted
  · rw [hready, hcurrent]
    exact h.idle
  · intro i hi
    rw [hrunnable] at hi
    exact hprio.isSome (h.registered i hi)
  · intro i new hnew
    obtain ⟨old, hold, hbase, hcur⟩ := hprio.task hnew
    rw [hbase, hcur]
    exact h.boosted i old hold

theorem MostUrgent.same_queue (h : s.MostUrgent) (hprio : SamePriorities s t)
    (hready : t.ready = s.ready) (hcurrent : t.current = s.current) : t.MostUrgent := by
  refine ⟨?_, ?_⟩
  · rw [hready, hcurrent]
    exact h.idle
  · intro c hc r hr
    rw [hcurrent] at hc
    rw [hready] at hr
    rw [hprio.prio, hprio.prio]
    exact h.current_le c hc r hr

/-- Making a task ready keeps a most urgent task running. -/
theorem make_ready_wellFormed (hwf : s.WellFormed) (h : s.make_ready search id = some t) :
    t.WellFormed ∧ (s.MostUrgent → t.MostUrgent) := by
  have hframe := make_ready_frame h
  by_cases hid : id ∈ s.runnable
  · obtain rfl := make_ready_of_runnable hid h
    exact ⟨hwf, fun hurgent => hurgent⟩
  obtain ⟨hsome, hdone, hcase⟩ := make_ready_cases hwf.sorted hid h
  have hids : ∀ i ∈ id :: s.runnable, (s.tasks i).isSome :=
    List.forall_mem_cons.mpr ⟨hsome, hwf.registered⟩
  refine ⟨hwf.dispatched hframe hdone (List.nodup_cons.mpr ⟨hid, hwf.nodup⟩) hids, ?_⟩
  intro hurgent
  rcases hcase with ⟨_, hdispatched⟩ | ⟨c, hc, hle, hsame, hperm⟩
  · exact hdispatched
  · refine ⟨hdone.idle, ?_⟩
    rintro c' hc' r hr
    rw [hsame] at hc'
    cases hc'
    rw [hframe.prio, hframe.prio]
    rcases List.mem_cons.mp (hperm.mem_iff.mp hr) with rfl | hr
    · exact hle
    · exact hurgent.current_le c hc r hr

end l4.scheduler.autosar.AutosarScheduler
