import L4Rust.L4.Scheduler.LinuxLike

namespace l4.scheduler.linux_like

/-- A task apart from what remains of its slice. -/
def Task.account (task : Task) : Task := { task with remaining := 0 }

namespace LinuxLikeScheduler

variable {s t : LinuxLikeScheduler} {id : Nat}

def vruntime (s : LinuxLikeScheduler) (id : Nat) : Nat := (s.task_vruntime id).getD 0

/-- The tasks that may run: the current one and those in the ready list. -/
def runnable (s : LinuxLikeScheduler) : List Nat := s.current.toList ++ s.ready

/-- The ready list has the tasks with the least virtual runtime first. -/
def Sorted (s : LinuxLikeScheduler) : Prop := s.ready.Pairwise fun a b => s.vruntime a ≤ s.vruntime b

/-- Nothing about the tasks has changed but what remains of their slices. -/
structure Frame (s t : LinuxLikeScheduler) : Prop where
  scheduler_cap : t.scheduler_cap = s.scheduler_cap
  accounts : ∀ id, (t.tasks id).map Task.account = (s.tasks id).map Task.account

theorem vruntime_of_task {task : Task} (h : s.tasks id = some task) :
    s.vruntime id = task.vruntime := by
  simp [vruntime, task_vruntime, h]

theorem task_vruntime_of_isSome (h : (s.tasks id).isSome) :
    s.task_vruntime id = some (s.vruntime id) := by
  obtain ⟨task, htask⟩ := Option.isSome_iff_exists.mp h
  simp [vruntime, task_vruntime, htask]

theorem mem_runnable : id ∈ s.runnable ↔ s.current = some id ∨ id ∈ s.ready := by
  simp [runnable, Option.mem_toList]

theorem Frame.trans {u : LinuxLikeScheduler} (h : Frame s t) (h' : Frame t u) : Frame s u :=
  ⟨h'.scheduler_cap.trans h.scheduler_cap, fun id => (h'.accounts id).trans (h.accounts id)⟩

theorem Frame.isSome (h : Frame s t) (id : Nat) : (t.tasks id).isSome = (s.tasks id).isSome := by
  have haccount := congrArg Option.isSome (h.accounts id)
  rwa [Option.isSome_map, Option.isSome_map] at haccount

theorem Frame.vruntime (h : Frame s t) (id : Nat) : t.vruntime id = s.vruntime id := by
  have haccount := congrArg (fun k => (k.map Task.vruntime).getD 0) (h.accounts id)
  simp only [Option.map_map] at haccount
  simpa [LinuxLikeScheduler.vruntime, task_vruntime, Option.map_eq_bind, Function.comp_def, Task.account]
    using haccount

/-- The task as it was before. -/
theorem Frame.task {k : Task} (h : Frame s t) (hk : t.tasks id = some k) :
    ∃ old r, s.tasks id = some old ∧ k = { old with remaining := r } := by
  have haccount := h.accounts id
  rw [hk, Option.map_some] at haccount
  obtain ⟨old, hold, heq⟩ := Option.map_eq_some_iff.mp haccount.symm
  refine ⟨old, k.remaining, hold, ?_⟩
  simp only [Task.account, Task.mk.injEq] at heq
  obtain ⟨hweight, hvruntime, hruntime, hcap, hslice, _⟩ := heq
  rw [hweight, hvruntime, hruntime, hcap, hslice]

/-- One more task in the ready list, which is still in order. -/
structure Inserted (s : LinuxLikeScheduler) (id : Nat) (t : LinuxLikeScheduler) : Prop where
  scheduler_cap : t.scheduler_cap = s.scheduler_cap
  tasks : t.tasks = s.tasks
  current : t.current = s.current
  ran : t.ran = s.ran
  ready : t.ready.Perm (id :: s.ready)
  sorted : t.Sorted

theorem insert_ready_sorted_spec (search : BinarySearch Nat) (hsorted : s.Sorted)
    (hid : (s.tasks id).isSome) (hready : ∀ r ∈ s.ready, (s.tasks r).isSome) :
    ∃ t, s.insert_ready_sorted search id = some t ∧ Inserted s id t := by
  obtain ⟨front, back, hsplit, hinsert, horder⟩ := search.insertIdx_splits s.vruntime s.ready id
  obtain ⟨hfront, hback⟩ := horder hsorted
  refine ⟨{ s with ready := front ++ id :: back }, ?_, rfl, rfl, rfl, rfl, ?_, ?_⟩
  · have hkeys : s.ready.mapM s.task_vruntime = some (s.ready.map s.vruntime) :=
      Lists.mapM_eq_map fun r hr => task_vruntime_of_isSome (hready r hr)
    unfold insert_ready_sorted
    rw [task_vruntime_of_isSome hid, hkeys, ← hinsert]
    rfl
  · rw [hsplit]
    exact List.perm_middle
  · unfold Sorted at hsorted
    rw [hsplit] at hsorted
    exact BinarySearch.pairwise_insert hsorted hfront hback

theorem Inserted.frame (h : Inserted s id t) : Frame s t :=
  ⟨h.scheduler_cap, fun i => by rw [h.tasks]⟩

theorem Inserted.runnable (h : Inserted s id t) : t.runnable.Perm (id :: s.runnable) := by
  unfold LinuxLikeScheduler.runnable
  rw [h.current]
  exact (h.ready.append_left _).trans List.perm_middle

/-- The outcome of `run_next`: of the given tasks, one with the least virtual
runtime has a whole slice to run, and the others are ready. -/
structure Picked (s : LinuxLikeScheduler) (ids : List Nat) (t : LinuxLikeScheduler) : Prop where
  frame : Frame s t
  runnable : t.runnable.Perm ids
  sorted : t.Sorted
  idle : t.current = none → t.ready = []
  least : ∀ c, t.current = some c → ∀ r ∈ t.ready, t.vruntime c ≤ t.vruntime r
  fresh : ∀ c k, t.current = some c → t.tasks c = some k → k.remaining = k.slice
  ran : (t.current = none ∧ t.ran = s.ran) ∨
    ∃ c k, t.current = some c ∧ t.tasks c = some k ∧ t.ran = s.ran ++ [(s.scheduler_cap, k.thread_cap)]

theorem run_next_frame {next : Nat} {k : Task} (rest : List Nat) (hk : s.tasks next = some k) :
    Frame s { s with
      ready := rest
      tasks := Function.update s.tasks next (some { k with remaining := k.slice })
      current := some next
      ran := s.ran ++ [(s.scheduler_cap, k.thread_cap)] } := by
  refine ⟨rfl, fun id => ?_⟩
  by_cases hid : id = next
  · subst hid
    simp [hk, Task.account]
  · simp [hid]

theorem run_next_spec (hsorted : s.Sorted) (hcurrent : s.current = none)
    (hready : ∀ r ∈ s.ready, (s.tasks r).isSome) :
    ∃ t, s.run_next = some t ∧ Picked s s.ready t := by
  unfold Sorted at hsorted
  unfold run_next
  cases hlist : s.ready with
  | nil =>
    refine ⟨s, rfl, ⟨⟨rfl, fun _ => rfl⟩, ?_, ?_, fun _ => hlist, ?_, ?_, Or.inl ⟨hcurrent, rfl⟩⟩⟩
    · simp [LinuxLikeScheduler.runnable, hcurrent, hlist]
    · simp [Sorted, hlist]
    · intro c hc
      rw [hcurrent] at hc
      cases hc
    · intro c k hc
      rw [hcurrent] at hc
      cases hc
  | cons next rest =>
    rw [hlist] at hsorted hready
    obtain ⟨hnext, hrest⟩ := List.pairwise_cons.mp hsorted
    obtain ⟨k, hk⟩ := Option.isSome_iff_exists.mp (hready next (List.mem_cons_self ..))
    have hframe := run_next_frame rest hk
    refine ⟨_, by simp [hk], ⟨hframe, List.Perm.refl _, ?_, nofun, ?_, ?_, ?_⟩⟩
    · unfold Sorted
      simp only [hframe.vruntime]
      exact hrest
    · intro c hc r hr
      cases hc
      rw [hframe.vruntime, hframe.vruntime]
      exact hnext r hr
    · intro c k' hc hk'
      cases hc
      dsimp only at hk'
      rw [Function.update_self] at hk'
      cases hk'
      rfl
    · exact Or.inr ⟨next, _, rfl, Function.update_self .., rfl⟩

theorem Picked.before {mid : LinuxLikeScheduler} {ids ids' : List Nat} (h : Picked mid ids t)
    (hframe : Frame s mid) (hran : mid.ran = s.ran) (hids : ids.Perm ids') : Picked s ids' t := by
  refine ⟨hframe.trans h.frame, h.runnable.trans hids, h.sorted, h.idle, h.least, h.fresh, ?_⟩
  rw [← hran, ← hframe.scheduler_cap]
  exact h.ran

theorem preempt_spec (search : BinarySearch Nat) (hsorted : s.Sorted)
    (hrunnable : ∀ r ∈ s.runnable, (s.tasks r).isSome) :
    ∃ t, s.preempt search = some t ∧ Picked s s.runnable t := by
  have hready (r : Nat) (hr : r ∈ s.ready) : (s.tasks r).isSome :=
    hrunnable r (mem_runnable.mpr (Or.inr hr))
  unfold preempt
  cases hcurrent : s.current with
  | none =>
    have hall : s.runnable = s.ready := by simp [LinuxLikeScheduler.runnable, hcurrent]
    rw [hall]
    exact run_next_spec hsorted hcurrent hready
  | some cur =>
    have hall : s.runnable = cur :: s.ready := by simp [LinuxLikeScheduler.runnable, hcurrent]
    have hcur : (s.tasks cur).isSome := hrunnable cur (mem_runnable.mpr (Or.inl hcurrent))
    obtain ⟨mid, hmid, hinserted⟩ :=
      insert_ready_sorted_spec search (s := { s with current := none }) hsorted hcur hready
    have hmidReady (r : Nat) (hr : r ∈ mid.ready) : (mid.tasks r).isSome := by
      rw [hinserted.tasks]
      apply hrunnable
      rw [hall]
      exact hinserted.ready.mem_iff.mp hr
    obtain ⟨t, hrun, hpicked⟩ := run_next_spec hinserted.sorted hinserted.current hmidReady
    refine ⟨t, ?_, ?_⟩
    · simp only [hmid, Option.bind_eq_bind, Option.bind_some]
      exact hrun
    · rw [hall]
      exact hpicked.before ⟨hinserted.scheduler_cap, hinserted.frame.accounts⟩ hinserted.ran
        hinserted.ready

/-- What holds of the scheduler between any two calls. -/
structure WellFormed (s : LinuxLikeScheduler) : Prop where
  nodup : s.runnable.Nodup
  sorted : s.Sorted
  idle : s.current = none → s.ready = []
  registered : ∀ id ∈ s.runnable, (s.tasks id).isSome
  slice : ∀ id k, s.tasks id = some k → k.slice = time_slice k.weight ∧ 1 ≤ k.slice
  remaining : ∀ c k, s.current = some c → s.tasks c = some k → 1 ≤ k.remaining

/-- What holds of the queue whatever the weights of the tasks are. -/
structure Queued (s : LinuxLikeScheduler) : Prop where
  nodup : s.runnable.Nodup
  sorted : s.Sorted
  idle : s.current = none → s.ready = []
  registered : ∀ id ∈ s.runnable, (s.tasks id).isSome

theorem WellFormed.queued (h : s.WellFormed) : s.Queued :=
  ⟨h.nodup, h.sorted, h.idle, h.registered⟩

theorem Queued.current_not_ready {c : Nat} (h : s.Queued) (hc : s.current = some c) : c ∉ s.ready := by
  have hnodup := h.nodup
  rw [LinuxLikeScheduler.runnable, hc] at hnodup
  exact (List.nodup_cons.mp hnodup).1

theorem WellFormed.weight_pos {k : Task} (h : s.WellFormed) (hk : s.tasks id = some k) :
    k.weight ≠ 0 := by
  obtain ⟨hslice, hpos⟩ := h.slice id k hk
  intro hzero
  rw [hslice, hzero] at hpos
  cases hpos

theorem WellFormed.chargeable (h : s.WellFormed) (c : Nat) (k : Task) (hc : s.current = some c)
    (hk : s.tasks c = some k) : k.weight ≠ 0 ∧ 1 ≤ k.remaining :=
  ⟨h.weight_pos hk, h.remaining c k hc hk⟩

theorem Picked.queued {ids : List Nat} (h : Picked s ids t) (hnodup : ids.Nodup)
    (hids : ∀ i ∈ ids, (s.tasks i).isSome) : t.Queued := by
  refine ⟨h.runnable.nodup_iff.mpr hnodup, h.sorted, h.idle, ?_⟩
  intro i hi
  rw [h.frame.isSome]
  exact hids i (h.runnable.mem_iff.mp hi)

theorem Picked.wellFormed {ids : List Nat} (h : Picked s ids t) (hnodup : ids.Nodup)
    (hids : ∀ i ∈ ids, (s.tasks i).isSome)
    (hslice : ∀ id k, s.tasks id = some k → k.slice = time_slice k.weight ∧ 1 ≤ k.slice) :
    t.WellFormed := by
  have hslice' (i : Nat) (k : Task) (hk : t.tasks i = some k) :
      k.slice = time_slice k.weight ∧ 1 ≤ k.slice := by
    obtain ⟨old, _, hold, rfl⟩ := h.frame.task hk
    exact hslice i old hold
  have hqueued := h.queued hnodup hids
  refine ⟨hqueued.nodup, hqueued.sorted, hqueued.idle, hqueued.registered, hslice', ?_⟩
  intro c k hc hk
  rw [h.fresh c k hc hk]
  exact (hslice' c k hk).2

/-- A task that may already run stays where it is. Any other runs at once when
nothing runs or something with more virtual runtime does, and waits in the ready
list otherwise. -/
theorem make_ready_spec (search : BinarySearch Nat) (hqueued : s.Queued) (hid : (s.tasks id).isSome) :
    ∃ t, s.make_ready search id = some t ∧
      (id ∈ s.runnable ∧ t = s ∨
        id ∉ s.runnable ∧
          ((∀ c, s.current = some c → s.vruntime id < s.vruntime c) ∧ Picked s (id :: s.runnable) t ∨
            s.current ≠ none ∧ Inserted s id t)) := by
  unfold make_ready
  by_cases hmem : id ∈ s.runnable
  · rw [if_pos (mem_runnable.mp hmem)]
    exact ⟨s, rfl, Or.inl ⟨hmem, rfl⟩⟩
  rw [if_neg fun h => hmem (mem_runnable.mpr h)]
  obtain ⟨mid, hmid, hinserted⟩ := insert_ready_sorted_spec search hqueued.sorted hid
    fun r hr => hqueued.registered r (mem_runnable.mpr (Or.inr hr))
  have hregistered (r : Nat) (hr : r ∈ mid.runnable) : (mid.tasks r).isSome := by
    rw [hinserted.tasks]
    rcases List.mem_cons.mp (hinserted.runnable.mem_iff.mp hr) with rfl | hr
    · exact hid
    · exact hqueued.registered r hr
  have hframe := hinserted.frame
  simp only [hmid, Option.bind_eq_bind, Option.bind_some]
  rw [← hinserted.current]
  cases hcurrent : mid.current with
  | none =>
    have hall : mid.runnable = mid.ready := by simp [LinuxLikeScheduler.runnable, hcurrent]
    obtain ⟨t, hrun, hpicked⟩ := run_next_spec hinserted.sorted hcurrent
      fun r hr => hregistered r (by rw [hall]; exact hr)
    rw [← hall] at hpicked
    exact ⟨t, hrun, Or.inr ⟨hmem, Or.inl ⟨nofun, hpicked.before hframe hinserted.ran hinserted.runnable⟩⟩⟩
  | some cur =>
    have hcur := hregistered cur (mem_runnable.mpr (Or.inl hcurrent))
    have hnew : mid.task_vruntime id = some (s.vruntime id) := by
      rw [← hframe.vruntime]
      exact task_vruntime_of_isSome (by rw [hinserted.tasks]; exact hid)
    simp only [hnew, task_vruntime_of_isSome hcur, hframe.vruntime, Option.bind_some]
    by_cases hless : s.vruntime id < s.vruntime cur
    · rw [if_pos hless]
      obtain ⟨t, hrun, hpicked⟩ := preempt_spec search hinserted.sorted hregistered
      refine ⟨t, hrun, Or.inr ⟨hmem, Or.inl ⟨?_, hpicked.before hframe hinserted.ran hinserted.runnable⟩⟩⟩
      intro c hc
      cases hc
      exact hless
    · rw [if_neg hless]
      exact ⟨mid, rfl, Or.inr ⟨hmem, Or.inr ⟨nofun, hinserted⟩⟩⟩

/-- The running task after one more tick. -/
def charged (s : LinuxLikeScheduler) (c : Nat) (k : Task) : LinuxLikeScheduler :=
  { s with tasks := Function.update s.tasks c (some k.charged) }

theorem charged_task_of_ne {c : Nat} {k : Task} (h : id ≠ c) : (s.charged c k).tasks id = s.tasks id :=
  Function.update_of_ne h ..

theorem charged_vruntime_of_ne {c : Nat} {k : Task} (h : id ≠ c) :
    (s.charged c k).vruntime id = s.vruntime id := by
  simp [vruntime, task_vruntime, charged_task_of_ne h]

/-- Charging leaves the order of the ready list alone. -/
theorem charged_sorted {c : Nat} {k : Task} (hsorted : s.Sorted) (hc : c ∉ s.ready) :
    (s.charged c k).Sorted := by
  apply List.Pairwise.imp_of_mem _ hsorted
  intro a b ha hb hle
  have hane : a ≠ c := fun heq => hc (heq ▸ ha)
  have hbne : b ≠ c := fun heq => hc (heq ▸ hb)
  rw [charged_vruntime_of_ne hane, charged_vruntime_of_ne hbne]
  exact hle

theorem charged_isSome {c : Nat} {k : Task} (h : (s.tasks id).isSome) :
    ((s.charged c k).tasks id).isSome := by
  by_cases hid : id = c
  · subst hid
    simp [charged]
  · rw [charged_task_of_ne hid]
    exact h

/-- The running task is charged, and preempted at the end of its slice. -/
theorem tick_spec (search : BinarySearch Nat) (hqueued : s.Queued)
    (hcurrent : ∀ c k, s.current = some c → s.tasks c = some k → k.weight ≠ 0 ∧ 1 ≤ k.remaining) :
    ∃ t, s.tick search = some t ∧
      (s.current = none ∧ t = s ∨
        ∃ c k, s.current = some c ∧ s.tasks c = some k ∧
          (k.remaining = 1 ∧ Picked (s.charged c k) s.runnable t ∨
            1 < k.remaining ∧ t = s.charged c k)) := by
  cases hc : s.current with
  | none =>
    refine ⟨s, ?_, Or.inl ⟨rfl, rfl⟩⟩
    simp only [tick, hc, run_next, hqueued.idle hc]
  | some c =>
    obtain ⟨k, hk⟩ := Option.isSome_iff_exists.mp (hqueued.registered c (mem_runnable.mpr (Or.inl hc)))
    obtain ⟨hweight, hpos⟩ := hcurrent c k hc hk
    have hcharge : charge k = some k.charged := by
      unfold charge
      rw [if_neg]
      rintro (hzero | hzero)
      · exact hweight hzero
      · omega
    have htick : s.tick search =
        if k.charged.remaining = 0 then (s.charged c k).preempt search else some (s.charged c k) := by
      simp [tick, charged, hc, hk, hcharge]
    rw [htick]
    by_cases hend : k.remaining = 1
    · have hzero : k.charged.remaining = 0 := by simp [Task.charged, hend]
      rw [if_pos hzero]
      obtain ⟨t, hrun, hpicked⟩ := preempt_spec search
        (charged_sorted (k := k) hqueued.sorted (hqueued.current_not_ready hc))
        fun r hr => charged_isSome (hqueued.registered r hr)
      exact ⟨t, hrun, Or.inr ⟨c, k, rfl, hk, Or.inl ⟨hend, hpicked⟩⟩⟩
    · have hmore : k.charged.remaining ≠ 0 := by
        simp only [Task.charged]
        omega
      rw [if_neg hmore]
      exact ⟨s.charged c k, rfl, Or.inr ⟨c, k, rfl, hk, Or.inr ⟨by omega, rfl⟩⟩⟩

/-- Either nothing was picked to run, or a task with the least virtual runtime. -/
def PicksLeast (s t : LinuxLikeScheduler) : Prop :=
  t.ran = s.ran ∨ ∃ next k, t.current = some next ∧ t.tasks next = some k ∧
    t.ran = s.ran ++ [(s.scheduler_cap, k.thread_cap)] ∧ ∀ id ∈ t.runnable, k.vruntime ≤ t.vruntime id

theorem Picked.picksLeast {ids : List Nat} (h : Picked s ids t) : PicksLeast s t := by
  rcases h.ran with ⟨_, hran⟩ | ⟨c, k, hc, hk, hran⟩
  · exact Or.inl hran
  · refine Or.inr ⟨c, k, hc, hk, hran, ?_⟩
    intro id hid
    rw [← vruntime_of_task hk]
    rcases mem_runnable.mp hid with hcurrent | hready
    · rw [Option.some.inj (hc.symm.trans hcurrent)]
    · exact h.least c hc id hready

theorem add_task_of_runnable {weight thread_cap i : Nat} (hqueued : s.Queued) (hid : s.tasks id = none)
    (hi : i ∈ s.runnable) : (s.add_task id weight thread_cap).tasks i = s.tasks i := by
  apply Function.update_of_ne
  rintro rfl
  have hsome := hqueued.registered i hi
  rw [hid] at hsome
  cases hsome

theorem add_task_queued {weight thread_cap : Nat} (hqueued : s.Queued) (hid : s.tasks id = none) :
    (s.add_task id weight thread_cap).Queued := by
  refine ⟨hqueued.nodup, ?_, hqueued.idle, ?_⟩
  · apply List.Pairwise.imp_of_mem _ hqueued.sorted
    intro a b ha hb hle
    simp only [vruntime, task_vruntime, add_task_of_runnable hqueued hid (mem_runnable.mpr (Or.inr ha)),
      add_task_of_runnable hqueued hid (mem_runnable.mpr (Or.inr hb))]
    exact hle
  · intro i hi
    rw [add_task_of_runnable hqueued hid hi]
    exact hqueued.registered i hi

/-- A task of the table after `add_task` is the new one or an old one. -/
theorem add_task_cases {weight thread_cap i : Nat} {k : Task}
    (hk : (s.add_task id weight thread_cap).tasks i = some k) :
    k = ⟨weight, 0, 0, thread_cap, time_slice weight, time_slice weight⟩ ∨ s.tasks i = some k := by
  by_cases heq : i = id
  · subst heq
    simp only [add_task, Function.update_self, Option.some.injEq] at hk
    exact Or.inl hk.symm
  · simp only [add_task, Function.update_of_ne heq] at hk
    exact Or.inr hk

theorem add_task_wellFormed {weight thread_cap : Nat} (hwf : s.WellFormed) (hid : s.tasks id = none)
    (hweight : 1 ≤ time_slice weight) : (s.add_task id weight thread_cap).WellFormed := by
  have hqueued : (s.add_task id weight thread_cap).Queued := add_task_queued hwf.queued hid
  refine ⟨hqueued.nodup, hqueued.sorted, hqueued.idle, hqueued.registered, ?_, ?_⟩
  · intro i k hk
    rcases add_task_cases hk with rfl | hold
    · exact ⟨rfl, hweight⟩
    · exact hwf.slice i k hold
  · intro c k hc hk
    rw [add_task_of_runnable hwf.queued hid (mem_runnable.mpr (Or.inl hc))] at hk
    exact hwf.remaining c k hc hk

theorem Inserted.queued (h : Inserted s id t) (hqueued : s.Queued) (hnew : id ∉ s.runnable)
    (hid : (s.tasks id).isSome) (hbusy : s.current ≠ none) : t.Queued := by
  refine ⟨h.runnable.nodup_iff.mpr (List.nodup_cons.mpr ⟨hnew, hqueued.nodup⟩), h.sorted, ?_, ?_⟩
  · intro hnone
    rw [h.current] at hnone
    exact absurd hnone hbusy
  · intro i hi
    rw [h.tasks]
    rcases List.mem_cons.mp (h.runnable.mem_iff.mp hi) with rfl | hi
    · exact hid
    · exact hqueued.registered i hi

theorem Inserted.wellFormed (h : Inserted s id t) (hwf : s.WellFormed) (hnew : id ∉ s.runnable)
    (hid : (s.tasks id).isSome) (hbusy : s.current ≠ none) : t.WellFormed := by
  have hqueued := h.queued hwf.queued hnew hid hbusy
  refine ⟨hqueued.nodup, hqueued.sorted, hqueued.idle, hqueued.registered, ?_, ?_⟩
  · rw [h.tasks]
    exact hwf.slice
  · rw [h.tasks, h.current]
    exact hwf.remaining

/-- A task of the table after a tick is the charged one or an old one. -/
theorem charged_cases {c i : Nat} {k k' : Task} (hk' : (s.charged c k).tasks i = some k') :
    i = c ∧ k' = k.charged ∨ s.tasks i = some k' := by
  by_cases hi : i = c
  · subst hi
    simp only [charged, Function.update_self, Option.some.injEq] at hk'
    exact Or.inl ⟨rfl, hk'.symm⟩
  · rw [charged_task_of_ne hi] at hk'
    exact Or.inr hk'

theorem charged_queued {c : Nat} {k : Task} (hqueued : s.Queued) (hc : s.current = some c) :
    (s.charged c k).Queued :=
  ⟨hqueued.nodup, charged_sorted hqueued.sorted (hqueued.current_not_ready hc), hqueued.idle,
    fun i hi => charged_isSome (hqueued.registered i hi)⟩

theorem charged_slice {c : Nat} {k : Task} (hwf : s.WellFormed) (hk : s.tasks c = some k) (i : Nat)
    (k' : Task) (hk' : (s.charged c k).tasks i = some k') :
    k'.slice = time_slice k'.weight ∧ 1 ≤ k'.slice := by
  rcases charged_cases hk' with ⟨rfl, rfl⟩ | hold
  · exact hwf.slice i k hk
  · exact hwf.slice i k' hold

theorem charged_wellFormed {c : Nat} {k : Task} (hwf : s.WellFormed) (hc : s.current = some c)
    (hk : s.tasks c = some k) (hmore : 1 < k.remaining) : (s.charged c k).WellFormed := by
  have hqueued := charged_queued (k := k) hwf.queued hc
  refine ⟨hqueued.nodup, hqueued.sorted, hqueued.idle, hqueued.registered, charged_slice hwf hk, ?_⟩
  intro c' k' hc' hk'
  obtain rfl : c = c' := Option.some.inj (hc.symm.trans hc')
  simp only [charged, Function.update_self, Option.some.injEq] at hk'
  subst hk'
  simp only [Task.charged]
  omega

end LinuxLikeScheduler

open LinuxLikeScheduler

variable {search : BinarySearch Nat} {s t : LinuxLikeScheduler}

theorem new_wellFormed (scheduler_cap : Nat) : (new scheduler_cap).WellFormed :=
  ⟨List.nodup_nil, List.Pairwise.nil, fun _ => rfl, nofun, nofun, nofun⟩

/-- Every disciplined call returns, keeps the scheduler well formed, loses no task
and adds none but the one made ready. -/
theorem Call.run_spec (search : BinarySearch Nat) {call : Call} (hwf : s.WellFormed)
    (hcall : call.Disciplined s) :
    ∃ t, call.run search s = some t ∧ t.WellFormed ∧ PicksLeast s t ∧
      ∀ id, id ∈ t.runnable ↔ id ∈ s.runnable ∨ call = .make_ready id := by
  cases call with
  | add_task id weight thread_cap =>
    refine ⟨_, rfl, add_task_wellFormed hwf hcall.1 hcall.2, Or.inl rfl, ?_⟩
    intro i
    simp only [reduceCtorEq, or_false]
    rfl
  | make_ready id =>
    obtain ⟨t, hrun, hcases⟩ := make_ready_spec search hwf.queued hcall
    refine ⟨t, hrun, ?_⟩
    have hmem (i : Nat) (hperm : t.runnable.Perm (id :: s.runnable)) :
        i ∈ t.runnable ↔ i ∈ s.runnable ∨ Call.make_ready id = .make_ready i := by
      rw [hperm.mem_iff, List.mem_cons, Call.make_ready.injEq, or_comm, eq_comm]
    rcases hcases with ⟨hid, rfl⟩ | ⟨hid, ⟨_, hpicked⟩ | ⟨hbusy, hinserted⟩⟩
    · refine ⟨hwf, Or.inl rfl, fun i => ?_⟩
      simp only [Call.make_ready.injEq, iff_self_or]
      rintro rfl
      exact hid
    · refine ⟨hpicked.wellFormed (List.nodup_cons.mpr ⟨hid, hwf.nodup⟩) ?_ hwf.slice,
        hpicked.picksLeast, fun i => hmem i hpicked.runnable⟩
      intro i hi
      rcases List.mem_cons.mp hi with rfl | hi
      · exact hcall
      · exact hwf.registered i hi
    · exact ⟨hinserted.wellFormed hwf hid hcall hbusy, Or.inl hinserted.ran,
        fun i => hmem i hinserted.runnable⟩
  | tick =>
    obtain ⟨t, hrun, hcases⟩ := tick_spec search hwf.queued hwf.chargeable
    refine ⟨t, hrun, ?_⟩
    simp only [reduceCtorEq, or_false]
    rcases hcases with ⟨_, rfl⟩ | ⟨c, k, hc, hk, ⟨_, hpicked⟩ | ⟨hmore, rfl⟩⟩
    · exact ⟨hwf, Or.inl rfl, fun _ => Iff.rfl⟩
    · exact ⟨hpicked.wellFormed hwf.nodup (fun i hi => charged_isSome (hwf.registered i hi))
        (charged_slice hwf hk), hpicked.picksLeast, fun i => hpicked.runnable.mem_iff⟩
    · exact ⟨charged_wellFormed hwf hc hk hmore, Or.inl rfl, fun _ => Iff.rfl⟩

theorem disciplined_wellFormed {past : List (LinuxLikeScheduler × Call)}
    (hrun : (disciplined search).Run past s) : s.WellFormed := by
  refine hrun.invariant ?_ ?_
  · rintro s ⟨scheduler_cap, rfl⟩
    exact new_wellFormed scheduler_cap
  · intro s call t hwf hcall h
    obtain ⟨t', h', hwf', _⟩ := Call.run_spec search hwf hcall
    obtain rfl := Option.some.inj (h'.symm.trans h)
    exact hwf'

/-- The task has been made ready. -/
def Woken (past : List (LinuxLikeScheduler × Call)) (id : Nat) : Prop :=
  Call.make_ready id ∈ past.map Prod.snd

theorem woken_concat {past : List (LinuxLikeScheduler × Call)} {call : Call} {id : Nat} :
    Woken (past ++ [(s, call)]) id ↔ Woken past id ∨ call = .make_ready id := by
  simp [Woken, eq_comm]

theorem mem_runnable_iff_woken {past : List (LinuxLikeScheduler × Call)} {id : Nat}
    (hrun : (disciplined search).Run past s) : id ∈ s.runnable ↔ Woken past id := by
  induction hrun with
  | start hinit =>
    obtain ⟨scheduler_cap, rfl⟩ := hinit
    simp [new, runnable, Woken]
  | @call past s t call hrun hcall h ih =>
    obtain ⟨t', h', _, _, hmem⟩ := Call.run_spec search (disciplined_wellFormed hrun) hcall
    obtain rfl := Option.some.inj (h'.symm.trans h)
    rw [hmem, woken_concat, ih]

/-- The queue is in order, and every task that was made ready is in it or runs. -/
structure InOrder (past : List (LinuxLikeScheduler × Call)) (s : LinuxLikeScheduler) : Prop where
  nodup : s.ready.Nodup
  sorted : s.ready.Pairwise fun a b => s.vruntime a ≤ s.vruntime b
  current_not_ready : ∀ c, s.current = some c → c ∉ s.ready
  registered : ∀ r ∈ s.ready, (s.tasks r).isSome
  conserved : ∀ id, Woken past id → s.current = some id ∨ id ∈ s.ready
  idle : s.current = none → ∀ id, ¬ Woken past id

/-- In every state the queue is in order, and every call that may be made there
returns and lets nothing run but a task with the least virtual runtime. -/
theorem queue_in_order (search : BinarySearch Nat) (past : List (LinuxLikeScheduler × Call))
    (s : LinuxLikeScheduler) (hrun : (disciplined search).Run past s) :
    InOrder past s ∧
      ∀ call : Call, call.Disciplined s → ∃ t, call.run search s = some t ∧ PicksLeast s t := by
  have hwf := disciplined_wellFormed hrun
  refine ⟨⟨?_, hwf.sorted, fun c => hwf.queued.current_not_ready, ?_, ?_, ?_⟩, ?_⟩
  · exact (List.nodup_append.mp hwf.nodup).2.1
  · intro r hr
    exact hwf.registered r (mem_runnable.mpr (Or.inr hr))
  · intro id hid
    exact mem_runnable.mp ((mem_runnable_iff_woken hrun).mpr hid)
  · intro hnone id hid
    rcases mem_runnable.mp ((mem_runnable_iff_woken hrun).mpr hid) with hcurrent | hready
    · rw [hnone] at hcurrent
      cases hcurrent
    · rw [hwf.idle hnone] at hready
      cases hready
  · intro call hcall
    obtain ⟨t, h, _, hleast, _⟩ := Call.run_spec search hwf hcall
    exact ⟨t, h, hleast⟩

/-- Three tasks run past the ends of their slices, one of them woken late. -/
def mixedCalls : List Call :=
  [.add_task 1 1024 7, .add_task 2 512 8, .make_ready 1, .make_ready 2, .tick, .tick, .tick, .tick, .tick,
    .tick, .add_task 3 2048 9, .make_ready 3, .make_ready 1, .tick]

/-- Tasks of three weights, one of which is made ready late and one twice, are in line by their virtual
runtimes. -/
theorem queue_in_order_mixed :
    ∃ past s, (disciplined .std).Run past s ∧ past.map Prod.snd = mixedCalls ∧ s.current = some 3 ∧
      s.ready = [2, 1] ∧ InOrder past s := by
  obtain ⟨past, s, hrun, hcalls, _, hend⟩ := Machine.exists_run_of_reaches
    (M := disciplined .std) (.start ⟨0, rfl⟩) (fun _ _ => true)
    (fun s => s.current = some 3 ∧ s.ready = [2, 1]) mixedCalls (by decide +kernel)
  rw [decide_eq_true_eq] at hend
  exact ⟨past, s, hrun, hcalls, hend.1, hend.2, (queue_in_order .std past s hrun).1⟩

end l4.scheduler.linux_like
