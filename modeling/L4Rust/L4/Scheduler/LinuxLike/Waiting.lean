import L4Rust.L4.Scheduler.LinuxLike.Fairness

open VirtualTime

namespace l4.scheduler.linux_like

namespace LinuxLikeScheduler

variable {s t u : LinuxLikeScheduler} {id : Nat}

/-- What a call does to the clocks of the tasks: a tick is a tick for the running one. -/
inductive Clocks (t : LinuxLikeScheduler) (call : Call) (u : LinuxLikeScheduler) : Prop where
  | same (hv : u.vruntime = t.vruntime) (hr : u.runtime = t.runtime) (hidle : call = .tick → t.current = none)
  | charged {c : Nat} {k : Task} (hcall : call = .tick) (hc : t.current = some c) (hk : t.tasks c = some k)
      (hv : u.vruntime = Function.update t.vruntime c (t.vruntime c + increment k.weight))
      (hr : u.runtime = Function.update t.runtime c (t.runtime c + 1))

theorem add_task_clocks {i : Nat} (weight thread_cap : Nat) (h : t.tasks i = none) :
    (t.add_task i weight thread_cap).vruntime = t.vruntime ∧
      (t.add_task i weight thread_cap).runtime = t.runtime := by
  constructor
  · funext j
    by_cases hj : j = i
    · subst hj
      simp [vruntime, task_vruntime, add_task, h]
    · simp [vruntime, task_vruntime, add_task, hj]
  · funext j
    by_cases hj : j = i
    · subst hj
      simp [runtime, task_runtime, add_task, h]
    · simp [runtime, task_runtime, add_task, hj]

theorem Inserted.clocks (h : Inserted t id u) : u.vruntime = t.vruntime ∧ u.runtime = t.runtime :=
  ⟨funext h.frame.vruntime, h.frame.runtime⟩

theorem Picked.clocks {ids : List Nat} (h : Picked t ids u) : u.vruntime = t.vruntime ∧ u.runtime = t.runtime :=
  ⟨funext h.frame.vruntime, h.frame.runtime⟩

end LinuxLikeScheduler

open LinuxLikeScheduler

variable {search : BinarySearch Nat} {s t u : LinuxLikeScheduler} {call : Call} {id : Nat}
  {past later : List (LinuxLikeScheduler × Call)}

theorem Call.run_clocks (hwf : t.WellFormed) (hcall : call.Disciplined t) (hrun : call.run search t = some u) :
    Clocks t call u := by
  cases call with
  | add_task i weight thread_cap =>
    cases hrun
    obtain ⟨hv, hr⟩ := add_task_clocks weight thread_cap hcall.1
    exact .same hv hr nofun
  | make_ready i =>
    obtain ⟨u', hready, hcases⟩ := make_ready_spec search hwf.queued hcall
    obtain rfl := Option.some.inj (hready.symm.trans hrun)
    obtain ⟨_, rfl⟩ | ⟨_, ⟨_, hpicked⟩ | ⟨_, hinserted⟩⟩ := hcases
    · exact .same rfl rfl nofun
    · exact .same hpicked.clocks.1 hpicked.clocks.2 nofun
    · exact .same hinserted.clocks.1 hinserted.clocks.2 nofun
  | tick =>
    obtain ⟨u', htick, hcases⟩ := tick_spec search hwf.queued hwf.chargeable
    obtain rfl := Option.some.inj (htick.symm.trans hrun)
    obtain ⟨hnone, rfl⟩ | ⟨c, k, hc, hk, hcases⟩ := hcases
    · exact .same rfl rfl fun _ => hnone
    · obtain ⟨hv, hr, -⟩ := charged_times hk
      obtain ⟨_, hpicked⟩ | ⟨_, rfl⟩ := hcases
      · exact .charged rfl hc hk (hpicked.clocks.1.trans hv) (hpicked.clocks.2.trans hr)
      · exact .charged rfl hc hk hv hr

/-- Nobody is ever removed from the table. -/
theorem Call.run_isSome (hwf : t.WellFormed) (hcall : call.Disciplined t) (hrun : call.run search t = some u)
    (h : (t.tasks id).isSome) : (u.tasks id).isSome := by
  by_cases hadd : ∃ i weight thread_cap, call = .add_task i weight thread_cap
  · obtain ⟨i, weight, thread_cap, rfl⟩ := hadd
    cases hrun
    by_cases hid : id = i
    · subst hid
      simp [LinuxLikeScheduler.add_task]
    · simpa [LinuxLikeScheduler.add_task, hid] using h
  · push Not at hadd
    have hweights := congrArg Option.isSome (Call.run_weights hwf hcall hadd hrun id)
    rw [Option.isSome_map, Option.isSome_map] at hweights
    rw [hweights]
    exact h

/-- A task that may run still may after any calls. -/
theorem runnable_later (hwf : s.WellFormed) (hid : id ∈ s.runnable)
    (hlater : ((disciplined search).restart s).Run later t) : t.WellFormed ∧ id ∈ t.runnable := by
  refine hlater.invariant (P := fun t => t.WellFormed ∧ id ∈ t.runnable) ?_ ?_
  · rintro t rfl
    exact ⟨hwf, hid⟩
  · rintro t call u ⟨hwf, hid⟩ hcall hrun
    obtain ⟨u', hrun', hwf', -, hmem⟩ := Call.run_spec search hwf hcall
    obtain rfl := Option.some.inj (hrun'.symm.trans hrun)
    exact ⟨hwf', (hmem id).mpr (.inl hid)⟩

theorem WellFormed.current_of_runnable (hwf : t.WellFormed) (hid : id ∈ t.runnable) : t.current ≠ none := by
  intro hnone
  rw [LinuxLikeScheduler.runnable, hnone, hwf.idle hnone] at hid
  cases hid

/-- While somebody may run, every tick is time for one of the tasks. -/
theorem run_total {ids : List Nat} (hnodup : ids.Nodup) (hwf : s.WellFormed) (hid : id ∈ s.runnable)
    (hlater : ((disciplined search).restart s).Run later t) (hids : ∀ i, (t.tasks i).isSome → i ∈ ids) :
    (ids.map t.runtime).sum = (ids.map s.runtime).sum + (later.map Prod.snd).count .tick := by
  induction hlater with
  | start hs =>
    cases hs
    rfl
  | @call later t u call hlater hcall hrun ih =>
    obtain ⟨hwf', hid'⟩ := runnable_later hwf hid hlater
    have htotal := ih fun i hi => hids i (Call.run_isSome hwf' hcall hrun hi)
    rw [List.map_append, List.count_append, List.map_singleton, ← Nat.add_assoc, ← htotal]
    cases Call.run_clocks hwf' hcall hrun with
    | same hv hr hidle =>
      have hquiet : call ≠ .tick := fun htick => WellFormed.current_of_runnable hwf' hid' (hidle htick)
      rw [hr, List.count_singleton, if_neg (by simpa using hquiet)]
      rfl
    | @charged c k htick hc hk hv hr =>
      have hmem : c ∈ ids := hids c (Call.run_isSome hwf' hcall hrun (by rw [hk]; rfl))
      rw [hr, htick, sum_map_update hnodup hmem]
      rfl

/-- What remains of the slice of the running task is part of it. -/
def Rationed (s : LinuxLikeScheduler) : Prop :=
  ∀ c k, s.current = some c → s.tasks c = some k → k.remaining ≤ k.slice

theorem disciplined_rationed (hrun : (disciplined search).Run past s) : Rationed s := by
  induction hrun with
  | start hinit =>
    obtain ⟨scheduler_cap, rfl⟩ := hinit
    exact nofun
  | @call past s t call hrun hcall h ih =>
    have hwf := disciplined_wellFormed hrun
    cases call with
    | add_task i weight thread_cap =>
      cases h
      intro c k hc hk
      rw [add_task_of_runnable hwf.queued hcall.1 (mem_runnable.mpr (.inl hc))] at hk
      exact ih c k hc hk
    | make_ready i =>
      obtain ⟨u', hready, hcases⟩ := make_ready_spec search hwf.queued hcall
      obtain rfl := Option.some.inj (hready.symm.trans h)
      obtain ⟨_, rfl⟩ | ⟨_, ⟨_, hpicked⟩ | ⟨_, hinserted⟩⟩ := hcases
      · exact ih
      · exact fun c k hc hk => (hpicked.fresh c k hc hk).le
      · intro c k hc hk
        rw [hinserted.current] at hc
        rw [hinserted.tasks] at hk
        exact ih c k hc hk
    | tick =>
      obtain ⟨u', htick, hcases⟩ := tick_spec search hwf.queued hwf.chargeable
      obtain rfl := Option.some.inj (htick.symm.trans h)
      obtain ⟨_, rfl⟩ | ⟨c, k, hc, hk, hcases⟩ := hcases
      · exact ih
      obtain ⟨_, hpicked⟩ | ⟨_, rfl⟩ := hcases
      · exact fun c k hc hk => (hpicked.fresh c k hc hk).le
      · intro c' k' hc' hk'
        obtain rfl : c = c' := Option.some.inj (hc.symm.trans hc')
        obtain ⟨_, rfl⟩ | hold := charged_cases hk'
        · exact (Nat.sub_le _ _).trans (ih c k hc hk)
        · exact ih c k' hc hold

/-- Since a given state the task has not run, and the others have caught up with it at most, or are about to. -/
structure Overtaken (s : LinuxLikeScheduler) (id : Nat) (t : LinuxLikeScheduler) : Prop where
  vruntime_eq : t.vruntime id = s.vruntime id
  runtime_eq : t.runtime id = s.runtime id
  advanced : ∀ i, s.vruntime i + t.runtime i ≤ t.vruntime i + s.runtime i
  bounded : ∀ i k, t.tasks i = some k →
    t.runtime i ≤ s.runtime i + (s.vruntime id - s.vruntime i) + k.slice

structure Waiting (s : LinuxLikeScheduler) (id : Nat) (t : LinuxLikeScheduler) : Prop extends
    Overtaken s id t where
  running : ∀ c k, t.current = some c → t.tasks c = some k →
    t.runtime c + k.remaining ≤ s.runtime c + (s.vruntime id - s.vruntime c) + k.slice

/-- Only a task that is not ahead of the waiting one is picked. -/
theorem Overtaken.picked {ids : List Nat} (h : Overtaken s id t) (hpicked : Picked t ids u)
    (hid : id ∈ u.ready) : Waiting s id u := by
  obtain ⟨hv, hr⟩ := hpicked.clocks
  refine ⟨⟨?_, ?_, ?_, ?_⟩, ?_⟩
  · rw [hv, h.vruntime_eq]
  · rw [hr, h.runtime_eq]
  · rw [hv, hr]
    exact h.advanced
  · intro i k hk
    obtain ⟨old, _, hold, rfl⟩ := hpicked.frame.task hk
    rw [hr]
    exact h.bounded i old hold
  · intro c k hc hk
    have hleast := hpicked.least c hc id hid
    have hfresh := hpicked.fresh c k hc hk
    have hadvanced := h.advanced c
    rw [hv, h.vruntime_eq] at hleast
    rw [hr]
    omega

theorem Waiting.charged {c : Nat} {k : Task} (h : Waiting s id t) (hc : t.current = some c)
    (hk : t.tasks c = some k) (hpos : 1 ≤ k.remaining) (hne : c ≠ id) : Overtaken s id (t.charged c k) := by
  obtain ⟨hv, hr, -⟩ := charged_times hk
  have hrunning := h.running c k hc hk
  refine ⟨?_, ?_, ?_, ?_⟩
  · rw [hv, Function.update_of_ne hne.symm, h.vruntime_eq]
  · rw [hr, Function.update_of_ne hne.symm, h.runtime_eq]
  · intro i
    have hadvanced := h.advanced i
    rw [hv, hr]
    by_cases hi : i = c
    · subst hi
      have hincrement := increment_pos k.weight
      rw [Function.update_self, Function.update_self]
      omega
    · rw [Function.update_of_ne hi, Function.update_of_ne hi]
      exact hadvanced
  · intro i k' hk'
    rw [hr]
    by_cases hi : i = c
    · subst hi
      have hself : (t.charged i k).tasks i = some k.charged := Function.update_self ..
      obtain rfl : k.charged = k' := Option.some.inj (hself.symm.trans hk')
      rw [Function.update_self]
      exact le_trans (by omega) hrunning
    · rw [charged_task_of_ne hi] at hk'
      rw [Function.update_of_ne hi]
      exact h.bounded i k' hk'

/-- A task that waits goes on doing so unless it is the one that runs. -/
theorem Waiting.step (h : Waiting s id t) (hwf : t.WellFormed) (hid : id ∈ t.ready) (hcall : call.Disciplined t)
    (hrun : call.run search t = some u) (hready : id ∈ u.ready) : Waiting s id u := by
  cases call with
  | add_task i weight thread_cap =>
    cases hrun
    obtain ⟨hv, hr⟩ := add_task_clocks weight thread_cap hcall.1
    have hzero : t.runtime i = 0 := by simp [runtime, task_runtime, hcall.1]
    refine ⟨⟨?_, ?_, ?_, ?_⟩, ?_⟩
    · rw [hv, h.vruntime_eq]
    · rw [hr, h.runtime_eq]
    · rw [hv, hr]
      exact h.advanced
    · intro j k hk
      rw [hr]
      by_cases hj : j = i
      · subst hj
        omega
      · have hold : t.tasks j = some k := by simpa [LinuxLikeScheduler.add_task, hj] using hk
        exact h.bounded j k hold
    · intro c k hc hk
      rw [add_task_of_runnable hwf.queued hcall.1 (mem_runnable.mpr (.inl hc))] at hk
      rw [hr]
      exact h.running c k hc hk
  | make_ready i =>
    obtain ⟨u', hmade, hcases⟩ := make_ready_spec search hwf.queued hcall
    obtain rfl := Option.some.inj (hmade.symm.trans hrun)
    obtain ⟨_, rfl⟩ | ⟨_, ⟨_, hpicked⟩ | ⟨_, hinserted⟩⟩ := hcases
    · exact h
    · exact h.toOvertaken.picked hpicked hready
    · obtain ⟨hv, hr⟩ := hinserted.clocks
      refine ⟨⟨?_, ?_, ?_, ?_⟩, ?_⟩
      · rw [hv, h.vruntime_eq]
      · rw [hr, h.runtime_eq]
      · rw [hv, hr]
        exact h.advanced
      · rw [hr, hinserted.tasks]
        exact h.bounded
      · rw [hr, hinserted.tasks, hinserted.current]
        exact h.running
  | tick =>
    obtain ⟨u', htick, hcases⟩ := tick_spec search hwf.queued hwf.chargeable
    obtain rfl := Option.some.inj (htick.symm.trans hrun)
    obtain ⟨_, rfl⟩ | ⟨c, k, hc, hk, hcases⟩ := hcases
    · exact h
    have hne : c ≠ id := fun heq => hwf.queued.current_not_ready hc (heq ▸ hid)
    have hcharged := h.charged hc hk (hwf.remaining c k hc hk) hne
    obtain ⟨_, hpicked⟩ | ⟨hmore, rfl⟩ := hcases
    · exact hcharged.picked hpicked hready
    · refine ⟨hcharged, ?_⟩
      intro c' k' hc' hk'
      obtain rfl : c = c' := Option.some.inj (hc.symm.trans hc')
      have hself : (t.charged c k).tasks c = some k.charged := Function.update_self ..
      obtain rfl : k.charged = k' := Option.some.inj (hself.symm.trans hk')
      have hrunning := h.running c k hc hk
      obtain ⟨-, hr, -⟩ := charged_times hk
      rw [hr, Function.update_self]
      simp only [Task.charged]
      omega

/-- How long a task may wait: until the given tasks have caught up with it, and for a slice of each. -/
def wait_bound (s : LinuxLikeScheduler) (id : Nat) (tasks : List (Nat × Nat)) : Nat :=
  (tasks.map fun p => if p.1 = id then 0 else s.vruntime id - s.vruntime p.1 + time_slice p.2).sum

theorem waiting_later (hwf : s.WellFormed) (hrationed : Rationed s) (hid : id ∈ s.runnable)
    (hlater : ((disciplined search).restart s).Run later t)
    (hwaits : ∀ p ∈ later, p.1.current ≠ some id) (hlast : t.current ≠ some id) : Waiting s id t := by
  induction hlater with
  | start hs =>
    cases hs
    refine ⟨⟨rfl, rfl, fun i => le_rfl, fun i k _ => by omega⟩, fun c k hc hk => ?_⟩
    have hle := hrationed c k hc hk
    omega
  | @call later t u call hlater hcall hrun ih =>
    rw [List.forall_mem_append, List.forall_mem_singleton] at hwaits
    obtain ⟨hwf', hid'⟩ := runnable_later hwf hid hlater
    have hready := (mem_runnable.mp hid').resolve_left hwaits.2
    obtain ⟨-, hid''⟩ := runnable_later hwf hid (hlater.call hcall hrun)
    exact (ih hwaits.1 hwaits.2).step hwf' hready hcall hrun ((mem_runnable.mp hid'').resolve_left hlast)

/-- However long the others wait, there are only so many ticks in which a task that may run does not. -/
theorem ticks_le_wait_bound (hrun : (disciplined search).Run past s) (hid : id ∈ s.runnable)
    (hlater : ((disciplined search).restart s).Run later t)
    (hwaits : ∀ p ∈ later, p.1.current ≠ some id) (hlast : t.current ≠ some id) :
    (later.map Prod.snd).count .tick ≤ wait_bound s id (added (past ++ later)) := by
  have hwf := disciplined_wellFormed hrun
  have hall := hrun.append hlater
  have hwaiting := waiting_later hwf (disciplined_rationed hrun) hid hlater hwaits hlast
  have hids (i : Nat) (hi : (t.tasks i).isSome) : i ∈ (added (past ++ later)).map Prod.fst := by
    obtain ⟨k, hk⟩ := Option.isSome_iff_exists.mp hi
    exact List.mem_map.mpr ⟨(i, k.weight), (mem_added_iff hall _ _).mpr (by rw [hk]; rfl), rfl⟩
  have htotal := run_total (added_nodup hall) hwf hid hlater hids
  rw [List.map_map, List.map_map] at htotal
  have hle : ((added (past ++ later)).map (t.runtime ∘ Prod.fst)).sum ≤
      ((added (past ++ later)).map (s.runtime ∘ Prod.fst)).sum + wait_bound s id (added (past ++ later)) := by
    rw [wait_bound, ← List.sum_map_add]
    apply List.sum_le_sum
    intro p hp
    obtain ⟨k, hk, hweight⟩ := Option.map_eq_some_iff.mp ((mem_added_iff hall p.1 p.2).mp hp)
    have hslice : k.slice = time_slice p.2 := by
      rw [← hweight]
      exact ((disciplined_wellFormed hall).slice p.1 k hk).1
    have hbound := hwaiting.bounded p.1 k hk
    simp only [Function.comp_apply]
    split
    · next heq => rw [heq, hwaiting.runtime_eq, Nat.add_zero]
    · omega
  omega

/-- The calls that a number of ticks are. -/
theorem exists_run_ticks (search : BinarySearch Nat) (hwf : s.WellFormed) (n : Nat) :
    ∃ later t, ((disciplined search).restart s).Run later t ∧ ticks search n s = some t ∧
      later.map Prod.snd = List.replicate n .tick ∧
      ∀ p ∈ later, ∃ m, m < n ∧ ticks search m s = some p.1 := by
  induction n with
  | zero => exact ⟨[], s, .start rfl, rfl, rfl, nofun⟩
  | succ n ih =>
    obtain ⟨later, t, hlater, ht, hcalls, hstates⟩ := ih
    have hwf' : t.WellFormed := hlater.invariant (P := WellFormed) (by rintro t rfl; exact hwf) (by
      intro t call u hwf hcall hrun
      obtain ⟨u', hrun', hwf', -⟩ := Call.run_spec search hwf hcall
      obtain rfl := Option.some.inj (hrun'.symm.trans hrun)
      exact hwf')
    have hcall : Call.tick.Disciplined t := trivial
    obtain ⟨u, htick, -⟩ := Call.run_spec search hwf' hcall
    refine ⟨later ++ [(t, .tick)], u, hlater.call (i := Call.tick) hcall htick, ?_, ?_, ?_⟩
    · rw [ticks, ht]
      exact htick
    · rw [List.map_append, hcalls, List.replicate_succ']
      rfl
    · rw [List.forall_mem_append, List.forall_mem_singleton]
      refine ⟨fun p hp => ?_, n, n.lt_succ_self, ht⟩
      obtain ⟨m, hm, hstate⟩ := hstates p hp
      exact ⟨m, hm.trans n.lt_succ_self, hstate⟩

/-- In no state that disciplined callers reach does a task starve that may run: whatever calls of theirs follow,
it waits for a bounded number of ticks, and ticks alone make it run, at the latest with the tick behind these. -/
theorem no_starvation (search : BinarySearch Nat) (past : List (LinuxLikeScheduler × Call))
    (s : LinuxLikeScheduler) (hrun : (disciplined search).Run past s) (id : Nat) (hid : id ∈ s.runnable) :
    (∀ later t, ((disciplined search).restart s).Run later t → (∀ p ∈ later, p.1.current ≠ some id) →
      t.current ≠ some id →
      (later.map Prod.snd).count .tick ≤ wait_bound s id (added (past ++ later))) ∧
    ∃ n t, n ≤ wait_bound s id (added past) + 1 ∧ ticks search n s = some t ∧ t.current = some id := by
  refine ⟨fun later t => ticks_le_wait_bound hrun hid, ?_⟩
  by_contra hnever
  push Not at hnever
  obtain ⟨later, t, hlater, ht, hcalls, hstates⟩ := exists_run_ticks search
    (disciplined_wellFormed hrun) (wait_bound s id (added past) + 1)
  have hwaits (p : LinuxLikeScheduler × Call) (hp : p ∈ later) : p.1.current ≠ some id := by
    obtain ⟨m, hm, hstate⟩ := hstates p hp
    exact hnever m p.1 hm.le hstate
  have hbound := ticks_le_wait_bound hrun hid hlater hwaits (hnever _ t le_rfl ht)
  have hadded : added (past ++ later) = added past := by
    rw [added, List.map_append, hcalls, List.filterMap_append]
    simp [added, Call.added]
  rw [hadded, hcalls, List.count_replicate_self] at hbound
  omega

/-- After the mixed calls, the task that has run most waits for the one that was woken late. -/
theorem no_starvation_mixed :
    ∃ past s, (disciplined .std).Run past s ∧ past.map Prod.snd = mixedCalls ∧ s.current = some 3 ∧
      s.ready = [2, 1] ∧ ∃ n t, n ≤ 20 ∧ ticks .std n s = some t ∧ t.current = some 1 := by
  obtain ⟨past, s, hrun, hcalls, _, hend⟩ := Machine.exists_run_of_reaches
    (M := disciplined .std) (.start ⟨0, rfl⟩) (fun _ _ => true)
    (fun s => s.current = some 3 ∧ s.ready = [2, 1] ∧ wait_bound s 1 [(1, 1024), (2, 512), (3, 2048)] = 19)
    mixedCalls (by decide +kernel)
  rw [decide_eq_true_eq] at hend
  obtain ⟨hcurrent, hready, hbound⟩ := hend
  have hadded : added past = [(1, 1024), (2, 512), (3, 2048)] := by
    rw [added, hcalls]
    rfl
  have hid : 1 ∈ s.runnable := mem_runnable.mpr (.inr (by simp [hready]))
  obtain ⟨-, n, t, hn, hticks, hpicked⟩ := no_starvation .std past s hrun 1 hid
  rw [hadded, hbound] at hn
  exact ⟨past, s, hrun, hcalls, hcurrent, hready, n, t, hn, hticks, hpicked⟩

end l4.scheduler.linux_like
