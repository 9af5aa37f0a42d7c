import Mathlib.Data.List.MinMax
import L4Rust.Library.VirtualTime
import L4Rust.L4.Scheduler.LinuxLike.Queue

open VirtualTime

namespace l4.scheduler.linux_like

/-- How far a task of the given weight gets ahead in one slice. -/
def quantum (weight : Nat) : Nat := time_slice weight * increment weight

theorem increment_pos (weight : Nat) : 1 ≤ increment weight := Nat.le_max_left ..

namespace LinuxLikeScheduler

variable {s t : LinuxLikeScheduler} {id : Nat}

def runtime (s : LinuxLikeScheduler) (id : Nat) : Nat := (s.task_runtime id).getD 0

def weight (s : LinuxLikeScheduler) (id : Nat) : Nat := (s.tasks id).elim 0 Task.weight

theorem runtime_of_task {k : Task} (h : s.tasks id = some k) : s.runtime id = k.runtime := by
  simp [runtime, task_runtime, h]

theorem weight_of_task {k : Task} (h : s.tasks id = some k) : s.weight id = k.weight := by
  simp [weight, h]

theorem Frame.runtime (h : Frame s t) : t.runtime = s.runtime := by
  funext id
  have haccount := congrArg (fun k => (k.map Task.runtime).getD 0) (h.accounts id)
  simp only [Option.map_map] at haccount
  simpa [LinuxLikeScheduler.runtime, task_runtime, Option.map_eq_bind, Function.comp_def, Task.account]
    using haccount

theorem Frame.weight (h : Frame s t) : t.weight = s.weight := by
  funext id
  have haccount := congrArg (fun k => (k.map Task.weight).getD 0) (h.accounts id)
  simp only [Option.map_map] at haccount
  unfold LinuxLikeScheduler.weight
  cases hs : s.tasks id <;> cases ht : t.tasks id <;> simp_all [Task.account]

/-- Only the running task gets older. -/
theorem charged_times {c : Nat} {k : Task} (hk : s.tasks c = some k) :
    (s.charged c k).vruntime = Function.update s.vruntime c (s.vruntime c + increment k.weight) ∧
      (s.charged c k).runtime = Function.update s.runtime c (s.runtime c + 1) ∧
      (s.charged c k).weight = s.weight := by
  have hself : (s.charged c k).tasks c = some k.charged := Function.update_self ..
  refine ⟨funext fun id => ?_, funext fun id => ?_, funext fun id => ?_⟩
  · by_cases hid : id = c
    · subst hid
      rw [vruntime_of_task hself, Function.update_self, vruntime_of_task hk]
      rfl
    · rw [charged_vruntime_of_ne hid, Function.update_of_ne hid]
  · by_cases hid : id = c
    · subst hid
      rw [runtime_of_task hself, Function.update_self, runtime_of_task hk]
      rfl
    · simp [runtime, task_runtime, charged_task_of_ne hid, hid]
  · by_cases hid : id = c
    · subst hid
      rw [weight_of_task hself, weight_of_task hk]
      rfl
    · simp [weight, charged_task_of_ne hid]

/-- Virtual time is fairly shared among the given tasks, all of which may run. -/
structure Fair (ids : List Nat) (s : LinuxLikeScheduler) : Prop where
  wellFormed : s.WellFormed
  runnable : s.runnable.Perm ids
  accounts : ∀ id k, s.tasks id = some k → k.vruntime = k.runtime * increment k.weight
  spread : Spread ids (fun i => quantum (s.weight i)) s.vruntime
  /-- At the start of its slice, nobody was behind the running task. -/
  running : ∀ c k, s.current = some c → s.tasks c = some k → ∀ j ∈ ids,
    k.vruntime + k.remaining * increment k.weight ≤ s.vruntime j + quantum k.weight

variable {ids : List Nat}

theorem charged_accounts {c : Nat} {k : Task}
    (haccounts : ∀ id k, s.tasks id = some k → k.vruntime = k.runtime * increment k.weight)
    (hk : s.tasks c = some k) (i : Nat) (k' : Task) (hk' : (s.charged c k).tasks i = some k') :
    k'.vruntime = k'.runtime * increment k'.weight := by
  by_cases hi : i = c
  · subst hi
    simp only [charged, Function.update_self, Option.some.injEq] at hk'
    subst hk'
    simp only [Task.charged, haccounts i k hk, Nat.succ_mul]
  · rw [charged_task_of_ne hi] at hk'
    exact haccounts i k' hk'

theorem charged_spread {c : Nat} {k : Task} (h : Fair ids s) (hc : s.current = some c)
    (hk : s.tasks c = some k) :
    Spread ids (fun i => quantum ((s.charged c k).weight i)) (s.charged c k).vruntime := by
  obtain ⟨hv, _, hw⟩ := charged_times hk
  rw [hv, hw]
  apply h.spread.charge
  intro j hj
  have hrunning := h.running c k hc hk j hj
  have hpos := h.wellFormed.remaining c k hc hk
  have hone : increment k.weight ≤ k.remaining * increment k.weight := Nat.le_mul_of_pos_left _ hpos
  rw [vruntime_of_task hk, weight_of_task hk]
  omega

/-- In the middle of a slice. -/
theorem charged_fair {c : Nat} {k : Task} (h : Fair ids s) (hc : s.current = some c)
    (hk : s.tasks c = some k) (hmore : 1 < k.remaining) : Fair ids (s.charged c k) := by
  obtain ⟨hv, _, _⟩ := charged_times hk
  refine ⟨charged_wellFormed h.wellFormed hc hk hmore, h.runnable, charged_accounts h.accounts hk,
    charged_spread h hc hk, ?_⟩
  intro c' k' hc' hk' j hj
  obtain rfl : c = c' := Option.some.inj (hc.symm.trans hc')
  simp only [charged, Function.update_self, Option.some.injEq] at hk'
  subst hk'
  have hrunning := h.running c k hc hk j hj
  have hgrows : s.vruntime j ≤ (s.charged c k).vruntime j := by
    rw [hv]
    by_cases hj : j = c
    · subst hj
      rw [Function.update_self]
      exact Nat.le_add_right _ _
    · rw [Function.update_of_ne hj]
  have hleft : k.remaining * increment k.weight =
      increment k.weight + (k.remaining - 1) * increment k.weight := by
    obtain ⟨r, hr⟩ := Nat.exists_eq_add_of_lt hmore
    rw [hr, Nat.add_sub_cancel, Nat.succ_mul, Nat.add_comm]
  simp only [Task.charged]
  omega

/-- At the end of a slice. -/
theorem Picked.fair {mid : LinuxLikeScheduler} (h : Picked mid ids t) (hwf : t.WellFormed)
    (haccounts : ∀ id k, mid.tasks id = some k → k.vruntime = k.runtime * increment k.weight)
    (hspread : Spread ids (fun i => quantum (mid.weight i)) mid.vruntime) : Fair ids t := by
  refine ⟨hwf, h.runnable, ?_, ?_, ?_⟩
  · intro id k hk
    obtain ⟨old, _, hold, rfl⟩ := h.frame.task hk
    exact haccounts id old hold
  · rw [h.frame.weight]
    intro i hi j hj
    rw [h.frame.vruntime, h.frame.vruntime]
    exact hspread i hi j hj
  · intro c k hc hk j hj
    have hleast : k.vruntime ≤ t.vruntime j := by
      rw [← vruntime_of_task hk]
      rcases mem_runnable.mp (h.runnable.mem_iff.mpr hj) with hcurrent | hready
      · rw [Option.some.inj (hc.symm.trans hcurrent)]
      · exact h.least c hc j hready
    have hslice : k.remaining = time_slice k.weight := by
      rw [h.fresh c k hc hk]
      exact (hwf.slice c k hk).1
    rw [hslice]
    exact Nat.add_le_add_right hleast _

/-- A tick is a tick for one of the tasks, and keeps virtual time fairly shared. -/
theorem tick_fair (search : BinarySearch Nat) (hids : ids ≠ []) (h : Fair ids s) :
    ∃ t, s.tick search = some t ∧ Fair ids t ∧ t.weight = s.weight ∧
      (ids.map t.runtime).sum = (ids.map s.runtime).sum + 1 := by
  have hnodup : ids.Nodup := h.runnable.nodup_iff.mp h.wellFormed.nodup
  obtain ⟨t, htick, hcases⟩ := tick_spec search h.wellFormed.queued h.wellFormed.chargeable
  refine ⟨t, htick, ?_⟩
  rcases hcases with ⟨hnone, rfl⟩ | ⟨c, k, hc, hk, hcases⟩
  · have hempty : t.runnable = [] := by
      rw [LinuxLikeScheduler.runnable, hnone, h.wellFormed.idle hnone]
      rfl
    have hperm := h.runnable
    rw [hempty] at hperm
    exact absurd (List.nil_perm.mp hperm) hids
  · obtain ⟨_, hr, hw⟩ := charged_times hk
    have hmem : c ∈ ids := h.runnable.mem_iff.mp (mem_runnable.mpr (Or.inl hc))
    have htotal : (ids.map (s.charged c k).runtime).sum = (ids.map s.runtime).sum + 1 := by
      rw [hr]
      exact sum_map_update hnodup hmem _
    rcases hcases with ⟨_, hpicked⟩ | ⟨hmore, rfl⟩
    · have hwf : t.WellFormed := hpicked.wellFormed h.wellFormed.nodup
        (fun i hi => charged_isSome (h.wellFormed.registered i hi)) (charged_slice h.wellFormed hk)
      have hpicked' := hpicked.before ⟨rfl, fun _ => rfl⟩ rfl h.runnable
      refine ⟨hpicked'.fair hwf (charged_accounts h.accounts hk) (charged_spread h hc hk), ?_, ?_⟩
      · rw [hpicked.frame.weight, hw]
      · rw [hpicked.frame.runtime, htotal]
    · exact ⟨charged_fair h hc hk hmore, hw, htotal⟩

/-- No task has run yet, and the one that is about to has a whole slice. -/
structure Untouched (s : LinuxLikeScheduler) : Prop where
  wellFormed : s.WellFormed
  zero : ∀ id k, s.tasks id = some k → k.vruntime = 0 ∧ k.runtime = 0
  full : ∀ c k, s.current = some c → s.tasks c = some k → k.remaining = k.slice

theorem Untouched.vruntime (h : s.Untouched) (id : Nat) : s.vruntime id = 0 := by
  cases hk : s.tasks id with
  | none => simp [LinuxLikeScheduler.vruntime, task_vruntime, hk]
  | some k => rw [vruntime_of_task hk, (h.zero id k hk).1]

theorem Untouched.fair (h : s.Untouched) (hperm : s.runnable.Perm ids) : Fair ids s := by
  refine ⟨h.wellFormed, hperm, ?_, ?_, ?_⟩
  · intro id k hk
    obtain ⟨hv, hr⟩ := h.zero id k hk
    rw [hv, hr, Nat.zero_mul]
  · intro i _ j _
    rw [h.vruntime i]
    exact Nat.zero_le _
  · intro c k hc hk j _
    have hslice : k.remaining = time_slice k.weight := by
      rw [h.full c k hc hk]
      exact (h.wellFormed.slice c k hk).1
    rw [(h.zero c k hk).1, h.vruntime, hslice, quantum]

end LinuxLikeScheduler

open LinuxLikeScheduler

variable {search : BinarySearch Nat} {s t : LinuxLikeScheduler}
  {past setup : List (LinuxLikeScheduler × Call)}

theorem Call.run_untouched {call : Call} (h : s.Untouched) (hcall : call.Disciplined s)
    (hsetup : call ≠ .tick) (hrun : call.run search s = some t) : t.Untouched := by
  obtain ⟨t', hrun', hwf, _⟩ := Call.run_spec search h.wellFormed hcall
  obtain rfl := Option.some.inj (hrun'.symm.trans hrun)
  cases call with
  | add_task id weight thread_cap =>
    cases hrun
    refine ⟨hwf, ?_, ?_⟩
    · intro i k hk
      by_cases hi : i = id
      · subst hi
        simp only [LinuxLikeScheduler.add_task, Function.update_self, Option.some.injEq] at hk
        subst hk
        exact ⟨rfl, rfl⟩
      · simp only [LinuxLikeScheduler.add_task, Function.update_of_ne hi] at hk
        exact h.zero i k hk
    · intro c k hc hk
      by_cases hi : c = id
      · subst hi
        simp only [LinuxLikeScheduler.add_task, Function.update_self, Option.some.injEq] at hk
        subst hk
        rfl
      · simp only [LinuxLikeScheduler.add_task, Function.update_of_ne hi] at hk
        exact h.full c k hc hk
  | make_ready id =>
    obtain ⟨t'', hready, hcases⟩ := make_ready_spec search h.wellFormed.queued hcall
    obtain rfl := Option.some.inj (hready.symm.trans hrun)
    rcases hcases with ⟨_, rfl⟩ | ⟨_, ⟨_, hpicked⟩ | ⟨_, hinserted⟩⟩
    · exact h
    · refine ⟨hwf, ?_, hpicked.fresh⟩
      intro i k hk
      obtain ⟨old, _, hold, rfl⟩ := hpicked.frame.task hk
      exact h.zero i old hold
    · refine ⟨hwf, ?_, ?_⟩
      · rw [hinserted.tasks]
        exact h.zero
      · rw [hinserted.tasks, hinserted.current]
        exact h.full
  | tick => exact absurd rfl hsetup

/-- The task that a call adds, with its weight. -/
def Call.added : Call → Option (Nat × Nat)
  | .add_task id weight _ => some (id, weight)
  | .make_ready _ | .tick => none

/-- The tasks added so far. -/
def added (past : List (LinuxLikeScheduler × Call)) : List (Nat × Nat) :=
  (past.map Prod.snd).filterMap Call.added

/-- All tasks are added, at least one of them, and made ready before the first
tick. -/
structure Setup (search : BinarySearch Nat) (setup : List (LinuxLikeScheduler × Call))
    (s : LinuxLikeScheduler) : Prop where
  run : (disciplined search).Run setup s
  no_tick : Call.tick ∉ setup.map Prod.snd
  nonempty : added setup ≠ []
  woken : ∀ p ∈ added setup, Woken setup p.1

theorem untouched_of_run (hrun : (disciplined search).Run past s)
    (hsetup : Call.tick ∉ past.map Prod.snd) : s.Untouched := by
  induction hrun with
  | start hinit =>
    obtain ⟨scheduler_cap, rfl⟩ := hinit
    exact ⟨new_wellFormed scheduler_cap, nofun, nofun⟩
  | @call past s t call hrun hcall h ih =>
    rw [List.map_append, List.mem_append, not_or] at hsetup
    have hlast : call ≠ .tick := fun heq => hsetup.2 (by simp [heq])
    exact Call.run_untouched (ih hsetup.1) hcall hlast h

/-- Only `add_task` adds a task or changes a weight. -/
theorem Call.run_weights {call : Call} (hwf : s.WellFormed) (hcall : call.Disciplined s)
    (hother : ∀ id weight thread_cap, call ≠ .add_task id weight thread_cap)
    (hrun : call.run search s = some t) (id : Nat) :
    (t.tasks id).map Task.weight = (s.tasks id).map Task.weight := by
  have hframe {u v : LinuxLikeScheduler} (h : Frame u v) :
      (v.tasks id).map Task.weight = (u.tasks id).map Task.weight := by
    have haccount := congrArg (Option.map Task.weight) (h.accounts id)
    rw [Option.map_map, Option.map_map] at haccount
    exact haccount
  cases call with
  | add_task i weight thread_cap => exact absurd rfl (hother i weight thread_cap)
  | make_ready i =>
    obtain ⟨t', hready, hcases⟩ := make_ready_spec search hwf.queued hcall
    obtain rfl := Option.some.inj (hready.symm.trans hrun)
    rcases hcases with ⟨_, rfl⟩ | ⟨_, ⟨_, hpicked⟩ | ⟨_, hinserted⟩⟩
    · rfl
    · exact hframe hpicked.frame
    · exact hframe hinserted.frame
  | tick =>
    obtain ⟨t', htick, hcases⟩ := tick_spec search hwf.queued hwf.chargeable
    obtain rfl := Option.some.inj (htick.symm.trans hrun)
    rcases hcases with ⟨_, rfl⟩ | ⟨c, k, _, hk, hcases⟩
    · rfl
    have hcharged : ((s.charged c k).tasks id).map Task.weight = (s.tasks id).map Task.weight := by
      by_cases hid : id = c
      · subst hid
        simp [charged, hk, Task.charged]
      · rw [charged_task_of_ne hid]
    rcases hcases with ⟨_, hpicked⟩ | ⟨_, rfl⟩
    · rw [hframe hpicked.frame, hcharged]
    · exact hcharged

theorem added_concat {call : Call} (hother : ∀ id weight thread_cap, call ≠ .add_task id weight thread_cap) :
    added (past ++ [(s, call)]) = added past := by
  unfold added
  rw [List.map_append, List.filterMap_append]
  cases call with
  | add_task id weight thread_cap => exact absurd rfl (hother id weight thread_cap)
  | make_ready id => exact List.append_nil _
  | tick => exact List.append_nil _

/-- The tasks of the scheduler are those that were added. -/
theorem mem_added_iff (hrun : (disciplined search).Run past s) (id weight : Nat) :
    (id, weight) ∈ added past ↔ (s.tasks id).map Task.weight = some weight := by
  induction hrun with
  | start hinit =>
    obtain ⟨scheduler_cap, rfl⟩ := hinit
    simp [added, new]
  | @call past s t call hrun hcall h ih =>
    by_cases hadd : ∃ i w c, call = .add_task i w c
    · obtain ⟨i, w, c, rfl⟩ := hadd
      cases h
      have happend : added (past ++ [(s, .add_task i w c)]) = added past ++ [(i, w)] := by
        simp [added, Call.added]
      rw [happend, List.mem_append, List.mem_singleton, ih]
      by_cases hid : id = i
      · subst hid
        simp [add_task, hcall.1, eq_comm]
      · simp [add_task, hid]
    · push Not at hadd
      rw [added_concat hadd, Call.run_weights (disciplined_wellFormed hrun) hcall hadd h, ih]

theorem added_nodup (hrun : (disciplined search).Run past s) : ((added past).map Prod.fst).Nodup := by
  induction hrun with
  | start hinit => exact List.nodup_nil
  | @call past s t call hrun hcall h ih =>
    by_cases hadd : ∃ i w c, call = .add_task i w c
    · obtain ⟨i, w, c, rfl⟩ := hadd
      have happend : added (past ++ [(s, .add_task i w c)]) = added past ++ [(i, w)] := by
        simp [added, Call.added]
      rw [happend, List.map_append, List.nodup_append]
      refine ⟨ih, List.pairwise_singleton _ _, ?_⟩
      intro a ha b hb
      obtain rfl := List.mem_singleton.mp hb
      obtain ⟨⟨id, weight⟩, hmem, rfl⟩ := List.mem_map.mp ha
      rintro rfl
      have hsome := (mem_added_iff hrun _ _).mp hmem
      rw [hcall.1] at hsome
      cases hsome
    · push Not at hadd
      rw [added_concat hadd]
      exact ih

theorem Setup.runnable (h : Setup search setup s) : s.runnable.Perm ((added setup).map Prod.fst) := by
  have hwf := disciplined_wellFormed h.run
  apply (List.perm_ext_iff_of_nodup hwf.nodup (added_nodup h.run)).mpr
  intro id
  constructor
  · intro hid
    obtain ⟨k, hk⟩ := Option.isSome_iff_exists.mp (hwf.registered id hid)
    exact List.mem_map.mpr ⟨(id, k.weight), (mem_added_iff h.run _ _).mpr (by rw [hk]; rfl), rfl⟩
  · intro hid
    obtain ⟨p, hp, rfl⟩ := List.mem_map.mp hid
    exact (mem_runnable_iff_woken h.run).mpr (h.woken p hp)

theorem Setup.fair (h : Setup search setup s) : Fair ((added setup).map Prod.fst) s :=
  (untouched_of_run h.run h.no_tick).fair h.runnable

def ticks (search : BinarySearch Nat) : Nat → LinuxLikeScheduler → Option LinuxLikeScheduler
  | 0, s => some s
  | n + 1, s => do
    let s ← ticks search n s
    s.tick search

/-- What holds after any number of ticks. -/
theorem Setup.ticks_fair (h : Setup search setup s) (n : Nat) :
    ∃ t, ticks search n s = some t ∧ Fair ((added setup).map Prod.fst) t ∧ t.weight = s.weight ∧
      (((added setup).map Prod.fst).map t.runtime).sum = n := by
  have hids : (added setup).map Prod.fst ≠ [] := fun hnil => h.nonempty (List.map_eq_nil_iff.mp hnil)
  induction n with
  | zero =>
    have hzero : s.runtime = fun _ => 0 := by
      funext id
      cases hk : s.tasks id with
      | none => simp [runtime, task_runtime, hk]
      | some k => rw [runtime_of_task hk, ((untouched_of_run h.run h.no_tick).zero id k hk).2]
    refine ⟨s, rfl, h.fair, rfl, ?_⟩
    simp [hzero, Function.comp_def]
  | succ n ih =>
    obtain ⟨t, ht, hfair, hweight, htotal⟩ := ih
    obtain ⟨u, hu, hfair', hweight', htotal'⟩ := tick_fair search hids hfair
    refine ⟨u, ?_, hfair', hweight'.trans hweight, by rw [htotal', htotal]⟩
    simp only [ticks, ht, Option.bind_eq_bind, Option.bind_some]
    exact hu

/-- The furthest any of the tasks gets ahead in one slice. -/
def largest_quantum (tasks : List (Nat × Nat)) : Nat := (tasks.map fun p => quantum p.2).foldr max 0

theorem quantum_le_largest {tasks : List (Nat × Nat)} {p : Nat × Nat} (hp : p ∈ tasks) :
    quantum p.2 ≤ largest_quantum tasks :=
  List.le_max_of_le (List.mem_map_of_mem hp) le_rfl

/-- The given tasks, with their weights, after a number of ticks. -/
structure FairAfter (tasks : List (Nat × Nat)) (n : Nat) (t : LinuxLikeScheduler) : Prop where
  accounts : ∀ p ∈ tasks, ∃ k, t.tasks p.1 = some k ∧ k.weight = p.2 ∧
    k.vruntime = k.runtime * increment p.2
  total : (tasks.map fun p => t.runtime p.1).sum = n
  spread : ∀ p ∈ tasks, ∀ q ∈ tasks, t.vruntime p.1 ≤ t.vruntime q.1 + largest_quantum tasks
  equal_weights : ∀ p ∈ tasks, ∀ q ∈ tasks, p.2 = q.2 → t.runtime p.1 ≤ t.runtime q.1 + time_slice p.2

theorem Setup.accounts (h : Setup search setup s) (hfair : Fair ((added setup).map Prod.fst) t)
    (hweight : t.weight = s.weight) {p : Nat × Nat} (hp : p ∈ added setup) :
    ∃ k, t.tasks p.1 = some k ∧ k.weight = p.2 ∧ k.vruntime = k.runtime * increment p.2 := by
  have hmem : p.1 ∈ t.runnable := hfair.runnable.mem_iff.mpr (List.mem_map_of_mem hp)
  obtain ⟨k, hk⟩ := Option.isSome_iff_exists.mp (hfair.wellFormed.registered p.1 hmem)
  obtain ⟨old, hold, hp2⟩ := Option.map_eq_some_iff.mp ((mem_added_iff h.run p.1 p.2).mp hp)
  have hk2 : k.weight = p.2 := by rw [← weight_of_task hk, hweight, weight_of_task hold, hp2]
  refine ⟨k, hk, hk2, ?_⟩
  rw [← hk2]
  exact hfair.accounts p.1 k hk

/-- Two tasks differ by no more than a slice of the one that is ahead. -/
theorem Setup.spread (h : Setup search setup s) (hfair : Fair ((added setup).map Prod.fst) t)
    (hweight : t.weight = s.weight) {p q : Nat × Nat} (hp : p ∈ added setup) (hq : q ∈ added setup) :
    t.runtime p.1 * increment p.2 ≤ t.runtime q.1 * increment q.2 + quantum p.2 := by
  obtain ⟨k, hk, hk2, hkv⟩ := h.accounts hfair hweight hp
  obtain ⟨l, hl, _, hlv⟩ := h.accounts hfair hweight hq
  have hspread := hfair.spread p.1 (List.mem_map_of_mem hp) q.1 (List.mem_map_of_mem hq)
  rw [vruntime_of_task hk, vruntime_of_task hl, hkv, hlv] at hspread
  rw [runtime_of_task hk, runtime_of_task hl, ← hk2, ← weight_of_task hk]
  rw [← hk2, ← weight_of_task hk] at hspread
  exact hspread

theorem Setup.vruntime (h : Setup search setup s) (hfair : Fair ((added setup).map Prod.fst) t)
    (hweight : t.weight = s.weight) {p : Nat × Nat} (hp : p ∈ added setup) :
    t.vruntime p.1 = t.runtime p.1 * increment p.2 := by
  obtain ⟨k, hk, _, hkv⟩ := h.accounts hfair hweight hp
  rw [vruntime_of_task hk, runtime_of_task hk, hkv]

/-- Once all tasks are made ready, every number of ticks leaves virtual time
fairly shared among them. -/
theorem virtual_time_fair (search : BinarySearch Nat) (setup : List (LinuxLikeScheduler × Call))
    (s : LinuxLikeScheduler) (h : Setup search setup s) (n : Nat) :
    ∃ t, ticks search n s = some t ∧ FairAfter (added setup) n t := by
  obtain ⟨t, ht, hfair, hweight, htotal⟩ := h.ticks_fair n
  refine ⟨t, ht, fun p hp => h.accounts hfair hweight hp, ?_, ?_, ?_⟩
  · rw [List.map_map] at htotal
    exact htotal
  · intro p hp q hq
    rw [h.vruntime hfair hweight hp, h.vruntime hfair hweight hq]
    exact (h.spread hfair hweight hp hq).trans (Nat.add_le_add_left (quantum_le_largest hp) _)
  · intro p hp q hq hequal
    have hspread := h.spread hfair hweight hp hq
    rw [← hequal, quantum, ← Nat.add_mul] at hspread
    exact Nat.le_of_mul_le_mul_right hspread (increment_pos p.2)

/-- Two tasks of equal weight and a lighter one. -/
def setupCalls : List Call :=
  [.add_task 1 1024 0, .make_ready 1, .add_task 2 512 0, .add_task 3 1024 0, .make_ready 3, .make_ready 2]

/-- With one task of half the weight of the other two, a thousand ticks are shared fairly. -/
theorem virtual_time_fair_three :
    ∃ setup s, Setup .std setup s ∧ added setup = [(1, 1024), (2, 512), (3, 1024)] ∧
      ∃ t, ticks .std 1000 s = some t ∧ FairAfter (added setup) 1000 t := by
  obtain ⟨setup, s, hrun, hcalls, _⟩ := Machine.exists_run_of_reaches
    (M := disciplined .std) (.start ⟨0, rfl⟩) (fun _ _ => true) (fun _ => true) setupCalls
    (by decide +kernel)
  have hadded : added setup = [(1, 1024), (2, 512), (3, 1024)] := by
    rw [added, hcalls]
    rfl
  have hsetup : Setup .std setup s := by
    refine ⟨hrun, ?_, ?_, ?_⟩
    · rw [hcalls]
      decide
    · rw [hadded]
      decide
    · rw [hadded]
      unfold Woken
      rw [hcalls]
      decide
  exact ⟨setup, s, hsetup, hadded, virtual_time_fair .std setup s hsetup 1000⟩

end l4.scheduler.linux_like
