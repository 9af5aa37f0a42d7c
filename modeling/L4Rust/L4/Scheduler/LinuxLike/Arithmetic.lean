import L4Rust.L4.Scheduler.LinuxLike.Queue
import L4Rust.Library.Unsigned

namespace l4.scheduler.linux_like

namespace LinuxLikeScheduler

/-- `add_task` on machine words: the product may overflow. -/
def add_task_u64 (self : LinuxLikeScheduler) (id weight thread_cap : Nat) :
    Option LinuxLikeScheduler := do
  let product ← Unsigned.mul 64 BASE_SLICE weight
  let slice := product / 1024
  pure { self with
    tasks := Function.update self.tasks id (some ⟨weight, 0, 0, thread_cap, slice, slice⟩) }

/-- What `tick` does to the running task, on machine words and in the order of the
code. -/
def charge_u64 (task : Task) : Option Task := do
  let runtime ← Unsigned.add 64 task.runtime 1
  let quotient ← Unsigned.div 1024 task.weight
  let inc := max 1 quotient
  let vruntime ← Unsigned.add 64 task.vruntime inc
  let remaining ← Unsigned.sub task.remaining 1
  pure { task with runtime, vruntime, remaining }

def tick_u64 (search : BinarySearch Nat) (self : LinuxLikeScheduler) : Option LinuxLikeScheduler :=
  match self.current with
  | some cur => do
    let task ← self.tasks cur
    let task ← charge_u64 task
    let self := { self with tasks := Function.update self.tasks cur (some task) }
    if task.remaining = 0 then self.preempt search else pure self
  | none => self.run_next

variable {search : BinarySearch Nat} {s t : LinuxLikeScheduler} {id : Nat}

theorem add_task_u64_eq_some {weight thread_cap : Nat} :
    s.add_task_u64 id weight thread_cap = some t ↔
      BASE_SLICE * weight < 2 ^ 64 ∧ t = s.add_task id weight thread_cap := by
  simp only [add_task_u64, Option.bind_eq_bind, Option.bind_eq_some_iff, Unsigned.mul_eq_some]
  constructor
  · rintro ⟨_, ⟨hfits, rfl⟩, heq⟩
    exact ⟨hfits, (Option.some.inj heq).symm⟩
  · rintro ⟨hfits, rfl⟩
    exact ⟨_, ⟨hfits, rfl⟩, rfl⟩

/-- The words hold what the tick adds to, and something of the slice remains. -/
structure Chargeable (task : Task) : Prop where
  runtime : task.runtime + 1 < 2 ^ 64
  weight : task.weight ≠ 0
  vruntime : task.vruntime + increment task.weight < 2 ^ 64
  remaining : 1 ≤ task.remaining

theorem charge_u64_eq_some {task task' : Task} :
    charge_u64 task = some task' ↔ Chargeable task ∧ task' = task.charged := by
  constructor
  · intro h
    simp only [charge_u64, Option.bind_eq_bind, Option.bind_eq_some_iff, Unsigned.add_eq_some,
      Unsigned.div_eq_some, Unsigned.sub_eq_some] at h
    obtain ⟨_, ⟨hruntime, rfl⟩, _, ⟨hweight, rfl⟩, _, ⟨hvruntime, rfl⟩, _, ⟨hremaining, rfl⟩, heq⟩ := h
    exact ⟨⟨hruntime, hweight, hvruntime, hremaining⟩, (Option.some.inj heq).symm⟩
  · rintro ⟨h, rfl⟩
    simp only [charge_u64, Option.bind_eq_bind, Option.bind_eq_some_iff, Unsigned.add_eq_some,
      Unsigned.div_eq_some, Unsigned.sub_eq_some]
    exact ⟨_, ⟨h.runtime, rfl⟩, _, ⟨h.weight, rfl⟩, _, ⟨h.vruntime, rfl⟩, _, ⟨h.remaining, rfl⟩, rfl⟩

theorem charge_u64_eq_charge {task : Task} (h : Chargeable task) : charge_u64 task = charge task := by
  rw [charge_u64_eq_some.mpr ⟨h, rfl⟩, charge, if_neg]
  rintro (hzero | hzero)
  · exact h.weight hzero
  · exact absurd h.remaining (by omega)

/-- With enough room in the words a tick is the one on natural numbers, and
without it there is none. -/
theorem tick_u64_eq {c : Nat} {k : Task} (hc : s.current = some c) (hk : s.tasks c = some k) :
    (Chargeable k → s.tick_u64 search = s.tick search) ∧
      (¬ Chargeable k → s.tick_u64 search = none) := by
  constructor
  · intro h
    simp only [tick_u64, tick, hc, hk, Option.bind_eq_bind, Option.bind_some, charge_u64_eq_charge h]
  · intro h
    have hnone : charge_u64 k = none := by
      rw [Option.eq_none_iff_forall_not_mem]
      intro k' hk'
      exact h (charge_u64_eq_some.mp hk').1
    simp only [tick_u64, hc, hk, hnone, Option.bind_eq_bind, Option.bind_some, Option.bind_none]

theorem tick_u64_eq_tick (hqueued : s.Queued)
    (h : ∀ c k, s.current = some c → s.tasks c = some k → Chargeable k) :
    s.tick_u64 search = s.tick search := by
  cases hc : s.current with
  | none => simp only [tick_u64, tick, hc]
  | some c =>
    obtain ⟨k, hk⟩ :=
      Option.isSome_iff_exists.mp (hqueued.registered c (mem_runnable.mpr (Or.inl hc)))
    exact (tick_u64_eq hc hk).1 (h c k hc hk)

theorem tick_u64_chargeable (htick : s.tick_u64 search = some t) (c : Nat) (k : Task)
    (hc : s.current = some c) (hk : s.tasks c = some k) : Chargeable k := by
  by_contra hnot
  rw [(tick_u64_eq hc hk).2 hnot] at htick
  cases htick

/-- What holds after a number of ticks, whatever the weights of the tasks are. -/
structure Accounted (ticks : Nat) (s : LinuxLikeScheduler) : Prop where
  queued : s.Queued
  slice : ∀ id k, s.tasks id = some k → k.slice = time_slice k.weight
  runtime : ∀ id k, s.tasks id = some k → k.runtime ≤ ticks
  vruntime : ∀ id k, s.tasks id = some k → k.vruntime ≤ 1024 * ticks
  remaining : ∀ c k, s.current = some c → s.tasks c = some k →
    k.remaining ≤ k.slice ∧ (1 ≤ k.slice → 1 ≤ k.remaining)

theorem increment_le (weight : Nat) : increment weight ≤ 1024 :=
  max_le (by decide) (Nat.div_le_self ..)

theorem time_slice_pos {weight : Nat} : 1 ≤ time_slice weight ↔ 205 ≤ weight := by
  unfold time_slice BASE_SLICE
  omega

theorem Accounted.mono {n m : Nat} (h : Accounted n s) (hle : n ≤ m) : Accounted m s := by
  refine ⟨h.queued, h.slice, ?_, ?_, h.remaining⟩
  · intro i k hk
    exact (h.runtime i k hk).trans hle
  · intro i k hk
    exact (h.vruntime i k hk).trans (Nat.mul_le_mul_left _ hle)

/-- A task picked to run starts a whole slice. -/
theorem Picked.accounted {ids : List Nat} {n : Nat} (h : Picked s ids t) (hqueued : t.Queued)
    (hslice : ∀ id k, s.tasks id = some k → k.slice = time_slice k.weight)
    (hruntime : ∀ id k, s.tasks id = some k → k.runtime ≤ n)
    (hvruntime : ∀ id k, s.tasks id = some k → k.vruntime ≤ 1024 * n) : Accounted n t := by
  refine ⟨hqueued, ?_, ?_, ?_, ?_⟩
  · intro i k hk
    obtain ⟨old, _, hold, rfl⟩ := h.frame.task hk
    exact hslice i old hold
  · intro i k hk
    obtain ⟨old, _, hold, rfl⟩ := h.frame.task hk
    exact hruntime i old hold
  · intro i k hk
    obtain ⟨old, _, hold, rfl⟩ := h.frame.task hk
    exact hvruntime i old hold
  · intro c k hc hk
    rw [h.fresh c k hc hk]
    exact ⟨Nat.le_refl _, id⟩

theorem add_task_accounted {weight thread_cap n : Nat} (h : Accounted n s) (hid : s.tasks id = none) :
    Accounted n (s.add_task id weight thread_cap) := by
  refine ⟨add_task_queued h.queued hid, ?_, ?_, ?_, ?_⟩
  · intro i k hk
    rcases add_task_cases hk with rfl | hold
    · rfl
    · exact h.slice i k hold
  · intro i k hk
    rcases add_task_cases hk with rfl | hold
    · exact Nat.zero_le _
    · exact h.runtime i k hold
  · intro i k hk
    rcases add_task_cases hk with rfl | hold
    · exact Nat.zero_le _
    · exact h.vruntime i k hold
  · intro c k hc hk
    rw [add_task_of_runnable h.queued hid (mem_runnable.mpr (Or.inl hc))] at hk
    exact h.remaining c k hc hk

theorem make_ready_accounted (search : BinarySearch Nat) {n : Nat} (h : Accounted n s) (hid : (s.tasks id).isSome) :
    ∃ t, s.make_ready search id = some t ∧ Accounted n t := by
  obtain ⟨t, hrun, hcases⟩ := make_ready_spec search h.queued hid
  refine ⟨t, hrun, ?_⟩
  rcases hcases with ⟨_, rfl⟩ | ⟨hnew, ⟨_, hpicked⟩ | ⟨hbusy, hinserted⟩⟩
  · exact h
  · refine hpicked.accounted (hpicked.queued (List.nodup_cons.mpr ⟨hnew, h.queued.nodup⟩) ?_)
      h.slice h.runtime h.vruntime
    intro i hi
    rcases List.mem_cons.mp hi with rfl | hi
    · exact hid
    · exact h.queued.registered i hi
  · refine ⟨hinserted.queued h.queued hnew hid hbusy, ?_, ?_, ?_, ?_⟩
    · rw [hinserted.tasks]
      exact h.slice
    · rw [hinserted.tasks]
      exact h.runtime
    · rw [hinserted.tasks]
      exact h.vruntime
    · rw [hinserted.tasks, hinserted.current]
      exact h.remaining

/-- A tick adds at most one to a runtime, and at most 1024 to a virtual runtime. -/
theorem charged_bounds {c n : Nat} {k : Task} (h : Accounted n s) (hk : s.tasks c = some k) (i : Nat)
    (k' : Task) (hk' : (s.charged c k).tasks i = some k') :
    k'.slice = time_slice k'.weight ∧ k'.runtime ≤ n + 1 ∧ k'.vruntime ≤ 1024 * (n + 1) := by
  rcases charged_cases hk' with ⟨rfl, rfl⟩ | hold
  · have hruntime := h.runtime i k hk
    have hvruntime := h.vruntime i k hk
    have hinc := increment_le k.weight
    refine ⟨h.slice i k hk, ?_, ?_⟩
    · simp only [Task.charged]
      omega
    · simp only [Task.charged]
      omega
  · have hruntime := h.runtime i k' hold
    have hvruntime := h.vruntime i k' hold
    exact ⟨h.slice i k' hold, by omega, by omega⟩

theorem tick_u64_accounted (search : BinarySearch Nat) {n : Nat} (h : Accounted n s)
    (hcharge : ∀ c k, s.current = some c → s.tasks c = some k → Chargeable k) :
    ∃ t, s.tick_u64 search = some t ∧ Accounted (n + 1) t := by
  obtain ⟨t, hrun, hcases⟩ := tick_spec search h.queued
    fun c k hc hk => ⟨(hcharge c k hc hk).weight, (hcharge c k hc hk).remaining⟩
  rw [← tick_u64_eq_tick h.queued hcharge] at hrun
  refine ⟨t, hrun, ?_⟩
  rcases hcases with ⟨_, rfl⟩ | ⟨c, k, hc, hk, ⟨_, hpicked⟩ | ⟨hmore, rfl⟩⟩
  · exact h.mono (Nat.le_succ n)
  · have hbounds := charged_bounds h hk
    exact hpicked.accounted
      (hpicked.queued h.queued.nodup fun i hi => charged_isSome (h.queued.registered i hi))
      (fun i k' hk' => (hbounds i k' hk').1) (fun i k' hk' => (hbounds i k' hk').2.1)
      (fun i k' hk' => (hbounds i k' hk').2.2)
  · have hbounds := charged_bounds h hk
    refine ⟨charged_queued h.queued hc, fun i k' hk' => (hbounds i k' hk').1,
      fun i k' hk' => (hbounds i k' hk').2.1, fun i k' hk' => (hbounds i k' hk').2.2, ?_⟩
    intro c' k' hc' hk'
    obtain rfl : c = c' := Option.some.inj (hc.symm.trans hc')
    obtain ⟨hle, _⟩ := h.remaining c k hc hk
    simp only [charged, Function.update_self, Option.some.injEq] at hk'
    subst hk'
    simp only [Task.charged]
    omega

/-- Before the 2³²th tick the counters are far from the end of their words. -/
theorem Accounted.chargeable_iff {n c : Nat} {k : Task} (h : Accounted n s) (hn : n < 2 ^ 32)
    (hc : s.current = some c) (hk : s.tasks c = some k) : Chargeable k ↔ 205 ≤ k.weight := by
  have hslice := h.slice c k hk
  obtain ⟨hle, hpos⟩ := h.remaining c k hc hk
  rw [← time_slice_pos, ← hslice]
  constructor
  · intro hcharge
    exact hcharge.remaining.trans hle
  · intro hsome
    have hruntime := h.runtime c k hk
    have hvruntime := h.vruntime c k hk
    have hinc := increment_le k.weight
    refine ⟨by omega, ?_, by omega, hpos hsome⟩
    intro hzero
    rw [hslice, hzero] at hsome
    cases hsome

end LinuxLikeScheduler

open LinuxLikeScheduler

def Call.run_u64 (search : BinarySearch Nat) (s : LinuxLikeScheduler) :
    Call → Option LinuxLikeScheduler
  | .add_task id weight thread_cap => s.add_task_u64 id weight thread_cap
  | .make_ready id => s.make_ready search id
  | .tick => s.tick_u64 search

/-- Each task is added once and before it is made ready; its weight is any `u64`. -/
def Call.Registered (s : LinuxLikeScheduler) : Call → Prop
  | .add_task id weight _ => s.tasks id = none ∧ weight < 2 ^ 64
  | .make_ready id => (s.tasks id).isSome
  | .tick => True

instance (s : LinuxLikeScheduler) (call : Call) : Decidable (call.Registered s) :=
  match call with
  | .add_task id weight _ => inferInstanceAs (Decidable (s.tasks id = none ∧ weight < 2 ^ 64))
  | .make_ready id => inferInstanceAs (Decidable ((s.tasks id).isSome))
  | .tick => inferInstanceAs (Decidable True)

/-- The scheduler on machine words, with tasks of any weight. -/
def anyWeight (search : BinarySearch Nat) : Machine LinuxLikeScheduler Call where
  init s := ∃ scheduler_cap, s = new scheduler_cap
  allowed := Call.Registered
  step := Call.run_u64 search

instance (search : BinarySearch Nat) (s : LinuxLikeScheduler) (call : Call) :
    Decidable ((anyWeight search).allowed s call) :=
  inferInstanceAs (Decidable (call.Registered s))

/-- How often `tick` has been called. -/
def tickCount (calls : List Call) : Nat := calls.count .tick

variable {search : BinarySearch Nat} {s t : LinuxLikeScheduler}
  {past : List (LinuxLikeScheduler × Call)}

/-- What a call on machine words leaves. -/
theorem Call.run_u64_accounted {call : Call} {n : Nat} (h : Accounted n s) (hcall : call.Registered s)
    (hrun : call.run_u64 search s = some t) : Accounted (n + tickCount [call]) t := by
  cases call with
  | add_task id weight thread_cap =>
    obtain ⟨_, rfl⟩ := add_task_u64_eq_some.mp hrun
    exact add_task_accounted h hcall.1
  | make_ready id =>
    obtain ⟨t', hready, haccounted⟩ := make_ready_accounted search h hcall
    obtain rfl := Option.some.inj (hready.symm.trans hrun)
    exact haccounted
  | tick =>
    obtain ⟨t', htick, haccounted⟩ := tick_u64_accounted search h (tick_u64_chargeable hrun)
    obtain rfl := Option.some.inj (htick.symm.trans hrun)
    exact haccounted

theorem anyWeight_accounted (hrun : (anyWeight search).Run past s) :
    Accounted (tickCount (past.map Prod.snd)) s := by
  induction hrun with
  | start hinit =>
    obtain ⟨scheduler_cap, rfl⟩ := hinit
    exact ⟨(new_wellFormed scheduler_cap).queued, nofun, nofun, nofun, nofun⟩
  | @call past s t call _ hcall hstep ih =>
    rw [List.map_append, tickCount, List.count_append]
    exact Call.run_u64_accounted ih hcall hstep

/-- The call divides by no zero, stays within the words, and finds at least one
tick left of the running task's slice. -/
def Call.Safe (search : BinarySearch Nat) (s : LinuxLikeScheduler) (call : Call) : Prop :=
  (call.run_u64 search s).isSome ∧
    (call = .tick → ∀ c k, s.current = some c → s.tasks c = some k → 1 ≤ k.remaining)

/-- The product of a new task's weight fits its word, and the task that a tick
charges weighs enough for a slice. -/
def Call.WeightFits (s : LinuxLikeScheduler) : Call → Prop
  | .add_task _ weight _ => BASE_SLICE * weight < 2 ^ 64
  | .make_ready _ => True
  | .tick => ∀ c k, s.current = some c → s.tasks c = some k → 205 ≤ k.weight

theorem tick_safe_iff {n : Nat} (h : Accounted n s) (hn : n < 2 ^ 32) :
    Call.Safe search s .tick ↔ Call.WeightFits s .tick := by
  constructor
  · rintro ⟨hsome, _⟩ c k hc hk
    obtain ⟨t, ht⟩ := Option.isSome_iff_exists.mp hsome
    exact (h.chargeable_iff hn hc hk).mp (tick_u64_chargeable ht c k hc hk)
  · intro hfits
    have hchargeable (c : Nat) (k : Task) (hc : s.current = some c) (hk : s.tasks c = some k) :
        Chargeable k := (h.chargeable_iff hn hc hk).mpr (hfits c k hc hk)
    obtain ⟨t, ht, _⟩ := tick_u64_accounted search h hchargeable
    exact ⟨Option.isSome_iff_exists.mpr ⟨t, ht⟩, fun _ c k hc hk => (hchargeable c k hc hk).remaining⟩

/-- In every run of fewer than 2³² ticks, the next call is safe exactly when the
weight it uses fits: the one being added must not overflow its word, and the
running one must be worth a slice. -/
theorem arithmetic_safe_iff (search : BinarySearch Nat) (past : List (LinuxLikeScheduler × Call))
    (s : LinuxLikeScheduler) (hrun : (anyWeight search).Run past s) (call : Call)
    (hcall : call.Registered s) (hticks : tickCount (past.map Prod.snd ++ [call]) < 2 ^ 32) :
    call.Safe search s ↔ call.WeightFits s := by
  have haccounted := anyWeight_accounted hrun
  cases call with
  | add_task id weight thread_cap =>
    simp only [Call.Safe, Call.run_u64, Call.WeightFits, Option.isSome_iff_exists, add_task_u64_eq_some,
      reduceCtorEq, false_imp_iff, and_true]
    simp
  | make_ready id =>
    obtain ⟨t, hready, _⟩ := make_ready_accounted search haccounted hcall
    simp [Call.Safe, Call.run_u64, Call.WeightFits, hready]
  | tick =>
    rw [tickCount, List.count_append] at hticks
    exact tick_safe_iff haccounted (Nat.lt_of_le_of_lt (Nat.le_add_right ..) hticks)

/-- The lightest task with a slice is charged for its first tick. -/
theorem arithmetic_safe_lightest :
    ∃ past s, (anyWeight .std).Run past s ∧
      past.map Prod.snd = [.add_task 1 205 7, .make_ready 1] ∧ Call.Safe .std s .tick := by
  obtain ⟨past, s, hrun, hcalls, _, hend⟩ := Machine.exists_run_of_reaches
    (M := anyWeight .std) (.start ⟨0, rfl⟩) (fun _ _ => true)
    (fun s => s.current = some 1 ∧ (s.tasks 1).map Task.weight = some 205)
    [.add_task 1 205 7, .make_ready 1] (by decide +kernel)
  rw [decide_eq_true_eq] at hend
  have hticks : tickCount (past.map Prod.snd ++ [Call.tick]) < 2 ^ 32 := by
    rw [hcalls]
    decide
  refine ⟨past, s, hrun, hcalls, (arithmetic_safe_iff .std past s hrun .tick trivial hticks).mpr ?_⟩
  intro c k hc hk
  obtain rfl := Option.some.inj (hc.symm.trans hend.1)
  have hweight := hend.2
  rw [hk] at hweight
  exact (Option.some.inj hweight).ge

/-- A task of weight 100 has no slice, and its first tick takes one from nothing. -/
theorem arithmetic_unsafe_light :
    ∃ past s, (anyWeight .std).Run past s ∧
      past.map Prod.snd = [.add_task 1 100 7, .make_ready 1] ∧ Call.Registered s .tick ∧
      tickCount (past.map Prod.snd ++ [.tick]) < 2 ^ 32 ∧ ¬ Call.Safe .std s .tick := by
  obtain ⟨past, s, hrun, hcalls, _, hend⟩ := Machine.exists_run_of_reaches
    (M := anyWeight .std) (.start ⟨0, rfl⟩) (fun _ _ => true)
    (fun s => (Call.tick.run_u64 .std s).isNone) [.add_task 1 100 7, .make_ready 1] (by decide +kernel)
  refine ⟨past, s, hrun, hcalls, trivial, ?_, ?_⟩
  · rw [hcalls]
    decide
  · rintro ⟨hsome, _⟩
    rw [Option.isNone_iff_eq_none.mp hend] at hsome
    cases hsome

end l4.scheduler.linux_like
