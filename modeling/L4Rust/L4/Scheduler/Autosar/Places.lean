import L4Rust.Library.Occupancy
import L4Rust.L4.Scheduler.Autosar.Ownership

open Occupancy

namespace l4.scheduler.autosar

/-- Where a task can be: running or ready to run, or in line for a mutex. -/
inductive Place where
  | processor
  | waiting (mutex : Nat)
  deriving DecidableEq

namespace AutosarScheduler

variable {search : BinarySearch Nat} {s t : AutosarScheduler} {task mutex id : Nat}

/-- The tasks at each place: the current task and the ready list, and the lists of
waiters. -/
def occupants (s : AutosarScheduler) : Occupancy Place Nat
  | .processor => s.runnable
  | .waiting mutex => (s.mutexes mutex).elim [] MutexState.waiters

theorem occupants_of_mutex {m : MutexState} (h : s.mutexes mutex = some m) :
    s.occupants (.waiting mutex) = m.waiters := by
  simp [occupants, h]

theorem waiting_congr (h : t.mutexes = s.mutexes) {place : Place} (hplace : place ≠ .processor) :
    t.occupants place = s.occupants place := by
  cases place with
  | processor => exact absurd rfl hplace
  | waiting i => simp [occupants, h]

theorem same_of_mutexes (hmutexes : t.mutexes = s.mutexes) (hrunnable : t.runnable.Perm s.runnable) :
    Same s.occupants t.occupants := by
  refine .of_perm fun place => ?_
  cases place with
  | processor => exact hrunnable
  | waiting i =>
    have hsame : t.occupants (.waiting i) = s.occupants (.waiting i) := waiting_congr hmutexes nofun
    rw [hsame]

/-- Only one line has changed. -/
theorem waiting_update {m : MutexState} (h : t.mutexes = Function.update s.mutexes mutex (some m)) :
    t.occupants (.waiting mutex) = m.waiters ∧
      ∀ place, place ≠ .processor → place ≠ .waiting mutex → t.occupants place = s.occupants place := by
  constructor
  · simp [occupants, h]
  · intro place hprocessor hmutex
    cases place with
    | processor => exact absurd rfl hprocessor
    | waiting i =>
      have hi : i ≠ mutex := fun heq => hmutex (by rw [heq])
      simp [occupants, h, hi]

/-- A task that is not there yet comes to the processor. -/
theorem make_ready_occupants (hwf : s.WellFormed) (h : s.make_ready search id = some t) :
    (id ∈ s.runnable ∧ t = s) ∨
      (id ∉ s.runnable ∧ Added s.occupants .processor id t.occupants) := by
  by_cases hid : id ∈ s.runnable
  · exact Or.inl ⟨hid, make_ready_of_runnable hid h⟩
  · obtain ⟨_, hdone, _⟩ := make_ready_cases hwf.sorted hid h
    refine Or.inr ⟨hid, .of_perm hdone.runnable ?_⟩
    intro place hplace
    rw [waiting_congr (make_ready_frame h).mutexes hplace]

theorem getD_waiters (s : AutosarScheduler) (mutex : Nat) :
    ((s.mutexes mutex).getD ⟨none, []⟩).waiters = s.occupants (.waiting mutex) := by
  cases hm : s.mutexes mutex <;> simp [occupants, hm]

/-- Blocking takes the running task away from the processor. -/
theorem Blocked.runnable {owner : Nat} {waiters front back : List Nat} {old : Task}
    {boosted placed : AutosarScheduler} (hwf : s.WellFormed) (hcurrent : s.current = some task)
    (h : Blocked search s task mutex owner waiters front back old boosted placed t) :
    s.runnable.Perm (task :: t.runnable) := by
  obtain ⟨hplaced, hsame, hperm⟩ := h.placed_wellFormed hwf
  have hfilter : s.ready.filter (· ≠ task) = s.ready := by
    apply List.filter_eq_self.mpr
    intro i hi
    simp only [decide_eq_true_eq]
    rintro rfl
    exact hwf.current_not_ready hcurrent hi
  rcases h.next with ⟨_, hrun⟩ | ⟨hother, _⟩
  · obtain ⟨hdone, _⟩ :=
      run_next_dispatched (s := { placed with current := none }) hplaced.sorted rfl hrun
    have hbefore : s.runnable = task :: s.ready := by
      unfold AutosarScheduler.runnable
      rw [hcurrent]
      rfl
    rw [hfilter] at hperm
    rw [hbefore]
    exact (hdone.runnable.trans hperm).symm.cons task
  · exact absurd (hsame.trans hcurrent) hother

/-- The running task stays at the processor if the mutex is free, and gets in line
for it otherwise. -/
theorem lock_mutex_occupants (hwf : s.WellFormed) (hcurrent : s.current = some task)
    (h : s.lock_mutex search task mutex = some t) :
    Same s.occupants t.occupants ∨
      Moved s.occupants .processor (.waiting mutex) task t.occupants := by
  rcases lock_mutex_owned h with ⟨_, hlock⟩ | ⟨m, o, front, back, old, _, _, hm, howner, hblock⟩
  · left
    obtain ⟨k, hedit⟩ := get_mut_edited hlock
    obtain ⟨hline, hothers⟩ := waiting_update (s := s) hedit.mutexes
    refine .of_perm fun place => ?_
    by_cases hprocessor : place = .processor
    · subst hprocessor
      have hrunnable : t.runnable = s.runnable := by
        unfold AutosarScheduler.runnable
        rw [hedit.ready, hedit.current]
        rfl
      simp only [occupants, hrunnable, List.Perm.refl]
    by_cases hmutex : place = .waiting mutex
    · subst hmutex
      rw [hline, getD_waiters]
    · rw [hothers place hprocessor hmutex]
  · right
    obtain ⟨hline, hothers⟩ := waiting_update hblock.effect.1
    refine .of_perm nofun (hblock.runnable hwf hcurrent) ?_ hothers
    rw [hline, occupants_of_mutex hm, hblock.split]
    exact List.perm_middle

theorem add_task_occupants (period thread_cap : Nat) :
    Same s.occupants (s.add_task id period thread_cap).occupants :=
  same_of_mutexes rfl (List.Perm.refl _)

/-- Handing over brings the first waiter to the processor, unless it is there
already. -/
theorem hand_over_runnable {m : MutexState} (hwf : s.WellFormed)
    (h : s.hand_over search mutex m = some t) :
    (m.waiters = [] ∧ t.runnable = s.runnable) ∨
      ∃ next waiters, m.waiters = next :: waiters ∧
        (next ∈ s.runnable ∧ t.runnable = s.runnable ∨
          next ∉ s.runnable ∧ t.runnable.Perm (next :: s.runnable)) := by
  rcases hand_over_cases h with ⟨hwaiters, rfl⟩ | ⟨next, waiters, given, hwaiters, hgiven, hready⟩
  · exact Or.inl ⟨hwaiters, rfl⟩
  · refine Or.inr ⟨next, waiters, hwaiters, ?_⟩
    obtain ⟨k, hedit⟩ := get_mut_edited hgiven
    have hsame : given.runnable = s.runnable := by
      unfold AutosarScheduler.runnable
      rw [hedit.ready, hedit.current]
      rfl
    by_cases hnext : next ∈ s.runnable
    · obtain rfl := make_ready_of_runnable (by rw [hsame]; exact hnext) hready
      exact Or.inl ⟨hnext, hsame⟩
    · have hpriorities : SamePriorities s given :=
        SamePriorities.trans (.of_tasks rfl) (hedit.samePriorities rfl rfl)
      have hgivenWf := hwf.same_queue hpriorities hedit.ready hedit.current
      obtain ⟨_, hdone, _⟩ := make_ready_cases hgivenWf.sorted (by rw [hsame]; exact hnext) hready
      rw [← hsame]
      exact Or.inr ⟨by rw [hsame]; exact hnext, hdone.runnable⟩

theorem unlock_mutex_runnable {m : MutexState} (hwf : s.WellFormed) (hm : s.mutexes mutex = some m)
    (howner : m.owner = some task) (h : s.unlock_mutex search task mutex = some t) :
    ∃ given, s.hand_over search mutex m = some given ∧ t.runnable.Perm given.runnable := by
  rcases unlock_mutex_cases h with ⟨_, hother⟩ |
    ⟨m', given, freed, old, p, mid, hm', _, hgiven, hfreed, hp, hedit, hdone⟩
  · exact absurd howner (hother m hm)
  obtain rfl := Option.some.inj (hm.symm.trans hm')
  have hkept : p ≤ old.base_priority :=
    (kept_priority_le_iff hedit.task_before hp _).mpr (Or.inl (Nat.le_refl _))
  obtain ⟨hfreedWf, hready, hcurrent, _⟩ := freed_wellFormed hwf hgiven hfreed
  obtain ⟨_, hperm, _⟩ := reposition_cases hfreedWf hedit hkept hdone
  refine ⟨given, hgiven, ?_⟩
  unfold AutosarScheduler.runnable at hperm ⊢
  rw [hready, hcurrent] at hperm
  exact hperm

/-- Unlocking brings the first waiter to the processor. One that is there already
only leaves the line. -/
theorem unlock_mutex_occupants (hwf : s.WellFormed) (h : s.unlock_mutex search task mutex = some t) :
    Same s.occupants t.occupants ∨
      ∃ next ∈ s.occupants (.waiting mutex),
        (next ∉ s.runnable ∧ Moved s.occupants (.waiting mutex) .processor next t.occupants) ∨
        (next ∈ s.runnable ∧ Added t.occupants (.waiting mutex) next s.occupants) := by
  by_cases hown : s.owner mutex = some task
  · obtain ⟨m, hm, howner⟩ := exists_mutex_of_owner hown
    obtain ⟨hline, hothers⟩ := waiting_update (unlock_mutex_mutexes hm howner h)
    have hbefore := occupants_of_mutex hm
    obtain ⟨given, hgiven, hperm⟩ := unlock_mutex_runnable hwf hm howner h
    rcases hand_over_runnable hwf hgiven with ⟨hwaiters, hrunnable⟩ |
      ⟨next, waiters, hwaiters, ⟨hnext, hrunnable⟩ | ⟨hnext, hrunnable⟩⟩
    · left
      rw [hrunnable] at hperm
      refine .of_perm fun place => ?_
      by_cases hprocessor : place = .processor
      · rw [hprocessor]
        exact hperm
      by_cases hmutex : place = .waiting mutex
      · rw [hmutex, hline, hbefore, hwaiters, List.tail_nil]
      · rw [hothers place hprocessor hmutex]
    · right
      rw [hrunnable] at hperm
      rw [hwaiters] at hbefore hline
      refine ⟨next, by rw [hbefore]; exact List.mem_cons_self .., Or.inr ⟨hnext, ?_⟩⟩
      refine .of_perm (by rw [hbefore, hline, List.tail_cons]) ?_
      intro place hmutex
      by_cases hprocessor : place = .processor
      · rw [hprocessor]
        exact hperm.symm
      · rw [hothers place hprocessor hmutex]
    · right
      rw [hwaiters] at hbefore hline
      refine ⟨next, by rw [hbefore]; exact List.mem_cons_self .., Or.inl ⟨hnext, ?_⟩⟩
      refine .of_perm nofun ?_ (hperm.trans hrunnable) ?_
      · rw [hbefore, hline, List.tail_cons]
      · intro place hmutex hprocessor
        exact hothers place hprocessor hmutex
  · obtain rfl := unlock_mutex_of_not_owner hown h
    exact Or.inl fun _ _ => rfl

end AutosarScheduler

open AutosarScheduler

variable {search : BinarySearch Nat} {s t : AutosarScheduler}

/-- The task has been made ready. -/
def Woken (past : List (AutosarScheduler × Call)) (id : Nat) : Prop :=
  Call.make_ready id ∈ past.map Prod.snd

/-- Every task that was made ready is at one place, and none is in line for a
mutex while it runs or is ready to. -/
structure PlacedOnce (past : List (AutosarScheduler × Call)) (s : AutosarScheduler) : Prop where
  once : ∀ id, Woken past id → Once s.occupants id
  waiting : ∀ id mutex, id ∈ s.occupants (.waiting mutex) → s.current ≠ some id ∧ id ∉ s.ready

/-- No task is woken while it is in line for a mutex. -/
def Call.WakesNoWaiter (s : AutosarScheduler) : Call → Prop
  | .make_ready id => ∀ mutex m, s.mutexes mutex = some m → id ∉ m.waiters
  | .add_task .. | .lock_mutex .. | .unlock_mutex .. => True

theorem woken_concat {past : List (AutosarScheduler × Call)} {call : Call} {id : Nat} :
    Woken (past ++ [(s, call)]) id ↔ Woken past id ∨ call = .make_ready id := by
  simp [Woken, eq_comm]

theorem wakes_no_waiter_iff {id : Nat} :
    (Call.make_ready id).WakesNoWaiter s ↔ ∀ mutex, id ∉ s.occupants (.waiting mutex) := by
  unfold Call.WakesNoWaiter
  apply forall_congr'
  intro mutex
  cases hm : s.mutexes mutex <;> simp [occupants, hm]

/-- Tasks come to the scheduler by being made ready. -/
theorem Call.run_somewhere {call : Call} {id : Nat} (hwf : s.WellFormed) (hcall : call.Disciplined s)
    (h : call.run search s = some t) (hid : Somewhere t.occupants id) :
    Somewhere s.occupants id ∨ call = .make_ready id := by
  cases call with
  | add_task i period thread_cap =>
    cases h
    exact Or.inl ((somewhere_congr fun q => add_task_occupants period thread_cap q id).mp hid)
  | make_ready i =>
    rcases make_ready_occupants hwf h with ⟨_, rfl⟩ | ⟨_, hadded⟩
    · exact Or.inl hid
    · rcases hadded.somewhere_iff.mp hid with rfl | hid
      · exact Or.inr rfl
      · exact Or.inl hid
  | lock_mutex task mutex =>
    rcases lock_mutex_occupants hwf hcall h with hsame | hmoved
    · exact Or.inl ((somewhere_congr fun q => hsame q id).mp hid)
    · exact Or.inl (hmoved.somewhere_iff.mp hid)
  | unlock_mutex task mutex =>
    rcases unlock_mutex_occupants hwf h with hsame | ⟨next, _, ⟨_, hmoved⟩ | ⟨_, hleft⟩⟩
    · exact Or.inl ((somewhere_congr fun q => hsame q id).mp hid)
    · exact Or.inl (hmoved.somewhere_iff.mp hid)
    · exact Or.inl (hleft.somewhere_iff.mpr (Or.inr hid))

theorem disciplined_wellFormed {past : List (AutosarScheduler × Call)}
    (hrun : (disciplined search).Run past s) : s.WellFormed := by
  refine hrun.invariant ?_ ?_
  · rintro s ⟨scheduler_cap, rfl⟩
    exact (new_wellFormed scheduler_cap).1
  · intro s call t hwf hcall h
    exact Call.run_wellFormed hwf (hcall.registered hwf) h

theorem woken_of_somewhere {past : List (AutosarScheduler × Call)} {id : Nat}
    (hrun : (disciplined search).Run past s) (hid : Somewhere s.occupants id) : Woken past id := by
  induction hrun with
  | start hinit =>
    obtain ⟨scheduler_cap, rfl⟩ := hinit
    obtain ⟨place, hplace⟩ := hid
    cases place with
    | processor => cases hplace
    | waiting mutex => cases hplace
  | @call past s t call hrun hcall h ih =>
    rw [woken_concat]
    rcases Call.run_somewhere (disciplined_wellFormed hrun) hcall h hid with hbefore | hnow
    · exact Or.inl (ih hbefore)
    · exact Or.inr hnow

/-- It is enough that every task that was made ready is at one place. -/
theorem placedOnce_iff {past : List (AutosarScheduler × Call)}
    (hrun : (disciplined search).Run past s) :
    PlacedOnce past s ↔ ∀ id, Woken past id → Once s.occupants id := by
  refine ⟨PlacedOnce.once, fun honce => ⟨honce, ?_⟩⟩
  intro id mutex hwaiting
  rw [← not_or, ← mem_runnable]
  intro hrunnable
  have hplaces : Place.processor = .waiting mutex :=
    (honce id (woken_of_somewhere hrun ⟨_, hwaiting⟩)).unique hrunnable hwaiting
  cases hplaces

theorem make_ready_placedOnce_iff {past : List (AutosarScheduler × Call)} {id : Nat}
    (hrun : (disciplined search).Run past s) (hplaced : PlacedOnce past s)
    (h : s.make_ready search id = some t) :
    (∀ i, Woken (past ++ [(s, .make_ready id)]) i → Once t.occupants i) ↔
      (Call.make_ready id).WakesNoWaiter s := by
  rw [wakes_no_waiter_iff]
  rcases make_ready_occupants (disciplined_wellFormed hrun) h with ⟨hid, rfl⟩ | ⟨hid, hadded⟩
  · refine iff_of_true ?_ ?_
    · intro i hi
      rcases woken_concat.mp hi with hi | hi
      · exact hplaced.once i hi
      · cases hi
        exact hplaced.once id (woken_of_somewhere hrun ⟨.processor, hid⟩)
    · intro mutex hwaiting
      rw [mem_runnable] at hid
      exact (not_or.mpr (hplaced.waiting id mutex hwaiting)) hid
  · constructor
    · intro honce mutex hwaiting
      have hnew := honce id (woken_concat.mpr (Or.inr rfl))
      exact hadded.once_iff.mp hnew ⟨_, hwaiting⟩
    · intro hnot i hi
      by_cases heq : i = id
      · subst heq
        apply hadded.once_iff.mpr
        rintro ⟨place, hplace⟩
        cases place with
        | processor => exact hid hplace
        | waiting mutex => exact hnot mutex hplace
      · rw [hadded.once_of_ne heq]
        apply hplaced.once
        rcases woken_concat.mp hi with hi | hi
        · exact hi
        · cases hi
          exact absurd rfl heq

/-- Calls other than `make_ready` leave every task that is at one place at one
place. -/
theorem Call.run_once {past : List (AutosarScheduler × Call)} {call : Call} {i : Nat}
    (hwf : s.WellFormed) (hplaced : PlacedOnce past s) (hcall : call.Disciplined s)
    (hother : ∀ id, call ≠ .make_ready id) (h : call.run search s = some t)
    (hi : Once s.occupants i) : Once t.occupants i := by
  cases call with
  | add_task id period thread_cap =>
    cases h
    exact (once_congr fun q => add_task_occupants period thread_cap q i).mpr hi
  | make_ready id => exact absurd rfl (hother id)
  | lock_mutex task mutex =>
    rcases lock_mutex_occupants hwf hcall h with hsame | hmoved
    · exact (once_congr fun q => hsame q i).mpr hi
    · exact hmoved.once_iff.mpr hi
  | unlock_mutex task mutex =>
    rcases unlock_mutex_occupants hwf h with hsame | ⟨next, hnext, ⟨_, hmoved⟩ | ⟨hthere, _⟩⟩
    · exact (once_congr fun q => hsame q i).mpr hi
    · exact hmoved.once_iff.mpr hi
    · rw [mem_runnable] at hthere
      exact absurd hthere (not_or.mpr (hplaced.waiting next mutex hnext))

theorem Call.run_placedOnce_iff {past : List (AutosarScheduler × Call)} {call : Call}
    (hrun : (disciplined search).Run past s) (hplaced : PlacedOnce past s)
    (hcall : call.Disciplined s) (h : call.run search s = some t) :
    PlacedOnce (past ++ [(s, call)]) t ↔ call.WakesNoWaiter s := by
  rw [placedOnce_iff (.call hrun hcall h)]
  by_cases hready : ∃ id, call = .make_ready id
  · obtain ⟨id, rfl⟩ := hready
    exact make_ready_placedOnce_iff hrun hplaced h
  · have hother (id : Nat) : call ≠ .make_ready id := fun heq => hready ⟨id, heq⟩
    refine iff_of_true ?_ ?_
    · intro i hi
      apply Call.run_once (disciplined_wellFormed hrun) hplaced hcall hother h
      exact hplaced.once i ((woken_concat.mp hi).resolve_right (hother i))
    · cases call with
      | make_ready id => exact absurd rfl (hother id)
      | add_task id period thread_cap => trivial
      | lock_mutex task mutex => trivial
      | unlock_mutex task mutex => trivial

/-- A run loses, doubles and prematurely runs no task exactly when it wakes none
that is in line for a mutex. -/
theorem placed_once_iff (search : BinarySearch Nat) (past : List (AutosarScheduler × Call))
    (s : AutosarScheduler) (hrun : (disciplined search).Run past s) :
    Machine.Throughout PlacedOnce past s ↔ ∀ p ∈ past, p.2.WakesNoWaiter p.1 := by
  refine hrun.throughout_history_iff (P := PlacedOnce) (Q := fun s call => call.WakesNoWaiter s) ?_ ?_
  · rintro s ⟨scheduler_cap, rfl⟩
    have hstart : (disciplined search).Run [] (new scheduler_cap) := .start ⟨scheduler_cap, rfl⟩
    exact (placedOnce_iff hstart).mpr nofun
  · intro past s call t hrun hplaced hcall h
    exact Call.run_placedOnce_iff hrun hplaced hcall h

theorem wakesNoWaiter_of_nodup {past : List (AutosarScheduler × Call)}
    (hrun : (disciplined search).Run past s) (hnodup : (past.map Prod.snd).Nodup) :
    ∀ p ∈ past, p.2.WakesNoWaiter p.1 := by
  induction hrun with
  | start _ => exact nofun
  | @call past s t call hrun hcall h ih =>
    rw [List.map_append, List.nodup_append] at hnodup
    obtain ⟨hpast, _, hnew⟩ := hnodup
    refine List.forall_mem_append.mpr ⟨ih hpast, List.forall_mem_singleton.mpr ?_⟩
    cases call with
    | make_ready id =>
      apply wakes_no_waiter_iff.mpr
      intro mutex hwaiting
      -- A task in line was made ready before, by the same call.
      have hbefore := woken_of_somewhere hrun ⟨_, hwaiting⟩
      exact hnew _ hbefore _ (List.mem_singleton_self _) rfl
    | add_task id period thread_cap => trivial
    | lock_mutex task mutex => trivial
    | unlock_mutex task mutex => trivial

/-- When a mutex is handed over, the next owner runs and the one before is ready, each in one place. -/
theorem placed_once_hand_over :
    ∃ past s, (disciplined .std).Run past s ∧ past.map Prod.snd = handOverCalls ∧
      s.current = some 2 ∧ s.ready = [1] ∧ Machine.Throughout PlacedOnce past s := by
  obtain ⟨past, s, hrun, hcalls, _, hend⟩ := Machine.exists_run_of_reaches
    (M := disciplined .std) (.start ⟨0, rfl⟩) (fun _ _ => true)
    (fun s => s.current = some 2 ∧ s.ready = [1]) handOverCalls (by decide +kernel)
  rw [decide_eq_true_eq] at hend
  refine ⟨past, s, hrun, hcalls, hend.1, hend.2, ?_⟩
  apply (placed_once_iff .std past s hrun).mpr
  apply wakesNoWaiter_of_nodup hrun
  rw [hcalls]
  decide

/-- Task 2 waits for a mutex of task 1 and is woken. -/
def wakeWaiterCalls : List Call :=
  [.add_task 1 200 0, .add_task 2 100 0, .make_ready 1, .lock_mutex 1 1, .make_ready 2,
    .lock_mutex 2 1, .make_ready 2]

/-- Task 2 is ready to run while it is in line for the mutex. -/
theorem placed_once_fails :
    ∃ past s, (disciplined .std).Run past s ∧ past.map Prod.snd = wakeWaiterCalls ∧
      2 ∈ s.ready ∧ 2 ∈ s.occupants (.waiting 1) ∧ ¬ PlacedOnce past s := by
  obtain ⟨past, s, hrun, hcalls, _, hend⟩ := Machine.exists_run_of_reaches
    (M := disciplined .std) (.start ⟨0, rfl⟩) (fun _ _ => true)
    (fun s => 2 ∈ s.ready ∧ 2 ∈ s.occupants (.waiting 1)) wakeWaiterCalls (by decide +kernel)
  rw [decide_eq_true_eq] at hend
  refine ⟨past, s, hrun, hcalls, hend.1, hend.2, ?_⟩
  intro hplaced
  exact (hplaced.waiting 2 1 hend.2).2 hend.1

end l4.scheduler.autosar
