import L4Rust.L4.Scheduler.Autosar.Places
import L4Rust.L4.Scheduler.Autosar.Waiters
import L4Rust.Library.Chains

open Relation Occupancy

namespace l4.scheduler.autosar

namespace AutosarScheduler

variable {s t : AutosarScheduler} {w o mutex : Nat}

/-- A task is in line for a mutex of another one, or of its own. -/
def WaitsFor (s : AutosarScheduler) (w o : Nat) : Prop :=
  ∃ mutex m, s.mutexes mutex = some m ∧ w ∈ m.waiters ∧ m.owner = some o

/-- A task is in line for some mutex. -/
def Waits (s : AutosarScheduler) (w : Nat) : Prop := ∃ mutex, w ∈ s.occupants (.waiting mutex)

theorem WaitsFor.waits (h : s.WaitsFor w o) : s.Waits w := by
  obtain ⟨i, m, hm, hmem, -⟩ := h
  exact ⟨i, by rw [occupants_of_mutex hm]; exact hmem⟩

/-- Tasks each of which waits for one of them. -/
def Stuck (s : AutosarScheduler) (tasks : Nat → Prop) : Prop := ∀ w, tasks w → ∃ o, s.WaitsFor w o ∧ tasks o

/-- What a call of the running task, or of anybody else, does to the mutexes. -/
inductive MutexStep (s : AutosarScheduler) : (mutexes : Nat → Option MutexState) → Prop where
  | same : MutexStep s s.mutexes
  | taken {task mutex : Nat} (hcurrent : s.current = some task) (hfree : s.owner mutex = none) :
      MutexStep s (Function.update s.mutexes mutex (some ⟨some task, []⟩))
  | lined_up {task mutex owner : Nat} {m : MutexState} {front back : List Nat} (hm : s.mutexes mutex = some m)
      (howner : m.owner = some owner) (hsplit : m.waiters = front ++ back) :
      MutexStep s (Function.update s.mutexes mutex (some ⟨some owner, front ++ task :: back⟩))
  | released {task mutex : Nat} {m : MutexState} (hcurrent : s.current = some task)
      (hm : s.mutexes mutex = some m) (howner : m.owner = some task) :
      MutexStep s (Function.update s.mutexes mutex (some ⟨m.waiters.head?, m.waiters.tail⟩))

end AutosarScheduler

open AutosarScheduler

variable {search : BinarySearch Nat} {s t : AutosarScheduler} {call : Call} {w o id mutex : Nat}
  {past later : List (AutosarScheduler × Call)}

theorem Call.run_mutexes (hheld : s.Held) (hcall : call.Disciplined s) (h : call.run search s = some t) :
    MutexStep s t.mutexes := by
  cases call with
  | add_task id period thread_cap =>
    cases h
    exact .same
  | make_ready id =>
    rw [(make_ready_frame h).mutexes]
    exact .same
  | lock_mutex task mutex =>
    obtain ⟨hfree, hlock⟩ | ⟨m, owner, front, back, old, boosted, placed, hm, howner, hblock⟩ := lock_mutex_owned h
    · have hnone : ((s.mutexes mutex).getD ⟨none, []⟩).owner = none := by
        cases hm : s.mutexes mutex with
        | none => rfl
        | some m => exact (owner_of_mutex hm).symm.trans hfree
      rw [(lock_free_effect hheld rfl hnone hlock).1]
      exact .taken hcall hfree
    · rw [hblock.effect.1]
      exact .lined_up hm howner hblock.split
  | unlock_mutex task mutex =>
    by_cases hown : s.owner mutex = some task
    · obtain ⟨m, hm, howner⟩ := exists_mutex_of_owner hown
      rw [unlock_mutex_mutexes hm howner h]
      exact .released hcall hm howner
    · rw [unlock_mutex_of_not_owner hown h]
      exact .same

/-- Only the task that it waits for gives a task what it waits for. -/
theorem AutosarScheduler.MutexStep.keeps_waiting (h : MutexStep s t.mutexes) (hw : s.WaitsFor w o)
    (ho : s.current ≠ some o) : t.WaitsFor w o := by
  obtain ⟨i, m, hm, hmem, howner⟩ := hw
  generalize hmutexes : t.mutexes = mutexes at h
  unfold WaitsFor
  rw [hmutexes]
  cases h with
  | same => exact ⟨i, m, hm, hmem, howner⟩
  | @taken task mutex hcurrent hfree =>
    have hne : i ≠ mutex := by
      rintro rfl
      rw [owner_of_mutex hm, howner] at hfree
      cases hfree
    exact ⟨i, m, by rw [Function.update_of_ne hne, hm], hmem, howner⟩
  | @lined_up task mutex owner m' front back hm' howner' hsplit =>
    by_cases hi : i = mutex
    · subst hi
      obtain rfl := Option.some.inj (hm.symm.trans hm')
      obtain rfl := Option.some.inj (howner.symm.trans howner')
      refine ⟨i, _, Function.update_self .., ?_, rfl⟩
      rw [hsplit, List.mem_append] at hmem
      simp only [List.mem_append, List.mem_cons]
      tauto
    · exact ⟨i, m, by rw [Function.update_of_ne hi, hm], hmem, howner⟩
  | @released task mutex m' hcurrent hm' howner' =>
    have hne : i ≠ mutex := by
      rintro rfl
      obtain rfl := Option.some.inj (hm.symm.trans hm')
      obtain rfl := Option.some.inj (howner.symm.trans howner')
      exact ho hcurrent
    exact ⟨i, m, by rw [Function.update_of_ne hne, hm], hmem, howner⟩

/-- Owners come to the scheduler by being made ready. -/
theorem woken_of_owner (hrun : (disciplined search).Run past s) {m : MutexState} (hm : s.mutexes mutex = some m)
    (ho : m.owner = some o) : Woken past o := by
  induction hrun generalizing mutex m with
  | start hinit =>
    obtain ⟨scheduler_cap, rfl⟩ := hinit
    cases hm
  | @call past s t call hrun hcall h ih =>
    have hstep := Call.run_mutexes (disciplined_held hrun) hcall h
    generalize t.mutexes = mutexes at hstep hm
    rw [woken_concat]
    left
    cases hstep with
    | same => exact ih hm ho
    | @taken task i hcurrent hfree =>
      by_cases hi : mutex = i
      · subst hi
        rw [Function.update_self] at hm
        cases hm
        cases ho
        exact woken_of_somewhere hrun ⟨.processor, mem_runnable.mpr (.inl hcurrent)⟩
      · rw [Function.update_of_ne hi] at hm
        exact ih hm ho
    | @lined_up task i owner m' front back hm' howner' hsplit =>
      by_cases hi : mutex = i
      · subst hi
        rw [Function.update_self] at hm
        cases hm
        cases ho
        exact ih hm' howner'
      · rw [Function.update_of_ne hi] at hm
        exact ih hm ho
    | @released task i m' hcurrent hm' howner' =>
      by_cases hi : mutex = i
      · subst hi
        rw [Function.update_self] at hm
        cases hm
        refine woken_of_somewhere hrun ⟨.waiting mutex, ?_⟩
        rw [occupants_of_mutex hm']
        exact List.mem_of_mem_head? ho
      · rw [Function.update_of_ne hi] at hm
        exact ih hm ho

/-- Nobody is in line for a mutex that is free. -/
theorem exists_waitsFor (hheld : s.Held) (hw : s.Waits w) : ∃ o, s.WaitsFor w o := by
  obtain ⟨i, hi⟩ := hw
  cases hm : s.mutexes i with
  | none => simp [occupants, hm] at hi
  | some m =>
    rw [occupants_of_mutex hm] at hi
    cases ho : m.owner with
    | none =>
      rw [hheld.free i m hm ho] at hi
      cases hi
    | some o => exact ⟨o, i, m, hm, hi, ho⟩

/-- Whoever is waited for runs or is ready to, or waits as well. -/
theorem runnable_or_waits (hrun : (disciplined search).Run past s) (hplaced : PlacedOnce past s)
    (hw : s.WaitsFor w o) : o ∈ s.runnable ∨ s.Waits o := by
  obtain ⟨i, m, hm, -, ho⟩ := hw
  obtain ⟨place, hplace, -⟩ := hplaced.once o (woken_of_owner hrun hm ho)
  have hmem : o ∈ s.occupants place := by
    rw [← List.count_pos_iff, hplace]
    exact Nat.one_pos
  cases place with
  | processor => exact .inl hmem
  | waiting j => exact .inr ⟨j, hmem⟩

theorem finite_waits (hrun : (disciplined search).Run past s) : {w | s.Waits w}.Finite := by
  have hinj : Function.Injective Call.make_ready := fun _ _ h => Call.make_ready.inj h
  refine ((List.finite_toSet (past.map Prod.snd)).preimage hinj.injOn).subset ?_
  rintro w ⟨i, hi⟩
  exact woken_of_somewhere hrun ⟨_, hi⟩

theorem placedOnce_of_run (hrun : (disciplined search).Run past s)
    (hwakes : ∀ p ∈ past, p.2.WakesNoWaiter p.1) : PlacedOnce past s := by
  induction hrun with
  | start hinit =>
    rw [placedOnce_iff (.start hinit)]
    exact nofun
  | @call past s t call hrun hcall h ih =>
    rw [List.forall_mem_append, List.forall_mem_singleton] at hwakes
    exact (Call.run_placedOnce_iff hrun (ih hwakes.1) hcall h).mpr hwakes.2

theorem AutosarScheduler.Stuck.not_runnable {tasks : Nat → Prop} (h : s.Stuck tasks) (hplaced : PlacedOnce past s)
    (hw : tasks w) : w ∉ s.runnable := by
  obtain ⟨o, hwaits, -⟩ := h w hw
  obtain ⟨i, hi⟩ := hwaits.waits
  rw [mem_runnable]
  exact not_or.mpr (hplaced.waiting w i hi)

/-- None of them ever unlocks what another one waits for. -/
theorem AutosarScheduler.Stuck.persists {tasks : Nat → Prop} (h : s.Stuck tasks)
    (hrun : (disciplined search).Run past s) (hwakes : ∀ p ∈ past, p.2.WakesNoWaiter p.1)
    (hlater : ((disciplined search).restart s).Run later t)
    (hwakes' : ∀ p ∈ later, p.2.WakesNoWaiter p.1) : t.Stuck tasks := by
  induction hlater with
  | start hs =>
    cases hs
    exact h
  | @call later t u call hlater hcall hstep ih =>
    rw [List.forall_mem_append, List.forall_mem_singleton] at hwakes'
    have hstuck := ih hwakes'.1
    have hall := hrun.append hlater
    have hplaced := placedOnce_of_run hall (List.forall_mem_append.mpr ⟨hwakes, hwakes'.1⟩)
    intro w hw
    obtain ⟨o, hwaits, ho⟩ := hstuck w hw
    refine ⟨o, ?_, ho⟩
    refine (Call.run_mutexes (disciplined_held hall) hcall hstep).keeps_waiting hwaits fun hcurrent => ?_
    exact hstuck.not_runnable hplaced ho (mem_runnable.mpr (.inl hcurrent))

/-- As long as nobody is woken that is in line for a mutex, a task in line is behind one that runs or is
ready to, or it is behind a cycle of tasks that wait for each other; and it does not run again unless that
changes, that is, until a call wakes somebody in line. -/
theorem waits_end_or_deadlock (search : BinarySearch Nat) (past : List (AutosarScheduler × Call))
    (s : AutosarScheduler) (hrun : (disciplined search).Run past s)
    (hwakes : ∀ p ∈ past, p.2.WakesNoWaiter p.1) {mutex w : Nat} {m : MutexState}
    (hm : s.mutexes mutex = some m) (hw : w ∈ m.waiters) :
    (∃ o, TransGen s.WaitsFor w o ∧ o ∈ s.runnable) ∨
    (∃ o, TransGen s.WaitsFor w o ∧ TransGen s.WaitsFor o o) ∧
      ∀ later t, ((disciplined search).restart s).Run later t → (∀ p ∈ later, p.2.WakesNoWaiter p.1) →
        w ∉ t.runnable := by
  have hplaced := placedOnce_of_run hrun hwakes
  have hwaits : s.Waits w := ⟨mutex, by rw [occupants_of_mutex hm]; exact hw⟩
  by_cases hends : ∃ o, TransGen s.WaitsFor w o ∧ o ∈ s.runnable
  · exact .inl hends
  right
  push Not at hends
  have hnext (a : Nat) (ha : s.Waits a) : ∃ o, s.WaitsFor a o ∧ (o ∈ s.runnable ∨ s.Waits o) := by
    obtain ⟨o, ho⟩ := exists_waitsFor (disciplined_held hrun) ha
    exact ⟨o, ho, runnable_or_waits hrun hplaced ho⟩
  obtain ⟨o, hreach, hcycle⟩ := Chains.ends_or_cycles (finite_waits hrun) hnext hwaits
  refine ⟨⟨o, hreach, hcycle.resolve_left (hends o hreach)⟩, fun later t hlater hwakes' => ?_⟩
  have hstuck : s.Stuck (ReflTransGen s.WaitsFor w) := by
    intro a ha
    have hwaiting : s.Waits a := by
      obtain rfl | hchain := reflTransGen_iff_eq_or_transGen.mp ha
      · exact hwaits
      · obtain ⟨b, -, hlast⟩ := TransGen.tail'_iff.mp hchain
        exact (runnable_or_waits hrun hplaced hlast).resolve_left (hends a hchain)
    obtain ⟨b, hb⟩ := exists_waitsFor (disciplined_held hrun) hwaiting
    exact ⟨b, hb, ha.tail hb⟩
  have hplaced' := placedOnce_of_run (hrun.append hlater) (List.forall_mem_append.mpr ⟨hwakes, hwakes'⟩)
  exact (hstuck.persists hrun hwakes hlater hwakes').not_runnable hplaced' .refl

/-- Two tasks lock two mutexes in opposite orders. -/
def oppositeCalls : List Call :=
  [.add_task 1 200 0, .add_task 2 100 0, .make_ready 1, .lock_mutex 1 1, .make_ready 2, .lock_mutex 2 2,
    .lock_mutex 2 1, .lock_mutex 1 2]

/-- Two tasks that lock two mutexes in opposite orders wait for each other, and the first of them is never
runnable again. -/
theorem waits_end_or_deadlock_opposite :
    ∃ past s, (disciplined .std).Run past s ∧ past.map Prod.snd = oppositeCalls ∧ s.current = none ∧
      (∃ o, TransGen s.WaitsFor 1 o ∧ TransGen s.WaitsFor o o) ∧
      ∀ later t, ((disciplined .std).restart s).Run later t → (∀ p ∈ later, p.2.WakesNoWaiter p.1) →
        1 ∉ t.runnable := by
  obtain ⟨past, s, hrun, hcalls, _, hend⟩ := Machine.exists_run_of_reaches
    (M := disciplined .std) (.start ⟨0, rfl⟩) (fun _ _ => true)
    (fun s => s.current = none ∧ s.ready = [] ∧ s.occupants (.waiting 2) = [1]) oppositeCalls (by decide +kernel)
  rw [decide_eq_true_eq] at hend
  obtain ⟨hcurrent, hready, hline⟩ := hend
  have hwakes : ∀ p ∈ past, p.2.WakesNoWaiter p.1 := by
    apply wakesNoWaiter_of_nodup hrun
    rw [hcalls]
    decide
  cases hm : s.mutexes 2 with
  | none => simp [occupants, hm] at hline
  | some m =>
    rw [occupants_of_mutex hm] at hline
    have hcases := waits_end_or_deadlock .std past s hrun hwakes hm (w := 1) (by simp [hline])
    obtain ⟨o, -, ho⟩ | ⟨hcycle, hnever⟩ := hcases
    · simp [AutosarScheduler.runnable, hcurrent, hready] at ho
    · exact ⟨past, s, hrun, hcalls, hcurrent, hcycle, hnever⟩

end l4.scheduler.autosar
