import L4Rust.L4.Scheduler.Autosar.ReadyQueue

namespace l4.scheduler.autosar

namespace AutosarScheduler

variable {search : BinarySearch Nat} {s t : AutosarScheduler} {task mutex id : Nat}

/-- The running task is no less urgent than anything that may run. -/
theorem MostUrgent.current_le_runnable (h : s.MostUrgent) (hcurrent : s.current = some task)
    (hid : id ∈ s.runnable) : s.prio task ≤ s.prio id := by
  rcases mem_runnable.mp hid with hsame | hready
  · obtain rfl : task = id := Option.some.inj (hcurrent.symm.trans hsame)
    exact Nat.le_refl _
  · exact h.current_le task hcurrent id hready

/-- A task more urgent than everything else that may run is the one that runs. -/
theorem MostUrgent.current_of_lt (h : s.MostUrgent) (hid : id ∈ s.runnable)
    (hlt : ∀ i ∈ s.runnable, i ≠ id → s.prio id < s.prio i) : s.current = some id := by
  cases hnow : s.current with
  | none =>
    rcases mem_runnable.mp hid with hsome | hready
    · rw [hnow] at hsome
      cases hsome
    · rw [h.idle hnow] at hready
      cases hready
  | some c =>
    by_cases hc : c = id
    · rw [hc]
    · have hless := hlt c (mem_runnable.mpr (Or.inl hnow)) hc
      exact absurd (h.current_le_runnable hnow hid) (Nat.not_le.mpr hless)

/-- The new owner takes over at once exactly when it is more urgent than the
running task. -/
theorem make_ready_takes_over (hwf : s.WellFormed) (hurgent : s.MostUrgent)
    (hcurrent : s.current = some task) (h : s.make_ready search id = some t) :
    (s.prio id < s.prio task ∧ t.current = some id ∧ task ∈ t.ready) ∨
      (s.prio task ≤ s.prio id ∧ t.current = some task) := by
  have hframe := make_ready_frame h
  by_cases hid : id ∈ s.runnable
  · obtain rfl := make_ready_of_runnable hid h
    exact Or.inr ⟨hurgent.current_le_runnable hcurrent hid, hcurrent⟩
  obtain ⟨_, hdone, ⟨hless, hafter⟩ | ⟨c, hc, hle, hsame, _⟩⟩ := make_ready_cases hwf.sorted hid h
  · left
    have hlt := hless task hcurrent
    have hne : task ≠ id := by
      rintro rfl
      exact Nat.lt_irrefl _ hlt
    have hmem (i : Nat) : i ∈ t.runnable ↔ i = id ∨ i ∈ s.runnable := by
      rw [hdone.runnable.mem_iff, List.mem_cons]
    have hruns : t.current = some id := by
      apply hafter.current_of_lt ((hmem id).mpr (Or.inl rfl))
      intro i hi hne
      rw [hframe.prio, hframe.prio]
      exact hlt.trans_le (hurgent.current_le_runnable hcurrent (((hmem i).mp hi).resolve_left hne))
    refine ⟨hlt, hruns, ?_⟩
    have htaskIn : task ∈ t.runnable := (hmem task).mpr (Or.inr (mem_runnable.mpr (Or.inl hcurrent)))
    rcases mem_runnable.mp htaskIn with hsome | hready
    · exact absurd (Option.some.inj (hsome.symm.trans hruns)) hne
    · exact hready
  · right
    obtain rfl : task = c := Option.some.inj (hcurrent.symm.trans hc)
    exact ⟨hle, hsame⟩

theorem hand_over_takes_over {m : MutexState} (hwf : s.WellFormed) (hurgent : s.MostUrgent)
    (hcurrent : s.current = some task) (h : s.hand_over search mutex m = some t) :
    (∃ next, m.waiters.head? = some next ∧ s.prio next < s.prio task ∧ t.current = some next ∧
      task ∈ t.ready) ∨
    ((∀ next, m.waiters.head? = some next → s.prio task ≤ s.prio next) ∧ t.current = some task) := by
  rcases hand_over_cases h with ⟨hnone, rfl⟩ | ⟨next, waiters, given, hwaiters, hgiven, hready⟩
  · right
    refine ⟨?_, hcurrent⟩
    intro next hnext
    rw [hnone] at hnext
    cases hnext
  · obtain ⟨k, hedit⟩ := get_mut_edited hgiven
    have hsame : SamePriorities s given :=
      SamePriorities.trans (.of_tasks rfl) (hedit.samePriorities rfl rfl)
    have htakes := make_ready_takes_over (hwf.same_queue hsame hedit.ready hedit.current)
      (hurgent.same_queue hsame hedit.ready hedit.current) (hedit.current.trans hcurrent) hready
    rw [hsame.prio, hsame.prio] at htakes
    rcases htakes with ⟨hless, hruns, hwaits⟩ | ⟨hle, hruns⟩
    · exact Or.inl ⟨next, by rw [hwaiters]; rfl, hless, hruns, hwaits⟩
    · right
      refine ⟨?_, hruns⟩
      intro next' hnext'
      rw [hwaiters] at hnext'
      cases hnext'
      exact hle

end AutosarScheduler

open AutosarScheduler

/-- When unlocking hands the mutex to a more urgent task, every other mutex the
caller owns has a first waiter no more urgent than that task. -/
def Call.HandsOverInOrder (s : AutosarScheduler) : Call → Prop
  | .unlock_mutex task mutex => ∀ m next k, s.mutexes mutex = some m → m.owner = some task →
    m.waiters.head? = some next → s.prio next < s.prio task → s.tasks task = some k →
    ∀ i ∈ k.owned_mutexes, i ≠ mutex → ∀ w, s.first_waiter i = some w → s.prio next ≤ s.prio w
  | .add_task .. | .make_ready _ | .lock_mutex .. => True

variable {search : BinarySearch Nat} {s t : AutosarScheduler}

theorem unlock_mutex_mostUrgent_iff {task mutex : Nat} (hwf : s.WellFormed)
    (hcurrent : s.current = some task) (h : s.unlock_mutex search task mutex = some t)
    (hurgent : s.MostUrgent) :
    t.MostUrgent ↔ (Call.unlock_mutex task mutex).HandsOverInOrder s := by
  rcases unlock_mutex_cases h with ⟨rfl, hother⟩ |
    ⟨m, given, freed, old, p, mid, hm, howner, hgiven, hfreed, hp, hedit, hdone⟩
  · refine iff_of_true hurgent ?_
    intro m next k hm howner
    exact absurd howner (hother m hm)
  have hreleased := released_of_hand_over hgiven hfreed
  obtain ⟨hfreedWf, hready, hcurrentSame, hfreedUrgent⟩ := freed_wellFormed hwf hgiven hfreed
  have hkept : p ≤ old.base_priority :=
    (kept_priority_le_iff hedit.task_before hp _).mpr (Or.inl (Nat.le_refl _))
  rw [(reposition_cases hfreedWf hedit hkept hdone).2.2 (hfreedUrgent hurgent), hready, hcurrentSame]
  obtain ⟨k, hk, hkbase, hkprio⟩ := hreleased.same.task hedit.task_before
  rcases hand_over_takes_over hwf hurgent hcurrent hgiven with
    ⟨next, hnext, hless, hruns, hwaits⟩ | ⟨hle, hruns⟩
  · -- The caller is ready now: it must not have become more urgent than the new owner.
    have hbase : s.prio next ≤ old.base_priority := by
      have hcap := hwf.boosted task k hk
      rw [prio_of_task hk] at hless
      omega
    have hiff : s.prio next ≤ p ↔ ∀ i ∈ k.owned_mutexes, i ≠ mutex →
        ∀ w, s.first_waiter i = some w → s.prio next ≤ s.prio w := by
      rw [le_kept_priority_iff hedit.task_before hp]
      simp only [hbase, true_and, hreleased.owned k old hk hedit.task_before, hreleased.same.prio,
        and_imp]
      refine forall_congr' fun i => forall_congr' fun _ => forall_congr' fun hi => ?_
      rw [hreleased.first_waiter hi]
    constructor
    · intro hle m' next' k'' hm' _ hnext' _ hk''
      obtain rfl := Option.some.inj (hm.symm.trans hm')
      obtain rfl := Option.some.inj (hnext.symm.trans hnext')
      obtain rfl := Option.some.inj (hk.symm.trans hk'')
      apply hiff.mp
      have hle' := hle hwaits next hruns
      rw [hreleased.same.prio] at hle'
      exact hle'
    · intro horder _ c hc
      obtain rfl : next = c := Option.some.inj (hruns.symm.trans hc)
      rw [hreleased.same.prio]
      exact hiff.mpr (horder m next k hm howner hnext hless hk)
  · constructor
    · intro _ m' next k'' hm' _ hnext hless
      obtain rfl := Option.some.inj (hm.symm.trans hm')
      exact absurd (hle next hnext) (Nat.not_le_of_lt hless)
    · intro _ hwaits
      rw [← hready] at hwaits
      exact absurd hwaits (hfreedWf.current_not_ready (hcurrentSame.trans hruns))

theorem Call.run_mostUrgent_iff {call : Call} (hwf : s.WellFormed) (hcall : call.Disciplined s)
    (h : call.run search s = some t) (hurgent : s.MostUrgent) :
    t.MostUrgent ↔ call.HandsOverInOrder s := by
  cases call with
  | add_task id period thread_cap =>
    cases h
    exact iff_of_true ((add_task_wellFormed hwf hcall).2 hurgent) trivial
  | make_ready id => exact iff_of_true ((make_ready_wellFormed hwf h).2 hurgent) trivial
  | lock_mutex task mutex =>
    exact iff_of_true ((lock_mutex_wellFormed hwf h).2 hcall hurgent) trivial
  | unlock_mutex task mutex => exact unlock_mutex_mostUrgent_iff hwf hcall h hurgent

/-- A run has a most urgent task running in every state exactly when each
unlocking in it hands over in order. -/
theorem most_urgent_iff (search : BinarySearch Nat) (past : List (AutosarScheduler × Call))
    (s : AutosarScheduler) (hrun : (disciplined search).Run past s) :
    (s.MostUrgent ∧ ∀ p ∈ past, p.1.MostUrgent) ↔ ∀ p ∈ past, p.2.HandsOverInOrder p.1 := by
  refine hrun.throughout_iff (I := WellFormed) (P := MostUrgent)
    (Q := fun s call => call.HandsOverInOrder s) ?_ ?_ ?_
  · rintro s ⟨scheduler_cap, rfl⟩
    exact new_wellFormed scheduler_cap
  · intro s call t hwf hcall h
    exact Call.run_wellFormed hwf (hcall.registered hwf) h
  · intro s call t hwf hurgent hcall h
    exact Call.run_mostUrgent_iff hwf hcall h hurgent

/-- Whether unlocking hands the mutex to a task no more urgent than the caller. -/
def Call.handsDown (s : AutosarScheduler) : Call → Bool
  | .unlock_mutex task mutex => (s.first_waiter mutex).all fun next => s.prio task ≤ s.prio next
  | .add_task .. | .make_ready _ | .lock_mutex .. => true

theorem Call.handsOverInOrder_of_handsDown {call : Call} (h : call.handsDown s = true) :
    call.HandsOverInOrder s := by
  cases call with
  | unlock_mutex task mutex =>
    intro m next k hm _ hnext hless
    have hfirst : s.first_waiter mutex = some next := by
      simp [first_waiter, hm, hnext]
    simp only [handsDown, hfirst, Option.all_some, decide_eq_true_eq] at h
    omega
  | add_task id period thread_cap => trivial
  | make_ready id => trivial
  | lock_mutex task mutex => trivial

/-- A task blocks on a mutex of a less urgent one, which inherits its priority
and loses it again when it unlocks. -/
def inheritanceCalls : List Call :=
  [.add_task 1 200 0, .add_task 2 100 0, .make_ready 1, .lock_mutex 1 1, .make_ready 2,
    .lock_mutex 2 1, .unlock_mutex 1 1]

/-- A mutex is handed from a task with an inherited priority to the one it was inherited from: in all states of
the run the most urgent task runs. -/
theorem most_urgent_inheritance :
    ∃ past s, (disciplined .std).Run past s ∧ past.length = 7 ∧ s.current = some 2 ∧
      s.task_priority 1 = some 200 ∧ s.MostUrgent ∧ ∀ p ∈ past, p.1.MostUrgent := by
  obtain ⟨past, s, hrun, hcalls, hstep, hend⟩ := Machine.exists_run_of_reaches
    (M := disciplined .std) (.start ⟨0, rfl⟩) (fun s call => call.handsDown s)
    (fun s => s.current = some 2 ∧ s.task_priority 1 = some 200) inheritanceCalls (by decide +kernel)
  rw [decide_eq_true_eq] at hend
  have hlen := congrArg List.length hcalls
  rw [List.length_map] at hlen
  refine ⟨past, s, hrun, hlen, hend.1, hend.2, ?_⟩
  apply (most_urgent_iff .std past s hrun).mpr
  intro p hp
  exact Call.handsOverInOrder_of_handsDown (hstep p hp)

/-- Task 1 owns two mutexes. The tasks 2 and 3 wait for them and are boosted
later, by tasks that wait for mutexes of theirs. -/
def nestedCalls : List Call :=
  [.add_task 1 100 0, .add_task 2 90 0, .add_task 3 80 0, .add_task 4 20 0, .add_task 5 10 0,
    .make_ready 1, .lock_mutex 1 1, .lock_mutex 1 2,
    .make_ready 2, .lock_mutex 2 3, .lock_mutex 2 1,
    .make_ready 3, .lock_mutex 3 4, .lock_mutex 3 2,
    .make_ready 4, .lock_mutex 4 3, .make_ready 5, .lock_mutex 5 4, .unlock_mutex 1 1]

/-- Unlocking gives the processor to task 2 and only then raises task 1 to the
priority of task 3, which is more urgent. -/
theorem most_urgent_fails :
    ∃ past s, (disciplined .std).Run past s ∧ s.current = some 2 ∧ s.ready = [1] ∧
      s.task_priority 2 = some 20 ∧ s.task_priority 1 = some 10 ∧ ¬ s.MostUrgent := by
  obtain ⟨past, s, hrun, _, _, hend⟩ := Machine.exists_run_of_reaches
    (M := disciplined .std) (.start ⟨0, rfl⟩) (fun _ _ => true)
    (fun s => s.current = some 2 ∧ s.ready = [1] ∧ s.task_priority 2 = some 20 ∧
      s.task_priority 1 = some 10) nestedCalls (by decide +kernel)
  rw [decide_eq_true_eq] at hend
  obtain ⟨hcurrent, hready, hnext, htask⟩ := hend
  refine ⟨past, s, hrun, hcurrent, hready, hnext, htask, ?_⟩
  intro hurgent
  have hle := hurgent.current_le 2 hcurrent 1 (by rw [hready]; exact List.mem_singleton_self 1)
  rw [← eq_prio hnext, ← eq_prio htask] at hle
  omega

end l4.scheduler.autosar
