import L4Rust.L4.Scheduler.Autosar.Inheritance

namespace l4.scheduler.autosar

namespace AutosarScheduler

variable {search : BinarySearch Nat} {s t : AutosarScheduler} {task mutex : Nat}

/-- The line in front of every mutex has the most urgent tasks first. -/
def InLine (s : AutosarScheduler) : Prop :=
  ∀ i m, s.mutexes i = some m → m.waiters.Pairwise fun a b => s.prio a ≤ s.prio b

/-- A task stands somewhere ahead of another one in a line. -/
def Ahead (line : List Nat) (a b : Nat) : Prop := [a, b].Sublist line

theorem pairwise_iff_ahead {line : List Nat} {R : Nat → Nat → Prop} :
    line.Pairwise R ↔ ∀ a b, Ahead line a b → R a b :=
  List.pairwise_iff_forall_sublist.trans ⟨fun h _ _ hab => h hab, fun h _ _ hab => h _ _ hab⟩

theorem Ahead.insert {front back : List Nat} {a b : Nat} (h : Ahead (front ++ back) a b) :
    Ahead (front ++ task :: back) a b :=
  h.trans ((List.Sublist.refl front).append (List.sublist_cons_self task back))

/-- Others keep their order when a task joins a line. -/
theorem Ahead.of_insert {front back : List Nat} {a b : Nat} (ha : a ≠ task) (hb : b ≠ task)
    (h : Ahead (front ++ task :: back) a b) : Ahead (front ++ back) a b := by
  have hfilter := h.filter (fun w => decide (w ≠ task))
  have hpair : [a, b].filter (fun w => decide (w ≠ task)) = [a, b] := by simp [ha, hb]
  have hline : (front ++ task :: back).filter (fun w => decide (w ≠ task)) =
      (front ++ back).filter fun w => decide (w ≠ task) := by simp
  rw [hpair, hline] at hfilter
  exact hfilter.trans List.filter_sublist

/-- The line for a mutex once the first waiter of another one has left its line. -/
def lineWithoutNext (mutex i : Nat) (m : MutexState) : List Nat :=
  if i = mutex then m.waiters.tail else m.waiters

end AutosarScheduler

open AutosarScheduler

/-- When the caller blocks, whoever is ahead of the owner in a line that the owner
is itself in is at least as urgent as the caller. When it unlocks, and is itself in
a line, what it falls back on fits its place there. -/
def Call.KeepsLines (s : AutosarScheduler) : Call → Prop
  | .lock_mutex task mutex => ∀ m owner, s.mutexes mutex = some m → m.owner = some owner →
    ∀ i m' w, s.mutexes i = some m' → w ≠ owner → Ahead m'.waiters w owner → s.prio w ≤ s.prio task
  | .unlock_mutex task mutex => ∀ m, s.mutexes mutex = some m → m.owner = some task →
    ∀ i m' w, s.mutexes i = some m' →
      (Ahead (lineWithoutNext mutex i m') w task → s.Outranks task mutex w task) ∧
      (Ahead (lineWithoutNext mutex i m') task w → s.Outranks task mutex task w)
  | .add_task .. | .make_ready _ => True

variable {search : BinarySearch Nat} {s t : AutosarScheduler} {task mutex : Nat}

theorem AutosarScheduler.InLine.of_prio (h : s.InLine) (hmutexes : t.mutexes = s.mutexes)
    (hprio : ∀ i m w, s.mutexes i = some m → w ∈ m.waiters → t.prio w = s.prio w) : t.InLine := by
  intro i m hm
  rw [hmutexes] at hm
  refine (h i m hm).imp_of_mem ?_
  intro a b ha hb hle
  rw [hprio i m a hm ha, hprio i m b hm hb]
  exact hle

theorem lock_free_inLine {m : MutexState} (hheld : s.Held) (hs : s.InLine)
    (hm : (s.mutexes mutex).getD ⟨none, []⟩ = m) (hfree : m.owner = none)
    (h : (s.set_mutex mutex ⟨some task, m.waiters⟩).get_mut task (insert_owned mutex) = some t) :
    t.InLine := by
  obtain ⟨hmutexes, hsame, _⟩ := lock_free_effect hheld hm hfree h
  intro i m' hm'
  rw [hmutexes] at hm'
  simp only [hsame.prio]
  by_cases hi : i = mutex
  · subst hi
    rw [Function.update_self] at hm'
    cases hm'
    exact .nil
  · rw [Function.update_of_ne hi] at hm'
    exact hs i m' hm'

/-- In a sorted line the boost of one task is only noticed by those ahead of it. -/
theorem boosted_line_iff {line : List Nat} {owner : Nat}
    (hline : line.Pairwise fun a b => s.prio a ≤ s.prio b)
    (hboost : t.prio owner = min (s.prio owner) (s.prio task))
    (hothers : ∀ i, i ≠ owner → t.prio i = s.prio i) :
    (line.Pairwise fun a b => t.prio a ≤ t.prio b) ↔
      ∀ w, w ≠ owner → Ahead line w owner → s.prio w ≤ s.prio task := by
  rw [pairwise_iff_ahead] at hline
  rw [pairwise_iff_ahead]
  constructor
  · intro h w hw hahead
    have hle := h w owner hahead
    rw [hothers w hw, hboost] at hle
    exact hle.trans (Nat.min_le_right _ _)
  · intro h a b hab
    by_cases ha : a = owner
    · by_cases hb : b = owner
      · rw [ha, hb]
      · rw [hothers b hb, ha, hboost]
        rw [ha] at hab
        exact (Nat.min_le_left _ _).trans (hline owner b hab)
    · rw [hothers a ha]
      by_cases hb : b = owner
      · rw [hb] at hab ⊢
        rw [hboost]
        exact Nat.le_min.mpr ⟨hline a owner hab, h a ha hab⟩
      · rw [hothers b hb]
        exact hline a b hab

theorem lock_blocked_inLine_iff {m : MutexState} {owner : Nat} {front back : List Nat} {old : Task}
    {boosted placed : AutosarScheduler} (hs : s.InLine) (hm : s.mutexes mutex = some m)
    (howner : m.owner = some owner)
    (hblock : Blocked search s task mutex owner m.waiters front back old boosted placed t) :
    t.InLine ↔ (Call.lock_mutex task mutex).KeepsLines s := by
  obtain ⟨hmutexes, _, _, hboost, hothers⟩ := hblock.effect
  have hline := hs mutex m hm
  obtain ⟨hfront, hback⟩ := hblock.order hline
  rw [hblock.split] at hline
  have hjoined := BinarySearch.pairwise_insert hline hfront hback
  constructor
  · intro ht m' owner' hm' howner' i mi w hmi hw hahead
    obtain rfl := Option.some.inj (hm.symm.trans hm')
    obtain rfl := Option.some.inj (howner.symm.trans howner')
    by_cases hi : i = mutex
    · subst hi
      obtain rfl := Option.some.inj (hm.symm.trans hmi)
      rw [hblock.split] at hahead
      have hafter := ht i _ (by rw [hmutexes, Function.update_self])
      exact (boosted_line_iff hjoined hboost hothers).mp hafter w hw hahead.insert
    · have hafter := ht i mi (by rw [hmutexes, Function.update_of_ne hi, hmi])
      exact (boosted_line_iff (hs i mi hmi) hboost hothers).mp hafter w hw hahead
  · intro hkeeps i mi hmi
    rw [hmutexes] at hmi
    by_cases hi : i = mutex
    · subst hi
      rw [Function.update_self] at hmi
      cases hmi
      refine (boosted_line_iff hjoined hboost hothers).mpr fun w hw hahead => ?_
      by_cases htask : w = task
      · rw [htask]
      by_cases hself : owner = task
      · -- The caller waits for itself, so nobody's priority changes.
        rw [hself] at hahead
        exact pairwise_iff_ahead.mp hjoined w task hahead
      · refine hkeeps m owner hm howner i m w hm hw ?_
        rw [hblock.split]
        exact hahead.of_insert htask hself
    · rw [Function.update_of_ne hi] at hmi
      refine (boosted_line_iff (hs i mi hmi) hboost hothers).mpr fun w hw hahead => ?_
      exact hkeeps m owner hm howner i mi w hmi hw hahead

theorem outranks_others {a b : Nat} (ha : a ≠ task) (hb : b ≠ task) :
    s.Outranks task mutex a b ↔ s.prio a ≤ s.prio b := by
  simp [Outranks, remaining, ha, hb]

/-- The lines after the mutex has been handed over. -/
theorem inLine_after_unlock_iff {m : MutexState} (hm : s.mutexes mutex = some m)
    (hmutexes : t.mutexes = Function.update s.mutexes mutex (some ⟨m.waiters.head?, m.waiters.tail⟩)) :
    t.InLine ↔ ∀ i mi, s.mutexes i = some mi →
      ∀ a b, Ahead (lineWithoutNext mutex i mi) a b → t.prio a ≤ t.prio b := by
  unfold InLine lineWithoutNext
  simp only [pairwise_iff_ahead]
  constructor
  · intro ht i mi hmi
    by_cases hi : i = mutex
    · subst hi
      obtain rfl := Option.some.inj (hm.symm.trans hmi)
      rw [if_pos rfl]
      exact ht i _ (by rw [hmutexes, Function.update_self])
    · rw [if_neg hi]
      exact ht i mi (by rw [hmutexes, Function.update_of_ne hi, hmi])
  · intro h i mi hmi
    rw [hmutexes] at hmi
    by_cases hi : i = mutex
    · subst hi
      rw [Function.update_self] at hmi
      cases hmi
      have hline := h i m hm
      rw [if_pos rfl] at hline
      exact hline
    · rw [Function.update_of_ne hi] at hmi
      have hline := h i mi hmi
      rw [if_neg hi] at hline
      exact hline

/-- Unlocking changes the priority of the caller only, so it can only break the
lines that the caller is itself in. -/
theorem unlock_owner_inLine_iff {m : MutexState} (hs : s.InLine) (hm : s.mutexes mutex = some m)
    (howner : m.owner = some task) (h : s.unlock_mutex search task mutex = some t) :
    t.InLine ↔ (Call.unlock_mutex task mutex).KeepsLines s := by
  obtain ⟨hmutexes, _, houtranks⟩ := unlock_mutex_effect hm howner h
  rw [inLine_after_unlock_iff hm hmutexes]
  simp only [houtranks]
  constructor
  · intro ht m' _ _ i mi w hmi
    exact ⟨ht i mi hmi w task, ht i mi hmi task w⟩
  · intro hkeeps i mi hmi a b hab
    have hcaller := hkeeps m hm howner i mi
    by_cases ha : a = task
    · rw [ha] at hab ⊢
      exact (hcaller b hmi).2 hab
    by_cases hb : b = task
    · rw [hb] at hab ⊢
      exact (hcaller a hmi).1 hab
    rw [outranks_others ha hb]
    refine pairwise_iff_ahead.mp (hs i mi hmi) a b (hab.trans ?_)
    unfold lineWithoutNext
    split
    · exact List.tail_sublist _
    · exact List.Sublist.refl _

theorem lock_mutex_inLine_iff (hheld : s.Held) (hs : s.InLine)
    (h : s.lock_mutex search task mutex = some t) :
    t.InLine ↔ (Call.lock_mutex task mutex).KeepsLines s := by
  rcases lock_mutex_cases rfl h with ⟨hfree, hlock⟩ |
    ⟨owner, front, back, old, boosted, placed, howner, hblock⟩
  · refine iff_of_true (lock_free_inLine hheld hs rfl hfree hlock) ?_
    intro m owner hm howner
    rw [hm, Option.getD_some, howner] at hfree
    cases hfree
  cases hm : s.mutexes mutex with
  | none =>
    rw [hm] at howner
    cases howner
  | some m =>
    rw [hm, Option.getD_some] at howner hblock
    exact lock_blocked_inLine_iff hs hm howner hblock

theorem unlock_mutex_inLine_iff (hs : s.InLine) (h : s.unlock_mutex search task mutex = some t) :
    t.InLine ↔ (Call.unlock_mutex task mutex).KeepsLines s := by
  rcases unlock_mutex_cases h with ⟨rfl, hother⟩ | ⟨m, _, _, _, _, _, hm, howner, _⟩
  · refine iff_of_true hs ?_
    intro m hm howner
    exact absurd howner (hother m hm)
  · exact unlock_owner_inLine_iff hs hm howner h

theorem Call.run_inLine_iff {call : Call} (hheld : s.Held) (hs : s.InLine) (hcall : call.Disciplined s)
    (h : call.run search s = some t) : t.InLine ↔ call.KeepsLines s := by
  cases call with
  | add_task id period thread_cap =>
    cases h
    refine iff_of_true (hs.of_prio rfl fun i m w hm hw => prio_congr ?_) trivial
    apply Function.update_of_ne
    rintro rfl
    have hregistered := hheld.waiter i m w hm hw
    have hnone : s.tasks w = none := hcall
    rw [hnone] at hregistered
    cases hregistered
  | make_ready id =>
    have hframe := make_ready_frame h
    exact iff_of_true (hs.of_prio hframe.mutexes fun _ _ w _ _ => hframe.prio w) trivial
  | lock_mutex task mutex => exact lock_mutex_inLine_iff hheld hs h
  | unlock_mutex task mutex => exact unlock_mutex_inLine_iff hs h

/-- A run has all lines in order in every state exactly when each locking and
unlocking in it keeps them so. -/
theorem lines_in_order_iff {past : List (AutosarScheduler × Call)}
    (hrun : (disciplined search).Run past s) :
    (s.InLine ∧ ∀ p ∈ past, p.1.InLine) ↔ ∀ p ∈ past, p.2.KeepsLines p.1 := by
  refine hrun.throughout_iff (I := Held) (P := InLine) (Q := fun s call => call.KeepsLines s) ?_ ?_ ?_
  · rintro s ⟨scheduler_cap, rfl⟩
    exact ⟨(new_held scheduler_cap).1, nofun⟩
  · intro s call t hheld hcall h
    exact (Call.run_inherits hheld hcall h).1
  · intro s call t hheld hs hcall h
    exact Call.run_inLine_iff hheld hs hcall h

theorem disciplined_held {past : List (AutosarScheduler × Call)}
    (hrun : (disciplined search).Run past s) : s.Held := by
  refine hrun.invariant (P := Held) ?_ fun _ _ _ hheld hcall h => (Call.run_inherits hheld hcall h).1
  rintro s ⟨scheduler_cap, rfl⟩
  exact (new_held scheduler_cap).1

/-- The mutex goes to a task that was waiting for it, and no task that was waiting
was more urgent. -/
def HandsToMostUrgent (s t : AutosarScheduler) (mutex : Nat) (m : MutexState) : Prop :=
  ∃ m' next, t.mutexes mutex = some m' ∧ m'.owner = some next ∧ next ∈ m.waiters ∧
    ∀ w ∈ m.waiters, ∃ pn pw, s.task_priority next = some pn ∧ s.task_priority w = some pw ∧ pn ≤ pw

/-- After any run whose calls all keep the lines in order, the owner that unlocks a
mutex somebody waits for hands it to a most urgent waiter. -/
theorem hands_to_most_urgent (search : BinarySearch Nat) (past : List (AutosarScheduler × Call))
    (s : AutosarScheduler) (hrun : (disciplined search).Run past s)
    (hkeeps : ∀ p ∈ past, p.2.KeepsLines p.1) {task mutex : Nat} {m : MutexState}
    (hm : s.mutexes mutex = some m) (howner : m.owner = some task) (hwaiters : m.waiters ≠ [])
    {t : AutosarScheduler} (h : s.unlock_mutex search task mutex = some t) : HandsToMostUrgent s t mutex m := by
  have hheld := disciplined_held hrun
  have hline := ((lines_in_order_iff hrun).mpr hkeeps).1 mutex m hm
  have hmutexes := unlock_mutex_mutexes hm howner h
  cases hw : m.waiters with
  | nil => exact absurd hw hwaiters
  | cons next waiters =>
    have hmem : next ∈ m.waiters := by
      rw [hw]
      exact List.mem_cons_self ..
    refine ⟨⟨some next, waiters⟩, next, ?_, rfl, hmem, ?_⟩
    · rw [hmutexes, Function.update_self, hw]
      rfl
    · intro w hwm
      refine ⟨s.prio next, s.prio w, task_priority_of_isSome (hheld.waiter mutex m next hm hmem),
        task_priority_of_isSome (hheld.waiter mutex m w hm hwm), ?_⟩
      rw [hw] at hline hwm
      rcases List.mem_cons.mp hwm with rfl | hwm
      · exact Nat.le_refl _
      · exact (List.pairwise_cons.mp hline).1 w hwm

/-- Nobody is overtaken in a line of one. -/
theorem keepsLines_of_short {call : Call}
    (h : ∀ i m, s.mutexes i = some m → m.waiters.length ≤ 1) : call.KeepsLines s := by
  have hnobody (i : Nat) (m : MutexState) (hm : s.mutexes i = some m) (line : List Nat)
      (hline : line.Sublist m.waiters) (a b : Nat) (hab : Ahead line a b) : False := by
    have htwo : 2 ≤ m.waiters.length := (hab.trans hline).length_le
    have hone := h i m hm
    omega
  cases call with
  | add_task id period thread_cap => trivial
  | make_ready id => trivial
  | lock_mutex task mutex =>
    intro _ _ _ _ i m w hm _ hahead
    exact (hnobody i m hm _ (List.Sublist.refl _) w _ hahead).elim
  | unlock_mutex task mutex =>
    intro _ _ _ i m w hm
    have hsub : (lineWithoutNext mutex i m).Sublist m.waiters := by
      unfold lineWithoutNext
      split
      · exact List.tail_sublist _
      · exact List.Sublist.refl _
    exact ⟨fun hab => (hnobody i m hm _ hsub _ _ hab).elim, fun hab => (hnobody i m hm _ hsub _ _ hab).elim⟩

theorem keepsLines_of_one_mutex {call : Call} {i : Nat} (hothers : ∀ j, j ≠ i → s.mutexes j = none)
    (hshort : ((s.mutexes i).getD ⟨none, []⟩).waiters.length ≤ 1) : call.KeepsLines s := by
  apply keepsLines_of_short
  intro j m hm
  by_cases hj : j = i
  · rw [hj] at hm
    rw [hm] at hshort
    exact hshort
  · rw [hothers j hj] at hm
    cases hm

/-- Two tasks wait for the only mutex, and the more urgent one, which came last, is
next. -/
theorem hands_to_most_urgent_last_come :
    ∃ past s t m, (disciplined .std).Run past s ∧ past.length = 9 ∧ s.mutexes 1 = some m ∧
      m.waiters = [3, 2] ∧ s.unlock_mutex .std 1 1 = some t ∧ HandsToMostUrgent s t 1 m := by
  have hadd₁ := Machine.Run.call (M := disciplined .std) (i := Call.add_task 1 30 0)
    (.start ⟨0, rfl⟩) rfl rfl
  have hadd₂ := hadd₁.call (i := Call.add_task 2 20 0) rfl rfl
  have hadd₃ := hadd₂.call (i := Call.add_task 3 10 0) rfl rfl
  have hready₁ := hadd₃.call (i := Call.make_ready 1) rfl rfl
  have hlock₁ := hready₁.call (i := Call.lock_mutex 1 1) rfl rfl
  have hready₂ := hlock₁.call (i := Call.make_ready 2) rfl rfl
  have hlock₂ := hready₂.call (i := Call.lock_mutex 2 1) rfl rfl
  have hready₃ := hlock₂.call (i := Call.make_ready 3) rfl rfl
  have hlock₃ := hready₃.call (i := Call.lock_mutex 3 1) rfl rfl
  refine ⟨_, _, _, _, hlock₃, rfl, rfl, rfl, rfl, ?_⟩
  apply hands_to_most_urgent .std _ _ hlock₃ ?_ rfl rfl (List.cons_ne_nil 3 [2]) rfl
  simp only [List.forall_mem_append, List.forall_mem_singleton]
  refine ⟨⟨⟨⟨⟨⟨⟨⟨⟨nofun, trivial⟩, trivial⟩, trivial⟩, trivial⟩, ?_⟩, trivial⟩, ?_⟩, trivial⟩, ?_⟩
  · exact keepsLines_of_one_mutex (i := 1) (fun j hj => rfl) (by decide)
  · exact keepsLines_of_one_mutex (i := 1) (fun j hj => Function.update_of_ne hj _ _) (by decide)
  · refine keepsLines_of_one_mutex (i := 1) (fun j hj => ?_) (by decide)
    exact (Function.update_of_ne hj _ _).trans (Function.update_of_ne hj _ _)

/-- Task 2 (at 20) and task 3 (at 30) wait for mutex 1, and task 3 owns a mutex
that task 4 (at 10) asks for: task 3 is boosted to 10 in its place behind task 2. -/
def overtakenCalls : List Call :=
  [.add_task 1 40 0, .add_task 2 20 0, .add_task 3 30 0, .add_task 4 10 0, .make_ready 1,
    .lock_mutex 1 1, .make_ready 3, .lock_mutex 3 2, .lock_mutex 3 1, .make_ready 2,
    .lock_mutex 2 1, .make_ready 4, .lock_mutex 4 2]

/-- A task that waits in line inherits a better priority and keeps its place, so that the mutex goes to the task
in front of it, which is less urgent. -/
theorem hands_to_most_urgent_fails :
    ∃ past s t m, (disciplined .std).Run past s ∧ past.map Prod.snd = overtakenCalls ∧
      s.current = some 1 ∧ s.mutexes 1 = some m ∧ m.owner = some 1 ∧ m.waiters = [2, 3] ∧
      s.task_priority 2 = some 20 ∧ s.task_priority 3 = some 10 ∧
      s.unlock_mutex .std 1 1 = some t ∧ ¬ HandsToMostUrgent s t 1 m := by
  obtain ⟨past, s, hrun, hcalls, _, hend⟩ := Machine.exists_run_of_reaches
    (M := disciplined .std) (.start ⟨0, rfl⟩) (fun _ _ => true)
    (fun s => s.current = some 1 ∧ s.mutexes 1 = some ⟨some 1, [2, 3]⟩ ∧ s.task_priority 2 = some 20 ∧
      s.task_priority 3 = some 10 ∧ (s.unlock_mutex .std 1 1).isSome) overtakenCalls (by decide +kernel)
  rw [decide_eq_true_eq] at hend
  obtain ⟨hcurrent, hmutex, hnext, hother, hsome⟩ := hend
  obtain ⟨t, ht⟩ := Option.isSome_iff_exists.mp hsome
  refine ⟨past, s, t, _, hrun, hcalls, hcurrent, hmutex, rfl, rfl, hnext, hother, ht, ?_⟩
  rintro ⟨m', next, hm', howner, _, hleast⟩
  rw [unlock_mutex_mutexes hmutex rfl ht, Function.update_self] at hm'
  cases hm'
  cases howner
  obtain ⟨pn, pw, hpn, hpw, hle⟩ := hleast 3 (by simp)
  rw [hnext] at hpn
  rw [hother] at hpw
  cases hpn
  cases hpw
  omega

end l4.scheduler.autosar
