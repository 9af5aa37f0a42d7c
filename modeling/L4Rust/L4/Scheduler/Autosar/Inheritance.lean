import L4Rust.L4.Scheduler.Autosar.Mutexes

namespace l4.scheduler.autosar

namespace AutosarScheduler

variable {search : BinarySearch Nat} {s t : AutosarScheduler} {task mutex : Nat}

/-- Whoever waits for a mutex, its owner is at least as urgent. -/
def Inherits (s : AutosarScheduler) : Prop :=
  ∀ i m o w, s.mutexes i = some m → m.owner = some o → w ∈ m.waiters →
    ∃ po pw, s.task_priority o = some po ∧ s.task_priority w = some pw ∧ po ≤ pw

/-- Owners and waiters are registered tasks, and nobody waits for a free mutex. -/
structure Held (s : AutosarScheduler) : Prop where
  owner : ∀ i m o, s.mutexes i = some m → m.owner = some o → (s.tasks o).isSome
  waiter : ∀ i m w, s.mutexes i = some m → w ∈ m.waiters → (s.tasks w).isSome
  free : ∀ i m, s.mutexes i = some m → m.owner = none → m.waiters = []

theorem task_priority_of_isSome {id : Nat} (h : (s.tasks id).isSome) :
    s.task_priority id = some (s.prio id) := by
  obtain ⟨k, hk⟩ := Option.isSome_iff_exists.mp h
  rw [task_priority_of_task hk, prio_of_task hk]

theorem inherits_iff (hheld : s.Held) :
    s.Inherits ↔ ∀ i m o w, s.mutexes i = some m → m.owner = some o → w ∈ m.waiters →
      s.prio o ≤ s.prio w := by
  constructor
  · intro h i m o w hm ho hw
    obtain ⟨po, pw, hpo, hpw, hle⟩ := h i m o w hm ho hw
    rw [← eq_prio hpo, ← eq_prio hpw]
    exact hle
  · intro h i m o w hm ho hw
    exact ⟨s.prio o, s.prio w, task_priority_of_isSome (hheld.owner i m o hm ho),
      task_priority_of_isSome (hheld.waiter i m w hm hw), h i m o w hm ho hw⟩

/-- Tasks stay registered. -/
theorem Held.of_mutexes (h : s.Held) (hmutexes : t.mutexes = s.mutexes)
    (htasks : ∀ i, (s.tasks i).isSome → (t.tasks i).isSome) : t.Held := by
  refine ⟨?_, ?_, ?_⟩
  · intro i m o hm ho
    rw [hmutexes] at hm
    exact htasks o (h.owner i m o hm ho)
  · intro i m w hm hw
    rw [hmutexes] at hm
    exact htasks w (h.waiter i m w hm hw)
  · rw [hmutexes]
    exact h.free

/-- One mutex has changed hands. -/
theorem Held.update (h : s.Held) {m : MutexState}
    (hmutexes : t.mutexes = Function.update s.mutexes mutex (some m))
    (htasks : ∀ i, (s.tasks i).isSome → (t.tasks i).isSome)
    (howner : ∀ o, m.owner = some o → (s.tasks o).isSome)
    (hwaiters : ∀ w ∈ m.waiters, (s.tasks w).isSome) (hfree : m.owner = none → m.waiters = []) :
    t.Held := by
  have hcases (i : Nat) (m' : MutexState) (hm' : t.mutexes i = some m') :
      m' = m ∨ s.mutexes i = some m' := by
    rw [hmutexes] at hm'
    by_cases hi : i = mutex
    · subst hi
      rw [Function.update_self] at hm'
      exact Or.inl (Option.some.inj hm').symm
    · rw [Function.update_of_ne hi] at hm'
      exact Or.inr hm'
  refine ⟨?_, ?_, ?_⟩
  · intro i m' o hm' ho
    rcases hcases i m' hm' with rfl | hold
    · exact htasks o (howner o ho)
    · exact htasks o (h.owner i m' o hold ho)
  · intro i m' w hm' hw
    rcases hcases i m' hm' with rfl | hold
    · exact htasks w (hwaiters w hw)
    · exact htasks w (h.waiter i m' w hold hw)
  · intro i m' hm' ho
    rcases hcases i m' hm' with rfl | hold
    · exact hfree ho
    · exact h.free i m' hold ho

/-- The priorities a task can fall back on once the caller has given up the
mutex: for the caller its base priority and those of the first waiters of the
mutexes it keeps, for everybody else the current one. -/
def remaining (s : AutosarScheduler) (task mutex a : Nat) : List Nat :=
  if a = task then
    match s.tasks task with
    | some k => k.base_priority ::
      ((k.owned_mutexes.filter (· ≠ mutex)).filterMap s.first_waiter).map s.prio
    | none => []
  else [s.prio a]

/-- Whatever the second task can fall back on, the first has something at least
as urgent. -/
def Outranks (s : AutosarScheduler) (task mutex a b : Nat) : Prop :=
  ∀ y ∈ s.remaining task mutex b, ∃ x ∈ s.remaining task mutex a, x ≤ y

theorem exists_mem_claims_iff {k : Task} (hk : s.tasks task = some k) (x : Nat) :
    (∃ c ∈ s.remaining task mutex task, c ≤ x) ↔ k.base_priority ≤ x ∨
      ∃ i, (i ∈ k.owned_mutexes ∧ i ≠ mutex) ∧ ∃ w, s.first_waiter i = some w ∧ s.prio w ≤ x := by
  unfold remaining
  rw [if_pos rfl, hk]
  simp only [List.exists_mem_cons_iff, List.mem_map, List.mem_filterMap, List.mem_filter,
    decide_eq_true_eq]
  apply or_congr_right
  constructor
  · rintro ⟨c, ⟨w, ⟨i, hi, hw⟩, rfl⟩, hle⟩
    exact ⟨i, hi, w, hw, hle⟩
  · rintro ⟨i, hi, w, hw, hle⟩
    exact ⟨s.prio w, ⟨w, ⟨i, hi, hw⟩, rfl⟩, hle⟩

/-- What unlocking leaves behind: the mutex with its next owner, and everybody
with the most urgent priority there is to fall back on. -/
theorem unlock_mutex_effect {m : MutexState} (hm : s.mutexes mutex = some m)
    (howner : m.owner = some task) (h : s.unlock_mutex search task mutex = some t) :
    t.mutexes = Function.update s.mutexes mutex (some ⟨m.waiters.head?, m.waiters.tail⟩) ∧
      (∀ i, (s.tasks i).isSome → (t.tasks i).isSome) ∧
      ∀ a b, t.prio a ≤ t.prio b ↔ s.Outranks task mutex a b := by
  rcases unlock_mutex_cases h with ⟨_, hother⟩ |
    ⟨m', given, freed, old, p, mid, hm', _, hgiven, hfreed, hp, hedit, hdone⟩
  · exact absurd howner (hother m hm)
  obtain rfl := Option.some.inj (hm.symm.trans hm')
  have hreleased := released_of_hand_over hgiven hfreed
  have hframe := reposition_frame hdone
  obtain ⟨k, hk, hkbase, _⟩ := hreleased.same.task hedit.task_before
  -- The new priority of any task is the least of what it can fall back on.
  have hleast (a x : Nat) : t.prio a ≤ x ↔ ∃ c ∈ s.remaining task mutex a, c ≤ x := by
    rw [hframe.prio]
    by_cases ha : a = task
    · subst ha
      rw [prio_of_task hedit.task_after, exists_mem_claims_iff hk,
        kept_priority_le_iff hedit.task_before hp, hkbase]
      simp only [hreleased.owned k old hk hedit.task_before, hreleased.same.prio]
      apply or_congr_right
      refine exists_congr fun i => and_congr_right fun hi => ?_
      rw [hreleased.first_waiter hi.2]
    · rw [prio_congr (hedit.others a ha), hreleased.same.prio]
      simp [remaining, ha]
  refine ⟨unlock_mutex_mutexes hm howner h, ?_, ?_⟩
  · intro i hi
    rw [hframe.tasks]
    exact hedit.isSome (hreleased.same.isSome hi)
  · intro a b
    constructor
    · intro hab y hy
      exact (hleast a y).mp (hab.trans ((hleast b y).mpr ⟨y, hy, Nat.le_refl y⟩))
    · intro hab
      obtain ⟨y, hy, hyb⟩ := (hleast b (t.prio b)).mp (Nat.le_refl _)
      obtain ⟨x, hx, hxy⟩ := hab y hy
      exact (hleast a (t.prio b)).mpr ⟨x, hx, hxy.trans hyb⟩

theorem Blocked.mem_waiters {waiters : List Nat} {owner : Nat} {front back : List Nat} {old : Task}
    {boosted placed : AutosarScheduler}
    (hblock : Blocked search s task mutex owner waiters front back old boosted placed t) {w : Nat} :
    w ∈ front ++ task :: back ↔ w = task ∨ w ∈ waiters := by
  rw [hblock.split]
  simp only [List.mem_append, List.mem_cons]
  tauto

theorem Blocked.held {m : MutexState} {owner : Nat} {front back : List Nat} {old : Task}
    {boosted placed : AutosarScheduler}
    (hblock : Blocked search s task mutex owner m.waiters front back old boosted placed t)
    (hheld : s.Held) (hm : s.mutexes mutex = some m) : t.Held := by
  obtain ⟨hmutexes, hkeep, hregistered, _, _⟩ := hblock.effect
  refine hheld.update hmutexes hkeep ?_ ?_ nofun
  · rintro o ho
    cases ho
    exact hregistered
  · intro w hw
    rcases hblock.mem_waiters.mp hw with rfl | hw
    · exact hblock.caller
    · exact hheld.waiter mutex m w hm hw

end AutosarScheduler

open AutosarScheduler

/-- When unlocking releases a mutex, the next owner outranks those still in line
for it, the caller outranks those in line for what it keeps, and it is outranked
by the owners it is itself in line for. -/
structure ReleasesInOrder (s : AutosarScheduler) (task mutex : Nat) (m : MutexState) : Prop where
  next_owner : ∀ next, m.waiters.head? = some next → ∀ w ∈ m.waiters.tail,
    s.Outranks task mutex next w
  kept : ∀ i m', i ≠ mutex → s.mutexes i = some m' → m'.owner = some task →
    ∀ w ∈ m'.waiters, s.Outranks task mutex task w
  awaited : ∀ i m' o, i ≠ mutex → s.mutexes i = some m' → m'.owner = some o →
    task ∈ m'.waiters → s.Outranks task mutex o task

/-- When the caller blocks, whoever owns a mutex that the owner in turn waits for
is already at least as urgent as the caller; and unlocking releases in order. -/
def Call.KeepsInheritance (s : AutosarScheduler) : Call → Prop
  | .lock_mutex task mutex => ∀ m owner, s.mutexes mutex = some m → m.owner = some owner →
    ∀ i m' o, s.mutexes i = some m' → m'.owner = some o → o ≠ owner → owner ∈ m'.waiters →
      s.prio o ≤ s.prio task
  | .unlock_mutex task mutex => ∀ m, s.mutexes mutex = some m → m.owner = some task →
    ReleasesInOrder s task mutex m
  | .add_task .. | .make_ready _ => True

variable {search : BinarySearch Nat} {s t : AutosarScheduler} {task mutex : Nat}

theorem new_held (scheduler_cap : Nat) :
    (new scheduler_cap).Held ∧ (new scheduler_cap).Inherits :=
  ⟨⟨nofun, nofun, nofun⟩, nofun⟩

/-- Locking a free mutex makes nobody wait. -/
theorem lock_free_effect {m : MutexState} (hheld : s.Held)
    (hm : (s.mutexes mutex).getD ⟨none, []⟩ = m) (hfree : m.owner = none)
    (h : (s.set_mutex mutex ⟨some task, m.waiters⟩).get_mut task (insert_owned mutex) = some t) :
    t.mutexes = Function.update s.mutexes mutex (some ⟨some task, []⟩) ∧ SamePriorities s t ∧
      (s.tasks task).isSome := by
  have hwaiters : m.waiters = [] := by
    cases hs : s.mutexes mutex with
    | none =>
      rw [hs] at hm
      subst hm
      rfl
    | some m' =>
      rw [hs] at hm
      exact hheld.free mutex m (by rw [hs]; exact congrArg some hm) hfree
  obtain ⟨k, hedit⟩ := get_mut_edited h
  refine ⟨?_, SamePriorities.trans (.of_tasks rfl) (hedit.samePriorities rfl rfl), ?_⟩
  · rw [hedit.mutexes, hwaiters]
    rfl
  · exact Option.isSome_iff_exists.mpr ⟨k, hedit.task_before⟩

theorem lock_free_inherits {m : MutexState} (hheld : s.Held)
    (hm : (s.mutexes mutex).getD ⟨none, []⟩ = m) (hfree : m.owner = none)
    (h : (s.set_mutex mutex ⟨some task, m.waiters⟩).get_mut task (insert_owned mutex) = some t) :
    t.Held ∧ (s.Inherits → t.Inherits) := by
  obtain ⟨hmutexes, hsame, hregistered⟩ := lock_free_effect hheld hm hfree h
  have hdone : t.Held := by
    refine hheld.update hmutexes (fun i hi => hsame.isSome hi) ?_ nofun nofun
    rintro o ho
    cases ho
    exact hregistered
  refine ⟨hdone, fun hinherits => ?_⟩
  rw [inherits_iff hheld] at hinherits
  rw [inherits_iff hdone]
  intro i m' o w hm' ho hw
  rw [hmutexes] at hm'
  rw [hsame.prio, hsame.prio]
  by_cases hi : i = mutex
  · subst hi
    rw [Function.update_self] at hm'
    cases hm'
    cases hw
  · rw [Function.update_of_ne hi] at hm'
    exact hinherits i m' o w hm' ho hw

section blocked

variable {m : MutexState} {owner : Nat} {front back : List Nat} {old : Task}
  {boosted placed : AutosarScheduler}

/-- Blocking makes the owner more urgent and nobody less. -/
theorem AutosarScheduler.Blocked.prio_le (hblock : Blocked search s task mutex owner m.waiters front back old boosted placed t)
    (i : Nat) : t.prio i ≤ s.prio i := by
  obtain ⟨_, _, _, hboost, hothers⟩ := hblock.effect
  by_cases hi : i = owner
  · rw [hi, hboost]
    exact Nat.min_le_left _ _
  · rw [hothers i hi]

theorem AutosarScheduler.Blocked.keepsInheritance (hm : s.mutexes mutex = some m) (howner : m.owner = some owner)
    (hblock : Blocked search s task mutex owner m.waiters front back old boosted placed t)
    (hdone : t.Held) (hafter : t.Inherits) : (Call.lock_mutex task mutex).KeepsInheritance s := by
  obtain ⟨hmutexes, _, _, hboost, hothers⟩ := hblock.effect
  rw [inherits_iff hdone] at hafter
  intro m' owner' hm' howner' i mi o hi ho hne hwaits
  obtain rfl := Option.some.inj (hm.symm.trans hm')
  obtain rfl := Option.some.inj (howner.symm.trans howner')
  have hother : i ≠ mutex := by
    rintro rfl
    obtain rfl := Option.some.inj (hm.symm.trans hi)
    exact hne (Option.some.inj (ho.symm.trans howner))
  have hle := hafter i mi o owner (by rw [hmutexes, Function.update_of_ne hother, hi]) ho hwaits
  rw [hothers o hne, hboost] at hle
  exact hle.trans (Nat.min_le_right _ _)

/-- The owner is as urgent as its new waiter, and what it waits for itself is by
assumption. -/
theorem AutosarScheduler.Blocked.inherits (hheld : s.Held) (hm : s.mutexes mutex = some m) (howner : m.owner = some owner)
    (hblock : Blocked search s task mutex owner m.waiters front back old boosted placed t)
    (hdone : t.Held) (hinherits : s.Inherits) (hkeeps : (Call.lock_mutex task mutex).KeepsInheritance s) :
    t.Inherits := by
  obtain ⟨hmutexes, _, _, hboost, hothers⟩ := hblock.effect
  rw [inherits_iff hheld] at hinherits
  rw [inherits_iff hdone]
  intro i m' o w hm' ho hw
  rw [hmutexes] at hm'
  by_cases hi : i = mutex
  · subst hi
    rw [Function.update_self] at hm'
    cases hm'
    cases ho
    by_cases hwo : w = owner
    · rw [hwo]
    rw [hothers w hwo, hboost]
    rcases hblock.mem_waiters.mp hw with rfl | hw
    · exact Nat.min_le_right _ _
    · exact (Nat.min_le_left _ _).trans (hinherits i m owner w hm howner hw)
  · rw [Function.update_of_ne hi] at hm'
    have hle := hinherits i m' o w hm' ho hw
    by_cases hwo : w = owner
    · subst hwo
      by_cases how : o = w
      · rw [how]
      · rw [hothers o how, hboost]
        exact Nat.le_min.mpr ⟨hle, hkeeps m w hm howner i m' o hm' ho how hw⟩
    · rw [hothers w hwo]
      exact (hblock.prio_le o).trans hle

/-- Blocking can only break what the owner itself waits for. -/
theorem lock_blocked_inherits (hheld : s.Held) (hm : s.mutexes mutex = some m)
    (howner : m.owner = some owner)
    (hblock : Blocked search s task mutex owner m.waiters front back old boosted placed t) :
    t.Held ∧ (s.Inherits →
      (t.Inherits ↔ (Call.lock_mutex task mutex).KeepsInheritance s)) := by
  have hdone : t.Held := hblock.held hheld hm
  refine ⟨hdone, fun hinherits => ⟨?_, ?_⟩⟩
  · exact hblock.keepsInheritance hm howner hdone
  · exact hblock.inherits hheld hm howner hdone hinherits

end blocked

theorem lock_mutex_inherits (hheld : s.Held) (h : s.lock_mutex search task mutex = some t) :
    t.Held ∧ (s.Inherits →
      (t.Inherits ↔ (Call.lock_mutex task mutex).KeepsInheritance s)) := by
  rcases lock_mutex_cases rfl h with ⟨hfree, hlock⟩ |
    ⟨owner, front, back, old, boosted, placed, howner, hblock⟩
  · obtain ⟨hdone, hkeeps⟩ := lock_free_inherits hheld rfl hfree hlock
    refine ⟨hdone, fun hinherits => iff_of_true (hkeeps hinherits) ?_⟩
    intro m owner hm howner
    rw [hm, Option.getD_some, howner] at hfree
    cases hfree
  obtain ⟨m, hm⟩ : ∃ m, s.mutexes mutex = some m := by
    cases hs : s.mutexes mutex with
    | none =>
      rw [hs] at howner
      cases howner
    | some m => exact ⟨m, rfl⟩
  rw [hm, Option.getD_some] at howner hblock
  exact lock_blocked_inherits hheld hm howner hblock

/-- The next owner is one of those who waited, and the others go on waiting. -/
theorem unlock_mutex_held {m : MutexState} (hheld : s.Held) (hm : s.mutexes mutex = some m)
    (howner : m.owner = some task) (h : s.unlock_mutex search task mutex = some t) : t.Held := by
  obtain ⟨hmutexes, hkeep, _⟩ := unlock_mutex_effect hm howner h
  refine hheld.update hmutexes hkeep ?_ ?_ ?_
  · intro o ho
    exact hheld.waiter mutex m o hm (List.mem_of_head? ho)
  · intro w hw
    exact hheld.waiter mutex m w hm (List.mem_of_mem_tail hw)
  · intro hhead
    rw [List.head?_eq_none_iff.mp hhead]
    rfl

theorem unlock_mutex_inherits (hheld : s.Held) (h : s.unlock_mutex search task mutex = some t) :
    t.Held ∧ (s.Inherits →
      (t.Inherits ↔ (Call.unlock_mutex task mutex).KeepsInheritance s)) := by
  rcases unlock_mutex_cases h with ⟨rfl, hother⟩ | ⟨m, _, _, _, _, _, hm, howner, _⟩
  · refine ⟨hheld, fun hinherits => iff_of_true hinherits ?_⟩
    intro m hm howner
    exact absurd howner (hother m hm)
  have hdone := unlock_mutex_held hheld hm howner h
  obtain ⟨hmutexes, _, houtranks⟩ := unlock_mutex_effect hm howner h
  refine ⟨hdone, fun hinherits => ?_⟩
  rw [inherits_iff hheld] at hinherits
  rw [inherits_iff hdone]
  simp only [houtranks]
  constructor
  · intro hafter m' hm' _
    obtain rfl := Option.some.inj (hm.symm.trans hm')
    refine ⟨?_, ?_, ?_⟩
    · intro next hnext w hw
      exact hafter mutex _ next w (by rw [hmutexes, Function.update_self]) hnext hw
    · intro i mi hi hmi ho w hw
      exact hafter i mi task w (by rw [hmutexes, Function.update_of_ne hi, hmi]) ho hw
    · intro i mi o hi hmi ho hw
      exact hafter i mi o task (by rw [hmutexes, Function.update_of_ne hi, hmi]) ho hw
  · intro hkeeps i m' o w hm' ho hw
    have horder := hkeeps m hm howner
    rw [hmutexes] at hm'
    by_cases hi : i = mutex
    · subst hi
      rw [Function.update_self] at hm'
      cases hm'
      exact horder.next_owner o ho w hw
    rw [Function.update_of_ne hi] at hm'
    by_cases hot : o = task
    · subst hot
      exact horder.kept i m' hi hm' ho w hw
    by_cases hwt : w = task
    · subst hwt
      exact horder.awaited i m' o hi hm' ho hw
    · -- Neither is the caller, so both still have the priority they had.
      have hle := hinherits i m' o w hm' ho hw
      simpa [Outranks, remaining, hot, hwt] using hle

theorem Call.run_inherits {call : Call} (hheld : s.Held) (hcall : call.Disciplined s)
    (h : call.run search s = some t) :
    t.Held ∧ (s.Inherits → (t.Inherits ↔ call.KeepsInheritance s)) := by
  cases call with
  | add_task id period thread_cap =>
    cases h
    have hkeep (i : Nat) (hi : (s.tasks i).isSome) :
        (s.add_task id period thread_cap).tasks i = s.tasks i := by
      apply Function.update_of_ne
      rintro rfl
      have hnone : s.tasks i = none := hcall
      rw [hnone] at hi
      cases hi
    have hdone : (s.add_task id period thread_cap).Held :=
      hheld.of_mutexes rfl fun i hi => by rw [hkeep i hi]; exact hi
    refine ⟨hdone, fun hinherits => iff_of_true ?_ trivial⟩
    rw [inherits_iff hheld] at hinherits
    rw [inherits_iff hdone]
    intro i m o w hm ho hw
    rw [prio_congr (hkeep o (hheld.owner i m o hm ho)), prio_congr (hkeep w (hheld.waiter i m w hm hw))]
    exact hinherits i m o w hm ho hw
  | make_ready id =>
    have hframe := make_ready_frame h
    have hdone : t.Held := hheld.of_mutexes hframe.mutexes fun i hi => by rw [hframe.tasks]; exact hi
    refine ⟨hdone, fun hinherits => iff_of_true ?_ trivial⟩
    rw [inherits_iff hheld] at hinherits
    rw [inherits_iff hdone, hframe.mutexes]
    simpa only [hframe.prio] using hinherits
  | lock_mutex task mutex => exact lock_mutex_inherits hheld h
  | unlock_mutex task mutex => exact unlock_mutex_inherits hheld h

/-- A run has every owner at least as urgent as its waiters in every state
exactly when each locking and unlocking in it keeps that. -/
theorem inheritance_iff (search : BinarySearch Nat) (past : List (AutosarScheduler × Call))
    (s : AutosarScheduler) (hrun : (disciplined search).Run past s) :
    (s.Inherits ∧ ∀ p ∈ past, p.1.Inherits) ↔ ∀ p ∈ past, p.2.KeepsInheritance p.1 := by
  refine hrun.throughout_iff (I := Held) (P := Inherits)
    (Q := fun s call => call.KeepsInheritance s) ?_ ?_ ?_
  · rintro s ⟨scheduler_cap, rfl⟩
    exact new_held scheduler_cap
  · intro s call t hheld hcall h
    exact (Call.run_inherits hheld hcall h).1
  · intro s call t hheld hinherits hcall h
    exact (Call.run_inherits hheld hcall h).2 hinherits

/-- Blocking on the only mutex boosts its owner. -/
theorem inheritance_two_tasks :
    ∃ past s, (disciplined .std).Run past s ∧ past.length = 6 ∧ s.first_waiter 1 = some 2 ∧
      s.task_priority 1 = some 100 ∧ s.Inherits ∧ ∀ p ∈ past, p.1.Inherits := by
  have hadd₁ := Machine.Run.call (M := disciplined .std) (i := Call.add_task 1 200 0)
    (.start ⟨0, rfl⟩) rfl rfl
  have hadd₂ := hadd₁.call (i := Call.add_task 2 100 0) rfl rfl
  have hready₁ := hadd₂.call (i := Call.make_ready 1) rfl rfl
  have hlock₁ := hready₁.call (i := Call.lock_mutex 1 1) rfl rfl
  have hready₂ := hlock₁.call (i := Call.make_ready 2) rfl rfl
  have hlock₂ := hready₂.call (i := Call.lock_mutex 2 1) rfl rfl
  refine ⟨_, _, hlock₂, rfl, rfl, rfl, ?_⟩
  apply (inheritance_iff .std _ _ hlock₂).mpr
  simp only [List.forall_mem_append, List.forall_mem_singleton]
  refine ⟨⟨⟨⟨⟨⟨nofun, trivial⟩, trivial⟩, trivial⟩, ?_⟩, trivial⟩, ?_⟩
  · intro m owner hm
    cases hm
  · -- Nobody waits for anything yet.
    intro _ _ _ _ i m o hm _ _ hw
    have hmutexes : (if i = 1 then some (⟨some 1, []⟩ : MutexState) else none) = some m := by
      rw [← hm]
      exact (Function.update_apply (fun _ => none) 1 (some (⟨some 1, []⟩ : MutexState)) i).symm
    split at hmutexes
    · cases hmutexes
      cases hw
    · cases hmutexes

/-- Task 1 owns a mutex that task 2 waits for, and task 2 one that task 3 asks
for. -/
def chainCalls : List Call :=
  [.add_task 1 30 0, .add_task 2 20 0, .add_task 3 10 0, .make_ready 1, .lock_mutex 1 1,
    .make_ready 2, .lock_mutex 2 2, .lock_mutex 2 1, .make_ready 3, .lock_mutex 3 2]

/-- Task 2 inherits the priority of task 3, but task 1, which it waits for, does
not. -/
theorem inheritance_fails :
    ∃ past s m, (disciplined .std).Run past s ∧ s.mutexes 1 = some m ∧ m.owner = some 1 ∧
      m.waiters = [2] ∧ s.task_priority 1 = some 20 ∧ s.task_priority 2 = some 10 ∧
      ¬ s.Inherits := by
  obtain ⟨past, s, hrun, _, _, hend⟩ := Machine.exists_run_of_reaches
    (M := disciplined .std) (.start ⟨0, rfl⟩) (fun _ _ => true)
    (fun s => s.mutexes 1 = some ⟨some 1, [2]⟩ ∧ s.task_priority 1 = some 20 ∧
      s.task_priority 2 = some 10) chainCalls (by decide +kernel)
  rw [decide_eq_true_eq] at hend
  obtain ⟨hmutex, howner, hwaiter⟩ := hend
  refine ⟨past, s, _, hrun, hmutex, rfl, rfl, howner, hwaiter, ?_⟩
  intro hinherits
  obtain ⟨po, pw, hpo, hpw, hle⟩ := hinherits 1 _ 1 2 hmutex rfl (List.mem_singleton_self 2)
  rw [howner] at hpo
  rw [hwaiter] at hpw
  cases hpo
  cases hpw
  omega

end l4.scheduler.autosar
