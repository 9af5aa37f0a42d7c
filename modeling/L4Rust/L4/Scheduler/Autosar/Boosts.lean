import L4Rust.L4.Scheduler.Autosar.Ownership

namespace l4.scheduler.autosar

namespace AutosarScheduler

variable {search : BinarySearch Nat} {s t : AutosarScheduler} {task mutex : Nat}

/-- The records are true for every caller, also for one that hands a mutex to
itself. -/
theorem unlock_mutex_ownsRecorded (hrecorded : s.OwnsRecorded)
    (h : s.unlock_mutex search task mutex = some t) : t.OwnsRecorded := by
  by_cases hown : s.owner mutex = some task
  · obtain ⟨m, hm, howner⟩ := exists_mutex_of_owner hown
    obtain ⟨howned, howner'⟩ := unlock_mutex_owned hm howner h
    intro i x hx
    rw [howned] at hx
    obtain ⟨hx, hkept⟩ := hx
    rw [howner']
    by_cases hmutex : x = mutex
    · rw [if_pos hmutex]
      subst hmutex
      rcases hx with hx | ⟨_, hnext⟩
      · have hsame := (hrecorded i x hx).symm.trans hown
        exact absurd ⟨Option.some.inj hsame, rfl⟩ hkept
      · exact hnext
    · rw [if_neg hmutex]
      exact hrecorded i x (hx.resolve_right fun hboth => hmutex hboth.1)
  · obtain rfl := unlock_mutex_of_not_owner hown h
    exact hrecorded

theorem lock_mutex_ownsRecorded (hrecorded : s.OwnsRecorded)
    (h : s.lock_mutex search task mutex = some t) : t.OwnsRecorded := by
  rcases lock_mutex_owned h with ⟨hfree, hlock⟩ | ⟨m, o, _, _, _, _, _, hm, howner, hblock⟩
  · obtain ⟨howned, howner⟩ := lock_free_owned hlock
    intro i x hx
    rw [howner]
    rcases (howned i x).mp hx with hx | ⟨rfl, rfl⟩
    · have hold := hrecorded i x hx
      rw [if_neg, hold]
      rintro rfl
      rw [hfree] at hold
      cases hold
    · rw [if_pos rfl]
  · obtain ⟨howned, howner'⟩ := hblock.owned hm howner
    intro i x hx
    rw [howned] at hx
    rw [howner']
    exact hrecorded i x hx

/-- Tasks whose priorities stay as they are may gain mutexes but not lose any. -/
theorem BoostsHeld.of_same (hboosts : s.BoostsHeld) {id : Nat} {old new : Task}
    (hold : s.tasks id = some old) (hbase : new.base_priority = old.base_priority)
    (hcurrent : new.current_priority = old.current_priority)
    (hkeeps : ∀ x, s.owner x = some id → t.owner x = some id) :
    new.current_priority ≤ new.base_priority ∧
      ((∀ x, t.owner x ≠ some id) → new.current_priority = new.base_priority) := by
  obtain ⟨hle, heq⟩ := hboosts id old hold
  rw [hbase, hcurrent]
  exact ⟨hle, fun hnone => heq fun x hx => hnone x (hkeeps x hx)⟩

theorem lock_mutex_boostsHeld (hboosts : s.BoostsHeld)
    (h : s.lock_mutex search task mutex = some t) : t.BoostsHeld := by
  rcases lock_mutex_owned h with ⟨hfree, hlock⟩ | ⟨m, o, _, _, old, _, _, hm, howner, hblock⟩
  · obtain ⟨k, hedit⟩ := get_mut_edited hlock
    obtain ⟨_, howner⟩ := lock_free_owned hlock
    have hsame : SamePriorities s t := SamePriorities.trans (.of_tasks rfl) (hedit.samePriorities rfl rfl)
    intro id new hnew
    obtain ⟨old, hold, hbase, hcurrent⟩ := hsame.task hnew
    apply hboosts.of_same hold hbase hcurrent
    intro x hx
    rw [howner, if_neg, hx]
    rintro rfl
    rw [hfree] at hx
    cases hx
  · obtain ⟨_, howner'⟩ := hblock.owned hm howner
    intro id new hnew
    rw [hblock.frame.tasks] at hnew
    by_cases hid : id = o
    · subst hid
      obtain rfl := Option.some.inj (hblock.boost.task_after.symm.trans hnew)
      refine ⟨(Nat.min_le_left _ _).trans (hboosts id old hblock.boost.task_before).1, ?_⟩
      intro hnone
      have hown : t.owner mutex = some id := by rw [howner', owner_of_mutex hm, howner]
      exact absurd hown (hnone mutex)
    · rw [hblock.boost.others id hid] at hnew
      exact hboosts.of_same hnew rfl rfl fun x hx => (howner' x).trans hx

/-- What an unlocking owner falls back on, when it records no mutex any more, is
its base priority. -/
theorem unlock_mutex_boostsHeld (hboosts : s.BoostsHeld) (hrecorded : s.OwnsRecorded)
    (h : s.unlock_mutex search task mutex = some t) : t.BoostsHeld := by
  by_cases hown : s.owner mutex = some task
  · obtain ⟨m, hm, howner⟩ := exists_mutex_of_owner hown
    obtain ⟨_, howner'⟩ := unlock_mutex_owned hm howner h
    have hafter := unlock_mutex_ownsRecorded hrecorded h
    rcases unlock_mutex_cases h with ⟨_, hother⟩ |
      ⟨m', given, freed, old, p, mid, hm', _, hgiven, hfreed, hp, hedit, hdone⟩
    · exact absurd howner (hother m hm)
    obtain rfl := Option.some.inj (hm.symm.trans hm')
    have hreleased := released_of_hand_over hgiven hfreed
    have hframe := reposition_frame hdone
    intro id new hnew
    rw [hframe.tasks] at hnew
    by_cases hid : id = task
    · subst hid
      obtain rfl := Option.some.inj (hedit.task_after.symm.trans hnew)
      refine ⟨(kept_priority_le_iff hedit.task_before hp _).mpr (Or.inl (Nat.le_refl _)), ?_⟩
      intro hnone
      have hempty : ∀ x ∈ old.owned_mutexes, False := by
        intro x hx
        apply hnone x
        apply hafter id x
        rw [hframe.owned, owned_of_task hedit.task_after]
        exact hx
      apply Nat.le_antisymm
      · exact (kept_priority_le_iff hedit.task_before hp _).mpr (Or.inl (Nat.le_refl _))
      · apply (le_kept_priority_iff hedit.task_before hp _).mpr
        exact ⟨Nat.le_refl _, fun x hx => (hempty x hx).elim⟩
    · rw [hedit.others id hid] at hnew
      obtain ⟨before, hbefore, hbase, hcurrent⟩ := hreleased.same.task hnew
      apply hboosts.of_same hbefore hbase hcurrent
      intro x hx
      rw [howner', if_neg, hx]
      rintro rfl
      exact hid (Option.some.inj (hx.symm.trans hown))
  · obtain rfl := unlock_mutex_of_not_owner hown h
    exact hboosts

theorem add_task_boostsHeld {id period thread_cap : Nat} (hboosts : s.BoostsHeld) :
    (s.add_task id period thread_cap).BoostsHeld := by
  intro i k hk
  by_cases hi : i = id
  · subst hi
    simp only [add_task, Function.update_self, Option.some.injEq] at hk
    subst hk
    exact ⟨Nat.le_refl _, fun _ => rfl⟩
  · exact hboosts i k ((Function.update_of_ne hi ..).symm.trans hk)

end AutosarScheduler

open AutosarScheduler

variable {search : BinarySearch Nat} {s t : AutosarScheduler}

theorem Call.run_boostsHeld {call : Call} (hboosts : s.BoostsHeld) (hrecorded : s.OwnsRecorded)
    (hcall : call.Registered s) (h : call.run search s = some t) : t.BoostsHeld ∧ t.OwnsRecorded := by
  cases call with
  | add_task id period thread_cap =>
    cases h
    refine ⟨add_task_boostsHeld hboosts, ?_⟩
    intro i x hx
    rw [add_task_owned hcall] at hx
    exact hrecorded i x hx
  | make_ready id =>
    have hframe := make_ready_frame h
    constructor
    · intro i k hk
      rw [hframe.tasks] at hk
      simp only [hframe.owner]
      exact hboosts i k hk
    · intro i x hx
      rw [hframe.owned] at hx
      rw [hframe.owner]
      exact hrecorded i x hx
  | lock_mutex task mutex =>
    exact ⟨lock_mutex_boostsHeld hboosts h, lock_mutex_ownsRecorded hrecorded h⟩
  | unlock_mutex task mutex =>
    exact ⟨unlock_mutex_boostsHeld hboosts hrecorded h, unlock_mutex_ownsRecorded hrecorded h⟩

/-- Whoever locks and unlocks, no boost outlasts the last mutex of a task. -/
theorem boosts_never_leak (search : BinarySearch Nat) (past : List (AutosarScheduler × Call))
    (s : AutosarScheduler) (hrun : (registered search).Run past s) : s.BoostsHeld := by
  have hboth : s.BoostsHeld ∧ s.OwnsRecorded := by
    refine hrun.invariant (P := fun s => s.BoostsHeld ∧ s.OwnsRecorded) ?_ ?_
    · rintro s ⟨scheduler_cap, rfl⟩
      exact ⟨(new_ownership scheduler_cap).2.2, (new_ownership scheduler_cap).2.1⟩
    · rintro s call t ⟨hboosts, hrecorded⟩ hcall h
      exact Call.run_boostsHeld hboosts hrecorded hcall h
  exact hboth.1

/-- Task 1 owns two mutexes, locks one of them again, is boosted by task 2 and
gives both up. -/
def boostCalls : List Call :=
  [.add_task 1 200 0, .add_task 2 100 0, .make_ready 1, .lock_mutex 1 1, .lock_mutex 1 2,
    .lock_mutex 1 1, .make_ready 2, .lock_mutex 2 1, .unlock_mutex 1 1, .unlock_mutex 1 1,
    .unlock_mutex 1 2]

/-- A task that locks a mutex twice, and another one in between, has its own priority again after all is
unlocked. -/
theorem boosts_never_leak_relocked :
    ∃ past s, (registered .std).Run past s ∧ past.length = 11 ∧ s.owner 1 = some 2 ∧
      s.task_priority 1 = some 200 ∧ s.BoostsHeld := by
  obtain ⟨past, s, hrun, hcalls, _, hend⟩ := Machine.exists_run_of_reaches
    (M := registered .std) (.start ⟨0, rfl⟩) (fun _ _ => true)
    (fun s => s.owner 1 = some 2 ∧ s.task_priority 1 = some 200) boostCalls (by decide +kernel)
  rw [decide_eq_true_eq] at hend
  have hlen := congrArg List.length hcalls
  rw [List.length_map] at hlen
  exact ⟨past, s, hrun, hlen, hend.1, hend.2, boosts_never_leak .std past s hrun⟩

end l4.scheduler.autosar
