import L4Rust.L4.Scheduler.LinuxLike.Fairness

open VirtualTime

namespace l4.scheduler.linux_like

open LinuxLikeScheduler

/-- Whatever else was set up, two tasks of the given weights run in proportion to
them, up to a constant. -/
def InProportion (search : BinarySearch Nat) (w₁ w₂ : Nat) : Prop :=
  ∃ bound : Nat, ∀ setup s, Setup search setup s →
    ∀ i j, (i, w₁) ∈ added setup → (j, w₂) ∈ added setup →
      ∀ n, ∃ t, ticks search n s = some t ∧ |(t.runtime i * w₂ : ℤ) - t.runtime j * w₁| ≤ bound

/-- A task of the first weight is ahead of one of the second from some tick on. -/
def RunsMore (search : BinarySearch Nat) (w₁ w₂ : Nat) : Prop :=
  ∀ setup s, Setup search setup s → ∀ i j, (i, w₁) ∈ added setup → (j, w₂) ∈ added setup →
    ∃ start, ∀ n, start ≤ n → ∃ t, ticks search n s = some t ∧ t.runtime j < t.runtime i

variable {search : BinarySearch Nat} {s t : LinuxLikeScheduler}
  {setup : List (LinuxLikeScheduler × Call)} {w₁ w₂ i j : Nat}

/-- Every task gets any amount of time in the long run. -/
theorem Setup.grows (h : Setup search setup s) {p : Nat × Nat} (hp : p ∈ added setup) (amount : Nat) :
    ∃ start, ∀ n t, start ≤ n → ticks search n s = some t → amount ≤ t.runtime p.1 := by
  have hids := List.mem_map_of_mem (f := Prod.fst) hp
  generalize hall : (added setup).map Prod.fst = ids at hids
  refine ⟨ids.length * (amount * increment p.2) +
    (ids.map fun i => quantum (s.weight i)).sum + 1, ?_⟩
  intro n t hn ht
  obtain ⟨t', ht', hfair, hweight, htotal⟩ := h.ticks_fair n
  obtain rfl := Option.some.inj (ht'.symm.trans ht)
  have hv := h.vruntime hfair hweight hp
  rw [hall] at hfair htotal
  have hspread := hfair.spread
  rw [hweight] at hspread
  have hsum := hspread.sum_le hids
  have hless : (ids.map t'.runtime).sum ≤ (ids.map t'.vruntime).sum := by
    apply List.sum_le_sum
    intro i hi
    obtain ⟨q, hq, rfl⟩ := List.mem_map.mp (hall ▸ hi)
    rw [h.vruntime (hall ▸ hfair) hweight hq]
    exact Nat.le_mul_of_pos_right _ (increment_pos _)
  by_contra hnot
  have hsmall : t'.runtime p.1 * increment p.2 ≤ amount * increment p.2 :=
    Nat.mul_le_mul_right _ (by omega)
  rw [← hv] at hsmall
  have hbound := Nat.mul_le_mul_left ids.length hsmall
  omega

theorem Setup.proportion (h : Setup search setup s) (hi : (i, w₁) ∈ added setup)
    (hj : (j, w₂) ∈ added setup) {n : Nat} (ht : ticks search n s = some t) :
    t.runtime i * increment w₁ ≤ t.runtime j * increment w₂ + (quantum w₁ + quantum w₂) ∧
      t.runtime j * increment w₂ ≤ t.runtime i * increment w₁ + (quantum w₁ + quantum w₂) := by
  obtain ⟨t', ht', hfair, hweight, _⟩ := h.ticks_fair n
  obtain rfl := Option.some.inj (ht'.symm.trans ht)
  have hij := h.spread hfair hweight hi hj
  have hji := h.spread hfair hweight hj hi
  dsimp only at hij hji
  constructor <;> omega

/-- A tick is worth the same share to both tasks: time is shared in proportion. -/
theorem inProportion_of_eq (hworth : w₁ * increment w₁ = w₂ * increment w₂) :
    InProportion search w₁ w₂ := by
  refine ⟨w₁ * increment w₁ * (quantum w₁ + quantum w₂), ?_⟩
  intro setup s h i j hi hj n
  obtain ⟨t, ht, _⟩ := h.ticks_fair n
  obtain ⟨hij, hji⟩ := h.proportion hi hj ht
  refine ⟨t, ht, ?_⟩
  push_cast
  exact proportion_le (increment_pos _) (increment_pos _) hij hji hworth

theorem runsMore_of_inProportion (hlt : w₂ < w₁) (h : InProportion search w₁ w₂) :
    RunsMore search w₁ w₂ := by
  obtain ⟨bound, hbound⟩ := h
  intro setup s hsetup i j hi hj
  obtain ⟨start, hstart⟩ := hsetup.grows hj (bound + 1)
  refine ⟨start, fun n hn => ?_⟩
  obtain ⟨t, ht, hle⟩ := hbound setup s hsetup i j hi hj n
  have hmany := hstart n t hn ht
  refine ⟨t, ht, ?_⟩
  by_contra hnot
  have hle' : (t.runtime j * w₁ : ℤ) ≤ t.runtime i * w₂ + bound := by
    have := (abs_le.mp hle).1
    omega
  have hle'' : t.runtime j * w₁ ≤ t.runtime i * w₂ + bound := by exact_mod_cast hle'
  have hmore : t.runtime j * (w₂ + 1) ≤ t.runtime j * w₁ := Nat.mul_le_mul_left _ hlt
  have hless : t.runtime i * w₂ ≤ t.runtime j * w₂ := Nat.mul_le_mul_right _ (by omega)
  rw [Nat.mul_succ] at hmore
  dsimp only at hmany
  omega

theorem exists_call {past : List (LinuxLikeScheduler × Call)} (call : Call)
    (hrun : (disciplined search).Run past s) (hcall : call.Disciplined s) :
    ∃ t, (disciplined search).Run (past ++ [(s, call)]) t := by
  obtain ⟨t, ht, _⟩ := Call.run_spec search (disciplined_wellFormed hrun) hcall
  exact ⟨t, .call hrun hcall ht⟩

theorem isSome_of_mem_added {past : List (LinuxLikeScheduler × Call)} {p : Nat × Nat}
    (hrun : (disciplined search).Run past s) (hp : p ∈ added past) : (s.tasks p.1).isSome := by
  have hmap := (mem_added_iff hrun p.1 p.2).mp hp
  obtain ⟨k, hk, _⟩ := Option.map_eq_some_iff.mp hmap
  rw [hk]
  rfl

/-- Two tasks can be set up with any weights that give them slices. -/
theorem exists_setup (search : BinarySearch Nat) (h₁ : 1 ≤ time_slice w₁) (h₂ : 1 ≤ time_slice w₂) :
    ∃ setup s, Setup search setup s ∧ added setup = [(1, w₁), (2, w₂)] := by
  have hnew : (disciplined search).Run [] (new 0) := .start ⟨0, rfl⟩
  have hone := hnew.call (i := Call.add_task 1 w₁ 0) ⟨rfl, h₁⟩ rfl
  have htwo := hone.call (i := Call.add_task 2 w₂ 0) ⟨rfl, h₂⟩ rfl
  have hfirst := isSome_of_mem_added (p := (1, w₁)) htwo (by simp [added, Call.added])
  obtain ⟨t, ht⟩ := exists_call (.make_ready 1) htwo hfirst
  have hsecond := isSome_of_mem_added (p := (2, w₂)) ht (by simp [added, Call.added])
  obtain ⟨s, hs⟩ := exists_call (.make_ready 2) ht hsecond
  refine ⟨_, s, ⟨hs, ?_, ?_, ?_⟩, ?_⟩
  · simp
  · simp [added, Call.added]
  · simp [added, Call.added, Woken]
  · simp [added, Call.added]

/-- A tick is worth more to one of the tasks: no constant bounds what that adds up
to. -/
theorem Setup.disproportion (h : Setup search setup s) (hi : (i, w₁) ∈ added setup)
    (hj : (j, w₂) ∈ added setup) (hworth : w₁ * increment w₁ ≠ w₂ * increment w₂) (bound : Nat) :
    ∃ n t, ticks search n s = some t ∧ (bound : ℤ) < |(t.runtime i * w₂ : ℤ) - t.runtime j * w₁| := by
  obtain ⟨start, hstart⟩ := h.grows hi
    (increment w₁ * increment w₂ * bound + w₁ * increment w₁ * (quantum w₁ + quantum w₂) + 1)
  obtain ⟨t, ht, _⟩ := h.ticks_fair start
  refine ⟨start, t, ht, ?_⟩
  by_contra hnot
  obtain ⟨hij, hji⟩ := h.proportion hi hj ht
  have hgrown := le_disproportion hij hji hworth
  push_cast at hgrown
  have hsmall : (increment w₁ * increment w₂ : ℤ) * |(t.runtime i * w₂ : ℤ) - t.runtime j * w₁| ≤
      increment w₁ * increment w₂ * bound := by
    gcongr
    exact not_lt.mp hnot
  have htime : t.runtime i * increment w₁ ≤ increment w₁ * increment w₂ * bound +
      w₁ * increment w₁ * (quantum w₁ + quantum w₂) := by
    exact_mod_cast hgrown.trans (Int.add_le_add_right hsmall _)
  have hsteps : t.runtime i ≤ t.runtime i * increment w₁ := Nat.le_mul_of_pos_right _ (increment_pos _)
  have hmuch := hstart start t le_rfl ht
  dsimp only at hmuch
  omega

/-- Two tasks of different weights run in proportion to them, and the heavier one
more, exactly when the increments are as the weights require: rounded down, they
seldom are. -/
theorem shares_in_proportion_iff (search : BinarySearch Nat) (w₁ w₂ : Nat)
    (h₁ : 1 ≤ time_slice w₁) (h₂ : 1 ≤ time_slice w₂) (hlt : w₂ < w₁) :
    InProportion search w₁ w₂ ∧ RunsMore search w₁ w₂ ↔
      w₁ * max 1 (1024 / w₁) = w₂ * max 1 (1024 / w₂) := by
  constructor
  · rintro ⟨⟨bound, hbound⟩, _⟩
    by_contra hworth
    obtain ⟨setup, s, hsetup, hadded⟩ := exists_setup search h₁ h₂
    have hi : (1, w₁) ∈ added setup := by simp [hadded]
    have hj : (2, w₂) ∈ added setup := by simp [hadded]
    obtain ⟨n, t, ht, hlarge⟩ := hsetup.disproportion hi hj hworth bound
    obtain ⟨t', ht', hsmall⟩ := hbound setup s hsetup 1 2 hi hj n
    obtain rfl := Option.some.inj (ht'.symm.trans ht)
    exact absurd hsmall (not_le.mpr hlarge)
  · intro hworth
    have hproportion : InProportion search w₁ w₂ := inProportion_of_eq hworth
    exact ⟨hproportion, runsMore_of_inProportion hlt hproportion⟩

/-- Between the weights 1024 and 512 the time is shared as they say. -/
theorem shares_in_proportion_half :
    InProportion .std 1024 512 ∧ RunsMore .std 1024 512 :=
  (shares_in_proportion_iff .std 1024 512 (by decide) (by decide) (by decide)).mpr (by decide)

/-- Twice the weight is not worth more time. -/
theorem shares_in_proportion_fails :
    ∃ setup s, Setup .std setup s ∧ added setup = [(1, 2048), (2, 1024)] ∧
      ∀ bound : Nat, ∃ n t, ticks .std n s = some t ∧
        (bound : ℤ) < |(t.runtime 1 * (1024 : Nat) : ℤ) - t.runtime 2 * (2048 : Nat)| := by
  obtain ⟨setup, s, hsetup, hadded⟩ :=
    exists_setup .std (by decide : 1 ≤ time_slice 2048) (by decide : 1 ≤ time_slice 1024)
  refine ⟨setup, s, hsetup, hadded, ?_⟩
  apply hsetup.disproportion
  · simp [hadded]
  · simp [hadded]
  · decide

end l4.scheduler.linux_like
