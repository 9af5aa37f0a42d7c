import L4Rust.Library.Machine

namespace Machine

variable {σ τ ι κ : Type}

/-- A relation between the states of two machines. A call of the first one that meets the condition
means a call of the second one, which keeps them related, or nothing to it. -/
structure Simulation (C : Machine σ ι) (A : Machine τ κ) (meaning : σ → ι → Option κ)
    (Q : σ → ι → Prop) (R : σ → τ → Prop) : Prop where
  init : ∀ s, C.init s → ∃ t, A.init t ∧ R s t
  step : ∀ s i k s' t, R s t → Q s i → C.allowed s i → C.step s i = some s' → meaning s i = some k →
    ∃ t', A.allowed t k ∧ A.step t k = some t' ∧ R s' t'
  silent : ∀ s i s' t, R s t → Q s i → C.allowed s i → C.step s i = some s' → meaning s i = none → R s' t

/-- The second machine has a run of what the calls mean. -/
theorem Simulation.run {C : Machine σ ι} {A : Machine τ κ} {meaning : σ → ι → Option κ}
    {Q : σ → ι → Prop} {R : σ → τ → Prop} (h : Simulation C A meaning Q R)
    {past : List (σ × ι)} {s : σ} (hrun : C.Run past s) (hpast : ∀ p ∈ past, Q p.1 p.2) :
    ∃ past' t, A.Run past' t ∧ past'.map Prod.snd = past.filterMap (fun p => meaning p.1 p.2) ∧ R s t := by
  induction hrun with
  | start hs =>
    obtain ⟨t, ht, hrelated⟩ := h.init _ hs
    exact ⟨[], t, .start ht, rfl, hrelated⟩
  | @call past s s' i hrun hallowed hstep ih =>
    rw [List.forall_mem_append, List.forall_mem_singleton] at hpast
    obtain ⟨past', t, hrun', hcalls, hrelated⟩ := ih hpast.1
    cases hmeaning : meaning s i with
    | none =>
      refine ⟨past', t, hrun', ?_, h.silent s i s' t hrelated hpast.2 hallowed hstep hmeaning⟩
      rw [List.filterMap_append, hcalls]
      simp [hmeaning]
    | some k =>
      obtain ⟨t', hallowed', hstep', hrelated'⟩ := h.step s i k s' t hrelated hpast.2 hallowed hstep hmeaning
      refine ⟨past' ++ [(t, k)], t', .call hrun' hallowed' hstep', ?_, hrelated'⟩
      rw [List.filterMap_append, List.map_append, hcalls]
      simp [hmeaning]

end Machine
