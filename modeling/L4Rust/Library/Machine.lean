import Mathlib.Data.List.Basic
import Mathlib.Tactic.Common

/-- A state machine driven by calls: where it starts, which calls may be made in
a state, and what they do. A call without a result stops the program. -/
structure Machine (σ ι : Type) where
  init : σ → Prop
  allowed : σ → ι → Prop
  step : σ → ι → Option σ

namespace Machine

variable {σ ι : Type} {M : Machine σ ι}

/-- The calls made so far, each with the state it was made in, and the state
reached. -/
inductive Run (M : Machine σ ι) : List (σ × ι) → σ → Prop where
  | start {s : σ} (hinit : M.init s) : Run M [] s
  | call {past : List (σ × ι)} {s t : σ} {i : ι} (hrun : Run M past s) (hallowed : M.allowed s i)
      (hstep : M.step s i = some t) : Run M (past ++ [(s, i)]) t

/-- What holds at the start and is kept by every call holds in every state of a
run. -/
theorem Run.invariant {P : σ → Prop} (hinit : ∀ s, M.init s → P s)
    (hstep : ∀ s i t, P s → M.allowed s i → M.step s i = some t → P t)
    {past : List (σ × ι)} {s : σ} (hrun : M.Run past s) : P s := by
  induction hrun with
  | start hs => exact hinit _ hs
  | call _ hallowed hcall ih => exact hstep _ _ _ ih hallowed hcall

/-- The machine from a given state on. -/
def restart (M : Machine σ ι) (s : σ) : Machine σ ι := { M with init := fun t => t = s }

theorem Run.append {past later : List (σ × ι)} {s t : σ} (hrun : M.Run past s)
    (hlater : (M.restart s).Run later t) : M.Run (past ++ later) t := by
  induction hlater with
  | start hs =>
    cases hs
    rw [List.append_nil]
    exact hrun
  | call _ hallowed hstep ih =>
    rw [← List.append_assoc]
    exact .call ih hallowed hstep

/-- A property of a state and of the calls made before it, in every state that a
run went through. -/
def Throughout (P : List (σ × ι) → σ → Prop) (past : List (σ × ι)) (s : σ) : Prop :=
  P past s ∧ ∀ before p after, past = before ++ p :: after → P before p.1

theorem throughout_concat {P : List (σ × ι) → σ → Prop} {past : List (σ × ι)} {s t : σ} {i : ι} :
    Throughout P (past ++ [(s, i)]) t ↔ P (past ++ [(s, i)]) t ∧ Throughout P past s := by
  unfold Throughout
  apply and_congr_right'
  constructor
  · intro h
    refine ⟨h past (s, i) [] rfl, fun before p after hsplit => ?_⟩
    apply h before p (after ++ [(s, i)])
    rw [hsplit, List.append_assoc, List.cons_append]
  · rintro ⟨hs, hpast⟩ before p after hsplit
    rcases List.eq_nil_or_concat after with rfl | ⟨after, last, rfl⟩
    · obtain ⟨rfl, hp⟩ := List.append_inj' hsplit rfl
      cases hp
      exact hs
    · rw [List.concat_eq_append, ← List.cons_append, ← List.append_assoc] at hsplit
      exact hpast before p after (List.append_inj' hsplit rfl).1

theorem throughout_state_iff {P : σ → Prop} {past : List (σ × ι)} {s : σ} :
    Throughout (fun _ => P) past s ↔ P s ∧ ∀ p ∈ past, P p.1 := by
  unfold Throughout
  apply and_congr_right'
  constructor
  · intro h p hp
    obtain ⟨before, after, hsplit⟩ := List.append_of_mem hp
    exact h before p after hsplit
  · intro h before p after hsplit
    apply h p
    rw [hsplit]
    exact List.mem_append_right _ (List.mem_cons_self ..)

/-- The states that a run went through are reached by its beginnings. -/
theorem Run.throughout {past : List (σ × ι)} {s : σ} (hrun : M.Run past s) : Throughout M.Run past s := by
  induction hrun with
  | start hs => exact ⟨.start hs, fun before p after hsplit => by simp at hsplit⟩
  | call hrun hallowed hcall ih => exact throughout_concat.mpr ⟨.call hrun hallowed hcall, ih⟩

/-- What holds at the start and is kept by every call that meets a condition holds throughout the runs
whose calls all do. -/
theorem Run.throughout_of_forall {P : σ → Prop} {Q : σ → ι → Prop} (hinit : ∀ s, M.init s → P s)
    (hstep : ∀ s i t, P s → Q s i → M.step s i = some t → P t)
    {past : List (σ × ι)} {s : σ} (hrun : M.Run past s) (h : ∀ p ∈ past, Q p.1 p.2) :
    P s ∧ ∀ p ∈ past, P p.1 := by
  induction hrun with
  | start hs => exact ⟨hinit _ hs, fun p hp => absurd hp List.not_mem_nil⟩
  | @call past s t i hrun hallowed hcall ih =>
    rw [List.forall_mem_append, List.forall_mem_singleton] at h ⊢
    obtain ⟨hs, hpast⟩ := ih h.1
    exact ⟨hstep s i t hs h.2 hcall, hpast, hs⟩

/-- Where a call keeps a property exactly under a condition on the state it is
made in, a run has the property throughout exactly when all its calls meet the
condition. -/
theorem Run.throughout_history_iff {P : List (σ × ι) → σ → Prop} {Q : σ → ι → Prop}
    (hinit : ∀ s, M.init s → P [] s)
    (hstep : ∀ past s i t, M.Run past s → P past s → M.allowed s i → M.step s i = some t →
      (P (past ++ [(s, i)]) t ↔ Q s i))
    {past : List (σ × ι)} {s : σ} (hrun : M.Run past s) :
    Throughout P past s ↔ ∀ p ∈ past, Q p.1 p.2 := by
  induction hrun with
  | start hs => simp [Throughout, hinit _ hs]
  | @call past s t i hrun hallowed hcall ih =>
    rw [throughout_concat, List.forall_mem_append, List.forall_mem_singleton, ← ih, and_comm]
    apply and_congr_right
    intro hpast
    exact hstep past s i t hrun hpast.1 hallowed hcall

theorem Run.throughout_iff {I P : σ → Prop} {Q : σ → ι → Prop}
    (hinit : ∀ s, M.init s → I s ∧ P s)
    (hinv : ∀ s i t, I s → M.allowed s i → M.step s i = some t → I t)
    (hstep : ∀ s i t, I s → P s → M.allowed s i → M.step s i = some t → (P t ↔ Q s i))
    {past : List (σ × ι)} {s : σ} (hrun : M.Run past s) :
    (P s ∧ ∀ p ∈ past, P p.1) ↔ ∀ p ∈ past, Q p.1 p.2 := by
  rw [← throughout_state_iff]
  refine hrun.throughout_history_iff (fun s hs => (hinit s hs).2) ?_
  intro past s i t hrun hP hallowed hcall
  exact hstep s i t (hrun.invariant (fun s hs => (hinit s hs).1) hinv) hP hallowed hcall

/-- Where each call adds its own condition to what has been met so far, a state
records that all calls of the run met theirs. -/
theorem Run.recorded_iff {I P : σ → Prop} {Q : σ → ι → Prop}
    (hinit : ∀ s, M.init s → I s ∧ P s)
    (hinv : ∀ s i t, I s → M.allowed s i → M.step s i = some t → I t)
    (hstep : ∀ s i t, I s → M.allowed s i → M.step s i = some t → (P t ↔ P s ∧ Q s i))
    {past : List (σ × ι)} {s : σ} (hrun : M.Run past s) : P s ↔ ∀ p ∈ past, Q p.1 p.2 := by
  induction hrun with
  | start hs => simp [(hinit _ hs).2]
  | @call past s t i hrun hallowed hcall ih =>
    have hI : I s := hrun.invariant (fun s hs => (hinit s hs).1) hinv
    rw [hstep s i t hI hallowed hcall, ih, List.forall_mem_append, List.forall_mem_singleton]

/-- Whether the calls can be made one after the other, each passing the first
test, and lead to a state that passes the second. -/
def reaches (M : Machine σ ι) [∀ s i, Decidable (M.allowed s i)] (each : σ → ι → Bool)
    (last : σ → Bool) : σ → List ι → Bool
  | s, [] => last s
  | s, i :: is =>
    decide (M.allowed s i) && each s i &&
      match M.step s i with
      | some t => M.reaches each last t is
      | none => false

theorem exists_run_of_reaches [∀ s i, Decidable (M.allowed s i)] {s : σ} (hinit : M.Run [] s)
    (each : σ → ι → Bool) (last : σ → Bool) (is : List ι) (h : M.reaches each last s is = true) :
    ∃ past t, M.Run past t ∧ past.map Prod.snd = is ∧ (∀ p ∈ past, each p.1 p.2 = true) ∧
      last t = true := by
  -- The induction extends an arbitrary run by the calls still to be made.
  suffices hextend : ∀ (before : List (σ × ι)) (s : σ), M.Run before s →
      (∀ p ∈ before, each p.1 p.2 = true) → M.reaches each last s is = true →
      ∃ past t, M.Run past t ∧ past.map Prod.snd = before.map Prod.snd ++ is ∧
        (∀ p ∈ past, each p.1 p.2 = true) ∧ last t = true by
    simpa using hextend [] s hinit nofun h
  clear h hinit s
  induction is with
  | nil =>
    intro before s hrun heach h
    exact ⟨before, s, hrun, (List.append_nil _).symm, heach, h⟩
  | cons i is ih =>
    intro before s hrun heach h
    rw [reaches, Bool.and_eq_true, Bool.and_eq_true, decide_eq_true_eq] at h
    obtain ⟨⟨hallowed, hi⟩, hrest⟩ := h
    cases hstep : M.step s i with
    | none =>
      rw [hstep] at hrest
      cases hrest
    | some t =>
      rw [hstep] at hrest
      have heach' : ∀ p ∈ before ++ [(s, i)], each p.1 p.2 = true :=
        List.forall_mem_append.mpr ⟨heach, List.forall_mem_singleton.mpr hi⟩
      obtain ⟨past, u, hpast, hcalls, hall, hlast⟩ := ih (before ++ [(s, i)]) t
        (.call hrun hallowed hstep) heach' hrest
      refine ⟨past, u, hpast, ?_, hall, hlast⟩
      rw [hcalls, List.map_append, List.append_assoc]
      rfl

end Machine
