import L4Rust.Library.Exec
import L4Rust.Library.Memory

/-- A state with a memory that can be replaced, and the ends of the byte ranges
used so far. -/
class HasFootprint (σ : Type) where
  mem : σ → Memory
  withMem : Memory → σ → σ
  ends : σ → List Nat

namespace Footprint

open HasFootprint Exec

variable {ε σ τ α β : Type} [HasFootprint σ] {limit : Nat}

/-- The call returned, and every byte range used so far ends within the limit. -/
def Within (limit : Nat) : Outcome ε σ α → Prop
  | .ok _ t => ∀ stop ∈ ends t, stop ≤ limit
  | .err _ t => ∀ stop ∈ ends t, stop ≤ limit
  | .abort => False

instance (o : Outcome ε σ α) : Decidable (Within limit o) :=
  match o with
  | .ok _ t | .err _ t => inferInstanceAs (Decidable (∀ stop ∈ ends t, stop ≤ limit))
  | .abort => inferInstanceAs (Decidable False)

/-- A call that leaves the memory alone, only adds to the ranges used, and does
the same on every memory that agrees up to the limit, as long as it stays
within the limit. -/
structure ReadsOnly (limit : Nat) (x : Exec ε σ α) : Prop where
  keeps_mem : ∀ s a t, x s = .ok a t → mem t = mem s
  ends_le : ∀ s, Within limit (x s) → ∀ stop ∈ ends s, stop ≤ limit
  congr : ∀ s m, Memory.AgreeOn 0 limit m (mem s) → Within limit (x s) →
    x (withMem m s) = (x s).mapState (withMem m)

theorem ReadsOnly.pure (a : α) : ReadsOnly limit (pure a : Exec ε σ α) where
  keeps_mem := by
    intro s b t h
    cases h
    rfl
  ends_le := fun _ h => h
  congr := fun _ _ _ _ => rfl

theorem ReadsOnly.throw (e : ε) : ReadsOnly limit (throw e : Exec ε σ α) where
  keeps_mem := by
    intro s b t h
    cases h
  ends_le := fun _ h => h
  congr := fun _ _ _ _ => rfl

theorem ReadsOnly.checked (found : Option α) : ReadsOnly limit (checked found : Exec ε σ α) := by
  cases found with
  | some a => exact .pure a
  | none =>
    refine ⟨?_, ?_, ?_⟩
    · intro s a t h
      cases h
    · intro s h
      exact False.elim h
    · intro s m _ h
      exact False.elim h

theorem ReadsOnly.ok_or (found : Option α) (e : ε) : ReadsOnly limit (ok_or found e : Exec ε σ α) := by
  cases found with
  | some a => exact .pure a
  | none => exact .throw e

/-- Sequencing: what the first call used is still among the ranges used in the
end, so both stay within the limit. -/
theorem ReadsOnly.bind {x : Exec ε σ α} {f : α → Exec ε σ β} (hx : ReadsOnly limit x)
    (hf : ∀ a, ReadsOnly limit (f a)) : ReadsOnly limit (x >>= f) where
  keeps_mem := by
    intro s b u h
    obtain ⟨a, t, ha, hb⟩ := bind_eq_ok_iff.mp h
    rw [(hf a).keeps_mem t b u hb, hx.keeps_mem s a t ha]
  ends_le := by
    intro s h
    apply hx.ends_le s
    cases hs : x s with
    | ok a t =>
      rw [bind_of_ok hs] at h
      exact (hf a).ends_le t h
    | err e t =>
      rw [bind_of_err hs] at h
      exact h
    | abort =>
      rw [bind_apply, hs] at h
      exact h
  congr := by
    intro s m hm h
    cases hs : x s with
    | ok a t =>
      rw [bind_of_ok hs] at h ⊢
      have hmid : Within limit (x s) := by
        rw [hs]
        exact (hf a).ends_le t h
      have hfirst := hx.congr s m hm hmid
      rw [hs] at hfirst
      rw [bind_of_ok hfirst]
      apply (hf a).congr t m _ h
      rw [hx.keeps_mem s a t hs]
      exact hm
    | err e t =>
      rw [bind_of_err hs] at h ⊢
      have hfirst := hx.congr s m hm (by rw [hs]; exact h)
      rw [hs] at hfirst
      exact bind_of_err hfirst
    | abort =>
      rw [bind_apply, hs] at h
      exact h.elim

/-- Looking at the state is fine where the memory is not looked at. -/
theorem ReadsOnly.bind_get {f : σ → Exec ε σ β} (hsame : ∀ m s, f (withMem m s) = f s)
    (hf : ∀ s, ReadsOnly limit (f s)) : ReadsOnly limit (get >>= f) where
  keeps_mem := fun s => (hf s).keeps_mem s
  ends_le := fun s => (hf s).ends_le s
  congr := by
    intro s m hm h
    have hrun := (hf s).congr s m hm h
    rw [Exec.bind_get, Exec.bind_get, hsame, hrun]

theorem ReadsOnly.modify {g : σ → σ} (hcomm : ∀ m s, g (withMem m s) = withMem m (g s))
    (hmem : ∀ s, mem (g s) = mem s) (hends : ∀ s, ∀ stop ∈ ends s, stop ∈ ends (g s)) :
    ReadsOnly limit (modify g : Exec ε σ Unit) where
  keeps_mem := by
    intro s a t h
    cases h
    exact hmem s
  ends_le := fun s h stop hstop => h stop (hends s stop hstop)
  congr := by
    intro s m _ _
    rw [modify_apply, hcomm, modify_apply]
    rfl

/-- A call on the component that holds the memory. -/
theorem ReadsOnly.zoom [HasFootprint τ] {view : σ → τ} {update : τ → σ → σ} {x : Exec ε τ α}
    (hview : ∀ m s, view (withMem m s) = withMem m (view s))
    (hupdate : ∀ m t s, update (withMem m t) (withMem m s) = withMem m (update t s))
    (hmem : ∀ s, mem (view s) = mem s) (hmem' : ∀ t s, mem (update t s) = mem t)
    (hends : ∀ s, ends (view s) = ends s) (hends' : ∀ t s, ends (update t s) = ends t)
    (hx : ReadsOnly limit x) : ReadsOnly limit (zoom view update x) := by
  have hwithin (s : σ) (h : Within limit (Exec.zoom view update x s)) : Within limit (x (view s)) := by
    unfold Exec.zoom at h
    cases hs : x (view s) with
    | ok a t =>
      rw [hs] at h
      simpa only [Within, hends'] using h
    | err e t =>
      rw [hs] at h
      simpa only [Within, hends'] using h
    | abort =>
      rw [hs] at h
      exact h
  refine ⟨?_, ?_, ?_⟩
  · intro s a t h
    obtain ⟨inner, hinner, rfl⟩ := zoom_eq_ok_iff.mp h
    rw [hmem', hx.keeps_mem _ _ _ hinner, hmem]
  · intro s h stop hstop
    rw [← hends] at hstop
    exact hx.ends_le (view s) (hwithin s h) stop hstop
  · intro s m hm h
    have hrun := hx.congr (view s) m (by rw [hmem]; exact hm) (hwithin s h)
    unfold Exec.zoom
    rw [hview, hrun]
    cases x (view s) with
    | ok a t => simp only [Outcome.mapState, hupdate]
    | err e t => simp only [Outcome.mapState, hupdate]
    | abort => rfl

/-- A call on a component beside the memory. -/
theorem ReadsOnly.zoom_frame {ρ : Type} {view : σ → ρ} {update : ρ → σ → σ} {x : Exec ε ρ α}
    (hview : ∀ m s, view (withMem m s) = view s)
    (hupdate : ∀ m t s, update t (withMem m s) = withMem m (update t s))
    (hmem : ∀ t s, mem (update t s) = mem s) (hends : ∀ t s, ends (update t s) = ends s) :
    ReadsOnly limit (Exec.zoom view update x) := by
  refine ⟨?_, ?_, ?_⟩
  · intro s a t h
    obtain ⟨inner, _, rfl⟩ := zoom_eq_ok_iff.mp h
    exact hmem inner s
  · intro s h
    unfold Exec.zoom at h
    cases hs : x (view s) with
    | ok a t =>
      rw [hs] at h
      simpa only [Within, hends] using h
    | err e t =>
      rw [hs] at h
      simpa only [Within, hends] using h
    | abort =>
      rw [hs] at h
      exact h.elim
  · intro s m _ _
    unfold Exec.zoom
    rw [hview]
    cases x (view s) with
    | ok a t => simp only [Outcome.mapState, hupdate]
    | err e t => simp only [Outcome.mapState, hupdate]
    | abort => rfl

/-- Where neither run can leave the limit, memories that agree up to it give
the same answer, also where the program aborts. -/
theorem ReadsOnly.answer_congr {x : Exec ε σ α} {s : σ} {m : Memory}
    (hx : ReadsOnly limit x) (hm : Memory.AgreeOn 0 limit m (mem s))
    (hback : withMem (mem s) (withMem m s) = s) (hmem : mem (withMem m s) = m)
    (hs : x s = .abort ∨ Within limit (x s))
    (hs' : x (withMem m s) = .abort ∨ Within limit (x (withMem m s))) :
    (x (withMem m s)).answer? = (x s).answer? := by
  rcases hs with hs | hs
  · rcases hs' with hs' | hs'
    · rw [hs, hs']
    · have hrun := hx.congr (withMem m s) (mem s) (by rw [hmem]; exact hm.symm) hs'
      rw [hback] at hrun
      rw [hrun, Outcome.answer?_mapState]
  · rw [hx.congr s m hm hs, Outcome.answer?_mapState]

end Footprint
