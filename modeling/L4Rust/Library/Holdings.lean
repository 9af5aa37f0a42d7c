import Mathlib.Data.List.Basic
import Mathlib.Logic.Function.Basic
import Mathlib.Tactic.Common

variable {η ρ : Type}

/-- The resources in use are exactly those that somebody holds, and each has one
holder. -/
structure Holdings (used : List ρ) (holder : η → Option ρ) : Prop where
  nodup : used.Nodup
  mem_iff : ∀ r, r ∈ used ↔ ∃ h, holder h = some r
  unique : ∀ r h h', holder h = some r → holder h' = some r → h = h'

namespace Holdings

variable {used : List ρ} {holder : η → Option ρ} {r : ρ} {h : η}

theorem empty : Holdings ([] : List ρ) (fun _ : η => none) :=
  ⟨List.nodup_nil, by simp, nofun⟩

variable [DecidableEq η]

/-- A new resource comes with a new holder. -/
theorem acquire (hold : Holdings used holder) (hr : r ∉ used) (hh : holder h = none) :
    Holdings (r :: used) (Function.update holder h (some r)) := by
  have hother (h' : η) (hne : h' ≠ h) : Function.update holder h (some r) h' = holder h' :=
    Function.update_of_ne hne ..
  have hold' (h' : η) (r' : ρ) (hh' : holder h' = some r') : h' ≠ h := by
    rintro rfl
    rw [hh] at hh'
    cases hh'
  refine ⟨List.nodup_cons.mpr ⟨hr, hold.nodup⟩, ?_, ?_⟩
  · intro r'
    rw [List.mem_cons, hold.mem_iff]
    constructor
    · rintro (rfl | ⟨h', hh'⟩)
      · exact ⟨h, Function.update_self ..⟩
      · exact ⟨h', by rw [hother h' (hold' h' r' hh'), hh']⟩
    · rintro ⟨h', hh'⟩
      by_cases heq : h' = h
      · subst heq
        rw [Function.update_self] at hh'
        exact Or.inl (Option.some.inj hh').symm
      · rw [hother h' heq] at hh'
        exact Or.inr ⟨h', hh'⟩
  · intro r' a b ha hb
    by_cases hah : a = h
    · by_cases hbh : b = h
      · rw [hah, hbh]
      · rw [hah, Function.update_self] at ha
        rw [hother b hbh] at hb
        exact absurd ((hold.mem_iff r').mpr ⟨b, hb⟩) (Option.some.inj ha ▸ hr)
    · rw [hother a hah] at ha
      by_cases hbh : b = h
      · rw [hbh, Function.update_self] at hb
        exact absurd ((hold.mem_iff r').mpr ⟨a, ha⟩) (Option.some.inj hb ▸ hr)
      · rw [hother b hbh] at hb
        exact hold.unique r' a b ha hb

/-- A holder gives its resource back. -/
theorem release [DecidableEq ρ] (hold : Holdings used holder) (hh : holder h = some r) :
    Holdings (used.erase r) (Function.update holder h none) := by
  refine ⟨hold.nodup.erase r, ?_, ?_⟩
  · intro r'
    rw [hold.nodup.mem_erase_iff, hold.mem_iff]
    constructor
    · rintro ⟨hne, h', hh'⟩
      refine ⟨h', ?_⟩
      rw [Function.update_of_ne, hh']
      rintro rfl
      rw [hh] at hh'
      exact hne (Option.some.inj hh').symm
    · rintro ⟨h', hh'⟩
      by_cases heq : h' = h
      · subst heq
        rw [Function.update_self] at hh'
        cases hh'
      · rw [Function.update_of_ne heq] at hh'
        refine ⟨?_, h', hh'⟩
        rintro rfl
        exact heq (hold.unique r' h' h hh' hh)
  · intro r' a b ha hb
    have hkept (c : η) (hc : Function.update holder h none c = some r') : holder c = some r' := by
      by_cases heq : c = h
      · subst heq
        rw [Function.update_self] at hc
        cases hc
      · rwa [Function.update_of_ne heq] at hc
    exact hold.unique r' a b (hkept a ha) (hkept b hb)

end Holdings
