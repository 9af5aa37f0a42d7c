import Mathlib.Data.List.Induction
import Mathlib.Data.List.Nodup
import Mathlib.Logic.Function.Basic
import Mathlib.Tactic.Common

/-- Which thing is at a place, if there is one. -/
abbrev Placement (π κ : Type) : Type := π → Option κ

namespace Placement

variable {π κ : Type} {place : Placement π κ} {a b : κ} {p q : π}

/-- Nothing is at two places. -/
def Once (place : Placement π κ) : Prop := ∀ a p q, place p = some a → place q = some a → p = q

def Somewhere (place : Placement π κ) (a : κ) : Prop := ∃ p, place p = some a

variable [DecidableEq π]

/-- A thing comes to a place, and takes the place of what was there. -/
def put (place : Placement π κ) (p : π) (a : κ) : Placement π κ := Function.update place p (some a)

def clear (place : Placement π κ) (p : π) : Placement π κ := Function.update place p none

/-- What is at one place goes to another one, if there is anything. -/
def move (place : Placement π κ) (p q : π) : Placement π κ :=
  match place p with
  | none => place
  | some a => (place.clear p).put q a

/-- One thing after the other comes to its place, where one comes. -/
def putAll (place : Placement π κ) (arrivals : List (π × Option κ)) : Placement π κ :=
  arrivals.foldl (fun place arrival => match arrival.2 with
    | none => place
    | some a => place.put arrival.1 a) place

theorem put_self (place : Placement π κ) (p : π) (a : κ) : place.put p a p = some a := Function.update_self ..

theorem put_of_ne (place : Placement π κ) (a : κ) (h : q ≠ p) : place.put p a q = place q :=
  Function.update_of_ne h ..

theorem clear_self (place : Placement π κ) (p : π) : place.clear p p = none := Function.update_self ..

theorem clear_of_ne (place : Placement π κ) (h : q ≠ p) : place.clear p q = place q := Function.update_of_ne h ..

theorem put_eq_some (h : place.put p a q = some b) : (q = p ∧ b = a) ∨ (q ≠ p ∧ place q = some b) := by
  by_cases hq : q = p
  · subst hq
    rw [put_self] at h
    exact .inl ⟨rfl, (Option.some.inj h).symm⟩
  · rw [put_of_ne _ _ hq] at h
    exact .inr ⟨hq, h⟩

theorem clear_eq_some (h : place.clear p q = some b) : q ≠ p ∧ place q = some b := by
  by_cases hq : q = p
  · subst hq
    rw [clear_self] at h
    cases h
  · rw [clear_of_ne _ hq] at h
    exact ⟨hq, h⟩

theorem move_of_none (q : π) (h : place p = none) : place.move p q = place := by
  unfold move
  rw [h]

theorem move_of_some (q : π) (h : place p = some a) : place.move p q = (place.clear p).put q a := by
  unfold move
  rw [h]

theorem move_target (place : Placement π κ) (p q : π) (h : place p = some a) : place.move p q q = some a := by
  rw [move_of_some q h, put_self]

/-- Neither of the two places is concerned. -/
theorem move_of_ne (place : Placement π κ) {r : π} (hp : r ≠ p) (hq : r ≠ q) : place.move p q r = place r := by
  cases h : place p with
  | none => rw [move_of_none q h]
  | some a => rw [move_of_some q h, put_of_ne _ _ hq, clear_of_ne _ hp]

/-- What is somewhere after a move was somewhere before. -/
theorem move_eq_some {r : π} (h : place.move p q r = some b) :
    (r = q ∧ place p = some b) ∨ place r = some b := by
  cases hp : place p with
  | none =>
    rw [move_of_none q hp] at h
    exact .inr h
  | some a =>
    rw [move_of_some q hp] at h
    obtain ⟨hr, rfl⟩ | ⟨_, h⟩ := put_eq_some h
    · exact .inl ⟨hr, rfl⟩
    · exact .inr (clear_eq_some h).2

theorem putAll_concat (place : Placement π κ) (arrivals : List (π × Option κ)) (arrival : π × Option κ) :
    place.putAll (arrivals ++ [arrival]) =
      match arrival.2 with
      | none => place.putAll arrivals
      | some a => (place.putAll arrivals).put arrival.1 a := by
  rw [putAll, List.foldl_append]
  rfl

/-- What is somewhere after the arrivals has arrived there or was there before. -/
theorem putAll_eq_some {arrivals : List (π × Option κ)} (h : place.putAll arrivals q = some b) :
    (q, some b) ∈ arrivals ∨ place q = some b := by
  induction arrivals using List.reverseRecOn with
  | nil => exact .inr h
  | append_singleton arrivals arrival ih =>
    rw [putAll_concat] at h
    obtain ⟨p, arrived⟩ := arrival
    cases arrived with
    | none =>
      obtain hmem | hbefore := ih h
      · exact .inl (List.mem_append_left _ hmem)
      · exact .inr hbefore
    | some a =>
      obtain ⟨rfl, rfl⟩ | ⟨_, h⟩ := put_eq_some h
      · exact .inl (List.mem_append_right _ (List.mem_singleton_self _))
      · obtain hmem | hbefore := ih h
        · exact .inl (List.mem_append_left _ hmem)
        · exact .inr hbefore

/-- A place to which nothing comes is not concerned. -/
theorem putAll_of_not_mem (place : Placement π κ) {arrivals : List (π × Option κ)}
    (h : ∀ a, (q, some a) ∉ arrivals) : place.putAll arrivals q = place q := by
  induction arrivals using List.reverseRecOn with
  | nil => rfl
  | append_singleton arrivals arrival ih =>
    have hrest : ∀ a, (q, some a) ∉ arrivals := fun a ha => h a (List.mem_append_left _ ha)
    rw [putAll_concat]
    obtain ⟨p, arrived⟩ := arrival
    cases arrived with
    | none => exact ih hrest
    | some a =>
      have hq : q ≠ p := by
        rintro rfl
        exact h a (List.mem_append_right _ (List.mem_singleton_self _))
      dsimp only
      rw [put_of_ne _ _ hq, ih hrest]

/-- Where each place is named once, everything that arrives is where it came. -/
theorem putAll_of_mem (place : Placement π κ) {arrivals : List (π × Option κ)}
    (hnodup : (arrivals.map Prod.fst).Nodup) (h : (q, some a) ∈ arrivals) :
    place.putAll arrivals q = some a := by
  induction arrivals using List.reverseRecOn with
  | nil => cases h
  | append_singleton arrivals arrival ih =>
    obtain ⟨p, arrived⟩ := arrival
    rw [List.map_append, List.map_singleton, List.nodup_append] at hnodup
    obtain ⟨hfront, _, hdistinct⟩ := hnodup
    rw [putAll_concat]
    rw [List.mem_append, List.mem_singleton] at h
    obtain hmem | hlast := h
    · have hq : q ≠ p :=
        hdistinct q (List.mem_map.mpr ⟨_, hmem, rfl⟩) p (List.mem_singleton_self p)
      cases arrived with
      | none => exact ih hfront hmem
      | some b =>
        dsimp only
        rw [put_of_ne _ _ hq, ih hfront hmem]
    · cases hlast
      exact put_self ..

namespace Once

/-- What is nowhere yet can come to a place. -/
theorem put (h : Once place) (hnew : ¬ Somewhere place a) : Once (place.put p a) := by
  intro b q r hq hr
  obtain ⟨rfl, rfl⟩ | ⟨_, hq'⟩ := put_eq_some hq
  · obtain ⟨rfl, _⟩ | ⟨_, hr'⟩ := put_eq_some hr
    · rfl
    · exact absurd ⟨r, hr'⟩ hnew
  · obtain ⟨_, rfl⟩ | ⟨_, hr'⟩ := put_eq_some hr
    · exact absurd ⟨q, hq'⟩ hnew
    · exact h b q r hq' hr'

theorem clear (h : Once place) (p : π) : Once (place.clear p) := by
  intro b q r hq hr
  exact h b q r (clear_eq_some hq).2 (clear_eq_some hr).2

theorem move (h : Once place) (p q : π) : Once (place.move p q) := by
  cases hp : place p with
  | none =>
    rw [move_of_none q hp]
    exact h
  | some a =>
    rw [move_of_some q hp]
    refine (h.clear p).put ?_
    rintro ⟨r, hr⟩
    obtain ⟨hne, hr⟩ := clear_eq_some hr
    exact hne (h a r p hr hp)

/-- Arrivals of different things, none of which is anywhere yet. -/
theorem putAll (h : Once place) {arrivals : List (π × Option κ)}
    (hnodup : (arrivals.filterMap Prod.snd).Nodup)
    (hnew : ∀ a ∈ arrivals.filterMap Prod.snd, ¬ Somewhere place a) : Once (place.putAll arrivals) := by
  induction arrivals using List.reverseRecOn with
  | nil => exact h
  | append_singleton arrivals arrival ih =>
    rw [List.filterMap_append] at hnodup hnew
    have hrest := ih (List.nodup_append.mp hnodup).1 fun a ha => hnew a (List.mem_append_left _ ha)
    rw [putAll_concat]
    obtain ⟨p, arrived⟩ := arrival
    cases arrived with
    | none => exact hrest
    | some a =>
      refine hrest.put ?_
      have ha : a ∈ List.filterMap Prod.snd [(p, some a)] := List.mem_singleton_self a
      rintro ⟨r, hr⟩
      obtain hmem | hbefore := putAll_eq_some hr
      · have hbefore : a ∈ arrivals.filterMap Prod.snd := List.mem_filterMap.mpr ⟨_, hmem, rfl⟩
        exact (List.nodup_append.mp hnodup).2.2 a hbefore a ha rfl
      · exact hnew a (List.mem_append_right _ ha) ⟨r, hbefore⟩

end Once

/-- The thing was somewhere and is nowhere any more. -/
def Gone (before after : Placement π κ) (a : κ) : Prop := Somewhere before a ∧ ¬ Somewhere after a

omit [DecidableEq π] in
theorem Gone.not_same (h : Gone place place a) : False := h.2 h.1

theorem Gone.of_clear (h : Gone place (place.clear p) a) : place p = some a := by
  obtain ⟨⟨q, hq⟩, hnowhere⟩ := h
  by_cases hqp : q = p
  · rw [← hqp, hq]
  · refine absurd ⟨q, ?_⟩ hnowhere
    rw [clear_of_ne _ hqp, hq]

/-- By a move only what was at its target goes, and only where something comes. -/
theorem Gone.of_move (h : Gone place (place.move p q) a) : place q = some a ∧ ∃ b, place p = some b ∧ p ≠ q := by
  cases hp : place p with
  | none =>
    rw [move_of_none q hp] at h
    exact h.not_same.elim
  | some b =>
    obtain ⟨⟨r, hr⟩, hnowhere⟩ := h
    have hrp : r ≠ p := by
      rintro rfl
      rw [hp] at hr
      cases hr
      exact hnowhere ⟨q, move_target place r q hp⟩
    have hrq : r = q := by
      by_contra hne
      exact hnowhere ⟨r, by rw [move_of_ne place hrp hne, hr]⟩
    subst hrq
    exact ⟨hr, b, rfl, hrp.symm⟩

theorem Gone.of_putAll {arrivals : List (π × Option κ)} (h : Gone place (place.putAll arrivals) a) :
    ∃ p b, place p = some a ∧ (p, some b) ∈ arrivals := by
  obtain ⟨⟨p, hp⟩, hnowhere⟩ := h
  by_contra hkept
  refine hnowhere ⟨p, ?_⟩
  rw [putAll_of_not_mem, hp]
  intro b hb
  exact hkept ⟨p, b, hp, hb⟩

end Placement
