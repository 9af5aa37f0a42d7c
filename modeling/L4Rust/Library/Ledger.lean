import L4Rust.Library.Holdings
import Mathlib.Data.List.Induction
import Mathlib.Tactic.Tauto

namespace Ledger

variable {ρ η : Type}

/-- What is done to a resource. -/
inductive Event (ρ : Type) where
  | opened (r : ρ)
  | used (r : ρ)
  | closed (r : ρ)
  deriving DecidableEq

variable [DecidableEq ρ]

/-- The open resources after one more event. -/
def after (held : List ρ) : Event ρ → List ρ
  | .opened r => held.insert r
  | .used _ => held
  | .closed r => held.erase r

/-- The resources that were opened and not closed. -/
def in_use (events : List (Event ρ)) : List ρ := events.foldl after []

/-- What is opened is not open yet, and only what is open is used and closed. -/
def Event.Legal (held : List ρ) : Event ρ → Prop
  | .opened r => r ∉ held
  | .used r => r ∈ held
  | .closed r => r ∈ held

def Legal (events : List (Event ρ)) : Prop :=
  ∀ before e after, events = before ++ e :: after → e.Legal (in_use before)

theorem in_use_concat (events : List (Event ρ)) (e : Event ρ) :
    in_use (events ++ [e]) = after (in_use events) e := by
  simp [in_use]

theorem legal_nil : Legal ([] : List (Event ρ)) := by
  intro before e after hsplit
  simp at hsplit

theorem legal_concat {events : List (Event ρ)} {e : Event ρ} (h : Legal events)
    (he : e.Legal (in_use events)) : Legal (events ++ [e]) := by
  intro before e' after hsplit
  obtain rfl | ⟨after, last, rfl⟩ := List.eq_nil_or_concat after
  · obtain ⟨rfl, hlast⟩ := List.append_inj' hsplit rfl
    cases hlast
    exact he
  · rw [List.concat_eq_append, ← List.cons_append, ← List.append_assoc] at hsplit
    exact h before e' after (List.append_inj' hsplit rfl).1

theorem mem_in_use_opened {events : List (Event ρ)} {new : List ρ} {r : ρ} :
    r ∈ in_use (events ++ new.map .opened) ↔ r ∈ in_use events ∨ r ∈ new := by
  induction new using List.reverseRecOn with
  | nil => simp
  | append_singleton new last ih =>
    rw [List.map_append, List.map_singleton, ← List.append_assoc, in_use_concat, after, List.mem_insert_iff, ih,
      List.mem_append, List.mem_singleton]
    tauto

/-- What is open stays open until it is closed. -/
theorem mem_in_use_append {events : List (Event ρ)} {r : ρ} (h : r ∈ in_use events) (more : List (Event ρ)) :
    r ∈ in_use (events ++ more) ∨ .closed r ∈ more := by
  induction more using List.reverseRecOn with
  | nil =>
    rw [List.append_nil]
    exact .inl h
  | append_singleton more last ih =>
    rw [← List.append_assoc, in_use_concat]
    obtain hopen | hclosed := ih
    · cases last with
      | opened r' => exact .inl (List.mem_insert_of_mem hopen)
      | used r' => exact .inl hopen
      | closed r' =>
        by_cases hr : r = r'
        · exact .inr (List.mem_append_right _ (by simp [hr]))
        · exact .inl ((List.mem_erase_of_ne hr).mpr hopen)
    · exact .inr (List.mem_append_left _ hclosed)

/-- The open resources are exactly those that somebody holds, each of them has one holder, and
nothing was ever done to a resource out of turn. -/
structure Balanced (events : List (Event ρ)) (holder : η → Option ρ) : Prop where
  holdings : Holdings (in_use events) holder
  legal : Legal events

namespace Balanced

variable {events : List (Event ρ)} {holder : η → Option ρ} {r : ρ} {h : η}

theorem empty : Balanced ([] : List (Event ρ)) (fun _ : η => none) := ⟨Holdings.empty, legal_nil⟩

theorem used (hbal : Balanced events holder) (hheld : holder h = some r) :
    Balanced (events ++ [.used r]) holder := by
  have hopen : r ∈ in_use events := (hbal.holdings.mem_iff r).mpr ⟨h, hheld⟩
  refine ⟨?_, legal_concat hbal.legal hopen⟩
  rw [in_use_concat]
  exact hbal.holdings

variable [DecidableEq η]

theorem opened (hbal : Balanced events holder) (hnew : r ∉ in_use events) (hvacant : holder h = none) :
    Balanced (events ++ [.opened r]) (Function.update holder h (some r)) := by
  refine ⟨?_, legal_concat hbal.legal hnew⟩
  rw [in_use_concat, after, List.insert_of_not_mem hnew]
  exact hbal.holdings.acquire hnew hvacant

theorem closed (hbal : Balanced events holder) (hheld : holder h = some r) :
    Balanced (events ++ [.closed r]) (Function.update holder h none) := by
  have hopen : r ∈ in_use events := (hbal.holdings.mem_iff r).mpr ⟨h, hheld⟩
  refine ⟨?_, legal_concat hbal.legal hopen⟩
  rw [in_use_concat]
  exact hbal.holdings.release hheld

end Balanced

end Ledger
