import Mathlib

/-! Lists of events, the most recent first, of which some are marked. -/

namespace History

variable {α β γ : Type} {p : α → Option β} {q : α → Option γ} {events before : List α} {e : α}

/-- What the most recent marked event is marked with. -/
def last (p : α → Option β) (events : List α) : Option β := events.findSome? p

/-- The events since the most recent marked one. -/
def since (p : α → Option β) (events : List α) : List α := events.takeWhile fun e => (p e).isNone

/-- How many events are marked. -/
def count (p : α → Option β) (events : List α) : Nat := events.countP fun e => (p e).isSome

theorem last_cons_of_none (h : p e = none) : last p (e :: events) = last p events := by
  rw [last, List.findSome?_cons, h]
  rfl

theorem last_cons_of_some {b : β} (h : p e = some b) : last p (e :: events) = some b := by
  rw [last, List.findSome?_cons, h]

theorem since_cons_of_none (h : p e = none) : since p (e :: events) = e :: since p events := by
  rw [since, List.takeWhile_cons, h]
  rfl

theorem since_cons_of_some {b : β} (h : p e = some b) : since p (e :: events) = [] := by
  rw [since, List.takeWhile_cons, h]
  rfl

theorem count_cons_of_none (h : p e = none) : count p (e :: events) = count p events := by
  simp [count, h]

theorem count_cons_of_some {b : β} (h : p e = some b) :
    count p (e :: events) = count p events + 1 := by
  simp [count, h]

theorem count_le_of_suffix (h : before <:+ events) : count p before ≤ count p events := h.sublist.countP_le

/-- The most recent event with one mark, since the one with another, is the most recent one at all. -/
theorem last_of_since {c : γ} (h : last q (since p events) = some c) : last q events = some c := by
  induction events with
  | nil => cases h
  | cons first events ih =>
    cases hp : p first with
    | some b =>
      rw [since_cons_of_some hp] at h
      cases h
    | none =>
      rw [since_cons_of_none hp] at h
      cases hq : q first with
      | some c' => rwa [last_cons_of_some hq] at h ⊢
      | none =>
        rw [last_cons_of_none hq] at h ⊢
        exact ih h

theorem mem_since_of_since {c : γ} (h : last q (since p events) = some c) (he : e ∈ since q events) :
    e ∈ since p events := by
  induction events with
  | nil => cases he
  | cons first events ih =>
    cases hq : q first with
    | some c' =>
      rw [since_cons_of_some hq] at he
      cases he
    | none =>
      cases hp : p first with
      | some b =>
        rw [since_cons_of_some hp] at h
        cases h
      | none =>
        rw [since_cons_of_none hp] at h ⊢
        rw [since_cons_of_none hq] at he
        rw [last_cons_of_none hq] at h
        rcases List.mem_cons.mp he with rfl | he
        · exact List.mem_cons_self ..
        · exact List.mem_cons_of_mem _ (ih h he)

/-- The most recent marked event comes right before those since then. -/
theorem exists_last {b : β} (h : last p events = some b) :
    ∃ e older, events = since p events ++ e :: older ∧ p e = some b := by
  induction events with
  | nil => cases h
  | cons first events ih =>
    cases hp : p first with
    | some b' =>
      rw [last_cons_of_some hp] at h
      refine ⟨first, events, ?_, hp.trans h⟩
      rw [since_cons_of_some hp]
      rfl
    | none =>
      rw [last_cons_of_none hp] at h
      obtain ⟨e, older, hsplit, he⟩ := ih h
      refine ⟨e, older, ?_, he⟩
      rw [since_cons_of_none hp, List.cons_append, ← hsplit]

/-- Before an event since the most recent marked one, as many were marked, and the same one was the
most recent. -/
theorem exists_before_since (he : e ∈ since p events) : ∃ before, e :: before <:+ events ∧
    count p before = count p events ∧ last p before = last p events := by
  induction events with
  | nil => cases he
  | cons first events ih =>
    cases hp : p first with
    | some b =>
      rw [since_cons_of_some hp] at he
      cases he
    | none =>
      rw [since_cons_of_none hp] at he
      rw [count_cons_of_none hp, last_cons_of_none hp]
      rcases List.mem_cons.mp he with rfl | he
      · exact ⟨events, List.suffix_refl _, rfl, rfl⟩
      · obtain ⟨before, hsuffix, hsame⟩ := ih he
        exact ⟨before, hsuffix.trans (List.suffix_cons ..), hsame⟩

/-- What is before a marked event is before the most recent one, too. -/
theorem suffix_of_marked {b : β} (hp : p e = some b) (h : e :: before <:+ events) {latest : α} {older : List α}
    (hsplit : events = since p events ++ latest :: older) : before <:+ older := by
  have hnone : ∀ x ∈ since p events, p x = none := by
    intro x hx
    simpa using List.mem_takeWhile_imp hx
  rw [hsplit] at h
  generalize since p events = recent at h hnone
  clear hsplit
  induction recent with
  | nil =>
    rcases List.suffix_cons_iff.mp h with hhead | hrest
    · rw [(List.cons.inj hhead).2]
    · exact (List.suffix_cons ..).trans hrest
  | cons first recent ih =>
    rcases List.suffix_cons_iff.mp h with hhead | hrest
    · rw [(List.cons.inj hhead).1, hnone first (List.mem_cons_self ..)] at hp
      cases hp
    · exact ih hrest fun x hx => hnone x (List.mem_cons_of_mem _ hx)

/-- What is before an event that is not since the most recent marked one is before that, too. -/
theorem count_lt_of_suffix (hlast : last p events ≠ none) (he : e ∉ since p events) (hp : p e = none)
    (h : e :: before <:+ events) : count p before < count p events := by
  induction events with
  | nil => exact absurd rfl hlast
  | cons first events ih =>
    rcases List.suffix_cons_iff.mp h with hhead | hrest
    · obtain ⟨rfl, rfl⟩ := List.cons.inj hhead
      rw [since_cons_of_none hp] at he
      exact absurd (List.mem_cons_self ..) he
    · cases hfirst : p first with
      | some b =>
        have hle : count p (e :: before) ≤ count p events := count_le_of_suffix hrest
        rw [count_cons_of_none hp] at hle
        rw [count_cons_of_some hfirst]
        omega
      | none =>
        rw [last_cons_of_none hfirst] at hlast
        rw [since_cons_of_none hfirst] at he
        rw [count_cons_of_none hfirst]
        exact ih hlast (fun hmem => he (List.mem_cons_of_mem _ hmem)) hrest

end History
