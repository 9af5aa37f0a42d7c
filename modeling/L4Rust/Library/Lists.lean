import Mathlib.Data.List.Basic
import Mathlib.Data.List.Forall2
import Mathlib.Tactic.Common

namespace Lists

variable {α β : Type}

section MapM

variable {f : α → Option β} {xs : List α} {ys : List β}

theorem forall₂_of_mapM (h : xs.mapM f = some ys) :
    List.Forall₂ (fun x y => f x = some y) xs ys := by
  induction xs generalizing ys with
  | nil =>
    cases h
    exact .nil
  | cons x xs ih =>
    rw [List.mapM_cons] at h
    obtain ⟨y, hy, h⟩ := Option.bind_eq_some_iff.mp h
    obtain ⟨rest, hrest, h⟩ := Option.bind_eq_some_iff.mp h
    cases h
    exact .cons hy (ih hrest)

/-- A partial function that agrees with a total one where it is defined. -/
theorem eq_map_of_mapM {g : α → β} (hf : ∀ x y, f x = some y → y = g x) (h : xs.mapM f = some ys) :
    ys = xs.map g := by
  have hpairs := forall₂_of_mapM h
  clear h
  induction hpairs with
  | nil => rfl
  | cons hy _ ih => rw [List.map_cons, hf _ _ hy, ih]

theorem mapM_eq_map {g : α → β} (hf : ∀ x ∈ xs, f x = some (g x)) : xs.mapM f = some (xs.map g) := by
  induction xs with
  | nil => rfl
  | cons x xs ih =>
    obtain ⟨hx, hxs⟩ := List.forall_mem_cons.mp hf
    rw [List.mapM_cons, hx, ih hxs]
    rfl

theorem countP_of_mapM (p : β → Bool) (h : xs.mapM f = some ys) :
    ys.countP p = xs.countP fun x => (f x).any p := by
  have hpairs := forall₂_of_mapM h
  clear h
  induction hpairs with
  | nil => rfl
  | cons hy _ ih => rw [List.countP_cons, List.countP_cons, ih, hy, Option.any_some]

end MapM

theorem forall₂_forall_iff {R : α → β → Prop} {P : α → Prop} {Q : β → Prop} {xs : List α}
    {ys : List β} (h : List.Forall₂ R xs ys) (hR : ∀ x y, R x y → x ∈ xs → (P x ↔ Q y)) :
    (∀ x ∈ xs, P x) ↔ ∀ y ∈ ys, Q y := by
  induction h with
  | nil => simp
  | cons hxy _ ih =>
    rw [List.forall_mem_cons, List.forall_mem_cons, hR _ _ hxy (by simp),
      ih fun x y hxy hx => hR x y hxy (by simp [hx])]

/-- Counting in two overlapping ways. -/
theorem countP_exchange (p q : α → Bool) (xs : List α) :
    xs.countP p + xs.countP (fun a => q a && !p a) = xs.countP q + xs.countP fun a => p a && !q a := by
  induction xs with
  | nil => rfl
  | cons a xs ih =>
    simp only [List.countP_cons]
    cases p a <;> cases q a <;> simp <;> omega

theorem insertIdx_eq_take_drop {xs : List α} {n : Nat} (h : n ≤ xs.length) (a : α) :
    xs.insertIdx n a = xs.take n ++ a :: xs.drop n := by
  induction xs generalizing n with
  | nil =>
    obtain rfl : n = 0 := Nat.le_zero.mp h
    rfl
  | cons x xs ih =>
    cases n with
    | zero => rfl
    | succ n => simp [ih (Nat.le_of_succ_le_succ h)]

/-- Where two lists are followed by a delimiter that is in neither of them, they are the same. -/
theorem append_inj_of_delimiter {p : α → Prop} {xs ys rest rest' : List α} {c d : α}
    (hxs : ∀ x ∈ xs, ¬ p x) (hys : ∀ y ∈ ys, ¬ p y) (hc : p c) (hd : p d)
    (h : xs ++ c :: rest = ys ++ d :: rest') : xs = ys ∧ c :: rest = d :: rest' := by
  rcases List.append_eq_append_iff.mp h with ⟨between, rfl, hrest⟩ | ⟨between, rfl, hrest⟩
  · cases between with
    | nil => exact ⟨(List.append_nil _).symm, hrest⟩
    | cons b between =>
      obtain rfl := (List.cons.inj hrest).1
      exact absurd hc (hys c (List.mem_append_right _ (List.mem_cons_self ..)))
  · cases between with
    | nil => exact ⟨List.append_nil _, hrest.symm⟩
    | cons b between =>
      obtain rfl := (List.cons.inj hrest).1
      exact absurd hd (hxs d (List.mem_append_right _ (List.mem_cons_self ..)))

/-- What holds of every element and the elements before it, in a list with one more element. -/
theorem forall_split_concat {P : List α → α → Prop} {xs : List α} {y : α} :
    (∀ before x after, xs ++ [y] = before ++ x :: after → P before x) ↔
      (∀ before x after, xs = before ++ x :: after → P before x) ∧ P xs y := by
  constructor
  · intro h
    refine ⟨fun before x after hsplit => ?_, h xs y [] rfl⟩
    apply h before x (after ++ [y])
    rw [hsplit, List.append_assoc, List.cons_append]
  · rintro ⟨hxs, hy⟩ before x after hsplit
    rcases List.eq_nil_or_concat after with rfl | ⟨after, last, rfl⟩
    · obtain ⟨rfl, hx⟩ := List.append_inj' hsplit rfl
      cases hx
      exact hy
    · rw [List.concat_eq_append, ← List.cons_append, ← List.append_assoc] at hsplit
      exact hxs before x after (List.append_inj' hsplit rfl).1

/-- Taking an element out of a list without repetitions and putting it in front. -/
theorem perm_cons_filter_ne [DecidableEq α] {a : α} {xs : List α} (hnodup : xs.Nodup) (ha : a ∈ xs) :
    (a :: xs.filter (· ≠ a)).Perm xs := by
  have herase : xs.filter (· ≠ a) = xs.erase a := by
    rw [hnodup.erase_eq_filter a]
    apply List.filter_congr
    intro b _
    by_cases hb : b = a <;> simp [hb]
  rw [herase]
  exact (List.perm_cons_erase ha).symm

end Lists
