import Mathlib

/-! Lists that are cut up at some of their elements. -/

namespace Words

variable {α : Type} {p : α → Bool} {xs ys : List α} {x : α}

/-- The longest runs of elements with a property, from first to last. -/
def words (p : α → Bool) (xs : List α) : List (List α) :=
  (xs.splitOnP fun x => !p x).filter fun word => !word.isEmpty

/-- Words do not reach over a separator. -/
theorem words_append_cons (xs ys : List α) (hx : p x = false) :
    words p (xs ++ x :: ys) = words p xs ++ words p ys := by
  unfold words
  rw [List.splitOnP_append_cons xs ys (by simp [hx]), List.filter_append]

/-- A list without separators is one word. -/
theorem words_of_forall (hne : xs ≠ []) (h : ∀ x ∈ xs, p x = true) : words p xs = [xs] := by
  unfold words
  rw [List.splitOnP_eq_singleton (by simpa using h)]
  simpa using hne

variable [BEq α] [LawfulBEq α] {sep : α}

/-- The pieces of a list between the occurrences of an element. -/
def lines (sep : α) (xs : List α) : List (List α) := xs.splitOn sep

theorem lines_append_cons (sep : α) (xs ys : List α) : lines sep (xs ++ sep :: ys) = lines sep xs ++ lines sep ys :=
  List.splitOn_append_cons_self xs ys

theorem lines_of_notMem (h : sep ∉ xs) : lines sep xs = [xs] := List.splitOn_eq_singleton h

/-- The lines of pieces that all end with a line break, and of what comes behind them. -/
theorem mem_lines_flatMap {β : Type} {f : β → List α} {bs : List β} {line : List α} :
    line ∈ lines sep (bs.flatMap (fun b => f b ++ [sep]) ++ ys) ↔
      (∃ b ∈ bs, line ∈ lines sep (f b)) ∨ line ∈ lines sep ys := by
  induction bs with
  | nil => simp
  | cons b bs ih =>
    rw [List.flatMap_cons, List.append_assoc, List.append_assoc, List.singleton_append, lines_append_cons,
      List.mem_append, ih]
    simp [or_assoc]

end Words
