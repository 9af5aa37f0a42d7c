import Mathlib.Data.List.DropRight
import L4Rust.Library.Words

/-! How a shell reads text. -/

namespace Shell

open Words (lines lines_append_cons lines_of_notMem)

/-- What a command has printed, as a command substitution hands it on: without the line breaks at its
end. -/
def substitution (output : List Char) : List Char := output.rdropWhile (· == '\n')

/-- The lines that `read` gets of a text, which `<<<` ends with a line break. -/
def here_lines (text : List Char) : List (List Char) := lines '\n' text

/-- What `IFS=c read -r` makes of a line for two variables, where `c` is a blank. -/
def read_two (c : Char) (line : List Char) : List Char × List Char :=
  let line := line.dropWhile (· == c)
  (line.takeWhile (· != c), ((line.dropWhile (· != c)).dropWhile (· == c)).rdropWhile (· == c))

variable {c : Char} {xs ys : List Char} {rows : List (List Char)}

theorem dropWhile_of_notMem (h : c ∉ xs) (ys : List Char) (hxs : xs ≠ []) :
    (xs ++ ys).dropWhile (· == c) = xs ++ ys := by
  obtain ⟨x, xs, rfl⟩ := List.exists_cons_of_ne_nil hxs
  have hx : x ≠ c := fun hx => h (hx ▸ List.mem_cons_self ..)
  rw [List.cons_append, List.dropWhile_cons_of_neg (by simpa using hx)]

theorem rdropWhile_of_notMem (h : c ∉ xs) (ys : List Char) (hxs : xs ≠ []) :
    (ys ++ xs).rdropWhile (· == c) = ys ++ xs := by
  rw [List.rdropWhile, List.reverse_append, dropWhile_of_notMem (by simpa using h) _ (by simpa using hxs)]
  simp

/-- A line of two words is read as it was written. -/
theorem read_two_of_words (hxs : xs ≠ []) (hys : ys ≠ []) (hxc : c ∉ xs) (hyc : c ∉ ys) :
    read_two c (xs ++ c :: ys) = (xs, ys) := by
  have hword : ∀ x ∈ xs, (x != c) = true := by
    intro x hx
    rw [bne_iff_ne]
    rintro rfl
    exact hxc hx
  have hdrop : (ys : List Char).dropWhile (· == c) = ys := by
    have h := dropWhile_of_notMem hyc [] hys
    rwa [List.append_nil] at h
  have hrdrop : ys.rdropWhile (· == c) = ys := rdropWhile_of_notMem hyc [] hys
  rw [read_two, dropWhile_of_notMem hxc _ hxs]
  rw [List.takeWhile_append_of_pos hword, List.takeWhile_cons_of_neg (by simp), List.append_nil,
    List.dropWhile_append_of_pos hword, List.dropWhile_cons_of_neg (by simp),
    List.dropWhile_cons_of_pos (by simp), hdrop, hrdrop]

theorem lines_flatMap (h : ∀ row ∈ rows, '\n' ∉ row) (text : List Char) :
    lines '\n' (rows.flatMap (· ++ ['\n']) ++ text) = rows ++ lines '\n' text := by
  induction rows with
  | nil => rfl
  | cons row rows ih =>
    obtain ⟨hrow, hrows⟩ := List.forall_mem_cons.mp h
    rw [List.flatMap_cons, List.append_assoc, List.append_assoc, List.singleton_append, lines_append_cons,
      lines_of_notMem hrow, ih hrows]
    rfl

/-- Lines that are printed are the lines that are read, if none of them is empty. -/
theorem here_lines_substitution (hne : rows ≠ []) (h : ∀ row ∈ rows, row ≠ [] ∧ '\n' ∉ row) :
    here_lines (substitution (rows.flatMap (· ++ ['\n']))) = rows := by
  obtain ⟨front, last, rfl⟩ := rows.eq_nil_or_concat.resolve_left hne
  rw [List.concat_eq_append] at h ⊢
  obtain ⟨hfront, hlast⟩ := List.forall_mem_append.mp h
  obtain ⟨hlast, hbreak⟩ := hlast last (List.mem_singleton_self _)
  rw [List.flatMap_append, List.flatMap_singleton, ← List.append_assoc, substitution,
    List.rdropWhile_concat_pos _ _ _ (by simp), rdropWhile_of_notMem hbreak _ hlast, here_lines,
    lines_flatMap (fun row hrow => (hfront row hrow).2), lines_of_notMem hbreak]

theorem substitution_eq_nil_iff (h : ∀ row ∈ rows, row ≠ [] ∧ '\n' ∉ row) :
    substitution (rows.flatMap (· ++ ['\n'])) = [] ↔ rows = [] := by
  constructor
  · intro hempty
    by_contra hne
    have hrows := here_lines_substitution hne h
    rw [hempty, here_lines, lines_of_notMem List.not_mem_nil] at hrows
    exact (h [] (hrows ▸ List.mem_singleton_self _)).1 rfl
  · rintro rfl
    rfl

end Shell
