import Mathlib.Data.List.Sort
import Mathlib.Order.Defs.LinearOrder

/-- A sort by a key, which may put elements of the same key in any order. -/
structure SortByKey {α κ : Type} [LinearOrder κ] (key : α → κ) where
  sort : List α → List α
  perm : ∀ xs, (sort xs).Perm xs
  sorted : ∀ xs, (sort xs).Pairwise fun a b => key a ≤ key b

namespace SortByKey

variable {α κ : Type} [LinearOrder κ] {key : α → κ} {xs ys : List α}

theorem mem_sort (S : SortByKey key) {a : α} : a ∈ S.sort xs ↔ a ∈ xs := (S.perm xs).mem_iff

/-- The keys come out in the order of any sorted list of the same elements. -/
theorem map_key_sort_eq (S : SortByKey key) (h : xs.Perm ys) (hys : ys.Pairwise fun a b => key a ≤ key b) :
    (S.sort xs).map key = ys.map key := by
  apply List.Perm.eq_of_pairwise' (r := (· ≤ ·))
  · exact List.pairwise_map.mpr (S.sorted xs)
  · exact List.pairwise_map.mpr hys
  · exact ((S.perm xs).trans h).map key

/-- The keys come out in one order, whichever sort it is and whatever it starts from. -/
theorem map_key_sort (S S' : SortByKey key) (h : xs.Perm ys) : (S.sort xs).map key = (S'.sort ys).map key :=
  S.map_key_sort_eq (h.trans (S'.perm ys).symm) (S'.sorted ys)

/-- Elements that are their own keys come out in one order. -/
theorem sort_eq {xs ys : List κ} (S S' : SortByKey (id : κ → κ)) (h : xs.Perm ys) : S.sort xs = S'.sort ys := by
  have hkeys := S.map_key_sort S' h
  rwa [List.map_id, List.map_id] at hkeys

/-- There is such a sort. -/
def merge (key : α → κ) : SortByKey key where
  sort xs := xs.mergeSort fun a b => decide (key a ≤ key b)
  perm xs := List.mergeSort_perm xs _
  sorted xs := by
    refine (List.pairwise_mergeSort (fun a b c hab hbc => ?_) (fun a b => ?_) xs).imp of_decide_eq_true
    · rw [decide_eq_true_eq] at hab hbc ⊢
      exact hab.trans hbc
    · rw [Bool.or_eq_true, decide_eq_true_eq, decide_eq_true_eq]
      exact le_total _ _

end SortByKey
