import Mathlib.Logic.Relation
import Mathlib.Order.Preorder.Finite

open Relation

/-! Chains of a relation that can only go on inside a finite set. -/

namespace Chains

variable {α : Type} {R : α → α → Prop} {W T : α → Prop} {w : α} {f : α → α}

theorem transGen_iterate (hstep : ∀ n, R (f^[n] w) (f^[n + 1] w)) {i j : Nat} (hij : i < j) :
    TransGen R (f^[i] w) (f^[j] w) := by
  induction j, hij using Nat.le_induction with
  | base => exact .single (hstep i)
  | succ j _ ih => exact ih.tail (hstep j)

/-- A chain goes on until it leaves the set, or comes back to where it was. -/
theorem ends_or_cycles (hfinite : {a | W a}.Finite) (hnext : ∀ a, W a → ∃ b, R a b ∧ (T b ∨ W b)) (hw : W w) :
    ∃ b, TransGen R w b ∧ (T b ∨ TransGen R b b) := by
  by_contra hnone
  push Not at hnone
  choose! f hf using hnext
  have hchain (n : Nat) : W (f^[n] w) ∧ TransGen R w (f^[n + 1] w) := by
    induction n with
    | zero => exact ⟨hw, .single (hf w hw).1⟩
    | succ n ih =>
      have hstays : W (f^[n + 1] w) := by
        have hlast := (hf _ ih.1).2
        rw [← Function.iterate_succ_apply' f] at hlast
        exact hlast.resolve_left (hnone _ ih.2).1
      refine ⟨hstays, ih.2.tail ?_⟩
      rw [Function.iterate_succ_apply' f (n + 1)]
      exact (hf _ hstays).1
  have hstep (n : Nat) : R (f^[n] w) (f^[n + 1] w) := by
    rw [Function.iterate_succ_apply' f n]
    exact (hf _ (hchain n).1).1
  obtain ⟨i, j, hij, heq⟩ := Set.Finite.exists_lt_map_eq_of_forall_mem (f := fun n => f^[n] w)
    (fun n => (hchain n).1) hfinite
  have hcycle := transGen_iterate hstep hij
  have hreach := transGen_iterate hstep (Nat.zero_lt_of_lt hij)
  rw [heq] at hcycle
  exact (hnone _ hreach).2 hcycle

end Chains
