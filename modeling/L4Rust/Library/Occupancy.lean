import Mathlib.Data.List.Nodup
import Mathlib.Logic.Function.Basic
import Mathlib.Tactic.Common

/-- Which elements are at which place. -/
abbrev Occupancy (π α : Type) : Type := π → List α

namespace Occupancy

variable {π α : Type} [DecidableEq α] {occ occ' : Occupancy π α} {p : π} {a b : α}

/-- The element is at one place only, and there only once. -/
def Once (occ : Occupancy π α) (a : α) : Prop := ∃ p, (occ p).count a = 1 ∧ ∀ q, q ≠ p → a ∉ occ q

def Somewhere (occ : Occupancy π α) (a : α) : Prop := ∃ p, a ∈ occ p

/-- The same elements are at the same places. -/
def Same (occ occ' : Occupancy π α) : Prop := ∀ q b, (occ' q).count b = (occ q).count b

theorem Same.of_perm (h : ∀ q, (occ' q).Perm (occ q)) : Same occ occ' :=
  fun q b => (h q).count_eq b

theorem once_congr (h : ∀ q, (occ' q).count a = (occ q).count a) : Once occ' a ↔ Once occ a := by
  unfold Once
  simp only [← List.count_eq_zero, h]

theorem somewhere_congr (h : ∀ q, (occ' q).count a = (occ q).count a) :
    Somewhere occ' a ↔ Somewhere occ a := by
  unfold Somewhere
  simp only [← List.count_pos_iff, h]

variable [DecidableEq π]

/-- One more element has come to a place. -/
def Added (occ : Occupancy π α) (p : π) (a : α) (occ' : Occupancy π α) : Prop :=
  ∀ q b, (occ' q).count b = (occ q).count b + if q = p ∧ b = a then 1 else 0

/-- An element has gone from one place to another. -/
def Moved (occ : Occupancy π α) (p q : π) (a : α) (occ' : Occupancy π α) : Prop :=
  ∃ mid, Added mid p a occ ∧ Added mid q a occ'

theorem Added.of_perm (hp : (occ' p).Perm (a :: occ p))
    (hothers : ∀ q, q ≠ p → (occ' q).Perm (occ q)) : Added occ p a occ' := by
  intro q b
  by_cases hq : q = p
  · subst hq
    rw [hp.count_eq, List.count_cons]
    simp only [true_and, beq_iff_eq, @eq_comm _ a b]
  · rw [(hothers q hq).count_eq, if_neg fun hboth => hq hboth.1, Nat.add_zero]

theorem Moved.of_perm {q : π} (hpq : p ≠ q) (hp : (occ p).Perm (a :: occ' p))
    (hq : (occ' q).Perm (a :: occ q)) (hothers : ∀ r, r ≠ p → r ≠ q → occ' r = occ r) :
    Moved occ p q a occ' := by
  refine ⟨Function.update occ p (occ' p), .of_perm ?_ ?_, .of_perm ?_ ?_⟩
  · rw [Function.update_self]
    exact hp
  · intro r hr
    rw [Function.update_of_ne hr]
  · rw [Function.update_of_ne hpq.symm]
    exact hq
  · intro r hr
    by_cases hrp : r = p
    · rw [hrp, Function.update_self]
    · rw [Function.update_of_ne hrp, hothers r hrp hr]

theorem Moved.symm {q : π} (h : Moved occ p q a occ') : Moved occ' q p a occ := by
  obtain ⟨mid, hbefore, hafter⟩ := h
  exact ⟨mid, hafter, hbefore⟩

theorem Added.count_of_ne (h : Added occ p a occ') (hb : b ≠ a) (q : π) :
    (occ' q).count b = (occ q).count b := by
  rw [h, if_neg fun hboth => hb hboth.2, Nat.add_zero]

theorem Added.once_of_ne (h : Added occ p a occ') (hb : b ≠ a) : Once occ' b ↔ Once occ b :=
  once_congr (h.count_of_ne hb)

theorem Added.mem (h : Added occ p a occ') : a ∈ occ' p := by
  rw [← List.count_pos_iff, h, if_pos ⟨rfl, rfl⟩]
  exact Nat.succ_pos _

theorem Added.somewhere_iff (h : Added occ p a occ') :
    Somewhere occ' b ↔ b = a ∨ Somewhere occ b := by
  by_cases hb : b = a
  · subst hb
    exact iff_of_true ⟨p, h.mem⟩ (Or.inl rfl)
  · rw [somewhere_congr (h.count_of_ne hb)]
    exact (or_iff_right hb).symm

/-- A newcomer occurs once exactly when it was nowhere before. -/
theorem Added.once_iff (h : Added occ p a occ') : Once occ' a ↔ ¬ Somewhere occ a := by
  constructor
  · rintro ⟨r, hr, hothers⟩ ⟨q, hq⟩
    have hrp : r = p := by
      by_contra hne
      exact hothers p (Ne.symm hne) h.mem
    subst hrp
    by_cases hqr : q = r
    · subst hqr
      rw [h, if_pos ⟨rfl, rfl⟩] at hr
      have hpos := List.count_pos_iff.mpr hq
      omega
    · apply hothers q hqr
      rw [← List.count_pos_iff, h, if_neg fun hboth => hqr hboth.1]
      exact List.count_pos_iff.mpr hq
  · intro hnowhere
    have hzero (q : π) : (occ q).count a = 0 := by
      rw [List.count_eq_zero]
      exact fun hq => hnowhere ⟨q, hq⟩
    refine ⟨p, ?_, ?_⟩
    · rw [h, hzero, if_pos ⟨rfl, rfl⟩]
    · intro q hq
      rw [← List.count_eq_zero, h, hzero, if_neg fun hboth => hq hboth.1]

theorem Moved.somewhere_iff {q : π} (h : Moved occ p q a occ') : Somewhere occ' b ↔ Somewhere occ b := by
  obtain ⟨mid, hbefore, hafter⟩ := h
  rw [hafter.somewhere_iff, hbefore.somewhere_iff]

theorem Moved.once_iff {q : π} (h : Moved occ p q a occ') : Once occ' b ↔ Once occ b := by
  obtain ⟨mid, hbefore, hafter⟩ := h
  by_cases hb : b = a
  · subst hb
    rw [hafter.once_iff, hbefore.once_iff]
  · rw [hafter.once_of_ne hb, hbefore.once_of_ne hb]

/-- Whatever is somewhere is there only once, and is in use. -/
def Exclusive (used : α → Prop) (occ : Occupancy π α) : Prop :=
  ∀ a, Somewhere occ a → Once occ a ∧ used a

section Exclusive

variable {used used' : α → Prop}

omit [DecidableEq π] in
theorem Exclusive.same (h : Exclusive used occ) (hsame : Same occ occ') : Exclusive used occ' := by
  intro b hb
  rw [somewhere_congr fun q => hsame q b] at hb
  rw [once_congr fun q => hsame q b]
  exact h b hb

omit [DecidableEq π] in
theorem Exclusive.nodup (h : Exclusive used occ) (p : π) : (occ p).Nodup := by
  rw [List.nodup_iff_count_eq_one]
  intro b hb
  obtain ⟨q, hcount, hothers⟩ := (h b ⟨p, hb⟩).1
  have hp : p = q := by
    by_contra hne
    exact hothers p hne hb
  rw [hp, hcount]

theorem Exclusive.moved {q : π} (h : Exclusive used occ) (hmoved : Moved occ p q a occ') :
    Exclusive used occ' := by
  intro b hb
  rw [hmoved.somewhere_iff] at hb
  rw [hmoved.once_iff]
  exact h b hb

/-- What was not in use can come to a place. -/
theorem Exclusive.added (h : Exclusive used occ) (hadded : Added occ p a occ') (hunused : ¬ used a)
    (hkeep : ∀ b, used b → used' b) (hnew : used' a) : Exclusive used' occ' := by
  intro b hb
  by_cases hba : b = a
  · subst hba
    exact ⟨hadded.once_iff.mpr fun hsome => hunused (h b hsome).2, hnew⟩
  · rw [hadded.somewhere_iff, or_iff_right hba] at hb
    rw [hadded.once_of_ne hba]
    exact ⟨(h b hb).1, hkeep b (h b hb).2⟩

/-- What goes from its place need not be in use any more. -/
theorem Exclusive.removed (h : Exclusive used occ) (hadded : Added occ' p a occ)
    (hkeep : ∀ b, b ≠ a → used b → used' b) : Exclusive used' occ' := by
  have hgone : ¬ Somewhere occ' a := hadded.once_iff.mp (h a ⟨p, hadded.mem⟩).1
  intro b hb
  have hba : b ≠ a := by
    rintro rfl
    exact hgone hb
  obtain ⟨honce, hused⟩ := h b (hadded.somewhere_iff.mpr (Or.inr hb))
  exact ⟨(hadded.once_of_ne hba).mp honce, hkeep b hba hused⟩

end Exclusive

theorem Once.unique (h : Once occ a) {q : π} (hp : a ∈ occ p) (hq : a ∈ occ q) : p = q := by
  obtain ⟨r, _, hothers⟩ := h
  have honly (q : π) (hq : a ∈ occ q) : q = r := by
    by_contra hne
    exact hothers q hne hq
  rw [honly p hp, honly q hq]

end Occupancy
