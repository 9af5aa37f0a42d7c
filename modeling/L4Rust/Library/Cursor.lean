import L4Rust.Library.Alignment
import L4Rust.Library.Exec
import L4Rust.Library.Memory

/-- A state with a read and write position in a memory. -/
class HasCursor (σ : Type) where
  mem : σ → Memory
  offset : σ → Nat

namespace Cursor

open HasCursor

variable {ε σ τ α ι : Type}

/-- Run calls one after the other. -/
def runAll : List (Exec ε σ Unit) → Exec ε σ Unit
  | [] => pure ()
  | x :: xs => do
    x
    runAll xs

/-- Run calls one after the other and collect what they return. -/
def collect : List (Exec ε σ α) → Exec ε σ (List α)
  | [] => pure []
  | x :: xs => do
    let a ← x
    let rest ← collect xs
    pure (a :: rest)

theorem runAll_append (xs ys : List (Exec ε σ Unit)) (s : σ) :
    runAll (xs ++ ys) s = (runAll xs >>= fun _ => runAll ys) s := by
  induction xs generalizing s with
  | nil => rfl
  | cons x xs ih =>
    rw [List.cons_append, runAll, runAll, Exec.bind_apply, Exec.bind_apply, Exec.bind_apply]
    cases x s with
    | ok a t => exact ih t
    | err e t => rfl
    | abort => rfl

/-- Collecting from a sequence in two halves. -/
theorem collect_append_eq_ok_iff {xs ys : List (Exec ε σ α)} {s u : σ} {as : List α} :
    collect (xs ++ ys) s = .ok as u ↔
      ∃ front back t, collect xs s = .ok front t ∧ collect ys t = .ok back u ∧ as = front ++ back := by
  induction xs generalizing s as with
  | nil =>
    constructor
    · intro h
      exact ⟨[], as, s, rfl, h, rfl⟩
    · rintro ⟨front, back, t, hfront, hback, rfl⟩
      cases hfront
      exact hback
  | cons x xs ih =>
    constructor
    · intro h
      obtain ⟨a, mid, ha, h⟩ := Exec.bind_eq_ok_iff.mp h
      obtain ⟨rest, last, hrest, hpure⟩ := Exec.bind_eq_ok_iff.mp h
      cases hpure
      obtain ⟨front, back, t, hfront, hback, rfl⟩ := ih.mp hrest
      refine ⟨a :: front, back, t, ?_, hback, rfl⟩
      rw [collect, Exec.bind_of_ok ha, Exec.bind_of_ok hfront, Exec.pure_apply]
    · rintro ⟨front, back, t, hfront, hback, rfl⟩
      obtain ⟨a, mid, ha, hfront⟩ := Exec.bind_eq_ok_iff.mp hfront
      obtain ⟨rest, last, hrest, hpure⟩ := Exec.bind_eq_ok_iff.mp hfront
      cases hpure
      have hboth := ih.mpr ⟨rest, back, t, hrest, hback, rfl⟩
      rw [List.cons_append, collect, Exec.bind_of_ok ha, Exec.bind_of_ok hboth, Exec.pure_apply,
        List.cons_append]

variable [HasCursor σ] [HasCursor τ]

/-- A successful write moves the position forward and leaves the bytes before
it alone. -/
def Appends (w : Exec ε σ Unit) : Prop :=
  ∀ s t, w s = .ok () t → offset s ≤ offset t ∧ Memory.AgreeOn 0 (offset s) (mem t) (mem s)

/-- Whatever a successful write put between its two positions, the read finds
again from the first position in every memory that still holds those bytes,
and it stops at the second one. -/
def ReadsBack (w : Exec ε σ Unit) (r : Exec ε τ α) (v : α) : Prop :=
  ∀ s t, w s = .ok () t → ∀ s', offset s' = offset s →
    Memory.AgreeOn (offset s) (offset t) (mem s') (mem t) →
    ∃ t', r s' = .ok v t' ∧ offset t' = offset t ∧ mem t' = mem s'

/-- As `ReadsBack`, but the reader may start at any position that rounds up to
the same multiple of `a` as the writer's. -/
def ReadsBackFrom (a : Nat) (w : Exec ε σ Unit) (r : Exec ε τ α) (v : α) : Prop :=
  ∀ s t, w s = .ok () t → ∀ s', roundUp a (offset s') = roundUp a (offset s) →
    Memory.AgreeOn (offset s) (offset t) (mem s') (mem t) →
    ∃ t', r s' = .ok v t' ∧ offset t' = offset t ∧ mem t' = mem s'

theorem ReadsBackFrom.readsBack {a : Nat} {w : Exec ε σ Unit} {r : Exec ε τ α} {v : α}
    (h : ReadsBackFrom a w r v) : ReadsBack w r v := by
  intro s t hw s' hoff hmem
  exact h s t hw s' (by rw [hoff]) hmem

theorem Appends.pure : Appends (pure () : Exec ε σ Unit) := by
  intro s t h
  cases h
  exact ⟨le_rfl, .refl _ _ _⟩

theorem Appends.seq {x y : Exec ε σ Unit} (hx : Appends x) (hy : Appends y) :
    Appends (do x; y) := by
  intro s u h
  obtain ⟨_, t, hfirst, hsecond⟩ := Exec.bind_eq_ok_iff.mp h
  obtain ⟨hst, hmem⟩ := hx s t hfirst
  obtain ⟨htu, hmem'⟩ := hy t u hsecond
  exact ⟨hst.trans htu, (hmem'.mono le_rfl hst).trans hmem⟩

/-- Only the first of two reads depends on where the reader starts. -/
theorem ReadsBackFrom.seq {a : Nat} {x y : Exec ε σ Unit} {r : Exec ε τ α} {q : Exec ε τ ι}
    {v : α} {u : ι} (hx : Appends x) (hy : Appends y) (hr : ReadsBackFrom a x r v)
    (hq : ReadsBack y q u) :
    ReadsBackFrom a (do x; y) (do let a ← r; let b ← q; pure (a, b)) (v, u) := by
  intro s₀ s₂ h s' hoff hmem
  obtain ⟨_, s₁, hfirst, hsecond⟩ := Exec.bind_eq_ok_iff.mp h
  obtain ⟨h01, _⟩ := hx s₀ s₁ hfirst
  obtain ⟨h12, hkeep⟩ := hy s₁ s₂ hsecond
  obtain ⟨t, ht, htoff, htmem⟩ := hr s₀ s₁ hfirst s' hoff
    ((hmem.mono le_rfl h12).trans (hkeep.mono (Nat.zero_le _) le_rfl))
  obtain ⟨t', ht', htoff', htmem'⟩ := hq s₁ s₂ hsecond t htoff
    (by rw [htmem]; exact hmem.mono h01 le_rfl)
  refine ⟨t', ?_, htoff', htmem'.trans htmem⟩
  rw [Exec.bind_of_ok ht, Exec.bind_of_ok ht', Exec.pure_apply]

theorem Appends.runAll {items : List ι} {w : ι → Exec ε σ Unit}
    (hw : ∀ i ∈ items, Appends (w i)) : Appends (runAll (items.map w)) := by
  induction items with
  | nil => exact .pure
  | cons i items ih =>
    exact .seq (hw i (by simp)) (ih fun j hj => hw j (by simp [hj]))

/-- A sequence of writes reads back in order when its first one and its rest do. -/
theorem ReadsBackFrom.cons {a : Nat} {x : Exec ε σ Unit} {xs : List (Exec ε σ Unit)}
    {r : Exec ε τ α} {rs : List (Exec ε τ α)} {v : α} {vs : List α} (hx : Appends x)
    (hxs : Appends (Cursor.runAll xs)) (hr : ReadsBackFrom a x r v)
    (hrs : ReadsBack (Cursor.runAll xs) (collect rs) vs) :
    ReadsBackFrom a (Cursor.runAll (x :: xs)) (collect (r :: rs)) (v :: vs) := by
  intro s u h s' hoff hmem
  obtain ⟨t', hrun, hrest⟩ := ReadsBackFrom.seq hx hxs hr hrs s u h s' hoff hmem
  refine ⟨t', ?_, hrest⟩
  obtain ⟨b, t, hb, hrun⟩ := Exec.bind_eq_ok_iff.mp hrun
  obtain ⟨bs, t'', hbs, hpair⟩ := Exec.bind_eq_ok_iff.mp hrun
  cases hpair
  rw [collect, Exec.bind_of_ok hb, Exec.bind_of_ok hbs, Exec.pure_apply]

theorem ReadsBack.from_one {w : Exec ε σ Unit} {r : Exec ε τ α} {v : α} (h : ReadsBack w r v) :
    ReadsBackFrom 1 w r v := by
  intro s t hw s' hoff hmem
  have hsame : offset s' = offset s := by simpa [roundUp] using hoff
  exact h s t hw s' hsame hmem

/-- A whole sequence of writes reads back in order. -/
theorem ReadsBack.runAll {items : List ι} {w : ι → Exec ε σ Unit} {r : ι → Exec ε τ α} {v : ι → α}
    (hw : ∀ i ∈ items, Appends (w i)) (hr : ∀ i ∈ items, ReadsBack (w i) (r i) (v i)) :
    ReadsBack (runAll (items.map w)) (collect (items.map r)) (items.map v) := by
  induction items with
  | nil =>
    intro s t h s' hoff _
    cases h
    exact ⟨s', rfl, hoff, rfl⟩
  | cons i items ih =>
    have htail := ih (fun j hj => hw j (by simp [hj])) (fun j hj => hr j (by simp [hj]))
    have happ : Appends (Cursor.runAll (items.map w)) := .runAll fun j hj => hw j (by simp [hj])
    exact (ReadsBackFrom.cons (hw i (by simp)) happ (hr i (by simp)).from_one htail).readsBack

end Cursor
