import Mathlib.Tactic.Common

/-- The result of running a fallible call from a state: it returns a value,
returns an error, or aborts the program. Errors keep the state they leave
behind, because callers may carry on after handling them. -/
inductive Outcome (ε σ α : Type) where
  | ok (value : α) (state : σ)
  | err (error : ε) (state : σ)
  | abort

/-- The value returned, if any. -/
def Outcome.value? {ε σ α : Type} : Outcome ε σ α → Option α
  | .ok a _ => some a
  | .err _ _ | .abort => none

/-- The same outcome with another state left behind. -/
def Outcome.mapState {ε σ τ α : Type} (f : σ → τ) : Outcome ε σ α → Outcome ε τ α
  | .ok a s => .ok a (f s)
  | .err e s => .err e (f s)
  | .abort => .abort

/-- What a call returns to its caller: a value or an error, and nothing if the
program aborts. -/
def Outcome.answer? {ε σ α : Type} : Outcome ε σ α → Option (Except ε α)
  | .ok a _ => some (.ok a)
  | .err e _ => some (.error e)
  | .abort => none

theorem Outcome.answer?_mapState {ε σ τ α : Type} (f : σ → τ) (o : Outcome ε σ α) :
    (o.mapState f).answer? = o.answer? := by
  cases o <;> rfl

theorem Outcome.value?_eq {ε σ α : Type} (o : Outcome ε σ α) :
    o.value? = o.answer?.bind Except.toOption := by
  cases o <;> rfl

/-- A fallible call that threads a state. -/
def Exec (ε σ α : Type) : Type := σ → Outcome ε σ α

namespace Exec

variable {ε σ τ α β : Type}

instance : Monad (Exec ε σ) where
  pure a := fun s => .ok a s
  bind x f := fun s =>
    match x s with
    | .ok a t => f a t
    | .err e t => .err e t
    | .abort => .abort

/-- Read the whole state. -/
def get : Exec ε σ σ := fun s => .ok s s

/-- Update the state. -/
def modify (f : σ → σ) : Exec ε σ Unit := fun s => .ok () (f s)

/-- Return an error, leaving the state as it is. -/
def throw (e : ε) : Exec ε σ α := fun s => .err e s

/-- Abort the program. -/
def abort : Exec ε σ α := fun _ => .abort

/-- Rust's `ok_or` followed by `?`. -/
def ok_or (found : Option α) (e : ε) : Exec ε σ α :=
  match found with
  | some a => pure a
  | none => throw e

/-- A checked operation: without a result the program aborts. -/
def checked (found : Option α) : Exec ε σ α :=
  match found with
  | some a => pure a
  | none => abort

/-- A result that is handed on. -/
def ofExcept (result : Except ε α) : Exec ε σ α :=
  match result with
  | .ok a => pure a
  | .error e => throw e

/-- Run a call on a component of a larger state. -/
def zoom (view : σ → τ) (update : τ → σ → σ) (x : Exec ε τ α) : Exec ε σ α := fun s =>
  match x (view s) with
  | .ok a t => .ok a (update t s)
  | .err e t => .err e (update t s)
  | .abort => .abort

@[simp] theorem pure_apply (a : α) (s : σ) : (pure a : Exec ε σ α) s = .ok a s := rfl

@[simp] theorem get_apply (s : σ) : (get : Exec ε σ σ) s = .ok s s := rfl

@[simp] theorem modify_apply (f : σ → σ) (s : σ) : (modify f : Exec ε σ Unit) s = .ok () (f s) := rfl

@[simp] theorem throw_apply (e : ε) (s : σ) : (throw e : Exec ε σ α) s = .err e s := rfl

@[simp] theorem abort_apply (s : σ) : (abort : Exec ε σ α) s = .abort := rfl

@[simp] theorem ok_or_some (a : α) (e : ε) : (ok_or (some a) e : Exec ε σ α) = pure a := rfl

@[simp] theorem ok_or_none (e : ε) : (ok_or none e : Exec ε σ α) = throw e := rfl

@[simp] theorem checked_some (a : α) : (checked (some a) : Exec ε σ α) = pure a := rfl

@[simp] theorem checked_none : (checked none : Exec ε σ α) = abort := rfl

@[simp] theorem ofExcept_ok (a : α) : (ofExcept (.ok a) : Exec ε σ α) = pure a := rfl

@[simp] theorem ofExcept_error (e : ε) : (ofExcept (.error e) : Exec ε σ α) = throw e := rfl

theorem bind_apply (x : Exec ε σ α) (f : α → Exec ε σ β) (s : σ) :
    (x >>= f) s = match x s with
      | .ok a t => f a t
      | .err e t => .err e t
      | .abort => .abort := rfl

theorem bind_of_ok {x : Exec ε σ α} {f : α → Exec ε σ β} {s t : σ} {a : α}
    (hx : x s = .ok a t) : (x >>= f) s = f a t := by
  simp [bind_apply, hx]

theorem bind_of_err {x : Exec ε σ α} {f : α → Exec ε σ β} {s t : σ} {e : ε}
    (hx : x s = .err e t) : (x >>= f) s = .err e t := by
  simp [bind_apply, hx]

theorem bind_of_abort {x : Exec ε σ α} {f : α → Exec ε σ β} {s : σ} (hx : x s = .abort) :
    (x >>= f) s = .abort := by
  simp [bind_apply, hx]

/-- A sequence returns exactly when both halves do. -/
theorem bind_eq_ok_iff {x : Exec ε σ α} {f : α → Exec ε σ β} {s u : σ} {b : β} :
    (x >>= f) s = .ok b u ↔ ∃ a t, x s = .ok a t ∧ f a t = .ok b u := by
  cases hx : x s <;> simp [bind_apply, hx]

theorem bind_get (f : σ → Exec ε σ β) (s : σ) : (get >>= f) s = f s s := rfl

theorem bind_modify (g : σ → σ) (f : Unit → Exec ε σ β) (s : σ) :
    (modify g >>= f) s = f () (g s) := rfl

theorem bind_checked_of_some {found : Option α} {f : α → Exec ε σ β} {s : σ} {a : α}
    (h : found = some a) : (checked found >>= f) s = f a s := by
  rw [h]
  rfl

theorem bind_checked_eq_ok_iff {found : Option α} {f : α → Exec ε σ β} {s u : σ} {b : β} :
    (checked found >>= f) s = .ok b u ↔ ∃ a, found = some a ∧ f a s = .ok b u := by
  cases found <;> simp [bind_apply]

theorem bind_ok_or_eq_ok_iff {found : Option α} {e : ε} {f : α → Exec ε σ β} {s u : σ} {b : β} :
    (ok_or found e >>= f) s = .ok b u ↔ ∃ a, found = some a ∧ f a s = .ok b u := by
  cases found <;> simp [bind_apply]

theorem checked_eq_ok_iff {found : Option α} {s u : σ} {a : α} :
    (checked found : Exec ε σ α) s = .ok a u ↔ found = some a ∧ s = u := by
  cases found <;> simp

theorem ofExcept_eq_ok_iff {result : Except ε α} {s u : σ} {a : α} :
    (ofExcept result : Exec ε σ α) s = .ok a u ↔ result = .ok a ∧ s = u := by
  cases result <;> simp

theorem checked_ne_err {found : Option α} {s u : σ} {e : ε} :
    (checked found : Exec ε σ α) s ≠ .err e u := by
  cases found <;> simp

theorem bind_checked_eq_err_iff {found : Option α} {f : α → Exec ε σ β} {s u : σ} {e : ε} :
    (checked found >>= f) s = .err e u ↔ ∃ a, found = some a ∧ f a s = .err e u := by
  cases found <;> simp [bind_apply]

theorem bind_ok_or_of_some {found : Option α} {e : ε} {f : α → Exec ε σ β} {s : σ} {a : α}
    (h : found = some a) : (ok_or found e >>= f) s = f a s := by
  rw [h]
  rfl

theorem zoom_eq_ok_iff {view : σ → τ} {update : τ → σ → σ} {x : Exec ε τ α} {s u : σ} {a : α} :
    zoom view update x s = .ok a u ↔ ∃ t, x (view s) = .ok a t ∧ u = update t s := by
  unfold zoom
  cases x (view s) <;> simp [eq_comm]

theorem zoom_of_ok {view : σ → τ} {update : τ → σ → σ} {x : Exec ε τ α} {s : σ} {t : τ} {a : α}
    (h : x (view s) = .ok a t) : zoom view update x s = .ok a (update t s) := by
  rw [zoom, h]

theorem zoom_of_err {view : σ → τ} {update : τ → σ → σ} {x : Exec ε τ α} {s : σ} {t : τ} {e : ε}
    (h : x (view s) = .err e t) : zoom view update x s = .err e (update t s) := by
  rw [zoom, h]

theorem zoom_of_abort {view : σ → τ} {update : τ → σ → σ} {x : Exec ε τ α} {s : σ}
    (h : x (view s) = .abort) : zoom view update x s = .abort := by
  rw [zoom, h]

/-- A total specification: from states satisfying `P` the call never aborts,
a returned value satisfies `Q`, and a returned error satisfies `E`. -/
def Triple (P : σ → Prop) (x : Exec ε σ α) (Q : α → σ → Prop) (E : ε → σ → Prop) : Prop :=
  ∀ s, P s → match x s with
    | .ok a t => Q a t
    | .err e t => E e t
    | .abort => False

theorem Triple.pure {P : σ → Prop} {Q : α → σ → Prop} {E : ε → σ → Prop} {a : α}
    (h : ∀ s, P s → Q a s) : Triple P (Pure.pure a : Exec ε σ α) Q E := h

theorem Triple.throw {P : σ → Prop} {Q : α → σ → Prop} {E : ε → σ → Prop} {e : ε}
    (h : ∀ s, P s → E e s) : Triple P (Exec.throw e : Exec ε σ α) Q E := h

/-- Sequencing: the middle assertion of the first call is the precondition of
the second, and both report errors under the same assertion. -/
theorem Triple.bind {P : σ → Prop} {R : α → σ → Prop} {Q : β → σ → Prop} {E : ε → σ → Prop}
    {x : Exec ε σ α} {f : α → Exec ε σ β}
    (hx : Triple P x R E) (hf : ∀ a, Triple (R a) (f a) Q E) : Triple P (x >>= f) Q E := by
  intro s hs
  have hfirst := hx s hs
  cases h : x s with
  | ok a t =>
    rw [h] at hfirst
    rw [bind_of_ok h]
    exact hf a t hfirst
  | err e t =>
    rw [h] at hfirst
    rw [bind_of_err h]
    exact hfirst
  | abort =>
    rw [h] at hfirst
    exact hfirst.elim

/-- Reading the state fixes it for the rest of the call. -/
theorem Triple.bind_get {P : σ → Prop} {Q : β → σ → Prop} {E : ε → σ → Prop}
    {f : σ → Exec ε σ β} (h : ∀ s, P s → Triple (fun t => t = s) (f s) Q E) :
    Triple P (get >>= f) Q E :=
  fun s hs => h s hs s rfl

theorem Triple.bind_modify {s : σ} {g : σ → σ} {Q : β → σ → Prop} {E : ε → σ → Prop}
    {f : Unit → Exec ε σ β} (h : Triple (fun t => t = g s) (f ()) Q E) :
    Triple (fun t => t = s) (modify g >>= f) Q E := by
  rintro t rfl
  exact h _ rfl

theorem Triple.bind_checked {P : σ → Prop} {Q : β → σ → Prop} {E : ε → σ → Prop}
    {found : Option α} {a : α} {f : α → Exec ε σ β} (hfound : found = some a)
    (h : Triple P (f a) Q E) : Triple P (checked found >>= f) Q E := by
  subst hfound
  exact h

theorem Triple.bind_ok_or {P : σ → Prop} {Q : β → σ → Prop} {E : ε → σ → Prop}
    {found : Option α} {e : ε} {f : α → Exec ε σ β} (herr : ∀ s, P s → E e s)
    (h : ∀ a, found = some a → Triple P (f a) Q E) : Triple P (ok_or found e >>= f) Q E := by
  cases found with
  | none => exact herr
  | some a => exact h a rfl

/-- From states satisfying `P` the call leaves a state satisfying `P`, unless it
aborts. -/
def Preserves (P : σ → Prop) (x : Exec ε σ α) : Prop :=
  ∀ s, P s → match x s with
    | .ok _ t => P t
    | .err _ t => P t
    | .abort => True

theorem Triple.preserves {P : σ → Prop} {x : Exec ε σ α}
    (h : Triple P x (fun _ => P) (fun _ => P)) : Preserves P x := by
  intro s hs
  have hrun := h s hs
  cases hx : x s with
  | ok a t =>
    rw [hx] at hrun
    exact hrun
  | err e t =>
    rw [hx] at hrun
    exact hrun
  | abort => trivial

theorem Preserves.pure {P : σ → Prop} (a : α) : Preserves P (Pure.pure a : Exec ε σ α) :=
  fun _ hs => hs

theorem Preserves.throw {P : σ → Prop} (e : ε) : Preserves P (Exec.throw e : Exec ε σ α) :=
  fun _ hs => hs

theorem Preserves.checked {P : σ → Prop} (found : Option α) :
    Preserves P (Exec.checked found : Exec ε σ α) := by
  cases found with
  | none => exact fun _ _ => trivial
  | some a => exact .pure a

theorem Preserves.bind {P : σ → Prop} {x : Exec ε σ α} {f : α → Exec ε σ β}
    (hx : Preserves P x) (hf : ∀ a, Preserves P (f a)) : Preserves P (x >>= f) := by
  intro s hs
  have hfirst := hx s hs
  cases h : x s with
  | ok a t =>
    rw [h] at hfirst
    rw [bind_of_ok h]
    exact hf a t hfirst
  | err e t =>
    rw [h] at hfirst
    rw [bind_of_err h]
    exact hfirst
  | abort =>
    rw [bind_apply, h]
    trivial

/-- A call on a component preserves what holds of the whole when it preserves
what that says about the component. -/
theorem Preserves.zoom {P : σ → Prop} {Q : τ → Prop} {view : σ → τ} {update : τ → σ → σ}
    {x : Exec ε τ α} (hview : ∀ s, P s → Q (view s)) (hupdate : ∀ t s, P s → Q t → P (update t s))
    (hx : Preserves Q x) : Preserves P (Exec.zoom view update x) := by
  intro s hs
  have hinner := hx (view s) (hview s hs)
  unfold Exec.zoom
  cases h : x (view s) with
  | ok a t =>
    rw [h] at hinner
    exact hupdate t s hs hinner
  | err e t =>
    rw [h] at hinner
    exact hupdate t s hs hinner
  | abort => trivial

/-- A sequence fails when its first half does, or else when the second half does
from where the first one stopped. -/
theorem bind_eq_err_iff {x : Exec ε σ α} {f : α → Exec ε σ β} {s u : σ} {e : ε} :
    (x >>= f) s = .err e u ↔ x s = .err e u ∨ ∃ a t, x s = .ok a t ∧ f a t = .err e u := by
  cases hx : x s <;> simp [bind_apply, hx]

/-- A failure leaves what `obs` sees of the state as it was before the call. -/
def FailsUnchanged (obs : σ → τ) (x : Exec ε σ α) : Prop :=
  ∀ s e t, x s = .err e t → obs t = obs s

section FailsUnchanged

variable {obs : σ → τ}

theorem FailsUnchanged.pure (a : α) : FailsUnchanged obs (Pure.pure a : Exec ε σ α) := nofun

theorem FailsUnchanged.modify (f : σ → σ) : FailsUnchanged obs (Exec.modify f : Exec ε σ Unit) := nofun

theorem FailsUnchanged.throw (e : ε) : FailsUnchanged obs (Exec.throw e : Exec ε σ α) := by
  intro s e' t h
  cases h
  rfl

/-- Up to a call that may change the state, nothing but reading it may happen. -/
theorem FailsUnchanged.bind_get {f : σ → Exec ε σ β} (hf : ∀ s, FailsUnchanged obs (f s)) :
    FailsUnchanged obs (get >>= f) :=
  fun s e t h => hf s s e t h

theorem FailsUnchanged.bind_checked {found : Option α} {f : α → Exec ε σ β}
    (hf : ∀ a, found = some a → FailsUnchanged obs (f a)) :
    FailsUnchanged obs (checked found >>= f) := by
  cases found with
  | none => exact nofun
  | some a => exact hf a rfl

theorem FailsUnchanged.bind_ok_or {found : Option α} {e : ε} {f : α → Exec ε σ β}
    (hf : ∀ a, found = some a → FailsUnchanged obs (f a)) :
    FailsUnchanged obs (ok_or found e >>= f) := by
  cases found with
  | none => exact .throw e
  | some a => exact hf a rfl

/-- A first call that `obs` does not notice may be followed by others. -/
theorem FailsUnchanged.bind {x : Exec ε σ α} {f : α → Exec ε σ β}
    (hx : FailsUnchanged obs x) (hkeep : ∀ s a t, x s = .ok a t → obs t = obs s)
    (hf : ∀ a, FailsUnchanged obs (f a)) : FailsUnchanged obs (x >>= f) := by
  intro s e u h
  rcases bind_eq_err_iff.mp h with hfirst | ⟨a, t, hfirst, hsecond⟩
  · exact hx s e u hfirst
  · exact (hf a t e u hsecond).trans (hkeep s a t hfirst)

/-- What cannot fail may stand at the end, whatever it changes. -/
theorem FailsUnchanged.of_never {x : Exec ε σ α} (h : ∀ s e t, x s ≠ .err e t) : FailsUnchanged obs x :=
  fun s e t hx => (h s e t hx).elim

end FailsUnchanged

/-- Two runs that end alike, in states that are related. -/
inductive Agree (R : σ → σ → Prop) : Outcome ε σ α → Outcome ε σ α → Prop where
  | ok (a : α) {s s' : σ} (h : R s s') : Agree R (.ok a s) (.ok a s')
  | err (e : ε) {s s' : σ} (h : R s s') : Agree R (.err e s) (.err e s')
  | abort : Agree R .abort .abort

/-- From states that are related a call ends alike, in states that are related. -/
def Congruent (R : σ → σ → Prop) (x : Exec ε σ α) : Prop := ∀ s s', R s s' → Agree R (x s) (x s')

section Congruent

variable {R : σ → σ → Prop}

theorem Congruent.pure (a : α) : Congruent R (Pure.pure a : Exec ε σ α) := fun _ _ h => .ok a h

theorem Congruent.throw (e : ε) : Congruent R (Exec.throw e : Exec ε σ α) := fun _ _ h => .err e h

theorem Congruent.modify {f : σ → σ} (hf : ∀ s s', R s s' → R (f s) (f s')) :
    Congruent R (Exec.modify f : Exec ε σ Unit) :=
  fun s s' h => .ok () (hf s s' h)

theorem Congruent.checked (found : Option α) : Congruent R (Exec.checked found : Exec ε σ α) := by
  cases found with
  | none => exact fun _ _ _ => .abort
  | some a => exact .pure a

theorem Congruent.ok_or (found : Option α) (e : ε) : Congruent R (Exec.ok_or found e : Exec ε σ α) := by
  cases found with
  | none => exact .throw e
  | some a => exact .pure a

/-- The state may be read for what is the same in related states. -/
theorem Congruent.bind_get {f : σ → Exec ε σ β} (hsame : ∀ s s', R s s' → f s = f s')
    (hf : ∀ s, Congruent R (f s)) : Congruent R (get >>= f) := by
  intro s s' h
  rw [Exec.bind_get, Exec.bind_get, hsame s s' h]
  exact hf s' s s' h

theorem Congruent.bind {x : Exec ε σ α} {f : α → Exec ε σ β} (hx : Congruent R x)
    (hf : ∀ a, Congruent R (f a)) : Congruent R (x >>= f) := by
  intro s s' h
  have hfirst := hx s s' h
  rw [bind_apply, bind_apply]
  generalize x s = o at hfirst
  generalize x s' = o' at hfirst
  cases hfirst with
  | ok a h => exact hf a _ _ h
  | err e h => exact .err e h
  | abort => exact .abort

/-- A call on a component, where the states are related if their components are. -/
theorem Congruent.zoom {S : τ → τ → Prop} {view : σ → τ} {update : τ → σ → σ} {x : Exec ε τ α}
    (hx : Congruent S x) (hview : ∀ s s', R s s' → S (view s) (view s'))
    (hupdate : ∀ s s' t t', R s s' → S t t' → R (update t s) (update t' s')) :
    Congruent R (Exec.zoom view update x) := by
  intro s s' h
  have hinner := hx _ _ (hview s s' h)
  unfold Exec.zoom
  generalize x (view s) = o at hinner
  generalize x (view s') = o' at hinner
  cases hinner with
  | ok a ht => exact .ok a (hupdate s s' _ _ h ht)
  | err e ht => exact .err e (hupdate s s' _ _ h ht)
  | abort => exact .abort

end Congruent

/-- The errors of a call are all of a kind. -/
def Throws (P : ε → Prop) (x : Exec ε σ α) : Prop := ∀ s e t, x s = .err e t → P e

section Throws

variable {P : ε → Prop}

theorem Throws.pure (a : α) : Throws P (Pure.pure a : Exec ε σ α) := nofun

theorem Throws.modify (f : σ → σ) : Throws P (Exec.modify f : Exec ε σ Unit) := nofun

theorem Throws.get : Throws P (get : Exec ε σ σ) := nofun

theorem Throws.throw {e : ε} (h : P e) : Throws P (Exec.throw e : Exec ε σ α) := by
  intro s e' t hrun
  cases hrun
  exact h

theorem Throws.checked (found : Option α) : Throws P (Exec.checked found : Exec ε σ α) :=
  fun _ _ _ h => (checked_ne_err h).elim

theorem Throws.ok_or (found : Option α) {e : ε} (h : P e) : Throws P (Exec.ok_or found e : Exec ε σ α) := by
  cases found with
  | none => exact .throw h
  | some a => exact .pure a

theorem Throws.bind {x : Exec ε σ α} {f : α → Exec ε σ β} (hx : Throws P x) (hf : ∀ a, Throws P (f a)) :
    Throws P (x >>= f) := by
  intro s e u h
  rcases bind_eq_err_iff.mp h with hfirst | ⟨a, t, _, hsecond⟩
  · exact hx s e u hfirst
  · exact hf a t e u hsecond

theorem Throws.zoom {view : σ → τ} {update : τ → σ → σ} {x : Exec ε τ α} (hx : Throws P x) :
    Throws P (Exec.zoom view update x) := by
  intro s e u h
  unfold Exec.zoom at h
  cases hrun : x (view s) with
  | ok a t =>
    rw [hrun] at h
    cases h
  | err e' t =>
    rw [hrun] at h
    cases h
    exact hx _ _ _ hrun
  | abort =>
    rw [hrun] at h
    cases h

end Throws

end Exec
