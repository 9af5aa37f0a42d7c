import L4Rust.Library.Machine
import Mathlib.Logic.Function.Basic

/-! Clients whose requests are executed one at a time. -/

namespace Service

variable {κ ρ α σ : Type}

/-- Where the request of a client is. -/
inductive Phase (ρ α : Type) where
  | idle
  | requested (req : ρ)
  | executed (answer : α)

/-- What the requests work on, where those of the clients are, and the answers that the clients got. -/
structure State (κ ρ α σ : Type) where
  service : σ
  phase : κ → Phase ρ α
  answers : List (κ × α)

/-- A client gives a request up with an answer of its own, whether or not it has been executed. What is
executed for nobody has no answer. -/
inductive Event (κ ρ α : Type) where
  | request (c : κ) (req : ρ)
  | execute (c : κ)
  | answer (c : κ)
  | abandon (c : κ) (answer : α)
  | intrude (req : ρ)

variable [DecidableEq κ]

def State.enter (s : State κ ρ α σ) (c : κ) (phase : Phase ρ α) : State κ ρ α σ :=
  { s with phase := Function.update s.phase c phase }

def Event.run (exec : σ → ρ → Option (α × σ)) (s : State κ ρ α σ) : Event κ ρ α → Option (State κ ρ α σ)
  | .request c req =>
    match s.phase c with
    | .idle => some (s.enter c (.requested req))
    | .requested _ | .executed _ => none
  | .execute c =>
    match s.phase c with
    | .requested req => do
      let (a, service) ← exec s.service req
      pure { s.enter c (.executed a) with service := service }
    | .idle | .executed _ => none
  | .answer c =>
    match s.phase c with
    | .executed a => some { s.enter c .idle with answers := s.answers ++ [(c, a)] }
    | .idle | .requested _ => none
  | .abandon c a =>
    match s.phase c with
    | .requested _ | .executed _ => some { s.enter c .idle with answers := s.answers ++ [(c, a)] }
    | .idle => none
  | .intrude req => do
    let (_, service) ← exec s.service req
    pure { s with service := service }

/-- A service that starts in a given state. -/
def service (exec : σ → ρ → Option (α × σ)) (start : σ) : Machine (State κ ρ α σ) (Event κ ρ α) where
  init s := s = ⟨start, fun _ => .idle, []⟩
  allowed _ _ := True
  step := Event.run exec

end Service
