import Mathlib
import L4Rust.Library.History
import L4Rust.Library.Machine

namespace linux_shims

variable {φ : Type}

/-- A callback that has not returned: that of an initialisation, by number, or an exit handler. -/
inductive Running where
  | init (n : Nat)
  | exit
  deriving DecidableEq, Repr

/-- What has happened, which the code does not record: a `module_init` that took effect, the failure
of its callback, a `module_exit` that took effect with the initialisations that were running, and a
`module_shutdown` with the handler that it invoked. -/
inductive Event (φ : Type) where
  | init (n : Nat)
  | failed (n : Nat)
  | exit (handler : φ) (during : List Nat)
  | shutdown (invoked : Option φ)
  deriving DecidableEq, Repr

namespace Event

@[simp, reducible] def number? : Event φ → Option Nat
  | .init n => some n
  | .failed _ | .exit _ _ | .shutdown _ => none

@[simp, reducible] def registration? : Event φ → Option (φ × List Nat)
  | .exit handler during => some (handler, during)
  | .init _ | .failed _ | .shutdown _ => none

end Event

/-- How many initialisations took effect. -/
def inits (events : List (Event φ)) : Nat := History.count Event.number? events

/-- The most recent initialisation. -/
def latest (events : List (Event φ)) : Option Nat := History.last Event.number? events

/-- What happened since the most recent initialisation took effect. -/
def sinceInit (events : List (Event φ)) : List (Event φ) := History.since Event.number? events

/-- The handler that was registered last, with the initialisations during which it was. -/
def registered (events : List (Event φ)) : Option (φ × List Nat) := History.last Event.registration? events

/-- What happened since a handler was registered. -/
def sinceExit (events : List (Event φ)) : List (Event φ) := History.since Event.registration? events

section Events

variable {events : List (Event φ)} {e : Event φ}

@[simp] theorem inits_init {n : Nat} : inits (.init n :: events) = inits events + 1 :=
  History.count_cons_of_some rfl

@[simp] theorem inits_cons (h : e.number? = none) : inits (e :: events) = inits events :=
  History.count_cons_of_none h

@[simp] theorem latest_init {n : Nat} : latest (.init n :: events) = some n := rfl

@[simp] theorem latest_cons (h : e.number? = none) : latest (e :: events) = latest events :=
  History.last_cons_of_none h

@[simp] theorem sinceInit_init {n : Nat} : sinceInit (.init n :: events) = [] := rfl

@[simp] theorem sinceInit_cons (h : e.number? = none) : sinceInit (e :: events) = e :: sinceInit events :=
  History.since_cons_of_none h

@[simp] theorem registered_nil : registered ([] : List (Event φ)) = none := rfl

@[simp] theorem registered_exit {handler : φ} {during : List Nat} :
    registered (.exit handler during :: events) = some (handler, during) := rfl

@[simp] theorem registered_cons (h : e.registration? = none) : registered (e :: events) = registered events :=
  History.last_cons_of_none h

@[simp] theorem sinceExit_cons (h : e.registration? = none) : sinceExit (e :: events) = e :: sinceExit events :=
  History.since_cons_of_none h

end Events

/-- The static variables, the callbacks that are running, the innermost first, and what has happened,
the most recent first. -/
structure Shims (φ : Type) where
  INIT_DONE : Bool
  EXIT_HANDLER : Option φ
  running : List Running
  events : List (Event φ)
  deriving DecidableEq, Repr

namespace Shims

/-- The initialisations whose callbacks are running. -/
def initialising (s : Shims φ) : List Nat :=
  s.running.filterMap fun r => match r with
    | .init n => some n
    | .exit => none

/-- Up to the call of `init`. -/
def module_init (s : Shims φ) : Shims φ :=
  if s.INIT_DONE then s
  else { s with
    INIT_DONE := true
    running := .init (inits s.events) :: s.running
    events := .init (inits s.events) :: s.events }

/-- From the return of `init` on. -/
def module_init.returned (code : Int32) (s : Shims φ) : Option (Shims φ) :=
  match s.running with
  | .init n :: running =>
    if code ≠ 0 then some { s with INIT_DONE := false, running := running, events := .failed n :: s.events }
    else some { s with running := running }
  | .exit :: _ | [] => none

def module_exit (exit : φ) (s : Shims φ) : Shims φ :=
  if s.INIT_DONE then
    { s with EXIT_HANDLER := some exit, events := .exit exit s.initialising :: s.events }
  else s

/-- Up to the call of the handler, if there is one. -/
def module_shutdown (s : Shims φ) : Shims φ :=
  if s.INIT_DONE then
    match s.EXIT_HANDLER with
    | some handler => { s with
        INIT_DONE := false
        running := .exit :: s.running
        events := .shutdown (some handler) :: s.events }
    | none => { s with INIT_DONE := false, events := .shutdown none :: s.events }
  else { s with events := .shutdown none :: s.events }

/-- From the return of the handler on. -/
def module_shutdown.returned (s : Shims φ) : Option (Shims φ) :=
  match s.running with
  | .exit :: running => some { s with EXIT_HANDLER := none, running := running }
  | .init _ :: _ | [] => none

end Shims

/-- A call of one of the functions, from wherever it is made, or the return of the innermost
callback. -/
inductive Call (φ : Type) where
  | module_init
  | init_returns (code : Int32)
  | module_exit (exit : φ)
  | module_shutdown
  | exit_returns
  deriving DecidableEq, Repr

def Call.run (s : Shims φ) : Call φ → Option (Shims φ)
  | .module_init => some s.module_init
  | .init_returns code => Shims.module_init.returned code s
  | .module_exit exit => some (s.module_exit exit)
  | .module_shutdown => some s.module_shutdown
  | .exit_returns => Shims.module_shutdown.returned s

/-- Any calls, of which those made while a callback is running are made by it. -/
def shims (φ : Type) : Machine (Shims φ) (Call φ) where
  init s := s = ⟨false, none, [], []⟩
  allowed _ _ := True
  step := Call.run

/-- The most recent initialisation has neither failed nor been shut down. -/
def Live (events : List (Event φ)) : Prop :=
  (∃ n, latest events = some n ∧ .failed n ∉ events) ∧ ∀ invoked, .shutdown invoked ∉ sinceInit events

/-- The handlers that are invoked match the initialisations that succeeded: none was registered during
one that failed, each was the last one registered since the most recent initialisation, each
initialisation has at most one, and a live one with a handler has it invoked when it is shut down. -/
structure HandlersMatch (events : List (Event φ)) : Prop where
  failed : ∀ handler before, .shutdown (some handler) :: before <:+ events →
    ∀ f during, registered before = some (f, during) → ∀ n ∈ during, .failed n ∉ events
  last : ∀ handler before, .shutdown (some handler) :: before <:+ events →
    ∃ during, registered (sinceInit before) = some (handler, during)
  once : ∀ handler before, .shutdown (some handler) :: before <:+ events →
    ∀ handler', .shutdown (some handler') ∉ sinceInit before
  kept : ∀ invoked before, .shutdown invoked :: before <:+ events → Live before →
    ∀ handler during, registered (sinceInit before) = some (handler, during) → invoked = some handler

/-- No module has been shut down inside of the callback of an initialisation. -/
def StillLive (s : Shims φ) (n : Nat) : Prop := s.INIT_DONE = true ∧ latest s.events = some n

/-- No initialisation takes effect while a handler is registered, and no callback fails in which a
handler was registered and the module shut down. -/
def Untroubled (s : Shims φ) : Call φ → Prop
  | .module_init => s.INIT_DONE = false → s.EXIT_HANDLER = none
  | .init_returns code => code ≠ 0 → ∀ n running, s.running = .init n :: running →
      StillLive s n ∨ ∀ handler during, .exit handler during ∈ s.events → n ∉ during
  | .module_exit _ | .module_shutdown | .exit_returns => True

end linux_shims
