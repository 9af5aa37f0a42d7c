import L4Rust.Library.Machine
import Mathlib.Logic.Function.Basic

/-- A count that is taken all at once, or one at a time. -/
structure Counter where
  count : Nat
  semaphore : Bool
  deriving DecidableEq, Repr

namespace Counter

/-- How much is taken at a time. -/
def taken (c : Counter) : Nat := if c.semaphore then 1 else c.count

def rest (c : Counter) : Counter := { c with count := c.count - c.taken }

def add (c : Counter) (n : Nat) : Counter := { c with count := c.count + n }

end Counter

/-! Counters that are made, filled, taken from and removed. -/

namespace Counters

variable {η : Type}

inductive Op (η : Type) where
  | create (h : η) (initial : Nat) (semaphore : Bool)
  | put (h : η) (n : Nat)
  | take (h : η) (n : Nat)
  | remove (h : η)
  deriving DecidableEq

/-- What was put into a counter since it was made, and what was taken from it. -/
structure Account where
  put : Nat
  got : Nat

variable [DecidableEq η]

/-- A name is given to one counter at a time. Nothing is taken where there is nothing, and no count gets
as large as the limit. -/
def step (limit : Nat) (table : η → Option Counter) : Op η → Option (η → Option Counter)
  | .create h initial semaphore =>
    if table h = none then some (Function.update table h (some ⟨initial, semaphore⟩)) else none
  | .put h n =>
    match table h with
    | some c => if c.count + n < limit then some (Function.update table h (some (c.add n))) else none
    | none => none
  | .take h n =>
    match table h with
    | some c => if 0 < c.count ∧ n = c.taken then some (Function.update table h (some c.rest)) else none
    | none => none
  | .remove h => if (table h).isSome then some (Function.update table h none) else none

def Account.after (h : η) (account : Account) : Op η → Account
  | .create h' initial _ => if h' = h then ⟨initial, 0⟩ else account
  | .put h' n => if h' = h then { account with put := account.put + n } else account
  | .take h' n => if h' = h then { account with got := account.got + n } else account
  | .remove _ => account

def account (h : η) (ops : List (Op η)) : Account := ops.foldl (Account.after h) ⟨0, 0⟩

variable {limit : Nat} {table table' : η → Option Counter}

end Counters
