import Mathlib.Logic.Function.Basic
import Mathlib.Tactic.Common

/-- The values of a slab by their keys. Which vacant key a new value gets is not
decided here. -/
abbrev Slab (α : Type) : Type := Nat → Option α

namespace Slab

variable {α : Type}

def new : Slab α := fun _ => none

def insert (slab : Slab α) (key : Nat) (a : α) : Slab α := Function.update slab key (some a)

def remove (slab : Slab α) (key : Nat) : Slab α := Function.update slab key none

end Slab
