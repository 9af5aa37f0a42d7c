import Mathlib.Logic.Function.Basic
import Mathlib.Tactic.Common

namespace l4_sys

/-- The buffer registers: a length word and the bytes behind it. -/
structure Br where
  len : UInt64
  data : Nat → UInt8

/-- The registers of a server: the message registers, the buffer registers, and which
message registers were assigned to since the request came in. -/
structure Utcb where
  mr : Nat → UInt64
  br : Br
  assigned : List Nat

/-- The message registers of the receiver, after the first words of a message were
transferred. -/
def transfer (words : Nat) (src dst : Nat → UInt64) : Nat → UInt64 :=
  fun i => if i < words then src i else dst i

/-- The bytes that the buffer registers hold, up to a count. -/
def Br.bytes (br : Br) (count : Nat) : List UInt8 := (List.range count).map br.data

namespace Utcb

/-- The registers as a request leaves them. -/
def receive (mr : Nat → UInt64) (br : Br) : Utcb := ⟨mr, br, []⟩

def set_mr (utcb : Utcb) (i : Nat) (w : UInt64) : Utcb :=
  { utcb with mr := Function.update utcb.mr i w, assigned := utcb.assigned ++ [i] }

def br_clear (utcb : Utcb) : Utcb := { utcb with br := { utcb.br with len := 0 } }

/-- A byte string and its length, cut off where the buffer registers end. -/
def br_write_bytes (utcb : Utcb) (capacity : Nat) (data : List UInt8) : Utcb :=
  let len := min data.length capacity
  { utcb with br := ⟨.ofNat len, fun i => if i < len then data.getD i 0 else utcb.br.data i⟩ }

end Utcb

/-- How a request is answered in the registers: the first message register is assigned
to, and with a counter the second one as well. No payload is left behind, unless there is
one for the client or nobody looked after the buffer registers. -/
structure Replied (counter payload stale : Prop) (before after : Utcb) : Prop where
  one_word : ¬ counter → after.assigned = before.assigned ++ [0]
  two_words : counter → after.assigned = before.assigned ++ [0, 1]
  cleared : ¬ payload → ¬ stale → after.br.len = 0
  kept : stale → after.br = before.br

variable {counter payload stale : Prop}

/-- Most replies are one word. -/
theorem Replied.word (utcb : Utcb) {w : UInt64} (hcounter : ¬ counter) (hstale : ¬ stale) :
    Replied counter payload stale utcb (utcb.set_mr 0 w).br_clear :=
  ⟨fun _ => rfl, fun h => absurd h hcounter, fun _ _ => rfl, fun h => absurd h hstale⟩

theorem Replied.with_payload {before after : Utcb} (hassigned : after.assigned = before.assigned ++ [0])
    (hcounter : ¬ counter) (hpayload : payload) (hstale : ¬ stale) :
    Replied counter payload stale before after :=
  ⟨fun _ => hassigned, fun h => absurd h hcounter, fun h => absurd hpayload h, fun h => absurd h hstale⟩

/-- A word that is set while the buffer registers stay as they are. -/
theorem Replied.unattended (utcb : Utcb) {w : UInt64} (hcounter : ¬ counter) (hstale : stale) :
    Replied counter payload stale utcb (utcb.set_mr 0 w) :=
  ⟨fun _ => rfl, fun h => absurd h hcounter, fun _ h => absurd hstale h, fun _ => rfl⟩

variable {before after : Utcb}

/-- A reply with one word says all there is to say, unless there is a counter. -/
theorem Replied.forall_assigned_iff (h : Replied counter payload stale before after)
    (hfresh : before.assigned = []) : (∀ i ∈ after.assigned, i < 1) ↔ ¬ counter := by
  constructor
  · intro hone hcounter
    have hsecond := hone 1 (by simp [h.two_words hcounter])
    exact absurd hsecond (Nat.lt_irrefl 1)
  · intro hcounter
    simp [h.one_word hcounter, hfresh]

/-- A reply without a payload says so, unless nobody looked after what the request has
left in the buffer registers. -/
theorem Replied.len_eq_zero_iff (h : Replied counter payload stale before after)
    (hdisjoint : stale → ¬ payload) :
    (¬ payload → after.br.len = 0) ↔ (stale → before.br.len = 0) := by
  constructor
  · intro hlen hstale
    rw [← h.kept hstale]
    exact hlen (hdisjoint hstale)
  · intro hbefore hpayload
    by_cases hstale : stale
    · rw [h.kept hstale]
      exact hbefore hstale
    · exact h.cleared hpayload hstale

end l4_sys
