import Mathlib.Tactic.Common

namespace virtio_frontend.queue

abbrev QUEUE_SIZE : Nat := 8

structure VirtqDesc where
  addr : UInt64
  len : UInt32
  flags : UInt16
  next : UInt16
  deriving DecidableEq, Repr, Inhabited

structure VirtqAvail where
  flags : UInt16
  idx : UInt16
  ring : Vector UInt16 QUEUE_SIZE
  used_event : UInt16
  deriving DecidableEq, Repr

structure VirtqUsedElem where
  id : UInt32
  len : UInt32
  deriving DecidableEq, Repr, Inhabited

structure VirtqUsed where
  flags : UInt16
  idx : UInt16
  ring : Vector VirtqUsedElem QUEUE_SIZE
  avail_event : UInt16
  deriving DecidableEq, Repr

structure VirtQueue where
  desc : Vector VirtqDesc QUEUE_SIZE
  avail : VirtqAvail
  used : VirtqUsed
  deriving DecidableEq, Repr

/-- The loop that copies a chain into the table. -/
def copy_chain (desc : Vector VirtqDesc QUEUE_SIZE) (i : Nat) :
    List VirtqDesc → Vector VirtqDesc QUEUE_SIZE
  | [] => desc
  | d :: chain => copy_chain (desc.setIfInBounds i d) (i + 1) chain

namespace VirtQueue

def new : VirtQueue where
  desc := .replicate QUEUE_SIZE ⟨0, 0, 0, 0⟩
  avail := ⟨0, 0, .replicate QUEUE_SIZE 0, 0⟩
  used := ⟨0, 0, .replicate QUEUE_SIZE ⟨0, 0⟩, 0⟩

/-- The descriptors are copied into the table from index 0, and that index is
published. -/
def add (self : VirtQueue) (chain : List VirtqDesc) : Except Unit UInt16 × VirtQueue :=
  if QUEUE_SIZE < chain.length then (.error (), self)
  else
    let idx := self.avail.idx.toNat % QUEUE_SIZE
    (.ok (.ofNat idx), { self with
      desc := copy_chain self.desc 0 chain
      avail := { self.avail with
        ring := self.avail.ring.setIfInBounds idx 0
        idx := self.avail.idx + 1 } })

/-- The device is done with the next entry. -/
def use (self : VirtQueue) (elem : VirtqUsedElem) : VirtQueue :=
  { self with used := { self.used with
    ring := self.used.ring.setIfInBounds (self.used.idx.toNat % QUEUE_SIZE) elem
    idx := self.used.idx + 1 } }

end VirtQueue

/-- A chain that fits is in the table afterwards, and the table behind it is as it
was. -/
theorem copy_chain_getElem? (desc : Vector VirtqDesc QUEUE_SIZE) (i : Nat) (chain : List VirtqDesc)
    {j : Nat} (hj : j < QUEUE_SIZE) :
    (copy_chain desc i chain)[j]? = if j < i then desc[j]? else chain[j - i]?.or desc[j]? := by
  induction chain generalizing desc i with
  | nil => simp [copy_chain]
  | cons d chain ih =>
    rw [copy_chain, ih]
    rcases Nat.lt_trichotomy j i with hlt | rfl | hgt
    · rw [if_pos (by omega), if_pos hlt, Vector.getElem?_setIfInBounds_ne (by omega)]
    · rw [if_pos (by omega), if_neg (by omega), Nat.sub_self, List.getElem?_cons_zero, Option.some_or]
      simp [hj]
    · rw [if_neg (by omega), if_neg (by omega), Vector.getElem?_setIfInBounds_ne (by omega)]
      have hcons : j - i = j - (i + 1) + 1 := by omega
      rw [hcons, List.getElem?_cons_succ]

end virtio_frontend.queue
