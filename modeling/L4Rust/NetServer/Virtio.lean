import Mathlib

namespace net_server.virtio

def QUEUE_SIZE : Nat := 8

/-- What the address in a descriptor is that of. -/
inductive Addr where
  | null
  | header
  | buf
  deriving DecidableEq, Repr

structure VirtqDesc where
  addr : Addr
  len : UInt32
  flags : UInt16
  next : UInt16
  deriving DecidableEq, Repr

structure VirtqAvail where
  flags : UInt16
  idx : UInt16
  ring : Vector UInt16 QUEUE_SIZE
  used_event : UInt16

structure VirtqUsedElem where
  id : UInt32
  len : UInt32
  deriving DecidableEq, Repr

structure VirtqUsed where
  flags : UInt16
  idx : UInt16
  ring : Vector VirtqUsedElem QUEUE_SIZE
  avail_event : UInt16

structure VirtQueue where
  desc : Vector VirtqDesc QUEUE_SIZE
  avail : VirtqAvail
  used : VirtqUsed

def VirtQueue.new : VirtQueue where
  desc := Vector.replicate _ ⟨.null, 0, 0, 0⟩
  avail := ⟨0, 0, Vector.replicate _ 0, 0⟩
  used := ⟨0, 0, Vector.replicate _ ⟨0, 0⟩, 0⟩

/-- The size of `VirtioNetHdr`. -/
def HDR_SIZE : Nat := 10

/-- What the device has written by the time both waits have returned: the used ring with its
index, and bytes of the frame buffer. -/
structure Delivery where
  used : VirtqUsed
  stored : Nat → Option UInt8

/-- Any behaviour of the device and of its interrupt. -/
def Device : Type := VirtQueue → Delivery

structure VirtioNet where
  queue : VirtQueue

namespace VirtioNet

/-- The queue with the descriptors of a receive made available. -/
def place (queue : VirtQueue) (len : Nat) : VirtQueue :=
  let desc := queue.desc.set 0 ⟨.header, .ofNat HDR_SIZE, 0x0003, 1⟩ (by decide)
  let desc := desc.set 1 ⟨.buf, .ofNat len, 0x0001, 0⟩ (by decide)
  let idx := queue.avail.idx.toNat % QUEUE_SIZE
  let ring := queue.avail.ring.set idx 0 (Nat.mod_lt _ (by decide))
  { queue with desc := desc, avail := { queue.avail with ring := ring, idx := queue.avail.idx + 1 } }

/-- The element that the used index is behind, which wraps around. -/
def last_used (used : VirtqUsed) : VirtqUsedElem :=
  let used_idx := (used.idx - 1).toNat % QUEUE_SIZE
  used.ring.get ⟨used_idx, Nat.mod_lt _ (by decide)⟩

/-- The length of the frame, with the buffer that holds it. -/
def receive_frame (dev : Device) (buf : List UInt8) (self : VirtioNet) :
    Except Unit Nat × List UInt8 × VirtioNet :=
  let queue := place self.queue buf.length
  -- Neither of the two waits is checked.
  let delivery := dev queue
  let self := ⟨{ queue with used := delivery.used }⟩
  let buf := buf.mapIdx fun i byte => (delivery.stored i).getD byte
  let len := (last_used self.queue.used).len.toNat
  if len < HDR_SIZE then (.error (), buf, self) else (.ok (len - HDR_SIZE), buf, self)

end VirtioNet

/-- `RxToken::consume`: a slice that is not inside the buffer aborts the server. -/
def VirtioRxToken.consume {ρ : Type} (dev : Device) (f : List UInt8 → ρ) (net : VirtioNet) :
    Option (ρ × VirtioNet) :=
  let buf := List.replicate 1536 0
  let (result, buf, net) := net.receive_frame dev buf
  let len := result.toOption.getD 0
  if len ≤ buf.length then some (f (buf.take len), net) else none

/-- What a device finds behind the addresses of a request. -/
abbrev Contents : Type := Addr → List UInt8

/-- `VirtioNetHdr::default` and a buffer. -/
def contents (buf : List UInt8) : Contents
  | .header => List.replicate HDR_SIZE 0
  | .buf => buf
  | .null => []

/-- A device that has a state. It gives no answer where the two waits do not both return. -/
def Nic (σ : Type) : Type := σ → VirtQueue → Contents → Option (σ × Delivery)

namespace VirtioNet

/-- The queue with the descriptors of a frame to be sent made available. -/
def place_frame (queue : VirtQueue) (len : Nat) : VirtQueue :=
  let desc := queue.desc.set 0 ⟨.header, .ofNat HDR_SIZE, 0x0002, 1⟩ (by decide)
  let desc := desc.set 1 ⟨.buf, .ofNat len, 0, 0⟩ (by decide)
  let idx := queue.avail.idx.toNat % QUEUE_SIZE
  let ring := queue.avail.ring.set idx 0 (Nat.mod_lt _ (by decide))
  { queue with desc := desc, avail := { queue.avail with ring := ring, idx := queue.avail.idx + 1 } }

/-- The answer is the same whatever the device has done. -/
def send_frame {σ : Type} (dev : Nic σ) (frame : List UInt8) (self : VirtioNet) (d : σ) :
    Option (Except Unit Unit × VirtioNet × σ) := do
  let queue := place_frame self.queue frame.length
  let (d, delivery) ← dev d queue (contents frame)
  pure (.ok (), ⟨{ queue with used := delivery.used }⟩, d)

end VirtioNet

/-- `TxToken::consume`, with what fills the buffer. -/
def VirtioTxToken.consume {ρ σ : Type} (dev : Nic σ) (len : Nat) (f : Vector UInt8 len → ρ × Vector UInt8 len)
    (net : VirtioNet) (d : σ) : Option (ρ × VirtioNet × σ) := do
  let (res, buf) := f (Vector.replicate len 0)
  let (_, net, d) ← net.send_frame dev buf.toList d
  pure (res, net, d)

/-- `RxToken::consume` over a device that has a state. -/
def VirtioRxToken.consume_from {ρ σ : Type} (dev : Nic σ) (f : List UInt8 → ρ) (net : VirtioNet) (d : σ) :
    Option (ρ × VirtioNet × σ) := do
  let (d, delivery) ← dev d (VirtioNet.place net.queue 1536) (contents (List.replicate 1536 0))
  let (res, net) ← VirtioRxToken.consume (fun _ => delivery) f net
  pure (res, net, d)

/-- The index of the element that was used last, before and after the wrap at zero. -/
theorem used_idx_eq (idx : UInt16) : (idx - 1).toNat % QUEUE_SIZE = (idx.toNat + 7) % QUEUE_SIZE := by
  have hlt := idx.toNat_lt
  rw [UInt16.toNat_sub]
  simp only [QUEUE_SIZE, UInt16.reduceToNat]
  omega

/-- The length that the device reports for a frame, with its header, if it is given a buffer of
this size. -/
def reported (dev : Device) (net : VirtioNet) (size : Nat) : Nat :=
  let used := (dev (VirtioNet.place net.queue size)).used
  (used.ring.get ⟨(used.idx.toNat + 7) % QUEUE_SIZE, Nat.mod_lt _ (by decide)⟩).len.toNat

theorem last_used_len (dev : Device) (net : VirtioNet) (size : Nat) :
    (VirtioNet.last_used (dev (VirtioNet.place net.queue size)).used).len.toNat = reported dev net size := by
  unfold VirtioNet.last_used reported
  simp only [used_idx_eq]

theorem receive_frame_fst (dev : Device) (net : VirtioNet) (buf : List UInt8) :
    (net.receive_frame dev buf).1 =
      if reported dev net buf.length < HDR_SIZE then .error ()
      else .ok (reported dev net buf.length - HDR_SIZE) := by
  unfold VirtioNet.receive_frame
  simp only [last_used_len]
  split <;> rfl

theorem receive_frame_length (dev : Device) (net : VirtioNet) (buf : List UInt8) :
    (net.receive_frame dev buf).2.1.length = buf.length := by
  unfold VirtioNet.receive_frame
  dsimp only
  split <;> exact List.length_mapIdx

theorem consume_isSome_iff {ρ : Type} (dev : Device) (f : List UInt8 → ρ) (net : VirtioNet) :
    (VirtioRxToken.consume dev f net).isSome ↔ reported dev net 1536 ≤ HDR_SIZE + 1536 := by
  have hlen := receive_frame_length dev net (List.replicate 1536 0)
  have hresult := receive_frame_fst dev net (List.replicate 1536 0)
  rw [List.length_replicate] at hlen hresult
  have hslice : (VirtioRxToken.consume dev f net).isSome ↔
      (net.receive_frame dev (List.replicate 1536 0)).1.toOption.getD 0 ≤ 1536 := by
    unfold VirtioRxToken.consume
    dsimp only
    rw [hlen]
    split
    case isTrue hfits => exact iff_of_true rfl hfits
    case isFalse hlong => exact iff_of_false Bool.false_ne_true hlong
  rw [hslice, hresult]
  by_cases hshort : reported dev net 1536 < HDR_SIZE
  · rw [if_pos hshort]
    exact iff_of_true (Nat.zero_le _) (by omega)
  · rw [if_neg hshort]
    exact Nat.sub_le_iff_le_add'

/-- A frame is as long as the device says, whatever was asked for: the length that is returned
fits the buffer, and the token can be consumed, if and only if the device reports no more than
the buffer and the header hold. -/
theorem received_length_iff {ρ : Type} (dev : Device) (net : VirtioNet) (buf : List UInt8)
    (f : List UInt8 → ρ) :
    ((∀ n, (net.receive_frame dev buf).1 = .ok n → n ≤ buf.length) ↔
      reported dev net buf.length ≤ HDR_SIZE + buf.length) ∧
    ((VirtioRxToken.consume dev f net).isSome ↔ reported dev net 1536 ≤ HDR_SIZE + 1536) := by
  refine ⟨?_, consume_isSome_iff dev f net⟩
  rw [receive_frame_fst]
  by_cases hshort : reported dev net buf.length < HDR_SIZE
  · rw [if_pos hshort]
    refine iff_of_true ?_ (by omega)
    intro n hn
    cases hn
  · rw [if_neg hshort]
    constructor
    · intro hfits
      have := hfits _ rfl
      omega
    · intro hfits n hn
      cases hn
      omega

/-- A device that says the frame has a length of its own choice. -/
def boasting (len : UInt32) : Device := fun queue =>
  ⟨{ queue.used with idx := 0, ring := Vector.replicate _ ⟨0, len⟩ }, fun _ => none⟩

/-- With a length of 1547 in the used ring a frame is longer than its buffer, and the server
aborts. -/
theorem frame_too_long :
    (VirtioNet.receive_frame (boasting 1547) (List.replicate 1536 0) ⟨.new⟩).1 = .ok 1537 ∧
      VirtioRxToken.consume (boasting 1547) List.length ⟨.new⟩ = none := by
  have hreported : reported (boasting 1547) ⟨.new⟩ 1536 = 1547 := rfl
  constructor
  · rw [receive_frame_fst, List.length_replicate, hreported]
    rfl
  · rw [← Option.not_isSome_iff_eq_none, consume_isSome_iff, hreported]
    decide

end net_server.virtio
