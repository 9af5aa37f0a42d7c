import L4Rust.FsServer.FlatDisk
import L4Rust.FsServer.DiskErrors

open fs_server.virtio.VirtioBlk

namespace fs_server.virtio

/-- A descriptor goes on with another one, by the meaning that the comments of the driver give the flag. The
virtio specification has it the other way round: 1 is for the next descriptor and 2 for what the device writes.
A device that keeps to the specification does not serve the chains of this driver in the sense of `Device.Serves`. -/
def NEXT : UInt16 := 0x0002

/-- The device writes to the memory of a descriptor, again by the comments of the driver. -/
def WRITE : UInt16 := 0x0001

/-- A piece of memory that a request consists of, and whether the device may write to it. -/
structure Segment where
  addr : Addr
  len : Nat
  writable : Bool
  deriving DecidableEq, Repr

namespace VirtQueue

variable (queue : VirtQueue)

/-- What a device comes to that follows a chain, for at most as long as the table is. -/
def follow : Nat → UInt16 → List Segment
  | 0, _ => []
  | fuel + 1, head =>
    let desc := queue.desc.get ⟨head.toNat % QUEUE_SIZE, Nat.mod_lt _ (by decide)⟩
    let rest := if desc.flags &&& NEXT ≠ 0 then follow fuel desc.next else []
    ⟨desc.addr, desc.len.toNat, desc.flags &&& WRITE ≠ 0⟩ :: rest

/-- The entry of the available ring that was published last. -/
def newest : List Segment :=
  let idx := (queue.avail.idx - 1).toNat % QUEUE_SIZE
  queue.follow QUEUE_SIZE (queue.avail.ring.get ⟨idx, Nat.mod_lt _ (by decide)⟩)

end VirtQueue

/-- The request for a transfer of so many bytes: the device reads the header, reads or writes the
buffer, and writes the status byte. -/
def request_chain (len : Nat) (read : Bool) : List Segment :=
  [⟨.header, 16, false⟩, ⟨.buf, len, read⟩, ⟨.status, 1, true⟩]

/-- A device that serves the newest chain of the queue if it is a request for a sector, reading the flags of
the descriptors as the driver means them. -/
structure Device.Serves {σ : Type} (dev : Device σ) (content : σ → Nat → List UInt8) : Prop where
  length_content : ∀ d sector, (content d sector).length = 512
  read : ∀ d queue header buf, queue.newest = request_chain 512 true → header.req_type = 0 →
    buf.length = 512 →
      (dev d queue header buf).status = some 0 ∧
      (∀ i < 512, (dev d queue header buf).stored i = (content d header.sector.toNat)[i]?) ∧
      content (dev d queue header buf).device = content d
  write : ∀ d queue header buf, queue.newest = request_chain 512 false → header.req_type = 1 →
    buf.length = 512 →
      (dev d queue header buf).status = some 0 ∧
      content (dev d queue header buf).device = Function.update (content d) header.sector.toNat buf

section Driver

variable {σ : Type} {dev : Device σ} {content : σ → Nat → List UInt8}

theorem follow_succ (queue : VirtQueue) (fuel : Nat) {head : UInt16} {i : Fin QUEUE_SIZE} {desc : VirtqDesc}
    (hi : head.toNat % QUEUE_SIZE = i) (hdesc : queue.desc.get i = desc) :
    queue.follow (fuel + 1) head = ⟨desc.addr, desc.len.toNat, desc.flags &&& WRITE ≠ 0⟩ ::
      if desc.flags &&& NEXT ≠ 0 then queue.follow fuel desc.next else [] := by
  have hindex : (⟨head.toNat % QUEUE_SIZE, Nat.mod_lt _ (by decide)⟩ : Fin QUEUE_SIZE) = i := Fin.ext hi
  rw [VirtQueue.follow, hindex, hdesc]

/-- Wherever the ring index stands, the driver publishes the chain of its request. -/
theorem newest_place (queue : VirtQueue) {len : Nat} (read : Bool) (hlen : len < 2 ^ 32) :
    (place queue len read).newest = request_chain len read := by
  have hhead : (place queue len read).avail.ring.get
      ⟨((place queue len read).avail.idx - 1).toNat % QUEUE_SIZE, Nat.mod_lt _ (by decide)⟩ = 0 := by
    simp [place, Vector.get_eq_getElem]
  have hword : (UInt32.ofNat len).toNat = len := UInt32.toNat_ofNat_of_lt' hlen
  have hdesc0 : (place queue len read).desc.get ⟨0, by decide⟩ = ⟨.header, 16, 0x0002, 1⟩ := by
    simp [place, Vector.get_eq_getElem]
  have hdesc1 : (place queue len read).desc.get ⟨1, by decide⟩ =
      ⟨.buf, .ofNat len, if read then 0x0002 ||| 0x0001 else 0x0002, 2⟩ := by
    simp [place, Vector.get_eq_getElem]
  have hdesc2 : (place queue len read).desc.get ⟨2, by decide⟩ = ⟨.status, 1, 0x0001, 0⟩ := by
    simp [place, Vector.get_eq_getElem]
  have hfollow : (place queue len read).newest = (place queue len read).follow (7 + 1) 0 := by
    unfold VirtQueue.newest
    dsimp only
    rw [hhead]
    rfl
  have hnext : (if read then 0x0002 ||| 0x0001 else 0x0002 : UInt16) &&& NEXT ≠ 0 := by
    cases read with
    | false => decide
    | true => decide
  have hwrite : decide ((if read then 0x0002 ||| 0x0001 else 0x0002 : UInt16) &&& WRITE ≠ 0) = read := by
    cases read with
    | false => rfl
    | true => rfl
  rw [hfollow, follow_succ _ 7 rfl hdesc0, if_pos (by decide), follow_succ _ 6 rfl hdesc1, hword]
  dsimp only
  rw [hwrite, if_pos hnext, follow_succ _ 5 rfl hdesc2, if_neg (by decide)]
  rfl

end Driver

end fs_server.virtio
