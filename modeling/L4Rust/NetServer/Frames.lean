import L4Rust.NetServer.Virtio

namespace net_server.virtio

variable {σ : Type}

/-- What the network stack does with the tokens of the device, which always has both. -/
inductive Call where
  | transmit (len : Nat) (f : Vector UInt8 len → Vector UInt8 len)
  | receive

/-- The frames that a call hands to the stack. -/
def Call.perform (dev : Nic σ) (net : VirtioNet) (d : σ) : Call → Option (List (List UInt8) × VirtioNet × σ)
  | .transmit len f => VirtioTxToken.consume dev len (fun buf => ([], f buf)) net d
  | .receive => VirtioRxToken.consume_from dev (fun frame => [frame]) net d

def performAll (dev : Nic σ) (net : VirtioNet) (d : σ) :
    List Call → Option (List (List UInt8) × VirtioNet × σ)
  | [] => some ([], net, d)
  | call :: calls => do
    let (frames, net, d) ← call.perform dev net d
    let (later, net, d) ← performAll dev net d calls
    pure (frames ++ later, net, d)

/-- A network: the frames put on it, and those that are on their way to the driver. -/
structure Wire where
  sent : List (List UInt8)
  incoming : List (List UInt8)
  deriving DecidableEq, Repr

namespace Wire

/-- A call on the network itself; there may be nothing to receive. -/
def perform (w : Wire) : Call → Option (List (List UInt8) × Wire)
  | .transmit len f => some ([], { w with sent := w.sent ++ [(f (Vector.replicate len 0)).toList] })
  | .receive =>
    match w.incoming with
    | [] => none
    | frame :: rest => some ([frame], { w with incoming := rest })

def performAll (w : Wire) : List Call → Option (List (List UInt8) × Wire)
  | [] => some ([], w)
  | call :: calls => do
    let (frames, w) ← w.perform call
    let (later, w) ← w.performAll calls
    pure (frames ++ later, w)

end Wire

/-- The frames that calls transmit. -/
def transmitted (calls : List Call) : List (List UInt8) :=
  calls.filterMap fun
    | .transmit len f => some (f (Vector.replicate len 0)).toList
    | .receive => none

/-- How many frames calls wait for. -/
def received (calls : List Call) : Nat :=
  (calls.filter fun
    | .transmit .. => false
    | .receive => true).length

namespace Wire

variable {w w' : Wire} {call : Call} {calls : List Call} {frames : List (List UInt8)}

theorem receive_eq_some (h : w.perform .receive = some (frames, w')) :
    ∃ frame, frames = [frame] ∧ w.incoming = frame :: w'.incoming ∧ w'.sent = w.sent := by
  unfold perform at h
  cases hincoming : w.incoming with
  | nil =>
    rw [hincoming] at h
    cases h
  | cons frame rest =>
    rw [hincoming] at h
    cases h
    exact ⟨frame, rfl, rfl, rfl⟩

theorem incoming_of_perform (h : w.perform call = some (frames, w')) : w.incoming = frames ++ w'.incoming := by
  cases call with
  | transmit len f =>
    cases h
    rfl
  | receive =>
    obtain ⟨frame, rfl, hincoming, _⟩ := receive_eq_some h
    exact hincoming

theorem sent_of_perform (h : w.perform call = some (frames, w')) : w'.sent = w.sent ++ transmitted [call] := by
  cases call with
  | transmit len f =>
    cases h
    rfl
  | receive =>
    obtain ⟨frame, _, _, hsent⟩ := receive_eq_some h
    rw [hsent]
    exact (List.append_nil _).symm

/-- What was received was first on its way, and what was transmitted is sent behind the rest. -/
theorem performAll_eq_some (h : w.performAll calls = some (frames, w')) :
    w.incoming = frames ++ w'.incoming ∧ w'.sent = w.sent ++ transmitted calls := by
  induction calls generalizing w frames with
  | nil =>
    cases h
    exact ⟨rfl, (List.append_nil _).symm⟩
  | cons call calls ih =>
    obtain ⟨⟨first, next⟩, hfirst, h⟩ := Option.bind_eq_some_iff.mp h
    obtain ⟨⟨later, last⟩, hlater, h⟩ := Option.bind_eq_some_iff.mp h
    cases h
    obtain ⟨hincoming, hsent⟩ := ih hlater
    refine ⟨?_, ?_⟩
    · rw [incoming_of_perform hfirst, hincoming, List.append_assoc]
    · rw [hsent, sent_of_perform hfirst, List.append_assoc]
      congr 1
      exact (List.filterMap_append (l := [call])).symm

/-- Nothing but a missing frame is waited for. -/
theorem performAll_isSome_iff : (w.performAll calls).isSome ↔ received calls ≤ w.incoming.length := by
  induction calls generalizing w with
  | nil => exact iff_of_true rfl (Nat.zero_le _)
  | cons call calls ih =>
    have hrest (first : List (List UInt8)) (next : Wire) (h : w.perform call = some (first, next)) :
        (w.performAll (call :: calls)).isSome ↔ received calls ≤ next.incoming.length := by
      rw [← ih, performAll, h]
      dsimp only [bind, Option.bind]
      cases next.performAll calls with
      | none => rfl
      | some result => rfl
    cases call with
    | transmit len f =>
      exact hrest [] { w with sent := w.sent ++ [(f (Vector.replicate len 0)).toList] } rfl
    | receive =>
      have hcount : received (.receive :: calls) = received calls + 1 := rfl
      cases hincoming : w.incoming with
      | nil =>
        have hnone : w.performAll (.receive :: calls) = none := by
          rw [performAll, perform, hincoming]
          rfl
        rw [hnone, hcount]
        exact iff_of_false Bool.false_ne_true (Nat.not_succ_le_zero _)
      | cons frame rest =>
        have hfirst : w.perform .receive = some ([frame], { w with incoming := rest }) := by
          rw [perform, hincoming]
        rw [hrest _ _ hfirst, hcount, List.length_cons]
        exact (Nat.succ_le_succ_iff).symm

end Wire

/-- A descriptor goes on with another one, by the meaning that the comments of the driver give the flag. The
virtio specification has it the other way round: 1 is for the next descriptor and 2 for what the device writes.
A device that keeps to the specification does not serve the chains of this driver in the sense of `Nic.Serves`. -/
def NEXT : UInt16 := 0x0002

/-- The device writes to the memory of a descriptor, again by the comments of the driver. -/
def WRITE : UInt16 := 0x0001

/-- A piece of memory that a request consists of, and whether the device may write to it. -/
structure Segment where
  addr : Addr
  len : Nat
  writable : Bool
  deriving DecidableEq, Repr

namespace VirtQueue

variable (queue : VirtQueue)

/-- What a device comes to that follows a chain, for at most as long as the table is. -/
def follow : Nat → UInt16 → List Segment
  | 0, _ => []
  | fuel + 1, head =>
    let desc := queue.desc.get ⟨head.toNat % QUEUE_SIZE, Nat.mod_lt _ (by decide)⟩
    let rest := if desc.flags &&& NEXT ≠ 0 then follow fuel desc.next else []
    ⟨desc.addr, desc.len.toNat, desc.flags &&& WRITE ≠ 0⟩ :: rest

/-- The chain that was published last. -/
def newest : List Segment :=
  let idx := (queue.avail.idx - 1).toNat % QUEUE_SIZE
  queue.follow QUEUE_SIZE (queue.avail.ring.get ⟨idx, Nat.mod_lt _ (by decide)⟩)

end VirtQueue

/-- A header and a buffer, which the device reads to send a frame and writes to receive one. -/
def frame_chain (len : Nat) (receive : Bool) : List Segment :=
  [⟨.header, HDR_SIZE, receive⟩, ⟨.buf, len, receive⟩]

/-- A device that serves the newest chain of the queue: it sends the frame of a chain that it may only read,
and puts the next frame of its network into one that it may write, with its length in the next element of
the used ring. It reads the flags of the descriptors as the driver means them. -/
structure Nic.Serves (dev : Nic σ) (wire : σ → Wire) : Prop where
  send : ∀ d queue frame, queue.newest = frame_chain frame.length false →
    ∃ d' delivery, dev d queue (contents frame) = some (d', delivery) ∧
      wire d' = { wire d with sent := (wire d).sent ++ [frame] }
  wait : ∀ d queue buf, queue.newest = frame_chain buf.length true → (wire d).incoming = [] →
    dev d queue (contents buf) = none
  receive : ∀ d queue buf frame rest, queue.newest = frame_chain buf.length true →
    (wire d).incoming = frame :: rest → frame.length ≤ buf.length →
      ∃ d' delivery, dev d queue (contents buf) = some (d', delivery) ∧
        wire d' = { wire d with incoming := rest } ∧
        delivery.used.idx = queue.used.idx + 1 ∧
        delivery.used.ring.get ⟨queue.used.idx.toNat % QUEUE_SIZE, Nat.mod_lt _ (by decide)⟩ =
          ⟨0, .ofNat (HDR_SIZE + frame.length)⟩ ∧
        ∀ i < frame.length, delivery.stored i = frame[i]?

theorem follow_succ (queue : VirtQueue) (fuel : Nat) {head : UInt16} {i : Fin QUEUE_SIZE} {desc : VirtqDesc}
    (hi : head.toNat % QUEUE_SIZE = i) (hdesc : queue.desc.get i = desc) :
    queue.follow (fuel + 1) head = ⟨desc.addr, desc.len.toNat, desc.flags &&& WRITE ≠ 0⟩ ::
      if desc.flags &&& NEXT ≠ 0 then queue.follow fuel desc.next else [] := by
  have hindex : (⟨head.toNat % QUEUE_SIZE, Nat.mod_lt _ (by decide)⟩ : Fin QUEUE_SIZE) = i := Fin.ext hi
  rw [VirtQueue.follow, hindex, hdesc]

/-- A device that follows the newest chain comes to the header and to the buffer. -/
theorem newest_of_chain {queue : VirtQueue} (first second : UInt16) {len : Nat} {receive : Bool}
    (hhead : queue.avail.ring.get ⟨(queue.avail.idx - 1).toNat % QUEUE_SIZE, Nat.mod_lt _ (by decide)⟩ = 0)
    (hdesc0 : queue.desc.get ⟨0, by decide⟩ = ⟨.header, .ofNat HDR_SIZE, first, 1⟩)
    (hdesc1 : queue.desc.get ⟨1, by decide⟩ = ⟨.buf, .ofNat len, second, 0⟩) (hlen : len < 2 ^ 32)
    (hnext : first &&& NEXT ≠ 0) (hlast : ¬ second &&& NEXT ≠ 0)
    (hfirst : decide (first &&& WRITE ≠ 0) = receive) (hsecond : decide (second &&& WRITE ≠ 0) = receive) :
    queue.newest = frame_chain len receive := by
  have hfollow : queue.newest = queue.follow (7 + 1) 0 := by
    unfold VirtQueue.newest
    dsimp only
    rw [hhead]
    rfl
  have hword : (UInt32.ofNat len).toNat = len := UInt32.toNat_ofNat_of_lt' hlen
  rw [hfollow, follow_succ _ 7 rfl hdesc0, if_pos hnext, follow_succ _ 6 rfl hdesc1, if_neg hlast]
  dsimp only
  rw [hfirst, hsecond, hword]
  rfl

/-- Wherever the ring index stands, the driver publishes its chain. -/
theorem newest_place (queue : VirtQueue) {len : Nat} (hlen : len < 2 ^ 32) :
    (VirtioNet.place queue len).newest = frame_chain len true := by
  refine newest_of_chain 0x0003 0x0001 ?_ ?_ ?_ hlen (by decide) (by decide) rfl rfl
  · simp [VirtioNet.place, Vector.get_eq_getElem]
  · simp [VirtioNet.place, Vector.get_eq_getElem]
  · simp [VirtioNet.place, Vector.get_eq_getElem]

theorem newest_place_frame (queue : VirtQueue) {len : Nat} (hlen : len < 2 ^ 32) :
    (VirtioNet.place_frame queue len).newest = frame_chain len false := by
  refine newest_of_chain 0x0002 0 ?_ ?_ ?_ hlen (by decide) (by decide) rfl rfl
  · simp [VirtioNet.place_frame, Vector.get_eq_getElem]
  · simp [VirtioNet.place_frame, Vector.get_eq_getElem]
  · simp [VirtioNet.place_frame, Vector.get_eq_getElem]

section Driver

variable {dev : Nic σ} {wire : σ → Wire} (net : VirtioNet) {d : σ}

theorem send_frame_served (hdev : dev.Serves wire) {frame : List UInt8} (hframe : frame.length < 2 ^ 32) :
    ∃ net' d', net.send_frame dev frame d = some (.ok (), net', d') ∧
      wire d' = { wire d with sent := (wire d).sent ++ [frame] } := by
  obtain ⟨d', delivery, hrun, hsent⟩ := hdev.send d _ frame (newest_place_frame net.queue hframe)
  refine ⟨⟨{ VirtioNet.place_frame net.queue frame.length with used := delivery.used }⟩, d', ?_, hsent⟩
  unfold VirtioNet.send_frame
  dsimp only
  rw [hrun]
  rfl

/-- What the token transmits is sent. -/
theorem transmit_served {ρ : Type} (hdev : dev.Serves wire) {len : Nat} (hlen : len < 2 ^ 32)
    (f : Vector UInt8 len → ρ × Vector UInt8 len) :
    ∃ net' d', VirtioTxToken.consume dev len f net d = some ((f (Vector.replicate len 0)).1, net', d') ∧
      wire d' = { wire d with sent := (wire d).sent ++ [(f (Vector.replicate len 0)).2.toList] } := by
  have hframe : (f (Vector.replicate len 0)).2.toList.length < 2 ^ 32 := by rwa [Vector.length_toList]
  obtain ⟨net', d', hrun, hsent⟩ := send_frame_served net (d := d) hdev hframe
  refine ⟨net', d', ?_, hsent⟩
  unfold VirtioTxToken.consume
  dsimp only
  rw [hrun]
  rfl

/-- The element that the device has written is the one that the driver looks at. -/
theorem last_used_of_next {used : VirtqUsed} {idx : UInt16} {elem : VirtqUsedElem} (hidx : used.idx = idx + 1)
    (helem : used.ring.get ⟨idx.toNat % QUEUE_SIZE, Nat.mod_lt _ (by decide)⟩ = elem) :
    VirtioNet.last_used used = elem := by
  have hback : used.idx - 1 = idx := by
    rw [hidx]
    exact UInt16.add_sub_cancel ..
  unfold VirtioNet.last_used
  dsimp only
  rw [← helem]
  congr 2
  rw [hback]

/-- With the length and the bytes of a frame the token hands that frame on. -/
theorem consume_of_delivery {ρ : Type} (f : List UInt8 → ρ) (net : VirtioNet) {delivery : Delivery}
    {frame : List UInt8} (hframe : frame.length ≤ 1536)
    (hlast : (VirtioNet.last_used delivery.used).len.toNat = HDR_SIZE + frame.length)
    (hstored : ∀ i < frame.length, delivery.stored i = frame[i]?) :
    VirtioRxToken.consume (fun _ => delivery) f net =
      some (f frame, ⟨{ VirtioNet.place net.queue 1536 with used := delivery.used }⟩) := by
  have hreceive : net.receive_frame (fun _ => delivery) (List.replicate 1536 0) =
      (.ok frame.length, (List.replicate 1536 0).mapIdx fun i byte => (delivery.stored i).getD byte,
        ⟨{ VirtioNet.place net.queue 1536 with used := delivery.used }⟩) := by
    unfold VirtioNet.receive_frame
    dsimp only
    rw [List.length_replicate, hlast, if_neg (by omega), Nat.add_sub_cancel_left]
  have hbuf : ((List.replicate 1536 (0 : UInt8)).mapIdx fun i byte => (delivery.stored i).getD byte).take
      frame.length = frame := by
    apply List.ext_getElem
    · rw [List.length_take, List.length_mapIdx, List.length_replicate]
      omega
    · intro i _ hi
      rw [List.getElem_take, List.getElem_mapIdx, hstored i hi, List.getElem?_eq_getElem hi, Option.getD_some]
  have hfits : frame.length ≤ ((List.replicate 1536 (0 : UInt8)).mapIdx fun i byte =>
      (delivery.stored i).getD byte).length := by
    rwa [List.length_mapIdx, List.length_replicate]
  unfold VirtioRxToken.consume
  dsimp only
  rw [hreceive]
  generalize (List.replicate 1536 (0 : UInt8)).mapIdx (fun i byte => (delivery.stored i).getD byte) = buf
    at hbuf hfits
  refine (if_pos hfits).trans ?_
  change some (f (List.take frame.length buf), _) = _
  rw [hbuf]

/-- The buffer of a token, as a device sees it. -/
theorem newest_place_buf (queue : VirtQueue) :
    (VirtioNet.place queue 1536).newest = frame_chain (List.replicate 1536 (0 : UInt8)).length true := by
  rw [newest_place queue (by norm_num), List.length_replicate]

/-- A frame that has arrived is handed to the stack as it is. -/
theorem receive_served {ρ : Type} (hdev : dev.Serves wire) (f : List UInt8 → ρ) {frame : List UInt8}
    {rest : List (List UInt8)} (harrived : (wire d).incoming = frame :: rest) (hframe : frame.length ≤ 1536) :
    ∃ net' d', VirtioRxToken.consume_from dev f net d = some (f frame, net', d') ∧
      wire d' = { wire d with incoming := rest } := by
  obtain ⟨d', delivery, hrun, hwire, hidx, helem, hstored⟩ := hdev.receive d _ (List.replicate 1536 0) frame rest
    (newest_place_buf net.queue) harrived (by rwa [List.length_replicate])
  have hlast : (VirtioNet.last_used delivery.used).len.toNat = HDR_SIZE + frame.length := by
    rw [last_used_of_next hidx helem]
    refine UInt32.toNat_ofNat_of_lt' ?_
    simp only [HDR_SIZE, UInt32.size]
    omega
  refine ⟨⟨{ VirtioNet.place net.queue 1536 with used := delivery.used }⟩, d', ?_, hwire⟩
  unfold VirtioRxToken.consume_from
  rw [hrun]
  dsimp only [bind, Option.bind]
  rw [consume_of_delivery f net hframe hlast hstored]
  rfl

theorem receive_waits {ρ : Type} (hdev : dev.Serves wire) (f : List UInt8 → ρ)
    (hnothing : (wire d).incoming = []) : VirtioRxToken.consume_from dev f net d = none := by
  have hrun := hdev.wait d _ (List.replicate 1536 0) (newest_place_buf net.queue) hnothing
  unfold VirtioRxToken.consume_from
  rw [hrun]
  rfl

/-- The length of a frame is a `u32` in its descriptor. -/
def Call.Fits : Call → Prop
  | .transmit len _ => len < 2 ^ 32
  | .receive => True

/-- A call on the driver is one on the network, and waits where that does. -/
theorem perform_served (hdev : dev.Serves wire) {call : Call} (hcall : call.Fits)
    (hframes : ∀ frame ∈ (wire d).incoming, frame.length ≤ 1536) :
    match (wire d).perform call with
    | some (frames, w) => ∃ net' d', call.perform dev net d = some (frames, net', d') ∧ wire d' = w
    | none => call.perform dev net d = none := by
  cases call with
  | transmit len f => exact transmit_served net hdev hcall fun buf => ([], f buf)
  | receive =>
    unfold Wire.perform
    cases harrived : (wire d).incoming with
    | nil => exact receive_waits net hdev _ harrived
    | cons frame rest =>
      rw [harrived] at hframes
      exact receive_served net hdev (fun frame => [frame]) harrived (hframes frame (List.mem_cons_self ..))

/-- Calls on the driver are calls on the network, over whole runs. -/
theorem performAll_served (hdev : dev.Serves wire) {calls : List Call} (hcalls : ∀ call ∈ calls, call.Fits)
    (hframes : ∀ frame ∈ (wire d).incoming, frame.length ≤ 1536) :
    match (wire d).performAll calls with
    | some (frames, w) => ∃ net' d', performAll dev net d calls = some (frames, net', d') ∧ wire d' = w
    | none => performAll dev net d calls = none := by
  induction calls generalizing net d with
  | nil => exact ⟨net, d, rfl, rfl⟩
  | cons call calls ih =>
    obtain ⟨hcall, hcalls⟩ := List.forall_mem_cons.mp hcalls
    have hfirst := perform_served net hdev hcall hframes
    unfold Wire.performAll performAll
    cases hperform : (wire d).perform call with
    | none =>
      rw [hperform] at hfirst
      rw [hfirst]
      rfl
    | some result =>
      obtain ⟨frames, w⟩ := result
      rw [hperform] at hfirst
      obtain ⟨net', d', hrun, rfl⟩ := hfirst
      have hrest := ih net' (d := d') hcalls fun frame hmem =>
        hframes frame (Wire.incoming_of_perform hperform ▸ List.mem_append_right _ hmem)
      rw [hrun]
      dsimp only [bind, Option.bind]
      cases hlater : (wire d').performAll calls with
      | none =>
        rw [hlater] at hrest
        rw [hrest]
      | some result =>
        obtain ⟨later, w⟩ := result
        rw [hlater] at hrest
        obtain ⟨net'', d'', hrun', hw⟩ := hrest
        rw [hrun']
        exact ⟨net'', d'', rfl, hw⟩

end Driver

/-- Over a device that serves the queue, with the flags that the comments of the driver give, the driver is the
network: whatever the ring indices are and however the stack mixes its calls, each frame that it transmits is
sent once and in order, and it is handed the frames that arrive, each once and in order. A call waits only where
no frame is left. -/
theorem frames_refine_wire (dev : Nic σ) (wire : σ → Wire) (hdev : dev.Serves wire) (net : VirtioNet) (d : σ)
    (calls : List Call) (hcalls : ∀ call ∈ calls, call.Fits)
    (hframes : ∀ frame ∈ (wire d).incoming, frame.length ≤ 1536) :
    (performAll dev net d calls).map (fun last => (last.1, wire last.2.2)) = (wire d).performAll calls ∧
      ((performAll dev net d calls).isSome ↔ received calls ≤ (wire d).incoming.length) ∧
      ∀ frames net' d', performAll dev net d calls = some (frames, net', d') →
        (wire d).incoming = frames ++ (wire d').incoming ∧
          (wire d').sent = (wire d).sent ++ transmitted calls := by
  have hserved := performAll_served net hdev hcalls hframes
  have hrefines : (performAll dev net d calls).map (fun last => (last.1, wire last.2.2)) =
      (wire d).performAll calls := by
    cases hwire : (wire d).performAll calls with
    | none =>
      rw [hwire] at hserved
      rw [hserved, Option.map_none]
    | some result =>
      rw [hwire] at hserved
      obtain ⟨net', d', hrun, hlast⟩ := hserved
      rw [hrun, Option.map_some, hlast]
  refine ⟨hrefines, ?_, ?_⟩
  · rw [← Wire.performAll_isSome_iff, ← hrefines, Option.isSome_map]
  · intro frames net' d' hrun
    rw [hrun, Option.map_some] at hrefines
    exact Wire.performAll_eq_some hrefines.symm

/-- One more element in the used ring. -/
def push_used (used : VirtqUsed) (elem : VirtqUsedElem) : VirtqUsed :=
  { used with
    idx := used.idx + 1
    ring := used.ring.set (used.idx.toNat % QUEUE_SIZE) elem (Nat.mod_lt _ (by decide)) }

/-- A device that looks at the queue, with its network as its state. -/
def wireNic : Nic Wire := fun w queue memory =>
  match queue.newest with
  | [⟨.header, 10, false⟩, ⟨.buf, _, false⟩] =>
    some ({ w with sent := w.sent ++ [memory .buf] }, ⟨push_used queue.used ⟨0, 0⟩, fun _ => none⟩)
  | [⟨.header, 10, true⟩, ⟨.buf, _, true⟩] =>
    match w.incoming with
    | [] => none
    | frame :: rest =>
      some ({ w with incoming := rest },
        ⟨push_used queue.used ⟨0, .ofNat (HDR_SIZE + frame.length)⟩, fun i => frame[i]?⟩)
  | _ => none

theorem wireNic_serves : wireNic.Serves id where
  send := by
    intro w queue frame hchain
    refine ⟨{ w with sent := w.sent ++ [frame] }, ⟨push_used queue.used ⟨0, 0⟩, fun _ => none⟩, ?_, rfl⟩
    simp only [wireNic, hchain, frame_chain, HDR_SIZE, contents]
  wait := by
    intro w queue buf hchain hnothing
    change w.incoming = [] at hnothing
    simp only [wireNic, hchain, frame_chain, HDR_SIZE, hnothing]
  receive := by
    intro w queue buf frame rest hchain harrived hfits
    change w.incoming = frame :: rest at harrived
    refine ⟨{ w with incoming := rest },
      ⟨push_used queue.used ⟨0, .ofNat (HDR_SIZE + frame.length)⟩, fun i => frame[i]?⟩, ?_, rfl, rfl, ?_,
      fun i _ => rfl⟩
    · simp only [wireNic, hchain, frame_chain, HDR_SIZE, harrived]
    · simp [push_used, Vector.get_eq_getElem]

/-- A driver whose ring indices are about to wrap around. -/
def lateDriver : VirtioNet :=
  ⟨{ VirtQueue.new with
    avail := { VirtQueue.new.avail with idx := 0xffff }
    used := { VirtQueue.new.used with idx := 0xffff } }⟩

/-- Two frames are received and one is sent between them while the ring indices wrap around. -/
theorem frames_refine_wire_late :
    ∃ net w, performAll wireNic lateDriver ⟨[], [[1, 2, 3], [4], [5]]⟩
        [.receive, .transmit 2 fun buf => buf.set 0 9, .receive] = some ([[1, 2, 3], [4]], net, w) ∧
      w = ⟨[[9, 0]], [[5]]⟩ := by
  obtain ⟨hrefines, _, _⟩ := frames_refine_wire wireNic id wireNic_serves lateDriver
    ⟨[], [[1, 2, 3], [4], [5]]⟩ [.receive, .transmit 2 fun buf => buf.set 0 9, .receive]
    (by simp [Call.Fits]) (by decide)
  obtain ⟨⟨frames, net, w⟩, hrun, hlast⟩ := Option.map_eq_some_iff.mp (hrefines.trans rfl)
  cases hlast
  exact ⟨net, _, hrun, rfl⟩

end net_server.virtio
