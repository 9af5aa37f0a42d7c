import L4Rust.AioServer.Replies
import L4Rust.Library.Machine

namespace aio_server

open libc

/-- A read that the server has accepted, which it does not record: the size that the client asked
for, and the bytes that the host has produced. -/
structure ReadCall where
  asked : Nat
  bytes : List UInt8
  deriving DecidableEq, Repr

/-- The read that a request asks for, if the server accepts it. -/
def accepted_read (layout : Layout) (host : Host) (msg : Message) : Option ReadCall :=
  if msg.mr0 = opcode.AIO_READ ∧ 0 ≤ host.result then
    (read_aiocb layout msg.mr1.toNat msg).bind fun cb =>
      if cb.aio_nbytes.toNat ≤ BR_DATA_BYTES then some ⟨cb.aio_nbytes.toNat, host.bytes⟩ else none
  else none

/-- The operations of the server, with the reads behind them by their slots. -/
structure Reads where
  ops : Slab Operation
  calls : Nat → Option ReadCall

def Reads.step (layout : Layout) (s : Reads) (request : Message × Host) : Reads where
  ops := (dispatch layout request.2 s.ops request.1).ops
  calls :=
    match accepted_read layout request.2 request.1 with
    | some call => Function.update s.calls request.2.key (some call)
    | none => s.calls

/-- The server with any requests, and a host that reads at most as much as it is asked for. -/
def reads (layout : Layout) : Machine Reads (Message × Host) where
  init s := s = ⟨.new, fun _ => none⟩
  allowed s request :=
    ∀ fd count offset, (dispatch layout request.2 s.ops request.1).made = some (.pread fd count offset) →
      request.2.result ≤ count ∧ request.2.bytes.length = request.2.result.toNat
  step s request := some (s.step layout request)

variable {layout : Layout} {host : Host} {ops : Slab Operation} {msg : Message}

/-- The reads among the operations were there before. -/
def KeepsReads (ops after : Slab Operation) : Prop :=
  ∀ slot op, after slot = some op → op.kind = .Read → ops slot = some op

theorem keepsReads_insert {key : Nat} {op : Operation} (hop : op.kind ≠ .Read) :
    KeepsReads ops (ops.insert key op) := by
  intro slot op' hslot hkind
  by_cases hkey : slot = key
  · subst hkey
    rw [Slab.insert, Function.update_self] at hslot
    cases hslot
    exact absurd hkind hop
  · rwa [Slab.insert, Function.update_of_ne hkey] at hslot

theorem keepsReads_remove {key : Nat} : KeepsReads ops (ops.remove key) := by
  intro slot op hslot _
  by_cases hkey : slot = key
  · subst hkey
    rw [Slab.remove, Function.update_self] at hslot
    cases hslot
  · rwa [Slab.remove, Function.update_of_ne hkey] at hslot

theorem keepsReads_same : KeepsReads ops ops := fun _ _ hslot _ => hslot

theorem submit_keepsReads {performed : Performed Operation}
    (h : ∀ op, performed.outcome = .ok op → op.kind ≠ .Read) :
    KeepsReads ops (submit host ops msg performed).ops := by
  unfold submit
  split
  case h_1 op hop => exact keepsReads_insert (h op hop)
  case h_2 => exact keepsReads_same

theorem map_outcome_ok {α β : Type} {p : Performed α} {f : α → β} {b : β}
    (h : (p.map f).outcome = .ok b) : ∃ a, p.outcome = .ok a ∧ f a = b := by
  cases houtcome : p.outcome with
  | error err =>
    simp only [Performed.map, houtcome] at h
    cases h
  | ok a =>
    simp only [Performed.map, houtcome] at h
    exact ⟨a, rfl, Except.ok.inj h⟩

theorem handle_aio_write_keepsReads : KeepsReads ops (handle_aio_write layout host ops msg).ops := by
  unfold handle_aio_write
  dsimp only
  split
  · exact keepsReads_same
  · apply submit_keepsReads
    intro op hop
    obtain ⟨result, -, rfl⟩ := map_outcome_ok hop
    exact OperationKind.noConfusion

theorem handle_aio_fsync_keepsReads : KeepsReads ops (handle_aio_fsync layout host ops msg).ops := by
  unfold handle_aio_fsync with_aiocb
  dsimp only
  split
  · exact keepsReads_same
  · apply submit_keepsReads
    intro op hop
    obtain ⟨result, -, rfl⟩ := map_outcome_ok hop
    exact OperationKind.noConfusion

theorem handle_aio_return_keepsReads : KeepsReads ops (handle_aio_return ops msg).ops := by
  unfold handle_aio_return
  dsimp only
  split
  · exact keepsReads_same
  · split
    · exact keepsReads_remove
    · split
      · exact keepsReads_remove
      · exact keepsReads_remove
      · exact keepsReads_remove

/-- Only a request to read adds a read. -/
theorem dispatch_keepsReads (layout : Layout) (host : Host) (ops : Slab Operation)
    (h : msg.mr0 ≠ opcode.AIO_READ) :
    KeepsReads ops (dispatch layout host ops msg).ops := by
  unfold dispatch
  rw [if_neg h]
  split
  · exact handle_aio_write_keepsReads
  split
  · unfold handle_aio_error
    split
    · exact keepsReads_same
    · exact keepsReads_same
  split
  · exact handle_aio_return_keepsReads
  split
  · unfold handle_aio_cancel
    dsimp only
    split
    · exact keepsReads_remove
    · exact keepsReads_same
  split
  · exact keepsReads_same
  split
  · exact handle_aio_fsync_keepsReads
  split
  · exact keepsReads_same
  · exact keepsReads_same

/-- What a request to read adds, if it is accepted. -/
theorem dispatch_read (layout : Layout) (host : Host) (ops : Slab Operation)
    (h : msg.mr0 = opcode.AIO_READ) :
    match accepted_read layout host msg with
    | none => (dispatch layout host ops msg).ops = ops
    | some call => ∃ fd offset,
      (dispatch layout host ops msg).made = some (.pread fd call.asked offset) ∧
        call.asked ≤ BR_DATA_BYTES ∧ call.bytes = host.bytes ∧ 0 ≤ host.result ∧
        (dispatch layout host ops msg).ops = ops.insert host.key
          ⟨.Read, fd, host.result, 0,
            (copy_to_zeroed call.asked host.bytes).take host.result.toNat⟩ := by
  unfold dispatch
  rw [if_pos h]
  unfold accepted_read handle_aio_read with_aiocb
  cases hcb : read_aiocb layout msg.mr1.toNat msg with
  | none => simp
  | some cb =>
    by_cases hsize : BR_DATA_BYTES < cb.aio_nbytes.toNat
    · have hlong : ¬ cb.aio_nbytes.toNat ≤ BR_DATA_BYTES := Nat.not_le.mpr hsize
      simp [submit, perform_read, Performed.map, Except.map, hsize, hlong]
    · by_cases hneg : host.result < 0
      · have hnonneg : ¬ 0 ≤ host.result := Int.not_le.mpr hneg
        simp [submit, perform_read, Performed.map, Except.map, hsize, hneg, hnonneg]
      · have hnonneg : 0 ≤ host.result := Int.not_lt.mp hneg
        have hfits : cb.aio_nbytes.toNat ≤ BR_DATA_BYTES := Nat.not_lt.mp hsize
        simp [submit, perform_read, Performed.map, Except.map, hsize, hneg, hnonneg, hfits, h]

/-- The operations that are reads hold the bytes of the reads behind them. -/
def Reads.Hold (s : Reads) : Prop :=
  ∀ slot op, s.ops slot = some op → op.kind = .Read → ∃ call, s.calls slot = some call ∧
    op.error = 0 ∧ op.result = call.bytes.length ∧ op.buffer = call.bytes ∧
    call.bytes.length ≤ call.asked ∧ call.asked ≤ BR_DATA_BYTES

theorem copy_to_zeroed_take {bytes : List UInt8} {size : Nat} (h : bytes.length ≤ size) :
    (copy_to_zeroed size bytes).take bytes.length = bytes := by
  rw [copy_to_zeroed, List.take_of_length_le h, List.take_left' rfl]

/-- What the host has read is what an operation is given. -/
theorem Reads.step_hold {s : Reads} {request : Message × Host} (hold : s.Hold)
    (hallowed : (reads layout).allowed s request) : (s.step layout request).Hold := by
  obtain ⟨msg, host⟩ := request
  unfold Reads.step
  by_cases hread : msg.mr0 = opcode.AIO_READ
  · have hdispatch := dispatch_read layout host s.ops hread
    cases haccepted : accepted_read layout host msg with
    | none =>
      rw [haccepted] at hdispatch
      dsimp only at hdispatch ⊢
      rw [hdispatch]
      exact hold
    | some call =>
      rw [haccepted] at hdispatch
      obtain ⟨fd, offset, hmade, hasked, hbytes, hnonneg, hops⟩ := hdispatch
      obtain ⟨hcount, hlength⟩ := hallowed _ _ _ hmade
      dsimp only at hcount hlength ⊢
      rw [hops]
      intro slot op hslot hkind
      dsimp only at hslot ⊢
      by_cases hkey : slot = host.key
      · subst hkey
        rw [Slab.insert, Function.update_self] at hslot
        cases hslot
        refine ⟨call, Function.update_self .., rfl, ?_, ?_, ?_, hasked⟩
        · rw [hbytes]
          dsimp only
          omega
        · rw [← hlength, hbytes]
          exact copy_to_zeroed_take (by omega)
        · rw [hbytes]
          omega
      · rw [Slab.insert, Function.update_of_ne hkey] at hslot
        rw [Function.update_of_ne hkey]
        exact hold slot op hslot hkind
  · have hkeeps := dispatch_keepsReads layout host s.ops hread
    have hnone : accepted_read layout host msg = none := if_neg fun h => hread h.1
    intro slot op hslot hkind
    dsimp only at hslot ⊢
    rw [hnone]
    exact hold slot op (hkeeps slot op hslot hkind) hkind

/-- In every run of the server its reads hold the bytes that the host has produced for them. -/
theorem reads_hold {past : List (Reads × (Message × Host))} {s : Reads}
    (hrun : (reads layout).Run past s) : s.Hold := by
  refine hrun.invariant ?_ ?_
  · rintro s rfl slot op hslot _
    cases hslot
  · intro s request t hold hallowed hstep
    cases hstep
    exact Reads.step_hold hold hallowed

/-- The reply to `aio_return` for a read. -/
theorem dispatch_returns_read {op : Operation} (hop : msg.mr0 = opcode.AIO_RETURN)
    (hslot : ops msg.mr1.toNat = some op) (hkind : op.kind = .Read) (herror : op.error = 0) :
    (dispatch layout host ops msg).msg.mr0 = .ofInt op.result ∧
      (dispatch layout host ops msg).msg.br = op.buffer.take BR_DATA_BYTES := by
  have hdispatch : dispatch layout host ops msg = handle_aio_return ops msg := by
    unfold dispatch
    rw [hop]
    rfl
  rw [hdispatch, handle_aio_return]
  simp [hslot, herror, hkind]

end aio_server
