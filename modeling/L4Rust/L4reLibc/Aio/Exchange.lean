import L4Rust.L4reLibc.Aio
import L4Rust.Library.Unsigned

open Unsigned (toInt64_ofInt)
open aio_server aio_server.libc

namespace l4re_libc.aio

variable {layout : Layout} {host : Host} {ops : Slab Operation} {msg : Message} {call : Call}

theorem as_long_long_ofInt {n : Int} (hle : -2 ^ 63 ≤ n) (hlt : n < 2 ^ 63) :
    as_long_long (.ofInt n) = n := by
  rw [as_long_long, toInt64_ofInt, Int64.toInt_ofInt_of_le hle hlt]

theorem as_long_long_ofNat {k : Nat} (hlt : k < 2 ^ 63) : as_long_long (.ofNat k) = k := by
  rw [as_long_long, UInt64.toInt64_ofNat', Int64.toInt_ofNat_of_lt hlt]

theorem as_int_of_lt {n : Int} (hle : -2 ^ 31 ≤ n) (hlt : n < 2 ^ 31) : as_int n = n :=
  Int32.toInt_ofInt_of_le hle hlt

theorem as_long_long_encode_errno_raw {err : Int} (hpos : 0 < err) (hlt : err < 2 ^ 31) :
    as_long_long (encode_errno_raw err) = -err :=
  as_long_long_ofInt (by omega) (by omega)

/-- An error number that a reply can carry. -/
def IsErrno (err : Int) : Prop := 0 < err ∧ err < 2 ^ 31

/-- The request that a call sends, with its handle if it looks one up. -/
def Call.Requests (layout : Layout) (call : Call) (msg : Message) : Prop :=
  match call.api with
  | .aio_read => submit_request.send layout call.aiocb opcode.AIO_READ call.buf 0 0 = .ok msg
  | .aio_write =>
    submit_request.send layout call.aiocb opcode.AIO_WRITE call.buf call.aiocb.aio_nbytes 0 = .ok msg ∧
      call.aiocb.aio_nbytes.toNat < 2 ^ 63
  | .aio_fsync op =>
    submit_request.send layout call.aiocb opcode.AIO_FSYNC call.buf 0 (.ofInt op.toInt) = .ok msg
  | .aio_error => msg = call_simple.send opcode.AIO_ERROR msg.mr1 ∧ msg.mr1 ≠ 0
  | .aio_return => msg = call_simple.send opcode.AIO_RETURN msg.mr1 ∧ msg.mr1 ≠ 0
  | .aio_cancel => msg = call_simple.send opcode.AIO_CANCEL msg.mr1 ∧ msg.mr1 ≠ 0

theorem Api.finishes_of_submits {api : Api} (h : api.submits = true) : api.finishes = false := by
  cases api <;> simp_all [Api.submits, Api.finishes]

theorem Call.Requests.handle_ne_zero (hreq : call.Requests layout msg)
    (hsubmits : call.api.submits = false) : msg.mr1.toNat ≠ 0 := by
  have hne : msg.mr1 ≠ 0 := by
    unfold Call.Requests at hreq
    cases hcall : call.api with
    | aio_read | aio_write | aio_fsync op =>
      rw [hcall] at hsubmits
      cases hsubmits
    | aio_error | aio_return | aio_cancel =>
      rw [hcall] at hreq
      exact hreq.2
  intro hzero
  exact hne (UInt64.toNat_inj.mp hzero)

/-- The entry of the server belongs to the operation. -/
structure Op.Stored (op : Op) (entry : Operation) : Prop where
  made : op.made = op.asked
  nonneg : 0 ≤ op.result
  lt : op.result < 2 ^ 63
  error : entry.error = 0
  result : entry.result = op.result
  data : op.data = if entry.kind = .Read then entry.buffer else []
  short : op.data.length ≤ BR_DATA_BYTES

/-- What the server makes of a submission: it is refused, or its operation gets a
slot. -/
inductive Submitted (op : Op) (ops : Slab Operation) (served : Served) : Prop
  | refused (err : Int) (herr : IsErrno err) (hops : served.ops = ops)
      (hreply : served.msg.mr0 = encode_errno_raw err)
  | accepted (entry : Operation) (hentry : op.Stored entry) (hops : served.ops = ops.insert op.slot entry)
      (hreply : served.msg.mr0 = .ofNat op.slot)

theorem toNat_size (layout : Layout) : (UInt64.ofNat layout.size).toNat = layout.size :=
  UInt64.toNat_ofNat_of_lt' (Nat.lt_trans layout.size_lt (by decide))

/-- A message that holds a control block and what is written to the file. -/
theorem submit_request_send_ok {cb : aiocb} {op : UInt64} {payload : Nat → UInt8}
    {payload_len extra : UInt64} (hlen : payload_len.toNat < 2 ^ 63)
    (h : submit_request.send layout cb op payload payload_len extra = .ok msg) :
    msg = ⟨op, .ofNat layout.size, payload_len, extra,
      layout.bytes cb ++ (List.range payload_len.toNat).map payload⟩ ∧
      layout.size + payload_len.toNat ≤ BR_DATA_BYTES := by
  unfold submit_request.send at h
  have hsize := layout.size_lt
  have hsum : (UInt64.ofNat layout.size + payload_len).toNat = layout.size + payload_len.toNat := by
    rw [UInt64.toNat_add, toNat_size, Nat.mod_eq_of_lt (by omega)]
  dsimp only at h
  split at h
  case isTrue => cases h
  case isFalse hfits =>
    rw [UInt64.lt_iff_toNat_lt, hsum] at hfits
    exact ⟨(Except.ok.inj h).symm, Nat.le_of_not_lt hfits⟩

theorem copy_aiocb_bytes (cb : aiocb) : copy_aiocb layout (layout.bytes cb) = cb := by
  have hlength := layout.length_bytes cb
  rw [copy_aiocb, copy_to_zeroed, hlength, Nat.sub_self, List.replicate_zero, List.append_nil,
    List.take_of_length_le (Nat.le_of_eq hlength), layout.fields_bytes]

/-- The server reads the control block that the client sent. -/
theorem with_aiocb_of_bytes (cb : aiocb) {f : aiocb → Served} (hfits : layout.size ≤ BR_DATA_BYTES)
    (hlen : msg.mr1 = .ofNat layout.size) (hbr : msg.br = layout.bytes cb) :
    with_aiocb layout ops msg f = f cb := by
  have hlength := layout.length_bytes cb
  have hbytes : br_bytes msg = layout.bytes cb := by
    rw [br_bytes, hbr, List.take_of_length_le (by omega)]
  have hread : read_aiocb layout msg.mr1.toNat msg = some cb := by
    have hpos := layout.size_pos
    rw [hlen, toNat_size, read_aiocb, if_neg (by omega), hbytes, hlength,
      if_neg (Nat.lt_irrefl _), List.take_of_length_le (Nat.le_of_eq hlength), copy_aiocb_bytes]
  rw [with_aiocb, hread]

theorem br_bytes_of_bytes (cb : aiocb) {payload : List UInt8}
    (hfits : layout.size + payload.length ≤ BR_DATA_BYTES) (hbr : msg.br = layout.bytes cb ++ payload) :
    br_bytes msg = layout.bytes cb ++ payload := by
  have hlength := layout.length_bytes cb
  rw [br_bytes, hbr, List.take_of_length_le (by rw [List.length_append]; omega)]

theorem copy_aiocb_of_bytes (cb : aiocb) {payload : List UInt8}
    (hfits : layout.size + payload.length ≤ BR_DATA_BYTES) (hstruct : msg.mr1 = .ofNat layout.size)
    (hbr : msg.br = layout.bytes cb ++ payload) :
    copy_aiocb layout ((br_bytes msg).take msg.mr1.toNat) = cb := by
  rw [br_bytes_of_bytes cb hfits hbr, hstruct, toNat_size, List.take_left' (layout.length_bytes cb),
    copy_aiocb_bytes]

/-- The server finds the control block and the payload where the client put them. -/
theorem handle_aio_write_of_bytes (cb : aiocb) {payload : List UInt8}
    (hfits : layout.size + payload.length ≤ BR_DATA_BYTES) (hstruct : msg.mr1 = .ofNat layout.size)
    (hlen : msg.mr2.toNat = payload.length) (hbr : msg.br = layout.bytes cb ++ payload) :
    handle_aio_write layout host ops msg =
      submit host ops msg ((perform_write host cb.aio_fildes payload cb.aio_offset).map fun result =>
        ⟨.Write, cb.aio_fildes, result, 0, []⟩) := by
  have hlength := layout.length_bytes cb
  have htotal : ¬ (layout.bytes cb ++ payload).length <
      min (layout.size + payload.length) (2 ^ 64 - 1) := by
    rw [List.length_append]
    omega
  unfold handle_aio_write
  simp only [br_bytes_of_bytes cb hfits hbr, hstruct, hlen, toNat_size, if_neg htotal,
    List.take_left' hlength, List.drop_left' hlength, List.take_length, copy_aiocb_bytes]

theorem take_copy_to_zeroed {size : Nat} {bytes : List UInt8} (h : bytes.length ≤ size) :
    (copy_to_zeroed size bytes).take bytes.length = bytes := by
  rw [copy_to_zeroed, List.take_of_length_le h, List.take_left]

section Performed

variable {fd : RawFd} {offset : Int64}

theorem perform_read_cases {len : Nat}
    (hanswers : ∀ made ∈ (perform_read host fd len offset).made, host.Answers made) :
    (∃ err, IsErrno err ∧ (perform_read host fd len offset).outcome = .error err) ∨
      (perform_read host fd len offset = ⟨some (.pread fd len offset), .ok (host.bytes, host.result)⟩ ∧
        len ≤ BR_DATA_BYTES ∧ 0 ≤ host.result ∧ host.result ≤ len ∧
        host.bytes.length = host.result.toNat) := by
  unfold perform_read at hanswers ⊢
  by_cases hlong : BR_DATA_BYTES < len
  · rw [if_pos hlong]
    exact Or.inl ⟨EOVERFLOW, ⟨by decide, by decide⟩, rfl⟩
  · rw [if_neg hlong] at hanswers ⊢
    obtain ⟨herrno, hle, hlength⟩ := hanswers _ rfl
    by_cases hneg : host.result < 0
    · exact Or.inl ⟨host.errno, herrno hneg, if_pos hneg⟩
    · have hbytes : host.bytes.length ≤ len := by omega
      refine Or.inr ⟨?_, by omega, by omega, hle, hlength⟩
      dsimp only
      rw [if_neg hneg, ← hlength, take_copy_to_zeroed hbytes]

theorem perform_write_cases {payload : List UInt8}
    (hanswers : ∀ made ∈ (perform_write host fd payload offset).made, host.Answers made) :
    (∃ err, IsErrno err ∧ (perform_write host fd payload offset).outcome = .error err) ∨
      (perform_write host fd payload offset = ⟨some (.pwrite fd payload offset), .ok host.result⟩ ∧
        0 ≤ host.result ∧ host.result ≤ payload.length) := by
  obtain ⟨herrno, hle⟩ := hanswers _ rfl
  unfold perform_write
  by_cases hneg : host.result < 0
  · exact Or.inl ⟨host.errno, herrno hneg, if_pos hneg⟩
  · exact Or.inr ⟨by rw [if_neg hneg], by omega, hle⟩

/-- A call that goes through returns 0, as the server records. -/
theorem perform_fsync_cases {op : Int32}
    (hanswers : ∀ made ∈ (perform_fsync host fd op).made, host.Answers made) :
    (∃ err, IsErrno err ∧ (perform_fsync host fd op).outcome = .error err) ∨
      (perform_fsync host fd op =
        ⟨some (if op = O_DSYNC then .fdatasync fd else .fsync fd), .ok host.result⟩ ∧
        host.result = 0) := by
  obtain ⟨herrno, hle⟩ := hanswers _ rfl
  have hle : host.result ≤ 0 := by
    by_cases hop : op = O_DSYNC
    · simpa [hop] using hle
    · simpa [hop] using hle
  unfold perform_fsync
  by_cases hneg : host.result < 0
  · exact Or.inl ⟨host.errno, herrno hneg, if_pos hneg⟩
  · have hzero : host.result = 0 := by omega
    exact Or.inr ⟨by rw [if_neg hneg, hzero], hzero⟩

end Performed

section Submissions

theorem made_submit {performed : Performed Operation} :
    (submit host ops msg performed).made = performed.made := by
  unfold submit
  split <;> rfl

/-- An operation gets a slot exactly when its system call went through. -/
theorem submit_submitted {α : Type} {p : Performed α} {f : α → Operation} {op : Op}
    (hslot : op.slot = host.key)
    (hperformed : (∃ err, IsErrno err ∧ p.outcome = .error err) ∨
      ∃ a, p.outcome = .ok a ∧ op.Stored (f a)) :
    Submitted op ops (submit host ops msg (p.map f)) := by
  unfold submit Performed.map
  rcases hperformed with ⟨err, herr, houtcome⟩ | ⟨a, houtcome, hstored⟩
  · rw [houtcome]
    exact .refused err herr rfl rfl
  · rw [houtcome]
    exact .accepted (f a) hstored (by rw [hslot]; rfl) (by rw [hslot]; rfl)

variable (before : Nat)

theorem handle_aio_read_submitted (hcall : call.api = .aio_read) (hreq : call.Requests layout msg)
    (hanswers : ∀ made ∈ (handle_aio_read layout host ops msg).made, host.Answers made) :
    Submitted (call.operation host (handle_aio_read layout host ops msg).made before) ops
      (handle_aio_read layout host ops msg) := by
  simp only [Call.Requests, hcall] at hreq
  obtain ⟨rfl, hfits⟩ := submit_request_send_ok (by decide) hreq
  rw [handle_aio_read, with_aiocb_of_bytes call.aiocb (by omega) rfl (by simp)] at hanswers ⊢
  rw [made_submit] at hanswers ⊢
  refine submit_submitted rfl ?_
  rcases perform_read_cases hanswers with ⟨err, herr, houtcome⟩ |
    ⟨hread, hlen, hnonneg, hle, hlength⟩
  · exact Or.inl ⟨err, herr, houtcome⟩
  · rw [hread]
    have hshort : BR_DATA_BYTES < 2 ^ 63 := by decide
    refine Or.inr ⟨_, rfl, ?_, hnonneg, ?_, rfl, rfl, ?_, ?_⟩
    · simp [Call.operation, Call.asks, hcall, Performed.map]
    · simp only [Call.operation]
      omega
    · simp [Call.operation, hcall]
    · simp only [Call.operation, hcall, if_pos]
      omega

theorem handle_aio_write_submitted (hcall : call.api = .aio_write) (hreq : call.Requests layout msg)
    (hanswers : ∀ made ∈ (handle_aio_write layout host ops msg).made, host.Answers made) :
    Submitted (call.operation host (handle_aio_write layout host ops msg).made before) ops
      (handle_aio_write layout host ops msg) := by
  simp only [Call.Requests, hcall] at hreq
  obtain ⟨rfl, hfits⟩ := submit_request_send_ok hreq.2 hreq.1
  have hlength : ((List.range call.aiocb.aio_nbytes.toNat).map call.buf).length =
      call.aiocb.aio_nbytes.toNat := by simp
  rw [handle_aio_write_of_bytes call.aiocb (by rwa [hlength]) rfl hlength.symm rfl, made_submit]
    at hanswers ⊢
  refine submit_submitted rfl ?_
  rcases perform_write_cases hanswers with ⟨err, herr, houtcome⟩ | ⟨hwrite, hnonneg, hle⟩
  · exact Or.inl ⟨err, herr, houtcome⟩
  · rw [hwrite]
    refine Or.inr ⟨_, rfl, ?_, hnonneg, ?_, rfl, rfl, ?_, ?_⟩
    · simp [Call.operation, Call.asks, hcall, Performed.map]
    · simp only [Call.operation]
      omega
    · simp [Call.operation, hcall]
    · simp [Call.operation, hcall]

theorem handle_aio_fsync_submitted {op : Int32} (hcall : call.api = .aio_fsync op)
    (hreq : call.Requests layout msg)
    (hanswers : ∀ made ∈ (handle_aio_fsync layout host ops msg).made, host.Answers made) :
    Submitted (call.operation host (handle_aio_fsync layout host ops msg).made before) ops
      (handle_aio_fsync layout host ops msg) := by
  simp only [Call.Requests, hcall] at hreq
  obtain ⟨rfl, hfits⟩ := submit_request_send_ok (by decide) hreq
  have hop : (UInt64.ofInt op.toInt).toInt64.toInt32 = op := by
    rw [toInt64_ofInt, Int64.toInt32_ofInt, Int32.ofInt_toInt]
  rw [handle_aio_fsync, with_aiocb_of_bytes call.aiocb (by omega) rfl (by simp)] at hanswers ⊢
  rw [made_submit, hop] at hanswers ⊢
  refine submit_submitted rfl ?_
  rcases perform_fsync_cases hanswers with ⟨err, herr, houtcome⟩ | ⟨hsync, hzero⟩
  · exact Or.inl ⟨err, herr, houtcome⟩
  · rw [hsync]
    refine Or.inr ⟨_, rfl, ?_, ?_, ?_, rfl, rfl, ?_, ?_⟩
    · simp [Call.operation, Call.asks, hcall, Performed.map]
    · simp [Call.operation, hzero]
    · simp [Call.operation, hzero]
    · simp [Call.operation, hcall]
    · simp [Call.operation, hcall]

end Submissions

/-- The server hands a request to the handler of the call that sent it. -/
theorem dispatch_of_requests (hreq : call.Requests layout msg) :
    dispatch layout host ops msg =
      match call.api with
      | .aio_read => handle_aio_read layout host ops msg
      | .aio_write => handle_aio_write layout host ops msg
      | .aio_fsync _ => handle_aio_fsync layout host ops msg
      | .aio_error => handle_aio_error ops msg
      | .aio_return => handle_aio_return ops msg
      | .aio_cancel => handle_aio_cancel ops msg := by
  unfold Call.Requests at hreq
  cases hcall : call.api with
  | aio_read =>
    rw [hcall] at hreq
    obtain ⟨rfl, _⟩ := submit_request_send_ok (by decide) hreq
    rfl
  | aio_write =>
    rw [hcall] at hreq
    obtain ⟨rfl, _⟩ := submit_request_send_ok hreq.2 hreq.1
    rfl
  | aio_fsync op =>
    rw [hcall] at hreq
    obtain ⟨rfl, _⟩ := submit_request_send_ok (by decide) hreq
    rfl
  | aio_error | aio_return | aio_cancel =>
    rw [hcall] at hreq
    rw [hreq.1]
    rfl

theorem dispatch_submitted (before : Nat) (hsubmits : call.api.submits = true)
    (hreq : call.Requests layout msg)
    (hanswers : ∀ made ∈ (dispatch layout host ops msg).made, host.Answers made) :
    Submitted (call.operation host (dispatch layout host ops msg).made before) ops
      (dispatch layout host ops msg) := by
  rw [dispatch_of_requests hreq] at hanswers ⊢
  cases hcall : call.api with
  | aio_read =>
    rw [hcall] at hanswers
    exact handle_aio_read_submitted before hcall hreq hanswers
  | aio_write =>
    rw [hcall] at hanswers
    exact handle_aio_write_submitted before hcall hreq hanswers
  | aio_fsync op =>
    rw [hcall] at hanswers
    exact handle_aio_fsync_submitted before hcall hreq hanswers
  | aio_error | aio_return | aio_cancel =>
    rw [hcall] at hsubmits
    cases hsubmits

theorem remove_of_none {handle : Nat} (h : ops handle = none) : ops.remove handle = ops := by
  rw [Slab.remove, ← h, Function.update_eq_self]

theorem handle_aio_error_ops : (handle_aio_error ops msg).ops = ops := by
  unfold handle_aio_error
  split <;> rfl

theorem handle_aio_return_ops : (handle_aio_return ops msg).ops = ops.remove msg.mr1.toNat := by
  unfold handle_aio_return
  cases hentry : ops msg.mr1.toNat with
  | none =>
    simp only [hentry]
    exact (remove_of_none hentry).symm
  | some entry =>
    simp only [hentry]
    split_ifs
    · rfl
    · cases entry.kind <;> rfl

theorem handle_aio_cancel_ops : (handle_aio_cancel ops msg).ops = ops.remove msg.mr1.toNat := by
  unfold handle_aio_cancel
  cases hentry : ops msg.mr1.toNat with
  | none =>
    simp only [hentry]
    exact (remove_of_none hentry).symm
  | some entry => simp only [hentry]

/-- The calls that give up their handle free its slot, `aio_error` leaves it alone. -/
theorem dispatch_ops (host : Host) (ops : Slab Operation) (hsubmits : call.api.submits = false)
    (hreq : call.Requests layout msg) :
    (dispatch layout host ops msg).ops =
      if call.api.finishes then ops.remove msg.mr1.toNat else ops := by
  rw [dispatch_of_requests hreq]
  cases hcall : call.api with
  | aio_read | aio_write | aio_fsync op =>
    rw [hcall] at hsubmits
    cases hsubmits
  | aio_error => exact handle_aio_error_ops
  | aio_return => exact handle_aio_return_ops
  | aio_cancel => exact handle_aio_cancel_ops

section Replies

variable {reply : Message} {aio_head : List aio_mapping}

theorem Call.receive_of_submits (hsubmits : call.api.submits = true) :
    call.receive reply aio_head = submitted.receive call reply aio_head := by
  unfold Call.receive
  cases hcall : call.api with
  | aio_read | aio_write | aio_fsync op => rfl
  | aio_error | aio_return | aio_cancel =>
    rw [hcall] at hsubmits
    cases hsubmits

/-- A submission that the server refuses fails with its error number. -/
theorem Call.receive_of_errno {err : Int} (hsubmits : call.api.submits = true) (herr : IsErrno err)
    (hreply : reply.mr0 = encode_errno_raw err) :
    call.receive reply aio_head = (aio_head, fails err) := by
  obtain ⟨hpos, hlt⟩ := herr
  have hvalue : as_long_long reply.mr0 = -err := by
    rw [hreply, as_long_long_encode_errno_raw hpos hlt]
  have hsubmit : submit_request.receive call.cb reply aio_head = (err, aio_head) := by
    rw [submit_request.receive, hvalue, Int.neg_neg, as_int_of_lt (by omega) hlt]
    exact if_pos (by omega)
  rw [Call.receive_of_submits hsubmits, submitted.receive, hsubmit]
  exact if_pos (by omega)

/-- A submission that gets a slot is mapped to it. -/
theorem Call.receive_of_slot {k : Nat} (hsubmits : call.api.submits = true) (hk : k < 2 ^ 63)
    (hreply : reply.mr0 = .ofNat k) :
    call.receive reply aio_head = (⟨call.cb, .ofNat k⟩ :: aio_head, returns 0) := by
  have hvalue : as_long_long reply.mr0 = k := by rw [hreply, as_long_long_ofNat hk]
  have hsubmit : submit_request.receive call.cb reply aio_head =
      (0, insert_mapping call.cb reply.mr0 aio_head) := by
    rw [submit_request.receive, hvalue]
    exact if_neg (by omega)
  rw [Call.receive_of_submits hsubmits, submitted.receive, hsubmit, hreply]
  rfl

/-- The other calls leave the mappings alone when they go on. -/
theorem Call.receive_of_not_submits (hsubmits : call.api.submits = false) :
    call.receive reply aio_head = (aio_head, (call.receive reply []).2) := by
  unfold Call.receive
  cases hcall : call.api with
  | aio_read | aio_write | aio_fsync op =>
    rw [hcall] at hsubmits
    cases hsubmits
  | aio_error | aio_return | aio_cancel => rfl

end Replies

section Answers

variable {op : Op} {entry : Operation}

/-- The status of an operation that went through is 0. -/
theorem aio_error_answers (hentry : ops msg.mr1.toNat = some entry) (hstored : op.Stored entry) :
    aio_error.receive (handle_aio_error ops msg).msg = returns op.status := by
  have hstatus : op.status = 0 := if_neg (Int.not_lt.mpr hstored.nonneg)
  have hreply : (handle_aio_error ops msg).msg = msg.reply 0 := by
    simp only [handle_aio_error, hentry, hstored.error]
    rfl
  rw [hreply, hstatus]
  rfl

theorem handle_aio_return_reply (hentry : ops msg.mr1.toNat = some entry) (hstored : op.Stored entry) :
    (handle_aio_return ops msg).msg = { msg with
      mr0 := .ofInt op.result, mr1 := .ofNat op.data.length, br := op.data } := by
  have herror : ¬ entry.error ≠ 0 := not_not.mpr hstored.error
  have hbr : op.data.take BR_DATA_BYTES = op.data := List.take_of_length_le hstored.short
  have hdata := hstored.data
  unfold handle_aio_return
  simp only [hentry, if_neg herror, hstored.result]
  cases hkind : entry.kind with
  | Read =>
    rw [if_pos hkind] at hdata
    dsimp only
    rw [← hdata, hbr]
  | Write | Fsync =>
    rw [if_neg (by simp [hkind])] at hdata
    rw [hdata]
    rfl

/-- The result of an operation is returned with the data that it read. -/
theorem aio_return_answers (hentry : ops msg.mr1.toNat = some entry) (hstored : op.Stored entry) :
    aio_return.receive call (handle_aio_return ops msg).msg =
      ⟨op.result, none, if call.aiocb.aio_buf = 0 then [] else op.data⟩ := by
  have hnonneg := hstored.nonneg
  have hvalue : as_long_long (.ofInt op.result) = op.result :=
    as_long_long_ofInt (by omega) hstored.lt
  have haux : (UInt64.ofNat op.data.length).toNat = op.data.length :=
    UInt64.toNat_ofNat_of_lt' (Nat.lt_of_le_of_lt hstored.short (by decide))
  rw [handle_aio_return_reply hentry hstored]
  simp only [aio_return.receive, call_simple.receive, hvalue, if_neg (Int.not_lt.mpr hnonneg), haux,
    Nat.min_self, List.take_length, UInt64.lt_iff_toNat_lt]
  congr 1
  by_cases hbuf : call.aiocb.aio_buf = 0
  · simp [hbuf]
  · by_cases hempty : op.data = []
    · simp [hbuf, hempty]
    · simp [hbuf, List.length_pos_iff.mpr hempty]

end Answers

end l4re_libc.aio
