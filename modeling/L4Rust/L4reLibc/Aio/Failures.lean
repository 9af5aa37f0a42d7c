import L4Rust.L4reLibc.Aio.WriteRequest
import L4Rust.L4reLibc.Aio.Handles

open aio_server aio_server.libc

namespace l4re_libc.aio

def EIO : Int := 5

/-- What a call depends on outside of the library: the capability named "global_aio", the
reply to a request unless its IPC fails, and whether `malloc` finds memory. -/
structure Surroundings where
  global_aio : Option UInt64
  ipc : Message → Option Message
  malloc : Bool

/-- The static variables of the library. -/
structure Client where
  aio_head : List aio_mapping
  aio_gate : Option UInt64

def Client.insert_mapping (env : Surroundings) (cb : Ptr) (handle : UInt64) (self : Client) : Client :=
  if env.malloc then { self with aio_head := aio.insert_mapping cb handle self.aio_head } else self

def Client.ensure_gate (env : Surroundings) (self : Client) : Except Int Client := do
  let gate ← aio.ensure_gate self.aio_gate env.global_aio
  pure { self with aio_gate := some gate }

/-- The error is returned as it is once the caller has negated it. -/
def ipc_call (env : Surroundings) (msg : Message) : Except Int Message :=
  match env.ipc msg with
  | some reply => .ok reply
  | none => .error EIO

def submit_request (layout : Layout) (env : Surroundings) (cb : Ptr) (aiocb : aiocb) (op : UInt64)
    (payload : Nat → UInt8) (payload_len extra : UInt64) (client : Client) : Int × Client :=
  match client.ensure_gate env with
  | .error rc => (rc, client)
  | .ok client =>
    match submit_request.send layout aiocb op payload payload_len extra with
    | .error rc => (rc, client)
    | .ok msg =>
      match ipc_call env msg with
      | .error rc => (rc, client)
      | .ok reply =>
        let result := as_long_long reply.mr0
        if result < 0 then (as_int (-result), client)
        else (0, client.insert_mapping env cb reply.mr0)

/-- What `call_simple` returns and stores, and what it leaves in the buffer
registers. -/
structure Outcome where
  rc : Int
  result : Int
  aux : UInt64
  br : List UInt8

def call_simple (env : Surroundings) (op handle : UInt64) (client : Client) : Outcome × Client :=
  match client.ensure_gate env with
  | .error rc => (⟨rc, 0, 0, []⟩, client)
  | .ok client =>
    match ipc_call env (call_simple.send op handle) with
    | .error rc => (⟨rc, 0, 0, []⟩, client)
    | .ok reply =>
      let value := as_long_long reply.mr0
      if value < 0 then (⟨as_int (-value), 0, 0, reply.br⟩, client)
      else (⟨0, value, reply.mr1, reply.br⟩, client)

/-- `aio_read`, `aio_write` and `aio_fsync`. -/
def submitting (layout : Layout) (env : Surroundings) (call : Call) (op payload_len extra : UInt64)
    (client : Client) : Answer × Client :=
  if call.cb = NULL then (fails EINVAL, client)
  else
    let (rc, client) :=
      submit_request layout env call.cb call.aiocb op call.buf payload_len extra client
    if rc ≠ 0 then (fails rc, client) else (returns 0, client)

def aio_read (layout : Layout) (env : Surroundings) (call : Call) : Client → Answer × Client :=
  submitting layout env call opcode.AIO_READ 0 0

def aio_write (layout : Layout) (env : Surroundings) (call : Call) : Client → Answer × Client :=
  submitting layout env call opcode.AIO_WRITE call.aiocb.aio_nbytes 0

def aio_fsync (layout : Layout) (env : Surroundings) (op : Int32) (call : Call) :
    Client → Answer × Client :=
  submitting layout env call opcode.AIO_FSYNC 0 (.ofInt op.toInt)

def aio_error (env : Surroundings) (call : Call) (client : Client) : Answer × Client :=
  if call.cb = NULL then (returns EINVAL, client)
  else
    let handle := (find_mapping call.cb client.aio_head).elim 0 aio_mapping.handle
    if handle = 0 then (returns EINVAL, client)
    else
      let (outcome, client) := call_simple env opcode.AIO_ERROR handle client
      if outcome.rc ≠ 0 then (returns outcome.rc, client)
      else (returns (as_int outcome.result), client)

/-- `aio_return` and `aio_cancel`: the mapping is removed before the server is asked. -/
def finishing (env : Surroundings) (op : UInt64) (missing : Answer) (conclude : Outcome → Answer)
    (call : Call) (client : Client) : Answer × Client :=
  if call.cb = NULL then (missing, client)
  else
    let (handle, aio_head) := remove_mapping call.cb client.aio_head
    let client := { client with aio_head := aio_head }
    if handle = 0 then (missing, client)
    else
      let (outcome, client) := call_simple env op handle client
      (conclude outcome, client)

def aio_return (env : Surroundings) (call : Call) : Client → Answer × Client :=
  finishing env opcode.AIO_RETURN (fails EINVAL)
    (fun outcome =>
      if outcome.rc ≠ 0 then fails outcome.rc
      else if 0 < outcome.aux ∧ call.aiocb.aio_buf ≠ 0 then
        ⟨outcome.result, none, outcome.br.take (min outcome.br.length outcome.aux.toNat)⟩
      else returns outcome.result)
    call

def aio_cancel (env : Surroundings) (call : Call) : Client → Answer × Client :=
  finishing env opcode.AIO_CANCEL (returns AIO_ALLDONE)
    (fun outcome => if outcome.rc ≠ 0 then returns outcome.rc else returns AIO_ALLDONE) call

/-- A call from its start to its end. -/
def Call.run (layout : Layout) (env : Surroundings) (call : Call) : Client → Answer × Client :=
  match call.api with
  | .aio_read => aio_read layout env call
  | .aio_write => aio_write layout env call
  | .aio_fsync op => aio_fsync layout env op call
  | .aio_error => aio_error env call
  | .aio_return => aio_return env call
  | .aio_cancel => aio_cancel env call

variable {layout : Layout} {env : Surroundings} {call : Call} {client : Client}

/-- There is a server to send requests to. -/
def Client.HasGate (env : Surroundings) (client : Client) : Prop :=
  client.aio_gate.isSome ∨ env.global_aio.isSome

instance (env : Surroundings) (client : Client) : Decidable (client.HasGate env) :=
  inferInstanceAs (Decidable (_ ∨ _))

theorem ensure_gate_of_hasGate (h : client.HasGate env) :
    ∃ gate, client.ensure_gate env = .ok { client with aio_gate := some gate } := by
  obtain ⟨gate, hgate⟩ := ensure_gate_ok h
  refine ⟨gate, ?_⟩
  rw [Client.ensure_gate, hgate]
  rfl

theorem ensure_gate_of_not_hasGate (h : ¬ client.HasGate env) :
    client.ensure_gate env = .error ENOENT := by
  obtain ⟨hgate, hglobal⟩ := not_or.mp h
  rw [Option.not_isSome_iff_eq_none] at hgate hglobal
  rw [Client.ensure_gate, hgate, hglobal]
  rfl

theorem ipc_call_error_iff {msg : Message} : ipc_call env msg = .error EIO ↔ env.ipc msg = none := by
  unfold ipc_call
  cases env.ipc msg <;> simp

theorem ipc_call_of_reply {msg reply : Message} (h : env.ipc msg = some reply) :
    ipc_call env msg = .ok reply := by
  rw [ipc_call, h]

theorem submit_request_send_error {cb : aiocb} {op : UInt64} {payload : Nat → UInt8}
    {payload_len extra : UInt64} {rc : Int}
    (h : submit_request.send layout cb op payload payload_len extra = .error rc) : rc = EOVERFLOW := by
  unfold submit_request.send at h
  dsimp only at h
  split at h
  · exact (Except.error.inj h).symm
  · cases h

def Api.op : Api → UInt64
  | .aio_read => opcode.AIO_READ
  | .aio_write => opcode.AIO_WRITE
  | .aio_fsync _ => opcode.AIO_FSYNC
  | .aio_error => opcode.AIO_ERROR
  | .aio_return => opcode.AIO_RETURN
  | .aio_cancel => opcode.AIO_CANCEL

/-- The bytes behind the control block in the request of a submission. -/
def Call.payload_len (call : Call) : UInt64 :=
  match call.api with
  | .aio_write => call.aiocb.aio_nbytes
  | _ => 0

def Call.extra (call : Call) : UInt64 :=
  match call.api with
  | .aio_fsync op => .ofInt op.toInt
  | _ => 0

/-- The request of a submission reaches the server, which replies. -/
def Call.Replied (layout : Layout) (env : Surroundings) (call : Call) (client : Client)
    (reply : Message) : Prop :=
  call.cb ≠ NULL ∧ client.HasGate env ∧ ∃ msg,
    submit_request.send layout call.aiocb call.api.op call.buf call.payload_len call.extra = .ok msg ∧
      env.ipc msg = some reply

/-- `submit_request` as a submission calls it. -/
def Call.submit_request (layout : Layout) (env : Surroundings) (call : Call) : Client → Int × Client :=
  aio.submit_request layout env call.cb call.aiocb call.api.op call.buf call.payload_len call.extra

theorem submit_request_of_replied {reply : Message} (h : call.Replied layout env client reply) :
    ∃ gate, call.submit_request layout env client =
      if as_long_long reply.mr0 < 0 then
        (as_int (-as_long_long reply.mr0), { client with aio_gate := some gate })
      else (0, Client.insert_mapping env call.cb reply.mr0 { client with aio_gate := some gate }) := by
  obtain ⟨-, hgate, msg, hsend, hipc⟩ := h
  obtain ⟨gate, hok⟩ := ensure_gate_of_hasGate hgate
  refine ⟨gate, ?_⟩
  simp only [Call.submit_request, submit_request, hok, hsend, ipc_call_of_reply hipc]

theorem submit_request_of_not_replied (hcb : call.cb ≠ NULL)
    (h : ∀ reply, ¬ call.Replied layout env client reply) :
    (call.submit_request layout env client).1 ≠ 0 := by
  unfold Call.submit_request submit_request
  by_cases hgate : client.HasGate env
  case neg =>
    simp only [ensure_gate_of_not_hasGate hgate]
    decide
  obtain ⟨gate, hok⟩ := ensure_gate_of_hasGate hgate
  simp only [hok]
  cases hsend : submit_request.send layout call.aiocb call.api.op call.buf call.payload_len
      call.extra with
  | error rc =>
    simp only [submit_request_send_error hsend]
    decide
  | ok msg =>
    cases hipc : env.ipc msg with
    | some reply => exact absurd ⟨hcb, hgate, msg, hsend, hipc⟩ (h reply)
    | none =>
      simp only [ipc_call_error_iff.mpr hipc]
      decide

theorem Call.run_of_submits (h : call.api.submits = true) (client : Client) :
    call.run layout env client =
      if call.cb = NULL then (fails EINVAL, client)
      else
        let (rc, client) := call.submit_request layout env client
        if rc ≠ 0 then (fails rc, client) else (returns 0, client) := by
  unfold Call.run Call.submit_request Call.payload_len Call.extra
  cases hapi : call.api with
  | aio_read | aio_write | aio_fsync op => rfl
  | aio_error | aio_return | aio_cancel =>
    rw [hapi] at h
    cases h

/-- The int of a negated result is 0 if its lower half is. -/
theorem as_int_neg_eq_zero_iff (w : UInt64) : as_int (-as_long_long w) = 0 ↔ 2 ^ 32 ∣ w.toNat := by
  have hlong : as_long_long w = (w.toNat : Int).bmod (2 ^ 64) := by
    rw [as_long_long, ← Int64.toInt_toBitVec, UInt64.toBitVec_toInt64, BitVec.toInt_eq_toNat_bmod,
      UInt64.toNat_toBitVec]
  have hsize : (Int32.size : Int) = 2 ^ 32 := rfl
  rw [as_int, Int32.toInt_ofInt, ← Int.dvd_iff_bmod_eq_zero, hsize, hlong, Int.bmod_def]
  split <;> omega

theorem Call.run_eq_fails (hsubmits : call.api.submits = true)
    (h : ∀ reply, ¬ call.Replied layout env client reply) :
    (call.run layout env client).1.value = -1 := by
  rw [Call.run_of_submits hsubmits]
  by_cases hcb : call.cb = NULL
  · rw [if_pos hcb]
    rfl
  · rw [if_neg hcb]
    dsimp only
    rw [if_pos (submit_request_of_not_replied hcb h)]
    rfl

/-- A submission that the server has replied to fails if an error number is left of the
reply, and adds its mapping if there is none and memory for it. -/
theorem Call.run_of_replied {reply : Message} (hsubmits : call.api.submits = true)
    (h : call.Replied layout env client reply) :
    ((call.run layout env client).1.value = 0 ↔
      (as_long_long reply.mr0 < 0 → 2 ^ 32 ∣ reply.mr0.toNat)) ∧
    (call.run layout env client).2.aio_head =
      if 0 ≤ as_long_long reply.mr0 ∧ env.malloc then ⟨call.cb, reply.mr0⟩ :: client.aio_head
      else client.aio_head := by
  obtain ⟨gate, hsubmit⟩ := submit_request_of_replied h
  rw [Call.run_of_submits hsubmits, if_neg h.1, hsubmit, ← as_int_neg_eq_zero_iff]
  by_cases hneg : as_long_long reply.mr0 < 0
  · have hnonneg : ¬ 0 ≤ as_long_long reply.mr0 := Int.not_le.mpr hneg
    by_cases hint : as_int (-as_long_long reply.mr0) = 0
    · simp [hneg, hnonneg, hint, returns]
    · simp [hneg, hnonneg, hint, fails]
  · have hnonneg : 0 ≤ as_long_long reply.mr0 := Int.not_lt.mp hneg
    simp only [hneg, hnonneg, ne_eq, not_true_eq_false, if_false, true_and,
      false_implies, iff_true, Client.insert_mapping, insert_mapping]
    cases env.malloc <;> exact ⟨rfl, rfl⟩

theorem Call.Replied.unique {reply reply' : Message} (h : call.Replied layout env client reply)
    (h' : call.Replied layout env client reply') : reply = reply' := by
  obtain ⟨-, -, msg, hsend, hipc⟩ := h
  obtain ⟨-, -, msg', hsend', hipc'⟩ := h'
  rw [hsend] at hsend'
  rw [← Except.ok.inj hsend', hipc] at hipc'
  exact Option.some.inj hipc'

/-- The request of a call that removes the mapping does not reach the server: there is no
gate, or the IPC fails. -/
def Call.Stranded (env : Surroundings) (call : Call) (client : Client) : Prop :=
  call.api.finishes = true ∧ call.cb ≠ NULL ∧
    ∃ m, find_mapping call.cb client.aio_head = some m ∧ m.handle ≠ 0 ∧
      (client.ensure_gate env = .error ENOENT ∨
        ipc_call env (call_simple.send call.api.op m.handle) = .error EIO)

/-- A call that does not reach the server leaves the mappings alone, and a submission
succeeds only if its mapping is there. -/
structure Call.KeepsMappings (layout : Layout) (env : Surroundings) (call : Call) (client : Client) :
    Prop where
  stranded : call.Stranded env client → (call.run layout env client).2.aio_head = client.aio_head
  submitted : call.api.submits = true → (call.run layout env client).1.value = 0 →
    ∃ reply, call.Replied layout env client reply ∧
      ⟨call.cb, reply.mr0⟩ ∈ (call.run layout env client).2.aio_head

/-- Nothing goes wrong where the library does not look: the IPC of a call that has removed
its mapping, the allocation of a mapping, and a reply whose error number is lost as it
is narrowed. -/
structure Call.Untroubled (layout : Layout) (env : Surroundings) (call : Call) (client : Client) :
    Prop where
  reaches : ¬ call.Stranded env client
  stored : call.api.submits = true → ∀ reply, call.Replied layout env client reply →
    ⟨call.cb, reply.mr0⟩ ∈ client.aio_head ∨
      if as_long_long reply.mr0 < 0 then ¬ 2 ^ 32 ∣ reply.mr0.toNat else env.malloc

theorem call_simple_aio_head (env : Surroundings) (op handle : UInt64) (client : Client) :
    (call_simple env op handle client).2.aio_head = client.aio_head := by
  unfold call_simple
  by_cases hgate : client.HasGate env
  · obtain ⟨gate, hok⟩ := ensure_gate_of_hasGate hgate
    simp only [hok]
    split
    · rfl
    · split <;> rfl
  · simp only [ensure_gate_of_not_hasGate hgate]

theorem finishing_aio_head {op : UInt64} {missing : Answer} {conclude : Outcome → Answer}
    (h : call.api.finishes = true) (client : Client) :
    (finishing env op missing conclude call client).2.aio_head = call.rest client.aio_head := by
  unfold finishing Call.rest
  by_cases hcb : call.cb = NULL
  · simp [hcb]
  · by_cases hhandle : (remove_mapping call.cb client.aio_head).1 = 0
    · simp [hcb, hhandle, h]
    · simp [hcb, hhandle, h, call_simple_aio_head]

/-- Whether or not the server is reached, the mapping is gone. -/
theorem Call.run_aio_head_of_finishes (h : call.api.finishes = true) (client : Client) :
    (call.run layout env client).2.aio_head = call.rest client.aio_head := by
  unfold Call.run
  cases hapi : call.api with
  | aio_read | aio_write | aio_fsync op | aio_error =>
    rw [hapi] at h
    cases h
  | aio_return | aio_cancel => exact finishing_aio_head h client

theorem Call.Stranded.aio_head_ne (h : call.Stranded env client) :
    (call.run layout env client).2.aio_head ≠ client.aio_head := by
  obtain ⟨hfinishes, hcb, m, hfind, -⟩ := h
  rw [Call.run_aio_head_of_finishes hfinishes, Call.rest, if_pos ⟨hcb, hfinishes⟩]
  rcases remove_mapping_cases call.cb client.aio_head with ⟨hnone, _⟩ | ⟨m', rest, _, hrest, _, hperm⟩
  · rw [hfind] at hnone
    cases hnone
  · intro hsame
    rw [hrest] at hsame
    have hlength : client.aio_head.length = rest.length + 1 := hperm.length_eq
    have hshorter : rest.length = client.aio_head.length := congrArg List.length hsame
    omega

/-- What `call_simple` makes of a reply. -/
def Outcome.ofReply (reply : Message) : Outcome :=
  if as_long_long reply.mr0 < 0 then ⟨as_int (-as_long_long reply.mr0), 0, 0, reply.br⟩
  else ⟨0, as_long_long reply.mr0, reply.mr1, reply.br⟩

theorem call_simple_of_reply {op handle : UInt64} {reply : Message} (hgate : client.HasGate env)
    (hipc : env.ipc (call_simple.send op handle) = some reply) :
    (call_simple env op handle client).1 = .ofReply reply := by
  obtain ⟨gate, hok⟩ := ensure_gate_of_hasGate hgate
  simp only [call_simple, hok, ipc_call_of_reply hipc, Outcome.ofReply]
  split <;> rfl

theorem finishing_of_done {op : UInt64} {missing answer : Answer} {conclude : Outcome → Answer}
    {aio_head : List aio_mapping}
    (h : finishing.send op missing call client.aio_head = (aio_head, .done answer)) :
    (finishing env op missing conclude call client).1 = answer ∧
      (finishing env op missing conclude call client).2.aio_head = aio_head := by
  unfold finishing.send at h
  unfold finishing
  by_cases hcb : call.cb = NULL
  · rw [if_pos hcb] at h ⊢
    cases h
    exact ⟨rfl, rfl⟩
  · rw [if_neg hcb] at h ⊢
    dsimp only at h ⊢
    by_cases hhandle : (remove_mapping call.cb client.aio_head).1 = 0
    · rw [if_pos hhandle] at h ⊢
      cases h
      exact ⟨rfl, rfl⟩
    · rw [if_neg hhandle] at h
      cases h

theorem finishing_of_request {op : UInt64} {missing : Answer} {conclude : Outcome → Answer}
    {aio_head : List aio_mapping} {msg reply : Message} (hgate : client.HasGate env)
    (h : finishing.send op missing call client.aio_head = (aio_head, .request msg))
    (hipc : env.ipc msg = some reply) :
    (finishing env op missing conclude call client).1 = conclude (.ofReply reply) ∧
      (finishing env op missing conclude call client).2.aio_head = aio_head := by
  unfold finishing.send at h
  unfold finishing
  by_cases hcb : call.cb = NULL
  · rw [if_pos hcb] at h
    cases h
  · rw [if_neg hcb] at h ⊢
    dsimp only at h ⊢
    by_cases hhandle : (remove_mapping call.cb client.aio_head).1 = 0
    · rw [if_pos hhandle] at h
      cases h
    · rw [if_neg hhandle] at h ⊢
      cases h
      have hgate' : Client.HasGate env ⟨(remove_mapping call.cb client.aio_head).2, client.aio_gate⟩ := hgate
      rw [call_simple_of_reply hgate' hipc, call_simple_aio_head]
      exact ⟨rfl, rfl⟩

theorem aio_error_of_done {answer : Answer} {aio_head : List aio_mapping}
    (h : aio_error.send call client.aio_head = (aio_head, .done answer)) :
    (aio_error env call client).1 = answer ∧ (aio_error env call client).2.aio_head = aio_head := by
  unfold aio_error.send at h
  unfold aio_error
  by_cases hcb : call.cb = NULL
  · rw [if_pos hcb] at h ⊢
    cases h
    exact ⟨rfl, rfl⟩
  · rw [if_neg hcb] at h ⊢
    dsimp only at h ⊢
    by_cases hhandle : (find_mapping call.cb client.aio_head).elim 0 aio_mapping.handle = 0
    · rw [if_pos hhandle] at h ⊢
      cases h
      exact ⟨rfl, rfl⟩
    · rw [if_neg hhandle] at h
      cases h

theorem aio_error_of_request {aio_head : List aio_mapping} {msg reply : Message}
    (hgate : client.HasGate env) (h : aio_error.send call client.aio_head = (aio_head, .request msg))
    (hipc : env.ipc msg = some reply) :
    (aio_error env call client).1 =
        (if (Outcome.ofReply reply).rc ≠ 0 then returns (Outcome.ofReply reply).rc
        else returns (as_int (Outcome.ofReply reply).result)) ∧
      (aio_error env call client).2.aio_head = aio_head := by
  unfold aio_error.send at h
  unfold aio_error
  by_cases hcb : call.cb = NULL
  · rw [if_pos hcb] at h
    cases h
  · rw [if_neg hcb] at h ⊢
    dsimp only at h ⊢
    by_cases hhandle : (find_mapping call.cb client.aio_head).elim 0 aio_mapping.handle = 0
    · rw [if_pos hhandle] at h
      cases h
    · rw [if_neg hhandle] at h ⊢
      cases h
      rw [call_simple_of_reply hgate hipc]
      split <;> exact ⟨rfl, call_simple_aio_head ..⟩

theorem Call.send_of_submits (h : call.api.submits = true) (aio_head : List aio_mapping) :
    call.send layout aio_head = submitting.send call
      (submit_request.send layout call.aiocb call.api.op call.buf call.payload_len call.extra)
      aio_head := by
  unfold Call.send Call.payload_len Call.extra
  cases hapi : call.api with
  | aio_read | aio_write | aio_fsync op => rfl
  | aio_error | aio_return | aio_cancel =>
    rw [hapi] at h
    cases h

theorem submitting_of_done {aio_head : List aio_mapping} {answer : Answer} (hgate : client.HasGate env)
    (hsubmits : call.api.submits = true)
    (h : call.send layout client.aio_head = (aio_head, .done answer)) :
    (call.run layout env client).1 = answer ∧ (call.run layout env client).2.aio_head = aio_head := by
  rw [Call.send_of_submits hsubmits, submitting.send] at h
  rw [Call.run_of_submits hsubmits]
  by_cases hcb : call.cb = NULL
  · rw [if_pos hcb] at h ⊢
    cases h
    exact ⟨rfl, rfl⟩
  · rw [if_neg hcb] at h ⊢
    obtain ⟨gate, hok⟩ := ensure_gate_of_hasGate hgate
    cases hsend : submit_request.send layout call.aiocb call.api.op call.buf call.payload_len
        call.extra with
    | error rc =>
      have hrc : rc ≠ 0 := by
        rw [submit_request_send_error hsend]
        decide
      rw [hsend] at h
      cases h
      simp [Call.submit_request, submit_request, hok, hsend, hrc]
    | ok msg =>
      rw [hsend] at h
      cases h

theorem submitting_of_request {aio_head : List aio_mapping} {msg reply : Message}
    (hgate : client.HasGate env) (hmalloc : env.malloc = true) (hsubmits : call.api.submits = true)
    (h : call.send layout client.aio_head = (aio_head, .request msg)) (hipc : env.ipc msg = some reply) :
    ((call.run layout env client).2.aio_head, (call.run layout env client).1) =
      submitted.receive call reply aio_head := by
  rw [Call.send_of_submits hsubmits, submitting.send] at h
  by_cases hcb : call.cb = NULL
  · rw [if_pos hcb] at h
    cases h
  rw [if_neg hcb] at h
  cases hsend : submit_request.send layout call.aiocb call.api.op call.buf call.payload_len
      call.extra with
  | error rc =>
    rw [hsend] at h
    cases h
  | ok msg' =>
    rw [hsend] at h
    cases h
    obtain ⟨gate, hsubmit⟩ := submit_request_of_replied ⟨hcb, hgate, msg, hsend, hipc⟩
    rw [Call.run_of_submits hsubmits, if_neg hcb, hsubmit]
    by_cases hneg : as_long_long reply.mr0 < 0
    · by_cases hrc : as_int (-as_long_long reply.mr0) = 0 <;>
        simp [submitted.receive, submit_request.receive, hneg, hrc]
    · simp [submitted.receive, submit_request.receive, hneg, Client.insert_mapping, hmalloc]

/-- A call that sends nothing does what it does up to its IPC. -/
theorem Call.run_of_done {aio_head : List aio_mapping} {answer : Answer} (hgate : client.HasGate env)
    (h : call.send layout client.aio_head = (aio_head, .done answer)) :
    (call.run layout env client).1 = answer ∧ (call.run layout env client).2.aio_head = aio_head := by
  by_cases hsubmits : call.api.submits = true
  · exact submitting_of_done hgate hsubmits h
  · unfold Call.send at h
    unfold Call.run
    cases hapi : call.api with
    | aio_read | aio_write | aio_fsync op =>
      rw [hapi] at hsubmits
      exact absurd rfl hsubmits
    | aio_error =>
      rw [hapi] at h
      exact aio_error_of_done h
    | aio_return | aio_cancel =>
      rw [hapi] at h
      exact finishing_of_done h

/-- Where neither the IPC nor the allocation fails, a call is its two halves. -/
theorem Call.run_of_request {aio_head : List aio_mapping} {msg reply : Message}
    (hgate : client.HasGate env) (hmalloc : env.malloc = true)
    (h : call.send layout client.aio_head = (aio_head, .request msg)) (hipc : env.ipc msg = some reply) :
    ((call.run layout env client).2.aio_head, (call.run layout env client).1) =
      call.receive reply aio_head := by
  by_cases hsubmits : call.api.submits = true
  · rw [submitting_of_request hgate hmalloc hsubmits h hipc]
    unfold Call.receive
    cases hapi : call.api with
    | aio_read | aio_write | aio_fsync op => rfl
    | aio_error | aio_return | aio_cancel =>
      rw [hapi] at hsubmits
      cases hsubmits
  · unfold Call.send at h
    unfold Call.run Call.receive
    cases hapi : call.api with
    | aio_read | aio_write | aio_fsync op =>
      rw [hapi] at hsubmits
      exact absurd rfl hsubmits
    | aio_error =>
      rw [hapi] at h
      obtain ⟨hanswer, hhead⟩ := aio_error_of_request hgate h hipc
      dsimp only
      rw [hanswer, hhead, aio_error.receive, call_simple.receive, Outcome.ofReply]
      have hzero : as_int 0 = 0 := rfl
      by_cases hneg : as_long_long reply.mr0 < 0
      · by_cases hrc : as_int (-as_long_long reply.mr0) = 0 <;> simp [hneg, hrc, hzero]
      · simp [hneg]
    | aio_return =>
      rw [hapi] at h
      obtain ⟨hanswer, hhead⟩ := finishing_of_request hgate h hipc
      dsimp only [aio_return]
      rw [hanswer, hhead, aio_return.receive, call_simple.receive, Outcome.ofReply]
      by_cases hneg : as_long_long reply.mr0 < 0
      · simp [hneg]
      · by_cases hcopied : 0 < reply.mr1 ∧ call.aiocb.aio_buf ≠ 0 <;> simp [hneg, hcopied, returns]
    | aio_cancel =>
      rw [hapi] at h
      obtain ⟨hanswer, hhead⟩ := finishing_of_request hgate h hipc
      dsimp only [aio_cancel]
      rw [hanswer, hhead, aio_cancel.receive, call_simple.receive, Outcome.ofReply]
      by_cases hneg : as_long_long reply.mr0 < 0 <;> simp [hneg]

/-- The mapping of a submission that succeeds is there if there was memory for it. -/
theorem Call.mapped_iff {reply : Message} (hsubmits : call.api.submits = true)
    (h : call.Replied layout env client reply) :
    ((call.run layout env client).1.value = 0 →
      ⟨call.cb, reply.mr0⟩ ∈ (call.run layout env client).2.aio_head) ↔
    ⟨call.cb, reply.mr0⟩ ∈ client.aio_head ∨
      if as_long_long reply.mr0 < 0 then ¬ 2 ^ 32 ∣ reply.mr0.toNat else env.malloc := by
  obtain ⟨hvalue, hhead⟩ := Call.run_of_replied hsubmits h
  rw [hvalue, hhead]
  by_cases hneg : as_long_long reply.mr0 < 0
  · have hnonneg : ¬ 0 ≤ as_long_long reply.mr0 := Int.not_le.mpr hneg
    simp only [hneg, hnonneg, true_implies, false_and, if_false, if_true]
    exact imp_iff_or_not
  · have hnonneg : 0 ≤ as_long_long reply.mr0 := Int.not_lt.mp hneg
    cases env.malloc <;> simp [hneg, hnonneg]

/-- The mappings survive a call if and only if no request is cut off behind the removal
of its mapping, and a submission that the server has replied to finds memory for its
mapping or an error number in the reply. -/
theorem call_keeps_mappings_iff (layout : Layout) (env : Surroundings) (call : Call) (client : Client) :
    call.KeepsMappings layout env client ↔ call.Untroubled layout env client := by
  constructor
  · intro hkeeps
    refine ⟨fun hstranded => hstranded.aio_head_ne (hkeeps.stranded hstranded), ?_⟩
    intro hsubmits reply hreply
    rw [← Call.mapped_iff hsubmits hreply]
    intro hvalue
    obtain ⟨reply', hreply', hmapped⟩ := hkeeps.submitted hsubmits hvalue
    rwa [hreply.unique hreply']
  · intro huntroubled
    refine ⟨fun hstranded => absurd hstranded huntroubled.reaches, ?_⟩
    intro hsubmits hvalue
    by_cases hreplied : ∃ reply, call.Replied layout env client reply
    · obtain ⟨reply, hreply⟩ := hreplied
      have hstored := huntroubled.stored hsubmits reply hreply
      exact ⟨reply, hreply, (Call.mapped_iff hsubmits hreply).mpr hstored hvalue⟩
    · have hfails := Call.run_eq_fails hsubmits (not_exists.mp hreplied)
      rw [hfails] at hvalue
      cases hvalue

/-- Without a server `aio_return` fails, but the handle of the operation is lost; and a
write for which there is no memory succeeds without a mapping. -/
theorem mappings_lost :
    ¬ Call.KeepsMappings lp64Layout ⟨none, fun _ => none, true⟩
        ⟨.aio_return, 0x1000, ⟨3, 0, 8, 0⟩, fun _ => 0⟩ ⟨[⟨0x1000, 3⟩], none⟩ ∧
      ¬ Call.KeepsMappings lp64Layout ⟨some 5, fun _ => some ⟨3, 0, 0, 0, []⟩, false⟩
        ⟨.aio_write, 0x1000, ⟨3, 0, 8, 0⟩, fun _ => 65⟩ ⟨[], none⟩ := by
  constructor
  · intro hkeeps
    have hstranded : Call.Stranded ⟨none, fun _ => none, true⟩
        ⟨.aio_return, 0x1000, ⟨3, 0, 8, 0⟩, fun _ => 0⟩ ⟨[⟨0x1000, 3⟩], none⟩ :=
      ⟨rfl, by decide, ⟨0x1000, 3⟩, rfl, by decide, Or.inl rfl⟩
    exact hstranded.aio_head_ne (hkeeps.stranded hstranded)
  · intro hkeeps
    obtain ⟨reply, -, hmem⟩ := hkeeps.submitted rfl (by decide)
    cases hmem

end l4re_libc.aio
