import L4Rust.AioServer
import L4Rust.Library.Machine

open aio_server aio_server.libc

namespace l4re_libc.aio

/-- The address of a control block. -/
abbrev Ptr : Type := UInt64

def NULL : Ptr := 0

structure aio_mapping where
  cb : Ptr
  handle : UInt64
  deriving DecidableEq, Repr

def find_mapping (cb : Ptr) : List aio_mapping → Option aio_mapping
  | [] => none
  | cur :: next => if cur.cb = cb then some cur else find_mapping cb next

def insert_mapping (cb : Ptr) (handle : UInt64) (aio_head : List aio_mapping) : List aio_mapping :=
  ⟨cb, handle⟩ :: aio_head

/-- The handle that was mapped, or else 0, and the list without that mapping. -/
def remove_mapping (cb : Ptr) : List aio_mapping → UInt64 × List aio_mapping
  | [] => (0, [])
  | node :: next =>
    if node.cb = cb then (node.handle, next)
    else ((remove_mapping cb next).1, node :: (remove_mapping cb next).2)

/-- What a call returns: its value, the error number if it sets one, and the bytes
that it copied to `aio_buf`. -/
structure Answer where
  value : Int
  errno : Option Int
  copied : List UInt8
  deriving DecidableEq, Repr

def returns (value : Int) : Answer := ⟨value, none, []⟩

/-- `errno = rc` and -1 is returned. -/
def fails (rc : Int) : Answer := ⟨-1, some rc, []⟩

def as_long_long (w : UInt64) : Int := w.toInt64.toInt

def as_int (n : Int) : Int := (Int32.ofInt n).toInt

/-- `submit_request` up to its IPC. -/
def submit_request.send (layout : Layout) (cb : aiocb) (op : UInt64) (payload : Nat → UInt8)
    (payload_len extra : UInt64) : Except Int Message :=
  let struct_len : UInt64 := .ofNat layout.size
  if .ofNat BR_DATA_BYTES < struct_len + payload_len then .error EOVERFLOW
  else .ok ⟨op, struct_len, payload_len, extra,
    layout.bytes cb ++ (List.range payload_len.toNat).map payload⟩

/-- `submit_request` from the reply on. -/
def submit_request.receive (cb : Ptr) (reply : Message) (aio_head : List aio_mapping) :
    Int × List aio_mapping :=
  let result := as_long_long reply.mr0
  if result < 0 then (as_int (-result), aio_head)
  else (0, insert_mapping cb reply.mr0 aio_head)

/-- `call_simple` up to its IPC, which carries two words. -/
def call_simple.send (op handle : UInt64) : Message := ⟨op, handle, 0, 0, []⟩

/-- `call_simple` from the reply on. -/
def call_simple.receive (reply : Message) : Except Int (Int × UInt64) :=
  let value := as_long_long reply.mr0
  if value < 0 then .error (as_int (-value)) else .ok (value, reply.mr1)

inductive Api where
  | aio_read
  | aio_write
  | aio_fsync (op : Int32)
  | aio_error
  | aio_return
  | aio_cancel
  deriving DecidableEq, Repr

def Api.submits : Api → Bool
  | .aio_read | .aio_write | .aio_fsync _ => true
  | .aio_error | .aio_return | .aio_cancel => false

/-- The calls after which the control block has no mapping. -/
def Api.finishes : Api → Bool
  | .aio_return | .aio_cancel => true
  | .aio_read | .aio_write | .aio_fsync _ | .aio_error => false

/-- A call with its control block, the contents of that, and the bytes at
`aio_buf`. -/
structure Call where
  api : Api
  cb : Ptr
  aiocb : aiocb
  buf : Nat → UInt8

/-- The answer of a call that has no IPC to make, or else its request. -/
inductive Sent where
  | done (answer : Answer)
  | request (msg : Message)

def Sent.ofExcept : Except Int Message → Sent
  | .error rc => .done (fails rc)
  | .ok msg => .request msg

/-- `aio_read`, `aio_write` and `aio_fsync` up to their IPC, with the mappings they
leave. -/
def submitting.send (call : Call) (request : Except Int Message) (aio_head : List aio_mapping) :
    List aio_mapping × Sent :=
  if call.cb = NULL then (aio_head, .done (fails EINVAL)) else (aio_head, .ofExcept request)

def aio_read.send (layout : Layout) (call : Call) : List aio_mapping → List aio_mapping × Sent :=
  submitting.send call (submit_request.send layout call.aiocb opcode.AIO_READ call.buf 0 0)

def aio_write.send (layout : Layout) (call : Call) : List aio_mapping → List aio_mapping × Sent :=
  let len := call.aiocb.aio_nbytes
  submitting.send call (submit_request.send layout call.aiocb opcode.AIO_WRITE call.buf len 0)

def aio_fsync.send (layout : Layout) (op : Int32) (call : Call) :
    List aio_mapping → List aio_mapping × Sent :=
  submitting.send call
    (submit_request.send layout call.aiocb opcode.AIO_FSYNC call.buf 0 (.ofInt op.toInt))

def aio_error.send (call : Call) (aio_head : List aio_mapping) : List aio_mapping × Sent :=
  if call.cb = NULL then (aio_head, .done (returns EINVAL))
  else
    let entry := find_mapping call.cb aio_head
    let handle := entry.elim 0 aio_mapping.handle
    if handle = 0 then (aio_head, .done (returns EINVAL))
    else (aio_head, .request (call_simple.send opcode.AIO_ERROR handle))

/-- `aio_return` and `aio_cancel` up to their IPC. -/
def finishing.send (op : UInt64) (missing : Answer) (call : Call) (aio_head : List aio_mapping) :
    List aio_mapping × Sent :=
  if call.cb = NULL then (aio_head, .done missing)
  else
    let (handle, aio_head) := remove_mapping call.cb aio_head
    -- A mapping to handle 0 is gone by now, as if there had been none.
    if handle = 0 then (aio_head, .done missing)
    else (aio_head, .request (call_simple.send op handle))

def aio_return.send : Call → List aio_mapping → List aio_mapping × Sent :=
  finishing.send opcode.AIO_RETURN (fails EINVAL)

def aio_cancel.send : Call → List aio_mapping → List aio_mapping × Sent :=
  finishing.send opcode.AIO_CANCEL (returns AIO_ALLDONE)

/-- `aio_read`, `aio_write` and `aio_fsync` from the reply on. -/
def submitted.receive (call : Call) (reply : Message) (aio_head : List aio_mapping) :
    List aio_mapping × Answer :=
  let (rc, aio_head) := submit_request.receive call.cb reply aio_head
  if rc ≠ 0 then (aio_head, fails rc) else (aio_head, returns 0)

def aio_error.receive (reply : Message) : Answer :=
  match call_simple.receive reply with
  | .error rc => returns rc
  | .ok (value, _) => returns (as_int value)

def aio_return.receive (call : Call) (reply : Message) : Answer :=
  match call_simple.receive reply with
  -- The result and its length are still those that they were set to before.
  | .error rc => if rc ≠ 0 then fails rc else returns 0
  | .ok (value, aux) =>
    ⟨value, none,
      if 0 < aux ∧ call.aiocb.aio_buf ≠ 0 then reply.br.take (min reply.br.length aux.toNat) else []⟩

def aio_cancel.receive (reply : Message) : Answer :=
  match call_simple.receive reply with
  | .error rc => if rc ≠ 0 then returns rc else returns AIO_ALLDONE
  | .ok _ => returns AIO_ALLDONE

def Call.send (layout : Layout) (call : Call) (aio_head : List aio_mapping) :
    List aio_mapping × Sent :=
  match call.api with
  | .aio_read => aio_read.send layout call aio_head
  | .aio_write => aio_write.send layout call aio_head
  | .aio_fsync op => aio_fsync.send layout op call aio_head
  | .aio_error => aio_error.send call aio_head
  | .aio_return => aio_return.send call aio_head
  | .aio_cancel => aio_cancel.send call aio_head

def Call.receive (call : Call) (reply : Message) (aio_head : List aio_mapping) :
    List aio_mapping × Answer :=
  match call.api with
  | .aio_read | .aio_write | .aio_fsync _ => submitted.receive call reply aio_head
  | .aio_error => (aio_head, aio_error.receive reply)
  | .aio_return => (aio_head, aio_return.receive call reply)
  | .aio_cancel => (aio_head, aio_cancel.receive reply)

/-- The system call that a submission asks for. -/
def Call.asks (call : Call) : Option Syscall :=
  let cb := call.aiocb
  match call.api with
  | .aio_read => some (.pread cb.aio_fildes cb.aio_nbytes.toNat cb.aio_offset)
  | .aio_write =>
    some (.pwrite cb.aio_fildes ((List.range cb.aio_nbytes.toNat).map call.buf) cb.aio_offset)
  | .aio_fsync op => some (if op = O_DSYNC then .fdatasync cb.aio_fildes else .fsync cb.aio_fildes)
  | .aio_error | .aio_return | .aio_cancel => none

/-- An operation behind a submission: the call that was asked for and the one that the
server made, how that went, the slot it got, and how many operations had got one
before. -/
structure Op where
  asked : Option Syscall
  made : Option Syscall
  result : Int
  errno : Int
  data : List UInt8
  slot : Nat
  before : Nat
  deriving DecidableEq, Repr

/-- The error status of an operation that is complete. -/
def Op.status (op : Op) : Int := if op.result < 0 then op.errno else 0

def Op.Freed (ops : Slab Operation) (op : Op) : Prop := (ops op.slot).isNone

instance (ops : Slab Operation) (op : Op) : Decidable (op.Freed ops) :=
  inferInstanceAs (Decidable (_ = true))

/-- Where a thread is: outside the library, waiting for the server, or back from it.
A call carries the operation it is about. -/
inductive Pc where
  | idle
  | waiting (call : Call) (request : Message) (op : Option Op)
  | woken (call : Call) (reply : Message) (op : Option Op) (freed : Bool)

/-- A call that has returned: with the operation it was about, and whether the slot of
that was free when the server was done. -/
structure Reply where
  call : Call
  answer : Answer
  op : Option Op
  freed : Bool

/-- The client with its threads, the operations of the server, and a record of what
has happened: the operations accepted so far, those that were submitted successfully
and neither returned nor cancelled, and the calls that have returned. -/
structure System where
  map_lock : Option Nat
  aio_head : List aio_mapping
  ops : Slab Operation
  pc : Nat → Pc
  accepted : Nat
  owed : Ptr → Option Op
  replies : List Reply

/-- A thread makes a call, the server handles the request of a thread, or a thread
continues with the reply. -/
inductive Event where
  | enter (thread : Nat) (call : Call)
  | serve (thread : Nat) (host : Host)
  | resume (thread : Nat)

/-- What a control block is owed once the call is made. -/
def Call.claims (call : Call) (owed : Ptr → Option Op) : Ptr → Option Op :=
  if call.api.finishes then Function.update owed call.cb none else owed

/-- The operation behind a submission that the server handles. -/
def Call.operation (call : Call) (host : Host) (made : Option Syscall) (before : Nat) : Op where
  asked := call.asks
  made := made
  result := host.result
  errno := host.errno
  data := if call.api = .aio_read then host.bytes else []
  slot := host.key
  before := before

namespace System

/-- A call has returned without an IPC. -/
def settle (s : System) (call : Call) (aio_head : List aio_mapping) (answer : Answer) : System :=
  let op := s.owed call.cb
  { s with
    aio_head := aio_head
    owed := call.claims s.owed
    replies := s.replies ++ [⟨call, answer, op, op.all (·.Freed s.ops)⟩] }

/-- A call has sent its request. Only a submission keeps the lock until the reply. -/
def send (s : System) (t : Nat) (call : Call) (aio_head : List aio_mapping) (msg : Message) : System :=
  { s with
    map_lock := if call.api.submits then some t else s.map_lock
    aio_head := aio_head
    pc := Function.update s.pc t (.waiting call msg (s.owed call.cb))
    owed := call.claims s.owed }

def serve (layout : Layout) (s : System) (t : Nat) (host : Host) (call : Call) (msg : Message)
    (op : Option Op) : System :=
  let served := dispatch layout host s.ops msg
  let op := if call.api.submits then some (call.operation host served.made s.accepted) else op
  { s with
    ops := served.ops
    pc := Function.update s.pc t (.woken call served.msg op (op.all (·.Freed served.ops)))
    accepted := if call.api.submits ∧ (served.ops host.key).isSome then s.accepted + 1 else s.accepted }

def resume (s : System) (t : Nat) (call : Call) (reply : Message) (op : Option Op) (freed : Bool) :
    System :=
  let (aio_head, answer) := call.receive reply s.aio_head
  { s with
    map_lock := if call.api.submits then none else s.map_lock
    aio_head := aio_head
    pc := Function.update s.pc t .idle
    owed := if call.api.submits ∧ answer.value = 0 then Function.update s.owed call.cb op else s.owed
    replies := s.replies ++ [⟨call, answer, op, freed⟩] }

end System

def Event.run (layout : Layout) (s : System) : Event → Option System
  | .enter t call =>
    match call.send layout s.aio_head with
    | (aio_head, .done answer) => some (s.settle call aio_head answer)
    | (aio_head, .request msg) => some (s.send t call aio_head msg)
  | .serve t host =>
    match s.pc t with
    | .waiting call msg op => some (s.serve layout t host call msg op)
    | .idle | .woken .. => none
  | .resume t =>
    match s.pc t with
    | .woken call reply op freed => some (s.resume t call reply op freed)
    | .idle | .waiting .. => none

/-- A thread makes one call at a time, with control blocks of its own, and waits for the
lock. No buffer is larger than an object can be. -/
def Call.Allowed (owner : Ptr → Nat) (s : System) (t : Nat) (call : Call) : Pc → Prop
  | .idle =>
    (call.cb ≠ NULL → owner call.cb = t ∧ s.map_lock = none) ∧
      (call.api = .aio_write → call.aiocb.aio_nbytes.toNat < 2 ^ 63)
  | .waiting .. | .woken .. => False

instance (owner : Ptr → Nat) (s : System) (t : Nat) (call : Call) (pc : Pc) :
    Decidable (call.Allowed owner s t pc) :=
  match pc with
  | .idle => inferInstanceAs (Decidable ((_ → _) ∧ (_ → _)))
  | .waiting .. | .woken .. => inferInstanceAs (Decidable False)

/-- The server can handle a request that has been sent. -/
def Pc.Admits (layout : Layout) (s : System) (host : Host) : Pc → Prop
  | .waiting call msg _ =>
    (∀ made ∈ (dispatch layout host s.ops msg).made, host.Answers made) ∧
      (call.api.submits → host.Inserts s.ops s.accepted)
  | .idle | .woken .. => False

instance (layout : Layout) (s : System) (host : Host) (pc : Pc) :
    Decidable (pc.Admits layout s host) :=
  match pc with
  | .waiting .. => inferInstanceAs (Decidable (_ ∧ (_ → _)))
  | .idle | .woken .. => inferInstanceAs (Decidable False)

def Pc.Woken : Pc → Prop
  | .woken .. => True
  | .idle | .waiting .. => False

instance (pc : Pc) : Decidable pc.Woken :=
  match pc with
  | .woken .. => inferInstanceAs (Decidable True)
  | .idle | .waiting .. => inferInstanceAs (Decidable False)

def Event.Allowed (layout : Layout) (owner : Ptr → Nat) (s : System) : Event → Prop
  | .enter t call => call.Allowed owner s t (s.pc t)
  | .serve t host => (s.pc t).Admits layout s host
  | .resume t => (s.pc t).Woken

/-- The client, any number of threads of it, and the server at work. -/
def system (layout : Layout) (owner : Ptr → Nat) : Machine System Event where
  init s := s = ⟨none, [], .new, fun _ => .idle, 0, fun _ => none, []⟩
  allowed := Event.Allowed layout owner
  step := Event.run layout

instance (layout : Layout) (owner : Ptr → Nat) (s : System) (event : Event) :
    Decidable ((system layout owner).allowed s event) :=
  match event with
  | .enter t call => inferInstanceAs (Decidable (call.Allowed owner s t (s.pc t)))
  | .serve t host => inferInstanceAs (Decidable ((s.pc t).Admits layout s host))
  | .resume t => inferInstanceAs (Decidable (s.pc t).Woken)

end l4re_libc.aio
