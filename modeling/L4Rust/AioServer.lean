import L4Rust.L4.MsgTag
import L4Rust.Library.Slab

namespace aio_server

def BR_WORDS : Nat := l4_sys.UTCB_GENERIC_BUFFERS_SIZE

/-- Bytes of the buffer registers behind the length word. -/
def BR_DATA_BYTES : Nat := (BR_WORDS - 1) * 8

namespace libc

abbrev RawFd : Type := Int32

def EINVAL : Int := 22
def ENOSYS : Int := 38
def EOVERFLOW : Int := 75
def O_DSYNC : Int32 := 4096
def AIO_ALLDONE : Int := 2

/-- The fields of a control block that the client and the server use. -/
structure aiocb where
  aio_fildes : RawFd
  aio_buf : UInt64
  aio_nbytes : UInt64
  aio_offset : Int64
  deriving DecidableEq, Repr

/-- How a control block is laid out in memory, which the client and the server agree
on. -/
structure Layout where
  size : Nat
  bytes : aiocb → List UInt8
  fields : List UInt8 → aiocb
  size_pos : 0 < size
  size_lt : size < 2 ^ 63
  length_bytes : ∀ cb, (bytes cb).length = size
  fields_bytes : ∀ cb, fields (bytes cb) = cb

/-- The calls the server makes, with their arguments. -/
inductive Syscall where
  | pread (fd : RawFd) (count : Nat) (offset : Int64)
  | pwrite (fd : RawFd) (buf : List UInt8) (offset : Int64)
  | fsync (fd : RawFd)
  | fdatasync (fd : RawFd)
  deriving DecidableEq, Repr

end libc

open libc

namespace opcode

def AIO_READ : UInt64 := 0
def AIO_WRITE : UInt64 := 1
def AIO_ERROR : UInt64 := 2
def AIO_RETURN : UInt64 := 3
def AIO_CANCEL : UInt64 := 4
def AIO_SUSPEND : UInt64 := 5
def AIO_FSYNC : UInt64 := 6
def LIO_LISTIO : UInt64 := 7

end opcode

inductive OperationKind where
  | Read
  | Write
  | Fsync
  deriving DecidableEq, Repr

structure Operation where
  kind : OperationKind
  fd : RawFd
  result : Int
  error : Int
  buffer : List UInt8
  deriving DecidableEq, Repr

/-- The registers that an IPC carries: the message words and the bytes of the buffer
registers that the length word counts. -/
structure Message where
  mr0 : UInt64
  mr1 : UInt64
  mr2 : UInt64
  mr3 : UInt64
  br : List UInt8
  deriving DecidableEq, Repr

/-- What the host makes of a request: the result of the call, the error number if it
failed, the bytes that were read, and the key of the slab that is used next. -/
structure Host where
  result : Int
  errno : Int
  bytes : List UInt8
  key : Nat
  deriving DecidableEq, Repr

def encode_errno_raw (err : Int) : UInt64 := .ofInt (-err)

def br_bytes (msg : Message) : List UInt8 := msg.br.take BR_DATA_BYTES

/-- A zeroed buffer with bytes copied to its front. -/
def copy_to_zeroed (size : Nat) (bytes : List UInt8) : List UInt8 :=
  bytes.take size ++ List.replicate (size - bytes.length) 0

/-- A control block from at most so many bytes, its other bytes zero. -/
def copy_aiocb (layout : Layout) (bytes : List UInt8) : aiocb :=
  layout.fields (copy_to_zeroed layout.size bytes)

def read_aiocb (layout : Layout) (expected : Nat) (msg : Message) : Option aiocb :=
  if expected = 0 ∨ BR_DATA_BYTES < expected then none
  else if (br_bytes msg).length < expected then none
  else some (copy_aiocb layout ((br_bytes msg).take expected))

/-- The call that was made, if any, and what came of it. -/
structure Performed (α : Type) where
  made : Option Syscall
  outcome : Except Int α

def perform_read (host : Host) (fd : RawFd) (len : Nat) (offset : Int64) :
    Performed (List UInt8 × Int) :=
  if BR_DATA_BYTES < len then ⟨none, .error EOVERFLOW⟩
  else
    let buf := copy_to_zeroed len host.bytes
    ⟨some (.pread fd len offset),
      if host.result < 0 then .error host.errno
      else .ok (buf.take host.result.toNat, host.result)⟩

def perform_write (host : Host) (fd : RawFd) (payload : List UInt8) (offset : Int64) :
    Performed Int :=
  ⟨some (.pwrite fd payload offset),
    if host.result < 0 then .error host.errno else .ok host.result⟩

def perform_fsync (host : Host) (fd : RawFd) (op : Int32) : Performed Int :=
  ⟨some (if op = O_DSYNC then .fdatasync fd else .fsync fd),
    if host.result < 0 then .error host.errno else .ok 0⟩

/-- What a handler leaves behind: the operations, the reply, the call it made, and the
message registers it assigned to. -/
structure Served where
  ops : Slab Operation
  msg : Message
  made : Option Syscall
  assigned : List Nat

/-- The first word with the buffer registers cleared. -/
def Message.reply (msg : Message) (w : UInt64) : Message := { msg with mr0 := w, br := [] }

/-- The end of the handlers that submit: an operation that went through gets a slot. -/
def submit (host : Host) (ops : Slab Operation) (msg : Message) (performed : Performed Operation) :
    Served :=
  match performed.outcome with
  | .ok op => ⟨ops.insert host.key op, msg.reply (.ofNat host.key), performed.made, [0]⟩
  | .error err => ⟨ops, msg.reply (encode_errno_raw err), performed.made, [0]⟩

def Performed.map {α β : Type} (p : Performed α) (f : α → β) : Performed β :=
  ⟨p.made, p.outcome.map f⟩

/-- The handlers that start by copying the control block. -/
def with_aiocb (layout : Layout) (ops : Slab Operation) (msg : Message) (f : aiocb → Served) :
    Served :=
  match read_aiocb layout msg.mr1.toNat msg with
  | none => ⟨ops, msg.reply (encode_errno_raw EINVAL), none, [0]⟩
  | some cb => f cb

def handle_aio_read (layout : Layout) (host : Host) (ops : Slab Operation) (msg : Message) : Served :=
  with_aiocb layout ops msg fun cb =>
    submit host ops msg <|
      (perform_read host cb.aio_fildes cb.aio_nbytes.toNat cb.aio_offset).map fun (buffer, result) =>
        ⟨.Read, cb.aio_fildes, result, 0, buffer⟩

/-- Unlike the others, a write takes a control block of any length. -/
def handle_aio_write (layout : Layout) (host : Host) (ops : Slab Operation) (msg : Message) : Served :=
  let struct_len := msg.mr1.toNat
  let payload_len := msg.mr2.toNat
  let bytes := br_bytes msg
  if bytes.length < min (struct_len + payload_len) (2 ^ 64 - 1) then
    ⟨ops, msg.reply (encode_errno_raw EINVAL), none, [0]⟩
  else
    let cb := copy_aiocb layout (bytes.take struct_len)
    let payload := (bytes.drop struct_len).take payload_len
    submit host ops msg <|
      (perform_write host cb.aio_fildes payload cb.aio_offset).map fun result =>
        ⟨.Write, cb.aio_fildes, result, 0, []⟩

def handle_aio_fsync (layout : Layout) (host : Host) (ops : Slab Operation) (msg : Message) : Served :=
  let op_kind := msg.mr3.toInt64.toInt32
  with_aiocb layout ops msg fun cb =>
    submit host ops msg <|
      (perform_fsync host cb.aio_fildes op_kind).map fun result =>
        ⟨.Fsync, cb.aio_fildes, result, 0, []⟩

def handle_aio_error (ops : Slab Operation) (msg : Message) : Served :=
  match ops msg.mr1.toNat with
  | some op => ⟨ops, msg.reply (.ofInt op.error), none, [0]⟩
  | none => ⟨ops, msg.reply (encode_errno_raw EINVAL), none, [0]⟩

/-- The data of a read goes into the buffer registers. -/
def handle_aio_return (ops : Slab Operation) (msg : Message) : Served :=
  let handle := msg.mr1.toNat
  match ops handle with
  | none => ⟨ops, msg.reply (encode_errno_raw EINVAL), none, [0]⟩
  | some op =>
    let ops := ops.remove handle
    if op.error ≠ 0 then ⟨ops, msg.reply (encode_errno_raw op.error), none, [0]⟩
    else
      let msg := { msg with mr0 := .ofInt op.result }
      match op.kind with
      | .Read =>
        ⟨ops, { msg with mr1 := .ofNat op.buffer.length, br := op.buffer.take BR_DATA_BYTES }, none, [0, 1]⟩
      | .Write | .Fsync => ⟨ops, { msg with mr1 := 0, br := [] }, none, [0, 1]⟩

def handle_aio_cancel (ops : Slab Operation) (msg : Message) : Served :=
  let handle := msg.mr1.toNat
  match ops handle with
  | some _ => ⟨ops.remove handle, msg.reply (.ofInt AIO_ALLDONE), none, [0]⟩
  | none => ⟨ops, msg.reply (.ofInt AIO_ALLDONE), none, [0]⟩

/-- All operations are completed synchronously. -/
def handle_aio_suspend (ops : Slab Operation) (msg : Message) : Served := ⟨ops, msg.reply 0, none, [0]⟩

/-- List I/O is executed on the client side. -/
def handle_lio_listio (ops : Slab Operation) (msg : Message) : Served :=
  ⟨ops, msg.reply (encode_errno_raw ENOSYS), none, [0]⟩

/-- One round of the server loop. -/
def dispatch (layout : Layout) (host : Host) (ops : Slab Operation) (msg : Message) : Served :=
  if msg.mr0 = opcode.AIO_READ then handle_aio_read layout host ops msg
  else if msg.mr0 = opcode.AIO_WRITE then handle_aio_write layout host ops msg
  else if msg.mr0 = opcode.AIO_ERROR then handle_aio_error ops msg
  else if msg.mr0 = opcode.AIO_RETURN then handle_aio_return ops msg
  else if msg.mr0 = opcode.AIO_CANCEL then handle_aio_cancel ops msg
  else if msg.mr0 = opcode.AIO_SUSPEND then handle_aio_suspend ops msg
  else if msg.mr0 = opcode.AIO_FSYNC then handle_aio_fsync layout host ops msg
  else if msg.mr0 = opcode.LIO_LISTIO then handle_lio_listio ops msg
  else ⟨ops, msg.reply (encode_errno_raw ENOSYS), none, [0]⟩

/-- The tag that every reply carries. -/
def reply_tag : l4.ipc.MsgTag := .new 0 2 0 0

/-- What the system calls promise: a read returns at most as much as was asked for and
fills as much of the buffer, a write takes at most what it is given, and a failure
comes with an error number. -/
def Host.Answers (host : Host) (call : Syscall) : Prop :=
  (host.result < 0 → 0 < host.errno ∧ host.errno < 2 ^ 31) ∧
  match call with
  | .pread _ count _ => host.result ≤ count ∧ host.bytes.length = host.result.toNat
  | .pwrite _ buf _ => host.result ≤ buf.length
  | .fsync _ | .fdatasync _ => host.result ≤ 0

instance (host : Host) (call : Syscall) : Decidable (host.Answers call) :=
  match call with
  | .pread .. => inferInstanceAs (Decidable (_ ∧ _ ∧ _))
  | .pwrite .. => inferInstanceAs (Decidable (_ ∧ _))
  | .fsync _ | .fdatasync _ => inferInstanceAs (Decidable (_ ∧ _))

/-- What the slab promises: its keys are vacant and fit a vector, and 0 is the first. -/
def Host.Inserts (host : Host) (ops : Slab Operation) (accepted : Nat) : Prop :=
  (ops host.key).isNone ∧ host.key < 2 ^ 63 ∧ (accepted = 0 → host.key = 0)

instance (host : Host) (ops : Slab Operation) (accepted : Nat) : Decidable (host.Inserts ops accepted) :=
  inferInstanceAs (Decidable (_ ∧ _ ∧ (_ → _)))

end aio_server
