import L4Rust.L4.MsgTag
import L4Rust.L4Sys.Utcb
import L4Rust.Library.Machine
import L4Rust.Library.Slab

namespace fd_server

abbrev RawFd : Type := Int

def BR_WORDS : Nat := l4_sys.UTCB_GENERIC_BUFFERS_SIZE

/-- Bytes of the buffer registers behind the length word. -/
def BR_DATA_BYTES : Nat := (BR_WORDS - 1) * 8

namespace libc

def EIO : Int := 5
def EBADF : Int := 9
def EINVAL : Int := 22
def ENOSYS : Int := 38

/-- `size_of::<itimerspec>()`: two times of two words each. -/
def SIZE_OF_ITIMERSPEC : Nat := 32

/-- The calls the server makes, with their arguments. -/
inductive Syscall where
  | eventfd (initval : UInt32) (flags : Int)
  | timerfd_create (clockid flags : Int)
  | timerfd_settime (fd : RawFd) (flags : Int) (new_value : List UInt8) (want_old : Bool)
  | timerfd_gettime (fd : RawFd)
  | signalfd4 (fd : RawFd) (mask : List UInt8) (size : Nat) (flags : Int)
  | inotify_init1 (flags : Int)
  | inotify_add_watch (fd : RawFd) (path : List UInt8) (mask : UInt32)
  | inotify_rm_watch (fd : RawFd) (wd : Int)
  | read (fd : RawFd) (count : Nat)
  | write (fd : RawFd) (value : UInt64)
  | close (fd : RawFd)
  deriving DecidableEq, Repr

end libc

open libc

namespace opcode

def EVENTFD_CREATE : UInt64 := 0
def EVENTFD_READ : UInt64 := 1
def EVENTFD_WRITE : UInt64 := 2
def EVENTFD_CLOSE : UInt64 := 3
def TIMERFD_CREATE : UInt64 := 16
def TIMERFD_SETTIME : UInt64 := 17
def TIMERFD_GETTIME : UInt64 := 18
def TIMERFD_READ : UInt64 := 19
def TIMERFD_CLOSE : UInt64 := 20
def SIGNALFD_CREATE : UInt64 := 32
def SIGNALFD_READ : UInt64 := 33
def SIGNALFD_CLOSE : UInt64 := 34
def INOTIFY_INIT : UInt64 := 48
def INOTIFY_ADD_WATCH : UInt64 := 49
def INOTIFY_RM_WATCH : UInt64 := 50
def INOTIFY_READ : UInt64 := 51
def INOTIFY_CLOSE : UInt64 := 52

end opcode

structure Eventfd where
  fd : RawFd

structure Timerfd where
  fd : RawFd

structure Signalfd where
  fd : RawFd

/-- An inotify descriptor and its watches. -/
structure Inotify where
  fd : RawFd
  watches : Int → Option Int

/-- The descriptor that is closed when a value is dropped. -/
class Drop (α : Type) where
  fd : α → RawFd

instance : Drop Eventfd := ⟨Eventfd.fd⟩
instance : Drop Timerfd := ⟨Timerfd.fd⟩
instance : Drop Signalfd := ⟨Signalfd.fd⟩
instance : Drop Inotify := ⟨Inotify.fd⟩

/-- The calls made so far, with their results. -/
abbrev Trace : Type := List (Syscall × Int)

/-- What the host makes of a request: the result of the call, the error number if
there is one, what it writes into a word or into a buffer, and the vacant key the
slab finds. -/
structure Host where
  result : Int
  errno : Option Int
  value : UInt64
  bytes : List UInt8
  key : Nat

open l4_sys (Br Utcb)

/-- A word read as a `c_int`. -/
def as_c_int (w : UInt64) : Int := w.toUInt32.toInt32.toInt

def neg_errno (errno : Int) : UInt64 := .ofInt (-errno)

def encode_errno (host : Host) : UInt64 := neg_errno (host.errno.getD EIO)

def br_read_bytes (br : Br) : List UInt8 :=
  br.bytes (min br.len.toNat BR_DATA_BYTES)

def br_read_exact (n : Nat) (br : Br) : Option (List UInt8) :=
  if n = 0 then some []
  else if br.len.toNat < n then none
  else some (br.bytes n)

def read_itimerspec (br : Br) : Option (List UInt8) := br_read_exact SIZE_OF_ITIMERSPEC br

def read_sigset (expected : Nat) (br : Br) : Option (List UInt8) :=
  let buf := br_read_bytes br
  if buf.length ≠ expected then none else some buf

/-- `CString::new` takes no bytes that are zero. -/
def cstring_new (buf : List UInt8) : Option (List UInt8) := if 0 ∈ buf then none else some buf

def read_string (br : Br) : Option (List UInt8) :=
  let buf := br_read_bytes br
  cstring_new (if buf.getLast? ≠ some 0 then buf ++ [0] else buf)

/-- A zeroed buffer after the host has written to it. -/
def fill (size : Nat) (bytes : List UInt8) : List UInt8 :=
  bytes.take size ++ List.replicate (size - bytes.length) 0

/-- What a handler works on: one of the slabs, the message registers and the calls
made so far. -/
structure Ctx (α : Type) where
  slab : Slab α
  utcb : Utcb
  trace : Trace

namespace Ctx

variable {α : Type}

def mr (ctx : Ctx α) (i : Nat) : UInt64 := ctx.utcb.mr i

def set_mr (ctx : Ctx α) (i : Nat) (w : UInt64) : Ctx α := { ctx with utcb := ctx.utcb.set_mr i w }

def br_clear (ctx : Ctx α) : Ctx α := { ctx with utcb := ctx.utcb.br_clear }

def br_write_bytes (ctx : Ctx α) (data : List UInt8) : Ctx α :=
  { ctx with utcb := ctx.utcb.br_write_bytes BR_DATA_BYTES data }

def syscall (ctx : Ctx α) (call : Syscall) (result : Int) : Ctx α :=
  { ctx with trace := ctx.trace ++ [(call, result)] }

def insert (ctx : Ctx α) (key : Nat) (entry : α) : Ctx α :=
  { ctx with slab := ctx.slab.insert key entry }

/-- Reply with a word and an empty buffer. -/
def reply (ctx : Ctx α) (w : UInt64) : Ctx α := (ctx.set_mr 0 w).br_clear

/-- The entry of a handle, or else the request fails. -/
def get_or_badf (ctx : Ctx α) (handle : Nat) (f : α → Ctx α) : Ctx α :=
  match ctx.slab handle with
  | some entry => f entry
  | none => ctx.reply (neg_errno EBADF)

end Ctx

section Families

variable {α : Type}

def handle_create (wrap : RawFd → α) (call : Syscall) (host : Host) (ctx : Ctx α) : Ctx α :=
  let ctx := ctx.syscall call host.result
  let fd := host.result
  if fd < 0 then ctx.reply (encode_errno host)
  else (ctx.insert host.key (wrap fd)).reply (.ofNat host.key)

variable [Drop α]

def handle_read_counter (host : Host) (ctx : Ctx α) : Ctx α :=
  let handle := (ctx.mr 1).toNat
  ctx.get_or_badf handle fun entry =>
    let ctx := ctx.syscall (.read (Drop.fd entry) 8) host.result
    if host.result ≠ 8 then ctx.reply (encode_errno host)
    else ((ctx.set_mr 0 0).set_mr 1 host.value).br_clear

def handle_read_records (host : Host) (ctx : Ctx α) : Ctx α :=
  let handle := (ctx.mr 1).toNat
  let max_bytes := min (ctx.mr 2).toNat BR_DATA_BYTES
  ctx.get_or_badf handle fun entry =>
    if max_bytes = 0 then ctx.reply (neg_errno EINVAL)
    else
      let ctx := ctx.syscall (.read (Drop.fd entry) max_bytes) host.result
      if host.result < 0 then ctx.reply (encode_errno host)
      else
        let buf := (fill max_bytes host.bytes).take host.result.toNat
        (ctx.br_write_bytes buf).set_mr 0 (.ofInt host.result)

/-- The removed entry is dropped. -/
def handle_close (host : Host) (ctx : Ctx α) : Ctx α :=
  let handle := (ctx.mr 1).toNat
  ctx.get_or_badf handle fun entry =>
    let ctx := { ctx with slab := ctx.slab.remove handle }
    (ctx.syscall (.close (Drop.fd entry)) host.result).reply 0

end Families

/-- A failure leaves the buffer registers as they are. -/
def handle_eventfd_create (host : Host) (ctx : Ctx Eventfd) : Ctx Eventfd :=
  let initval := (ctx.mr 1).toUInt32
  let flags := as_c_int (ctx.mr 2)
  let ctx := ctx.syscall (.eventfd initval flags) host.result
  let fd := host.result
  if fd < 0 then ctx.set_mr 0 (encode_errno host)
  else (ctx.insert host.key ⟨fd⟩).reply (.ofNat host.key)

def handle_eventfd_read : Host → Ctx Eventfd → Ctx Eventfd := handle_read_counter

def handle_eventfd_write (host : Host) (ctx : Ctx Eventfd) : Ctx Eventfd :=
  let handle := (ctx.mr 1).toNat
  let value := ctx.mr 2
  ctx.get_or_badf handle fun entry =>
    let ctx := ctx.syscall (.write entry.fd value) host.result
    if host.result ≠ 8 then ctx.reply (encode_errno host) else ctx.reply 0

def handle_eventfd_close : Host → Ctx Eventfd → Ctx Eventfd := handle_close

def handle_timerfd_create (host : Host) (ctx : Ctx Timerfd) : Ctx Timerfd :=
  handle_create Timerfd.mk (.timerfd_create (as_c_int (ctx.mr 1)) (as_c_int (ctx.mr 2))) host ctx

def handle_timerfd_settime (host : Host) (ctx : Ctx Timerfd) : Ctx Timerfd :=
  let handle := (ctx.mr 1).toNat
  let flags := as_c_int (ctx.mr 2)
  let want_old := ctx.mr 3 ≠ 0
  ctx.get_or_badf handle fun entry =>
    match read_itimerspec ctx.utcb.br with
    | none => ctx.reply (neg_errno EINVAL)
    | some new_value =>
      let ctx := ctx.syscall (.timerfd_settime entry.fd flags new_value want_old) host.result
      if host.result < 0 then ctx.reply (encode_errno host)
      else if want_old then (ctx.set_mr 0 0).br_write_bytes (fill SIZE_OF_ITIMERSPEC host.bytes)
      else ctx.reply 0

def handle_timerfd_gettime (host : Host) (ctx : Ctx Timerfd) : Ctx Timerfd :=
  let handle := (ctx.mr 1).toNat
  ctx.get_or_badf handle fun entry =>
    let ctx := ctx.syscall (.timerfd_gettime entry.fd) host.result
    if host.result < 0 then ctx.reply (encode_errno host)
    else (ctx.set_mr 0 0).br_write_bytes (fill SIZE_OF_ITIMERSPEC host.bytes)

def handle_timerfd_read : Host → Ctx Timerfd → Ctx Timerfd := handle_read_counter

def handle_timerfd_close : Host → Ctx Timerfd → Ctx Timerfd := handle_close

/-- With a target that is not negative an existing descriptor gets a new mask, and
nothing is inserted. -/
def handle_signalfd_create (host : Host) (ctx : Ctx Signalfd) : Ctx Signalfd :=
  let target := (ctx.mr 1).toInt64.toInt
  let flags := as_c_int (ctx.mr 2)
  let size := (ctx.mr 3).toNat
  match read_sigset size ctx.utcb.br with
  | none => ctx.reply (neg_errno EINVAL)
  | some mask_bytes =>
    if 0 ≤ target then
      ctx.get_or_badf target.toNat fun existing =>
        let ctx := ctx.syscall (.signalfd4 existing.fd mask_bytes size flags) host.result
        if host.result < 0 then ctx.reply (encode_errno host) else ctx.reply 0
    else handle_create Signalfd.mk (.signalfd4 (-1) mask_bytes size flags) host ctx

def handle_signalfd_read : Host → Ctx Signalfd → Ctx Signalfd := handle_read_records

def handle_signalfd_close : Host → Ctx Signalfd → Ctx Signalfd := handle_close

def handle_inotify_init (host : Host) (ctx : Ctx Inotify) : Ctx Inotify :=
  handle_create (⟨·, fun _ => none⟩) (.inotify_init1 (as_c_int (ctx.mr 1))) host ctx

def handle_inotify_add_watch (host : Host) (ctx : Ctx Inotify) : Ctx Inotify :=
  let handle := (ctx.mr 1).toNat
  let mask := (ctx.mr 2).toUInt32
  ctx.get_or_badf handle fun entry =>
    match read_string ctx.utcb.br with
    | none => ctx.reply (neg_errno EINVAL)
    | some path =>
      let ctx := ctx.syscall (.inotify_add_watch entry.fd path mask) host.result
      let wd := host.result
      if wd < 0 then ctx.reply (encode_errno host)
      else
        let entry := { entry with watches := Function.update entry.watches wd (some wd) }
        (ctx.insert handle entry).reply (.ofInt wd)

def handle_inotify_rm_watch (host : Host) (ctx : Ctx Inotify) : Ctx Inotify :=
  let handle := (ctx.mr 1).toNat
  let wd := as_c_int (ctx.mr 2)
  ctx.get_or_badf handle fun entry =>
    let ctx := ctx.syscall (.inotify_rm_watch entry.fd wd) host.result
    if host.result < 0 then ctx.reply (encode_errno host)
    else
      let entry := { entry with watches := Function.update entry.watches wd none }
      (ctx.insert handle entry).reply 0

def handle_inotify_read : Host → Ctx Inotify → Ctx Inotify := handle_read_records

def handle_inotify_close : Host → Ctx Inotify → Ctx Inotify := handle_close

/-- The slabs of the server, the message registers and the calls made so far. -/
structure Server where
  eventfds : Slab Eventfd
  timerfds : Slab Timerfd
  signalfds : Slab Signalfd
  inotifies : Slab Inotify
  utcb : Utcb
  trace : Trace

namespace Server

def on_eventfds (s : Server) (f : Ctx Eventfd → Ctx Eventfd) : Server :=
  let ctx := f ⟨s.eventfds, s.utcb, s.trace⟩
  { s with eventfds := ctx.slab, utcb := ctx.utcb, trace := ctx.trace }

def on_timerfds (s : Server) (f : Ctx Timerfd → Ctx Timerfd) : Server :=
  let ctx := f ⟨s.timerfds, s.utcb, s.trace⟩
  { s with timerfds := ctx.slab, utcb := ctx.utcb, trace := ctx.trace }

def on_signalfds (s : Server) (f : Ctx Signalfd → Ctx Signalfd) : Server :=
  let ctx := f ⟨s.signalfds, s.utcb, s.trace⟩
  { s with signalfds := ctx.slab, utcb := ctx.utcb, trace := ctx.trace }

def on_inotifies (s : Server) (f : Ctx Inotify → Ctx Inotify) : Server :=
  let ctx := f ⟨s.inotifies, s.utcb, s.trace⟩
  { s with inotifies := ctx.slab, utcb := ctx.utcb, trace := ctx.trace }

end Server

inductive Op where
  | eventfd_create | eventfd_read | eventfd_write | eventfd_close
  | timerfd_create | timerfd_settime | timerfd_gettime | timerfd_read | timerfd_close
  | signalfd_create | signalfd_read | signalfd_close
  | inotify_init | inotify_add_watch | inotify_rm_watch | inotify_read | inotify_close
  deriving DecidableEq, Repr

def Op.decode (w : UInt64) : Option Op :=
  if w = opcode.EVENTFD_CREATE then some .eventfd_create
  else if w = opcode.EVENTFD_READ then some .eventfd_read
  else if w = opcode.EVENTFD_WRITE then some .eventfd_write
  else if w = opcode.EVENTFD_CLOSE then some .eventfd_close
  else if w = opcode.TIMERFD_CREATE then some .timerfd_create
  else if w = opcode.TIMERFD_SETTIME then some .timerfd_settime
  else if w = opcode.TIMERFD_GETTIME then some .timerfd_gettime
  else if w = opcode.TIMERFD_READ then some .timerfd_read
  else if w = opcode.TIMERFD_CLOSE then some .timerfd_close
  else if w = opcode.SIGNALFD_CREATE then some .signalfd_create
  else if w = opcode.SIGNALFD_READ then some .signalfd_read
  else if w = opcode.SIGNALFD_CLOSE then some .signalfd_close
  else if w = opcode.INOTIFY_INIT then some .inotify_init
  else if w = opcode.INOTIFY_ADD_WATCH then some .inotify_add_watch
  else if w = opcode.INOTIFY_RM_WATCH then some .inotify_rm_watch
  else if w = opcode.INOTIFY_READ then some .inotify_read
  else if w = opcode.INOTIFY_CLOSE then some .inotify_close
  else none

def Server.dispatch (s : Server) (host : Host) : Op → Server
  | .eventfd_create => s.on_eventfds (handle_eventfd_create host)
  | .eventfd_read => s.on_eventfds (handle_eventfd_read host)
  | .eventfd_write => s.on_eventfds (handle_eventfd_write host)
  | .eventfd_close => s.on_eventfds (handle_eventfd_close host)
  | .timerfd_create => s.on_timerfds (handle_timerfd_create host)
  | .timerfd_settime => s.on_timerfds (handle_timerfd_settime host)
  | .timerfd_gettime => s.on_timerfds (handle_timerfd_gettime host)
  | .timerfd_read => s.on_timerfds (handle_timerfd_read host)
  | .timerfd_close => s.on_timerfds (handle_timerfd_close host)
  | .signalfd_create => s.on_signalfds (handle_signalfd_create host)
  | .signalfd_read => s.on_signalfds (handle_signalfd_read host)
  | .signalfd_close => s.on_signalfds (handle_signalfd_close host)
  | .inotify_init => s.on_inotifies (handle_inotify_init host)
  | .inotify_add_watch => s.on_inotifies (handle_inotify_add_watch host)
  | .inotify_rm_watch => s.on_inotifies (handle_inotify_rm_watch host)
  | .inotify_read => s.on_inotifies (handle_inotify_read host)
  | .inotify_close => s.on_inotifies (handle_inotify_close host)

/-- What comes in: a message with what the host will make of it, or an error of the
receive operation. -/
inductive Incoming where
  | ipc_error
  | request (utcb : Utcb) (host : Host)

/-- One round of the server loop. -/
def Server.run (s : Server) : Incoming → Server
  | .ipc_error => s
  | .request utcb host =>
    let s := { s with utcb := utcb }
    match Op.decode (utcb.mr 0) with
    | some op => s.dispatch host op
    | none => { s with utcb := (utcb.set_mr 0 (neg_errno ENOSYS)).br_clear }

theorem Server.run_of_op (s : Server) {utcb : Utcb} (host : Host) {op : Op}
    (hop : Op.decode (utcb.mr 0) = some op) :
    s.run (.request utcb host) = { s with utcb := utcb }.dispatch host op := by
  simp only [Server.run, hop]

theorem Server.run_of_unknown (s : Server) {utcb : Utcb} (host : Host)
    (hop : Op.decode (utcb.mr 0) = none) :
    s.run (.request utcb host) = { s with utcb := (utcb.set_mr 0 (neg_errno ENOSYS)).br_clear } := by
  simp only [Server.run, hop]

/-- The tag that every reply carries. -/
def reply_tag : l4.ipc.MsgTag := .new 0 1 0 0

end fd_server
