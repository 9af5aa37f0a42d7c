import L4Rust.L4.MsgTag
import L4Rust.L4Sys.Utcb
import L4Rust.Library.Slab

open l4_sys (Br Utcb)

namespace epoll_server

abbrev RawFd : Type := Int

def BR_WORDS : Nat := l4_sys.UTCB_GENERIC_BUFFERS_SIZE

/-- The first word is reserved for the payload length. -/
def BR_DATA_BYTES : Nat := (BR_WORDS - 1) * 8

namespace libc

def EIO : Int := 5
def EBADF : Int := 9
def EINVAL : Int := 22
def ENOSYS : Int := 38
def EOVERFLOW : Int := 75
def EPOLL_CTL_DEL : Int := 2

/-- The calls the server makes, with their arguments. An event is taken as its bytes. -/
inductive Syscall where
  | epoll_create1 (flags : Int)
  | epoll_ctl (epfd : RawFd) (op : Int) (fd : RawFd) (event : Option (List UInt8))
  | epoll_wait (epfd : RawFd) (maxevents timeout : Int)
  | close (fd : RawFd)
  deriving DecidableEq, Repr

end libc

open libc

namespace opcode

def CREATE1 : UInt64 := 0
def CTL : UInt64 := 1
def WAIT : UInt64 := 2
def CLOSE : UInt64 := 3

end opcode

structure EpollInstance where
  fd : RawFd

/-- What the host makes of a request: the result of the call, the error number if
there is one, the memory of the events it reports, and the vacant key the slab finds. -/
structure Host where
  result : Int
  errno : Option Int
  events : List UInt8
  key : Nat

/-- The instances, the registers, and the calls made so far with their results. -/
structure Server where
  instances : Slab EpollInstance
  utcb : Utcb
  trace : List (Syscall × Int)

/-- A word read as a `c_int`. -/
def as_c_int (w : UInt64) : Int := w.toUInt32.toInt32.toInt

def neg_errno (errno : Int) : UInt64 := .ofInt (-errno)

def encode_errno (host : Host) : UInt64 := neg_errno (host.errno.getD EIO)

namespace Server

variable (s : Server)

def set_mr (i : Nat) (w : UInt64) : Server := { s with utcb := s.utcb.set_mr i w }

def br_clear : Server := { s with utcb := s.utcb.br_clear }

def syscall (call : Syscall) (result : Int) : Server := { s with trace := s.trace ++ [(call, result)] }

/-- Reply with a word and an empty payload. -/
def reply (w : UInt64) : Server := (s.set_mr 0 w).br_clear

end Server

-- The size of an `epoll_event`, which is a matter of the platform.
variable (EPOLL_EVENT_SIZE : Nat)

/-- How many events fit into the buffer registers. -/
def MAX_SERIALISED_EVENTS : Nat :=
  if EPOLL_EVENT_SIZE = 0 then 0 else BR_DATA_BYTES / EPOLL_EVENT_SIZE

def br_read_event (br : Br) : Option (List UInt8) :=
  if EPOLL_EVENT_SIZE = 0 then none
  else if br.len.toNat < EPOLL_EVENT_SIZE then none
  else some (br.bytes EPOLL_EVENT_SIZE)

/-- So many events, laid out one behind the other. -/
def br_write_events (s : Server) (count : Nat) (events : List UInt8) : Server :=
  let bytes := min count (MAX_SERIALISED_EVENTS EPOLL_EVENT_SIZE) * EPOLL_EVENT_SIZE
  { s with utcb := { s.utcb with br :=
    ⟨.ofNat bytes, fun i => if i < bytes then events.getD i 0 else s.utcb.br.data i⟩ } }

/-- Without an event in the buffer registers only the message register is set. -/
def handle_ctl (host : Host) (s : Server) : Server :=
  let handle := (s.utcb.mr 1).toNat
  let op := as_c_int (s.utcb.mr 2)
  let target_fd := as_c_int (s.utcb.mr 3)
  let code : UInt64 := if host.result < 0 then encode_errno host else 0
  match s.instances handle with
  | none => s.reply (neg_errno EBADF)
  | some inst =>
    if op = EPOLL_CTL_DEL then
      (s.syscall (.epoll_ctl inst.fd op target_fd none) host.result).reply code
    else
      match br_read_event EPOLL_EVENT_SIZE s.utcb.br with
      | none => s.set_mr 0 (neg_errno EINVAL)
      | some event => (s.syscall (.epoll_ctl inst.fd op target_fd (some event)) host.result).reply code

def handle_wait (host : Host) (s : Server) : Server :=
  let handle := (s.utcb.mr 1).toNat
  let maxevents := as_c_int (s.utcb.mr 2)
  let timeout := as_c_int (s.utcb.mr 3)
  match s.instances handle with
  | none => s.reply (neg_errno EBADF)
  | some inst =>
    if maxevents ≤ 0 then s.reply (neg_errno EINVAL)
    else if MAX_SERIALISED_EVENTS EPOLL_EVENT_SIZE = 0 then s.reply (neg_errno EOVERFLOW)
    else
      let limit := min maxevents (MAX_SERIALISED_EVENTS EPOLL_EVENT_SIZE)
      let s := s.syscall (.epoll_wait inst.fd limit timeout) host.result
      if host.result < 0 then s.reply (encode_errno host)
      else (br_write_events EPOLL_EVENT_SIZE s host.result.toNat host.events).set_mr 0 (.ofInt host.result)

/-- The removed instance is dropped, which closes its descriptor. -/
def handle_close (host : Host) (s : Server) : Server :=
  let handle := (s.utcb.mr 1).toNat
  match s.instances handle with
  | some inst =>
    let s := { s with instances := s.instances.remove handle }
    (s.syscall (.close inst.fd) host.result).reply 0
  | none => s.reply (neg_errno EBADF)

/-- The branch of the server loop that makes an instance. -/
def create1 (host : Host) (s : Server) : Server :=
  let s := s.syscall (.epoll_create1 (as_c_int (s.utcb.mr 1))) host.result
  if host.result < 0 then s.reply (encode_errno host)
  else { s with instances := s.instances.insert host.key ⟨host.result⟩ }.reply (.ofNat host.key)

/-- One round of the server loop, for a message with what the host will make of it. -/
def Server.run (s : Server) (utcb : Utcb) (host : Host) : Server :=
  let s := { s with utcb := utcb }
  if utcb.mr 0 = opcode.CREATE1 then create1 host s
  else if utcb.mr 0 = opcode.CTL then handle_ctl EPOLL_EVENT_SIZE host s
  else if utcb.mr 0 = opcode.WAIT then handle_wait EPOLL_EVENT_SIZE host s
  else if utcb.mr 0 = opcode.CLOSE then handle_close host s
  else s.reply (neg_errno ENOSYS)

/-- The tag that every reply carries. -/
def reply_tag : l4.ipc.MsgTag := .new 0 1 0 0

end epoll_server
