import L4Rust.L4.Ipc.Iface
import Mathlib.Logic.Function.Basic

open l4.error l4.utcb

namespace l4.ipc

/-- The server objects of a program: the interface of the one at an address, and what its methods do to
all of them. A method that panics aborts. -/
structure Objects (σ : Type) where
  interface : BitVec 64 → Option Interface
  call : BitVec 64 → (m : Method) → List Arg → Exec Error σ m.ret.Val

/-- What a dispatcher works on. -/
structure Serving (σ : Type) where
  reader : Reader
  objects : σ

namespace Serving

variable {σ α : Type}

def onReader (x : Exec Error Reader α) : Exec Error (Serving σ) α :=
  Exec.zoom Serving.reader (fun reader s => { s with reader := reader }) x

def onObjects (x : Exec Error σ α) : Exec Error (Serving σ) α :=
  Exec.zoom Serving.objects (fun objects s => { s with objects := objects }) x

end Serving

inductive LoopAction where
  | ReplyAndWait (tag : MsgTag)
  | Break
  deriving DecidableEq, Repr

/-- The hooks of a server loop. One that panics returns nothing. -/
structure LoopHook where
  ipc_error : MsgTag → Option LoopAction
  application_error : Error → LoopAction

variable (sys : Fpages) (codes : Codes) (l4_ipc_error : MsgTag → BitVec 64)

/-- The code of an error that an IPC comes back with, negated. -/
def DefaultHooks.ipc_error_label : Error → Option (BitVec 64)
  | .Generic e => some (BitVec.ofNat 64 (codes.generic e) * -1)
  | .Tcr e => some (BitVec.ofNat 64 (codes.tcr e) * -1)
  | .Unknown e => some (e * -1)
  | .InvalidCap | .InvalidArg _ _ | .InvalidState _ | .Protocol _ | .InvalidEncoding _ => none

def DefaultHooks : LoopHook where
  ipc_error tag :=
    match tag.result codes l4_ipc_error with
    | .ok _ => none
    | .error e => do
      let label ← DefaultHooks.ipc_error_label codes e
      pure (.ReplyAndWait (MsgTag.new label 0 0 0))
  application_error e := .ReplyAndWait (MsgTag.new (e.into_ipc_err codes) 0 0 0)

/-- `server_impl_callback` for the object at an address, which calls the dispatcher of its interface. The
object is called with the arguments decoded, and its result replaces the request in the registers. -/
def server_impl_callback {σ : Type} (objects : Objects σ) (ptr : BitVec 64) (I : Interface) (tag : MsgTag) :
    Exec Error (Serving σ) MsgTag := do
  let (m, args) ← Serving.onReader (op_decode sys I tag)
  let user_ret ← Serving.onObjects (objects.call ptr m args)
  Serving.onReader do
    Reader.onMr UtcbMr.reset
    Reader.onMr (m.ret.write sys user_ret)
  let s ← Exec.get
  pure (MsgTag.new 0 (BitVec.ofNat 32 s.reader.mr.words) (BitVec.ofNat 32 s.reader.mr.items) 0)

/-- What a server loop is in. `reply_and_wait` sends a reply, if there is someone to take it, and then
waits as well. -/
inductive Syscall (κ : Type) where
  | l4_ipc_wait
  | reply (client : Option κ) (replytag : MsgTag)
  | reply_and_wait
  deriving DecidableEq, Repr

/-- A server loop: its objects, the message registers of its thread, the receive slots that it hands to a
dispatcher, and the system call that it is in, unless the loop has ended. -/
structure Loop (κ σ : Type) where
  objects : σ
  mr : Memory
  bufs : BufferAccess
  syscall : Option (Syscall κ)

namespace Loop

variable {κ σ : Type} (objects : Objects σ) (hooks : LoopHook)

/-- `Loop::dispatch`. There is nothing to call at an address without an object. -/
def dispatch (self : Loop κ σ) (tag : MsgTag) (ipc_label : BitVec 64) : Option (LoopAction × Loop κ σ) := do
  let I ← objects.interface ipc_label
  let left (t : Serving σ) : Loop κ σ := { self with objects := t.objects, mr := t.reader.mr.regs.mem }
  match server_impl_callback sys objects ipc_label I tag ⟨⟨UtcbMr.from_mr self.mr, self.bufs⟩, self.objects⟩ with
  | .ok tag t => some (.ReplyAndWait tag, left t)
  | .err e t => some (hooks.application_error e, left t)
  | .abort => none

/-- Reply to whoever the message is from, or leave the loop. -/
def act (self : Loop κ σ) (client : Option κ) : LoopAction → Loop κ σ
  | .ReplyAndWait tag => { self with syscall := some (.reply client tag) }
  | .Break => { self with syscall := none }

/-- A message arrives at a loop that waits. -/
def received (self : Loop κ σ) (client : Option κ) (tag : MsgTag) (label : BitVec 64) (mr : Memory) :
    Option (Loop κ σ) :=
  match self.syscall with
  | some .l4_ipc_wait | some .reply_and_wait => do
    let (action, self) ← dispatch sys objects hooks { self with mr := mr } tag label
    pure (self.act client action)
  | some (.reply _ _) | none => none

/-- The reply has been taken. -/
def replied (self : Loop κ σ) : Option (Loop κ σ) :=
  match self.syscall with
  | some (.reply _ _) => some { self with syscall := some .reply_and_wait }
  | some .l4_ipc_wait | some .reply_and_wait | none => none

/-- The system call comes back with an error. Behind a reply, a label of zero makes the loop wait again. -/
def failed (self : Loop κ σ) (tag : MsgTag) (label : BitVec 64) : Option (Loop κ σ) :=
  match self.syscall with
  | some .l4_ipc_wait => (hooks.ipc_error tag).map (self.act none)
  | some (.reply _ _) | some .reply_and_wait =>
    if label = 0 ∧ tag.has_error then some { self with syscall := some .l4_ipc_wait }
    else (hooks.ipc_error tag).map (self.act none)
  | none => none

end Loop

end l4.ipc
