import L4Rust.L4.Ipc.Messages
import L4Rust.L4.Ipc.Server
import L4Rust.Library.Service
import L4Rust.Library.Simulation

open l4.error l4.utcb

namespace l4.ipc

variable {κ σ : Type}

section Stub

variable (sys : Fpages) (codes : Codes) (l4_ipc_error : MsgTag → BitVec 64)

/-- A client stub from the return of its IPC on. -/
def derive_ipc_calls.returned (ret : ArgTy) (restag : MsgTag) : Exec Error Reader ret.Val := do
  let _ ← Exec.ofExcept (restag.result codes l4_ipc_error)
  Reader.onMr UtcbMr.reset
  ret.read sys

def derive_ipc_calls.answer (ret : ArgTy) (restag : MsgTag) (s : Reader) : Option (Except Error Arg) :=
  (returned sys codes l4_ipc_error ret restag s).answer?.map fun answer => answer.map (Arg.mk ret)

end Stub

/-- Where a client is in a stub: before and behind it, or in the send or the receive phase of its IPC, or
behind the IPC. -/
inductive Stub where
  | idle
  | sending (label : BitVec 64) (ret : ArgTy) (tag : MsgTag)
  | receiving (ret : ArgTy)
  | answered (ret : ArgTy) (restag : MsgTag)

def Stub.isReceiving : Stub → Bool
  | .receiving _ => true
  | .idle | .sending _ _ _ | .answered _ _ => false

/-- A client with its message registers and receive slots. -/
structure Client where
  mr : UtcbMr
  bufs : BufferAccess
  stub : Stub

/-- Clients and the server that they call, with the answers that their stubs returned so far. -/
structure System (κ σ : Type) where
  server : Loop κ σ
  client : κ → Client
  answers : List (κ × Except Error Arg)

/-- What a client asks for: the method of an object, with arguments. -/
structure Request where
  label : BitVec 64
  method : Method
  args : List Arg

/-- What happens to the clients and the server. A stub that cannot write its arguments or has no receive
slots returns early. A message that arrives may leave anything in the registers behind its words. A reply
that no client waits for is for somebody else, or is dropped. -/
inductive Transition (κ : Type) where
  | call (c : κ) (req : Request)
  | refuse (c : κ) (mr : UtcbMr)
  | deliver (c : κ) (mr : Memory)
  | foreign (label : BitVec 64) (tag : MsgTag) (mr : Memory)
  | reply (c : κ) (mr : Memory)
  | dismiss
  | server_fails (tag : MsgTag) (label : BitVec 64)
  | client_fails (c : κ) (tag : MsgTag)
  | returns (c : κ)

namespace System

variable [DecidableEq κ] (sys : Fpages) (codes : Codes) (l4_ipc_error : MsgTag → BitVec 64)
  (objects : Objects σ)

def setClient (s : System κ σ) (c : κ) (client : Client) : System κ σ :=
  { s with client := Function.update s.client c client }

/-- A client with a result of its IPC returns from the stub. -/
def finish (s : System κ σ) (c : κ) (ret : ArgTy) (restag : MsgTag) : Option (System κ σ) :=
  let client := s.client c
  match derive_ipc_calls.returned sys codes l4_ipc_error ret restag ⟨client.mr, client.bufs⟩ with
  | .ok v t => some { s.setClient c ⟨t.mr, t.bufs, .idle⟩ with answers := s.answers ++ [(c, .ok ⟨ret, v⟩)] }
  | .err e t => some { s.setClient c ⟨t.mr, t.bufs, .idle⟩ with answers := s.answers ++ [(c, .error e)] }
  | .abort => none

def step (s : System κ σ) : Transition κ → Option (System κ σ)
  | .call c req => do
    let client := s.client c
    let I ← objects.interface req.label
    match client.stub, derive_ipc_calls sys I req.method.opcode req.args (UtcbMr.from_mr client.mr.regs.mem) with
    | .idle, .ok tag mr => some (s.setClient c ⟨mr, client.bufs, .sending req.label req.method.ret tag⟩)
    | _, _ => none
  | .refuse c mr =>
    match (s.client c).stub with
    | .idle => some (s.setClient c { s.client c with mr := mr })
    | .sending _ _ _ | .receiving _ | .answered _ _ => none
  | .deliver c mr =>
    match (s.client c).stub with
    | .sending label ret tag => do
      let server ← s.server.received sys objects (DefaultHooks codes l4_ipc_error) (some c) tag label mr
      pure { s.setClient c { s.client c with stub := .receiving ret } with server := server }
    | .idle | .receiving _ | .answered _ _ => none
  | .foreign label tag mr => do
    let server ← s.server.received sys objects (DefaultHooks codes l4_ipc_error) none tag label mr
    pure { s with server := server }
  | .reply c mr =>
    match (s.client c).stub, s.server.syscall with
    | .receiving ret, some (.reply (some c') replytag) =>
      if c' = c then do
        let client := s.client c
        let server ← s.server.replied
        pure { s.setClient c { client with
          mr.regs.mem := mr
          stub := .answered ret replytag } with server := server }
      else none
    | _, _ => none
  | .dismiss =>
    match s.server.syscall with
    | some (.reply client _) =>
      if client.any fun c => (s.client c).stub.isReceiving then none
      else do
        let server ← s.server.replied
        pure { s with server := server }
    | some .l4_ipc_wait | some .reply_and_wait | none => none
  | .server_fails tag label => do
    let server ← s.server.failed (DefaultHooks codes l4_ipc_error) tag label
    pure { s with server := server }
  | .client_fails c tag =>
    match (s.client c).stub with
    | .sending _ ret _ | .receiving ret => finish sys codes l4_ipc_error s c ret tag
    | .idle | .answered _ _ => none
  | .returns c =>
    match (s.client c).stub with
    | .answered ret restag => finish sys codes l4_ipc_error s c ret restag
    | .idle | .sending _ _ _ | .receiving _ => none

/-- Clients call a method of the interface that the object has, with arguments of the types it names. The
kernel carries the words of a message over, and flags exactly the IPCs that fail. -/
def allowed (s : System κ σ) : Transition κ → Prop
  | .call _ req => ∃ I, objects.interface req.label = some I ∧ req.method ∈ I.methods ∧
      req.args.map Arg.ty = req.method.args
  | .deliver c mr => ∀ label ret tag, (s.client c).stub = .sending label ret tag →
      Delivered tag (s.client c).mr.regs.mem mr
  | .foreign _ tag _ => tag.has_error = false
  | .reply _ mr => ∀ client replytag, s.server.syscall = some (.reply client replytag) →
      Delivered replytag s.server.mr mr
  | .server_fails tag _ | .client_fails _ tag => tag.has_error = true
  | .refuse _ _ | .dismiss | .returns _ => True

end System

section Atomic

variable (sys : Fpages) (codes : Codes)

/-- What a client makes of an error, of which it is only told the code. -/
def relayed (e : Error) : Error := Error.from_ipc codes (MsgTag.new (e.into_ipc_err codes) 0 0 0).label

/-- The answer with a value, if message registers without anything else have room for it. -/
def Arg.answer (a : Arg) : Option (Except Error Arg) :=
  match a.write sys (UtcbMr.from_mr fun _ => 0) with
  | .ok _ _ => some (.ok a)
  | .err e _ => some (.error (relayed codes e))
  | .abort => none

/-- A request as a direct call of the method. -/
def Objects.execute (objects : Objects σ) (s : σ) (req : Request) : Option (Except Error Arg × σ) :=
  match objects.call req.label req.method req.args s with
  | .ok v t => (Arg.answer sys codes ⟨req.method.ret, v⟩).map fun answer => (answer, t)
  | .err e t => some (.error (relayed codes e), t)
  | .abort => none

end Atomic

/-- Any clients, none of which is in a stub, and a server loop that waits for its first message. -/
def rpc [DecidableEq κ] (sys : Fpages) (codes : Codes) (l4_ipc_error : MsgTag → BitVec 64)
    (objects : Objects σ) (start : σ) : Machine (System κ σ) (Transition κ) where
  init s := s.server.objects = start ∧ s.server.syscall = some .l4_ipc_wait ∧ s.answers = [] ∧
    ∀ c, (s.client c).stub = .idle
  allowed := System.allowed objects
  step := System.step sys codes l4_ipc_error objects

end l4.ipc
