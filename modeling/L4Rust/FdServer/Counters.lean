import L4Rust.Library.Counters
import L4Rust.Library.Simulation
import L4Rust.Library.Unsigned
import L4Rust.FdServer.Descriptors

open fd_server.libc l4_sys

namespace fd_server

/-- `EFD_SEMAPHORE` is the lowest of the flags. -/
def semaphore (flags : Int) : Bool := flags % 2 = 1

/-- The descriptor that a call is about, unless it is to make one. -/
def libc.Syscall.target : Syscall → Option RawFd
  | .eventfd .. | .timerfd_create .. | .inotify_init1 .. => none
  | .signalfd4 fd .. => if fd = -1 then none else some fd
  | .timerfd_settime fd .. | .timerfd_gettime fd | .inotify_add_watch fd .. | .inotify_rm_watch fd _
  | .read fd _ | .write fd _ | .close fd => some fd

/-- The event counters of the host, by their descriptors. -/
abbrev Kernel : Type := RawFd → Option Counter

/-- What a call does to them. -/
def Kernel.after (k : Kernel) : Syscall × Int → Kernel
  | (.eventfd initval flags, r) =>
    if 0 ≤ r then Function.update k r (some ⟨initval.toNat, semaphore flags⟩) else k
  | (.write fd value, r) => if r = 8 then Function.update k fd ((k fd).map (·.add value.toNat)) else k
  | (.read fd _, r) => if r = 8 then Function.update k fd ((k fd).map Counter.rest) else k
  | (.close fd, _) => Function.update k fd none
  | (call, r) => if call.opens = true ∧ 0 ≤ r then Function.update k r none else k

def kernel (trace : Trace) : Kernel := trace.foldl Kernel.after fun _ => none

namespace Server

/-- The counter behind a handle. -/
def counter (s : Server) (handle : Nat) : Option Counter :=
  (s.eventfds handle).bind fun entry => kernel s.trace entry.fd

end Server

/-- What a client takes a reply for: a counter that was made, filled, taken from or removed. -/
def acknowledged (request reply : Utcb) : Option (Counters.Op Nat) :=
  let handle := (request.mr 1).toNat
  match Op.decode (request.mr 0) with
  | some .eventfd_create =>
    if 0 ≤ (reply.mr 0).toInt64.toInt then
      some (.create (reply.mr 0).toNat (request.mr 1).toUInt32.toNat (semaphore (as_c_int (request.mr 2))))
    else none
  | some .eventfd_write => if reply.mr 0 = 0 then some (.put handle (request.mr 2).toNat) else none
  | some .eventfd_read => if reply.mr 0 = 0 then some (.take handle (reply.mr 1).toNat) else none
  | some .eventfd_close => if reply.mr 0 = 0 then some (.remove handle) else none
  | _ => none

def Incoming.acknowledged (s : Server) : Incoming → Option (Counters.Op Nat)
  | .ipc_error => none
  | .request utcb host => fd_server.acknowledged utcb (s.run (.request utcb host)).utcb

/-- A handler makes a call on no descriptor but that of an entry of its slab. -/
def Aims {α : Type} [Drop α] (ctx ctx' : Ctx α) : Prop :=
  ctx'.trace = ctx.trace ∨ ∃ call r, ctx'.trace = ctx.trace ++ [(call, r)] ∧
    ∀ fd, call.target = some fd → ∃ handle entry, ctx.slab handle = some entry ∧ Drop.fd entry = fd

section Handlers

variable {α : Type} [Drop α] {ctx : Ctx α} {handle : Nat} {host : Host}

end Handlers

/-- The same for the server: a call is on the descriptor of an entry of that kind. -/
def Server.Aims (s t : Server) (kind : Kind) : Prop :=
  t.trace = s.trace ∨ ∃ call r, t.trace = s.trace ++ [(call, r)] ∧
    ∀ fd, call.target = some fd → ∃ handle, s.fd_of (kind, handle) = some fd

/-- A descriptor that nothing is done to in a round. -/
def Server.Apart (s t : Server) (fd : RawFd) : Prop :=
  t.trace = s.trace ∨ ∃ call r, t.trace = s.trace ++ [(call, r)] ∧ call.target ≠ some fd ∧
    (call.opens = true → 0 ≤ r → r ≠ fd)

/-- A handler of one slab does nothing to the descriptors of the others. -/
theorem Table.apart {α : Type} [Drop α] {T : Table α} {s : Server} {f : Ctx α → Ctx α} {named : Option Nat}
    {host : Host} {k : Kind} {handle : Nat} {fd : RawFd} (haccounted : Accounted s)
    (heffect : Effect named host (T.ctx s) (f (T.ctx s))) (haims : s.Aims (T.on s f) T.kind)
    (hfresh : named = none → 0 ≤ host.result → host.result ∉ open_fds s.trace)
    (hkind : k ≠ T.kind) (hheld : s.fd_of (k, handle) = some fd) : s.Apart (T.on s f) fd := by
  have htraceOn : (T.on s f).trace = (f (T.ctx s)).trace := T.trace_on s f
  -- No two entries hold one descriptor.
  have hother {handle' : Nat} (h : s.fd_of (T.kind, handle') = some fd) : False := by
    have heq := haccounted.holdings.unique fd _ _ hheld h
    exact hkind (congrArg Prod.fst heq)
  obtain htrace | ⟨call, r, htrace, htarget⟩ := haims
  · exact Or.inl htrace
  refine Or.inr ⟨call, r, htrace, fun h => (htarget fd h).elim fun _ => hother, fun hopens hr => ?_⟩
  have hsame {call' : Syscall} {r' : Int} (h : (f (T.ctx s)).trace = (T.ctx s).trace ++ [(call', r')]) :
      call = call' ∧ r = r' := by
    have hlast : s.trace ++ [(call, r)] = s.trace ++ [(call', r')] := (htrace.symm.trans htraceOn).trans h
    simpa using hlast
  have hharmless {call' : Syscall} {r' : Int} (hcall : Harmless call' r')
      (h : (f (T.ctx s)).trace = (T.ctx s).trace ++ [(call', r')]) : r ≠ fd := by
    obtain ⟨rfl, rfl⟩ := hsame h
    exact absurd hr (Int.not_le.mpr (hcall.2 hopens))
  cases heffect with
  | refused _ hkept =>
    have hkept' : s.trace ++ [(call, r)] = s.trace := htrace.symm.trans (htraceOn.trans hkept)
    simp at hkept'
  | called call' r' hcall _ h => exact hharmless hcall h
  | edited handle' old new call' r' _ _ _ hcall _ h => exact hharmless hcall h
  | renewed handle' old call' _ hold _ _ _ h =>
    obtain ⟨rfl, rfl⟩ := hsame h
    intro heq
    exact hother (heq ▸ Table.fd_of_entry hold)
  | created new call' hnamed _ hresult _ _ h _ =>
    obtain ⟨rfl, rfl⟩ := hsame h
    intro heq
    have hopen : fd ∈ open_fds s.trace := (haccounted.holdings.mem_iff fd).mpr ⟨_, hheld⟩
    exact hfresh hnamed hresult (heq ▸ hopen)
  | removed handle' old r' _ _ _ h =>
    obtain ⟨rfl, rfl⟩ := hsame h
    cases hopens

section Replies

variable {host : Host}

end Replies

section Rounds

variable {s t : Server} {utcb : Utcb} {host : Host}

/-- Every eventfd of the server has a counter. -/
def Server.Counted (s : Server) : Prop := ∀ handle, (s.eventfds handle).isSome → (s.counter handle).isSome

end Rounds

/-- What the clients were told in a run, in the order of the requests. -/
def told (past : List (Server × Incoming)) : List (Counters.Op Nat) :=
  past.filterMap fun p => p.2.acknowledged p.1

/-- A message with words and an empty payload. -/
def words (ws : List UInt64) : Utcb := .receive (fun i => ws.getD i 0) ⟨0, fun _ => 0⟩

/-- A counter is made with 3 in it, 4 is put into it, and 7 is taken. -/
def countingRequests : List Incoming :=
  [.request (words [opcode.EVENTFD_CREATE, 3, 0]) ⟨5, none, 0, [], 1⟩,
    .request (words [opcode.EVENTFD_WRITE, 1, 4]) ⟨8, none, 0, [], 0⟩,
    .request (words [opcode.EVENTFD_READ, 1]) ⟨8, none, 7, [], 0⟩]

/-- The server after so many of them. -/
def counting (n : Nat) : Server :=
  (countingRequests.take n).foldl Server.run ⟨.new, .new, .new, .new, words [], []⟩

end fd_server
