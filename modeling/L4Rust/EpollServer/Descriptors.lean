import L4Rust.Library.Ledger
import L4Rust.Library.Machine
import L4Rust.EpollServer

open Ledger
open epoll_server.libc l4_sys

namespace epoll_server

/-- The descriptor that a call is about, if it is one that the server has opened. -/
def libc.Syscall.epfd : Syscall → Option RawFd
  | .epoll_create1 _ => none
  | .epoll_ctl epfd .. => some epfd
  | .epoll_wait epfd .. => some epfd
  | .close fd => some fd

/-- What a call does to a descriptor of the server. A call that fails opens none. -/
def libc.Syscall.event (result : Int) : Syscall → Option (Event RawFd)
  | .epoll_create1 _ => if result < 0 then none else some (.opened result)
  | .epoll_ctl epfd .. => some (.used epfd)
  | .epoll_wait epfd .. => some (.used epfd)
  | .close fd => some (.closed fd)

def events (trace : List (Syscall × Int)) : List (Event RawFd) :=
  trace.filterMap fun call => call.1.event call.2

namespace Server

def fd_of (s : Server) (handle : Nat) : Option RawFd := (s.instances handle).map EpollInstance.fd

/-- The descriptors of the instances are in order, and nothing else is open. -/
def Accounted (s : Server) : Prop := Balanced (events s.trace) s.fd_of

end Server

/-- A message and what the host will make of it. -/
structure Incoming where
  utcb : Utcb
  host : Host

/-- The host makes no descriptor that is open, and the slab finds a vacant key. -/
def Incoming.Lawful (s : Server) (incoming : Incoming) : Prop :=
  incoming.utcb.mr 0 = opcode.CREATE1 → 0 ≤ incoming.host.result →
    incoming.host.result ∉ in_use (events s.trace) ∧ s.instances incoming.host.key = none

/-- The handle that a request names. -/
def named (utcb : Utcb) : Option Nat :=
  if utcb.mr 0 = opcode.CTL ∨ utcb.mr 0 = opcode.WAIT ∨ utcb.mr 0 = opcode.CLOSE then
    some (utcb.mr 1).toNat
  else none

/-- The ways in which a round of the server loop ends. -/
inductive Effect (s : Server) (incoming : Incoming) (t : Server) : Prop where
  /-- Nothing but the registers has changed. -/
  | refused (hinstances : t.instances = s.instances) (htrace : t.trace = s.trace)
  | failed (call : Syscall) (hevent : call.event incoming.host.result = none) (hepfd : call.epfd = none)
    (hinstances : t.instances = s.instances) (htrace : t.trace = s.trace ++ [(call, incoming.host.result)])
  | created (call : Syscall) (hop : incoming.utcb.mr 0 = opcode.CREATE1)
    (hevent : call.event incoming.host.result = some (.opened incoming.host.result))
    (hepfd : call.epfd = none) (hresult : 0 ≤ incoming.host.result)
    (hinstances : t.instances = s.instances.insert incoming.host.key ⟨incoming.host.result⟩)
    (htrace : t.trace = s.trace ++ [(call, incoming.host.result)])
    (hreply : t.utcb.mr 0 = .ofNat incoming.host.key)
  | used (handle : Nat) (inst : EpollInstance) (call : Syscall) (hnamed : named incoming.utcb = some handle)
    (hinst : s.instances handle = some inst)
    (hevent : call.event incoming.host.result = some (.used inst.fd)) (hepfd : call.epfd = some inst.fd)
    (hinstances : t.instances = s.instances) (htrace : t.trace = s.trace ++ [(call, incoming.host.result)])
  /-- The only way in which an instance goes, and its descriptor with it. -/
  | closed (handle : Nat) (inst : EpollInstance) (hop : incoming.utcb.mr 0 = opcode.CLOSE)
    (hnamed : named incoming.utcb = some handle) (hinst : s.instances handle = some inst)
    (hinstances : t.instances = s.instances.remove handle)
    (htrace : t.trace = s.trace ++ [(.close inst.fd, incoming.host.result)])

section Handlers

variable (EPOLL_EVENT_SIZE : Nat) (s : Server) (utcb : Utcb) (host : Host)

theorem handle_close_effect (hop : utcb.mr 0 = opcode.CLOSE) :
    Effect s ⟨utcb, host⟩ (handle_close host { s with utcb := utcb }) := by
  have hnamed : named utcb = some (utcb.mr 1).toNat := if_pos (Or.inr (Or.inr hop))
  unfold handle_close
  dsimp only
  cases hinst : s.instances (utcb.mr 1).toNat with
  | none => exact .refused rfl rfl
  | some inst => exact .closed _ inst hop hnamed hinst rfl rfl

end Handlers

section Rounds

variable {s t : Server} {incoming : Incoming}

theorem events_concat (trace : List (Syscall × Int)) (call : Syscall) (result : Int) :
    events (trace ++ [(call, result)]) = events trace ++ (call.event result).toList := by
  cases h : call.event result <;> simp [events, h]

theorem fd_of_congr (h : t.instances = s.instances) : t.fd_of = s.fd_of := by
  unfold Server.fd_of
  rw [h]

theorem fd_of_update {handle : Nat} {new : Option EpollInstance}
    (h : t.instances = Function.update s.instances handle new) :
    t.fd_of = Function.update s.fd_of handle (new.map EpollInstance.fd) := by
  funext other
  unfold Server.fd_of
  rw [h]
  by_cases hother : other = handle
  · subst hother
    rw [Function.update_self, Function.update_self]
  · rw [Function.update_of_ne hother, Function.update_of_ne hother]

theorem fd_of_instance {handle : Nat} {inst : EpollInstance} (h : s.instances handle = some inst) :
    s.fd_of handle = some inst.fd := by
  unfold Server.fd_of
  rw [h, Option.map_some]

theorem Effect.accounted (heffect : Effect s incoming t) (h : s.Accounted) (hlawful : incoming.Lawful s) :
    t.Accounted := by
  unfold Server.Accounted at h ⊢
  cases heffect with
  | refused hinstances htrace =>
    rw [htrace, fd_of_congr hinstances]
    exact h
  | failed call hevent hepfd hinstances htrace =>
    rw [htrace, fd_of_congr hinstances, events_concat, hevent, Option.toList_none, List.append_nil]
    exact h
  | created call hop hevent hepfd hresult hinstances htrace hreply =>
    obtain ⟨hnew, hvacant⟩ := hlawful hop hresult
    have hfd : s.fd_of incoming.host.key = none := by
      unfold Server.fd_of
      rw [hvacant, Option.map_none]
    rw [htrace, fd_of_update hinstances, events_concat, hevent]
    exact h.opened hnew hfd
  | used handle inst call hnamed hinst hevent hepfd hinstances htrace =>
    rw [htrace, fd_of_congr hinstances, events_concat, hevent]
    exact h.used (fd_of_instance hinst)
  | closed handle inst hop hnamed hinst hinstances htrace =>
    rw [htrace, fd_of_update hinstances, events_concat]
    exact h.closed (fd_of_instance hinst)

/-- What a request can do to instances and to the host. -/
structure Confined (s : Server) (incoming : Incoming) (t : Server) : Prop where
  /-- A handle keeps its descriptor until it is closed, and gets one only when it has none. -/
  kept : ∀ handle, t.fd_of handle ≠ s.fd_of handle →
    (incoming.utcb.mr 0 = opcode.CLOSE ∧ named incoming.utcb = some handle ∧ t.fd_of handle = none) ∨
      (incoming.utcb.mr 0 = opcode.CREATE1 ∧ s.fd_of handle = none ∧
        t.fd_of handle = some incoming.host.result ∧ t.utcb.mr 0 = .ofNat handle)
  /-- At most one call is made, on no descriptor but that of the handle that is named. -/
  calls : t.trace = s.trace ∨ ∃ call, t.trace = s.trace ++ [(call, incoming.host.result)] ∧
    ∀ fd, call.epfd = some fd → ∃ handle, named incoming.utcb = some handle ∧ s.fd_of handle = some fd
  not_live : ∀ handle, named incoming.utcb = some handle → s.fd_of handle = none →
    t.instances = s.instances ∧ t.trace = s.trace ∧ t.utcb.mr 0 = neg_errno EBADF

theorem Effect.kept (heffect : Effect s incoming t) (hlawful : incoming.Lawful s) {handle : Nat}
    (hchanged : t.fd_of handle ≠ s.fd_of handle) :
    (incoming.utcb.mr 0 = opcode.CLOSE ∧ named incoming.utcb = some handle ∧ t.fd_of handle = none) ∨
      (incoming.utcb.mr 0 = opcode.CREATE1 ∧ s.fd_of handle = none ∧
        t.fd_of handle = some incoming.host.result ∧ t.utcb.mr 0 = .ofNat handle) := by
  cases heffect with
  | refused hinstances htrace => exact absurd (congrFun (fd_of_congr hinstances) handle) hchanged
  | failed call hevent hepfd hinstances htrace =>
    exact absurd (congrFun (fd_of_congr hinstances) handle) hchanged
  | used other inst call hnamed hinst hevent hepfd hinstances htrace =>
    exact absurd (congrFun (fd_of_congr hinstances) handle) hchanged
  | created call hop hevent hepfd hresult hinstances htrace hreply =>
    have hfd := fd_of_update hinstances
    obtain rfl : handle = incoming.host.key := by
      by_contra hne
      rw [hfd, Function.update_of_ne hne] at hchanged
      exact hchanged rfl
    refine Or.inr ⟨hop, ?_, ?_, hreply⟩
    · unfold Server.fd_of
      rw [(hlawful hop hresult).2, Option.map_none]
    · rw [hfd, Function.update_self, Option.map_some]
  | closed other inst hop hnamed hinst hinstances htrace =>
    have hfd := fd_of_update hinstances
    obtain rfl : handle = other := by
      by_contra hne
      rw [hfd, Function.update_of_ne hne] at hchanged
      exact hchanged rfl
    refine Or.inl ⟨hop, hnamed, ?_⟩
    rw [hfd, Function.update_self, Option.map_none]

theorem Effect.calls (heffect : Effect s incoming t) :
    t.trace = s.trace ∨ ∃ call, t.trace = s.trace ++ [(call, incoming.host.result)] ∧
      ∀ fd, call.epfd = some fd →
        ∃ handle, named incoming.utcb = some handle ∧ s.fd_of handle = some fd := by
  cases heffect with
  | refused hinstances htrace => exact Or.inl htrace
  | failed call hevent hepfd hinstances htrace =>
    refine Or.inr ⟨call, htrace, fun fd hfd => ?_⟩
    rw [hepfd] at hfd
    cases hfd
  | created call hop hevent hepfd hresult hinstances htrace hreply =>
    refine Or.inr ⟨call, htrace, fun fd hfd => ?_⟩
    rw [hepfd] at hfd
    cases hfd
  | used handle inst call hnamed hinst hevent hepfd hinstances htrace =>
    refine Or.inr ⟨call, htrace, fun fd hfd => ⟨handle, hnamed, ?_⟩⟩
    rw [fd_of_instance hinst, ← hfd, hepfd]
  | closed handle inst hop hnamed hinst hinstances htrace =>
    refine Or.inr ⟨_, htrace, fun fd hfd => ⟨handle, hnamed, ?_⟩⟩
    rw [fd_of_instance hinst, ← hfd, Syscall.epfd]

variable (EPOLL_EVENT_SIZE : Nat)

end Rounds

/-- The server from its start on, and what comes in. -/
def server (EPOLL_EVENT_SIZE : Nat) : Machine Server Incoming where
  init s := s.instances = .new ∧ s.trace = []
  allowed s incoming := incoming.Lawful s
  step s incoming := some (s.run EPOLL_EVENT_SIZE incoming.utcb incoming.host)

/-- A message with words and an empty payload. -/
def message (words : List UInt64) : Utcb := .receive (fun i => words.getD i 0) ⟨0, fun _ => 0⟩

def waiting : Incoming := ⟨message [opcode.WAIT, 0, 1, 0], ⟨0, none, [], 0⟩⟩

end epoll_server
