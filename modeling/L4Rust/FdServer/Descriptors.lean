import L4Rust.Library.Holdings
import L4Rust.FdServer.Handlers

open fd_server.libc l4_sys

namespace fd_server

/-- The open descriptors after one more call. -/
def open_after (used : List RawFd) : Syscall × Int → List RawFd
  | (.close fd, _) => used.erase fd
  | (call, result) => if call.opens = true ∧ 0 ≤ result then used.insert result else used

/-- The descriptors that were opened and not closed. -/
def open_fds (trace : Trace) : List RawFd := trace.foldl open_after []

/-- Nothing is closed that is not open. -/
def ClosesOpen (trace : Trace) : Prop :=
  ∀ before fd r after, trace = before ++ (.close fd, r) :: after → fd ∈ open_fds before

theorem open_fds_concat (trace : Trace) (call : Syscall × Int) :
    open_fds (trace ++ [call]) = open_after (open_fds trace) call := by
  simp [open_fds]

theorem closesOpen_concat {trace : Trace} {call : Syscall} {r : Int} (h : ClosesOpen trace)
    (hcall : ∀ fd, call = .close fd → fd ∈ open_fds trace) : ClosesOpen (trace ++ [(call, r)]) := by
  intro before fd r' after hsplit
  rcases List.eq_nil_or_concat after with rfl | ⟨after, last, rfl⟩
  · obtain ⟨rfl, hlast⟩ := List.append_inj' hsplit rfl
    simp only [List.cons.injEq, Prod.mk.injEq, and_true] at hlast
    exact hcall fd hlast.1
  · rw [List.concat_eq_append, ← List.cons_append, ← List.append_assoc] at hsplit
    exact h before fd r' after (List.append_inj' hsplit rfl).1

theorem open_fds_harmless {trace : Trace} {call : Syscall} {r : Int} (h : Harmless call r) :
    open_fds (trace ++ [(call, r)]) = open_fds trace := by
  rw [open_fds_concat]
  cases call with
  | close fd => exact absurd rfl (h.1 fd)
  | _ =>
    simp only [open_after]
    rw [if_neg]
    rintro ⟨hopens, hr⟩
    exact absurd (h.2 hopens) (Int.not_lt.mpr hr)

theorem open_fds_opening {trace : Trace} {call : Syscall} {fd : RawFd} (hcall : call.opens = true)
    (hfd : 0 ≤ fd) : open_fds (trace ++ [(call, fd)]) = (open_fds trace).insert fd := by
  rw [open_fds_concat]
  cases call with
  | close fd => cases hcall
  | _ =>
    simp only [open_after]
    rw [if_pos ⟨hcall, hfd⟩]

theorem closesOpen_harmless {trace : Trace} {call : Syscall} {r : Int} (h : ClosesOpen trace)
    (hharmless : Harmless call r) : ClosesOpen (trace ++ [(call, r)]) := by
  apply closesOpen_concat h
  intro fd hclose
  exact absurd hclose (hharmless.1 fd)

theorem closesOpen_opening {trace : Trace} {call : Syscall} {r : Int} (h : ClosesOpen trace)
    (hcall : call.opens = true) : ClosesOpen (trace ++ [(call, r)]) := by
  apply closesOpen_concat h
  rintro fd rfl
  cases hcall

inductive Kind where
  | eventfd | timerfd | signalfd | inotify
  deriving DecidableEq, Repr

/-- An entry of any of the slabs. -/
inductive Entry where
  | eventfd (entry : Eventfd)
  | timerfd (entry : Timerfd)
  | signalfd (entry : Signalfd)
  | inotify (entry : Inotify)

def Entry.fd : Entry → RawFd
  | .eventfd entry => entry.fd
  | .timerfd entry => entry.fd
  | .signalfd entry => entry.fd
  | .inotify entry => entry.fd

def Server.entry (s : Server) : Kind × Nat → Option Entry
  | (.eventfd, handle) => (s.eventfds handle).map .eventfd
  | (.timerfd, handle) => (s.timerfds handle).map .timerfd
  | (.signalfd, handle) => (s.signalfds handle).map .signalfd
  | (.inotify, handle) => (s.inotifies handle).map .inotify

def Server.fd_of (s : Server) (p : Kind × Nat) : Option RawFd := (s.entry p).map Entry.fd

/-- The open descriptors are those of the entries, each of them has one entry, and
nothing was closed that was not open. -/
structure Accounted (s : Server) : Prop where
  holdings : Holdings (open_fds s.trace) s.fd_of
  closes : ClosesOpen s.trace

/-- The books stay in order when neither side of them changes. -/
theorem Accounted.keep {s t : Server} (h : Accounted s) (hfd : t.fd_of = s.fd_of)
    (hopen : open_fds t.trace = open_fds s.trace) (hcloses : ClosesOpen t.trace) : Accounted t := by
  refine ⟨?_, hcloses⟩
  rw [hfd, hopen]
  exact h.holdings

theorem Accounted.harmless {s t : Server} {call : Syscall} {r : Int} (h : Accounted s)
    (hfd : t.fd_of = s.fd_of) (hharmless : Harmless call r) (htrace : t.trace = s.trace ++ [(call, r)]) :
    Accounted t := by
  refine h.keep hfd ?_ ?_
  · rw [htrace, open_fds_harmless hharmless]
  · rw [htrace]
    exact closesOpen_harmless h.closes hharmless

/-- A descriptor that was not open gets an entry of its own. -/
theorem Accounted.acquire {s t : Server} {p : Kind × Nat} {call : Syscall} {fd : RawFd}
    (h : Accounted s) (hcall : call.opens = true) (hpos : 0 ≤ fd) (hnew : fd ∉ open_fds s.trace)
    (hvacant : s.fd_of p = none) (hfd : t.fd_of = Function.update s.fd_of p (some fd))
    (htrace : t.trace = s.trace ++ [(call, fd)]) : Accounted t := by
  refine ⟨?_, ?_⟩
  · rw [hfd, htrace, open_fds_opening hcall hpos, List.insert_of_not_mem hnew]
    exact h.holdings.acquire hnew hvacant
  · rw [htrace]
    exact closesOpen_opening h.closes hcall

/-- The descriptor of an entry is closed when the entry goes. -/
theorem Accounted.release {s t : Server} {p : Kind × Nat} {fd : RawFd} {r : Int} (h : Accounted s)
    (hheld : s.fd_of p = some fd) (hfd : t.fd_of = Function.update s.fd_of p none)
    (htrace : t.trace = s.trace ++ [(.close fd, r)]) : Accounted t := by
  refine ⟨?_, ?_⟩
  · rw [hfd, htrace, open_fds_concat]
    exact h.holdings.release hheld
  · rw [htrace]
    apply closesOpen_concat h.closes
    rintro fd' hclose
    cases hclose
    exact (h.holdings.mem_iff _).mpr ⟨_, hheld⟩

/-- One of the four slabs, and how a handler of it becomes a step of the server. -/
structure Table (α : Type) [Drop α] where
  kind : Kind
  wrap : α → Entry
  slab : Server → Slab α
  on : Server → (Ctx α → Ctx α) → Server
  fd_wrap : ∀ a, (wrap a).fd = Drop.fd a
  entry_slab : ∀ s handle, s.entry (kind, handle) = (slab s handle).map wrap
  entry_on : ∀ s f handle,
    (on s f).entry (kind, handle) = ((f ⟨slab s, s.utcb, s.trace⟩).slab handle).map wrap
  entry_on_of_ne : ∀ s f k handle, k ≠ kind → (on s f).entry (k, handle) = s.entry (k, handle)
  trace_on : ∀ s f, (on s f).trace = (f ⟨slab s, s.utcb, s.trace⟩).trace
  utcb_on : ∀ s f, (on s f).utcb = (f ⟨slab s, s.utcb, s.trace⟩).utcb

def eventfds : Table Eventfd :=
  ⟨.eventfd, .eventfd, Server.eventfds, Server.on_eventfds, fun _ => rfl, fun _ _ => rfl, fun _ _ _ => rfl,
    fun _ _ k _ hk => by cases k <;> first | rfl | exact absurd rfl hk, fun _ _ => rfl, fun _ _ => rfl⟩

def timerfds : Table Timerfd :=
  ⟨.timerfd, .timerfd, Server.timerfds, Server.on_timerfds, fun _ => rfl, fun _ _ => rfl, fun _ _ _ => rfl,
    fun _ _ k _ hk => by cases k <;> first | rfl | exact absurd rfl hk, fun _ _ => rfl, fun _ _ => rfl⟩

def signalfds : Table Signalfd :=
  ⟨.signalfd, .signalfd, Server.signalfds, Server.on_signalfds, fun _ => rfl, fun _ _ => rfl,
    fun _ _ _ => rfl, fun _ _ k _ hk => by cases k <;> first | rfl | exact absurd rfl hk, fun _ _ => rfl,
    fun _ _ => rfl⟩

def inotifies : Table Inotify :=
  ⟨.inotify, .inotify, Server.inotifies, Server.on_inotifies, fun _ => rfl, fun _ _ => rfl, fun _ _ _ => rfl,
    fun _ _ k _ hk => by cases k <;> first | rfl | exact absurd rfl hk, fun _ _ => rfl, fun _ _ => rfl⟩

namespace Table

variable {α : Type} [Drop α] {T : Table α} {s : Server} {f : Ctx α → Ctx α} {named : Option Nat}
  {host : Host}

/-- What the handlers of a slab get to see. -/
def ctx (T : Table α) (s : Server) : Ctx α := ⟨T.slab s, s.utcb, s.trace⟩

/-- A handler changes the entries of its own slab and no others. -/
theorem entry_on_eq {entry : Kind × Nat → Option Entry}
    (hown : ∀ handle, ((f (T.ctx s)).slab handle).map T.wrap = entry (T.kind, handle))
    (hother : ∀ k handle, k ≠ T.kind → s.entry (k, handle) = entry (k, handle)) :
    (T.on s f).entry = entry := by
  funext p
  obtain ⟨k, handle⟩ := p
  by_cases hk : k = T.kind
  · subst hk
    exact (T.entry_on s f handle).trans (hown handle)
  · exact (T.entry_on_of_ne s f k handle hk).trans (hother k handle hk)

theorem entry_of_update {new : Option α} {handle : Nat}
    (hslab : (f (T.ctx s)).slab = Function.update (T.slab s) handle new) :
    (T.on s f).entry = Function.update s.entry (T.kind, handle) (new.map T.wrap) := by
  apply entry_on_eq
  · intro h
    rw [hslab]
    by_cases hh : h = handle
    · subst hh
      rw [Function.update_self, Function.update_self]
    · rw [Function.update_of_ne hh, Function.update_of_ne (by simpa using hh), T.entry_slab]
  · intro k h hk
    rw [Function.update_of_ne (by simp [hk])]

theorem entry_of_slab (hslab : (f (T.ctx s)).slab = T.slab s) : (T.on s f).entry = s.entry := by
  apply entry_on_eq
  · intro handle
    rw [hslab, T.entry_slab]
  · intro k handle _
    rfl

theorem fd_of_slab (hslab : (f (T.ctx s)).slab = T.slab s) : (T.on s f).fd_of = s.fd_of := by
  unfold Server.fd_of
  rw [entry_of_slab hslab]

theorem fd_of_entry {old : α} {handle : Nat} (h : T.slab s handle = some old) :
    s.fd_of (T.kind, handle) = some (Drop.fd old) := by
  unfold Server.fd_of
  rw [T.entry_slab, h, Option.map_some, Option.map_some, T.fd_wrap]

theorem fd_of_update {t : Server} {p : Kind × Nat} {new : Option Entry}
    (h : t.entry = Function.update s.entry p new) :
    t.fd_of = Function.update s.fd_of p (new.map Entry.fd) := by
  funext q
  unfold Server.fd_of
  rw [h]
  by_cases hq : q = p
  · subst hq
    rw [Function.update_self, Function.update_self]
  · rw [Function.update_of_ne hq, Function.update_of_ne hq]

/-- Whatever a handler does, the books stay in order, provided that the host and the
slab do not hand out what is in use. -/
theorem accounted (h : Accounted s) (heffect : Effect named host (T.ctx s) (f (T.ctx s)))
    (hfresh : named = none → 0 ≤ host.result →
      s.entry (T.kind, host.key) = none ∧ host.result ∉ open_fds s.trace) :
    Accounted (T.on s f) := by
  have htraceOn : (T.on s f).trace = (f (T.ctx s)).trace := T.trace_on s f
  cases heffect with
  | refused hslab htrace =>
    have hsame : (T.on s f).trace = s.trace := htraceOn.trans htrace
    exact h.keep (fd_of_slab hslab) (by rw [hsame]) (by rw [hsame]; exact h.closes)
  | called call r hharmless hslab htrace =>
    exact h.harmless (fd_of_slab hslab) hharmless (htraceOn.trans htrace)
  | renewed handle old call hnamed hold hcall hresult hslab htrace =>
    have htrace' : (T.on s f).trace = s.trace ++ [(call, Drop.fd old)] := htraceOn.trans htrace
    have hopen : Drop.fd old ∈ open_fds s.trace := (h.holdings.mem_iff _).mpr ⟨_, fd_of_entry hold⟩
    refine h.keep (fd_of_slab hslab) ?_ ?_
    · rw [htrace', open_fds_opening hcall hresult]
      exact List.insert_of_mem hopen
    · rw [htrace']
      exact closesOpen_opening h.closes hcall
  | edited handle old new call r hnamed hold hfd hharmless hslab htrace =>
    have hsame : (T.on s f).fd_of = s.fd_of := by
      rw [fd_of_update (entry_of_update hslab)]
      apply Function.update_eq_self_iff.mpr
      rw [fd_of_entry hold, Option.map_some, Option.map_some, T.fd_wrap, hfd]
    exact h.harmless hsame hharmless (htraceOn.trans htrace)
  | created new call hnamed hcall hresult hfd hslab htrace hreply =>
    obtain ⟨hvacant, hnew⟩ := hfresh hnamed hresult
    have hkey : s.fd_of (T.kind, host.key) = none := by
      unfold Server.fd_of
      rw [hvacant]
      rfl
    have hadded : (T.on s f).fd_of = Function.update s.fd_of (T.kind, host.key) (some host.result) := by
      rw [fd_of_update (entry_of_update hslab), Option.map_some, Option.map_some, T.fd_wrap, hfd]
    exact h.acquire hcall hresult hnew hkey hadded (htraceOn.trans htrace)
  | removed handle old r hnamed hold hslab htrace =>
    exact h.release (fd_of_entry hold) (fd_of_update (entry_of_update hslab)) (htraceOn.trans htrace)

/-- A handler changes the entry it was asked to change, or adds one. -/
theorem changed (heffect : Effect named host (T.ctx s) (f (T.ctx s))) {p : Kind × Nat}
    (hp : (T.on s f).entry p ≠ s.entry p) :
    (∃ handle, named = some handle ∧ p = (T.kind, handle)) ∨
      (named = none ∧ 0 ≤ host.result ∧ p = (T.kind, host.key) ∧
        (T.on s f).fd_of p = some host.result ∧ (T.on s f).utcb.mr 0 = .ofNat host.key) := by
  have hupdate {new : Option Entry} {q : Kind × Nat}
      (hentry : (T.on s f).entry = Function.update s.entry q new) : p = q := by
    by_contra hne
    rw [hentry, Function.update_of_ne hne] at hp
    exact hp rfl
  cases heffect with
  | refused hslab _ => exact absurd (congrFun (entry_of_slab hslab) p) hp
  | called call r _ hslab _ => exact absurd (congrFun (entry_of_slab hslab) p) hp
  | renewed handle old call _ _ _ _ hslab _ => exact absurd (congrFun (entry_of_slab hslab) p) hp
  | edited handle old new call r hnamed _ _ _ hslab _ =>
    exact Or.inl ⟨handle, hnamed, hupdate (entry_of_update hslab)⟩
  | created new call hnamed _ hresult hfd hslab _ hreply =>
    have hentry := entry_of_update hslab
    obtain rfl := hupdate hentry
    refine Or.inr ⟨hnamed, hresult, rfl, ?_, ?_⟩
    · rw [fd_of_update hentry, Function.update_self, Option.map_some, Option.map_some, T.fd_wrap, hfd]
    · rw [T.utcb_on]
      exact hreply
  | removed handle old r hnamed _ hslab _ =>
    exact Or.inl ⟨handle, hnamed, hupdate (entry_of_update hslab)⟩

/-- A handler that only replies changes nothing. -/
theorem only_replies {w : UInt64} (h : f (T.ctx s) = (T.ctx s).reply w) :
    (T.on s f).entry = s.entry ∧ (T.on s f).trace = s.trace ∧ (T.on s f).utcb.mr 0 = w := by
  refine ⟨entry_of_slab (by rw [h]; rfl), ?_, ?_⟩
  · rw [T.trace_on]
    exact congrArg Ctx.trace h
  · rw [T.utcb_on]
    exact (congrArg (fun ctx => Ctx.mr ctx 0) h).trans (mr_reply (T.ctx s) w)

end Table

def Op.kind : Op → Kind
  | .eventfd_create | .eventfd_read | .eventfd_write | .eventfd_close => .eventfd
  | .timerfd_create | .timerfd_settime | .timerfd_gettime | .timerfd_read | .timerfd_close => .timerfd
  | .signalfd_create | .signalfd_read | .signalfd_close => .signalfd
  | .inotify_init | .inotify_add_watch | .inotify_rm_watch | .inotify_read | .inotify_close => .inotify

/-- The handle a request names, unless it is one to create a descriptor. -/
def Op.named (utcb : Utcb) : Op → Option Nat
  | .eventfd_create | .timerfd_create | .inotify_init => none
  | .signalfd_create => signalfd_target utcb
  | _ => some (utcb.mr 1).toNat

/-- The payload of `signalfd_create` is checked before its handle. -/
def Op.BadPayload (utcb : Utcb) (op : Op) : Prop :=
  op = .signalfd_create ∧ read_sigset (utcb.mr 3).toNat utcb.br = none

/-- What is known of every handler. -/
structure Handled {α : Type} [Drop α] (T : Table α) (f : Ctx α → Ctx α) (s : Server) (host : Host)
    (op : Op) : Prop where
  kind : T.kind = op.kind
  effect : Effect (op.named s.utcb) host (T.ctx s) (f (T.ctx s))
  not_live : ∀ handle, op.named s.utcb = some handle → T.slab s handle = none →
    f (T.ctx s) = (T.ctx s).reply (neg_errno EBADF) ∨
      op.BadPayload s.utcb ∧ f (T.ctx s) = (T.ctx s).reply (neg_errno EINVAL)

/-- The host gives out descriptors that are not open, or the one it was given, and
the slab keys that are vacant. -/
def Incoming.Lawful (s : Server) : Incoming → Prop
  | .ipc_error => True
  | .request utcb host => ∀ op, Op.decode (utcb.mr 0) = some op →
    (op.named utcb = none → 0 ≤ host.result →
      s.entry (op.kind, host.key) = none ∧ host.result ∉ open_fds s.trace) ∧
    (op = .signalfd_create → ∀ handle old, signalfd_target utcb = some handle →
      s.signalfds handle = some old → 0 ≤ host.result → host.result = old.fd)

/-- A handler that starts by looking up its handle. -/
theorem handled_of_lookup {α : Type} [Drop α] {T : Table α} {f : Ctx α → Ctx α} {s : Server}
    {host : Host} {op : Op} (hkind : T.kind = op.kind)
    (hnamed : op.named s.utcb = some ((T.ctx s).mr 1).toNat)
    (heffect : Effect (some ((T.ctx s).mr 1).toNat) host (T.ctx s) (f (T.ctx s)))
    (hlookup : ∃ g, f (T.ctx s) = (T.ctx s).get_or_badf ((T.ctx s).mr 1).toNat g) :
    Handled T f s host op := by
  refine ⟨hkind, by rw [hnamed]; exact heffect, ?_⟩
  intro handle hhandle hnone
  rw [hnamed] at hhandle
  cases hhandle
  obtain ⟨g, hg⟩ := hlookup
  rw [hg]
  exact Or.inl (Ctx.get_or_badf_of_none hnone)

theorem signalfd_create_not_live (ctx : Ctx Signalfd) (host : Host) {handle : Nat}
    (hnamed : signalfd_target ctx.utcb = some handle) (hnone : ctx.slab handle = none) :
    handle_signalfd_create host ctx = ctx.reply (neg_errno EBADF) ∨
      read_sigset (ctx.utcb.mr 3).toNat ctx.utcb.br = none ∧
        handle_signalfd_create host ctx = ctx.reply (neg_errno EINVAL) := by
  unfold handle_signalfd_create
  dsimp only
  cases hread : read_sigset (ctx.mr 3).toNat ctx.utcb.br with
  | none => exact Or.inr ⟨hread, rfl⟩
  | some mask_bytes =>
    left
    dsimp only
    unfold signalfd_target at hnamed
    dsimp only at hnamed
    split at hnamed
    · next htarget =>
      cases hnamed
      have htarget' : 0 ≤ (ctx.mr 1).toInt64.toInt := htarget
      rw [if_pos htarget']
      exact Ctx.get_or_badf_of_none hnone
    · cases hnamed

theorem signalfd_create_handled {s : Server} {host : Host}
    (hsame : ∀ handle old, signalfd_target s.utcb = some handle → s.signalfds handle = some old →
      0 ≤ host.result → host.result = old.fd) :
    Handled signalfds (handle_signalfd_create host) s host .signalfd_create := by
  have heffect : Effect (signalfd_target s.utcb) host (signalfds.ctx s)
      (handle_signalfd_create host (signalfds.ctx s)) :=
    handle_signalfd_create_effect (signalfds.ctx s) hsame
  refine ⟨rfl, heffect, ?_⟩
  intro handle hnamed hnone
  rcases signalfd_create_not_live (signalfds.ctx s) host hnamed hnone with hbadf | ⟨hread, hinval⟩
  · exact Or.inl hbadf
  · exact Or.inr ⟨⟨rfl, hread⟩, hinval⟩

theorem dispatch_handled {s : Server} {host : Host} (op : Op)
    (hsame : op = .signalfd_create → ∀ handle old, signalfd_target s.utcb = some handle →
      s.signalfds handle = some old → 0 ≤ host.result → host.result = old.fd) :
    ∃ (α : Type) (_ : Drop α) (T : Table α) (f : Ctx α → Ctx α),
      s.dispatch host op = T.on s f ∧ Handled T f s host op := by
  cases op with
  | eventfd_create => exact ⟨_, _, eventfds, _, rfl, rfl, handle_eventfd_create_effect, nofun⟩
  | eventfd_read =>
    exact ⟨_, _, eventfds, _, rfl, handled_of_lookup rfl rfl handle_read_counter_effect ⟨_, rfl⟩⟩
  | eventfd_write =>
    exact ⟨_, _, eventfds, _, rfl, handled_of_lookup rfl rfl handle_eventfd_write_effect ⟨_, rfl⟩⟩
  | eventfd_close =>
    exact ⟨_, _, eventfds, _, rfl, handled_of_lookup rfl rfl handle_close_effect ⟨_, rfl⟩⟩
  | timerfd_create =>
    exact ⟨_, _, timerfds, _, rfl, rfl, handle_create_effect (fun _ => rfl) rfl nofun, nofun⟩
  | timerfd_settime =>
    exact ⟨_, _, timerfds, _, rfl, handled_of_lookup rfl rfl handle_timerfd_settime_effect ⟨_, rfl⟩⟩
  | timerfd_gettime =>
    exact ⟨_, _, timerfds, _, rfl, handled_of_lookup rfl rfl handle_timerfd_gettime_effect ⟨_, rfl⟩⟩
  | timerfd_read =>
    exact ⟨_, _, timerfds, _, rfl, handled_of_lookup rfl rfl handle_read_counter_effect ⟨_, rfl⟩⟩
  | timerfd_close =>
    exact ⟨_, _, timerfds, _, rfl, handled_of_lookup rfl rfl handle_close_effect ⟨_, rfl⟩⟩
  | signalfd_create =>
    exact ⟨_, _, signalfds, _, rfl, signalfd_create_handled (hsame rfl)⟩
  | signalfd_read =>
    exact ⟨_, _, signalfds, _, rfl, handled_of_lookup rfl rfl handle_read_records_effect ⟨_, rfl⟩⟩
  | signalfd_close =>
    exact ⟨_, _, signalfds, _, rfl, handled_of_lookup rfl rfl handle_close_effect ⟨_, rfl⟩⟩
  | inotify_init =>
    exact ⟨_, _, inotifies, _, rfl, rfl, handle_create_effect (fun _ => rfl) rfl nofun, nofun⟩
  | inotify_add_watch =>
    exact ⟨_, _, inotifies, _, rfl, handled_of_lookup rfl rfl handle_inotify_add_watch_effect ⟨_, rfl⟩⟩
  | inotify_rm_watch =>
    exact ⟨_, _, inotifies, _, rfl, handled_of_lookup rfl rfl handle_inotify_rm_watch_effect ⟨_, rfl⟩⟩
  | inotify_read =>
    exact ⟨_, _, inotifies, _, rfl, handled_of_lookup rfl rfl handle_read_records_effect ⟨_, rfl⟩⟩
  | inotify_close =>
    exact ⟨_, _, inotifies, _, rfl, handled_of_lookup rfl rfl handle_close_effect ⟨_, rfl⟩⟩

/-- The server and what comes in, from a host and slabs that keep their promises. -/
def server : Machine Server Incoming where
  init s := ∃ utcb, s = ⟨.new, .new, .new, .new, utcb, []⟩
  allowed := Incoming.Lawful
  step s incoming := some (s.run incoming)

/-- What a request with a known opcode does to the entries of the slabs. -/
structure Confined (s : Server) (utcb : Utcb) (host : Host) (op : Op) (t : Server) : Prop where
  /-- At most the named entry changes, but for the one that a successful create adds. -/
  changed : ∀ p, t.entry p ≠ s.entry p →
    (∃ handle, op.named utcb = some handle ∧ p = (op.kind, handle)) ∨
      (op.named utcb = none ∧ s.entry p = none ∧ p = (op.kind, host.key) ∧
        t.fd_of p = some host.result ∧ t.utcb.mr 0 = .ofNat host.key)
  not_live : ∀ handle, op.named utcb = some handle → s.entry (op.kind, handle) = none →
    t.entry = s.entry ∧ t.trace = s.trace ∧
      (t.utcb.mr 0 = neg_errno EBADF ∨ op.BadPayload utcb ∧ t.utcb.mr 0 = neg_errno EINVAL)

theorem run_request {s : Server} {utcb : Utcb} {host : Host} {op : Op}
    (hlawful : (Incoming.request utcb host).Lawful s) (hop : Op.decode (utcb.mr 0) = some op) :
    (Accounted s → Accounted (s.run (.request utcb host))) ∧
      Confined s utcb host op (s.run (.request utcb host)) := by
  obtain ⟨hfresh, hsame⟩ := hlawful op hop
  obtain ⟨α, _, T, f, hdispatch, hhandled⟩ := dispatch_handled (s := { s with utcb := utcb }) op hsame
  rw [s.run_of_op host hop, hdispatch]
  have hkind := hhandled.kind
  refine ⟨?_, ?_, ?_⟩
  · intro haccounted
    refine T.accounted ⟨haccounted.holdings, haccounted.closes⟩ hhandled.effect ?_
    rw [hkind]
    exact hfresh
  · intro p hp
    rcases T.changed hhandled.effect hp with ⟨handle, hnamed, rfl⟩ | ⟨hnamed, hresult, rfl, hadded⟩
    · exact Or.inl ⟨handle, hnamed, by rw [hkind]⟩
    · rw [hkind]
      rw [hkind] at hadded
      exact Or.inr ⟨hnamed, (hfresh hnamed hresult).1, rfl, hadded⟩
  · intro handle hnamed hnone
    have hslab : T.slab { s with utcb := utcb } handle = none := by
      have hentry := T.entry_slab { s with utcb := utcb } handle
      rw [hkind] at hentry
      exact Option.map_eq_none_iff.mp (hentry.symm.trans hnone)
    rcases hhandled.not_live handle hnamed hslab with hbadf | ⟨hbad, hinval⟩
    · obtain ⟨hentry, htrace, hreply⟩ := T.only_replies hbadf
      exact ⟨hentry, htrace, Or.inl hreply⟩
    · obtain ⟨hentry, htrace, hreply⟩ := T.only_replies hinval
      exact ⟨hentry, htrace, Or.inr ⟨hbad, hreply⟩⟩

theorem run_accounted {s : Server} {incoming : Incoming} (h : Accounted s)
    (hlawful : incoming.Lawful s) : Accounted (s.run incoming) := by
  cases incoming with
  | ipc_error => exact h
  | request utcb host =>
    cases hop : Op.decode (utcb.mr 0) with
    | some op => exact (run_request hlawful hop).1 h
    | none =>
      rw [s.run_of_unknown host hop]
      exact ⟨h.holdings, h.closes⟩

/-- The server leaks and double-closes no descriptor, whatever it is asked: the open
descriptors are those of its entries, and each request keeps to the entry it names or
adds one. -/
theorem descriptors_accounted (past : List (Server × Incoming)) (s : Server)
    (hrun : server.Run past s) :
    Accounted s ∧ ∀ utcb host, (Incoming.request utcb host).Lawful s →
      (∀ op, Op.decode (utcb.mr 0) = some op → Confined s utcb host op (s.run (.request utcb host))) ∧
      (Op.decode (utcb.mr 0) = none →
        (s.run (.request utcb host)).entry = s.entry ∧ (s.run (.request utcb host)).trace = s.trace) := by
  refine ⟨?_, ?_⟩
  · refine hrun.invariant ?_ ?_
    · rintro s ⟨utcb, rfl⟩
      refine ⟨?_, ?_⟩
      · have hempty : (Server.fd_of ⟨.new, .new, .new, .new, utcb, []⟩) = fun _ => none := by
          funext p
          obtain ⟨k, handle⟩ := p
          cases k <;> rfl
        rw [hempty]
        exact Holdings.empty
      · intro before fd r after hsplit
        simp at hsplit
    · intro s incoming t haccounted hlawful h
      cases h
      exact run_accounted haccounted hlawful
  · intro utcb host hlawful
    refine ⟨fun op hop => (run_request hlawful hop).2, ?_⟩
    intro hop
    rw [s.run_of_unknown host hop]
    exact ⟨rfl, rfl⟩

/-- A message with the opcode and the handle 0. -/
def message (op : UInt64) : Utcb := .receive (fun i => if i = 0 then op else 0) ⟨0, fun _ => 0⟩

def createRequest : Incoming := .request (message opcode.EVENTFD_CREATE) ⟨5, none, 0, [], 0⟩

def closeRequest : Incoming := .request (message opcode.EVENTFD_CLOSE) ⟨0, none, 0, [], 0⟩

/-- The descriptor of a counter is open from its creation until it is closed, and none is open afterwards. -/
theorem descriptors_accounted_create_close :
    ∃ past s, server.Run past s ∧ past.map Prod.snd = [createRequest, closeRequest] ∧
      s.trace = [(.eventfd 0 0, 5), (.close 5, 0)] ∧ open_fds s.trace = [] ∧ Accounted s := by
  have hstart : server.Run [] ⟨.new, .new, .new, .new, message 0, []⟩ := .start ⟨message 0, rfl⟩
  have hcreate := hstart.call (i := createRequest) (t := _) ?_ rfl
  · have hclose := hcreate.call (i := closeRequest) (t := _) ?_ rfl
    · exact ⟨_, _, hclose, rfl, rfl, rfl, (descriptors_accounted _ _ hclose).1⟩
    · intro op hop
      have hdecode : Op.decode ((message opcode.EVENTFD_CLOSE).mr 0) = some .eventfd_close := by decide
      obtain rfl := Option.some.inj (hdecode.symm.trans hop)
      exact ⟨nofun, nofun⟩
  · intro op hop
    have hdecode : Op.decode ((message opcode.EVENTFD_CREATE).mr 0) = some .eventfd_create := by decide
    obtain rfl := Option.some.inj (hdecode.symm.trans hop)
    exact ⟨fun _ _ => ⟨rfl, by decide⟩, nofun⟩

end fd_server
