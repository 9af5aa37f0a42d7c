import L4Rust.FdServer

open fd_server.libc l4_sys

namespace fd_server

/-- The calls that return a descriptor. -/
def libc.Syscall.opens : Syscall → Bool
  | .eventfd .. | .timerfd_create .. | .signalfd4 .. | .inotify_init1 .. => true
  | _ => false

/-- A call that neither opens nor closes a descriptor. -/
def Harmless (call : Syscall) (result : Int) : Prop :=
  (∀ fd, call ≠ .close fd) ∧ (call.opens = true → result < 0)

variable {α : Type} {ctx : Ctx α} {handle : Nat} {named : Option Nat}

namespace Ctx

/-- Without an entry of that handle the request fails and nothing else happens. -/
theorem get_or_badf_of_none {f : α → Ctx α} (h : ctx.slab handle = none) :
    ctx.get_or_badf handle f = ctx.reply (neg_errno EBADF) := by
  simp [get_or_badf, h]

end Ctx

theorem mr_reply (ctx : Ctx α) (w : UInt64) : (ctx.reply w).mr 0 = w := by
  simp [Ctx.reply, Ctx.mr, Ctx.set_mr, Ctx.br_clear, Utcb.set_mr, Utcb.br_clear]

/-- All that a handler can do to its slab and to the descriptors of the host. -/
inductive Effect [Drop α] (named : Option Nat) (host : Host) (ctx ctx' : Ctx α) : Prop
  | refused (hslab : ctx'.slab = ctx.slab) (htrace : ctx'.trace = ctx.trace)
  | called (call : Syscall) (r : Int) (hharmless : Harmless call r) (hslab : ctx'.slab = ctx.slab)
      (htrace : ctx'.trace = ctx.trace ++ [(call, r)])
  | renewed (handle : Nat) (old : α) (call : Syscall) (hnamed : named = some handle)
      (hold : ctx.slab handle = some old) (hcall : call.opens = true) (hresult : 0 ≤ Drop.fd old)
      (hslab : ctx'.slab = ctx.slab)
      (htrace : ctx'.trace = ctx.trace ++ [(call, Drop.fd old)])
  | edited (handle : Nat) (old new : α) (call : Syscall) (r : Int) (hnamed : named = some handle)
      (hold : ctx.slab handle = some old) (hfd : Drop.fd new = Drop.fd old)
      (hharmless : Harmless call r) (hslab : ctx'.slab = ctx.slab.insert handle new)
      (htrace : ctx'.trace = ctx.trace ++ [(call, r)])
  | created (new : α) (call : Syscall) (hnamed : named = none) (hcall : call.opens = true)
      (hresult : 0 ≤ host.result) (hfd : Drop.fd new = host.result)
      (hslab : ctx'.slab = ctx.slab.insert host.key new)
      (htrace : ctx'.trace = ctx.trace ++ [(call, host.result)]) (hreply : ctx'.mr 0 = .ofNat host.key)
  | removed (handle : Nat) (old : α) (r : Int) (hnamed : named = some handle)
      (hold : ctx.slab handle = some old) (hslab : ctx'.slab = ctx.slab.remove handle)
      (htrace : ctx'.trace = ctx.trace ++ [(.close (Drop.fd old), r)])

section Specs

variable [Drop α] {host : Host}

theorem get_or_badf_effect {f : α → Ctx α}
    (hf : ∀ entry, ctx.slab handle = some entry → Effect named host ctx (f entry)) :
    Effect named host ctx (ctx.get_or_badf handle f) := by
  unfold Ctx.get_or_badf
  cases hentry : ctx.slab handle with
  | none => exact .refused rfl rfl
  | some entry => exact hf entry hentry

theorem handle_create_effect {wrap : RawFd → α} {call : Syscall} (hwrap : ∀ fd, Drop.fd (wrap fd) = fd)
    (hcall : call.opens = true) (hclose : ∀ fd, call ≠ .close fd) :
    Effect none host ctx (handle_create wrap call host ctx) := by
  unfold handle_create
  dsimp only
  split
  · next hfail => exact .called call host.result ⟨hclose, fun _ => hfail⟩ rfl rfl
  · next hok =>
    exact .created (wrap host.result) call rfl hcall (Int.not_lt.mp hok) (hwrap _) rfl rfl (mr_reply ..)

theorem handle_read_counter_effect :
    Effect (some (ctx.mr 1).toNat) host ctx (handle_read_counter host ctx) := by
  apply get_or_badf_effect
  intro entry _
  have hharmless : Harmless (.read (Drop.fd entry) 8) host.result := ⟨nofun, nofun⟩
  dsimp only
  split
  · exact .called _ _ hharmless rfl rfl
  · exact .called _ _ hharmless rfl rfl

theorem handle_read_records_effect :
    Effect (some (ctx.mr 1).toNat) host ctx (handle_read_records host ctx) := by
  apply get_or_badf_effect
  intro entry _
  have hharmless (n : Nat) : Harmless (.read (Drop.fd entry) n) host.result := ⟨nofun, nofun⟩
  split
  · exact .refused rfl rfl
  dsimp only
  split
  · exact .called _ _ (hharmless _) rfl rfl
  · exact .called _ _ (hharmless _) rfl rfl

theorem handle_close_effect :
    Effect (some (ctx.mr 1).toNat) host ctx (handle_close host ctx) := by
  apply get_or_badf_effect
  intro entry hentry
  exact .removed _ entry host.result rfl hentry rfl rfl

end Specs

theorem handle_eventfd_create_effect {ctx : Ctx Eventfd} {host : Host} :
    Effect none host ctx (handle_eventfd_create host ctx) := by
  unfold handle_eventfd_create
  dsimp only
  split
  · next hfail => exact .called (.eventfd ..) _ ⟨nofun, fun _ => hfail⟩ rfl rfl
  · next hok =>
    exact .created ⟨host.result⟩ (.eventfd (ctx.mr 1).toUInt32 (as_c_int (ctx.mr 2))) rfl rfl
      (Int.not_lt.mp hok) rfl rfl rfl (mr_reply ..)

theorem handle_eventfd_write_effect {ctx : Ctx Eventfd} {host : Host} :
    Effect (some (ctx.mr 1).toNat) host ctx (handle_eventfd_write host ctx) := by
  apply get_or_badf_effect
  intro entry _
  have hharmless : Harmless (.write entry.fd (ctx.mr 2)) host.result := ⟨nofun, nofun⟩
  dsimp only
  split
  · exact .called _ _ hharmless rfl rfl
  · exact .called _ _ hharmless rfl rfl

theorem handle_timerfd_settime_effect {ctx : Ctx Timerfd} {host : Host} :
    Effect (some (ctx.mr 1).toNat) host ctx (handle_timerfd_settime host ctx) := by
  apply get_or_badf_effect
  intro entry _
  cases read_itimerspec ctx.utcb.br with
  | none => exact .refused rfl rfl
  | some new_value =>
    have hharmless (want_old : Bool) : Harmless
        (.timerfd_settime entry.fd (as_c_int (ctx.mr 2)) new_value want_old) host.result := ⟨nofun, nofun⟩
    dsimp only
    split
    · exact .called _ _ (hharmless _) rfl rfl
    split
    · exact .called _ _ (hharmless _) rfl rfl
    · exact .called _ _ (hharmless _) rfl rfl

theorem handle_timerfd_gettime_effect {ctx : Ctx Timerfd} {host : Host} :
    Effect (some (ctx.mr 1).toNat) host ctx (handle_timerfd_gettime host ctx) := by
  apply get_or_badf_effect
  intro entry _
  have hharmless : Harmless (.timerfd_gettime entry.fd) host.result := ⟨nofun, nofun⟩
  dsimp only
  split
  · exact .called _ _ hharmless rfl rfl
  · exact .called _ _ hharmless rfl rfl

theorem handle_inotify_add_watch_effect {ctx : Ctx Inotify} {host : Host} :
    Effect (some (ctx.mr 1).toNat) host ctx (handle_inotify_add_watch host ctx) := by
  apply get_or_badf_effect
  intro entry hentry
  cases read_string ctx.utcb.br with
  | none => exact .refused rfl rfl
  | some path =>
    have hharmless : Harmless (.inotify_add_watch entry.fd path (ctx.mr 2).toUInt32) host.result :=
      ⟨nofun, nofun⟩
    dsimp only
    split
    · exact .called _ _ hharmless rfl rfl
    · refine .edited _ entry _ _ _ rfl hentry ?_ hharmless rfl rfl
      rfl

theorem handle_inotify_rm_watch_effect {ctx : Ctx Inotify} {host : Host} :
    Effect (some (ctx.mr 1).toNat) host ctx (handle_inotify_rm_watch host ctx) := by
  apply get_or_badf_effect
  intro entry hentry
  have hharmless : Harmless (.inotify_rm_watch entry.fd (as_c_int (ctx.mr 2))) host.result :=
    ⟨nofun, nofun⟩
  dsimp only
  split
  · exact .called _ _ hharmless rfl rfl
  · refine .edited _ entry _ _ _ rfl hentry ?_ hharmless rfl rfl
    rfl

/-- The handle of the descriptor that `signalfd_create` changes, if it does not make
a new one. -/
def signalfd_target (utcb : Utcb) : Option Nat :=
  let target := (utcb.mr 1).toInt64.toInt
  if 0 ≤ target then some target.toNat else none

theorem handle_signalfd_create_effect (ctx : Ctx Signalfd) {host : Host}
    (hsame : ∀ handle old, signalfd_target ctx.utcb = some handle → ctx.slab handle = some old →
      0 ≤ host.result → host.result = old.fd) :
    Effect (signalfd_target ctx.utcb) host ctx (handle_signalfd_create host ctx) := by
  unfold handle_signalfd_create
  dsimp only
  cases read_sigset (ctx.mr 3).toNat ctx.utcb.br with
  | none => exact .refused rfl rfl
  | some mask_bytes =>
    dsimp only
    split
    · next htarget =>
      have hnamed : signalfd_target ctx.utcb = some (ctx.mr 1).toInt64.toInt.toNat := if_pos htarget
      apply get_or_badf_effect
      intro existing hexisting
      split
      · next hfail => exact .called (.signalfd4 ..) _ ⟨nofun, fun _ => hfail⟩ rfl rfl
      · next hok =>
        have hpos := Int.not_lt.mp hok
        have hresult : host.result = Drop.fd existing := hsame _ existing hnamed hexisting hpos
        refine .renewed _ existing (.signalfd4 existing.fd mask_bytes (ctx.mr 3).toNat (as_c_int (ctx.mr 2)))
          hnamed hexisting rfl (hresult ▸ hpos) rfl ?_
        rw [← hresult]
        rfl
    · next htarget =>
      have hnamed : signalfd_target ctx.utcb = none := if_neg htarget
      rw [hnamed]
      exact handle_create_effect (fun _ => rfl) rfl nofun

end fd_server
