import L4Rust.FdServer.Handlers

open fd_server.libc l4_sys

namespace fd_server

variable {α : Type} {ctx : Ctx α} {handle : Nat} {host : Host}

variable {counter payload stale : Prop}

theorem get_or_badf_replied {f : α → Ctx α} (hnone : ctx.slab handle = none → ¬ counter)
    (hstale : ¬ stale)
    (hf : ∀ entry, ctx.slab handle = some entry → Replied counter payload stale ctx.utcb (f entry).utcb) :
    Replied counter payload stale ctx.utcb (ctx.get_or_badf handle f).utcb := by
  cases hentry : ctx.slab handle with
  | none =>
    rw [Ctx.get_or_badf_of_none hentry]
    exact .word ctx.utcb (hnone hentry) hstale
  | some entry =>
    have hget : ctx.get_or_badf handle f = f entry := by simp [Ctx.get_or_badf, hentry]
    rw [hget]
    exact hf entry hentry

variable (ctx host)

theorem handle_create_replied {wrap : RawFd → α} {call : Syscall} :
    Replied False False False ctx.utcb (handle_create wrap call host ctx).utcb := by
  unfold handle_create
  dsimp only
  split
  · exact .word ctx.utcb id id
  · exact .word ctx.utcb id id

section Families

variable [Drop α]

theorem handle_read_counter_replied :
    Replied ((ctx.slab (ctx.mr 1).toNat).isSome ∧ host.result = 8) False False ctx.utcb
      (handle_read_counter host ctx).utcb := by
  apply get_or_badf_replied (fun hnone => by simp [hnone]) id
  intro entry hentry
  dsimp only
  split
  · next hfail => exact .word ctx.utcb (fun h => hfail h.2) id
  · next hread =>
    have hcounter : (ctx.slab (ctx.mr 1).toNat).isSome ∧ host.result = 8 := by
      simpa [hentry] using hread
    exact ⟨fun h => absurd hcounter h, fun _ => List.append_assoc .., fun _ _ => rfl, False.elim⟩

theorem handle_read_records_replied :
    Replied False ((ctx.slab (ctx.mr 1).toNat).isSome ∧ 0 ≤ host.result ∧ ctx.mr 2 ≠ 0) False ctx.utcb
      (handle_read_records host ctx).utcb := by
  apply get_or_badf_replied (fun _ => id) id
  intro entry hentry
  split
  · exact .word ctx.utcb id id
  next hmax =>
  dsimp only
  split
  · exact .word ctx.utcb id id
  · next hread =>
    refine .with_payload rfl id ⟨by simp [hentry], Int.not_lt.mp hread, ?_⟩ id
    intro hzero
    simp [hzero] at hmax

theorem handle_close_replied : Replied False False False ctx.utcb (handle_close host ctx).utcb := by
  apply get_or_badf_replied (fun _ => id) id
  intro entry _
  exact .word ctx.utcb id id

end Families

theorem handle_eventfd_create_replied (ctx : Ctx Eventfd) :
    Replied False False (host.result < 0) ctx.utcb (handle_eventfd_create host ctx).utcb := by
  unfold handle_eventfd_create
  dsimp only
  split
  · next hfail => exact .unattended ctx.utcb id hfail
  · next hok => exact .word ctx.utcb id hok

theorem handle_eventfd_write_replied (ctx : Ctx Eventfd) :
    Replied False False False ctx.utcb (handle_eventfd_write host ctx).utcb := by
  apply get_or_badf_replied (fun _ => id) id
  intro entry _
  dsimp only
  split
  · exact .word ctx.utcb id id
  · exact .word ctx.utcb id id

theorem handle_timerfd_settime_replied (ctx : Ctx Timerfd) :
    Replied False ((ctx.slab (ctx.mr 1).toNat).isSome ∧ 0 ≤ host.result ∧
        SIZE_OF_ITIMERSPEC ≤ ctx.utcb.br.len.toNat ∧ ctx.mr 3 ≠ 0) False ctx.utcb
      (handle_timerfd_settime host ctx).utcb := by
  apply get_or_badf_replied (fun _ => id) id
  intro entry hentry
  cases hread : read_itimerspec ctx.utcb.br with
  | none => exact .word ctx.utcb id id
  | some new_value =>
    have hsize : SIZE_OF_ITIMERSPEC ≤ ctx.utcb.br.len.toNat := by
      by_contra hshort
      have hnone : read_itimerspec ctx.utcb.br = none := if_pos (Nat.not_le.mp hshort)
      rw [hnone] at hread
      cases hread
    dsimp only
    split
    · exact .word ctx.utcb id id
    next hok =>
    split
    · next hold => exact .with_payload rfl id ⟨by simp [hentry], Int.not_lt.mp hok, hsize, hold⟩ id
    · exact .word ctx.utcb id id

theorem handle_timerfd_gettime_replied (ctx : Ctx Timerfd) :
    Replied False ((ctx.slab (ctx.mr 1).toNat).isSome ∧ 0 ≤ host.result) False ctx.utcb
      (handle_timerfd_gettime host ctx).utcb := by
  apply get_or_badf_replied (fun _ => id) id
  intro entry hentry
  dsimp only
  split
  · exact .word ctx.utcb id id
  · next hok => exact .with_payload rfl id ⟨by simp [hentry], Int.not_lt.mp hok⟩ id

theorem handle_signalfd_create_replied (ctx : Ctx Signalfd) :
    Replied False False False ctx.utcb (handle_signalfd_create host ctx).utcb := by
  unfold handle_signalfd_create
  dsimp only
  cases read_sigset (ctx.mr 3).toNat ctx.utcb.br with
  | none => exact .word ctx.utcb id id
  | some mask_bytes =>
    dsimp only
    split
    · apply get_or_badf_replied (fun _ => id) id
      intro existing _
      split
      · exact .word ctx.utcb id id
      · exact .word ctx.utcb id id
    · exact handle_create_replied ctx host

theorem handle_inotify_add_watch_replied (ctx : Ctx Inotify) :
    Replied False False False ctx.utcb (handle_inotify_add_watch host ctx).utcb := by
  apply get_or_badf_replied (fun _ => id) id
  intro entry _
  cases read_string ctx.utcb.br with
  | none => exact .word ctx.utcb id id
  | some path =>
    dsimp only
    split
    · exact .word ctx.utcb id id
    · exact .word ctx.utcb id id

theorem handle_inotify_rm_watch_replied (ctx : Ctx Inotify) :
    Replied False False False ctx.utcb (handle_inotify_rm_watch host ctx).utcb := by
  apply get_or_badf_replied (fun _ => id) id
  intro entry _
  dsimp only
  split
  · exact .word ctx.utcb id id
  · exact .word ctx.utcb id id

/-- A counter of a descriptor is read, and the host delivers all eight bytes. -/
def ReadsCounter (s : Server) (utcb : Utcb) (host : Host) : Op → Prop
  | .eventfd_read => (s.eventfds (utcb.mr 1).toNat).isSome ∧ host.result = 8
  | .timerfd_read => (s.timerfds (utcb.mr 1).toNat).isSome ∧ host.result = 8
  | _ => False

/-- The requests whose reply has a payload: those that succeed and ask for one. -/
def CarriesPayload (s : Server) (utcb : Utcb) (host : Host) : Op → Prop
  | .timerfd_gettime => (s.timerfds (utcb.mr 1).toNat).isSome ∧ 0 ≤ host.result
  | .timerfd_settime => (s.timerfds (utcb.mr 1).toNat).isSome ∧ 0 ≤ host.result ∧
      SIZE_OF_ITIMERSPEC ≤ utcb.br.len.toNat ∧ utcb.mr 3 ≠ 0
  | .signalfd_read => (s.signalfds (utcb.mr 1).toNat).isSome ∧ 0 ≤ host.result ∧ utcb.mr 2 ≠ 0
  | .inotify_read => (s.inotifies (utcb.mr 1).toNat).isSome ∧ 0 ≤ host.result ∧ utcb.mr 2 ≠ 0
  | _ => False

/-- An event descriptor could not be created. -/
def FailsToCreate (host : Host) : Op → Prop
  | .eventfd_create => host.result < 0
  | _ => False

theorem dispatch_replied (s : Server) (host : Host) (op : Op) :
    Replied (ReadsCounter s s.utcb host op) (CarriesPayload s s.utcb host op) (FailsToCreate host op)
      s.utcb (s.dispatch host op).utcb := by
  cases op with
  | eventfd_create => exact handle_eventfd_create_replied host ⟨s.eventfds, s.utcb, s.trace⟩
  | eventfd_read => exact handle_read_counter_replied ⟨s.eventfds, s.utcb, s.trace⟩ host
  | eventfd_write => exact handle_eventfd_write_replied host ⟨s.eventfds, s.utcb, s.trace⟩
  | eventfd_close => exact handle_close_replied ⟨s.eventfds, s.utcb, s.trace⟩ host
  | timerfd_create => exact handle_create_replied ⟨s.timerfds, s.utcb, s.trace⟩ host
  | timerfd_settime => exact handle_timerfd_settime_replied host ⟨s.timerfds, s.utcb, s.trace⟩
  | timerfd_gettime => exact handle_timerfd_gettime_replied host ⟨s.timerfds, s.utcb, s.trace⟩
  | timerfd_read => exact handle_read_counter_replied ⟨s.timerfds, s.utcb, s.trace⟩ host
  | timerfd_close => exact handle_close_replied ⟨s.timerfds, s.utcb, s.trace⟩ host
  | signalfd_create => exact handle_signalfd_create_replied host ⟨s.signalfds, s.utcb, s.trace⟩
  | signalfd_read => exact handle_read_records_replied ⟨s.signalfds, s.utcb, s.trace⟩ host
  | signalfd_close => exact handle_close_replied ⟨s.signalfds, s.utcb, s.trace⟩ host
  | inotify_init => exact handle_create_replied ⟨s.inotifies, s.utcb, s.trace⟩ host
  | inotify_add_watch => exact handle_inotify_add_watch_replied host ⟨s.inotifies, s.utcb, s.trace⟩
  | inotify_rm_watch => exact handle_inotify_rm_watch_replied host ⟨s.inotifies, s.utcb, s.trace⟩
  | inotify_read => exact handle_read_records_replied ⟨s.inotifies, s.utcb, s.trace⟩ host
  | inotify_close => exact handle_close_replied ⟨s.inotifies, s.utcb, s.trace⟩ host

/-- What a round of the server loop leaves in the registers. -/
theorem run_replied (s : Server) (utcb : Utcb) (host : Host) :
    Replied (∃ op, Op.decode (utcb.mr 0) = some op ∧ ReadsCounter s utcb host op)
      (∃ op, Op.decode (utcb.mr 0) = some op ∧ CarriesPayload s utcb host op)
      (∃ op, Op.decode (utcb.mr 0) = some op ∧ FailsToCreate host op)
      utcb (s.run (.request utcb host)).utcb := by
  cases hop : Op.decode (utcb.mr 0) with
  | none =>
    rw [s.run_of_unknown host hop]
    exact .word utcb (by simp) (by simp)
  | some op =>
    rw [s.run_of_op host hop]
    simp only [Option.some.injEq, exists_eq_left']
    exact dispatch_replied { s with utcb := utcb } host op

end fd_server
