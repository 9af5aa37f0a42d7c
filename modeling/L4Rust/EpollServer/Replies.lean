import L4Rust.EpollServer

open l4_sys

namespace epoll_server

open libc

variable (EPOLL_EVENT_SIZE : Nat) (host : Host) (s : Server)

/-- A wait that succeeds, which is the only request whose reply has a payload. -/
def Waits (utcb : Utcb) : Prop :=
  utcb.mr 0 = opcode.WAIT ∧ (s.instances (utcb.mr 1).toNat).isSome ∧ 0 < as_c_int (utcb.mr 2) ∧
    MAX_SERIALISED_EVENTS EPOLL_EVENT_SIZE ≠ 0 ∧ 0 ≤ host.result

/-- An instance is asked to add or change a descriptor, without an event for it. -/
def LacksEvent (utcb : Utcb) : Prop :=
  utcb.mr 0 = opcode.CTL ∧ (s.instances (utcb.mr 1).toNat).isSome ∧
    as_c_int (utcb.mr 2) ≠ EPOLL_CTL_DEL ∧ (EPOLL_EVENT_SIZE = 0 ∨ utcb.br.len.toNat < EPOLL_EVENT_SIZE)

theorem br_read_event_eq_none_iff (br : Br) :
    br_read_event EPOLL_EVENT_SIZE br = none ↔ EPOLL_EVENT_SIZE = 0 ∨ br.len.toNat < EPOLL_EVENT_SIZE := by
  unfold br_read_event
  split
  · simp [*]
  · simp [*]

theorem create1_replied {payload stale : Prop} (hstale : ¬ stale) :
    Replied False payload stale s.utcb (create1 host s).utcb := by
  unfold create1
  dsimp only
  split
  · exact .word s.utcb id hstale
  · exact .word s.utcb id hstale

theorem handle_ctl_replied {payload : Prop} (hop : s.utcb.mr 0 = opcode.CTL) :
    Replied False payload (LacksEvent EPOLL_EVENT_SIZE s s.utcb) s.utcb
      (handle_ctl EPOLL_EVENT_SIZE host s).utcb := by
  unfold handle_ctl LacksEvent
  dsimp only
  cases hinst : s.instances (s.utcb.mr 1).toNat with
  | none => exact .word s.utcb id (by simp)
  | some inst =>
    dsimp only
    split
    · next hdel => exact .word s.utcb id (by simp [hdel])
    next hdel =>
    rw [← br_read_event_eq_none_iff]
    cases br_read_event EPOLL_EVENT_SIZE s.utcb.br with
    | none => exact .unattended s.utcb id ⟨hop, rfl, hdel, rfl⟩
    | some event => exact .word s.utcb id (by simp)

theorem handle_wait_replied {stale : Prop} (hop : s.utcb.mr 0 = opcode.WAIT) (hstale : ¬ stale) :
    Replied False (Waits EPOLL_EVENT_SIZE host s s.utcb) stale s.utcb
      (handle_wait EPOLL_EVENT_SIZE host s).utcb := by
  unfold handle_wait Waits
  dsimp only
  cases hinst : s.instances (s.utcb.mr 1).toNat with
  | none => exact .word s.utcb id hstale
  | some inst =>
    dsimp only
    split
    · exact .word s.utcb id hstale
    next hmax =>
    split
    · exact .word s.utcb id hstale
    next hfits =>
    split
    · exact .word s.utcb id hstale
    next hok =>
    exact .with_payload rfl id ⟨hop, rfl, Int.not_le.mp hmax, hfits, Int.not_lt.mp hok⟩ hstale

theorem handle_close_replied {payload stale : Prop} (hstale : ¬ stale) :
    Replied False payload stale s.utcb (handle_close host s).utcb := by
  unfold handle_close
  dsimp only
  split
  · exact .word s.utcb id hstale
  · exact .word s.utcb id hstale

/-- What a round of the server loop leaves in the registers. -/
theorem run_replied (utcb : Utcb) :
    Replied False (Waits EPOLL_EVENT_SIZE host s utcb) (LacksEvent EPOLL_EVENT_SIZE s utcb) utcb
      (s.run EPOLL_EVENT_SIZE utcb host).utcb := by
  have hattended : utcb.mr 0 ≠ opcode.CTL → ¬ LacksEvent EPOLL_EVENT_SIZE s utcb := fun hop h => hop h.1
  unfold Server.run
  dsimp only
  split
  · next hop => exact create1_replied host { s with utcb := utcb } (hattended (by rw [hop]; decide))
  next =>
  split
  · next hop => exact handle_ctl_replied EPOLL_EVENT_SIZE host { s with utcb := utcb } hop
  next hctl =>
  split
  · next hop => exact handle_wait_replied EPOLL_EVENT_SIZE host { s with utcb := utcb } hop (hattended hctl)
  next =>
  split
  · exact handle_close_replied host { s with utcb := utcb } (hattended hctl)
  · exact .word utcb id (hattended hctl)

end epoll_server
