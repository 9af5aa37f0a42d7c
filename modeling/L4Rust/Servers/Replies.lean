import L4Rust.AioServer.Replies
import L4Rust.EpollServer.Replies
import L4Rust.FdServer.Replies
import L4Rust.FsServer.Replies

open l4_sys

namespace servers

open l4.ipc (MsgTag)

/-- Every message register that was assigned to is among those that the kernel transfers
with this tag. -/
def Transmitted (tag : MsgTag) (assigned : List Nat) : Prop := ∀ i ∈ assigned, i < tag.words

/-- All that the servers compute for a client reaches it, except for the counters of event
and timer descriptors. -/
theorem results_transmitted {φ ι : Type} (lib : fs_server.FileSystem φ ι) (EPOLL_EVENT_SIZE : Nat)
    (layout : aio_server.libc.Layout) (mr : Nat → UInt64) (br : Br) (fd : fd_server.Server)
    (fdHost : fd_server.Host) (epoll : epoll_server.Server) (epollHost : epoll_server.Host)
    (ops : Slab aio_server.Operation) (aioHost : aio_server.Host)
    (msg : aio_server.Message) (fs : fs_server.Server φ ι) (key : Nat) :
    (Transmitted fd_server.reply_tag (fd.run (.request (.receive mr br) fdHost)).utcb.assigned ↔
      ¬ ∃ op, fd_server.Op.decode (mr 0) = some op ∧
        fd_server.ReadsCounter fd (.receive mr br) fdHost op) ∧
    Transmitted epoll_server.reply_tag
      (epoll.run EPOLL_EVENT_SIZE (.receive mr br) epollHost).utcb.assigned ∧
    (let served := aio_server.dispatch layout aioHost ops msg;
      Transmitted aio_server.reply_tag served.assigned ∧
        ∀ i ∉ served.assigned, served.msg.mr i = msg.mr i) ∧
    ∀ t ∈ fs.run lib (.receive mr br) key, Transmitted fs_server.reply_tag t.utcb.assigned := by
  refine ⟨?_, ?_, ?_, ?_⟩
  · exact (fd_server.run_replied fd (.receive mr br) fdHost).forall_assigned_iff rfl
  · have hreplied := epoll_server.run_replied EPOLL_EVENT_SIZE epollHost epoll (.receive mr br)
    exact (hreplied.forall_assigned_iff rfl).mpr id
  · have hanswered := aio_server.dispatch_answered layout aioHost ops msg
    exact ⟨hanswered.assigned, hanswered.others⟩
  · intro t hrun
    exact (fs_server.run_answered hrun).lt_two rfl

/-- Registers with nothing in them but an opcode. -/
def request (op : UInt64) : Utcb := .receive (fun i => if i = 0 then op else 0) ⟨0, fun _ => 0⟩

/-- The descriptor server after it has created an event descriptor. -/
def afterCreate : fd_server.Server :=
  fd_server.Server.run ⟨.new, .new, .new, .new, request 0, []⟩
    (.request (request fd_server.opcode.EVENTFD_CREATE) ⟨5, none, 0, [], 0⟩)

/-- The counter of an event descriptor is put where the client does not get it. -/
theorem counter_not_transmitted :
    let t := afterCreate.run (.request (request fd_server.opcode.EVENTFD_READ) ⟨8, none, 7, [], 0⟩)
    t.utcb.mr 1 = 7 ∧ t.utcb.assigned = [0, 1] ∧ ¬ Transmitted fd_server.reply_tag t.utcb.assigned ∧
      ∀ client, transfer fd_server.reply_tag.words t.utcb.mr client 1 = client 1 := by
  refine ⟨rfl, rfl, ?_, fun _ => rfl⟩
  intro htransmitted
  have hsecond := htransmitted 1 (List.mem_cons_of_mem _ (List.mem_singleton_self _))
  exact absurd hsecond (by decide)

/-- A reply without a payload says so, except where an event descriptor could not be
created or an event was missing, and the request has a payload of its own. -/
theorem replies_without_payload (EPOLL_EVENT_SIZE : Nat) (layout : aio_server.libc.Layout)
    (mr : Nat → UInt64) (br : Br) (fd : fd_server.Server) (fdHost : fd_server.Host)
    (epoll : epoll_server.Server) (epollHost : epoll_server.Host) (ops : Slab aio_server.Operation)
    (aioHost : aio_server.Host) (msg : aio_server.Message) :
    ((¬ (∃ op, fd_server.Op.decode (mr 0) = some op ∧
          fd_server.CarriesPayload fd (.receive mr br) fdHost op) →
        (fd.run (.request (.receive mr br) fdHost)).utcb.br.len = 0) ↔
      ((∃ op, fd_server.Op.decode (mr 0) = some op ∧ fd_server.FailsToCreate fdHost op) →
        br.len = 0)) ∧
    ((¬ epoll_server.Waits EPOLL_EVENT_SIZE epollHost epoll (.receive mr br) →
        (epoll.run EPOLL_EVENT_SIZE (.receive mr br) epollHost).utcb.br.len = 0) ↔
      (epoll_server.LacksEvent EPOLL_EVENT_SIZE epoll (.receive mr br) → br.len = 0)) ∧
    (¬ aio_server.ReturnsRead ops msg → (aio_server.dispatch layout aioHost ops msg).msg.br = []) := by
  refine ⟨?_, ?_, ?_⟩
  · apply (fd_server.run_replied fd (.receive mr br) fdHost).len_eq_zero_iff
    rintro ⟨op, hop, hfails⟩ ⟨op', hop', hpayload⟩
    obtain rfl := Option.some.inj (hop.symm.trans hop')
    cases op with
    | eventfd_create => exact hpayload
    | _ => exact hfails
  · apply (epoll_server.run_replied EPOLL_EVENT_SIZE epollHost epoll (.receive mr br)).len_eq_zero_iff
    intro hlacks hwaits
    have hop := hlacks.1.symm.trans hwaits.1
    exact absurd hop (by decide)
  · exact (aio_server.dispatch_answered layout aioHost ops msg).cleared

/-- An instance of the host in the epoll server. -/
def withInstance : epoll_server.Server := ⟨Slab.new.insert 0 ⟨5⟩, request 0, []⟩

/-- What the request has left in the buffer registers is announced as the payload of an
error reply, in both servers. -/
theorem request_announced_as_payload :
    (let br : Br := ⟨8, fun _ => 0x41⟩
      let t := afterCreate.run (.request (.receive (fun _ => 0) br) ⟨-1, some 24, 0, [], 0⟩)
      (¬ ∃ op, fd_server.Op.decode 0 = some op ∧
        fd_server.CarriesPayload afterCreate (.receive (fun _ => 0) br) ⟨-1, some 24, 0, [], 0⟩ op) ∧
      t.utcb.mr 0 = .ofInt (-24) ∧ t.utcb.br.len = 8) ∧
    (let utcb := Utcb.receive (fun i => [epoll_server.opcode.CTL, 0, 1, 3].getD i 0) ⟨4, fun _ => 0x41⟩
      let t := withInstance.run 12 utcb ⟨0, none, [], 0⟩
      ¬ epoll_server.Waits 12 ⟨0, none, [], 0⟩ withInstance utcb ∧
      t.utcb.mr 0 = .ofInt (-22) ∧ t.utcb.br.len = 4) := by
  refine ⟨⟨?_, rfl, rfl⟩, ?_, rfl, rfl⟩
  · rintro ⟨op, hop, hpayload⟩
    have hdecode : fd_server.Op.decode 0 = some .eventfd_create := by decide
    obtain rfl := Option.some.inj (hdecode.symm.trans hop)
    exact hpayload
  · intro hwaits
    exact absurd hwaits.1 (by decide)

end servers
