import L4Rust.L4Sys.Utcb
import L4Rust.Library.LittleEndian
import L4Rust.NetClient
import L4Rust.NetServer

open net_client
open l4_sys (transfer)

namespace net_server

/-- How the IPC of a call goes: whether the request gets to the server, and the error
that the client sees, or 0. -/
structure Link where
  arrives : Bool
  err : Int
  deriving DecidableEq, Repr

/-- A request that got to the server: what it was, the calls the server made for it,
and what the client got back. -/
structure Exchange where
  call : NetCall
  made : List SocketCall
  result : Except Int (Option UInt64)

/-- A client with its message registers, and the server. -/
structure System (ν : Type) where
  client : Nat → UInt64
  server : Server ν

namespace System

variable {ν : Type} (stack : NetStack ν)

/-- The server gets a request and replies. -/
def serve (s : System ν) (call : NetCall) : System ν :=
  let mr := call.message s.client
  ⟨mr, run stack { s.server with mr := transfer call.request.length mr s.server.mr }⟩

/-- The reply goes back to the client, unless the IPC has failed. -/
def reply (s : System ν) (err : Int) : System ν :=
  if err ≠ 0 then s else { s with client := transfer REPLY_WORDS s.server.mr s.client }

/-- The exchanges of a sequence of calls. -/
def exchanges (s : System ν) : List (NetCall × Link) → List Exchange
  | [] => []
  | (call, link) :: calls =>
    if link.arrives then
      let s := (s.serve stack call).reply link.err
      ⟨call, s.server.made, call.result link.err s.client⟩ :: s.exchanges calls
    else { s with client := call.message s.client }.exchanges calls

end System

/-- The bytes of a word, as a datagram carries them. -/
def word_bytes (word : UInt64) : List UInt8 := LittleEndian.encode 8 word.toNat

/-- What the protocol says of a request: every call made for it is of the kind that
its code stands for, and it does what that kind is for. -/
structure Exchange.Served (e : Exchange) : Prop where
  kind : ∀ made ∈ e.made, proto.operation (e.call.request.getD 0 0) = some made.operation
  done : match e.call with
    | .open_socket => ∀ handle, e.result = .ok (some handle) → handle ≠ 0xffffffffffffffff
    | .send _ word => ∃ data remote, .udp_send_slice data remote ∈ e.made ∧ word_bytes word <:+: data
    | .recv _ => ∃ data, .udp_recv (some data) ∈ e.made ∧ ∀ w, e.result = .ok (some w) →
        w = .ofNat data.length ∨ word_bytes w <:+: data
    | .close _ => True

section Protocol

variable {ν : Type} {stack : NetStack ν} {s : System ν}

theorem server_reply (s : System ν) (err : Int) : (s.reply err).server = s.server := by
  unfold System.reply
  split
  · rfl
  · rfl

/-- A request to receive at most opens a connection. -/
theorem made_of_recv (handle : UInt64) :
    ∀ made ∈ (s.serve stack (.recv handle)).server.made, made = .tcp_connect gateway 49500 := by
  have hrun : (s.serve stack (.recv handle)).server.made =
      if !stack.tcp_is_open (stack.poll s.server.net) then [.tcp_connect gateway 49500] else [] := by
    change (Server.set_mr (if _ then _ else _) 0 0).made = _
    split
    · rfl
    · rfl
  rw [hrun]
  intro made hmade
  split at hmade
  · exact List.mem_singleton.mp hmade
  · cases hmade

/-- The server numbers its operations in another way than the protocol does. -/
theorem not_served_of_serve (stack : NetStack ν) (s : System ν) {e : Exchange}
    (hmade : e.made = (s.serve stack e.call).server.made) : ¬ e.Served := by
  rintro ⟨hkind, hdone⟩
  obtain ⟨call, made, result⟩ := e
  dsimp only at hmade hkind hdone
  subst hmade
  cases call with
  | open_socket =>
    have hsend := hkind (.udp_send_slice [] gateway) (List.mem_singleton_self _)
    cases hsend
  | send handle word =>
    have hrecv := hkind (.udp_recv (stack.udp_recv (stack.poll s.server.net)).1)
      (List.mem_singleton_self _)
    cases hrecv
  | recv handle =>
    obtain ⟨data, hdata, _⟩ := hdone
    have hconnect := made_of_recv handle _ hdata
    cases hconnect
  | close handle =>
    have hsend := hkind (.tcp_send_slice []) (List.mem_singleton_self _)
    cases hsend

end Protocol

/-- Client and server agree on no request: whatever the network does, those sequences
of calls are served as the protocol says of which nothing gets to the server. -/
theorem served_iff_none_arrives {ν : Type} (stack : NetStack ν) (s : System ν)
    (calls : List (NetCall × Link)) :
    (∀ e ∈ s.exchanges stack calls, e.Served) ↔ ∀ c ∈ calls, c.2.arrives = false := by
  induction calls generalizing s with
  | nil => simp [System.exchanges]
  | cons c calls ih =>
    obtain ⟨call, link⟩ := c
    rw [List.forall_mem_cons]
    cases harrives : link.arrives with
    | false =>
      simp only [System.exchanges, harrives, Bool.false_eq_true, if_false, ih, true_and]
    | true =>
      simp only [System.exchanges, harrives, if_true, List.forall_mem_cons, Bool.true_eq_false,
        false_and, iff_false, not_and]
      intro hserved
      refine absurd hserved (not_served_of_serve stack s ?_)
      rw [server_reply]

/-- A stack on which nothing ever arrives. -/
def silent : NetStack Unit where
  poll := id
  udp_send_slice _ _ := id
  udp_recv net := (none, net)
  tcp_is_open _ := false
  tcp_connect _ _ := id
  tcp_send_slice _ := id
  tcp_recv_slice _ net := (none, net)

/-- A word that is sent is not: the server tries to receive a datagram instead, and
the client is told that all went well. -/
theorem send_executed_as_recv :
    ∃ e, System.exchanges silent ⟨fun _ => 0, (), fun _ => 0, []⟩ [(.send 0 42, ⟨true, 0⟩)] = [e] ∧
      e.made = [.udp_recv none] ∧ e.result = .ok none ∧ ¬ e.Served := by
  refine ⟨⟨.send 0 42, [.udp_recv none], .ok none⟩, rfl, rfl, rfl, ?_⟩
  rintro ⟨hkind, _⟩
  have hrecv := hkind (.udp_recv none) (List.mem_singleton_self _)
  cases hrecv

end net_server
