import Mathlib.Logic.Function.Basic
import Mathlib.Tactic.Common

namespace net_server

/-- What the requests of the network protocol are for. -/
inductive Operation where
  | Open
  | Send
  | Recv
  | Close
  deriving DecidableEq, Repr

namespace proto

def OP_OPEN : UInt64 := 0
def OP_SEND : UInt64 := 1
def OP_RECV : UInt64 := 2
def OP_CLOSE : UInt64 := 3

/-- The operation that a code in `MR0` stands for. -/
def operation (code : UInt64) : Option Operation :=
  if code = OP_OPEN then some .Open
  else if code = OP_SEND then some .Send
  else if code = OP_RECV then some .Recv
  else if code = OP_CLOSE then some .Close
  else none

end proto

/-- `IpEndpoint` with an IPv4 address. -/
structure IpEndpoint where
  addr : UInt8 × UInt8 × UInt8 × UInt8
  port : UInt16
  deriving DecidableEq, Repr

/-- The network stack with its UDP and its TCP socket, as far as the server uses it.
A receive hands out what has arrived, if anything has. -/
structure NetStack (ν : Type) where
  poll : ν → ν
  udp_send_slice : List UInt8 → IpEndpoint → ν → ν
  udp_recv : ν → Option (List UInt8) × ν
  tcp_is_open : ν → Bool
  tcp_connect : IpEndpoint → UInt16 → ν → ν
  tcp_send_slice : List UInt8 → ν → ν
  tcp_recv_slice : Nat → ν → Option (List UInt8) × ν

/-- The calls that the server makes on a socket, with what came of a receive. -/
inductive SocketCall where
  | udp_send_slice (data : List UInt8) (remote : IpEndpoint)
  | udp_recv (received : Option (List UInt8))
  | tcp_connect (remote : IpEndpoint) (local_port : UInt16)
  | tcp_send_slice (data : List UInt8)
  | tcp_recv_slice (received : Option (List UInt8))
  deriving DecidableEq, Repr

/-- What a call on a socket is for. -/
def SocketCall.operation : SocketCall → Operation
  | .udp_send_slice .. | .tcp_send_slice _ => .Send
  | .udp_recv _ | .tcp_recv_slice _ => .Recv
  | .tcp_connect .. => .Open

/-- The network stack, the message registers, and the calls on the sockets made for
the request at hand. -/
structure Server (ν : Type) where
  net : ν
  mr : Nat → UInt64
  made : List SocketCall

namespace Server

variable {ν : Type} (stack : NetStack ν) (s : Server ν)

def set_mr (i : Nat) (w : UInt64) : Server ν := { s with mr := Function.update s.mr i w }

def udp_send_slice (data : List UInt8) (remote : IpEndpoint) : Server ν :=
  { s with
    net := stack.udp_send_slice data remote s.net
    made := s.made ++ [.udp_send_slice data remote] }

def udp_recv : Option (List UInt8) × Server ν :=
  let (received, net) := stack.udp_recv s.net
  (received, { s with net := net, made := s.made ++ [.udp_recv received] })

def tcp_connect (remote : IpEndpoint) (local_port : UInt16) : Server ν :=
  { s with
    net := stack.tcp_connect remote local_port s.net
    made := s.made ++ [.tcp_connect remote local_port] }

def tcp_send_slice (data : List UInt8) : Server ν :=
  { s with
    net := stack.tcp_send_slice data s.net
    made := s.made ++ [.tcp_send_slice data] }

def tcp_recv_slice (len : Nat) : Option (List UInt8) × Server ν :=
  let (received, net) := stack.tcp_recv_slice len s.net
  (received, { s with net := net, made := s.made ++ [.tcp_recv_slice received] })

end Server

/-- The endpoint that all packets go to. -/
def gateway : IpEndpoint := ⟨(10, 0, 2, 2), 80⟩

/-- How many bytes were received. -/
def count (received : Option (List UInt8)) : UInt64 := .ofNat ((received.map List.length).getD 0)

/-- The words of the tag the server replies with. -/
def REPLY_WORDS : Nat := 1

variable {ν : Type} (stack : NetStack ν)

/-- One round of the server loop, for a request in the message registers. -/
def run (s : Server ν) : Server ν :=
  let s := { s with net := stack.poll s.net, made := [] }
  match s.mr 0 with
  | 0 => (s.udp_send_slice stack [] gateway).set_mr 0 0
  | 1 =>
    let (received, s) := s.udp_recv stack
    s.set_mr 0 (count received)
  | 2 =>
    let s := if !stack.tcp_is_open s.net then s.tcp_connect stack gateway 49500 else s
    s.set_mr 0 0
  | 3 => (s.tcp_send_slice stack []).set_mr 0 0
  | 4 =>
    let (received, s) := s.tcp_recv_slice stack 512
    s.set_mr 0 (count received)
  | _ => s.set_mr 0 0xffffffffffffffff -- unsupported operations

end net_server
