import Mathlib.Logic.Function.Basic
import Mathlib.Tactic.Common

namespace net_client

def OP_OPEN : UInt64 := 0
def OP_SEND : UInt64 := 1
def OP_RECV : UInt64 := 2
def OP_CLOSE : UInt64 := 3

/-- The calls of a `NetClient`. -/
inductive NetCall where
  | open_socket
  | send (handle word : UInt64)
  | recv (handle : UInt64)
  | close (handle : UInt64)
  deriving DecidableEq, Repr

namespace NetCall

/-- The words that a call puts into the message registers from `MR0` on. Its tag
counts exactly these. -/
def request : NetCall → List UInt64
  | .open_socket => [OP_OPEN, 0] -- protocol: UDP
  | .send handle word => [OP_SEND, handle, word]
  | .recv handle => [OP_RECV, handle]
  | .close handle => [OP_CLOSE, handle]

/-- The message registers of the client when it calls. -/
def message (call : NetCall) (mr : Nat → UInt64) : Nat → UInt64 :=
  fun i => call.request.getD i (mr i)

/-- What a call returns: the error of the IPC, or for two of the calls the word in
`MR0`, and for the others nothing. -/
def result (call : NetCall) (err : Int) (mr : Nat → UInt64) : Except Int (Option UInt64) :=
  if err ≠ 0 then .error err
  else match call with
    | .open_socket | .recv _ => .ok (some (mr 0))
    | .send .. | .close _ => .ok none

end NetCall

end net_client
