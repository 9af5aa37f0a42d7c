import Mathlib.Data.BitVec
import Mathlib.Tactic.Common

namespace l4.error

/-- Generic L4 error codes. -/
inductive GenericErr where
  | Ok | NoPerm | NoEntity | Io | NoDevOrAddr | Arg2Big | TryAgain | NoMem | PermissionDenied
  | InvalidMemAddr | ObjBusy | AlreadyExists | NoDev | InvalidArg | NoSpace | OutOfBounds
  | NameTooLong | NoSys | InvalidProt | AddrNotAvail | MaxErr | NoReply | MsgTooShort | MsgTooLong
  | MsgInvalidCap | IpcRLow | IpcRHigh
  deriving DecidableEq, Repr

/-- Error codes in the *error* thread control register. -/
inductive TcrErr where
  | IpcErrorMask | SendErrMask | NotExistent | RecvTimeout | SendTimeout | RecvCanceled
  | SendCanceled | RemapFailed | SendMapFailed | RecvSendPFTimeout | SendSendPFTimeout
  | RecvRecvPFTimeout | SendRecvPFTimeout | RecvAbort | SendAbort | RecvMsgCut | SendMsgCut
  deriving DecidableEq, Repr

/-- The variants in declaration order, as `FromPrimitive` tries them. -/
def GenericErr.variants : List GenericErr :=
  [.Ok, .NoPerm, .NoEntity, .Io, .NoDevOrAddr, .Arg2Big, .TryAgain, .NoMem, .PermissionDenied,
    .InvalidMemAddr, .ObjBusy, .AlreadyExists, .NoDev, .InvalidArg, .NoSpace, .OutOfBounds,
    .NameTooLong, .NoSys, .InvalidProt, .AddrNotAvail, .MaxErr, .NoReply, .MsgTooShort,
    .MsgTooLong, .MsgInvalidCap, .IpcRLow, .IpcRHigh]

def TcrErr.variants : List TcrErr :=
  [.IpcErrorMask, .SendErrMask, .NotExistent, .RecvTimeout, .SendTimeout, .RecvCanceled,
    .SendCanceled, .RemapFailed, .SendMapFailed, .RecvSendPFTimeout, .SendSendPFTimeout,
    .RecvRecvPFTimeout, .SendRecvPFTimeout, .RecvAbort, .SendAbort, .RecvMsgCut, .SendMsgCut]

theorem GenericErr.mem_variants (e : GenericErr) : e ∈ variants := by cases e <;> decide

/-- The discriminants of the two enums, which the build generates from the C
headers. Enumerators of a C enum without negative values are unsigned 32-bit
constants, and a Rust enum has no two equal discriminants. -/
structure Codes where
  generic : GenericErr → Nat
  tcr : TcrErr → Nat
  generic_injective : Function.Injective generic
  generic_ok : generic .Ok = 0
  generic_lt : ∀ e, generic e < 2 ^ 32
  tcr_pos : ∀ e, 0 < tcr e
  tcr_lt : ∀ e, tcr e < 2 ^ 32

/-- Every generic code but the one of `Ok` is positive. -/
theorem Codes.generic_pos (codes : Codes) {e : GenericErr} (h : e ≠ .Ok) : 0 < codes.generic e := by
  have hne : codes.generic e ≠ codes.generic .Ok := fun heq => h (codes.generic_injective heq)
  rw [codes.generic_ok] at hne
  omega

/-- The codes of the L4Re headers. -/
def Codes.l4re : Codes where
  generic
    | .Ok => 0 | .NoPerm => 1 | .NoEntity => 2 | .Io => 5 | .NoDevOrAddr => 6 | .Arg2Big => 7
    | .TryAgain => 11 | .NoMem => 12 | .PermissionDenied => 13 | .InvalidMemAddr => 14
    | .ObjBusy => 16 | .AlreadyExists => 17 | .NoDev => 19 | .InvalidArg => 22 | .NoSpace => 28
    | .OutOfBounds => 34 | .NameTooLong => 36 | .NoSys => 38 | .InvalidProt => 39
    | .AddrNotAvail => 99 | .MaxErr => 100 | .NoReply => 1000 | .MsgTooShort => 1001
    | .MsgTooLong => 1002 | .MsgInvalidCap => 1003 | .IpcRLow => 2000 | .IpcRHigh => 2031
  tcr
    | .IpcErrorMask => 0x1f | .SendErrMask => 0x01 | .NotExistent => 0x04 | .RecvTimeout => 0x03
    | .SendTimeout => 0x02 | .RecvCanceled => 0x07 | .SendCanceled => 0x06 | .RemapFailed => 0x11
    | .SendMapFailed => 0x10 | .RecvSendPFTimeout => 0x0b | .SendSendPFTimeout => 0x0a
    | .RecvRecvPFTimeout => 0x0d | .SendRecvPFTimeout => 0x0c | .RecvAbort => 0x0f
    | .SendAbort => 0x0e | .RecvMsgCut => 0x09 | .SendMsgCut => 0x08
  generic_injective := by intro a b; cases a <;> cases b <;> decide
  generic_ok := rfl
  generic_lt := by intro e; cases e <;> decide
  tcr_pos := by intro e; cases e <;> decide
  tcr_lt := by intro e; cases e <;> decide

/-- `GenericErr::from_u64` of the derived `FromPrimitive`. -/
def GenericErr.from_u64 (codes : Codes) (n : BitVec 64) : Option GenericErr :=
  variants.find? fun e => BitVec.ofNat 64 (codes.generic e) = n

/-- `TcrErr::from_u64` of the derived `FromPrimitive`. -/
def TcrErr.from_u64 (codes : Codes) (n : BitVec 64) : Option TcrErr :=
  variants.find? fun e => BitVec.ofNat 64 (codes.tcr e) = n

/-- What `core::str::from_utf8` reports; the position it carries is only
printed, never inspected. -/
inductive Utf8Error where
  | invalid
  deriving DecidableEq, Repr

/-- The framework's error type. `i64` and `isize` payloads are 64-bit words. -/
inductive Error where
  | Generic (e : GenericErr)
  | Tcr (e : TcrErr)
  | InvalidCap
  | InvalidArg (reason : String) (code : Option (BitVec 64))
  | InvalidState (reason : String)
  | Unknown (code : BitVec 64)
  | Protocol (code : BitVec 64)
  | InvalidEncoding (e : Option Utf8Error)
  deriving DecidableEq, Repr

def Error.INVALID_CAP_CODE : BitVec 64 := BitVec.ofInt 64 (-65540)

def Error.INVALID_ENCODING : BitVec 64 := BitVec.ofInt 64 (-65541)

/-- The error a client reads out of a negative reply label. -/
def Error.from_ipc (codes : Codes) (code : BitVec 64) : Error :=
  if code = INVALID_CAP_CODE then .InvalidCap
  else if code = INVALID_ENCODING then .InvalidEncoding none
  else match GenericErr.from_u64 codes code.abs with
    | some tc => .Generic tc
    | none => .Unknown code

/-- The reply label a server sends for an error. The multiplication by `-1`
wraps on `i64::MIN`, as in the release profile the build scripts use; with
overflow checks the server stops there, and at no other code. -/
def Error.into_ipc_err (codes : Codes) : Error → BitVec 64
  | .Generic err => BitVec.ofNat 64 (codes.generic err) * -1
  | .Tcr err => BitVec.ofNat 64 (codes.tcr err) * -1
  | .InvalidCap => -1 * INVALID_CAP_CODE
  | .InvalidArg _ _ | .InvalidState _ => -1 * BitVec.ofNat 64 (codes.generic .InvalidArg)
  | .InvalidEncoding _ => -1 * INVALID_ENCODING
  | .Unknown n | .Protocol n => n * -1

end l4.error
