import L4Rust.Library.Alignment
import L4Rust.Library.Cursor
import L4Rust.Library.LittleEndian
import L4Rust.L4.Error
import L4Rust.L4Sys.IpcBasic

open l4.error

namespace l4.utcb

/-- A Rust type as a raw pointer sees it. Alignments are powers of two and
sizes are multiples of them. -/
structure Ty where
  size : Nat
  align_log : Nat
  size_lt : size < 2 ^ 63
  align_log_lt : align_log < 64
  align_dvd_size : 2 ^ align_log ∣ size

def Ty.align (T : Ty) : Nat := 2 ^ T.align_log

/-- A value of the type: the bytes that an assignment through a raw pointer
copies. -/
@[ext]
structure Ty.Value (T : Ty) where
  bytes : List UInt8
  length_bytes : bytes.length = T.size
  deriving DecidableEq

/-- A `Serialisable` type. It must have a counterpart in C++, where no object
is empty. `valid` tells which byte patterns are values of the type; reading
does not check it. -/
structure Serialisable extends Ty where
  size_pos : 0 < size
  valid : List UInt8 → Bool

/-- The value stored at an address. -/
def Ty.valueAt (T : Ty) (mem : Memory) (start : Nat) : T.Value :=
  ⟨mem.load start T.size, Memory.length_load mem start T.size⟩

/-- The primitive integer types, which a length in front of a slice may have. The
bounds on `Len` admit `f32` and `f64` as well, which are left out: the code has
lengths of integer types only. -/
inductive IntTy where
  | i8 | i16 | i32 | i64 | i128 | isize | u8 | u16 | u32 | u64 | u128 | usize
  deriving DecidableEq, Repr

def IntTy.signed : IntTy → Bool
  | .i8 | .i16 | .i32 | .i64 | .i128 | .isize => true
  | .u8 | .u16 | .u32 | .u64 | .u128 | .usize => false

def IntTy.sizeLog : IntTy → Nat
  | .i8 | .u8 => 0
  | .i16 | .u16 => 1
  | .i32 | .u32 => 2
  | .i64 | .u64 | .isize | .usize => 3
  | .i128 | .u128 => 4

theorem IntTy.sizeLog_le (I : IntTy) : I.sizeLog ≤ 4 := by cases I <;> decide

/-- A type whose alignment is its size, as for every primitive. -/
def Ty.natural (k : Nat) (hk : k ≤ 4) : Ty where
  size := 2 ^ k
  align_log := k
  size_lt := by
    have hpow : 2 ^ k ≤ 2 ^ 4 := Nat.pow_le_pow_right (by decide) hk
    omega
  align_log_lt := by omega
  align_dvd_size := Nat.dvd_refl _

def IntTy.ty (I : IntTy) : Ty := Ty.natural I.sizeLog I.sizeLog_le

/-- Every byte pattern is an integer. -/
def IntTy.serialisable (I : IntTy) : Serialisable :=
  ⟨I.ty, Nat.two_pow_pos _, fun _ => true⟩

/-- One more than the largest value of the type. -/
def IntTy.bound (I : IntTy) : Nat :=
  if I.signed then 2 ^ (8 * 2 ^ I.sizeLog - 1) else 2 ^ (8 * 2 ^ I.sizeLog)

/-- The memory representation of a non-negative integer. -/
def IntTy.literal (I : IntTy) (n : Nat) : I.ty.Value :=
  ⟨LittleEndian.encode (2 ^ I.sizeLog) n, LittleEndian.length_encode _ _⟩

/-- `NumCast::from` on a `usize`. -/
def IntTy.from_usize (I : IntTy) (n : Nat) : Option I.ty.Value :=
  if n < I.bound then some (I.literal n) else none

/-- `ToPrimitive::to_usize`: negative values and values beyond 64 bits have none. -/
def IntTy.to_usize (I : IntTy) (v : I.ty.Value) : Option Nat :=
  let n := LittleEndian.decode v.bytes
  if n < I.bound ∧ n < 2 ^ 64 then some n else none

/-- How a byte range was used. -/
inductive AccessKind where
  | read | write | slice
  deriving DecidableEq, Repr

/-- A byte range relative to the base of the registers. -/
structure Access where
  kind : AccessKind
  start : Nat
  stop : Nat
  deriving DecidableEq, Repr

/-- The registers behind a raw pointer. `trace` records every byte range that
was dereferenced or handed out so far; the code never looks at it. -/
structure Registers where
  mem : Memory
  offset : Nat
  trace : List Access

instance : HasCursor Registers := ⟨Registers.mem, Registers.offset⟩

@[simp] theorem mem_registers (r : Registers) : HasCursor.mem r = r.mem := rfl

@[simp] theorem offset_registers (r : Registers) : HasCursor.offset r = r.offset := rfl

/-- The size of a register file in bytes. No Rust object is larger than
`isize::MAX`. -/
structure UtcbRegSize where
  BUF_SIZE : Nat
  buf_size_lt : BUF_SIZE < 2 ^ 63

/-- The message registers. -/
def l4_msg_regs_t : UtcbRegSize := ⟨l4_sys.UTCB_GENERIC_DATA_SIZE * 8, by decide⟩

/-- The buffer registers. -/
def l4_buf_regs_t : UtcbRegSize := ⟨l4_sys.UTCB_GENERIC_BUFFERS_SIZE * 8, by decide⟩

/-- `usize::checked_add`. -/
def checked_add (a b : Nat) : Option Nat := if a + b < 2 ^ 64 then some (a + b) else none

/-- `usize::checked_mul`. -/
def checked_mul (a b : Nat) : Option Nat := if a * b < 2 ^ 64 then some (a * b) else none

/-- The next aligned offset for a type. Without a result the plain addition
overflows `usize`.

Here and in the other modules, arithmetic that the source leaves to the compiler
stops the program where it overflows, as with overflow checks. The release
profile, with which the scripts build, goes on with the wrapped value instead;
a definition that follows it in this says that it wraps. As long as nothing
overflows, both are the same program. -/
def align_offset (T : Ty) (off : Nat) : Option Nat := do
  let sum ← checked_add off T.align
  pure ((sum - 1) &&& (2 ^ 64 - 1 - (T.align - 1)))

/-- Dereference a pointer into the registers for reading. -/
def deref (T : Ty) (start : Nat) : Exec Error Registers T.Value := do
  let r ← Exec.get
  Exec.modify fun r => { r with trace := ⟨.read, start, start + T.size⟩ :: r.trace }
  pure (T.valueAt r.mem start)

/-- Write through a pointer into the registers. -/
def assign (start : Nat) (bytes : List UInt8) : Exec Error Registers Unit :=
  Exec.modify fun r => { r with
    mem := r.mem.store start bytes
    trace := ⟨.write, start, start + bytes.length⟩ :: r.trace }

/-- `slice::from_raw_parts`: a view of the registers, with its contents at the
time it is made. -/
def from_raw_parts (T : Ty) (start len : Nat) : Exec Error Registers (List T.Value) := do
  let r ← Exec.get
  Exec.modify fun r => { r with trace := ⟨.slice, start, start + len * T.size⟩ :: r.trace }
  pure ((List.range len).map fun i => T.valueAt r.mem (start + i * T.size))

/-- `l4_err_if!` with a generic error. -/
def l4_err_if (condition : Prop) [Decidable condition] (e : GenericErr) :
    Exec Error Registers Unit :=
  if condition then Exec.throw (.Generic e) else pure ()

/-- Move the offset. -/
def set_offset (stop : Nat) : Exec Error Registers Unit :=
  Exec.modify fun r => { r with offset := stop }

/-- Fresh access to the registers at a pointer. -/
def Registers.from_raw (mem : Memory) : Registers := ⟨mem, 0, []⟩

variable (U : UtcbRegSize)

def Registers.write (T : Ty) (val : T.Value) : Exec Error Registers Unit := do
  let self ← Exec.get
  let start ← Exec.checked (align_offset T self.offset)
  let stop ← Exec.ok_or (checked_add start T.size) (.Generic .MsgTooLong)
  l4_err_if (stop > U.BUF_SIZE) .MsgTooLong
  assign start val.bytes
  set_offset stop

def Registers.read (T : Ty) : Exec Error Registers T.Value := do
  let self ← Exec.get
  let start ← Exec.checked (align_offset T self.offset)
  let stop ← Exec.ok_or (checked_add start T.size) (.Generic .MsgTooLong)
  l4_err_if (stop > U.BUF_SIZE) .MsgTooLong
  let val ← deref T start
  set_offset stop
  pure val

/-- The length comes first, in its own type, and then the elements. -/
def Registers.write_slice (Len : IntTy) (T : Ty) (val : List T.Value) :
    Exec Error Registers Unit := do
  let len ← Exec.ok_or (Len.from_usize val.length) (.Generic .InvalidArg)
  Registers.write U Len.ty len
  let self ← Exec.get
  let start ← Exec.checked (align_offset T self.offset)
  let size_bytes ← Exec.ok_or (checked_mul val.length T.size) (.Generic .MsgTooLong)
  let stop ← Exec.ok_or (checked_add start size_bytes) (.Generic .MsgTooLong)
  l4_err_if (stop > U.BUF_SIZE) .MsgTooLong
  assign start (val.flatMap Ty.Value.bytes)
  set_offset stop

/-- The object representation of a byte. -/
def byteValue (b : UInt8) : IntTy.u8.ty.Value := ⟨[b], rfl⟩

/-- `str::as_bytes`. -/
def utf8 (val : String) : List UInt8 := val.toByteArray.data.toList

def Registers.write_str (val : String) : Exec Error Registers Unit :=
  Registers.write_slice U .usize IntTy.u8.ty ((utf8 val).map byteValue)

def Registers.read_slice (Len : IntTy) (T : Ty) : Exec Error Registers (List T.Value) := do
  let raw ← Registers.read U Len.ty
  let len ← Exec.ok_or (Len.to_usize raw) (.Generic .InvalidArg)
  let self ← Exec.get
  let start ← Exec.checked (align_offset T self.offset)
  let size_bytes ← Exec.ok_or (checked_mul len T.size) (.Generic .OutOfBounds)
  let stop ← Exec.ok_or (checked_add start size_bytes) (.Generic .OutOfBounds)
  l4_err_if (stop > U.BUF_SIZE) .OutOfBounds
  set_offset stop
  from_raw_parts T start len

/-- `core::str::from_utf8`. -/
def from_utf8 (bytes : List UInt8) : Except Utf8Error String :=
  match String.fromUTF8? bytes.toByteArray with
  | some s => .ok s
  | none => .error .invalid

/-- The length of a text; a final NUL does not belong to it. -/
def text_len (bytes : List UInt8) (len : Nat) : Nat :=
  match bytes.getLast? with
  | some 0 => len - 1
  | _ => len

def Registers.read_str : Exec Error Registers String := do
  let raw ← Registers.read U IntTy.usize.ty
  let len := LittleEndian.decode raw.bytes
  let self ← Exec.get
  let stop ← Exec.ok_or (checked_add self.offset len) (.Generic .OutOfBounds)
  l4_err_if (stop > U.BUF_SIZE) .OutOfBounds
  let slice ← from_raw_parts IntTy.u8.ty self.offset len
  let bytes := slice.flatMap Ty.Value.bytes
  match from_utf8 (bytes.take (text_len bytes len)) with
  | .error e => Exec.throw (.InvalidEncoding (some e))
  | .ok str => do
    set_offset stop
    pure str

/-- Machine words written so far, rounded up, as a `u32`. -/
def Registers.words (self : Registers) : Nat :=
  (self.offset / 8 + (match self.offset % 8 with | 0 => 0 | _ => 1)) % 2 ^ 32

def Registers.reset : Exec Error Registers Unit := set_offset 0

def Registers.skip (T : Ty) : Exec Error Registers Unit := do
  let self ← Exec.get
  let start ← Exec.checked (align_offset T self.offset)
  let stop ← Exec.ok_or (checked_add start T.size) (.Generic .MsgTooLong)
  l4_err_if (stop > U.BUF_SIZE) .MsgTooLong
  set_offset stop

end l4.utcb
