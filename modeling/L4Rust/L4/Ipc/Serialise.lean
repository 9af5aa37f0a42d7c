import L4Rust.L4.Utcb

open l4.error l4.utcb

namespace l4.ipc

/-- The types `impl_serialisable!` lists. -/
inductive Primitive where
  | int (I : IntTy)
  | f32 | f64 | bool | char
  deriving DecidableEq, Repr

def Primitive.sizeLog : Primitive → Nat
  | .int I => I.sizeLog
  | .f32 | .char => 2
  | .f64 => 3
  | .bool => 0

theorem Primitive.sizeLog_le (P : Primitive) : P.sizeLog ≤ 4 := by
  cases P with
  | int I => exact I.sizeLog_le
  | f32 | f64 | bool | char => decide

/-- A `bool` is zero or one and a `char` is a Unicode scalar value; every other
byte pattern is a value. -/
def Primitive.valid : Primitive → List UInt8 → Bool
  | .bool, bytes => bytes = [0] || bytes = [1]
  | .char, bytes =>
    let n := LittleEndian.decode bytes
    n < 0xd800 || (0xe000 ≤ n && n < 0x110000)
  | .int _, _ | .f32, _ | .f64, _ => true

def Primitive.serialisable (P : Primitive) : Serialisable where
  toTy := Ty.natural P.sizeLog P.sizeLog_le
  size_pos := Nat.two_pow_pos _
  valid := P.valid

def boolValue (b : Bool) : Primitive.bool.serialisable.toTy.Value := ⟨[if b then 1 else 0], rfl⟩

/-- The receive slots behind the pointer a buffer manager hands out. -/
structure BufferAccess where
  slots : Nat → BitVec 64
  ptr : Option Nat

/-- The capability in the current slot. The pointer stays where it is, and
without one the program panics. -/
def BufferAccess.rcv_cap_unchecked : Exec Error BufferAccess (BitVec 64) := do
  let self ← Exec.get
  let ptr ← Exec.checked self.ptr
  Exec.modify fun bufs => { bufs with ptr := some ptr }
  pure (self.slots ptr)

/-- What reading an argument works on. -/
structure Reader where
  mr : UtcbMr
  bufs : BufferAccess

instance : HasCursor Reader := ⟨fun s => s.mr.regs.mem, fun s => s.mr.regs.offset⟩

@[simp] theorem mem_reader (s : Reader) : HasCursor.mem s = s.mr.regs.mem := rfl

@[simp] theorem offset_reader (s : Reader) : HasCursor.offset s = s.mr.regs.offset := rfl

def Reader.onMr {α : Type} (x : Exec Error UtcbMr α) : Exec Error Reader α :=
  Exec.zoom Reader.mr (fun mr s => { s with mr := mr }) x

def Reader.onRegs {α : Type} (x : Exec Error Registers α) : Exec Error Reader α :=
  Reader.onMr (UtcbMr.onRegs x)

def Reader.onBufs {α : Type} (x : Exec Error BufferAccess α) : Exec Error Reader α :=
  Exec.zoom Reader.bufs (fun bufs s => { s with bufs := bufs }) x

/-- The argument types the framework implements `Serialiser` for. -/
inductive ArgTy where
  | scalar (T : Serialisable)
  | unit
  | flexPage
  | option (T : Serialisable)
  | cap
  | string
  | vec (T : Serialisable)

/-- The values of an argument type. A capability is its index. -/
def ArgTy.Val : ArgTy → Type
  | .scalar T => T.toTy.Value
  | .unit => Unit
  | .flexPage => SndFlexPage
  | .option T => Option T.toTy.Value
  | .cap => BitVec 64
  | .string => String
  | .vec T => List T.toTy.Value

variable (sys : Fpages)

/-- `Serialiser::write`. -/
def ArgTy.write : (t : ArgTy) → t.Val → Exec Error UtcbMr Unit
  | .scalar T, val => UtcbMr.onRegs (Registers.write l4_msg_regs_t T.toTy val)
  | .unit, _ => pure ()
  | .flexPage, fp => UtcbMr.write_item SndFlexPage.serialisable.toTy (SndFlexPage.value fp)
  | .option T, none => UtcbMr.onRegs do
    Registers.skip l4_msg_regs_t T.toTy
    Registers.write l4_msg_regs_t Primitive.bool.serialisable.toTy (boolValue false)
  | .option T, some val => UtcbMr.onRegs do
    Registers.write l4_msg_regs_t T.toTy val
    Registers.write l4_msg_regs_t Primitive.bool.serialisable.toTy (boolValue true)
  | .cap, c => UtcbMr.write_item SndFlexPage.serialisable.toTy
    (SndFlexPage.value (SndFlexPage.from_cap sys c sys.RWX none))
  | .string, s => UtcbMr.onRegs (Registers.write_str l4_msg_regs_t s)
  | .vec T, vals => UtcbMr.onRegs (Registers.write_slice l4_msg_regs_t .u16 T.toTy vals)

/-- The slot for a received flex page; unlike a plain capability it moves the
pointer on. -/
def BufferAccess.next_slot : Exec Error BufferAccess (BitVec 64) := do
  let bufs ← Exec.get
  let ptr ← Exec.ok_or bufs.ptr (.InvalidState "missing capability for flex page")
  Exec.modify fun bufs => { bufs with ptr := some (ptr + 1) }
  pure (bufs.slots ptr)

/-- A word read from the registers. -/
def word (v : IntTy.u64.ty.Value) : BitVec 64 := BitVec.ofNat 64 (LittleEndian.decode v.bytes)

/-- `Serialiser::read`. -/
def ArgTy.read : (t : ArgTy) → Exec Error Reader t.Val
  | .scalar T => Reader.onRegs (Registers.read l4_msg_regs_t T.toTy)
  | .unit => pure ()
  | .flexPage => do
    let description ← Reader.onRegs (Registers.read l4_msg_regs_t IntTy.u64.ty)
    let fp_raw ← Reader.onRegs (Registers.read l4_msg_regs_t IntTy.u64.ty)
    let rights := sys.from_bits_truncate ((word fp_raw).setWidth 8)
    let cap_idx ← Reader.onBufs BufferAccess.next_slot
    pure ⟨word description, sys.l4_obj_fpage cap_idx 0 rights⟩
  | .option T => Reader.onRegs do
    let val ← Registers.read l4_msg_regs_t T.toTy
    let _ ← Registers.read l4_msg_regs_t Primitive.bool.serialisable.toTy
    pure (some val)
  | .cap => Reader.onBufs BufferAccess.rcv_cap_unchecked
  | .string => Reader.onRegs (Registers.read_str l4_msg_regs_t)
  | .vec T => do
    let sl ← Reader.onRegs (Registers.read_slice l4_msg_regs_t .u16 T.toTy)
    let _ ← Exec.ok_or (IntTy.u16.from_usize sl.length) (.Generic .OutOfBounds)
    pure sl

/-- An argument with its type. -/
structure Arg where
  ty : ArgTy
  val : ty.Val

def Arg.write (a : Arg) : Exec Error UtcbMr Unit := a.ty.write sys a.val

/-- Read an argument of the given type. -/
def readArg (t : ArgTy) : Exec Error Reader Arg := do
  let val ← t.read sys
  pure ⟨t, val⟩

end l4.ipc
