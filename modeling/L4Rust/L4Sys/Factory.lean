import L4Rust.L4Sys.IpcBasic
import L4Rust.Library.Records

namespace l4_sys.factory

/-- The constants of the C headers for factory messages. The type of an argument fits
the sixteen bits that a header has for it. -/
structure FactoryConsts where
  L4_PROTO_FACTORY : BitVec 64
  L4_RCV_ITEM_SINGLE_CAP : BitVec 64
  L4_VARG_TYPE_NIL : Nat
  L4_VARG_TYPE_UMWORD : Nat
  L4_VARG_TYPE_MWORD : Nat
  L4_VARG_TYPE_STRING : Nat
  L4_VARG_TYPE_FPAGE : Nat
  nil_lt : L4_VARG_TYPE_NIL < 2 ^ 16
  umword_lt : L4_VARG_TYPE_UMWORD < 2 ^ 16
  mword_lt : L4_VARG_TYPE_MWORD < 2 ^ 16
  string_lt : L4_VARG_TYPE_STRING < 2 ^ 16
  fpage_lt : L4_VARG_TYPE_FPAGE < 2 ^ 16

/-- The constants of the L4Re headers. -/
def FactoryConsts.l4re : FactoryConsts where
  L4_PROTO_FACTORY := -6
  L4_RCV_ITEM_SINGLE_CAP := 8 ||| 2
  L4_VARG_TYPE_NIL := 0
  L4_VARG_TYPE_UMWORD := 1
  L4_VARG_TYPE_MWORD := 0x81
  L4_VARG_TYPE_STRING := 2
  L4_VARG_TYPE_FPAGE := 3
  nil_lt := by decide
  umword_lt := by decide
  mword_lt := by decide
  string_lt := by decide
  fpage_lt := by decide

/-- A factory message that is being put together: its tag, the memory from the first
message register on, the buffer registers, and the byte ranges written so far. The
code does not record these. -/
structure FactoryMsg where
  tag : BitVec 64
  mem : Memory
  bdr : BitVec 64
  br : Nat → BitVec 64
  written : List (Nat × Nat)

namespace FactoryMsg

/-- Write through a raw pointer, which nothing bounds. -/
def put (self : FactoryMsg) (start : Nat) (bytes : List UInt8) : FactoryMsg :=
  { self with
    mem := self.mem.store start bytes
    written := self.written ++ [(start, start + bytes.length)] }

/-- The macro `mr!`; past the registers the index panics. -/
def set_mr (self : FactoryMsg) (i word : Nat) : Option FactoryMsg :=
  if i < UTCB_GENERIC_DATA_SIZE then some (self.put (8 * i) (LittleEndian.encode 8 word)) else none

/-- A pointer to a register; past the registers the index panics. -/
def mr_ptr (_self : FactoryMsg) (i : Nat) : Option Nat :=
  if i < UTCB_GENERIC_DATA_SIZE then some (8 * i) else none

def words (self : FactoryMsg) : Nat := (l4_msgtag_words self.tag).toNat

/-- Put another word count into the tag. -/
def set_words (self : FactoryMsg) (w : Nat) : FactoryMsg :=
  { self with tag := (self.tag &&& ~~~ 0x3f#64) ||| (BitVec.ofNat 64 w &&& 0x3f#64) }

end FactoryMsg

/-- What a C string points to: bytes that are not zero, and a zero byte. -/
structure CStr where
  bytes : List UInt8
  no_nul : ∀ b ∈ bytes, b ≠ 0

def CStr.mem (s : CStr) : List UInt8 := s.bytes ++ [0]

def strlen (s : CStr) : Nat := (s.mem.takeWhile (· ≠ 0)).length

theorem strlen_eq (s : CStr) : strlen s = s.bytes.length := by
  have htake : s.mem.takeWhile (· ≠ 0) = s.bytes := by
    rw [CStr.mem, List.takeWhile_append_of_pos (by simpa using s.no_nul)]
    simp
  rw [strlen, htake]

variable (sys : FactoryConsts)

def l4_factory_create_start_u (protocol : BitVec 32) (target_cap : BitVec 64) (u : FactoryMsg) :
    Option FactoryMsg := do
  let u ← u.set_mr 0 (protocol.signExtend 64).toNat
  pure { u with
    bdr := 0
    br := fun i => if i = 0 then target_cap ||| sys.L4_RCV_ITEM_SINGLE_CAP else u.br i
    tag := l4_msgtag sys.L4_PROTO_FACTORY 1 0 0 }

/-- A header and one word behind it. -/
def l4_factory_create_add_word_u (type : Nat) (d : BitVec 64) (u : FactoryMsg) :
    Option (Bool × FactoryMsg) := do
  let w := u.words
  if w + 2 > UTCB_GENERIC_DATA_SIZE then pure (false, u)
  else do
    let u ← u.set_mr w (type ||| 8 <<< 16)
    let u ← u.set_mr (w + 1) d.toNat
    pure (true, u.set_words (w + 2))

def l4_factory_create_add_int_u (d : BitVec 64) : FactoryMsg → Option (Bool × FactoryMsg) :=
  l4_factory_create_add_word_u sys.L4_VARG_TYPE_MWORD d

def l4_factory_create_add_uint_u (d : BitVec 64) : FactoryMsg → Option (Bool × FactoryMsg) :=
  l4_factory_create_add_word_u sys.L4_VARG_TYPE_UMWORD d

def l4_factory_create_add_fpage_u (d : BitVec 64) : FactoryMsg → Option (Bool × FactoryMsg) :=
  l4_factory_create_add_word_u sys.L4_VARG_TYPE_FPAGE d

def l4_factory_create_add_nil_u (u : FactoryMsg) : Option (Bool × FactoryMsg) := do
  let w := u.words
  if w + 1 > UTCB_GENERIC_DATA_SIZE then pure (false, u)
  else do
    let u ← u.set_mr w sys.L4_VARG_TYPE_NIL
    pure (true, u.set_words (w + 1))

/-- A header and a string of the given length behind it, which is written through a
pointer to the next register. -/
def l4_factory_create_add_bytes_u (type len : Nat) (write : FactoryMsg → Nat → FactoryMsg)
    (u : FactoryMsg) : Option (Bool × FactoryMsg) := do
  let w := u.words
  if w + 1 + (len + 8 - 1) / 8 > UTCB_GENERIC_DATA_SIZE then pure (false, u)
  else do
    let u ← u.set_mr w (type ||| len <<< 16)
    let c ← u.mr_ptr (w + 1)
    pure (true, (write u c).set_words (w + 1 + (len + 8 - 1) / 8))

/-- The terminator is copied with the string. -/
def l4_factory_create_add_cstr_u (s : CStr) : FactoryMsg → Option (Bool × FactoryMsg) :=
  l4_factory_create_add_bytes_u sys.L4_VARG_TYPE_STRING (strlen s) fun u c =>
    u.put c (s.mem.take (strlen s + 1))

/-- The terminator is written behind the string, which is given by its bytes. -/
def l4_factory_create_add_str_u (s : List UInt8) : FactoryMsg → Option (Bool × FactoryMsg) :=
  l4_factory_create_add_bytes_u sys.L4_VARG_TYPE_STRING s.length fun u c =>
    let u := u.put c s
    u.put (c + s.length) [0]

/-- An argument of a factory message. -/
inductive FactoryArg where
  | int (d : BitVec 64)
  | uint (d : BitVec 64)
  | cstr (s : CStr)
  | str (s : List UInt8)
  | fpage (d : BitVec 64)
  | nil

def FactoryArg.add : FactoryArg → FactoryMsg → Option (Bool × FactoryMsg)
  | .int d => l4_factory_create_add_int_u sys d
  | .uint d => l4_factory_create_add_uint_u sys d
  | .cstr s => l4_factory_create_add_cstr_u sys s
  | .str s => l4_factory_create_add_str_u sys s
  | .fpage d => l4_factory_create_add_fpage_u sys d
  | .nil => l4_factory_create_add_nil_u sys

/-- The type of an argument and the bytes of its value. -/
def FactoryArg.record : FactoryArg → Record
  | .int d => ⟨sys.L4_VARG_TYPE_MWORD, LittleEndian.encode 8 d.toNat⟩
  | .uint d => ⟨sys.L4_VARG_TYPE_UMWORD, LittleEndian.encode 8 d.toNat⟩
  | .cstr s => ⟨sys.L4_VARG_TYPE_STRING, s.bytes⟩
  | .str s => ⟨sys.L4_VARG_TYPE_STRING, s⟩
  | .fpage d => ⟨sys.L4_VARG_TYPE_FPAGE, LittleEndian.encode 8 d.toNat⟩
  | .nil => ⟨sys.L4_VARG_TYPE_NIL, []⟩

/-- One call after the other, with what each of them returns. -/
def addAll : List FactoryArg → FactoryMsg → Option (List Bool × FactoryMsg)
  | [], u => pure ([], u)
  | arg :: args, u => do
    let (answer, u) ← arg.add sys u
    let (answers, u) ← addAll args u
    pure (answer :: answers, u)

end l4_sys.factory
