import L4Rust.L4.Registers

open l4.error

namespace l4.utcb

/-- What the C library provides for flex pages: the map action, the rights bits
and the flex page of a kernel object. -/
structure Fpages where
  L4_ITEM_MAP : BitVec 64
  L4_FPAGE_X : BitVec 8
  L4_FPAGE_W : BitVec 8
  L4_FPAGE_RO : BitVec 8
  l4_obj_fpage : BitVec 64 → BitVec 32 → BitVec 8 → BitVec 64

/-- The flex pages of the L4Re headers. -/
def Fpages.l4re : Fpages where
  L4_ITEM_MAP := 8
  L4_FPAGE_X := 1
  L4_FPAGE_W := 2
  L4_FPAGE_RO := 4
  l4_obj_fpage obj order rights :=
    (obj &&& ~~~0xfff#64) ||| (order.setWidth 64 <<< 6) ||| 0x30#64 ||| rights.setWidth 64

/-- `FpageRights::RWX`, which is also every flag there is. -/
def Fpages.RWX (sys : Fpages) : BitVec 8 := sys.L4_FPAGE_RO ||| sys.L4_FPAGE_W ||| sys.L4_FPAGE_X

/-- `FpageRights::from_bits_truncate`. -/
def Fpages.from_bits_truncate (sys : Fpages) (bits : BitVec 8) : BitVec 8 := bits &&& sys.RWX

/-- A flex page to send: two words, the action on it and the object. -/
structure SndFlexPage where
  description : BitVec 64
  fpage : BitVec 64
  deriving DecidableEq

def SndFlexPage.new (sys : Fpages) (fpage snd_base : BitVec 64) (mt : Option (BitVec 8)) : SndFlexPage where
  description := sys.L4_ITEM_MAP ||| (snd_base &&& (BitVec.allOnes 64 <<< 10)) |||
    ((mt.map (BitVec.setWidth 64)).getD 0)
  fpage := fpage

def SndFlexPage.from_cap (sys : Fpages) (c : BitVec 64) (rights : BitVec 8) (mt : Option (BitVec 8)) :
    SndFlexPage :=
  SndFlexPage.new sys (sys.l4_obj_fpage c 0 rights) 0 mt

/-- The layout of a flex page in memory. -/
def SndFlexPage.serialisable : Serialisable where
  size := 16
  align_log := 3
  size_lt := by decide
  align_log_lt := by decide
  align_dvd_size := by decide
  size_pos := by decide
  valid := fun _ => true

/-- A word in memory. -/
def wordBytes (w : BitVec 64) : List UInt8 := LittleEndian.encode 8 w.toNat

def SndFlexPage.value (fp : SndFlexPage) : SndFlexPage.serialisable.toTy.Value where
  bytes := wordBytes fp.description ++ wordBytes fp.fpage
  length_bytes := by
    rw [List.length_append, wordBytes, wordBytes, LittleEndian.length_encode,
      LittleEndian.length_encode]
    rfl

/-- The message registers with the number of typed items written to them.
`placed` records the byte offset of each item; the code never looks at it. -/
structure UtcbMr where
  regs : Registers
  items : Nat
  placed : List Nat

instance : HasCursor UtcbMr := ⟨fun mr => mr.regs.mem, fun mr => mr.regs.offset⟩

@[simp] theorem mem_utcbMr (mr : UtcbMr) : HasCursor.mem mr = mr.regs.mem := rfl

@[simp] theorem offset_utcbMr (mr : UtcbMr) : HasCursor.offset mr = mr.regs.offset := rfl

def UtcbMr.from_mr (mem : Memory) : UtcbMr := ⟨Registers.from_raw mem, 0, []⟩

/-- `Deref` to the registers. -/
def UtcbMr.onRegs {α : Type} (x : Exec Error Registers α) : Exec Error UtcbMr α :=
  Exec.zoom UtcbMr.regs (fun r mr => { mr with regs := r }) x

def UtcbMr.write_item (T : Ty) (val : T.Value) : Exec Error UtcbMr Unit := do
  UtcbMr.onRegs (Registers.write l4_msg_regs_t T val)
  Exec.modify fun mr => { mr with
    items := mr.items + 1
    placed := mr.placed ++ [mr.regs.offset - T.size] }

/-- The number of untyped words. -/
def UtcbMr.words (mr : UtcbMr) : Nat := mr.regs.words - mr.items * 2

def UtcbMr.reset : Exec Error UtcbMr Unit := do
  Exec.modify fun mr => { mr with items := 0, placed := [] }
  UtcbMr.onRegs Registers.reset

/-- Words of the message registers that one typed item takes. -/
def WORDS_PER_ITEM : Nat := 2

end l4.utcb
