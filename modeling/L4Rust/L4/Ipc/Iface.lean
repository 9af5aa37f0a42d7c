import L4Rust.L4.Ipc.Serialise
import L4Rust.L4.MsgTag

open l4.error l4.utcb

namespace l4.ipc

/-- A method of an interface with the types its signature names. -/
structure Method where
  opcode : Nat
  args : List ArgTy
  ret : ArgTy

/-- An expanded interface. Each opcode is an integer literal that the stub
writes without a type, so as an `i32`, and that the dispatcher matches as an
`OpType`; a literal out of range does not compile. -/
structure Interface where
  PROTOCOL_ID : BitVec 64
  CAP_DEMAND : Nat
  OpType : IntTy
  methods : List Method
  opcode_lt : ∀ m ∈ methods, m.opcode < IntTy.i32.bound ∧ m.opcode < OpType.bound

/-- The cast `as isize`. -/
def IntTy.as_isize (I : IntTy) (v : I.ty.Value) : BitVec 64 :=
  let raw := BitVec.ofNat (8 * I.ty.size) (LittleEndian.decode v.bytes)
  if I.signed then raw.signExtend 64 else raw.setWidth 64

variable (sys : Fpages)

/-- What a client stub leaves in the message registers, and the tag it sends:
the opcode, then the arguments in order. -/
def derive_ipc_calls (I : Interface) (opcode : Nat) (args : List Arg) : Exec Error UtcbMr MsgTag := do
  UtcbMr.onRegs (Registers.write l4_msg_regs_t IntTy.i32.ty (IntTy.i32.literal opcode))
  Cursor.runAll (args.map (Arg.write sys))
  let mr ← Exec.get
  pure (MsgTag.new I.PROTOCOL_ID (BitVec.ofNat 32 mr.words) (BitVec.ofNat 32 mr.items) 0)

/-- The arm of the dispatcher's `match` for an opcode. -/
def Interface.arm (I : Interface) (opcode : I.OpType.ty.Value) : Option Method :=
  I.methods.find? fun m => I.OpType.literal m.opcode = opcode

/-- The dispatcher up to the call of the server's method: the method it selects
and the arguments it decodes. -/
def op_decode (I : Interface) (tag : MsgTag) : Exec Error Reader (Method × List Arg) :=
  if tag.words + tag.items * WORDS_PER_ITEM > l4_sys.UTCB_GENERIC_DATA_SIZE then
    Exec.throw (.Generic .MsgTooLong)
  else if tag.label ≠ I.PROTOCOL_ID then
    Exec.throw (.Generic .InvalidProt)
  else do
    let opcode ← Reader.onRegs (Registers.read l4_msg_regs_t I.OpType.ty)
    match I.arm opcode with
    | none =>
      Exec.throw (.InvalidArg "unknown opcode received" (some (IntTy.as_isize I.OpType opcode)))
    | some m => do
      let args ← Cursor.collect (m.args.map (readArg sys))
      pure (m, args)

/-- The dispatcher: call the selected method and write what it returns. -/
def op_dispatch (I : Interface) (server : (m : Method) → List Arg → Except Error m.ret.Val)
    (tag : MsgTag) : Exec Error Reader MsgTag := do
  let (m, args) ← op_decode sys I tag
  match server m args with
  | .error e => Exec.throw e
  | .ok user_ret => do
    Reader.onMr UtcbMr.reset
    Reader.onMr (m.ret.write sys user_ret)
    let s ← Exec.get
    pure (MsgTag.new 0 (BitVec.ofNat 32 s.mr.words) (BitVec.ofNat 32 s.mr.items) 0)

end l4.ipc
