import L4Rust.L4.Ipc.Messages
import L4Rust.L4Derive.Iface

open l4.error l4.utcb Cursor

namespace l4.ipc

variable {sys : Fpages} {I : Interface} {m : Method}

/-- Byte patterns that are values of the argument's type. -/
def Arg.Valid : Arg → Prop
  | ⟨.scalar T, v⟩ => T.valid (Ty.Value.bytes v)
  | ⟨.option T, v⟩ => Option.all (fun x : T.toTy.Value => T.valid x.bytes) v
  | ⟨.vec T, vs⟩ => List.all vs fun x : T.toTy.Value => T.valid x.bytes
  | ⟨.unit, _⟩ | ⟨.flexPage, _⟩ | ⟨.cap, _⟩ | ⟨.string, _⟩ => True

/-- Client stub and dispatcher agree on a method: whatever the arguments and
whatever the registers held before, the dispatcher selects the method, decodes
the arguments and stops where the stub stopped. -/
def RequestAgrees (sys : Fpages) (I : Interface) (m : Method) : Prop :=
  ∀ mem args tag mr, args.map Arg.ty = m.args → (∀ a ∈ args, a.Valid) →
    derive_ipc_calls sys I m.opcode args (UtcbMr.from_mr mem) = .ok tag mr →
    ∀ received bufs, Delivered tag mr.regs.mem received →
      ∃ s, op_decode sys I tag ⟨UtcbMr.from_mr received, bufs⟩ = .ok (m, args) s ∧
        s.mr.regs.offset = mr.regs.offset

/-- A primitive or a vector of primitives. -/
def ArgTy.Plain (t : ArgTy) : Prop :=
  ∃ P : Primitive, t = .scalar P.serialisable ∨ t = .vec P.serialisable

/-- Dispatcher and stub stand at the same place after the opcode: either the
opcode type is as wide as the `i32` that the stub writes, or it is narrower and
the first argument's alignment makes up for the difference. -/
def SameCursor (O : IntTy) (args : List ArgTy) : Prop :=
  O.ty.size = 4 ∨ O.ty.size < 4 ∧ ∃ t ∈ args.head?, 4 ≤ t.leadAlign

theorem IntTy.bound_le (O : IntTy) : O.bound ≤ 256 ^ O.ty.size := by
  cases O <;> decide

theorem decode_literal {O : IntTy} {n : Nat} (h : n < O.bound) :
    LittleEndian.decode (O.literal n).bytes = n :=
  LittleEndian.decode_encode_of_lt (h.trans_le (IntTy.bound_le O))

/-- Distinct opcodes select their own method. -/
theorem Interface.arm_literal (I : Interface) (hnodup : (I.methods.map Method.opcode).Nodup)
    (hm : m ∈ I.methods) : I.arm (I.OpType.literal m.opcode) = some m := by
  unfold Interface.arm
  cases hfind : I.methods.find? _ with
  | none =>
    have hnone := List.find?_eq_none.mp hfind m hm
    simp at hnone
  | some m' =>
    have hmem := List.mem_of_find?_eq_some hfind
    have hlit : I.OpType.literal m'.opcode = I.OpType.literal m.opcode := by
      simpa using List.find?_some hfind
    have hcode : m'.opcode = m.opcode := by
      have hdecode := congrArg (fun v => LittleEndian.decode (Ty.Value.bytes v)) hlit
      simpa only [decode_literal (I.opcode_lt m' hmem).2, decode_literal (I.opcode_lt m hm).2]
        using hdecode
    rw [List.inj_on_of_nodup_map hnodup hmem hm hcode]

/-- The low bytes of the opcode arrive as its literal in a type no wider. -/
theorem valueAt_opcode {O : IntTy} {received : Memory} {opcode : Nat} (hsize : O.ty.size ≤ 4)
    (h : received.load 0 4 = LittleEndian.encode 4 opcode) :
    O.ty.valueAt received 0 = O.literal opcode := by
  apply Ty.Value.ext
  have hload := Memory.load_take received 0 hsize
  have hencode := LittleEndian.take_encode opcode hsize
  rw [h, hencode] at hload
  exact hload.symm

theorem runAll_appends (args : List Arg) : Appends (runAll (args.map (Arg.write sys))) :=
  .runAll fun a _ => a.write_appends

/-- The opcode stays where the stub put it. -/
theorem load_opcode {mem : Memory} {opcode : Nat} {args : List Arg} {mr : UtcbMr}
    (h : runAll (args.map (Arg.write sys)) (opcodeWritten mem opcode) = .ok () mr) :
    mr.regs.mem.load 0 4 = LittleEndian.encode 4 opcode := by
  obtain ⟨_, hkeep⟩ := runAll_appends args _ _ h
  have hsame : mr.regs.mem.load 0 4 = (opcodeWritten mem opcode).regs.mem.load 0 4 :=
    Memory.load_congr hkeep le_rfl le_rfl
  rw [hsame]
  have hback := Memory.load_store mem 0 (LittleEndian.encode 4 opcode)
  rw [LittleEndian.length_encode] at hback
  exact hback

/-- Arguments that survive the crossing are read back by a reader at the same
cursor. -/
theorem args_readBack {args : List Arg} (hitem : ∀ a ∈ args, a.ty.isItem = false)
    (hfaithful : ∀ a ∈ args, a.Faithful) {opcode : Nat} {mem : Memory} {mr : UtcbMr}
    (h : runAll (args.map (Arg.write sys)) (opcodeWritten mem opcode) = .ok () mr)
    {O : IntTy} (hcursor : SameCursor O (args.map Arg.ty)) {received : Memory}
    (bufs : BufferAccess) (hmem : Memory.AgreeOn 4 mr.regs.offset received mr.regs.mem) :
    ∃ s, collect ((args.map Arg.ty).map (readArg sys)) (opcodeRead received O.ty.size bufs) =
      .ok args s ∧ s.mr.regs.offset = mr.regs.offset ∧ s.mr.regs.mem = received := by
  rw [List.map_map]
  have hback : ∀ as : List Arg, (∀ a ∈ as, a ∈ args) →
      ReadsBack (runAll (as.map (Arg.write sys))) (collect (as.map (readArg sys ∘ Arg.ty))) as := by
    intro as hsub
    have hall := ReadsBack.runAll (v := fun a : Arg => a) (fun a (_ : a ∈ as) => a.write_appends)
      (fun a ha => (a.write_readsBack sys (hitem a (hsub a ha))
        (hfaithful a (hsub a ha))).readsBack)
    rw [List.map_id'] at hall
    exact hall
  rcases hcursor with hfour | ⟨hnarrow, t, hhead, hlead⟩
  · exact hback args (fun _ ha => ha) _ mr h _ hfour hmem
  · cases args with
    | nil => cases hhead
    | cons a args =>
      obtain rfl : a.ty = t := by simpa using hhead
      have hpos : 0 < O.ty.size := Nat.two_pow_pos _
      have hround : roundUp a.ty.leadAlign O.ty.size = roundUp a.ty.leadAlign 4 := by
        rw [Alignment.roundUp_of_le hpos (by omega), Alignment.roundUp_of_le (by decide) hlead]
      exact ReadsBackFrom.cons a.write_appends (runAll_appends args)
        (a.write_readsBack sys (hitem a (by simp)) (hfaithful a (by simp)))
        (hback args fun b hb => by simp [hb]) _ mr h _ hround hmem

theorem ArgTy.Plain.isItem {t : ArgTy} (h : t.Plain) : t.isItem = false := by
  obtain ⟨P, rfl | rfl⟩ := h <;> rfl

theorem Arg.faithful_of_plain (a : Arg) (h : a.ty.Plain) : a.Faithful := by
  obtain ⟨t, v⟩ := a
  obtain ⟨P, hP⟩ := h
  simp only at hP
  rcases hP with rfl | rfl
  · trivial
  · trivial

theorem SameCursor.size_le {O : IntTy} {args : List ArgTy} (h : SameCursor O args) :
    O.ty.size ≤ 4 := by
  rcases h with h | ⟨h, _⟩
  · exact h.le
  · exact h.le

/-- The dispatcher recognises a request whose opcode arrives, and goes on to its
arguments. -/
theorem op_decode_of_request {args : List Arg} {tag : MsgTag} {mem received : Memory} {mr : UtcbMr}
    (hnodup : (I.methods.map Method.opcode).Nodup) (hm : m ∈ I.methods)
    (hrequest : derive_ipc_calls sys I m.opcode args (UtcbMr.from_mr mem) = .ok tag mr)
    (hlabel : LabelFits I.PROTOCOL_ID) (hsize : I.OpType.ty.size ≤ 4)
    (hdelivered : Delivered tag mr.regs.mem received) (hreach : 4 ≤ 8 * tag.words)
    (bufs : BufferAccess) :
    op_decode sys I tag ⟨UtcbMr.from_mr received, bufs⟩ =
      (do
        let args ← collect (m.args.map (readArg sys))
        pure (m, args)) (opcodeRead received I.OpType.ty.size bufs) := by
  obtain ⟨hrun, hsound, htag⟩ := derive_ipc_calls_success hrequest
  obtain ⟨hwords, hitems⟩ := tag_counts hsound htag
  obtain ⟨hsum, hle⟩ := hsound.words_add_items
  have hopcode : received.load 0 4 = LittleEndian.encode 4 m.opcode := by
    rw [Memory.load_congr hdelivered le_rfl (by omega)]
    exact load_opcode hrun
  have harm : I.arm (I.OpType.ty.valueAt received 0) = some m := by
    rw [valueAt_opcode hsize hopcode, I.arm_literal hnodup hm]
  have hlabelTag : tag.label = I.PROTOCOL_ID := by
    rw [htag]
    exact (MsgTag.label_new_eq_iff _ _ _ _).mpr hlabel
  have hfits : tag.words + tag.items * WORDS_PER_ITEM ≤ l4_sys.UTCB_GENERIC_DATA_SIZE := by
    unfold WORDS_PER_ITEM l4_sys.UTCB_GENERIC_DATA_SIZE
    omega
  exact op_decode_of_arm sys bufs hfits hlabelTag (by omega) harm

/-- Opcodes narrower than the stub's are a prefix of what it wrote, and nothing
but the cursor can differ afterwards. -/
theorem requestAgrees_of_sameCursor (hnodup : (I.methods.map Method.opcode).Nodup)
    (hm : m ∈ I.methods) (hplain : ∀ t ∈ m.args, t.Plain) (hlabel : LabelFits I.PROTOCOL_ID)
    (hcursor : SameCursor I.OpType m.args) : RequestAgrees sys I m := by
  intro mem args tag mr htypes _ hrequest received bufs hdelivered
  obtain ⟨hrun, hsound, htag⟩ := derive_ipc_calls_success hrequest
  obtain ⟨hwords, hitems⟩ := tag_counts hsound htag
  obtain ⟨hsum, hle⟩ := hsound.words_add_items
  have hplainArgs : ∀ a ∈ args, a.ty.Plain := by
    intro a ha
    exact hplain a.ty (htypes ▸ List.mem_map_of_mem ha)
  have hnoItems : mr.items = 0 := by
    have hcount := runAll_items args hrun
    rw [List.countP_eq_zero.mpr] at hcount
    · exact hcount
    · intro a ha
      rw [(hplainArgs a ha).isItem]
      exact Bool.false_ne_true
  obtain ⟨hfour, _⟩ := runAll_appends args _ _ hrun
  have hfour : 4 ≤ mr.regs.offset := hfour
  have hreach : mr.regs.offset ≤ 8 * tag.words := by omega
  have hdecode := op_decode_of_request hnodup hm hrequest hlabel hcursor.size_le hdelivered
    (by omega) bufs
  rw [← htypes] at hcursor
  obtain ⟨s, hcollect, hoff, _⟩ := args_readBack (fun a ha => (hplainArgs a ha).isItem)
    (fun a ha => a.faithful_of_plain (hplainArgs a ha)) hrun hcursor bufs
    (hdelivered.mono (Nat.zero_le _) hreach)
  rw [htypes] at hcollect
  exact ⟨s, by rw [hdecode, Exec.bind_of_ok hcollect, Exec.pure_apply], hoff⟩

/-- The number one in the type's size. -/
def one (T : Ty) : T.Value := ⟨LittleEndian.encode T.size 1, LittleEndian.length_encode _ _⟩

/-- An argument that differs from what zero bytes decode to: the number one, or
a vector with one element. -/
def leadSample : ArgTy → Arg
  | .scalar T => ⟨.scalar T, one T.toTy⟩
  | .vec T => ⟨.vec T, [one T.toTy]⟩
  | .option T => ⟨.option T, some (one T.toTy)⟩
  | .unit => ⟨.unit, ()⟩
  | .flexPage => ⟨.flexPage, (⟨0, 0⟩ : SndFlexPage)⟩
  | .cap => ⟨.cap, (0 : BitVec 64)⟩
  | .string => ⟨.string, "1"⟩

/-- As `leadSample`, with an empty vector. -/
def restSample : ArgTy → Arg
  | .vec T => ⟨.vec T, ([] : List T.toTy.Value)⟩
  | t => leadSample t

def sampleArgs : List ArgTy → List Arg
  | [] => []
  | t :: ts => leadSample t :: ts.map restSample

/-- The message registers have room for a message of the method in which the
first argument, if it is a vector, has an element. -/
def Roomy (sys : Fpages) (I : Interface) (m : Method) : Prop :=
  ∀ mem, ∃ tag mr, derive_ipc_calls sys I m.opcode (sampleArgs m.args) (UtcbMr.from_mr mem) = .ok tag mr

theorem leadSample_ty (t : ArgTy) : (leadSample t).ty = t := by cases t <;> rfl

theorem restSample_ty (t : ArgTy) : (restSample t).ty = t := by cases t <;> rfl

theorem sampleArgs_ty (ts : List ArgTy) : (sampleArgs ts).map Arg.ty = ts := by
  cases ts with
  | nil => rfl
  | cons t ts =>
    have hid : Arg.ty ∘ restSample = id := funext restSample_ty
    rw [sampleArgs, List.map_cons, leadSample_ty, List.map_map, hid, List.map_id]

theorem Primitive.valid_one (P : Primitive) : P.valid (one P.serialisable.toTy).bytes = true := by
  cases P with
  | int I => rfl
  | f32 | f64 | bool | char => decide

theorem sampleArgs_valid {ts : List ArgTy} (hplain : ∀ t ∈ ts, t.Plain) :
    ∀ a ∈ sampleArgs ts, a.Valid := by
  cases ts with
  | nil => simp [sampleArgs]
  | cons t ts =>
    intro a ha
    rcases List.mem_cons.mp ha with rfl | hrest
    · obtain ⟨P, rfl | rfl⟩ := hplain t (by simp)
      · exact P.valid_one
      · have hone : List.all [one P.serialisable.toTy] (fun x => P.serialisable.valid x.bytes) = true := by
          rw [List.all_cons, List.all_nil, Bool.and_true]
          exact P.valid_one
        exact hone
    · obtain ⟨t', ht', rfl⟩ := List.mem_map.mp hrest
      obtain ⟨P, rfl | rfl⟩ := hplain t' (by simp [ht'])
      · exact P.valid_one
      · exact (rfl : List.all [] _ = true)

/-- A value whose first byte is not zero, or the padding before it, keeps the
byte at the old offset from being zero. -/
theorem write_marks {U : UtcbRegSize} {T : Ty} {val : T.Value} {r t : Registers} {u : Unit}
    {b : UInt8} {rest : List UInt8} (hval : val.bytes = b :: rest) (hb : b ≠ 0)
    (hmark : r.mem r.offset ≠ 0) (h : Registers.write U T val r = .ok u t) :
    t.mem r.offset ≠ 0 ∧ r.offset < t.offset := by
  obtain ⟨start, hstart, _, rfl⟩ := Registers.write_success h
  have hle := le_of_align_offset hstart
  have hpos : 0 < T.size := by
    rw [← val.length_bytes, hval]
    exact Nat.succ_pos _
  refine ⟨?_, show r.offset < start + T.size by omega⟩
  rcases Nat.eq_or_lt_of_le hle with heq | hlt
  · have hfirst : (r.mem.store start val.bytes) r.offset = b := by
      rw [hval, heq]
      simp [Memory.store]
    exact hfirst.trans_ne hb
  · have hkeep : (r.mem.store start val.bytes) r.offset = r.mem r.offset :=
      Memory.store_of_outside _ (Or.inl hlt)
    exact hkeep.trans_ne hmark

theorem one_bytes (T : Serialisable) : ∃ rest, (one T.toTy).bytes = 1 :: rest := by
  obtain ⟨k, hk⟩ := Nat.exists_eq_succ_of_ne_zero T.size_pos.ne'
  have hbytes : (one T.toTy).bytes = LittleEndian.encode (k + 1) 1 :=
    congrArg (fun size => LittleEndian.encode size 1) hk
  exact ⟨_, hbytes⟩

theorem leadSample_marks {t : ArgTy} (hplain : t.Plain) {mr mr' : UtcbMr}
    (hmark : mr.regs.mem mr.regs.offset ≠ 0) (h : (leadSample t).write sys mr = .ok () mr') :
    mr'.regs.mem mr.regs.offset ≠ 0 ∧ mr.regs.offset < mr'.regs.offset := by
  obtain ⟨P, rfl | rfl⟩ := hplain
  · obtain ⟨r, hr, rfl⟩ := utcbMr_onRegs_eq_ok_iff.mp h
    obtain ⟨rest, hone⟩ := one_bytes P.serialisable
    exact write_marks hone (by decide) hmark hr
  · obtain ⟨r, hr, rfl⟩ := utcbMr_onRegs_eq_ok_iff.mp h
    obtain ⟨len, mid, start, hlen, hmid, hstart, _, rfl⟩ := Registers.write_slice_success hr
    have hprefix : len.bytes = [1, 0] := by
      have hlit : some (IntTy.u16.literal 1) = some len := hlen
      cases hlit
      decide
    obtain ⟨hmidMark, hmidOff⟩ := write_marks hprefix (by decide) hmark hmid
    have hle := le_of_align_offset hstart
    have hkeep : (mid.mem.store start ([one P.serialisable.toTy].flatMap Ty.Value.bytes)) mr.regs.offset =
        mid.mem mr.regs.offset := Memory.store_of_outside _ (Or.inl (by omega))
    refine ⟨?_, show mr.regs.offset < start + _ by omega⟩
    rw [← hkeep] at hmidMark
    exact hmidMark

/-- Behind the opcode of a sample message stands a byte that is not zero. -/
theorem sample_byte_four {ts : List ArgTy} (hplain : ∀ t ∈ ts, t.Plain) {opcode : Nat} {mr : UtcbMr}
    (h : runAll ((sampleArgs ts).map (Arg.write sys)) (opcodeWritten (fun _ => 0xff) opcode) =
      .ok () mr) : mr.regs.mem 4 ≠ 0 := by
  have hmark : (opcodeWritten (fun _ => 0xff) opcode).regs.mem 4 ≠ 0 := by
    have hend : 0 + (LittleEndian.encode 4 opcode).length ≤ 4 := by
      rw [LittleEndian.length_encode]
    have hkeep := Memory.store_of_outside (fun _ => (0xff : UInt8)) (Or.inr hend)
    exact Eq.trans_ne hkeep (by decide)
  cases ts with
  | nil =>
    cases h
    exact hmark
  | cons t ts =>
    obtain ⟨_, mid, hfirst, hrest⟩ := Exec.bind_eq_ok_iff.mp h
    obtain ⟨hmid, hlt⟩ := leadSample_marks (hplain t (by simp)) hmark hfirst
    obtain ⟨_, hkeep⟩ := runAll_appends (ts.map restSample) mid mr hrest
    rw [show mr.regs.mem 4 = mid.regs.mem 4 from hkeep 4 (Nat.zero_le _) hlt]
    exact hmid

/-- The upper bytes of a small opcode are zero. -/
theorem opcode_high_byte {received : Memory} {opcode i : Nat}
    (h : received.load 0 4 = LittleEndian.encode 4 opcode) (hi : i < 4) (hlt : opcode < 256 ^ i) :
    received i = 0 := by
  have hload : i < (received.load 0 4).length := by rw [Memory.length_load]; exact hi
  have hbyte := Memory.getElem_load received hload
  rw [Nat.zero_add] at hbyte
  rw [← hbyte]
  simp only [h]
  rw [LittleEndian.getElem_encode, Nat.div_eq_of_lt hlt]
  rfl

/-- An opcode type wider than the stub's opcode takes in the next byte. -/
theorem opcode_next_byte {received : Memory} {m' : Method} (hsize : 4 < I.OpType.ty.size)
    (harm : I.arm (I.OpType.ty.valueAt received 0) = some m') : received 4 = 0 := by
  have hmem := List.mem_of_find?_eq_some harm
  have hlit : I.OpType.literal m'.opcode = I.OpType.ty.valueAt received 0 := by
    simpa using List.find?_some harm
  have hbytes : LittleEndian.encode I.OpType.ty.size m'.opcode = received.load 0 I.OpType.ty.size :=
    congrArg Ty.Value.bytes hlit
  have hload : 4 < (received.load 0 I.OpType.ty.size).length := by
    rw [Memory.length_load]
    exact hsize
  have hbyte := Memory.getElem_load received hload
  rw [Nat.zero_add] at hbyte
  have hbound : m'.opcode < 256 ^ 4 := (I.opcode_lt m' hmem).1.trans (by decide)
  rw [← hbyte]
  simp only [← hbytes]
  rw [LittleEndian.getElem_encode, Nat.div_eq_of_lt hbound]
  rfl

theorem IntTy.size_of_lt {O : IntTy} (h : O.ty.size < 4) : O.ty.size = 1 ∨ O.ty.size = 2 := by
  cases O <;> revert h <;> decide

theorem Primitive.align_of_lt {P : Primitive} (h : P.serialisable.align < 4) :
    P.serialisable.align = 1 ∨ P.serialisable.align = 2 := by
  have hsizeLog : P.sizeLog < 2 := by
    by_contra hnot
    have hpow : 2 ^ 2 ≤ 2 ^ P.sizeLog := Nat.pow_le_pow_right (by decide) (by omega)
    have halign : P.serialisable.align = 2 ^ P.sizeLog := rfl
    omega
  have halign : P.serialisable.align = 2 ^ P.sizeLog := rfl
  rw [halign]
  rcases (by omega : P.sizeLog = 0 ∨ P.sizeLog = 1) with hlog | hlog
  · exact Or.inl (by rw [hlog, pow_zero])
  · exact Or.inr (by rw [hlog, pow_one])

section Narrow

variable {O : IntTy} {P : Primitive} {received : Memory} {bufs : BufferAccess} {s : Reader} {b : Arg}

/-- A dispatcher behind the stub reads its first argument out of the opcode's
upper bytes, which are zero. -/
theorem narrow_scalar_ne (hnarrow : O.ty.size < 4) (hlead : P.serialisable.align < 4)
    (hzero : ∀ i, O.ty.size ≤ i → i < 4 → received i = 0)
    (h : readArg sys (.scalar P.serialisable) (opcodeRead received O.ty.size bufs) = .ok b s) :
    b ≠ leadSample (.scalar P.serialisable) := by
  obtain ⟨v, _, hv, hb⟩ := Exec.bind_eq_ok_iff.mp h
  cases hb
  have hsize := IntTy.size_of_lt hnarrow
  obtain ⟨r, hr, _⟩ := reader_onRegs_eq_ok_iff.mp hv
  obtain ⟨start, hstart, _, rfl, _⟩ := Registers.read_success hr
  obtain ⟨_, rfl⟩ := align_offset_eq_some_iff.mp hstart
  have hwhere : O.ty.size ≤ roundUp P.serialisable.align O.ty.size ∧
      roundUp P.serialisable.align O.ty.size < 4 := by
    rcases Primitive.align_of_lt hlead with ha | ha <;> rcases hsize with hs | hs <;>
      rw [ha, hs] <;> decide
  have hfirst := hzero _ hwhere.1 hwhere.2
  intro heq
  have hval : P.serialisable.valueAt received (roundUp P.serialisable.align O.ty.size) =
      one P.serialisable.toTy := Arg.val_eq (t := .scalar P.serialisable) heq
  obtain ⟨rest, hone⟩ := one_bytes P.serialisable
  have hbytes : received.load (roundUp P.serialisable.align O.ty.size) P.serialisable.size =
      1 :: rest := by rw [← hone, ← hval]; rfl
  have hload : 0 < (received.load (roundUp P.serialisable.align O.ty.size)
      P.serialisable.size).length := by
    rw [Memory.length_load]
    exact P.serialisable.size_pos
  have hbyte := Memory.getElem_load received hload
  simp only [hbytes, List.getElem_cons_zero, Nat.add_zero, hfirst] at hbyte
  exact absurd hbyte (by decide)

theorem narrow_vec_ne (hnarrow : O.ty.size < 4)
    (hzero : ∀ i, O.ty.size ≤ i → i < 4 → received i = 0)
    (h : readArg sys (.vec P.serialisable) (opcodeRead received O.ty.size bufs) = .ok b s) :
    b ≠ leadSample (.vec P.serialisable) := by
  obtain ⟨v, _, hv, hb⟩ := Exec.bind_eq_ok_iff.mp h
  cases hb
  have hsize := IntTy.size_of_lt hnarrow
  obtain ⟨sl, _, hsl, hv⟩ := Exec.bind_eq_ok_iff.mp hv
  obtain ⟨_, _, hv⟩ := Exec.bind_ok_or_eq_ok_iff.mp hv
  cases hv
  obtain ⟨r, hr, _⟩ := reader_onRegs_eq_ok_iff.mp hsl
  obtain ⟨raw, mid, len, start, hraw, hlen, _, _, rfl, _⟩ := Registers.read_slice_success hr
  obtain ⟨first, hfirst, _, rfl, _⟩ := Registers.read_success hraw
  obtain ⟨_, rfl⟩ := align_offset_eq_some_iff.mp hfirst
  have htwo : roundUp IntTy.u16.ty.align O.ty.size = 2 := by
    rcases hsize with hs | hs <;> rw [hs] <;> decide
  have hbytes : (IntTy.u16.ty.valueAt received (roundUp IntTy.u16.ty.align O.ty.size)).bytes =
      [received 2, received 3] := by
    rw [htwo]
    rfl
  have hnone := IntTy.decode_of_to_usize hlen
  have hzeroLen : len = 0 := by
    rw [← hnone]
    change LittleEndian.decode
      (IntTy.u16.ty.valueAt received (roundUp IntTy.u16.ty.align O.ty.size)).bytes = 0
    rw [hbytes, hzero 2 (by omega) (by decide), hzero 3 (by omega) (by decide)]
    rfl
  subst hzeroLen
  intro heq
  have hnil : ([] : List P.serialisable.Value) = [one P.serialisable.toTy] :=
    Arg.val_eq (t := .vec P.serialisable) heq
  cases hnil

theorem narrow_read_ne {t : ArgTy} (hnarrow : O.ty.size < 4) (hplain : t.Plain)
    (hlead : t.leadAlign < 4) (hzero : ∀ i, O.ty.size ≤ i → i < 4 → received i = 0)
    (h : readArg sys t (opcodeRead received O.ty.size bufs) = .ok b s) : b ≠ leadSample t := by
  obtain ⟨P, rfl | rfl⟩ := hplain
  · exact narrow_scalar_ne hnarrow hlead hzero h
  · exact narrow_vec_ne hnarrow hzero h

end Narrow

/-- With room for a sample message, agreement on it already forces the label to
fit and the cursors to meet. -/
theorem sameCursor_of_requestAgrees (hm : m ∈ I.methods) (hplain : ∀ t ∈ m.args, t.Plain)
    (hroomy : Roomy sys I m) (hagrees : RequestAgrees sys I m) :
    LabelFits I.PROTOCOL_ID ∧ SameCursor I.OpType m.args := by
  obtain ⟨tag, mr, hrequest⟩ := hroomy fun _ => 0xff
  obtain ⟨hrun, _, htag⟩ := derive_ipc_calls_success hrequest
  obtain ⟨s, hdecode, hoff⟩ := hagrees _ _ tag mr (sampleArgs_ty _) (sampleArgs_valid hplain) hrequest
    mr.regs.mem ⟨fun _ => 0, none⟩ (.refl _ _ _)
  obtain ⟨hlabel, harm, hcollect⟩ := op_decode_success hdecode
  constructor
  · rw [htag] at hlabel
    exact (MsgTag.label_new_eq_iff _ _ _ _).mp hlabel
  · by_contra hcursor
    obtain ⟨hne, hhead⟩ := not_or.mp hcursor
    rcases Nat.lt_or_gt_of_ne hne with hnarrow | hwide
    · cases hargs : m.args with
      | nil =>
        rw [hargs] at hrun hcollect
        cases hrun
        cases hcollect
        exact hne hoff
      | cons t ts =>
        rw [hargs] at hhead hrun hcollect
        have hlead : t.leadAlign < 4 := by
          by_contra hnot
          exact hhead ⟨hnarrow, t, rfl, by omega⟩
        have hopcode := load_opcode hrun
        obtain ⟨a, mid, ha, hrest⟩ := Exec.bind_eq_ok_iff.mp hcollect
        obtain ⟨as, last, _, hpair⟩ := Exec.bind_eq_ok_iff.mp hrest
        refine narrow_read_ne hnarrow (hplain t (by rw [hargs]; simp)) hlead ?_ ha ?_
        · intro i hlo hhi
          have hbound : m.opcode < 256 ^ i :=
            ((I.opcode_lt m hm).2.trans_le (IntTy.bound_le _)).trans_le
              (Nat.pow_le_pow_right (by decide) hlo)
          exact opcode_high_byte hopcode hhi hbound
        · cases hpair
          rfl
    · exact sample_byte_four hplain hrun (opcode_next_byte hwide harm)

/-- For every accepted interface and every method over primitives and vectors
of them: stub and dispatcher agree on the request format when the protocol id
fits the label and the cursors meet behind the opcode, and, given room for a
sample message, only then. -/
theorem request_format_iff (sys : Fpages) (scope : l4_derive.Scope) (items : List l4_derive.TraitItem)
    (iface : l4_derive.Iface) (I : Interface) (hparse : l4_derive.Iface.parse items = .ok iface)
    (hback : l4_derive.iface_back scope iface = some I) (m : Method) (hm : m ∈ I.methods)
    (hplain : ∀ t ∈ m.args, t.Plain) :
    (LabelFits I.PROTOCOL_ID ∧ SameCursor I.OpType m.args → RequestAgrees sys I m) ∧
      (Roomy sys I m →
        (RequestAgrees sys I m ↔ LabelFits I.PROTOCOL_ID ∧ SameCursor I.OpType m.args)) := by
  have hnodup : (I.methods.map Method.opcode).Nodup := by
    rw [l4_derive.iface_back_opcodes hparse hback]
    exact List.nodup_range
  have hsufficient : LabelFits I.PROTOCOL_ID ∧ SameCursor I.OpType m.args → RequestAgrees sys I m :=
    fun h => requestAgrees_of_sameCursor hnodup hm hplain h.1 h.2
  exact ⟨hsufficient, fun hroomy => ⟨sameCursor_of_requestAgrees hm hplain hroomy, hsufficient⟩⟩

/-- A declaration with one method `fn set(&mut self, v: u8)` and the given
operand type. -/
def setDecl (OpType : String) : List l4_derive.TraitItem :=
  [.Attr (.Const "PROTOCOL_ID" (some 7#64)), .Attr (.Type "OpType" (some (.Path [(OpType, [])]))),
    .Method ⟨"set", false, [.SelfRef true, .Captured "v" (.Path [("u8", [])])], none, false⟩]

/-- The method `set` after expansion. -/
def setMethod : Method := ⟨0, [.scalar (Primitive.int .u8).serialisable], .unit⟩

def u8Arg (n : Nat) : Arg := ⟨.scalar (Primitive.int .u8).serialisable, IntTy.u8.literal n⟩

/-- With opcodes of four bytes the dispatcher reads the argument of one byte where the caller has put it. -/
theorem request_format_u32 :
    ∃ iface I, l4_derive.Iface.parse (setDecl "u32") = .ok iface ∧
      l4_derive.iface_back .prelude iface = some I ∧ setMethod ∈ I.methods ∧
      RequestAgrees .l4re I setMethod := by
  refine ⟨_, _, rfl, rfl, List.mem_singleton.mpr rfl, ?_⟩
  refine (request_format_iff .l4re .prelude (setDecl "u32") _ _ rfl rfl setMethod
    (List.mem_singleton.mpr rfl) ?_).1 ⟨?_, Or.inl rfl⟩
  · intro t ht
    exact ⟨.int .u8, Or.inl (List.mem_singleton.mp ht)⟩
  · exact ⟨by decide, by decide⟩

/-- With `u8` opcodes the dispatcher takes the argument 7 for 0: it reads it out
of the second byte of the opcode. -/
theorem request_format_fails :
    ∃ iface I, l4_derive.Iface.parse (setDecl "u8") = .ok iface ∧
      l4_derive.iface_back .prelude iface = some I ∧ setMethod ∈ I.methods ∧
      (∃ tag mr s, derive_ipc_calls .l4re I 0 [u8Arg 7] (UtcbMr.from_mr fun _ => 0) = .ok tag mr ∧
        op_decode .l4re I tag ⟨UtcbMr.from_mr mr.regs.mem, ⟨fun _ => 0, none⟩⟩ =
          .ok (setMethod, [u8Arg 0]) s ∧ s.mr.regs.offset = 2 ∧ mr.regs.offset = 5) ∧
      ¬ RequestAgrees .l4re I setMethod := by
  refine ⟨_, _, rfl, rfl, List.mem_singleton.mpr rfl, ⟨_, _, _, rfl, rfl, rfl, rfl⟩, ?_⟩
  intro hagrees
  have hvalid : ∀ a ∈ [u8Arg 7], a.Valid := by
    intro a ha
    rw [List.mem_singleton.mp ha]
    exact (rfl : (true : Bool) = true)
  obtain ⟨s, hdecode, _⟩ := hagrees (fun _ => 0) [u8Arg 7] _ _ rfl hvalid rfl _ ⟨fun _ => 0, none⟩
    (.refl _ _ _)
  cases hdecode

end l4.ipc
