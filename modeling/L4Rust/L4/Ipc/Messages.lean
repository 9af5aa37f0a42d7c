import L4Rust.L4.Ipc.Arguments
import L4Rust.L4.Ipc.Iface
import L4Rust.L4.Registers.Bounds

open l4.error l4.utcb Cursor

namespace l4.ipc

variable {sys : Fpages} {mr mr' : UtcbMr} {u : Unit}

/-- What holds of message registers while a message is being written: the
items' two words each are part of what was written. -/
structure Sound (mr : UtcbMr) : Prop where
  in_bounds : mr.regs.InBounds l4_msg_regs_t
  items_le : 16 * mr.items ≤ mr.regs.offset

theorem words_eq (r : Registers) (h : r.InBounds l4_msg_regs_t) : r.words = (r.offset + 7) / 8 := by
  have hle : r.offset ≤ 504 := h.offset_le
  unfold Registers.words
  by_cases hzero : r.offset % 8 = 0
  · simp only [hzero]
    omega
  · split
    · next h0 => exact (hzero h0).elim
    · omega

/-- The untyped words and the items together are the registers written, and
they fit the message registers. -/
theorem Sound.words_add_items (h : Sound mr) :
    mr.words + 2 * mr.items = (mr.regs.offset + 7) / 8 ∧ (mr.regs.offset + 7) / 8 ≤ 63 := by
  have hitems := h.items_le
  have hle : mr.regs.offset ≤ 504 := h.in_bounds.offset_le
  unfold UtcbMr.words
  rw [words_eq mr.regs h.in_bounds]
  omega

theorem sound_from_mr (mem : Memory) : Sound (UtcbMr.from_mr mem) :=
  ⟨⟨Nat.zero_le _, by simp [UtcbMr.from_mr, Registers.from_raw]⟩, Nat.zero_le _⟩

/-- A call that stays in bounds does so when it returns. -/
theorem in_bounds_of_ok {α : Type} {U : UtcbRegSize} {x : Exec Error Registers α} {r t : Registers}
    {a : α} (hx : StaysInBounds U x) (hr : r.InBounds U) (h : x r = .ok a t) : t.InBounds U := by
  have hrun := hx r hr
  rw [h] at hrun
  exact hrun

theorem onRegs_sound {w : Exec Error Registers Unit} (hw : StaysInBounds l4_msg_regs_t w)
    (happ : Appends w) (h : UtcbMr.onRegs w mr = .ok u mr') (hs : Sound mr) : Sound mr' := by
  obtain ⟨r, hr, rfl⟩ := utcbMr_onRegs_eq_ok_iff.mp h
  obtain ⟨hmono, _⟩ := happ mr.regs r hr
  exact ⟨in_bounds_of_ok hw hs.in_bounds hr, hs.items_le.trans hmono⟩

/-- An item takes the two words at the next aligned offset. -/
theorem write_item_success {fp : SndFlexPage.serialisable.toTy.Value}
    (h : UtcbMr.write_item SndFlexPage.serialisable.toTy fp mr = .ok u mr') :
    mr'.regs.offset = roundUp 8 mr.regs.offset + 16 ∧ mr'.items = mr.items + 1 ∧
      mr'.placed = mr.placed ++ [roundUp 8 mr.regs.offset] := by
  obtain ⟨_, mid, hmid, hcount⟩ := Exec.bind_eq_ok_iff.mp h
  cases hcount
  obtain ⟨r, hr, rfl⟩ := utcbMr_onRegs_eq_ok_iff.mp hmid
  obtain ⟨start, hstart, _, rfl⟩ := Registers.write_success hr
  obtain ⟨_, rfl⟩ := align_offset_eq_some_iff.mp hstart
  have halign : SndFlexPage.serialisable.align = 8 := rfl
  have hsize : SndFlexPage.serialisable.size = 16 := rfl
  rw [halign, hsize]
  refine ⟨rfl, rfl, ?_⟩
  simp only [Nat.add_sub_cancel]

theorem write_item_sound {fp : SndFlexPage.serialisable.toTy.Value}
    (h : UtcbMr.write_item SndFlexPage.serialisable.toTy fp mr = .ok u mr') (hs : Sound mr) :
    Sound mr' := by
  obtain ⟨hoff, hitems, _⟩ := write_item_success h
  have hle := Alignment.le_roundUp (a := 8) (by decide) mr.regs.offset
  have hold := hs.items_le
  refine ⟨?_, by omega⟩
  obtain ⟨_, mid, hmid, hcount⟩ := Exec.bind_eq_ok_iff.mp h
  cases hcount
  obtain ⟨r, hr, rfl⟩ := utcbMr_onRegs_eq_ok_iff.mp hmid
  exact in_bounds_of_ok (Registers.write_in_bounds _ _) hs.in_bounds hr

theorem seq_in_bounds {x y : Exec Error Registers Unit} (hx : StaysInBounds l4_msg_regs_t x)
    (hy : StaysInBounds l4_msg_regs_t y) : StaysInBounds l4_msg_regs_t (do x; y) :=
  Exec.Triple.bind hx fun _ => hy

theorem Arg.write_sound (a : Arg) (h : a.write sys mr = .ok u mr') (hs : Sound mr) : Sound mr' := by
  obtain ⟨t, v⟩ := a
  cases t with
  | scalar T => exact onRegs_sound (Registers.write_in_bounds _ _) (Registers.write_appends _ _) h hs
  | unit =>
    cases h
    exact hs
  | flexPage => exact write_item_sound h hs
  | option T =>
    cases v with
    | none =>
      exact onRegs_sound (seq_in_bounds (Registers.skip_in_bounds _) (Registers.write_in_bounds _ _))
        (Appends.seq (Registers.skip_appends _) (Registers.write_appends _ _)) h hs
    | some val =>
      exact onRegs_sound (seq_in_bounds (Registers.write_in_bounds _ _) (Registers.write_in_bounds _ _))
        (Appends.seq (Registers.write_appends _ _) (Registers.write_appends _ _)) h hs
  | cap => exact write_item_sound h hs
  | string =>
    exact onRegs_sound (Registers.write_str_in_bounds _) (Registers.write_slice_appends _ _ _) h hs
  | vec T =>
    exact onRegs_sound (Registers.write_slice_in_bounds _ _ _)
      (Registers.write_slice_appends _ _ _) h hs

theorem runAll_sound (args : List Arg) (h : runAll (args.map (Arg.write sys)) mr = .ok u mr')
    (hs : Sound mr) : Sound mr' := by
  induction args generalizing mr with
  | nil =>
    cases h
    exact hs
  | cons a args ih =>
    obtain ⟨_, mid, hfirst, hrest⟩ := Exec.bind_eq_ok_iff.mp h
    exact ih hrest (a.write_sound hfirst hs)

/-- Untyped arguments leave the item count and the recorded places alone. -/
theorem Arg.write_untyped (a : Arg) (hitem : a.ty.isItem = false) (h : a.write sys mr = .ok u mr') :
    mr'.items = mr.items ∧ mr'.placed = mr.placed := by
  have honRegs {w : Exec Error Registers Unit} (hw : UtcbMr.onRegs w mr = .ok u mr') :
      mr'.items = mr.items ∧ mr'.placed = mr.placed := by
    obtain ⟨r, _, rfl⟩ := utcbMr_onRegs_eq_ok_iff.mp hw
    exact ⟨rfl, rfl⟩
  obtain ⟨t, v⟩ := a
  cases t with
  | scalar T => exact honRegs h
  | unit =>
    cases h
    exact ⟨rfl, rfl⟩
  | flexPage => cases hitem
  | option T =>
    cases v with
    | none => exact honRegs h
    | some val => exact honRegs h
  | cap => cases hitem
  | string => exact honRegs h
  | vec T => exact honRegs h

/-- Typed arguments are placed at the next aligned offset. -/
theorem Arg.write_typed (a : Arg) (hitem : a.ty.isItem = true) (h : a.write sys mr = .ok u mr') :
    mr'.regs.offset = roundUp 8 mr.regs.offset + 16 ∧ mr'.items = mr.items + 1 ∧
      mr'.placed = mr.placed ++ [roundUp 8 mr.regs.offset] := by
  obtain ⟨t, v⟩ := a
  cases t with
  | flexPage => exact write_item_success h
  | cap => exact write_item_success h
  | scalar T | unit | option T | string | vec T => cases hitem

/-- Every typed argument is counted once. -/
theorem runAll_items (args : List Arg) (h : runAll (args.map (Arg.write sys)) mr = .ok u mr') :
    mr'.items = mr.items + args.countP fun a => a.ty.isItem := by
  induction args generalizing mr with
  | nil =>
    cases h
    rfl
  | cons a args ih =>
    obtain ⟨_, mid, hfirst, hrest⟩ := Exec.bind_eq_ok_iff.mp h
    rw [ih hrest]
    cases hitem : a.ty.isItem with
    | false => rw [(a.write_untyped hitem hfirst).1, List.countP_cons_of_neg (by simp [hitem])]
    | true =>
      rw [(a.write_typed hitem hfirst).2.1, List.countP_cons_of_pos (by simp [hitem])]
      omega

/-- The message registers right after the stub wrote the opcode. -/
def opcodeWritten (mem : Memory) (opcode : Nat) : UtcbMr :=
  ⟨⟨mem.store 0 (LittleEndian.encode 4 opcode), 4, [⟨.write, 0, 4⟩]⟩, 0, []⟩

theorem write_opcode (mem : Memory) (opcode : Nat) :
    UtcbMr.onRegs (Registers.write l4_msg_regs_t IntTy.i32.ty (IntTy.i32.literal opcode))
      (UtcbMr.from_mr mem) = .ok () (opcodeWritten mem opcode) := by
  apply utcbMr_onRegs_eq_ok_iff.mpr
  exact ⟨_, Registers.write_of_fits (align_offset_zero _) (by decide), rfl⟩

theorem sound_opcodeWritten (mem : Memory) (opcode : Nat) : Sound (opcodeWritten mem opcode) :=
  onRegs_sound (Registers.write_in_bounds _ _) (Registers.write_appends _ _)
    (write_opcode mem opcode) (sound_from_mr mem)

/-- A successful request: the arguments were written behind the opcode, and the
tag counts what was written. -/
theorem derive_ipc_calls_success {I : Interface} {opcode : Nat} {args : List Arg} {mem : Memory}
    {tag : MsgTag} (h : derive_ipc_calls sys I opcode args (UtcbMr.from_mr mem) = .ok tag mr) :
    runAll (args.map (Arg.write sys)) (opcodeWritten mem opcode) = .ok () mr ∧ Sound mr ∧
      tag = MsgTag.new I.PROTOCOL_ID (BitVec.ofNat 32 mr.words) (BitVec.ofNat 32 mr.items) 0 := by
  unfold derive_ipc_calls at h
  rw [Exec.bind_of_ok (write_opcode mem opcode), Exec.bind_eq_ok_iff] at h
  obtain ⟨_, mid, hmid, h⟩ := h
  cases h
  exact ⟨hmid, runAll_sound args hmid (sound_opcodeWritten mem opcode), rfl⟩

/-- The tag of a message announces exactly the registers written. -/
theorem tag_counts {label : BitVec 64} (hs : Sound mr) {tag : MsgTag}
    (htag : tag = MsgTag.new label (BitVec.ofNat 32 mr.words) (BitVec.ofNat 32 mr.items) 0) :
    tag.words = mr.words ∧ tag.items = mr.items := by
  obtain ⟨hsum, hle⟩ := hs.words_add_items
  subst htag
  exact ⟨MsgTag.words_new _ _ _ (by omega), MsgTag.items_new _ _ _ (by omega)⟩

/-- The kernel carries the untyped words of a message over. -/
def Delivered (tag : MsgTag) (sent received : Memory) : Prop :=
  Memory.AgreeOn 0 (8 * tag.words) received sent

/-- The reader right after the dispatcher read an opcode of the given size. -/
def opcodeRead (received : Memory) (size : Nat) (bufs : BufferAccess) : Reader :=
  ⟨⟨⟨received, size, [⟨.read, 0, size⟩]⟩, 0, []⟩, bufs⟩

/-- What the dispatcher does with a message it accepts. -/
theorem op_decode_success {I : Interface} {tag : MsgTag} {m : Method} {args : List Arg}
    {received : Memory} {bufs : BufferAccess} {s : Reader}
    (h : op_decode sys I tag ⟨UtcbMr.from_mr received, bufs⟩ = .ok (m, args) s) :
    tag.label = I.PROTOCOL_ID ∧ I.arm (I.OpType.ty.valueAt received 0) = some m ∧
      collect (m.args.map (readArg sys)) (opcodeRead received I.OpType.ty.size bufs) = .ok args s := by
  unfold op_decode at h
  split at h
  · cases h
  · split at h
    · cases h
    · next hlabel =>
      rw [Exec.bind_eq_ok_iff] at h
      obtain ⟨opcode, mid, hread, h⟩ := h
      obtain ⟨r, hr, rfl⟩ := reader_onRegs_eq_ok_iff.mp hread
      obtain ⟨start, hstart, _, rfl, rfl⟩ := Registers.read_success hr
      obtain ⟨_, rfl⟩ := align_offset_eq_some_iff.mp hstart
      have hzero : roundUp I.OpType.ty.align (UtcbMr.from_mr received).regs.offset = 0 :=
        Alignment.roundUp_of_dvd (Ty.align_pos _) (Nat.dvd_zero _)
      simp only [hzero, Nat.zero_add] at h
      cases harm : I.arm (I.OpType.ty.valueAt received 0) with
      | none =>
        have hnone : I.arm (I.OpType.ty.valueAt (UtcbMr.from_mr received).regs.mem 0) = none := harm
        rw [hnone] at h
        cases h
      | some m' =>
        have hsome : I.arm (I.OpType.ty.valueAt (UtcbMr.from_mr received).regs.mem 0) = some m' := harm
        rw [hsome] at h
        simp only at h
        rw [Exec.bind_eq_ok_iff] at h
        obtain ⟨args', last, hcollect, h⟩ := h
        cases h
        exact ⟨Classical.not_not.mp hlabel, rfl, hcollect⟩

/-- A message that announces no more than the registers hold, with the right
label and a known opcode, is decoded argument by argument. -/
theorem op_decode_of_arm (sys : Fpages) {I : Interface} {tag : MsgTag} {m : Method} {received : Memory}
    (bufs : BufferAccess)
    (hwords : tag.words + tag.items * WORDS_PER_ITEM ≤ l4_sys.UTCB_GENERIC_DATA_SIZE)
    (hlabel : tag.label = I.PROTOCOL_ID) (hsize : I.OpType.ty.size ≤ 504)
    (harm : I.arm (I.OpType.ty.valueAt received 0) = some m) :
    op_decode sys I tag ⟨UtcbMr.from_mr received, bufs⟩ =
      (do
        let args ← collect (m.args.map (readArg sys))
        pure (m, args)) (opcodeRead received I.OpType.ty.size bufs) := by
  have hread : Registers.read l4_msg_regs_t I.OpType.ty (UtcbMr.from_mr received).regs =
      .ok (I.OpType.ty.valueAt received 0)
        ⟨received, I.OpType.ty.size, [⟨.read, 0, I.OpType.ty.size⟩]⟩ := by
    have hfits : 0 + I.OpType.ty.size ≤ l4_msg_regs_t.BUF_SIZE := by
      rw [Nat.zero_add]
      exact hsize
    have hrun := Registers.read_of_fits (r := (UtcbMr.from_mr received).regs)
      (align_offset_zero I.OpType.ty) hfits
    simpa only [Nat.zero_add] using! hrun
  have hreader : Reader.onRegs (Registers.read l4_msg_regs_t I.OpType.ty)
      ⟨UtcbMr.from_mr received, bufs⟩ = .ok (I.OpType.ty.valueAt received 0)
        (opcodeRead received I.OpType.ty.size bufs) :=
    reader_onRegs_eq_ok_iff.mpr ⟨_, hread, rfl⟩
  unfold op_decode
  rw [if_neg (Nat.not_lt.mpr hwords), if_neg (not_not_intro hlabel), Exec.bind_of_ok hreader, harm]

end l4.ipc
