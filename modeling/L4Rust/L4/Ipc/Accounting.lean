import L4Rust.L4.Ipc.Messages

open l4.error l4.utcb Cursor

namespace l4.ipc

variable {mr mr' : UtcbMr}

/-- One call that adds to a message. The length of a slice is of an integer type,
as wherever the code writes one. -/
inductive WriteCall where
  | write (T : Serialisable) (val : T.toTy.Value)
  | write_slice (Len : IntTy) (T : Serialisable) (vals : List T.toTy.Value)
  | write_str (val : String)
  | skip (T : Serialisable)
  | write_item (fp : SndFlexPage)

def WriteCall.run : WriteCall → Exec Error UtcbMr Unit
  | .write T val => UtcbMr.onRegs (Registers.write l4_msg_regs_t T.toTy val)
  | .write_slice Len T vals => UtcbMr.onRegs (Registers.write_slice l4_msg_regs_t Len T.toTy vals)
  | .write_str val => UtcbMr.onRegs (Registers.write_str l4_msg_regs_t val)
  | .skip T => UtcbMr.onRegs (Registers.skip l4_msg_regs_t T.toTy)
  | .write_item fp => UtcbMr.write_item SndFlexPage.serialisable.toTy fp.value

theorem WriteCall.run_sound (call : WriteCall) (h : call.run mr = .ok () mr') (hs : Sound mr) :
    Sound mr' := by
  cases call with
  | write T val => exact onRegs_sound (Registers.write_in_bounds _ _) (Registers.write_appends _ _) h hs
  | write_slice Len T vals =>
    exact onRegs_sound (Registers.write_slice_in_bounds _ _ _) (Registers.write_slice_appends _ _ _) h hs
  | write_str val =>
    exact onRegs_sound (Registers.write_str_in_bounds _) (Registers.write_slice_appends _ _ _) h hs
  | skip T => exact onRegs_sound (Registers.skip_in_bounds _) (Registers.skip_appends _) h hs
  | write_item fp => exact write_item_sound h hs

theorem writeCalls_sound (calls : List WriteCall) (h : runAll (calls.map WriteCall.run) mr = .ok () mr')
    (hs : Sound mr) : Sound mr' := by
  induction calls generalizing mr with
  | nil =>
    cases h
    exact hs
  | cons call calls ih =>
    obtain ⟨_, mid, hfirst, hrest⟩ := Exec.bind_eq_ok_iff.mp h
    exact ih hrest (call.run_sound hfirst hs)

/-- The dispatcher behind its check of the announced length. -/
def op_decode_in_bounds (sys : Fpages) (I : Interface) (tag : MsgTag) :
    Exec Error Reader (Method × List Arg) :=
  if tag.label ≠ I.PROTOCOL_ID then
    Exec.throw (.Generic .InvalidProt)
  else do
    let opcode ← Reader.onRegs (Registers.read l4_msg_regs_t I.OpType.ty)
    match I.arm opcode with
    | none =>
      Exec.throw (.InvalidArg "unknown opcode received" (some (IntTy.as_isize I.OpType opcode)))
    | some m => do
      let args ← Cursor.collect (m.args.map (readArg sys))
      pure (m, args)

/-- The tag that announces what was written. -/
def messageTag (mr : UtcbMr) (label : BitVec 64) : MsgTag :=
  MsgTag.new label (BitVec.ofNat 32 mr.words) (BitVec.ofNat 32 mr.items) 0

theorem op_decode_of_fits {sys : Fpages} {I : Interface} {tag : MsgTag}
    (h : tag.words + tag.items * WORDS_PER_ITEM ≤ l4_sys.UTCB_GENERIC_DATA_SIZE) :
    op_decode sys I tag = op_decode_in_bounds sys I tag :=
  if_neg (Nat.not_lt.mpr h)

/-- However a message is written, if every call succeeds then the words of its
items are among those written, the two counts add up to the words in use, the tag
carries both counts, and no dispatcher rejects the message for its length. -/
theorem message_accounting (mem : Memory) (calls : List WriteCall)
    (h : runAll (calls.map WriteCall.run) (UtcbMr.from_mr mem) = .ok () mr) :
    2 * mr.items ≤ mr.regs.words ∧
      mr.words + 2 * mr.items = (mr.regs.offset + 7) / 8 ∧ (mr.regs.offset + 7) / 8 ≤ 63 ∧
      ∀ label, (messageTag mr label).words = mr.words ∧ (messageTag mr label).items = mr.items ∧
        ∀ sys I, op_decode sys I (messageTag mr label) =
          op_decode_in_bounds sys I (messageTag mr label) := by
  have hs : Sound mr := writeCalls_sound calls h (sound_from_mr mem)
  obtain ⟨hsum, hle⟩ := hs.words_add_items
  have hitems := hs.items_le
  refine ⟨?_, hsum, hle, ?_⟩
  · rw [words_eq mr.regs hs.in_bounds]
    omega
  · intro label
    have htag : messageTag mr label =
        MsgTag.new label (BitVec.ofNat 32 mr.words) (BitVec.ofNat 32 mr.items) 0 := rfl
    obtain ⟨hwords, hcount⟩ := tag_counts hs htag
    refine ⟨hwords, hcount, fun sys I => op_decode_of_fits ?_⟩
    have htotal : mr.words + mr.items * 2 ≤ 63 := by omega
    rw [hwords, hcount]
    exact htotal

/-- A number, a capability, a text and enough words to fill the registers. -/
private def fullMessage : List WriteCall :=
  [.write IntTy.u32.serialisable (IntTy.u32.literal 7), .write_item ⟨8, 0x1037⟩, .write_str "abc",
    .write_slice .u64 IntTy.u64.serialisable (List.replicate 57 (IntTy.u64.literal 1))]

/-- A word, an item, a text and a slice fill all of the 63 registers. -/
theorem message_accounting_full :
    ∃ mr, runAll (fullMessage.map WriteCall.run) (UtcbMr.from_mr fun _ => 0) = .ok () mr ∧
      mr.regs.offset = 504 ∧ (messageTag mr 0).words = 61 ∧ (messageTag mr 0).items = 1 := by
  obtain ⟨mr, hrun, hoff, hwords, hitems⟩ : ∃ mr,
      runAll (fullMessage.map WriteCall.run) (UtcbMr.from_mr fun _ => 0) = .ok () mr ∧
        mr.regs.offset = 504 ∧ mr.words = 61 ∧ mr.items = 1 := ⟨_, rfl, rfl, rfl, rfl⟩
  obtain ⟨_, _, _, htag⟩ := message_accounting (fun _ => 0) fullMessage hrun
  exact ⟨mr, hrun, hoff, (htag 0).1.trans hwords, (htag 0).2.1.trans hitems⟩

end l4.ipc
