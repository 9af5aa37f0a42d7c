import L4Rust.L4.Registers.RoundTrip

open l4.error Cursor

namespace l4.utcb

variable {U : UtcbRegSize} {r t : Registers}

theorem toByteArray_utf8 (s : String) : (utf8 s).toByteArray = s.toByteArray := by
  apply ByteArray.ext
  apply Array.toList_inj.mp
  rw [List.toList_data_toByteArray]
  rfl

/-- A string is decoded from its own bytes. -/
theorem fromUTF8?_utf8 (s : String) : String.fromUTF8? (utf8 s).toByteArray = some s := by
  rw [toByteArray_utf8, String.fromUTF8?, dif_pos s.isValidUTF8]
  rfl

theorem from_utf8_utf8 (s : String) : from_utf8 (utf8 s) = .ok s := by
  unfold from_utf8
  rw [fromUTF8?_utf8]

/-- Decoding returns the string with exactly the bytes given. -/
theorem utf8_of_from_utf8 {bytes : List UInt8} {s : String} (h : from_utf8 bytes = .ok s) :
    utf8 s = bytes := by
  unfold from_utf8 String.fromUTF8? at h
  by_cases hvalid : bytes.toByteArray.IsValidUTF8
  · rw [dif_pos hvalid] at h
    cases h
    exact List.toList_data_toByteArray
  · rw [dif_neg hvalid] at h
    cases h

/-- The text of a received byte string. -/
def stripNul (bytes : List UInt8) : List UInt8 := bytes.take (text_len bytes bytes.length)

theorem stripNul_of_ne {bytes : List UInt8} (h : bytes.getLast? ≠ some 0) : stripNul bytes = bytes := by
  unfold stripNul text_len
  split
  · next hlast => exact (h hlast).elim
  · exact List.take_length

theorem stripNul_ne {bytes : List UInt8} (h : bytes.getLast? = some 0) : stripNul bytes ≠ bytes := by
  intro heq
  have hlen := congrArg List.length heq
  have hne : bytes ≠ [] := by
    rintro rfl
    cases h
  have hpos := List.length_pos_iff.mpr hne
  unfold stripNul text_len at hlen
  rw [h] at hlen
  simp only [List.length_take] at hlen
  omega

theorem byteValues_flatMap (m : Memory) (start len : Nat) :
    ((List.range len).map fun i => IntTy.u8.ty.valueAt m (start + i * IntTy.u8.ty.size)).flatMap
      Ty.Value.bytes = m.load start len := by
  induction len generalizing start with
  | zero => rfl
  | succ len ih =>
    have hlast := ih start
    rw [List.range_succ, List.map_append, List.flatMap_append, hlast, Memory.load_add]
    simp [Ty.valueAt, IntTy.ty, Ty.natural, IntTy.sizeLog]

/-- A string read from behind a length: its bytes without a final NUL, decoded. -/
theorem Registers.read_str_of_fits {raw : IntTy.usize.ty.Value} {mid : Registers} {s : String}
    (hmid : Registers.read U IntTy.usize.ty r = .ok raw mid)
    (hfits : mid.offset + LittleEndian.decode raw.bytes ≤ U.BUF_SIZE)
    (hutf8 : from_utf8 (stripNul (mid.mem.load mid.offset (LittleEndian.decode raw.bytes))) = .ok s) :
    Registers.read_str U r = .ok s ⟨mid.mem, mid.offset + LittleEndian.decode raw.bytes,
      ⟨.slice, mid.offset, mid.offset + LittleEndian.decode raw.bytes * IntTy.u8.ty.size⟩ ::
        mid.trace⟩ := by
  have hbuf := U.buf_size_lt
  have hstop := checked_add_of_lt
    (show mid.offset + LittleEndian.decode raw.bytes < 2 ^ 64 by omega)
  have hstrip : (mid.mem.load mid.offset (LittleEndian.decode raw.bytes)).take
      (text_len (mid.mem.load mid.offset (LittleEndian.decode raw.bytes))
        (LittleEndian.decode raw.bytes)) =
      stripNul (mid.mem.load mid.offset (LittleEndian.decode raw.bytes)) := by
    rw [stripNul, Memory.length_load]
  simp only [Registers.read_str, Exec.bind_apply, hmid, Exec.get_apply, hstop, Exec.ok_or_some,
    Exec.pure_apply, l4_err_if, if_neg (Nat.not_lt.mpr hfits), from_raw_parts, Exec.modify_apply,
    byteValues_flatMap, hstrip, hutf8, set_offset]

/-- Whatever is read, its bytes are the received ones without a final NUL. -/
theorem Registers.read_str_success {s : String} (h : Registers.read_str U r = .ok s t) :
    ∃ raw mid, Registers.read U IntTy.usize.ty r = .ok raw mid ∧
      utf8 s = stripNul (mid.mem.load mid.offset (LittleEndian.decode raw.bytes)) := by
  unfold Registers.read_str at h
  rw [Exec.bind_eq_ok_iff] at h
  obtain ⟨raw, mid, hmid, h⟩ := h
  rw [Exec.bind_get] at h
  obtain ⟨_, h⟩ := fits_of_bind_end h
  rw [Exec.bind_eq_ok_iff] at h
  obtain ⟨slice, view, hview, h⟩ := h
  cases hview
  refine ⟨raw, mid, hmid, ?_⟩
  rw [byteValues_flatMap] at h
  cases hutf8 : from_utf8 _ with
  | error e =>
    rw [hutf8] at h
    cases h
  | ok str =>
    rw [hutf8] at h
    cases h
    rw [utf8_of_from_utf8 hutf8, stripNul, Memory.length_load]

theorem utf8_flatMap (bytes : List UInt8) : (bytes.map byteValue).flatMap Ty.Value.bytes = bytes := by
  induction bytes with
  | nil => rfl
  | cons b bytes ih =>
    rw [List.map_cons, List.flatMap_cons, ih]
    rfl

/-- Bytes need no alignment. -/
theorem align_offset_u8 {off start : Nat} (h : align_offset IntTy.u8.ty off = some start) :
    start = off := by
  obtain ⟨_, rfl⟩ := align_offset_eq_some_iff.mp h
  exact Alignment.roundUp_of_dvd (Ty.align_pos _) (Nat.one_dvd off)

/-- Where a written string lies: its length as a word, then its bytes. Every
reader that finds those bytes takes them up to a final NUL. -/
theorem Registers.write_str_layout {s : String} {u : Unit} (h : Registers.write_str U s r = .ok u t)
    {r' : Registers} (hoff : roundUp IntTy.usize.ty.align r'.offset =
      roundUp IntTy.usize.ty.align r.offset)
    (hmem : Memory.AgreeOn r.offset t.offset r'.mem t.mem) :
    ∃ raw mid, Registers.read U IntTy.usize.ty r' = .ok raw mid ∧
      mid.offset + LittleEndian.decode raw.bytes = t.offset ∧ t.offset ≤ U.BUF_SIZE ∧
      mid.mem = r'.mem ∧ mid.mem.load mid.offset (LittleEndian.decode raw.bytes) = utf8 s := by
  obtain ⟨len, wmid, start, hlen, hwmid, hstart, hfits, rfl⟩ := Registers.write_slice_success h
  obtain rfl := align_offset_u8 hstart
  have hone : IntTy.u8.ty.size = 1 := rfl
  rw [List.length_map] at hlen
  simp only [List.length_map, hone, Nat.mul_one, utf8_flatMap] at hfits hmem ⊢
  obtain ⟨hmono, _⟩ := Registers.write_appends IntTy.usize.ty len r wmid hwmid
  simp only [offset_registers] at hmono
  have hbuf := U.buf_size_lt
  have hprefix : Memory.AgreeOn r.offset wmid.offset r'.mem wmid.mem :=
    (hmem.mono le_rfl (by omega)).trans
      ((Memory.agreeOn_store_below _ _ _).mono (Nat.zero_le _) le_rfl)
  obtain ⟨mid, hmid, hmidOff, hmidMem⟩ :=
    Registers.write_readsBack IntTy.usize.ty len r wmid hwmid r' hoff hprefix
  simp only [offset_registers, mem_registers] at hmidOff hmidMem
  have hlenUsize := IntTy.to_usize_of_from_usize (by omega) hlen
  have hdecode : LittleEndian.decode len.bytes = (utf8 s).length := IntTy.decode_of_to_usize hlenUsize
  refine ⟨len, mid, hmid, ?_, hfits, hmidMem, ?_⟩
  · rw [hmidOff, hdecode]
  · rw [hmidOff, hdecode, hmidMem, Memory.load_congr hmem (by omega) le_rfl]
    exact Memory.load_store _ _ _

/-- The character that ends a text in C. -/
def NUL : Char := Char.ofNat 0

/-- A text as its reader gets it: without a final NUL. -/
def withoutFinalNul (s : String) : String :=
  if s.toList.getLast? = some NUL then String.ofList s.toList.dropLast else s

theorem ofNat_eq_zero_of_lt {n : Nat} (hn : n < 256) (h : UInt8.ofNat n = 0) : n = 0 := by
  have hnat : (UInt8.ofNat n).toNat = 0 := by
    rw [h]
    rfl
  rwa [UInt8.toNat_ofNat_of_lt' hn] at hnat

/-- Only the encoding of NUL ends in a zero byte: a longer one ends in a
continuation byte. -/
theorem getLast?_utf8EncodeChar (c : Char) :
    (String.utf8EncodeChar c).getLast? = some 0 ↔ c = NUL := by
  have hcont : UInt8.ofNat (c.val.toNat % 0x40 + 0x80) ≠ 0 := by
    intro hzero
    have hsum := ofNat_eq_zero_of_lt (by omega) hzero
    omega
  constructor
  · intro h
    unfold String.utf8EncodeChar at h
    dsimp only at h
    split at h
    · next hsmall =>
      have hval : c.val.toNat = 0 := ofNat_eq_zero_of_lt (by omega) (Option.some.inj h)
      exact Char.ext (UInt32.toNat_inj.mp hval)
    · split at h
      · exact (hcont (Option.some.inj h)).elim
      · split at h
        · exact (hcont (Option.some.inj h)).elim
        · exact (hcont (Option.some.inj h)).elim
  · rintro rfl
    decide

theorem utf8_concat (l : List Char) (c : Char) :
    utf8 (String.ofList (l ++ [c])) = utf8 (String.ofList l) ++ String.utf8EncodeChar c := by
  unfold utf8
  rw [String.toByteArray_ofList, String.toByteArray_ofList, List.utf8Encode_append,
    List.utf8Encode_singleton]
  simp

theorem stripNul_concat (bytes : List UInt8) : stripNul (bytes ++ [0]) = bytes := by
  unfold stripNul text_len
  rw [List.getLast?_concat]
  simp

/-- Dropping a final zero byte is dropping a final NUL. -/
theorem stripNul_utf8 (s : String) : stripNul (utf8 s) = utf8 (withoutFinalNul s) := by
  obtain ⟨l, rfl⟩ : ∃ l, s = String.ofList l := ⟨s.toList, String.ofList_toList.symm⟩
  unfold withoutFinalNul
  rw [String.toList_ofList]
  rcases List.eq_nil_or_concat l with rfl | ⟨l, c, rfl⟩
  · rfl
  rw [List.concat_eq_append, List.getLast?_concat, List.dropLast_concat]
  by_cases hc : c = NUL
  · have hnul : String.utf8EncodeChar NUL = [0] := by decide
    rw [if_pos (by rw [hc]), hc, utf8_concat, hnul, stripNul_concat]
  · rw [if_neg (by simpa using hc)]
    apply stripNul_of_ne
    rw [utf8_concat, List.getLast?_append_of_ne_nil _ String.utf8EncodeChar_ne_nil]
    exact fun hlast => hc ((getLast?_utf8EncodeChar c).mp hlast)

/-- Every string is read back up to a final NUL. -/
theorem Registers.write_str_readsBack_text (s : String) :
    ReadsBackFrom IntTy.usize.ty.align (Registers.write_str U s) (Registers.read_str U)
      (withoutFinalNul s) := by
  intro r t h r' hoff hmem
  obtain ⟨raw, mid, hmid, hend, hfits, hkeep, hload⟩ := Registers.write_str_layout h hoff hmem
  have hutf8 : from_utf8 (stripNul (mid.mem.load mid.offset (LittleEndian.decode raw.bytes))) =
      .ok (withoutFinalNul s) := by
    rw [hload, stripNul_utf8, from_utf8_utf8]
  exact ⟨_, Registers.read_str_of_fits hmid (by omega) hutf8, hend, hkeep⟩

/-- A string without a final NUL is read back. -/
theorem Registers.write_str_readsBack {s : String} (hs : (utf8 s).getLast? ≠ some 0) :
    ReadsBackFrom IntTy.usize.ty.align (Registers.write_str U s) (Registers.read_str U) s := by
  have hsame : withoutFinalNul s = s := by
    apply String.toByteArray_inj.mp
    rw [← toByteArray_utf8, ← toByteArray_utf8, ← stripNul_utf8, stripNul_of_ne hs]
  have htext := Registers.write_str_readsBack_text (U := U) s
  rwa [hsame] at htext

/-- A string with a final NUL never is. -/
theorem Registers.write_str_not_readsBack {s s' : String} {u : Unit} (hs : (utf8 s).getLast? = some 0)
    (h : Registers.write_str U s r = .ok u t) {r' t' : Registers}
    (hoff : roundUp IntTy.usize.ty.align r'.offset = roundUp IntTy.usize.ty.align r.offset)
    (hmem : Memory.AgreeOn r.offset t.offset r'.mem t.mem)
    (hread : Registers.read_str U r' = .ok s' t') : s' ≠ s := by
  obtain ⟨raw, mid, hmid, _, _, _, hload⟩ := Registers.write_str_layout h hoff hmem
  obtain ⟨raw', mid', hmid', hbytes⟩ := Registers.read_str_success hread
  rw [hmid] at hmid'
  cases hmid'
  rw [hload] at hbytes
  rintro rfl
  exact stripNul_ne hs hbytes.symm

end l4.utcb
