import L4Rust.L4.Registers.Steps

open l4.error Cursor

namespace l4.utcb

variable {U : UtcbRegSize}

/-- Back-to-back elements are recovered one by one. -/
theorem valuesAt_of_load {T : Ty} (m : Memory) (vals : List T.Value) (start : Nat)
    (h : m.load start (vals.length * T.size) = vals.flatMap Ty.Value.bytes) :
    (List.range vals.length).map (fun i => T.valueAt m (start + i * T.size)) = vals := by
  induction vals generalizing start with
  | nil => rfl
  | cons v vals ih =>
    have hsplit : (v :: vals).length * T.size = T.size + vals.length * T.size := by
      rw [List.length_cons, Nat.succ_mul, Nat.add_comm]
    rw [hsplit, Memory.load_add, List.flatMap_cons] at h
    obtain ⟨hhead, htail⟩ := List.append_inj h (by rw [Memory.length_load, v.length_bytes])
    have hfirst : T.valueAt m start = v := Ty.Value.ext hhead
    rw [List.length_cons, List.range_succ_eq_map, List.map_cons, List.map_map, Nat.zero_mul,
      Nat.add_zero, hfirst]
    congr 1
    have hrest := ih (start + T.size) htail
    rw [← hrest, List.length_map, List.length_range]
    apply List.map_congr_left
    intro i _
    have hshift : start + (i + 1) * T.size = start + T.size + i * T.size := by
      rw [Nat.succ_mul]
      omega
    simp only [Function.comp_apply, Nat.succ_eq_add_one, hshift]

/-- A length that the prefix type can hold is read back. -/
theorem IntTy.to_usize_of_from_usize {Len : IntTy} {n : Nat} {len : Len.ty.Value} (hn : n < 2 ^ 64)
    (h : Len.from_usize n = some len) : Len.to_usize len = some n := by
  unfold IntTy.from_usize at h
  split at h
  · next hbound =>
    cases h
    have hpow : 2 ^ (8 * 2 ^ Len.sizeLog) = 256 ^ 2 ^ Len.sizeLog := by rw [Nat.pow_mul]
    have hle : Len.bound ≤ 256 ^ 2 ^ Len.sizeLog := by
      rw [← hpow]
      unfold IntTy.bound
      split
      · exact Nat.pow_le_pow_right (by decide) (Nat.sub_le _ _)
      · exact le_rfl
    have hdecode : LittleEndian.decode (Len.literal n).bytes = n :=
      LittleEndian.decode_encode_of_lt (hbound.trans_le hle)
    simp only [IntTy.to_usize, hdecode, hbound, hn, and_self, if_true]
  · cases h

theorem IntTy.decode_of_to_usize {I : IntTy} {v : I.ty.Value} {n : Nat} (h : I.to_usize v = some n) :
    LittleEndian.decode v.bytes = n := by
  simp only [IntTy.to_usize] at h
  split at h
  · exact Option.some.inj h
  · cases h

theorem Registers.write_appends (T : Ty) (val : T.Value) : Appends (Registers.write U T val) := by
  intro s t h
  obtain ⟨start, hstart, _, rfl⟩ := Registers.write_success h
  have hle := le_of_align_offset hstart
  exact ⟨hle.trans (Nat.le_add_right _ _), (Memory.agreeOn_store_below _ _ _).mono le_rfl hle⟩

/-- A reader at another offset finds the same aligned start. -/
theorem align_offset_congr {T : Ty} {off off' start : Nat} (hstart : align_offset T off = some start)
    {size : Nat} (hfits : start + size ≤ U.BUF_SIZE)
    (hround : roundUp T.align off' = roundUp T.align off) : align_offset T off' = some start := by
  obtain ⟨_, rfl⟩ := align_offset_eq_some_iff.mp hstart
  have hle := Alignment.le_roundUp T.align_pos off'
  have hbuf := U.buf_size_lt
  rw [align_offset_of_lt T (by omega), hround]

theorem Registers.write_readsBack (T : Ty) (val : T.Value) :
    ReadsBackFrom T.align (Registers.write U T val) (Registers.read U T) val := by
  intro s t h s' hoff hmem
  obtain ⟨start, hstart, hfits, rfl⟩ := Registers.write_success h
  simp only [mem_registers, offset_registers] at hoff hmem
  have hstart' := align_offset_congr hstart hfits hoff
  have hle := le_of_align_offset hstart
  have hval : T.valueAt s'.mem start = val := by
    apply Ty.Value.ext
    have hload := Memory.load_congr hmem hle le_rfl
    have hback := Memory.load_store s.mem start val.bytes
    rw [val.length_bytes] at hback
    exact hload.trans hback
  have hread : Registers.read U T s' = _ := Registers.read_of_fits hstart' hfits
  rw [hval] at hread
  exact ⟨_, hread, rfl, rfl⟩

theorem Registers.write_slice_appends (Len : IntTy) (T : Ty) (vals : List T.Value) :
    Appends (Registers.write_slice U Len T vals) := by
  intro s t h
  obtain ⟨len, mid, start, _, hmid, hstart, _, rfl⟩ := Registers.write_slice_success h
  obtain ⟨hoff, hkeep⟩ := Registers.write_appends Len.ty len s mid hmid
  simp only [mem_registers, offset_registers] at hoff hkeep ⊢
  have hle := le_of_align_offset hstart
  refine ⟨by omega, ?_⟩
  exact ((Memory.agreeOn_store_below _ _ _).mono le_rfl (by omega)).trans hkeep

/-- The length prefix and the elements are found where they were put: the
elements start behind the prefix, so storing them leaves it intact. -/
theorem Registers.write_slice_readsBack (Len : IntTy) (T : Serialisable)
    (vals : List T.toTy.Value) :
    ReadsBackFrom Len.ty.align (Registers.write_slice U Len T.toTy vals)
      (Registers.read_slice U Len T.toTy) vals := by
  intro s t h s' hoff hmem
  obtain ⟨len, mid, start, hlen, hmid, hstart, hfits, rfl⟩ := Registers.write_slice_success h
  simp only [mem_registers, offset_registers] at hoff hmem
  have hle := le_of_align_offset hstart
  obtain ⟨hmono, _⟩ := Registers.write_appends Len.ty len s mid hmid
  simp only [offset_registers] at hmono
  have hcount : vals.length < 2 ^ 64 := by
    have hbuf := U.buf_size_lt
    have hmul : vals.length ≤ vals.length * T.size := Nat.le_mul_of_pos_right _ T.size_pos
    omega
  have hprefix : Memory.AgreeOn s.offset mid.offset s'.mem mid.mem :=
    (hmem.mono le_rfl (by omega)).trans
      ((Memory.agreeOn_store_below _ _ _).mono (Nat.zero_le _) hle)
  obtain ⟨mid', hmid', hoff', hmem'⟩ := Registers.write_readsBack Len.ty len s mid hmid s' hoff hprefix
  simp only [mem_registers, offset_registers] at hoff' hmem'
  have hload : mid'.mem.load start (vals.length * T.size) = vals.flatMap Ty.Value.bytes := by
    have hback := Memory.load_store mid.mem start (vals.flatMap Ty.Value.bytes)
    rw [length_flatMap_bytes] at hback
    rw [hmem']
    exact (Memory.load_congr hmem (by omega) le_rfl).trans hback
  have hread := Registers.read_slice_of_fits hmid' (IntTy.to_usize_of_from_usize hcount hlen)
    (by rw [hoff']; exact hstart) hfits
  rw [valuesAt_of_load mid'.mem vals start hload] at hread
  exact ⟨_, hread, rfl, hmem'⟩

theorem Registers.skip_appends (T : Ty) : Appends (Registers.skip U T) := by
  intro s t h
  obtain ⟨start, hstart, _, rfl⟩ := Registers.skip_success h
  exact ⟨(le_of_align_offset hstart).trans (Nat.le_add_right _ _), .refl _ _ _⟩

theorem Registers.skip_readsBack (T : Ty) :
    ReadsBackFrom T.align (Registers.skip U T) (Registers.skip U T) () := by
  intro s t h s' hoff _
  obtain ⟨start, hstart, hfits, rfl⟩ := Registers.skip_success h
  simp only [offset_registers] at hoff
  exact ⟨_, Registers.skip_of_fits (align_offset_congr hstart hfits hoff) hfits, rfl, rfl⟩

/-- One call on the writing side, with the value it passes. -/
inductive Put where
  | write (T : Serialisable) (val : T.toTy.Value)
  | write_slice (Len : IntTy) (T : Serialisable) (vals : List T.toTy.Value)
  | skip (T : Serialisable)

/-- One call on the reading side. -/
inductive Fetch where
  | read (T : Serialisable)
  | read_slice (Len : IntTy) (T : Serialisable)
  | skip (T : Serialisable)

/-- What a reading call returns. -/
inductive Fetched where
  | value (T : Serialisable) (val : T.toTy.Value)
  | slice (T : Serialisable) (vals : List T.toTy.Value)
  | skipped

def Put.run (U : UtcbRegSize) : Put → Exec Error Registers Unit
  | .write T val => Registers.write U T.toTy val
  | .write_slice Len T vals => Registers.write_slice U Len T.toTy vals
  | .skip T => Registers.skip U T.toTy

def Fetch.run (U : UtcbRegSize) : Fetch → Exec Error Registers Fetched
  | .read T => do
    let val ← Registers.read U T.toTy
    pure (.value T val)
  | .read_slice Len T => do
    let vals ← Registers.read_slice U Len T.toTy
    pure (.slice T vals)
  | .skip T => do
    Registers.skip U T.toTy
    pure .skipped

/-- The call that reads what a writing call put. -/
def Put.fetch : Put → Fetch
  | .write T _ => .read T
  | .write_slice Len T _ => .read_slice Len T
  | .skip T => .skip T

def Put.fetched : Put → Fetched
  | .write T val => .value T val
  | .write_slice _ T vals => .slice T vals
  | .skip _ => .skipped

theorem Put.run_appends (put : Put) : Appends (put.run U) := by
  cases put with
  | write T val => exact Registers.write_appends T.toTy val
  | write_slice Len T vals => exact Registers.write_slice_appends Len T.toTy vals
  | skip T => exact Registers.skip_appends T.toTy

theorem Put.run_readsBack (put : Put) : ReadsBack (put.run U) (put.fetch.run U) put.fetched := by
  intro s t h s' hoff hmem
  cases put with
  | write T val =>
    obtain ⟨t', hread, hrest⟩ := (Registers.write_readsBack T.toTy val).readsBack s t h s' hoff hmem
    exact ⟨t', Exec.bind_of_ok hread, hrest⟩
  | write_slice Len T vals =>
    obtain ⟨t', hread, hrest⟩ :=
      (Registers.write_slice_readsBack Len T vals).readsBack s t h s' hoff hmem
    exact ⟨t', Exec.bind_of_ok hread, hrest⟩
  | skip T =>
    obtain ⟨t', hskip, hrest⟩ := (Registers.skip_readsBack T.toTy).readsBack s t h s' hoff hmem
    exact ⟨t', Exec.bind_of_ok hskip, hrest⟩

/-- Marshalling round trip: after a sequence of successful writes on fresh
registers and a reset, the corresponding reads all succeed, return the same
values in the same order, and stop at the same offset. -/
theorem marshalling_round_trip (U : UtcbRegSize) (mem : Memory) (puts : List Put) {t : Registers}
    (hput : runAll (puts.map (Put.run U)) (Registers.from_raw mem) = .ok () t) :
    ∃ t', (do
        Registers.reset
        collect (puts.map fun put : Put => put.fetch.run U)) t = .ok (puts.map Put.fetched) t' ∧
      t'.offset = t.offset := by
  have hback : ReadsBack (runAll (puts.map (Put.run U)))
      (collect (puts.map fun put : Put => put.fetch.run U)) (puts.map Put.fetched) :=
    .runAll (fun put _ => put.run_appends) (fun put _ => put.run_readsBack)
  obtain ⟨t', hrun, hoff, _⟩ := hback _ t hput { t with offset := 0 } rfl (.refl _ _ _)
  exact ⟨t', hrun, hoff⟩

/-- A word, a skipped byte and a slice of half-words with a byte-sized length. -/
def samplePuts : List Put :=
  [.write IntTy.u32.serialisable (IntTy.u32.literal 7), .skip IntTy.u8.serialisable,
    .write_slice .u8 IntTy.u16.serialisable [IntTy.u16.literal 258, IntTy.u16.literal 3]]

/-- A word, a byte that is skipped, and a slice are read back from registers of 16 bytes that held other
bytes before. -/
theorem marshalling_round_trip_sample :
    ∃ t t', runAll (samplePuts.map (Put.run ⟨16, by decide⟩)) (Registers.from_raw fun _ => 0xff) =
        .ok () t ∧
      (do
        Registers.reset
        collect (samplePuts.map fun put : Put => put.fetch.run ⟨16, by decide⟩)) t =
          .ok (samplePuts.map Put.fetched) t' ∧ t'.offset = t.offset := by
  obtain ⟨t', hrun, hoff⟩ := marshalling_round_trip ⟨16, by decide⟩ (fun _ => 0xff) samplePuts rfl
  exact ⟨_, t', rfl, hrun, hoff⟩

end l4.utcb
