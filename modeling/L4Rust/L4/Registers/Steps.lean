import L4Rust.L4.Registers

open l4.error

namespace l4.utcb

theorem Ty.align_pos (T : Ty) : 0 < T.align := Nat.two_pow_pos _

theorem Ty.align_lt (T : Ty) : T.align ≤ 2 ^ 63 :=
  Nat.pow_le_pow_right (by decide) (Nat.le_of_lt_succ T.align_log_lt)

theorem checked_add_of_lt {a b : Nat} (h : a + b < 2 ^ 64) : checked_add a b = some (a + b) := if_pos h

theorem checked_mul_of_lt {a b : Nat} (h : a * b < 2 ^ 64) : checked_mul a b = some (a * b) := if_pos h

theorem eq_of_checked_add {a b c : Nat} (h : checked_add a b = some c) : c = a + b := by
  unfold checked_add at h
  split at h
  · exact (Option.some.inj h).symm
  · cases h

theorem eq_of_checked_mul {a b c : Nat} (h : checked_mul a b = some c) : c = a * b := by
  unfold checked_mul at h
  split at h
  · exact (Option.some.inj h).symm
  · cases h

/-- The bit trick rounds up to the alignment whenever the sum does not overflow. -/
theorem align_offset_eq_some_iff {T : Ty} {off start : Nat} :
    align_offset T off = some start ↔ off + T.align < 2 ^ 64 ∧ start = roundUp T.align off := by
  unfold align_offset
  by_cases h : off + T.align < 2 ^ 64
  · have hsum : checked_add off T.align = some (off + T.align) := checked_add_of_lt h
    have hmask := Alignment.and_mask_eq_div_mul (Nat.le_of_lt T.align_log_lt)
      (show off + T.align - 1 < 2 ^ 64 by omega)
    have hround : (off + T.align - 1) &&& (2 ^ 64 - 1 - (T.align - 1)) = roundUp T.align off := hmask
    simp only [hsum, bind, Option.bind_some, pure, Option.some.injEq, hround, h, true_and, eq_comm]
  · have hsum : checked_add off T.align = none := if_neg h
    simp only [hsum, bind, Option.bind_none, reduceCtorEq, h, false_and]

/-- An offset inside a register file never overflows when it is aligned. -/
theorem align_offset_of_lt (T : Ty) {off : Nat} (h : off < 2 ^ 63) :
    align_offset T off = some (roundUp T.align off) := by
  have hle := T.align_lt
  exact align_offset_eq_some_iff.mpr ⟨by omega, rfl⟩

theorem align_offset_zero (T : Ty) : align_offset T 0 = some 0 := by
  rw [align_offset_of_lt T (Nat.two_pow_pos 63), Alignment.roundUp_of_dvd T.align_pos (Nat.dvd_zero _)]

theorem le_of_align_offset {T : Ty} {off start : Nat} (h : align_offset T off = some start) :
    off ≤ start := by
  obtain ⟨_, rfl⟩ := align_offset_eq_some_iff.mp h
  exact Alignment.le_roundUp T.align_pos off

theorem bind_l4_err_if_eq_ok_iff {α : Type} {condition : Prop} [Decidable condition]
    {e : GenericErr} {f : Unit → Exec Error Registers α} {r t : Registers} {a : α} :
    (l4_err_if condition e >>= f) r = .ok a t ↔ ¬ condition ∧ f () r = .ok a t := by
  unfold l4_err_if
  by_cases h : condition <;> simp [h, Exec.bind_apply]

variable {U : UtcbRegSize} {r t : Registers}

/-- Behind the check of its end, a range is inside the registers. -/
theorem fits_of_bind_end {α : Type} {start size : Nat} {e : Error} {tooLong : GenericErr}
    {f : Nat → Exec Error Registers α} {a : α}
    (h : (do
      let stop ← Exec.ok_or (checked_add start size) e
      l4_err_if (stop > U.BUF_SIZE) tooLong
      f stop) r = .ok a t) :
    start + size ≤ U.BUF_SIZE ∧ f (start + size) r = .ok a t := by
  rw [Exec.bind_ok_or_eq_ok_iff] at h
  obtain ⟨stop, hstop, h⟩ := h
  rw [bind_l4_err_if_eq_ok_iff] at h
  obtain ⟨hfits, h⟩ := h
  obtain rfl := eq_of_checked_add hstop
  exact ⟨Nat.le_of_not_lt hfits, h⟩

/-- A successful write put the value at the aligned offset, inside the
registers, and moved the offset behind it. -/
theorem Registers.write_success {T : Ty} {val : T.Value} {u : Unit}
    (h : Registers.write U T val r = .ok u t) :
    ∃ start, align_offset T r.offset = some start ∧ start + T.size ≤ U.BUF_SIZE ∧
      t = ⟨r.mem.store start val.bytes, start + T.size,
        ⟨.write, start, start + T.size⟩ :: r.trace⟩ := by
  unfold Registers.write at h
  rw [Exec.bind_get, Exec.bind_checked_eq_ok_iff] at h
  obtain ⟨start, hstart, h⟩ := h
  obtain ⟨hfits, h⟩ := fits_of_bind_end h
  cases h
  refine ⟨start, hstart, hfits, ?_⟩
  rw [val.length_bytes]

theorem Registers.write_of_fits {T : Ty} {val : T.Value} {start : Nat}
    (hstart : align_offset T r.offset = some start) (hfits : start + T.size ≤ U.BUF_SIZE) :
    Registers.write U T val r = .ok () ⟨r.mem.store start val.bytes, start + T.size,
      ⟨.write, start, start + T.size⟩ :: r.trace⟩ := by
  have hbuf := U.buf_size_lt
  have hstop := checked_add_of_lt (show start + T.size < 2 ^ 64 by omega)
  simp only [Registers.write, Exec.bind_apply, Exec.get_apply, hstart, Exec.checked_some,
    Exec.pure_apply, hstop, Exec.ok_or_some, l4_err_if, if_neg (Nat.not_lt.mpr hfits), assign,
    set_offset, Exec.modify_apply, val.length_bytes]

/-- A successful read took the value at the aligned offset. -/
theorem Registers.read_success {T : Ty} {val : T.Value} (h : Registers.read U T r = .ok val t) :
    ∃ start, align_offset T r.offset = some start ∧ start + T.size ≤ U.BUF_SIZE ∧
      val = T.valueAt r.mem start ∧
      t = ⟨r.mem, start + T.size, ⟨.read, start, start + T.size⟩ :: r.trace⟩ := by
  unfold Registers.read at h
  rw [Exec.bind_get, Exec.bind_checked_eq_ok_iff] at h
  obtain ⟨start, hstart, h⟩ := h
  obtain ⟨hfits, h⟩ := fits_of_bind_end h
  cases h
  exact ⟨start, hstart, hfits, rfl, rfl⟩

theorem Registers.read_of_fits {T : Ty} {start : Nat}
    (hstart : align_offset T r.offset = some start) (hfits : start + T.size ≤ U.BUF_SIZE) :
    Registers.read U T r = .ok (T.valueAt r.mem start)
      ⟨r.mem, start + T.size, ⟨.read, start, start + T.size⟩ :: r.trace⟩ := by
  have hbuf := U.buf_size_lt
  have hstop := checked_add_of_lt (show start + T.size < 2 ^ 64 by omega)
  simp only [Registers.read, Exec.bind_apply, Exec.get_apply, hstart, Exec.checked_some,
    Exec.pure_apply, hstop, Exec.ok_or_some, l4_err_if, if_neg (Nat.not_lt.mpr hfits), deref,
    set_offset, Exec.modify_apply]

/-- A successful skip moved the offset as a write would have. -/
theorem Registers.skip_success {T : Ty} {u : Unit} (h : Registers.skip U T r = .ok u t) :
    ∃ start, align_offset T r.offset = some start ∧ start + T.size ≤ U.BUF_SIZE ∧
      t = { r with offset := start + T.size } := by
  unfold Registers.skip at h
  rw [Exec.bind_get, Exec.bind_checked_eq_ok_iff] at h
  obtain ⟨start, hstart, h⟩ := h
  obtain ⟨hfits, h⟩ := fits_of_bind_end h
  cases h
  exact ⟨start, hstart, hfits, rfl⟩

theorem Registers.skip_of_fits {T : Ty} {start : Nat}
    (hstart : align_offset T r.offset = some start) (hfits : start + T.size ≤ U.BUF_SIZE) :
    Registers.skip U T r = .ok () { r with offset := start + T.size } := by
  have hbuf := U.buf_size_lt
  have hstop := checked_add_of_lt (show start + T.size < 2 ^ 64 by omega)
  simp only [Registers.skip, Exec.bind_apply, Exec.get_apply, hstart, Exec.checked_some,
    Exec.pure_apply, hstop, Exec.ok_or_some, l4_err_if, if_neg (Nat.not_lt.mpr hfits),
    set_offset, Exec.modify_apply]

theorem length_flatMap_bytes {T : Ty} (vals : List T.Value) :
    (vals.flatMap Ty.Value.bytes).length = vals.length * T.size := by
  induction vals with
  | nil => simp
  | cons v vals ih =>
    rw [List.flatMap_cons, List.length_append, ih, v.length_bytes, List.length_cons, Nat.succ_mul,
      Nat.add_comm]

/-- A successful slice write: the length prefix, then the elements back to back. -/
theorem Registers.write_slice_success {Len : IntTy} {T : Ty} {vals : List T.Value} {u : Unit}
    (h : Registers.write_slice U Len T vals r = .ok u t) :
    ∃ len mid start, Len.from_usize vals.length = some len ∧
      Registers.write U Len.ty len r = .ok () mid ∧ align_offset T mid.offset = some start ∧
      start + vals.length * T.size ≤ U.BUF_SIZE ∧
      t = ⟨mid.mem.store start (vals.flatMap Ty.Value.bytes), start + vals.length * T.size,
        ⟨.write, start, start + vals.length * T.size⟩ :: mid.trace⟩ := by
  unfold Registers.write_slice at h
  rw [Exec.bind_ok_or_eq_ok_iff] at h
  obtain ⟨len, hlen, h⟩ := h
  rw [Exec.bind_eq_ok_iff] at h
  obtain ⟨_, mid, hmid, h⟩ := h
  rw [Exec.bind_get, Exec.bind_checked_eq_ok_iff] at h
  obtain ⟨start, hstart, h⟩ := h
  rw [Exec.bind_ok_or_eq_ok_iff] at h
  obtain ⟨size, hsize, h⟩ := h
  obtain rfl := eq_of_checked_mul hsize
  obtain ⟨hfits, h⟩ := fits_of_bind_end h
  cases h
  refine ⟨len, mid, start, hlen, hmid, hstart, hfits, ?_⟩
  rw [length_flatMap_bytes]

/-- A successful slice read: a length, then that many elements back to back. -/
theorem Registers.read_slice_success {Len : IntTy} {T : Ty} {vals : List T.Value}
    (h : Registers.read_slice U Len T r = .ok vals t) :
    ∃ raw mid len start, Registers.read U Len.ty r = .ok raw mid ∧ Len.to_usize raw = some len ∧
      align_offset T mid.offset = some start ∧ start + len * T.size ≤ U.BUF_SIZE ∧
      vals = (List.range len).map (fun i => T.valueAt mid.mem (start + i * T.size)) ∧
      t = ⟨mid.mem, start + len * T.size, ⟨.slice, start, start + len * T.size⟩ :: mid.trace⟩ := by
  unfold Registers.read_slice at h
  rw [Exec.bind_eq_ok_iff] at h
  obtain ⟨raw, mid, hmid, h⟩ := h
  rw [Exec.bind_ok_or_eq_ok_iff] at h
  obtain ⟨len, hlen, h⟩ := h
  rw [Exec.bind_get, Exec.bind_checked_eq_ok_iff] at h
  obtain ⟨start, hstart, h⟩ := h
  rw [Exec.bind_ok_or_eq_ok_iff] at h
  obtain ⟨size, hsize, h⟩ := h
  obtain rfl := eq_of_checked_mul hsize
  obtain ⟨hfits, h⟩ := fits_of_bind_end h
  cases h
  exact ⟨raw, mid, len, start, hmid, hlen, hstart, hfits, rfl, rfl⟩

theorem Registers.read_slice_of_fits {Len : IntTy} {T : Ty} {raw : Len.ty.Value} {mid : Registers}
    {len start : Nat} (hmid : Registers.read U Len.ty r = .ok raw mid)
    (hlen : Len.to_usize raw = some len) (hstart : align_offset T mid.offset = some start)
    (hfits : start + len * T.size ≤ U.BUF_SIZE) :
    Registers.read_slice U Len T r =
      .ok ((List.range len).map fun i => T.valueAt mid.mem (start + i * T.size))
        ⟨mid.mem, start + len * T.size, ⟨.slice, start, start + len * T.size⟩ :: mid.trace⟩ := by
  have hbuf := U.buf_size_lt
  have hsize := checked_mul_of_lt (show len * T.size < 2 ^ 64 by omega)
  have hstop := checked_add_of_lt (show start + len * T.size < 2 ^ 64 by omega)
  simp only [Registers.read_slice, Exec.bind_apply, hmid, hlen, Exec.ok_or_some, Exec.pure_apply,
    Exec.get_apply, hstart, Exec.checked_some, hsize, hstop, l4_err_if,
    if_neg (Nat.not_lt.mpr hfits), from_raw_parts, set_offset, Exec.modify_apply]

end l4.utcb
