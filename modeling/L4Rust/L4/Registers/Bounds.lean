import L4Rust.L4.Registers.Steps

open l4.error Exec

namespace l4.utcb

variable {U : UtcbRegSize}

/-- The offset and every byte range used so far lie inside the registers. -/
structure Registers.InBounds (U : UtcbRegSize) (r : Registers) : Prop where
  offset_le : r.offset ≤ U.BUF_SIZE
  trace_le : ∀ access ∈ r.trace, access.start ≤ access.stop ∧ access.stop ≤ U.BUF_SIZE

theorem Registers.InBounds.record {r : Registers} (h : r.InBounds U) (mem : Memory) (kind : AccessKind)
    {start stop offset : Nat} (hle : start ≤ stop) (hstop : stop ≤ U.BUF_SIZE)
    (hoffset : offset ≤ U.BUF_SIZE) :
    Registers.InBounds U ⟨mem, offset, ⟨kind, start, stop⟩ :: r.trace⟩ := by
  refine ⟨hoffset, ?_⟩
  intro access haccess
  rcases List.mem_cons.mp haccess with rfl | hold
  · exact ⟨hle, hstop⟩
  · exact h.trace_le access hold

/-- A call that never aborts and leaves everything in bounds, whether it
succeeds or fails. -/
def StaysInBounds {α : Type} (U : UtcbRegSize) (x : Exec Error Registers α) : Prop :=
  Triple (Registers.InBounds U) x (fun _ => Registers.InBounds U) (fun _ => Registers.InBounds U)

/-- The end of a range is computed without overflow and checked against the
size before the range is used. -/
theorem bounded_end {α : Type} {r : Registers} {start size : Nat} {e : Error} {e' : GenericErr}
    {k : Nat → Exec Error Registers α} (hr : r.InBounds U)
    (hk : start + size ≤ U.BUF_SIZE → Triple (fun t => t = r) (k (start + size))
      (fun _ => Registers.InBounds U) (fun _ => Registers.InBounds U)) :
    Triple (fun t => t = r)
      (do
        let stop ← ok_or (checked_add start size) e
        l4_err_if (stop > U.BUF_SIZE) e'
        k stop)
      (fun _ => Registers.InBounds U) (fun _ => Registers.InBounds U) := by
  have hkeep : ∀ t, t = r → t.InBounds U := by
    rintro t rfl
    exact hr
  refine Triple.bind_ok_or (fun t ht => hkeep t ht) ?_
  intro stop hstop
  obtain rfl := eq_of_checked_add hstop
  unfold l4_err_if
  split
  · exact Triple.bind (R := fun _ _ => False) (Triple.throw hkeep) (fun _ _ h => h.elim)
  · next hfits => exact hk (Nat.le_of_not_lt hfits)

/-- Aligning an offset that is in bounds never overflows. -/
theorem align_offset_in_bounds {r : Registers} (hr : r.InBounds U) (T : Ty) :
    align_offset T r.offset = some (roundUp T.align r.offset) := by
  have hoff := hr.offset_le
  have hbuf := U.buf_size_lt
  exact align_offset_of_lt T (by omega)

theorem Registers.write_in_bounds (T : Ty) (val : T.Value) :
    StaysInBounds U (Registers.write U T val) := by
  apply Triple.bind_get
  intro r hr
  apply Triple.bind_checked (align_offset_in_bounds hr T)
  apply bounded_end hr
  intro hfits
  apply Triple.bind_modify
  rintro t rfl
  refine hr.record _ _ ?_ ?_ hfits
  · exact Nat.le_add_right _ _
  · rw [val.length_bytes]
    exact hfits

theorem Registers.read_in_bounds (T : Ty) : StaysInBounds U (Registers.read U T) := by
  apply Triple.bind_get
  intro r hr
  apply Triple.bind_checked (align_offset_in_bounds hr T)
  apply bounded_end hr
  rintro hfits t rfl
  exact hr.record _ _ (Nat.le_add_right _ _) hfits hfits

theorem Registers.skip_in_bounds (T : Ty) : StaysInBounds U (Registers.skip U T) := by
  apply Triple.bind_get
  intro r hr
  apply Triple.bind_checked (align_offset_in_bounds hr T)
  apply bounded_end hr
  rintro hfits t rfl
  exact ⟨hfits, hr.trace_le⟩

theorem Registers.write_slice_in_bounds (Len : IntTy) (T : Ty) (vals : List T.Value) :
    StaysInBounds U (Registers.write_slice U Len T vals) := by
  refine Triple.bind_ok_or (fun _ hr => hr) ?_
  intro len _
  apply Triple.bind (Registers.write_in_bounds Len.ty len)
  intro _
  apply Triple.bind_get
  intro r hr
  apply Triple.bind_checked (align_offset_in_bounds hr T)
  refine Triple.bind_ok_or (by rintro t rfl; exact hr) ?_
  intro size hsize
  apply bounded_end hr
  intro hfits
  apply Triple.bind_modify
  rintro t rfl
  obtain rfl := eq_of_checked_mul hsize
  refine hr.record _ _ (Nat.le_add_right _ _) ?_ hfits
  rw [length_flatMap_bytes]
  exact hfits

theorem Registers.write_str_in_bounds (val : String) :
    StaysInBounds U (Registers.write_str U val) :=
  Registers.write_slice_in_bounds _ _ _

/-- A length read from the registers is only trusted after the range it spans
was checked, however large it is. -/
theorem Registers.read_slice_in_bounds (Len : IntTy) (T : Ty) :
    StaysInBounds U (Registers.read_slice U Len T) := by
  apply Triple.bind (Registers.read_in_bounds Len.ty)
  intro raw
  refine Triple.bind_ok_or (fun _ hr => hr) ?_
  intro len _
  apply Triple.bind_get
  intro r hr
  apply Triple.bind_checked (align_offset_in_bounds hr T)
  refine Triple.bind_ok_or (by rintro t rfl; exact hr) ?_
  intro size hsize
  apply bounded_end hr
  rintro hfits t rfl
  obtain rfl := eq_of_checked_mul hsize
  exact hr.record _ _ (Nat.le_add_right _ _) hfits hfits

theorem Registers.read_str_in_bounds : StaysInBounds U (Registers.read_str U) := by
  apply Triple.bind (Registers.read_in_bounds IntTy.usize.ty)
  intro raw
  apply Triple.bind_get
  intro r hr
  apply bounded_end hr
  intro hfits
  -- The view is handed out before the bytes are decoded, so a failed decoding
  -- leaves it in the trace with the offset unmoved.
  apply Triple.bind (R := fun _ t => t.InBounds U)
  · rintro t rfl
    refine hr.record _ _ (Nat.le_add_right _ _) ?_ hr.offset_le
    simpa [IntTy.ty, Ty.natural, IntTy.sizeLog] using hfits
  · intro slice
    dsimp only
    cases from_utf8 _ with
    | error e => exact Triple.throw fun _ ht => ht
    | ok str =>
      intro t ht
      exact ⟨hfits, ht.trace_le⟩

theorem Registers.reset_in_bounds : StaysInBounds U Registers.reset :=
  fun _ hr => ⟨Nat.zero_le _, hr.trace_le⟩

/-- One call on the registers. -/
inductive RegOp where
  | write (T : Ty) (val : T.Value)
  | read (T : Ty)
  | write_slice (Len : IntTy) (T : Ty) (vals : List T.Value)
  | write_str (val : String)
  | read_slice (Len : IntTy) (T : Ty)
  | read_str
  | skip (T : Ty)
  | reset

/-- Make the call and drop what it returns. -/
def RegOp.run (U : UtcbRegSize) : RegOp → Exec Error Registers Unit
  | .write T val => Registers.write U T val
  | .read T => do
    let _ ← Registers.read U T
  | .write_slice Len T vals => Registers.write_slice U Len T vals
  | .write_str val => Registers.write_str U val
  | .read_slice Len T => do
    let _ ← Registers.read_slice U Len T
  | .read_str => do
    let _ ← Registers.read_str U
  | .skip T => Registers.skip U T
  | .reset => Registers.reset

/-- The registers after a call, whether it returned a value or an error.
Without a result an offset computation overflowed. -/
def RegOp.step (U : UtcbRegSize) (r : Registers) (op : RegOp) : Option Registers :=
  match op.run U r with
  | .ok _ t => some t
  | .err _ t => some t
  | .abort => none

/-- The registers after a sequence of calls. -/
def Registers.afterCalls (U : UtcbRegSize) (ops : List RegOp) (r : Registers) : Option Registers :=
  ops.foldlM (RegOp.step U) r

theorem RegOp.run_in_bounds (op : RegOp) : StaysInBounds U (op.run U) := by
  cases op with
  | write T val => exact Registers.write_in_bounds T val
  | read T => exact Triple.bind (Registers.read_in_bounds T) fun _ => Triple.pure fun _ h => h
  | write_slice Len T vals => exact Registers.write_slice_in_bounds Len T vals
  | write_str val => exact Registers.write_str_in_bounds val
  | read_slice Len T =>
    exact Triple.bind (Registers.read_slice_in_bounds Len T) fun _ => Triple.pure fun _ h => h
  | read_str => exact Triple.bind Registers.read_str_in_bounds fun _ => Triple.pure fun _ h => h
  | skip T => exact Registers.skip_in_bounds T
  | reset => exact Registers.reset_in_bounds

theorem RegOp.step_in_bounds {r : Registers} (hr : r.InBounds U) (op : RegOp) :
    ∃ t, op.step U r = some t ∧ t.InBounds U := by
  have hrun := op.run_in_bounds r hr
  unfold RegOp.step
  cases h : op.run U r with
  | ok u t =>
    rw [h] at hrun
    exact ⟨t, rfl, hrun⟩
  | err e t =>
    rw [h] at hrun
    exact ⟨t, rfl, hrun⟩
  | abort =>
    rw [h] at hrun
    exact hrun.elim

theorem Registers.afterCalls_in_bounds {r : Registers} (hr : r.InBounds U) (ops : List RegOp) :
    ∃ t, r.afterCalls U ops = some t ∧ t.InBounds U := by
  induction ops generalizing r with
  | nil => exact ⟨r, rfl, hr⟩
  | cons op ops ih =>
    obtain ⟨mid, hmid, hmidIn⟩ := RegOp.step_in_bounds hr op
    obtain ⟨t, ht, htIn⟩ := ih hmidIn
    refine ⟨t, ?_, htIn⟩
    rw [Registers.afterCalls, List.foldlM_cons, hmid]
    exact ht

/-- Whatever the registers hold and whatever calls are made on them, failed
ones included, no offset computation overflows, every byte range read, written
or handed out as a slice lies inside the registers, and so does the offset. -/
theorem register_accesses_in_bounds (U : UtcbRegSize) (mem : Memory) (ops : List RegOp) :
    ∃ r, (Registers.from_raw mem).afterCalls U ops = some r ∧ r.offset ≤ U.BUF_SIZE ∧
      ∀ access ∈ r.trace, access.start ≤ access.stop ∧ access.stop ≤ U.BUF_SIZE := by
  have hinit : (Registers.from_raw mem).InBounds U := ⟨Nat.zero_le _, by simp [Registers.from_raw]⟩
  obtain ⟨r, hrun, hr⟩ := Registers.afterCalls_in_bounds hinit ops
  exact ⟨r, hrun, hr.offset_le, hr.trace_le⟩

end l4.utcb
