import L4Rust.L4.Registers.Bounds
import L4Rust.L4.Utcb

open l4.error Exec

namespace l4.utcb

variable {U : UtcbRegSize} {α : Type}

/-- What the registers hold and where the next access starts. The record of
accesses is no part of the program's state. -/
def Registers.contents (r : Registers) : Memory × Nat := (r.mem, r.offset)

/-- Where the next value starts is only computed. -/
theorem aligned_failsUnchanged (T : Ty) {k : Nat → Exec Error Registers α}
    (hk : ∀ start, FailsUnchanged Registers.contents (k start)) :
    FailsUnchanged Registers.contents
      (do
        let self ← Exec.get
        let start ← Exec.checked (align_offset T self.offset)
        k start) := by
  apply FailsUnchanged.bind_get
  intro self
  apply FailsUnchanged.bind_checked
  intro start _
  exact hk start

/-- The end of a range is checked before anything changes. -/
theorem bounded_failsUnchanged {start size : Nat} {e : Error} {e' : GenericErr}
    {k : Nat → Exec Error Registers α} (hk : ∀ stop, FailsUnchanged Registers.contents (k stop)) :
    FailsUnchanged Registers.contents
      (do
        let stop ← ok_or (checked_add start size) e
        l4_err_if (stop > U.BUF_SIZE) e'
        k stop) := by
  apply FailsUnchanged.bind_ok_or
  intro stop _
  unfold l4_err_if
  split
  · intro r e' t h
    cases h
    rfl
  · exact hk stop

theorem Registers.write_failsUnchanged (T : Ty) (val : T.Value) :
    FailsUnchanged contents (Registers.write U T val) :=
  aligned_failsUnchanged T fun _ => bounded_failsUnchanged fun _ => .of_never nofun

theorem Registers.read_failsUnchanged (T : Ty) : FailsUnchanged contents (Registers.read U T) :=
  aligned_failsUnchanged T fun _ => bounded_failsUnchanged fun _ => .of_never nofun

theorem Registers.skip_failsUnchanged (T : Ty) : FailsUnchanged contents (Registers.skip U T) :=
  aligned_failsUnchanged T fun _ => bounded_failsUnchanged fun _ => .of_never nofun

/-- The call that a compound one starts with: it writes or reads the length in
front of the elements. A length that does not fit its type is not written. -/
def RegOp.lengthCall : RegOp → Option RegOp
  | .write_slice Len _ vals => (Len.from_usize vals.length).map (.write Len.ty)
  | .write_str val => (IntTy.usize.from_usize (utf8 val).length).map (.write IntTy.usize.ty)
  | .read_slice Len _ => some (.read Len.ty)
  | .read_str => some (.read IntTy.usize.ty)
  | .write .. | .read _ | .skip _ | .reset => none

/-- Where a failed call leaves the registers: as they were, or behind the length
in front of the elements if that was written or read. -/
def RegOp.FailsAt (U : UtcbRegSize) (op : RegOp) (r t : Registers) : Prop :=
  match op.lengthCall with
  | none => t.contents = r.contents
  | some first =>
    match first.run U r with
    | .ok _ mid => t.contents = mid.contents
    | .err _ _ => t.contents = r.contents
    | .abort => False

variable {op first : RegOp} {r t : Registers} {e : Error}

theorem RegOp.failsAt_of_none (hop : op.lengthCall = none) (h : t.contents = r.contents) :
    op.FailsAt U r t := by
  unfold FailsAt
  rw [hop]
  exact h

/-- A compound call fails in the length, or else behind it without a further
effect. -/
theorem RegOp.failsAt_of_some {β : Type} {x : Exec Error Registers β}
    {rest : β → Exec Error Registers α} (hop : op.lengthCall = some first)
    (hrun : first.run U r = (x >>= fun _ => pure ()) r) (hx : FailsUnchanged Registers.contents x)
    (hrest : ∀ b, FailsUnchanged Registers.contents (rest b))
    (h : (x >>= rest) r = .err e t) : op.FailsAt U r t := by
  unfold FailsAt
  rw [hop]
  rcases bind_eq_err_iff.mp h with hfirst | ⟨b, mid, hfirst, hsecond⟩
  · rw [bind_of_err hfirst] at hrun
    simp only [hrun]
    exact hx r e t hfirst
  · rw [bind_of_ok hfirst, pure_apply] at hrun
    simp only [hrun]
    exact hrest b mid e t hsecond

/-- A slice whose length has no value of the type of the length is not begun. -/
theorem Registers.write_slice_of_none {Len : IntTy} {T : Ty} {vals : List T.Value}
    (hlen : Len.from_usize vals.length = none) :
    Registers.write_slice U Len T vals r = .err (.Generic .InvalidArg) r := by
  unfold Registers.write_slice
  rw [hlen]
  rfl

theorem Registers.write_slice_fails {Len : IntTy} {T : Ty} {vals : List T.Value}
    (hop : op.lengthCall = (Len.from_usize vals.length).map (.write Len.ty))
    (h : Registers.write_slice U Len T vals r = .err e t) : op.FailsAt U r t := by
  cases hlen : Len.from_usize vals.length with
  | none =>
    rw [Registers.write_slice_of_none hlen] at h
    rw [hlen] at hop
    cases h
    exact RegOp.failsAt_of_none hop rfl
  | some len =>
    unfold Registers.write_slice at h
    rw [hlen] at h hop
    have hrun : RegOp.run U (.write Len.ty len) r =
        (Registers.write U Len.ty len >>= fun _ => pure ()) r := by
      rw [bind_apply, RegOp.run]
      cases Registers.write U Len.ty len r <;> rfl
    refine RegOp.failsAt_of_some hop hrun (Registers.write_failsUnchanged _ _) (fun _ => ?_) h
    refine aligned_failsUnchanged T fun _ => .bind_ok_or fun _ _ => ?_
    exact bounded_failsUnchanged fun _ => .of_never nofun

theorem Registers.read_slice_fails {Len : IntTy} {T : Ty}
    (h : Registers.read_slice U Len T r = .err e t) : RegOp.FailsAt U (.read_slice Len T) r t := by
  refine RegOp.failsAt_of_some rfl rfl (Registers.read_failsUnchanged _) (fun _ => ?_) h
  refine .bind_ok_or fun _ _ => aligned_failsUnchanged T fun _ => .bind_ok_or fun _ _ => ?_
  exact bounded_failsUnchanged fun _ => .of_never nofun

theorem Registers.read_str_fails (h : Registers.read_str U r = .err e t) :
    RegOp.FailsAt U .read_str r t := by
  refine RegOp.failsAt_of_some rfl rfl (Registers.read_failsUnchanged _) (fun raw => ?_) h
  apply FailsUnchanged.bind_get
  intro self
  apply bounded_failsUnchanged
  intro stop
  -- The view is only recorded, and the offset moves after the bytes are decoded.
  refine .bind (.of_never nofun) (by rintro s slice t h; cases h; rfl) fun slice => ?_
  dsimp only
  split
  · exact .throw _
  · exact .of_never nofun

/-- A failed call on the registers has no effect, except that of the length in
front of the elements of a slice or a string. -/
theorem RegOp.run_fails (h : op.run U r = .err e t) : op.FailsAt U r t := by
  cases op with
  | write T val => exact failsAt_of_none rfl (Registers.write_failsUnchanged T val r e t h)
  | read T =>
    rcases bind_eq_err_iff.mp h with h | ⟨_, _, _, h⟩
    · exact failsAt_of_none rfl (Registers.read_failsUnchanged T r e t h)
    · cases h
  | write_slice Len T vals => exact Registers.write_slice_fails rfl h
  | write_str val =>
    refine Registers.write_slice_fails ?_ h
    rw [List.length_map]
    rfl
  | read_slice Len T =>
    rcases bind_eq_err_iff.mp h with h | ⟨_, _, _, h⟩
    · exact Registers.read_slice_fails h
    · cases h
  | read_str =>
    rcases bind_eq_err_iff.mp h with h | ⟨_, _, _, h⟩
    · exact Registers.read_str_fails h
    · cases h
  | skip T => exact failsAt_of_none rfl (Registers.skip_failsUnchanged T r e t h)
  | reset => cases h

theorem onRegs_fails {x : Exec Error Registers α} {mr mr' : UtcbMr}
    (h : UtcbMr.onRegs x mr = .err e mr') :
    ∃ r, x mr.regs = .err e r ∧ mr' = { mr with regs := r } := by
  unfold UtcbMr.onRegs zoom at h
  cases hx : x mr.regs with
  | ok a r =>
    rw [hx] at h
    cases h
  | err e' r =>
    rw [hx] at h
    cases h
    exact ⟨r, rfl, rfl⟩
  | abort =>
    rw [hx] at h
    cases h

/-- An item is counted only after it was written. -/
theorem UtcbMr.write_item_fails {T : Ty} {val : T.Value} {mr mr' : UtcbMr}
    (h : UtcbMr.write_item T val mr = .err e mr') :
    mr'.items = mr.items ∧ mr'.regs.contents = mr.regs.contents := by
  rcases bind_eq_err_iff.mp h with h | ⟨_, _, _, h⟩
  · obtain ⟨r, hr, rfl⟩ := onRegs_fails h
    exact ⟨rfl, Registers.write_failsUnchanged T val mr.regs e r hr⟩
  · cases h

/-- A failed call leaves the offset, the bytes and the number of items as they
were, for whatever registers and arguments. Only where a slice or a string fails
behind its length, the length stays written or read. -/
theorem failed_calls_keep_registers :
    (∀ (U : UtcbRegSize) (op : RegOp) (r t : Registers) (e : Error),
      op.run U r = .err e t → op.FailsAt U r t) ∧
    (∀ (op : RegOp) (mr mr' : UtcbMr) (e : Error),
      UtcbMr.onRegs (op.run l4_msg_regs_t) mr = .err e mr' →
        mr'.items = mr.items ∧ op.FailsAt l4_msg_regs_t mr.regs mr'.regs) ∧
    ∀ (T : Ty) (val : T.Value) (mr mr' : UtcbMr) (e : Error),
      UtcbMr.write_item T val mr = .err e mr' →
        mr'.items = mr.items ∧ mr'.regs.contents = mr.regs.contents := by
  refine ⟨fun U op r t e h => RegOp.run_fails h, ?_, fun T val mr mr' e h => UtcbMr.write_item_fails h⟩
  intro op mr mr' e h
  obtain ⟨r, hr, rfl⟩ := onRegs_fails h
  exact ⟨rfl, RegOp.run_fails hr⟩

/-- A slice whose length is read as a negative number fails behind the length,
and one that is too long for the type of its length fails in front of it. -/
theorem failed_calls_keep_registers_negative :
    ∃ r t, RegOp.run l4_msg_regs_t (.read_slice .i8 IntTy.u8.ty) r =
        .err (.Generic .InvalidArg) t ∧
      RegOp.FailsAt l4_msg_regs_t (.read_slice .i8 IntTy.u8.ty) r t ∧
      r.offset = 0 ∧ t.offset = 1 ∧
      ∃ u, RegOp.run l4_msg_regs_t (.write_slice .i8 IntTy.u8.ty (List.replicate 128 (byteValue 7))) r =
          .err (.Generic .InvalidArg) u ∧
        RegOp.FailsAt l4_msg_regs_t
          (.write_slice .i8 IntTy.u8.ty (List.replicate 128 (byteValue 7))) r u ∧
        u.contents = r.contents := by
  have hread : RegOp.run l4_msg_regs_t (.read_slice .i8 IntTy.u8.ty) ⟨fun _ => 0xff, 0, []⟩ =
      .err (.Generic .InvalidArg) ⟨fun _ => 0xff, 1, [⟨.read, 0, 1⟩]⟩ := rfl
  generalize hvals : List.replicate 128 (byteValue 7) = vals
  have hlen : IntTy.i8.from_usize vals.length = none := by
    rw [← hvals, List.length_replicate]
    rfl
  have hwrite : RegOp.run l4_msg_regs_t (.write_slice .i8 IntTy.u8.ty vals) ⟨fun _ => 0xff, 0, []⟩ =
      .err (.Generic .InvalidArg) ⟨fun _ => 0xff, 0, []⟩ := Registers.write_slice_of_none hlen
  have hbehind := failed_calls_keep_registers.1 _ _ _ _ _ hread
  have hbefore := failed_calls_keep_registers.1 _ _ _ _ _ hwrite
  exact ⟨_, _, hread, hbehind, rfl, rfl, _, hwrite, hbefore, rfl⟩

/-- One character at the last word of the message registers: its length takes
the word, and there is no room for the character. -/
theorem failed_write_str_moves_offset :
    ∃ r t, r.offset = 496 ∧ RegOp.run l4_msg_regs_t (.write_str "a") r = .err (.Generic .MsgTooLong) t ∧
      t.offset = 504 ∧ t.contents ≠ r.contents := by
  refine ⟨⟨fun _ => 0, 496, []⟩, _, rfl, rfl, rfl, ?_⟩
  intro hsame
  have hoff := congrArg Prod.snd hsame
  exact absurd hoff (by decide)

end l4.utcb
