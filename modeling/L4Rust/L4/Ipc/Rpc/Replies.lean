import L4Rust.L4.ErrorReply
import L4Rust.L4.Ipc.Rpc
import L4Rust.L4.Ipc.ShortMessages

open l4.error l4.utcb Exec Cursor

namespace l4.utcb

variable {U : UtcbRegSize}

/-- The next value goes to the same place. -/
def Registers.SameOffset (r r' : Registers) : Prop := r.offset = r'.offset

theorem l4_err_if_congruent (condition : Prop) [Decidable condition] (e : GenericErr) :
    Congruent Registers.SameOffset (l4_err_if condition e) := by
  unfold l4_err_if
  split
  · exact .throw _
  · exact .pure ()

theorem assign_congruent (start : Nat) (bytes : List UInt8) :
    Congruent Registers.SameOffset (assign start bytes) :=
  .modify fun _ _ h => h

theorem set_offset_congruent (stop : Nat) : Congruent Registers.SameOffset (set_offset stop) :=
  .modify fun _ _ _ => rfl

theorem Registers.write_congruent (T : Ty) (val : T.Value) :
    Congruent Registers.SameOffset (Registers.write U T val) := by
  refine .bind_get (fun r r' h => by rw [h]) fun r => ?_
  refine .bind (.checked _) fun start => ?_
  refine .bind (.ok_or _ _) fun stop => ?_
  refine .bind (l4_err_if_congruent _ _) fun _ => ?_
  exact .bind (assign_congruent _ _) fun _ => set_offset_congruent stop

theorem Registers.skip_congruent (T : Ty) : Congruent Registers.SameOffset (Registers.skip U T) := by
  refine .bind_get (fun r r' h => by rw [h]) fun r => ?_
  refine .bind (.checked _) fun start => ?_
  refine .bind (.ok_or _ _) fun stop => ?_
  exact .bind (l4_err_if_congruent _ _) fun _ => set_offset_congruent stop

theorem Registers.write_slice_congruent (Len : IntTy) (T : Ty) (val : List T.Value) :
    Congruent Registers.SameOffset (Registers.write_slice U Len T val) := by
  refine .bind (.ok_or _ _) fun len => ?_
  refine .bind (Registers.write_congruent _ _) fun _ => ?_
  refine .bind_get (fun r r' h => by rw [h]) fun r => ?_
  refine .bind (.checked _) fun start => ?_
  refine .bind (.ok_or _ _) fun size_bytes => ?_
  refine .bind (.ok_or _ _) fun stop => ?_
  refine .bind (l4_err_if_congruent _ _) fun _ => ?_
  exact .bind (assign_congruent _ _) fun _ => set_offset_congruent stop

/-- What is written either fits or does not, which the caller is told by one of two codes. -/
def TooLong (e : Error) : Prop := e = .Generic .MsgTooLong ∨ e = .Generic .InvalidArg

theorem l4_err_if_throws {P : Error → Prop} (condition : Prop) [Decidable condition] {e : GenericErr}
    (h : P (.Generic e)) : Throws P (l4_err_if condition e) := by
  unfold l4_err_if
  split
  · exact .throw h
  · exact .pure ()

theorem Registers.write_throws (T : Ty) (val : T.Value) : Throws TooLong (Registers.write U T val) := by
  refine .bind .get fun r => ?_
  refine .bind (.checked _) fun start => ?_
  refine .bind (.ok_or _ (.inl rfl)) fun stop => ?_
  refine .bind (l4_err_if_throws _ (.inl rfl)) fun _ => ?_
  exact .bind (.modify _) fun _ => .modify _

theorem Registers.skip_throws (T : Ty) : Throws TooLong (Registers.skip U T) := by
  refine .bind .get fun r => ?_
  refine .bind (.checked _) fun start => ?_
  refine .bind (.ok_or _ (.inl rfl)) fun stop => ?_
  exact .bind (l4_err_if_throws _ (.inl rfl)) fun _ => .modify _

theorem Registers.write_slice_throws (Len : IntTy) (T : Ty) (val : List T.Value) :
    Throws TooLong (Registers.write_slice U Len T val) := by
  refine .bind (.ok_or _ (.inr rfl)) fun len => ?_
  refine .bind (Registers.write_throws _ _) fun _ => ?_
  refine .bind .get fun r => ?_
  refine .bind (.checked _) fun start => ?_
  refine .bind (.ok_or _ (.inl rfl)) fun size_bytes => ?_
  refine .bind (.ok_or _ (.inl rfl)) fun stop => ?_
  refine .bind (l4_err_if_throws _ (.inl rfl)) fun _ => ?_
  exact .bind (.modify _) fun _ => .modify _

end l4.utcb

namespace l4.ipc

variable {sys : Fpages} {codes : Codes} {l4_ipc_error : MsgTag → BitVec 64} {mr mr' : UtcbMr}

/-- The next value goes to the same place, and there are as many items. -/
def UtcbMr.SamePosition (mr mr' : UtcbMr) : Prop := mr.regs.SameOffset mr'.regs ∧ mr.items = mr'.items

theorem onRegs_congruent {x : Exec Error Registers Unit} (hx : Congruent Registers.SameOffset x) :
    Congruent UtcbMr.SamePosition (UtcbMr.onRegs x) :=
  hx.zoom (fun _ _ h => h.1) fun _ _ _ _ h hr => ⟨hr, h.2⟩

theorem write_item_congruent (T : Ty) (val : T.Value) :
    Congruent UtcbMr.SamePosition (UtcbMr.write_item T val) := by
  refine .bind (onRegs_congruent (Registers.write_congruent _ _)) fun _ => ?_
  exact .modify fun _ _ h => ⟨h.1, congrArg (· + 1) h.2⟩

/-- Whether a value fits does not depend on what the registers hold. -/
theorem Arg.write_congruent (a : Arg) : Congruent UtcbMr.SamePosition (a.write sys) := by
  obtain ⟨t, v⟩ := a
  cases t with
  | scalar T => exact onRegs_congruent (Registers.write_congruent _ _)
  | unit => exact .pure ()
  | flexPage => exact write_item_congruent _ _
  | option T =>
    cases v with
    | none =>
      exact onRegs_congruent (.bind (Registers.skip_congruent _) fun _ => Registers.write_congruent _ _)
    | some val =>
      exact onRegs_congruent (.bind (Registers.write_congruent _ _) fun _ => Registers.write_congruent _ _)
  | cap => exact write_item_congruent _ _
  | string => exact onRegs_congruent (Registers.write_slice_congruent _ _ _)
  | vec T => exact onRegs_congruent (Registers.write_slice_congruent _ _ _)

theorem Arg.write_throws (a : Arg) : Throws TooLong (a.write sys) := by
  obtain ⟨t, v⟩ := a
  cases t with
  | scalar T => exact .zoom (Registers.write_throws _ _)
  | unit => exact .pure ()
  | flexPage => exact .bind (.zoom (Registers.write_throws _ _)) fun _ => .modify _
  | option T =>
    cases v with
    | none => exact .zoom (.bind (Registers.skip_throws _) fun _ => Registers.write_throws _ _)
    | some val => exact .zoom (.bind (Registers.write_throws _ _) fun _ => Registers.write_throws _ _)
  | cap => exact .bind (.zoom (Registers.write_throws _ _)) fun _ => .modify _
  | string => exact .zoom (Registers.write_slice_throws _ _ _)
  | vec T => exact .zoom (Registers.write_slice_throws _ _ _)

/-- The tag of a reply with what has been written. -/
def replyTag (mr : UtcbMr) : MsgTag := MsgTag.new 0 (BitVec.ofNat 32 mr.words) (BitVec.ofNat 32 mr.items) 0

end l4.ipc
