import L4Rust.L4.Ipc.Serialise
import L4Rust.L4.Registers.Strings

open l4.error l4.utcb Cursor

namespace l4.ipc

variable {sys : Fpages} {α : Type}

theorem utcbMr_onRegs_eq_ok_iff {x : Exec Error Registers α} {mr mr' : UtcbMr} {a : α} :
    UtcbMr.onRegs x mr = .ok a mr' ↔ ∃ r, x mr.regs = .ok a r ∧ mr' = { mr with regs := r } :=
  Exec.zoom_eq_ok_iff

theorem reader_onRegs_eq_ok_iff {x : Exec Error Registers α} {s s' : Reader} {a : α} :
    Reader.onRegs x s = .ok a s' ↔
      ∃ r, x s.mr.regs = .ok a r ∧ s' = { s with mr := { s.mr with regs := r } } := by
  unfold Reader.onRegs Reader.onMr
  rw [Exec.zoom_eq_ok_iff]
  constructor
  · rintro ⟨mr, hmr, rfl⟩
    obtain ⟨r, hr, rfl⟩ := utcbMr_onRegs_eq_ok_iff.mp hmr
    exact ⟨r, hr, rfl⟩
  · rintro ⟨r, hr, rfl⟩
    exact ⟨_, utcbMr_onRegs_eq_ok_iff.mpr ⟨r, hr, rfl⟩, rfl⟩

theorem onRegs_appends {w : Exec Error Registers Unit} (h : Appends w) :
    Appends (UtcbMr.onRegs w) := by
  intro mr mr' hw
  obtain ⟨r, hr, rfl⟩ := utcbMr_onRegs_eq_ok_iff.mp hw
  exact h mr.regs r hr

theorem onRegs_readsBack {a : Nat} {w : Exec Error Registers Unit} {x : Exec Error Registers α}
    {v : α} (h : ReadsBackFrom a w x v) :
    ReadsBackFrom a (UtcbMr.onRegs w) (Reader.onRegs x) v := by
  intro mr mr' hw s hoff hmem
  obtain ⟨r, hr, rfl⟩ := utcbMr_onRegs_eq_ok_iff.mp hw
  obtain ⟨t, ht, htoff, htmem⟩ := h mr.regs r hr s.mr.regs hoff hmem
  exact ⟨_, reader_onRegs_eq_ok_iff.mpr ⟨t, ht, rfl⟩, htoff, htmem⟩

/-- Typed items are announced to the kernel in the message tag. -/
def ArgTy.isItem : ArgTy → Bool
  | .flexPage | .cap => true
  | .scalar _ | .unit | .option _ | .string | .vec _ => false

/-- The alignment of the first value an untyped argument writes. -/
def ArgTy.leadAlign : ArgTy → Nat
  | .scalar T | .option T => T.align
  | .string => IntTy.usize.ty.align
  | .vec _ => IntTy.u16.ty.align
  | .unit | .flexPage | .cap => 1

/-- The values that survive the crossing: an absent option is read back as
present, and a text loses a final NUL. -/
def Arg.Faithful : Arg → Prop
  | ⟨.option _, v⟩ => Option.isSome v
  | ⟨.string, s⟩ => (utf8 s).getLast? ≠ some 0
  | ⟨.scalar _, _⟩ | ⟨.unit, _⟩ | ⟨.flexPage, _⟩ | ⟨.cap, _⟩ | ⟨.vec _, _⟩ => True

theorem Arg.val_eq {t : ArgTy} {v v' : t.Val} (h : (⟨t, v⟩ : Arg) = ⟨t, v'⟩) : v = v' :=
  eq_of_heq (Arg.mk.inj h).2

theorem write_item_appends (T : Ty) (val : T.Value) : Appends (UtcbMr.write_item T val) := by
  intro mr mr' h
  obtain ⟨_, mid, hmid, hcount⟩ := Exec.bind_eq_ok_iff.mp h
  cases hcount
  exact onRegs_appends (Registers.write_appends T val) mr mid hmid

theorem Arg.write_appends (a : Arg) : Appends (a.write sys) := by
  obtain ⟨t, v⟩ := a
  cases t with
  | scalar T => exact onRegs_appends (Registers.write_appends T.toTy v)
  | unit => exact Appends.pure
  | flexPage => exact write_item_appends _ _
  | option T =>
    cases v with
    | none =>
      exact onRegs_appends (Appends.seq (Registers.skip_appends _) (Registers.write_appends _ _))
    | some val =>
      exact onRegs_appends (Appends.seq (Registers.write_appends _ _) (Registers.write_appends _ _))
  | cap => exact write_item_appends _ _
  | string => exact onRegs_appends (Registers.write_slice_appends _ _ _)
  | vec T => exact onRegs_appends (Registers.write_slice_appends _ _ _)

/-- Reading a present option: the value and then its flag. -/
theorem option_readsBack {U : UtcbRegSize} (T : Ty) (val : T.Value)
    (flag : Primitive.bool.serialisable.toTy.Value) :
    ReadsBackFrom T.align
      (do
        Registers.write U T val
        Registers.write U Primitive.bool.serialisable.toTy flag)
      (do
        let val ← Registers.read U T
        let _ ← Registers.read U Primitive.bool.serialisable.toTy
        pure (some val)) (some val) := by
  have hpair := ReadsBackFrom.seq (Registers.write_appends (U := U) T val)
    (Registers.write_appends (U := U) _ flag) (Registers.write_readsBack T val)
    (Registers.write_readsBack (U := U) _ flag).readsBack
  intro r t h r' hoff hmem
  obtain ⟨t', hrun, hrest⟩ := hpair r t h r' hoff hmem
  refine ⟨t', ?_, hrest⟩
  rw [Exec.bind_eq_ok_iff] at hrun
  obtain ⟨v, mid, hv, hrun⟩ := hrun
  rw [Exec.bind_eq_ok_iff] at hrun
  obtain ⟨f, last, hf, hrun⟩ := hrun
  cases hrun
  rw [Exec.bind_of_ok hv, Exec.bind_of_ok hf, Exec.pure_apply]

/-- The length of a vector read from the registers fits its prefix. -/
theorem vec_readsBack (T : Serialisable) (vals : List T.toTy.Value) :
    ReadsBackFrom IntTy.u16.ty.align ((ArgTy.vec T).write sys vals) ((ArgTy.vec T).read sys) vals := by
  intro mr mr' h s hoff hmem
  obtain ⟨r, hr, rfl⟩ := utcbMr_onRegs_eq_ok_iff.mp h
  obtain ⟨len, _, _, hlen, _⟩ := Registers.write_slice_success hr
  obtain ⟨t', hread, hrest⟩ := onRegs_readsBack
    (Registers.write_slice_readsBack (U := l4_msg_regs_t) .u16 T vals) mr _ h s hoff hmem
  refine ⟨t', ?_, hrest⟩
  rw [ArgTy.read, Exec.bind_of_ok hread, hlen, Exec.ok_or_some]
  rfl

theorem ArgTy.write_readsBack (t : ArgTy) (v : t.Val) (hitem : t.isItem = false)
    (hfaithful : Arg.Faithful ⟨t, v⟩) :
    ReadsBackFrom t.leadAlign (t.write sys v) (t.read sys) v := by
  cases t with
  | scalar T => exact onRegs_readsBack (Registers.write_readsBack T.toTy v)
  | unit =>
    intro mr mr' h s hoff _
    cases h
    have hround : s.mr.regs.offset = mr.regs.offset := by
      simpa [ArgTy.leadAlign, roundUp] using hoff
    exact ⟨s, rfl, hround, rfl⟩
  | flexPage => cases hitem
  | option T =>
    cases v with
    | none => cases hfaithful
    | some val => exact onRegs_readsBack (option_readsBack T.toTy val _)
  | cap => cases hitem
  | string => exact onRegs_readsBack (Registers.write_str_readsBack hfaithful)
  | vec T => exact vec_readsBack T v

/-- Every untyped argument that survives the crossing is read back from where
it was written. -/
theorem Arg.write_readsBack (sys : Fpages) (a : Arg) (hitem : a.ty.isItem = false)
    (hfaithful : a.Faithful) :
    ReadsBackFrom a.ty.leadAlign (a.write sys) (readArg sys a.ty) a := by
  intro mr mr' h s hoff hmem
  obtain ⟨t', hread, hrest⟩ := ArgTy.write_readsBack a.ty a.val hitem hfaithful mr mr' h s hoff hmem
  exact ⟨t', Exec.bind_of_ok hread, hrest⟩

/-- An untyped argument that does not survive the crossing is read as another
value, or not at all. -/
theorem Arg.write_not_readsBack (a : Arg) (hfaithful : ¬ a.Faithful) {mr mr' : UtcbMr} {u : Unit}
    (h : a.write sys mr = .ok u mr') {s s' : Reader} {b : Arg}
    (hoff : s.mr.regs.offset = mr.regs.offset)
    (hmem : Memory.AgreeOn mr.regs.offset mr'.regs.offset s.mr.regs.mem mr'.regs.mem)
    (hread : readArg sys a.ty s = .ok b s') : b ≠ a := by
  obtain ⟨t, v⟩ := a
  change readArg sys t s = .ok b s' at hread
  obtain ⟨v', _, hv, hb⟩ := Exec.bind_eq_ok_iff.mp hread
  cases hb
  intro heq
  have hval : v' = v := Arg.val_eq heq
  subst hval
  cases t with
  | option T =>
    obtain ⟨r, hr, _⟩ := reader_onRegs_eq_ok_iff.mp hv
    obtain ⟨val, _, _, hr⟩ := Exec.bind_eq_ok_iff.mp hr
    obtain ⟨_, _, _, hr⟩ := Exec.bind_eq_ok_iff.mp hr
    cases hr
    exact hfaithful rfl
  | string =>
    obtain ⟨w, hw, rfl⟩ := utcbMr_onRegs_eq_ok_iff.mp h
    obtain ⟨r, hr, _⟩ := reader_onRegs_eq_ok_iff.mp hv
    have hnul : (utf8 v').getLast? = some 0 := Classical.not_not.mp hfaithful
    exact Registers.write_str_not_readsBack hnul hw (by rw [hoff]) hmem hr rfl
  | scalar T | unit | flexPage | cap | vec T => exact hfaithful trivial

end l4.ipc
