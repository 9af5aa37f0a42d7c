import L4Rust.L4.Ipc.RequestFormat

open l4.error l4.utcb Cursor

namespace l4.ipc

variable {sys : Fpages} {I : Interface} {m : Method} {mr mr' : UtcbMr} {u : Unit}

/-- Untyped arguments that take room in the message registers. -/
def ArgTy.isUntyped : ArgTy → Bool
  | .scalar _ | .option _ | .string | .vec _ => true
  | .unit | .flexPage | .cap => false

/-- The typed items stand exactly behind the untyped words, two words each, as
the kernel expects them. -/
def ItemsBehindWords (mr : UtcbMr) : Prop :=
  mr.placed = (List.range mr.items).map fun j => 8 * (mr.words + 2 * j)

/-- No untyped argument follows a typed one. -/
def ItemsLast (ts : List ArgTy) : Prop :=
  ts.Pairwise fun t t' => t.isItem = true → t'.isUntyped = false

instance : DecidablePred ItemsLast := fun ts =>
  inferInstanceAs (Decidable (ts.Pairwise fun t t' => t.isItem = true → t'.isUntyped = false))

/-- The arguments that are no capabilities. -/
def untypedArgs (args : List Arg) : List Arg := args.filter fun a => !a.ty.isItem

/-- A server with a receive buffer selects the method and decodes every argument
that is no capability to the value passed, as long as the untyped words reach
it. -/
def DecodesUntyped (sys : Fpages) (I : Interface) (m : Method) (args : List Arg) (tag : MsgTag)
    (mr : UtcbMr) : Prop :=
  ∀ received bufs, Delivered tag mr.regs.mem received → bufs.ptr.isSome →
    ∃ decoded s, op_decode sys I tag ⟨UtcbMr.from_mr received, bufs⟩ = .ok (m, decoded) s ∧
      untypedArgs decoded = untypedArgs args

theorem roundUp_eight (off : Nat) : roundUp 8 off = 8 * ((off + 7) / 8) := by
  unfold roundUp
  omega

theorem write_grows {U : UtcbRegSize} {T : Ty} (hpos : 0 < T.size) {val : T.Value} {r t : Registers}
    (h : Registers.write U T val r = .ok u t) : r.offset < t.offset := by
  obtain ⟨start, hstart, _, rfl⟩ := Registers.write_success h
  have hle := le_of_align_offset hstart
  change r.offset < start + T.size
  omega

theorem write_slice_grows {U : UtcbRegSize} {Len : IntTy} {T : Ty} {vals : List T.Value}
    {r t : Registers} (h : Registers.write_slice U Len T vals r = .ok u t) : r.offset < t.offset := by
  obtain ⟨len, mid, start, _, hmid, hstart, _, rfl⟩ := Registers.write_slice_success h
  have hgrow := write_grows Len.serialisable.size_pos hmid
  have hle := le_of_align_offset hstart
  change r.offset < start + _
  omega

/-- Every untyped argument but the unit moves the offset. -/
theorem Arg.write_untyped_grows (a : Arg) (huntyped : a.ty.isUntyped = true)
    (h : a.write sys mr = .ok u mr') : mr.regs.offset < mr'.regs.offset := by
  obtain ⟨t, v⟩ := a
  cases t with
  | scalar T =>
    obtain ⟨r, hr, rfl⟩ := utcbMr_onRegs_eq_ok_iff.mp h
    exact write_grows T.size_pos hr
  | option T =>
    cases v with
    | none =>
      obtain ⟨r, hr, rfl⟩ := utcbMr_onRegs_eq_ok_iff.mp h
      obtain ⟨_, mid, hskip, hflag⟩ := Exec.bind_eq_ok_iff.mp hr
      obtain ⟨hmono, _⟩ := Registers.skip_appends T.toTy mr.regs mid hskip
      exact lt_of_le_of_lt hmono (write_grows (by decide) hflag)
    | some val =>
      obtain ⟨r, hr, rfl⟩ := utcbMr_onRegs_eq_ok_iff.mp h
      obtain ⟨_, mid, hval, hflag⟩ := Exec.bind_eq_ok_iff.mp hr
      exact (write_grows T.size_pos hval).trans (write_grows (by decide) hflag)
  | string =>
    obtain ⟨r, hr, rfl⟩ := utcbMr_onRegs_eq_ok_iff.mp h
    exact write_slice_grows hr
  | vec T =>
    obtain ⟨r, hr, rfl⟩ := utcbMr_onRegs_eq_ok_iff.mp h
    exact write_slice_grows hr
  | unit | flexPage | cap => cases huntyped

theorem isUntyped_of_isItem {t : ArgTy} (h : t.isItem = true) : t.isUntyped = false := by
  cases t with
  | flexPage | cap => rfl
  | scalar T | unit | option T | string | vec T => cases h

/-- Items take sixteen bytes and every untyped argument at least one. -/
theorem runAll_growth (args : List Arg) (h : runAll (args.map (Arg.write sys)) mr = .ok u mr') :
    mr.regs.offset + 16 * (args.countP fun a => a.ty.isItem) + (args.countP fun a => a.ty.isUntyped) ≤
      mr'.regs.offset := by
  induction args generalizing mr with
  | nil =>
    cases h
    exact le_rfl
  | cons a args ih =>
    obtain ⟨_, mid, hfirst, hrest⟩ := Exec.bind_eq_ok_iff.mp h
    have htail := ih hrest
    obtain ⟨hmono, _⟩ := a.write_appends mr mid hfirst
    have hmono : mr.regs.offset ≤ mid.regs.offset := hmono
    cases hitem : a.ty.isItem with
    | true =>
      obtain ⟨hoff, _⟩ := a.write_typed hitem hfirst
      have hle := Alignment.le_roundUp (a := 8) (by decide) mr.regs.offset
      rw [List.countP_cons_of_pos (by simp [hitem]),
        List.countP_cons_of_neg (by simp [isUntyped_of_isItem hitem])]
      omega
    | false =>
      rw [List.countP_cons_of_neg (by simp [hitem])]
      cases huntyped : a.ty.isUntyped with
      | true =>
        have hgrow := a.write_untyped_grows huntyped hfirst
        rw [List.countP_cons_of_pos (by simp [huntyped])]
        omega
      | false =>
        rw [List.countP_cons_of_neg (by simp [huntyped])]
        omega

/-- Items already placed stay recorded. -/
theorem runAll_placed (args : List Arg) (h : runAll (args.map (Arg.write sys)) mr = .ok u mr') :
    ∃ later, mr'.placed = mr.placed ++ later := by
  induction args generalizing mr with
  | nil =>
    cases h
    exact ⟨[], by simp⟩
  | cons a args ih =>
    obtain ⟨_, mid, hfirst, hrest⟩ := Exec.bind_eq_ok_iff.mp h
    obtain ⟨later, hlater⟩ := ih hrest
    cases hitem : a.ty.isItem with
    | true =>
      obtain ⟨_, _, hplaced⟩ := a.write_typed hitem hfirst
      exact ⟨_, by rw [hlater, hplaced, List.append_assoc]⟩
    | false =>
      obtain ⟨_, hplaced⟩ := a.write_untyped hitem hfirst
      exact ⟨later, by rw [hlater, hplaced]⟩

theorem runAll_untyped (args : List Arg) (hitem : ∀ a ∈ args, a.ty.isItem = false)
    (h : runAll (args.map (Arg.write sys)) mr = .ok u mr') :
    mr'.items = mr.items ∧ mr'.placed = mr.placed := by
  induction args generalizing mr with
  | nil =>
    cases h
    exact ⟨rfl, rfl⟩
  | cons a args ih =>
    obtain ⟨_, mid, hfirst, hrest⟩ := Exec.bind_eq_ok_iff.mp h
    obtain ⟨hitems, hplaced⟩ := a.write_untyped (hitem a (by simp)) hfirst
    obtain ⟨hitems', hplaced'⟩ := ih (fun b hb => hitem b (by simp [hb])) hrest
    exact ⟨hitems'.trans hitems, hplaced'.trans hplaced⟩

/-- A run of items is placed back to back from the next aligned offset on. -/
theorem runAll_items_placed (args : List Arg) (huntyped : ∀ a ∈ args, a.ty.isUntyped = false)
    (h : runAll (args.map (Arg.write sys)) mr = .ok u mr') :
    roundUp 8 mr'.regs.offset =
        roundUp 8 mr.regs.offset + 16 * (args.countP fun a => a.ty.isItem) ∧
      mr'.placed = mr.placed ++ (List.range (args.countP fun a => a.ty.isItem)).map
        fun j => roundUp 8 mr.regs.offset + 16 * j := by
  induction args generalizing mr with
  | nil =>
    cases h
    exact ⟨rfl, by simp⟩
  | cons a args ih =>
    obtain ⟨_, mid, hfirst, hrest⟩ := Exec.bind_eq_ok_iff.mp h
    obtain ⟨hround, hplaced⟩ := ih (fun b hb => huntyped b (by simp [hb])) hrest
    cases hitem : a.ty.isItem with
    | true =>
      obtain ⟨hoff, _, hfirstPlaced⟩ := a.write_typed hitem hfirst
      have hmid : roundUp 8 mid.regs.offset = roundUp 8 mr.regs.offset + 16 := by
        rw [hoff, roundUp_eight, roundUp_eight]
        omega
      rw [List.countP_cons_of_pos (by simp [hitem])]
      refine ⟨by rw [hround, hmid]; omega, ?_⟩
      rw [hplaced, hfirstPlaced, hmid, List.range_succ_eq_map, List.map_cons, List.map_map,
        List.append_assoc, List.singleton_append, Nat.mul_zero, Nat.add_zero]
      congr 2
      apply List.map_congr_left
      intro j _
      simp only [Function.comp_apply, Nat.succ_eq_add_one]
      omega
    | false =>
      have hunit : mid = mr := by
        have hnot := huntyped a (by simp)
        obtain ⟨t, v⟩ := a
        cases t with
        | unit =>
          cases hfirst
          rfl
        | flexPage | cap => cases hitem
        | scalar T | option T | string | vec T => cases hnot
      rw [List.countP_cons_of_neg (by simp [hitem])]
      rw [hunit] at hround hplaced
      exact ⟨hround, hplaced⟩

/-- The arguments up to the first item, and the rest. -/
theorem split_first_item (args : List Arg) :
    (∀ a ∈ args, a.ty.isItem = false) ∨
      ∃ front item back, args = front ++ item :: back ∧ (∀ a ∈ front, a.ty.isItem = false) ∧
        item.ty.isItem = true := by
  induction args with
  | nil => exact Or.inl (by simp)
  | cons a args ih =>
    cases hitem : a.ty.isItem with
    | true => exact Or.inr ⟨[], a, args, rfl, by simp, hitem⟩
    | false =>
      rcases ih with hnone | ⟨front, item, back, rfl, hfront, hfirst⟩
      · refine Or.inl fun b hb => ?_
        rcases List.mem_cons.mp hb with rfl | htail
        · exact hitem
        · exact hnone b htail
      · refine Or.inr ⟨a :: front, item, back, rfl, fun b hb => ?_, hfirst⟩
        rcases List.mem_cons.mp hb with rfl | htail
        · exact hitem
        · exact hfront b htail

/-- With the items last, a message is untyped arguments followed by items. -/
theorem ItemsLast.split {args : List Arg} (h : ItemsLast (args.map Arg.ty)) :
    ∃ front back, args = front ++ back ∧ (∀ a ∈ front, a.ty.isItem = false) ∧
      ∀ a ∈ back, a.ty.isUntyped = false := by
  rcases split_first_item args with hnone | ⟨front, item, back, rfl, hfront, hitem⟩
  · exact ⟨args, [], by simp, hnone, by simp⟩
  · refine ⟨front, item :: back, rfl, hfront, fun a ha => ?_⟩
    rcases List.mem_cons.mp ha with rfl | htail
    · exact isUntyped_of_isItem hitem
    · unfold ItemsLast at h
      rw [List.map_append, List.map_cons, List.pairwise_append, List.pairwise_cons] at h
      exact h.2.1.1 a.ty (List.mem_map_of_mem htail) hitem

theorem itemsLast_of_split {front back : List Arg} (hfront : ∀ a ∈ front, a.ty.isItem = false)
    (hback : ∀ a ∈ back, a.ty.isUntyped = false) : ItemsLast ((front ++ back).map Arg.ty) := by
  unfold ItemsLast
  rw [List.pairwise_map]
  induction front with
  | nil =>
    exact List.Pairwise.imp_of_mem (fun {a b} _ hb _ _ => hback b hb)
      (List.pairwise_of_forall (R := fun _ _ : Arg => True) fun _ _ => trivial)
  | cons a front ih =>
    rw [List.cons_append, List.pairwise_cons]
    refine ⟨fun b _ hitem => ?_, ih fun b hb => hfront b (by simp [hb])⟩
    rw [hfront a (by simp)] at hitem
    cases hitem

/-- Items last: the layout is the one the kernel expects. -/
theorem itemsBehindWords_of_split {front back : List Arg} {mid : UtcbMr} {mem : Memory} {opcode : Nat}
    (hfrontItem : ∀ a ∈ front, a.ty.isItem = false) (hback : ∀ a ∈ back, a.ty.isUntyped = false)
    (hmid : runAll (front.map (Arg.write sys)) (opcodeWritten mem opcode) = .ok () mid)
    (hrun : runAll (back.map (Arg.write sys)) mid = .ok () mr) (hsound : Sound mr) :
    ItemsBehindWords mr ∧ 8 * mr.words = roundUp 8 mid.regs.offset := by
  obtain ⟨hmidItems, hmidPlaced⟩ := runAll_untyped front hfrontItem hmid
  have hitems := runAll_items back hrun
  obtain ⟨hround, hplaced⟩ := runAll_items_placed back hback hrun
  obtain ⟨hsum, _⟩ := hsound.words_add_items
  rw [hmidItems] at hitems
  have hcount : mr.items = back.countP fun a => a.ty.isItem := by
    rw [hitems]
    exact Nat.zero_add _
  rw [roundUp_eight mr.regs.offset, ← hsum, ← hcount] at hround
  have hwords : 8 * mr.words = roundUp 8 mid.regs.offset := by omega
  refine ⟨?_, hwords⟩
  unfold ItemsBehindWords
  rw [hplaced, hmidPlaced, ← hcount, ← hwords]
  apply List.map_congr_left
  intro j _
  omega

/-- The layout is the kernel's exactly when the items come last: the words
behind the first item are all taken by items. -/
theorem itemsBehindWords_iff {args : List Arg} {mem : Memory} {opcode : Nat}
    (hrun : runAll (args.map (Arg.write sys)) (opcodeWritten mem opcode) = .ok () mr)
    (hsound : Sound mr) : ItemsBehindWords mr ↔ ItemsLast (args.map Arg.ty) := by
  constructor
  · intro hlayout
    rcases split_first_item args with hnone | ⟨front, item, back, rfl, hfront, hitem⟩
    · have hempty : ∀ a ∈ ([] : List Arg), a.ty.isUntyped = false := nofun
      have hlast := itemsLast_of_split hnone hempty
      rwa [List.append_nil] at hlast
    · rw [List.map_append, runAll_append, Exec.bind_eq_ok_iff] at hrun
      obtain ⟨_, mid, hmid, hrun⟩ := hrun
      obtain ⟨_, next, hnext, hrest⟩ := Exec.bind_eq_ok_iff.mp hrun
      obtain ⟨hmidItems, hmidPlaced⟩ := runAll_untyped front hfront hmid
      obtain ⟨hoff, hcount, hplaced⟩ := item.write_typed hitem hnext
      obtain ⟨later, hlater⟩ := runAll_placed back hrest
      have hgrowth := runAll_growth back hrest
      have hitems := runAll_items back hrest
      obtain ⟨hsum, _⟩ := hsound.words_add_items
      have hmidZero : mid.items = 0 := hmidItems
      have hmidEmpty : mid.placed = [] := hmidPlaced
      have hstart : roundUp 8 mid.regs.offset = 8 * mr.words := by
        have hhead := congrArg (fun l => l[0]?) hlayout
        rw [hlater, hplaced, hmidEmpty] at hhead
        have hpos : 0 < mr.items := by omega
        simpa [List.getElem?_range hpos] using hhead
      have hnoUntyped : back.countP (fun a => a.ty.isUntyped) = 0 := by omega
      have hbackTyped : ∀ a ∈ item :: back, a.ty.isUntyped = false := by
        intro a ha
        rcases List.mem_cons.mp ha with rfl | htail
        · exact isUntyped_of_isItem hitem
        · have hnot := List.countP_eq_zero.mp hnoUntyped a htail
          simpa using hnot
      exact itemsLast_of_split hfront hbackTyped
  · intro hlast
    obtain ⟨front, back, rfl, hfront, hback⟩ := hlast.split
    rw [List.map_append, runAll_append, Exec.bind_eq_ok_iff] at hrun
    obtain ⟨_, mid, hmid, hrun⟩ := hrun
    exact (itemsBehindWords_of_split hfront hback hmid hrun hsound).1

theorem readArg_ty {t : ArgTy} {s s' : Reader} {a : Arg} (h : readArg sys t s = .ok a s') : a.ty = t := by
  obtain ⟨v, _, _, hpure⟩ := Exec.bind_eq_ok_iff.mp h
  cases hpure
  rfl

/-- Decoded arguments have the types of the signature. -/
theorem collect_ty {ts : List ArgTy} {s s' : Reader} {args : List Arg}
    (h : collect (ts.map (readArg sys)) s = .ok args s') : args.map Arg.ty = ts := by
  induction ts generalizing s args with
  | nil =>
    cases h
    rfl
  | cons t ts ih =>
    obtain ⟨a, mid, ha, h⟩ := Exec.bind_eq_ok_iff.mp h
    obtain ⟨as, last, has, hpure⟩ := Exec.bind_eq_ok_iff.mp h
    cases hpure
    rw [List.map_cons, readArg_ty ha, ih has]

theorem read_word {s : Reader} (hfits : roundUp 8 s.mr.regs.offset + 8 ≤ 504) :
    ∃ v s', Reader.onRegs (Registers.read l4_msg_regs_t IntTy.u64.ty) s = .ok v s' ∧
      s'.mr.regs.offset = roundUp 8 s.mr.regs.offset + 8 ∧ s'.bufs = s.bufs := by
  have hle := Alignment.le_roundUp (a := 8) (by decide) s.mr.regs.offset
  have hstart : align_offset IntTy.u64.ty s.mr.regs.offset = some (roundUp 8 s.mr.regs.offset) :=
    align_offset_of_lt _ (by omega)
  have hread := Registers.read_of_fits (U := l4_msg_regs_t) hstart hfits
  exact ⟨_, _, reader_onRegs_eq_ok_iff.mpr ⟨_, hread, rfl⟩, rfl, rfl⟩

/-- Reading one typed argument succeeds: a capability takes a slot and no
registers, a flex page takes a slot and two words. -/
theorem readArg_typed (sys : Fpages) (t : ArgTy) (hitem : t.isItem = true) {s : Reader}
    (hslot : s.bufs.ptr.isSome)
    (hfits : roundUp 8 s.mr.regs.offset + 16 ≤ 504) :
    ∃ a s', readArg sys t s = .ok a s' ∧ s'.bufs.ptr.isSome ∧
      roundUp 8 s'.mr.regs.offset ≤ roundUp 8 s.mr.regs.offset + 16 := by
  obtain ⟨slot, hslot⟩ := Option.isSome_iff_exists.mp hslot
  cases t with
  | cap =>
    have hcap : Reader.onBufs BufferAccess.rcv_cap_unchecked s =
        .ok (s.bufs.slots slot) { s with bufs := { s.bufs with ptr := some slot } } := by
      apply Exec.zoom_eq_ok_iff.mpr
      refine ⟨_, ?_, rfl⟩
      unfold BufferAccess.rcv_cap_unchecked
      rw [Exec.bind_get, hslot, Exec.checked_some]
      rfl
    exact ⟨_, _, Exec.bind_of_ok hcap, rfl, Nat.le_add_right _ _⟩
  | flexPage =>
    obtain ⟨v, s₁, hv, hoff₁, hbufs₁⟩ := read_word (s := s) (by omega)
    have hround₁ : roundUp 8 s₁.mr.regs.offset = roundUp 8 s.mr.regs.offset + 8 := by
      rw [hoff₁, roundUp_eight, roundUp_eight]
      omega
    obtain ⟨w, s₂, hw, hoff₂, hbufs₂⟩ := read_word (s := s₁) (by omega)
    have hslot₂ : s₂.bufs.ptr = some slot := by rw [hbufs₂, hbufs₁, hslot]
    have hnext : Reader.onBufs BufferAccess.next_slot s₂ =
        .ok (s₂.bufs.slots slot) { s₂ with bufs := { s₂.bufs with ptr := some (slot + 1) } } := by
      apply Exec.zoom_eq_ok_iff.mpr
      refine ⟨_, ?_, rfl⟩
      unfold BufferAccess.next_slot
      rw [Exec.bind_get, hslot₂, Exec.ok_or_some]
      rfl
    have hread : ArgTy.read sys .flexPage s =
        .ok ⟨word v, sys.l4_obj_fpage (s₂.bufs.slots slot) 0
          (sys.from_bits_truncate ((word w).setWidth 8))⟩
        { s₂ with bufs := { s₂.bufs with ptr := some (slot + 1) } } := by
      rw [ArgTy.read, Exec.bind_of_ok hv, Exec.bind_of_ok hw, Exec.bind_of_ok hnext]
      rfl
    refine ⟨_, _, Exec.bind_of_ok hread, rfl, ?_⟩
    change roundUp 8 s₂.mr.regs.offset ≤ _
    rw [hoff₂, hround₁, roundUp_eight, roundUp_eight]
    omega
  | scalar T | unit | option T | string | vec T => cases hitem

/-- Reading the typed arguments at the end of a message succeeds. -/
theorem collect_typed (sys : Fpages) (ts : List ArgTy) (huntyped : ∀ t ∈ ts, t.isUntyped = false)
    {s : Reader} (hslot : s.bufs.ptr.isSome)
    (hfits : roundUp 8 s.mr.regs.offset + 16 * ts.countP ArgTy.isItem ≤ 504) :
    ∃ args s', collect (ts.map (readArg sys)) s = .ok args s' := by
  induction ts generalizing s with
  | nil => exact ⟨[], s, rfl⟩
  | cons t ts ih =>
    have hrest : ∀ t' ∈ ts, t'.isUntyped = false := fun t' ht' => huntyped t' (by simp [ht'])
    cases hitem : t.isItem with
    | true =>
      rw [List.countP_cons_of_pos hitem] at hfits
      obtain ⟨a, s₁, ha, hslot₁, hround₁⟩ := readArg_typed sys t hitem hslot (by omega)
      obtain ⟨as, s₂, has⟩ := ih hrest hslot₁ (by omega)
      exact ⟨a :: as, s₂, by rw [List.map_cons, collect, Exec.bind_of_ok ha, Exec.bind_of_ok has]; rfl⟩
    | false =>
      rw [List.countP_cons_of_neg (by simp [hitem])] at hfits
      obtain ⟨as, s₂, has⟩ := ih hrest hslot hfits
      have hnot := huntyped t (by simp)
      cases t with
      | unit =>
        have hunit : readArg sys .unit s = .ok ⟨.unit, ()⟩ s := rfl
        exact ⟨⟨.unit, ()⟩ :: as, s₂,
          by rw [List.map_cons, collect, Exec.bind_of_ok hunit, Exec.bind_of_ok has]; rfl⟩
      | flexPage | cap => cases hitem
      | scalar T | option T | string | vec T => cases hnot

/-- Beyond the untyped arguments, nothing but units is compared. -/
theorem untypedArgs_typed {as bs : List Arg} (hty : as.map Arg.ty = bs.map Arg.ty)
    (huntyped : ∀ b ∈ bs, b.ty.isUntyped = false) : untypedArgs as = untypedArgs bs := by
  induction bs generalizing as with
  | nil =>
    rw [List.map_nil, List.map_eq_nil_iff] at hty
    rw [hty]
  | cons b bs ih =>
    cases as with
    | nil => cases hty
    | cons a as =>
      simp only [List.map_cons, List.cons.injEq] at hty
      obtain ⟨hhead, htail⟩ := hty
      have hrest := ih htail fun c hc => huntyped c (by simp [hc])
      have hnot := huntyped b (by simp)
      unfold untypedArgs at hrest ⊢
      rw [List.filter_cons, List.filter_cons, hhead, hrest]
      obtain ⟨ta, va⟩ := a
      obtain ⟨tb, vb⟩ := b
      simp only at hhead
      subst hhead
      cases ta with
      | unit => rfl
      | flexPage | cap => rfl
      | scalar T | option T | string | vec T => cases hnot

theorem untypedArgs_of_untyped {args : List Arg} (hitem : ∀ a ∈ args, a.ty.isItem = false) :
    untypedArgs args = args := by
  apply List.filter_eq_self.mpr
  intro a ha
  rw [hitem a ha]
  rfl

theorem untypedArgs_append (as bs : List Arg) :
    untypedArgs (as ++ bs) = untypedArgs as ++ untypedArgs bs := List.filter_append _ _

/-- Decoding untyped arguments to the values passed needs every one of them to
survive the crossing. -/
theorem faithful_of_collect {args : List Arg} (hitem : ∀ a ∈ args, a.ty.isItem = false)
    (hrun : runAll (args.map (Arg.write sys)) mr = .ok u mr') {s s' : Reader}
    (hoff : s.mr.regs.offset = mr.regs.offset)
    (hmem : Memory.AgreeOn mr.regs.offset mr'.regs.offset s.mr.regs.mem mr'.regs.mem)
    (hcollect : collect ((args.map Arg.ty).map (readArg sys)) s = .ok args s') :
    ∀ a ∈ args, a.Faithful := by
  induction args generalizing mr s with
  | nil => simp
  | cons a args ih =>
    obtain ⟨_, mid, hfirst, hrest⟩ := Exec.bind_eq_ok_iff.mp hrun
    obtain ⟨b, smid, hb, hcollect⟩ := Exec.bind_eq_ok_iff.mp hcollect
    obtain ⟨bs, slast, hbs, hpure⟩ := Exec.bind_eq_ok_iff.mp hcollect
    cases hpure
    obtain ⟨hmidMono, _⟩ := a.write_appends mr mid hfirst
    obtain ⟨hlastMono, hkeep⟩ := runAll_appends args mid mr' hrest
    simp only [offset_utcbMr, mem_utcbMr] at hmidMono hlastMono hkeep
    have hfirstMem : Memory.AgreeOn mr.regs.offset mid.regs.offset s.mr.regs.mem mid.regs.mem :=
      (hmem.mono le_rfl hlastMono).trans (hkeep.mono (Nat.zero_le _) le_rfl)
    have hfaithful : a.Faithful := by
      by_contra hnot
      exact a.write_not_readsBack hnot hfirst hoff hfirstMem hb rfl
    obtain ⟨t, ht, htoff, htmem⟩ := (a.write_readsBack sys (hitem a (by simp)) hfaithful).readsBack mr mid
      hfirst s hoff hfirstMem
    rw [ht] at hb
    cases hb
    simp only [offset_utcbMr, offset_reader, mem_reader] at htoff htmem
    have htail := ih (fun b hb => hitem b (by simp [hb])) hrest htoff
      (by rw [htmem]; exact hmem.mono hmidMono le_rfl) hbs
    intro c hc
    rcases List.mem_cons.mp hc with rfl | hin
    · exact hfaithful
    · exact htail c hin

theorem faithful_of_typed {a : Arg} (h : a.ty.isUntyped = false) : a.Faithful := by
  obtain ⟨t, v⟩ := a
  cases t with
  | unit | flexPage | cap => trivial
  | scalar T | option T | string | vec T => cases h

theorem leadAlign_typed {t : ArgTy} (h : t.isUntyped = false) : ¬ 4 ≤ t.leadAlign := by
  cases t with
  | unit | flexPage | cap => decide
  | scalar T | option T | string | vec T => cases h

/-- Arguments that take no registers do not make up for a narrow opcode. -/
theorem SameCursor.of_typed {O : IntTy} {front back : List Arg}
    (h : SameCursor O ((front ++ back).map Arg.ty)) (hback : ∀ b ∈ back, b.ty.isUntyped = false) :
    SameCursor O (front.map Arg.ty) := by
  rcases h with hfour | ⟨hnarrow, t, hhead, hlead⟩
  · exact Or.inl hfour
  refine Or.inr ⟨hnarrow, t, ?_, hlead⟩
  rw [List.map_append] at hhead
  cases front with
  | nil =>
    cases back with
    | nil => cases hhead
    | cons b back =>
      obtain rfl : b.ty = t := by simpa using hhead
      exact absurd hlead (leadAlign_typed (hback b (by simp)))
  | cons a front => exact hhead

theorem onRegs_bufs {α : Type} {x : Exec Error Registers α} {s s' : Reader} {a : α}
    (h : Reader.onRegs x s = .ok a s') : s'.bufs = s.bufs := by
  obtain ⟨r, _, rfl⟩ := reader_onRegs_eq_ok_iff.mp h
  rfl

/-- Untyped arguments take no receive slot. -/
theorem readArg_bufs {t : ArgTy} (hitem : t.isItem = false) {s s' : Reader} {a : Arg}
    (h : readArg sys t s = .ok a s') : s'.bufs = s.bufs := by
  obtain ⟨v, mid, hv, hpure⟩ := Exec.bind_eq_ok_iff.mp h
  cases hpure
  cases t with
  | scalar T => exact onRegs_bufs hv
  | unit =>
    cases hv
    rfl
  | option T => exact onRegs_bufs hv
  | string => exact onRegs_bufs hv
  | vec T =>
    obtain ⟨sl, last, hsl, hv⟩ := Exec.bind_eq_ok_iff.mp hv
    obtain ⟨_, _, hv⟩ := Exec.bind_ok_or_eq_ok_iff.mp hv
    cases hv
    exact onRegs_bufs hsl
  | flexPage | cap => cases hitem

theorem collect_bufs {ts : List ArgTy} (hitem : ∀ t ∈ ts, t.isItem = false) {s s' : Reader}
    {args : List Arg} (h : collect (ts.map (readArg sys)) s = .ok args s') : s'.bufs = s.bufs := by
  induction ts generalizing s args with
  | nil =>
    cases h
    rfl
  | cons t ts ih =>
    obtain ⟨a, mid, ha, h⟩ := Exec.bind_eq_ok_iff.mp h
    obtain ⟨as, last, has, hpure⟩ := Exec.bind_eq_ok_iff.mp h
    cases hpure
    rw [ih (fun t' ht' => hitem t' (by simp [ht'])) has, readArg_bufs (hitem t (by simp)) ha]

/-- Items last, the cursors meeting and every value surviving the crossing:
the untyped arguments arrive. -/
theorem decodesUntyped_of_itemsLast {args : List Arg} {tag : MsgTag} {mem : Memory}
    (hnodup : (I.methods.map Method.opcode).Nodup) (hm : m ∈ I.methods)
    (htypes : args.map Arg.ty = m.args)
    (hrequest : derive_ipc_calls sys I m.opcode args (UtcbMr.from_mr mem) = .ok tag mr)
    (hlabel : LabelFits I.PROTOCOL_ID) (hcursor : SameCursor I.OpType m.args)
    (hlast : ItemsLast m.args) (hfaithful : ∀ a ∈ args, a.Faithful) :
    DecodesUntyped sys I m args tag mr := by
  intro received bufs hdelivered hslot
  obtain ⟨hrun, hsound, htag⟩ := derive_ipc_calls_success hrequest
  obtain ⟨hwords, hitems⟩ := tag_counts hsound htag
  obtain ⟨hsum, hle⟩ := hsound.words_add_items
  rw [← htypes] at hlast
  obtain ⟨front, back, rfl, hfront, hback⟩ := hlast.split
  rw [List.map_append, runAll_append, Exec.bind_eq_ok_iff] at hrun
  obtain ⟨_, mid, hmid, hrest⟩ := hrun
  obtain ⟨_, hwordsEnd⟩ := itemsBehindWords_of_split hfront hback hmid hrest hsound
  obtain ⟨hround, _⟩ := runAll_items_placed back hback hrest
  obtain ⟨hmidMono, _⟩ := runAll_appends front _ mid hmid
  obtain ⟨_, hkeep⟩ := runAll_appends back mid mr hrest
  simp only [offset_utcbMr, mem_utcbMr] at hmidMono hkeep
  have hfour : 4 ≤ mid.regs.offset := hmidMono
  have hroundLe := Alignment.le_roundUp (a := 8) (by decide) mid.regs.offset
  have hreach : mid.regs.offset ≤ 8 * tag.words := by omega
  have hdecode := op_decode_of_request hnodup hm hrequest hlabel hcursor.size_le hdelivered
    (by omega) bufs
  have hmem : Memory.AgreeOn 4 mid.regs.offset received mid.regs.mem :=
    (hdelivered.mono (Nat.zero_le _) hreach).trans (hkeep.mono (Nat.zero_le _) le_rfl)
  rw [← htypes] at hcursor
  obtain ⟨s, hcollect, hoff, _⟩ := args_readBack hfront
    (fun a ha => hfaithful a (by simp [ha])) hmid (hcursor.of_typed hback) bufs hmem
  have hbufs : s.bufs.ptr.isSome := by
    rw [collect_bufs (by simpa using hfront) hcollect]
    exact hslot
  have htyped : ∀ t ∈ back.map Arg.ty, t.isUntyped = false := by
    intro t ht
    obtain ⟨b, hb, rfl⟩ := List.mem_map.mp ht
    exact hback b hb
  have hcount : (back.map Arg.ty).countP ArgTy.isItem = back.countP fun a => a.ty.isItem :=
    List.countP_map ..
  have hfits : roundUp 8 s.mr.regs.offset + 16 * (back.map Arg.ty).countP ArgTy.isItem ≤ 504 := by
    rw [hcount, hoff, ← hround, roundUp_eight]
    omega
  obtain ⟨decoded, s', hdecoded⟩ := collect_typed sys (back.map Arg.ty) htyped hbufs hfits
  have hboth : collect (m.args.map (readArg sys)) (opcodeRead received I.OpType.ty.size bufs) =
      .ok (front ++ decoded) s' := by
    rw [← htypes, List.map_append, List.map_append]
    exact collect_append_eq_ok_iff.mpr ⟨_, _, _, hcollect, hdecoded, rfl⟩
  refine ⟨front ++ decoded, s', by rw [hdecode, Exec.bind_of_ok hboth, Exec.pure_apply], ?_⟩
  rw [untypedArgs_append, untypedArgs_append, untypedArgs_typed (collect_ty hdecoded) hback]

/-- With opcodes of the stub's width, the untyped arguments arrive only if the
label fits and every value survives the crossing. -/
theorem faithful_of_decodesUntyped {args : List Arg} {tag : MsgTag} {mem : Memory}
    (hsize : I.OpType.ty.size = 4) (htypes : args.map Arg.ty = m.args)
    (hrequest : derive_ipc_calls sys I m.opcode args (UtcbMr.from_mr mem) = .ok tag mr)
    (hlast : ItemsLast m.args) (hdecodes : DecodesUntyped sys I m args tag mr) :
    LabelFits I.PROTOCOL_ID ∧ ∀ a ∈ args, a.Faithful := by
  obtain ⟨hrun, _, htag⟩ := derive_ipc_calls_success hrequest
  obtain ⟨decoded, s, hdecode, hsame⟩ := hdecodes mr.regs.mem ⟨fun _ => 0, some 0⟩ (.refl _ _ _) rfl
  obtain ⟨hlabel, _, hcollect⟩ := op_decode_success hdecode
  rw [← htypes] at hlast
  obtain ⟨front, back, rfl, hfront, hback⟩ := hlast.split
  constructor
  · rw [htag] at hlabel
    exact (MsgTag.label_new_eq_iff _ _ _ _).mp hlabel
  · rw [List.map_append, runAll_append, Exec.bind_eq_ok_iff] at hrun
    obtain ⟨_, mid, hmid, hrest⟩ := hrun
    obtain ⟨_, hkeep⟩ := runAll_appends back mid mr hrest
    rw [← htypes, List.map_append, List.map_append] at hcollect
    obtain ⟨first, second, smid, hfirst, hsecond, rfl⟩ := collect_append_eq_ok_iff.mp hcollect
    have hfirstTy := collect_ty hfirst
    have hfirstItem : ∀ a ∈ first, a.ty.isItem = false := by
      intro a ha
      have hmem : a.ty ∈ front.map Arg.ty := hfirstTy ▸ List.mem_map_of_mem ha
      obtain ⟨b, hb, hty⟩ := List.mem_map.mp hmem
      rw [← hty]
      exact hfront b hb
    have hlength : first.length = front.length := by
      have hlen := congrArg List.length hfirstTy
      simpa using hlen
    rw [untypedArgs_append, untypedArgs_append, untypedArgs_of_untyped hfirstItem,
      untypedArgs_of_untyped hfront] at hsame
    obtain ⟨rfl, _⟩ := List.append_inj hsame hlength
    intro a ha
    rcases List.mem_append.mp ha with hin | hin
    · exact faithful_of_collect hfirstItem hmid hsize (hkeep.mono (Nat.zero_le _) le_rfl) hfirst a hin
    · exact faithful_of_typed (hback a hin)

/-- For every accepted interface and every message a stub writes: the items
stand behind the untyped words exactly when no untyped argument follows a
capability; the message is then decoded when the label fits, the cursors meet
and every value survives the crossing, and with opcodes of the stub's width
only then. -/
theorem typed_items_iff (sys : Fpages) (scope : l4_derive.Scope) (items : List l4_derive.TraitItem)
    (iface : l4_derive.Iface) (I : Interface) (hparse : l4_derive.Iface.parse items = .ok iface)
    (hback : l4_derive.iface_back scope iface = some I) (m : Method) (hm : m ∈ I.methods)
    (args : List Arg) (htypes : args.map Arg.ty = m.args) (mem : Memory) (tag : MsgTag) (mr : UtcbMr)
    (hrequest : derive_ipc_calls sys I m.opcode args (UtcbMr.from_mr mem) = .ok tag mr) :
    (ItemsBehindWords mr ↔ ItemsLast m.args) ∧
      (LabelFits I.PROTOCOL_ID ∧ SameCursor I.OpType m.args ∧ ItemsLast m.args ∧
          (∀ a ∈ args, a.Faithful) →
        ItemsBehindWords mr ∧ DecodesUntyped sys I m args tag mr) ∧
      (I.OpType.ty.size = 4 →
        (ItemsBehindWords mr ∧ DecodesUntyped sys I m args tag mr ↔
          LabelFits I.PROTOCOL_ID ∧ ItemsLast m.args ∧ ∀ a ∈ args, a.Faithful)) := by
  have hnodup : (I.methods.map Method.opcode).Nodup := by
    rw [l4_derive.iface_back_opcodes hparse hback]
    exact List.nodup_range
  obtain ⟨hrun, hsound, _⟩ := derive_ipc_calls_success hrequest
  have hlayout : ItemsBehindWords mr ↔ ItemsLast m.args := by
    rw [← htypes]
    exact itemsBehindWords_iff hrun hsound
  have hsufficient : LabelFits I.PROTOCOL_ID ∧ SameCursor I.OpType m.args ∧ ItemsLast m.args ∧
      (∀ a ∈ args, a.Faithful) → ItemsBehindWords mr ∧ DecodesUntyped sys I m args tag mr := by
    rintro ⟨hlabel, hcursor, hlast, hfaithful⟩
    exact ⟨hlayout.mpr hlast,
      decodesUntyped_of_itemsLast hnodup hm htypes hrequest hlabel hcursor hlast hfaithful⟩
  refine ⟨hlayout, hsufficient, fun hsize => ⟨?_, ?_⟩⟩
  · rintro ⟨hbehind, hdecodes⟩
    have hlast := hlayout.mp hbehind
    obtain ⟨hlabel, hfaithful⟩ :=
      faithful_of_decodesUntyped hsize htypes hrequest hlast hdecodes
    exact ⟨hlabel, hlast, hfaithful⟩
  · rintro ⟨hlabel, hlast, hfaithful⟩
    exact hsufficient ⟨hlabel, Or.inl hsize, hlast, hfaithful⟩

/-- A declaration with one method over the given argument types. -/
def copyDecl (types : List l4_derive.TypeExpr) : List l4_derive.TraitItem :=
  [.Attr (.Const "PROTOCOL_ID" (some 0x4000#64)),
    .Method ⟨"copy_in", false, .SelfRef true :: types.map (.Captured "arg"), none, false⟩]

def u64Expr : l4_derive.TypeExpr := .Path [("u64", [])]

def capExpr : l4_derive.TypeExpr := .Path [("Cap", [.Path [("Dataspace", [])]])]

def u64Ty : ArgTy := .scalar (Primitive.int .u64).serialisable

def u64Arg (n : Nat) : Arg := ⟨u64Ty, IntTy.u64.literal n⟩

def capArg (c : BitVec 64) : Arg := ⟨.cap, c⟩

/-- A capability behind two words is sent as an item behind them, and the words are decoded as they were sent. -/
theorem typed_items_capability_last :
    ∃ iface I tag mr, l4_derive.Iface.parse (copyDecl [u64Expr, u64Expr, capExpr]) = .ok iface ∧
      l4_derive.iface_back .prelude iface = some I ∧
      derive_ipc_calls .l4re I 0 [u64Arg 1, u64Arg 2, capArg 0x1000#64]
        (UtcbMr.from_mr fun _ => 0) = .ok tag mr ∧ ItemsBehindWords mr ∧
      DecodesUntyped .l4re I ⟨0, [u64Ty, u64Ty, .cap], .unit⟩ [u64Arg 1, u64Arg 2, capArg 0x1000#64]
        tag mr := by
  refine ⟨_, _, _, _, rfl, rfl, rfl, ?_⟩
  refine (typed_items_iff .l4re .prelude (copyDecl [u64Expr, u64Expr, capExpr]) _ _ rfl rfl
    ⟨0, [u64Ty, u64Ty, .cap], .unit⟩ (List.mem_singleton.mpr rfl)
    [u64Arg 1, u64Arg 2, capArg 0x1000#64] rfl (fun _ => 0) _ _ rfl).2.1 ?_
  refine ⟨⟨by decide, by decide⟩, Or.inl rfl, by decide, ?_⟩
  simp [Arg.Faithful, u64Arg, u64Ty, capArg]

/-- The object representation of a scalar argument. -/
def Arg.scalarBytes : Arg → List UInt8
  | ⟨.scalar _, v⟩ => Ty.Value.bytes v
  | ⟨.unit, _⟩ | ⟨.flexPage, _⟩ | ⟨.option _, _⟩ | ⟨.cap, _⟩ | ⟨.string, _⟩ | ⟨.vec _, _⟩ => []

/-- `copy_in` passes a capability between scalars: its item takes the third and
fourth register, where the kernel takes untyped words, and the server decodes
the two scalars behind it to the two words of the item. -/
theorem typed_items_fails :
    ∃ iface I tag mr,
      l4_derive.Iface.parse (copyDecl [u64Expr, capExpr, u64Expr, u64Expr]) = .ok iface ∧
      l4_derive.iface_back .prelude iface = some I ∧
      derive_ipc_calls .l4re I 0 [u64Arg 1, capArg 0x1000#64, u64Arg 2, u64Arg 3]
        (UtcbMr.from_mr fun _ => 0) = .ok tag mr ∧
      tag.words = 4 ∧ tag.items = 1 ∧ mr.placed = [8 * 2] ∧
      (op_decode .l4re I tag ⟨UtcbMr.from_mr mr.regs.mem, ⟨fun _ => 0, some 0⟩⟩).value?.map
          (fun r => (untypedArgs r.2).map Arg.scalarBytes) =
        some [(u64Arg 1).scalarBytes, (u64Arg 8).scalarBytes, (u64Arg 0x1037).scalarBytes] ∧
      ¬ ItemsBehindWords mr ∧
      ¬ DecodesUntyped .l4re I ⟨0, [u64Ty, .cap, u64Ty, u64Ty], .unit⟩
        [u64Arg 1, capArg 0x1000#64, u64Arg 2, u64Arg 3] tag mr := by
  refine ⟨_, _, _, _, rfl, rfl, rfl, by decide +kernel, by decide +kernel, by decide +kernel,
    by decide +kernel, ?_, ?_⟩
  · unfold ItemsBehindWords
    decide +kernel
  · intro hdecodes
    obtain ⟨decoded, s, hdecode, hsame⟩ := hdecodes _ ⟨fun _ => 0, some 0⟩ (.refl _ _ _) rfl
    have hvalues := congrArg
      (fun r => r.value?.map fun r => (untypedArgs r.2).map Arg.scalarBytes) hdecode
    simp only [Outcome.value?, Option.map_some, hsame] at hvalues
    revert hvalues
    decide +kernel

end l4.ipc
