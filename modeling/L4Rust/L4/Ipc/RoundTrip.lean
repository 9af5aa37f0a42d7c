import L4Rust.L4.Ipc.Arguments

open l4.error l4.utcb Cursor

namespace l4.ipc

variable {sys : Fpages}

/-- The reader starts where the writer did and finds what the writer left up to
where it stopped. -/
structure Reader.Finds (s : Reader) (mr mr' : UtcbMr) : Prop where
  offset_eq : s.mr.regs.offset = mr.regs.offset
  agree : Memory.AgreeOn mr.regs.offset mr'.regs.offset s.mr.regs.mem mr'.regs.mem

/-- The call returns the value and stops where the writer did. -/
def Returns {α : Type} (x : Exec Error Reader α) (s : Reader) (v : α) (mr' : UtcbMr) : Prop :=
  ∃ t, x s = .ok v t ∧ t.mr.regs.offset = mr'.regs.offset

theorem returns_of_readsBack {α : Type} {w : Exec Error UtcbMr Unit} {x : Exec Error Reader α} {v : α}
    (h : ReadsBack w x v) {mr mr' : UtcbMr} (hw : w mr = .ok () mr') {s : Reader}
    (hs : s.Finds mr mr') : Returns x s v mr' := by
  obtain ⟨t, ht, hoff, _⟩ := h mr mr' hw s hs.offset_eq hs.agree
  exact ⟨t, ht, hoff⟩

/-- An optional argument with the type of its value. -/
structure OptionArg where
  T : Serialisable
  val : Option T.toTy.Value

def OptionArg.arg (o : OptionArg) : Arg := ⟨.option o.T, o.val⟩

/-- An option is never read as absent. -/
theorem option_read_isSome {T : Serialisable} {s t : Reader} {v : Option T.toTy.Value}
    (h : (ArgTy.option T).read sys s = .ok v t) : v.isSome := by
  obtain ⟨r, hr, _⟩ := reader_onRegs_eq_ok_iff.mp h
  obtain ⟨val, _, _, hr⟩ := Exec.bind_eq_ok_iff.mp hr
  obtain ⟨_, _, _, hr⟩ := Exec.bind_eq_ok_iff.mp hr
  cases hr
  rfl

theorem options_read_isSome {opts : List OptionArg} {s t : Reader}
    (h : collect (opts.map fun o => readArg sys o.arg.ty) s = .ok (opts.map OptionArg.arg) t) :
    ∀ o ∈ opts, o.val.isSome := by
  induction opts generalizing s with
  | nil => nofun
  | cons o opts ih =>
    obtain ⟨a, mid, ha, h⟩ := Exec.bind_eq_ok_iff.mp h
    obtain ⟨rest, last, hrest, hpure⟩ := Exec.bind_eq_ok_iff.mp h
    obtain ⟨v, _, hv, hpair⟩ := Exec.bind_eq_ok_iff.mp ha
    injection hpure with hlist hlast
    injection hlist with hhead htail
    injection hpair with harg _
    subst htail hlast hhead
    have hval : v = o.val := Arg.val_eq harg
    subst hval
    rw [List.forall_mem_cons]
    exact ⟨option_read_isSome hv, ih hrest⟩

/-- An optional argument is read back exactly when it is present, wherever it
stands and whatever the registers held before; and so are the optional arguments
of a message exactly when all of them are. -/
theorem options_round_trip_iff (sys : Fpages) :
    (∀ (T : Serialisable) (v : Option T.toTy.Value) (mr mr' : UtcbMr) (s : Reader),
      (ArgTy.option T).write sys v mr = .ok () mr' → s.Finds mr mr' →
        (Returns ((ArgTy.option T).read sys) s v mr' ↔ v.isSome)) ∧
    ∀ (opts : List OptionArg) (mr mr' : UtcbMr) (s : Reader),
      runAll (opts.map fun o => o.arg.write sys) mr = .ok () mr' → s.Finds mr mr' →
        (Returns (collect (opts.map fun o => readArg sys o.arg.ty)) s (opts.map OptionArg.arg) mr' ↔
          ∀ o ∈ opts, o.val.isSome) := by
  constructor
  · intro T v mr mr' s hw hs
    constructor
    · rintro ⟨t, ht, _⟩
      exact option_read_isSome ht
    · intro hv
      exact returns_of_readsBack (ArgTy.write_readsBack (.option T) v rfl hv).readsBack hw hs
  · intro opts mr mr' s hw hs
    constructor
    · rintro ⟨t, ht, _⟩
      exact options_read_isSome ht
    · intro hall
      refine returns_of_readsBack (.runAll (fun o _ => o.arg.write_appends) fun o ho => ?_) hw hs
      exact (Arg.write_readsBack sys o.arg rfl (hall o ho)).readsBack

/-- The registers of a thread whose last message left sevens in them. -/
private def sevens : UtcbMr := UtcbMr.from_mr fun _ => 7

/-- A reader of what was written from the start of the registers. It has no
slots, which untyped arguments do not use. -/
private def rewound (mr' : UtcbMr) : Reader := ⟨{ mr' with regs.offset := 0 }, fun _ => 0, none⟩

private theorem rewound_finds (mr' : UtcbMr) : (rewound mr').Finds sevens mr' := ⟨rfl, .refl _ _ _⟩

/-- A value that is present comes back, whatever was in the registers before. -/
theorem options_round_trip_present :
    ∃ mr', (ArgTy.option IntTy.u64.serialisable).write Fpages.l4re (some (IntTy.u64.literal 5)) sevens =
        .ok () mr' ∧
      Returns ((ArgTy.option IntTy.u64.serialisable).read Fpages.l4re) (rewound mr')
        (some (IntTy.u64.literal 5)) mr' := by
  obtain ⟨mr', hw⟩ : ∃ mr', (ArgTy.option IntTy.u64.serialisable).write Fpages.l4re
      (some (IntTy.u64.literal 5)) sevens = .ok () mr' := ⟨_, rfl⟩
  have hiff := (options_round_trip_iff Fpages.l4re).1 _ _ _ _ _ hw (rewound_finds mr')
  exact ⟨mr', hw, hiff.mpr rfl⟩

/-- An absent `u64` comes back as the bytes of the last message. -/
theorem absent_option_read_as_present :
    ∃ mr', (ArgTy.option IntTy.u64.serialisable).write Fpages.l4re none sevens = .ok () mr' ∧
      (rewound mr').Finds sevens mr' ∧
      (∃ t, (ArgTy.option IntTy.u64.serialisable).read Fpages.l4re (rewound mr') =
        .ok (some (IntTy.u64.literal 0x0707070707070707)) t) ∧
      ¬ Returns ((ArgTy.option IntTy.u64.serialisable).read Fpages.l4re) (rewound mr') none mr' := by
  refine ⟨_, rfl, rewound_finds _, ⟨_, rfl⟩, ?_⟩
  rintro ⟨t, ht, _⟩
  cases option_read_isSome ht

theorem string_readsBack (sys : Fpages) (str : String) :
    ReadsBack (ArgTy.string.write sys str) (ArgTy.string.read sys) (withoutFinalNul str) :=
  (onRegs_readsBack (Registers.write_str_readsBack_text str)).readsBack

/-- A string is read back from where it was written, without a final NUL if it
has one, and the reader stops where the writer did. -/
theorem string_round_trip (sys : Fpages) (str : String) {mr mr' : UtcbMr}
    (hw : ArgTy.string.write sys str mr = .ok () mr') {s : Reader} (hs : s.Finds mr mr') :
    Returns (ArgTy.string.read sys) s (withoutFinalNul str) mr' :=
  returns_of_readsBack (string_readsBack sys str) hw hs

/-- A text without a final NUL comes back as it is. -/
theorem string_round_trip_hello :
    ∃ mr', ArgTy.string.write Fpages.l4re "hello" sevens = .ok () mr' ∧
      Returns (ArgTy.string.read Fpages.l4re) (rewound mr') "hello" mr' := by
  obtain ⟨mr', hw⟩ : ∃ mr', ArgTy.string.write Fpages.l4re "hello" sevens = .ok () mr' := ⟨_, rfl⟩
  have hback := string_round_trip Fpages.l4re "hello" hw (rewound_finds mr')
  have htext : withoutFinalNul "hello" = "hello" := by decide
  rw [htext] at hback
  exact ⟨mr', hw, hback⟩

/-- A string of one NUL comes back empty. -/
theorem nul_string_read_as_empty :
    ∃ mr', ArgTy.string.write Fpages.l4re (String.singleton NUL) sevens = .ok () mr' ∧
      (rewound mr').Finds sevens mr' ∧ Returns (ArgTy.string.read Fpages.l4re) (rewound mr') "" mr' ∧
      ¬ Returns (ArgTy.string.read Fpages.l4re) (rewound mr') (String.singleton NUL) mr' := by
  obtain ⟨mr', hw⟩ : ∃ mr', ArgTy.string.write Fpages.l4re (String.singleton NUL) sevens =
      .ok () mr' := ⟨_, rfl⟩
  have hempty : Returns (ArgTy.string.read Fpages.l4re) (rewound mr') "" mr' :=
    returns_of_readsBack (string_readsBack _ (String.singleton NUL)) hw (rewound_finds mr')
  refine ⟨mr', hw, rewound_finds mr', hempty, ?_⟩
  rintro ⟨t, ht, _⟩
  obtain ⟨t', ht', _⟩ := hempty
  rw [ht] at ht'
  injection ht' with hstr _
  exact absurd hstr (by decide)

end l4.ipc
