import L4Rust.L4Sys.Factory

namespace l4_sys.factory

open Records

variable {sys : FactoryConsts} {u v : FactoryMsg} {r : Record}

theorem getLsbD_set_words (u : FactoryMsg) (w : Nat) {i : Nat} (hi : i < 64) :
    (u.set_words w).tag.getLsbD i = if i < 6 then w.testBit i else u.tag.getLsbD i := by
  simp only [FactoryMsg.set_words, BitVec.getLsbD_or, BitVec.getLsbD_and, BitVec.getLsbD_not,
    BitVec.getLsbD_ofNat 64 w, getLsbD_six_ones, hi]
  by_cases h6 : i < 6
  · simp [h6]
  · simp [h6]

/-- The tag says the same, apart from its word count. -/
structure SameTag (u v : FactoryMsg) : Prop where
  label : l4_msgtag_label v.tag = l4_msgtag_label u.tag
  items : l4_msgtag_items v.tag = l4_msgtag_items u.tag
  flags : l4_msgtag_flags v.tag = l4_msgtag_flags u.tag

theorem SameTag.refl (u : FactoryMsg) : SameTag u u := ⟨rfl, rfl, rfl⟩

theorem SameTag.trans {x : FactoryMsg} (h : SameTag u v) (h' : SameTag v x) : SameTag u x :=
  ⟨h'.label.trans h.label, h'.items.trans h.items, h'.flags.trans h.flags⟩

theorem sameTag_set_words (u : FactoryMsg) (w : Nat) : SameTag u (u.set_words w) := by
  have hsame (i : Nat) (hlo : 6 ≤ i) (hi : i < 64) : (u.set_words w).tag.getLsbD i = u.tag.getLsbD i := by
    rw [getLsbD_set_words u w hi, if_neg (by omega)]
  refine ⟨?_, ?_, ?_⟩
  · exact l4_msgtag_label_congr fun i hlo hi => hsame i (by omega) hi
  · exact l4_msgtag_items_congr fun i hlo hi => hsame i hlo (by omega)
  · exact l4_msgtag_flags_congr fun i hlo hi => hsame i (by omega) (by omega)

theorem words_set_words (u : FactoryMsg) {w : Nat} (h : w < 64) : (u.set_words w).words = w := by
  refine l4_msgtag_words_eq h fun i hi => ?_
  rw [getLsbD_set_words u w (by omega), if_pos hi]

/-- One more record behind the words of the message. -/
structure Appended (r : Record) (u v : FactoryMsg) : Prop where
  below : Memory.AgreeOn 0 (8 * u.words) v.mem u.mem
  laid : Laid v.mem u.words [r] v.words
  sameTag : SameTag u v

theorem header_eq {type len : Nat} (h : type < 2 ^ 16) : type ||| len <<< 16 = type + 2 ^ 16 * len := by
  rw [Nat.or_comm, ← Nat.shiftLeft_add_eq_or_of_lt h, Nat.shiftLeft_eq]
  omega

/-- A record is appended by its header, its bytes and the new word count, whatever
is written behind the bytes. -/
theorem appended_of_stores (behind : List UInt8) (hkind : r.kind < 2 ^ 16)
    (hfits : u.words + 1 + wordsFor r.bytes.length ≤ UTCB_GENERIC_DATA_SIZE)
    (hmem : v.mem = (u.mem.store (8 * u.words) (LittleEndian.encode 8
      (r.kind ||| r.bytes.length <<< 16))).store (8 * (u.words + 1)) (r.bytes ++ behind))
    (htag : v.tag = (u.set_words (u.words + 1 + wordsFor r.bytes.length)).tag) : Appended r u v := by
  unfold UTCB_GENERIC_DATA_SIZE at hfits
  have hlen := le_wordsFor r.bytes.length
  have hwords : v.words = u.words + 1 + wordsFor r.bytes.length := by
    rw [FactoryMsg.words, htag]
    exact words_set_words u (by omega)
  refine ⟨?_, ?_, ?_⟩
  · rw [hmem]
    have hbytes := Memory.agreeOn_store_below (u.mem.store (8 * u.words) (LittleEndian.encode 8
      (r.kind ||| r.bytes.length <<< 16))) (8 * (u.words + 1)) (r.bytes ++ behind)
    exact (hbytes.mono (Nat.le_refl _) (by omega)).trans (Memory.agreeOn_store_below u.mem _ _)
  · rw [hmem, hwords, header_eq hkind]
    exact laid_store u.mem u.words behind hkind (by omega)
  · obtain ⟨hlabel, hitems, hflags⟩ := sameTag_set_words u (u.words + 1 + wordsFor r.bytes.length)
    rw [← htag] at hlabel hitems hflags
    exact ⟨hlabel, hitems, hflags⟩

/-- What a call does that is to append the record: it returns `false` and does
nothing, appends the record and returns `true`, or aborts. The condition says
whether it does so within the message registers. -/
def Adds (r : Record) (fits : Prop) (u : FactoryMsg) (o : Option (Bool × FactoryMsg)) : Prop :=
  (fits ∧ o = some (false, u)) ∨
    (∃ v ranges, o = some (true, v) ∧ Appended r u v ∧ v.written = u.written ++ ranges ∧
      ((∀ range ∈ ranges, range.2 ≤ 8 * UTCB_GENERIC_DATA_SIZE) ↔ fits)) ∨
    (¬ fits ∧ o = none)

theorem set_mr_of_lt {i : Nat} (word : Nat) (h : i < UTCB_GENERIC_DATA_SIZE) :
    u.set_mr i word = some (u.put (8 * i) (LittleEndian.encode 8 word)) := if_pos h

theorem add_word_adds {type : Nat} (hkind : type < 2 ^ 16) (d : BitVec 64) (u : FactoryMsg) :
    Adds ⟨type, LittleEndian.encode 8 d.toNat⟩ True u (l4_factory_create_add_word_u type d u) := by
  by_cases hfull : u.words + 2 > UTCB_GENERIC_DATA_SIZE
  · exact Or.inl ⟨trivial, if_pos hfull⟩
  · have hfirst : u.words < UTCB_GENERIC_DATA_SIZE := by omega
    have hsecond : u.words + 1 < UTCB_GENERIC_DATA_SIZE := by omega
    refine Or.inr (Or.inl ⟨((u.put (8 * u.words) (LittleEndian.encode 8 (type ||| 8 <<< 16))).put
      (8 * (u.words + 1)) (LittleEndian.encode 8 d.toNat)).set_words (u.words + 2),
      [(8 * u.words, 8 * u.words + 8), (8 * (u.words + 1), 8 * (u.words + 1) + 8)], ?_, ?_, ?_, ?_⟩)
    · simp only [l4_factory_create_add_word_u, if_neg hfull, set_mr_of_lt _ hfirst, set_mr_of_lt _ hsecond,
        Option.bind_eq_bind, Option.bind_some]
      rfl
    · refine appended_of_stores [] hkind ?_ ?_ ?_
      · simp only [LittleEndian.length_encode, wordsFor]
        omega
      · rw [List.append_nil, LittleEndian.length_encode]
        rfl
      · rw [LittleEndian.length_encode]
        rfl
    · simp [FactoryMsg.set_words, FactoryMsg.put, List.append_assoc]
    · simp only [iff_true, List.mem_cons, List.not_mem_nil, or_false, forall_eq_or_imp, forall_eq]
      omega

theorem add_nil_adds (sys : FactoryConsts) (u : FactoryMsg) :
    Adds ⟨sys.L4_VARG_TYPE_NIL, []⟩ True u (l4_factory_create_add_nil_u sys u) := by
  by_cases hfull : u.words + 1 > UTCB_GENERIC_DATA_SIZE
  · exact Or.inl ⟨trivial, if_pos hfull⟩
  · have hfirst : u.words < UTCB_GENERIC_DATA_SIZE := by omega
    refine Or.inr (Or.inl ⟨(u.put (8 * u.words) (LittleEndian.encode 8 sys.L4_VARG_TYPE_NIL)).set_words
      (u.words + 1), [(8 * u.words, 8 * u.words + 8)], ?_, ?_, ?_, ?_⟩)
    · simp only [l4_factory_create_add_nil_u, if_neg hfull, set_mr_of_lt _ hfirst, Option.bind_eq_bind,
        Option.bind_some]
      rfl
    · refine appended_of_stores [] sys.nil_lt ?_ ?_ ?_
      · simp only [List.length_nil, wordsFor]
        omega
      · simp only [List.length_nil, Nat.zero_shiftLeft, Nat.or_zero, List.append_nil, Memory.store_nil]
        rfl
      · simp only [List.length_nil, wordsFor]
        rfl
    · simp [FactoryMsg.set_words, FactoryMsg.put]
    · simp only [iff_true, List.mem_singleton, forall_eq]
      omega

/-- There is room for the terminator: the string does not end where the registers
do. -/
def TerminatorFits (len : Nat) (u : FactoryMsg) : Prop :=
  ¬ (8 ∣ len ∧ u.words + 1 + len / 8 = UTCB_GENERIC_DATA_SIZE)

/-- The bytes and a zero byte behind them are written, in one go or in two. -/
structure WritesString (bytes : List UInt8) (write : FactoryMsg → Nat → FactoryMsg) : Prop where
  mem : ∀ u c, (write u c).mem = u.mem.store c (bytes ++ [0])
  tag : ∀ u c, (write u c).tag = u.tag
  written : ∀ u c, ∃ ranges, (write u c).written = u.written ++ ranges ∧
    (∀ range ∈ ranges, range.2 ≤ c + bytes.length + 1) ∧ ∃ range ∈ ranges, range.2 = c + bytes.length + 1

theorem add_bytes_adds {type : Nat} (hkind : type < 2 ^ 16) {bytes : List UInt8}
    {write : FactoryMsg → Nat → FactoryMsg} (hwrite : WritesString bytes write) (u : FactoryMsg) :
    Adds ⟨type, bytes⟩ (TerminatorFits bytes.length u) u
      (l4_factory_create_add_bytes_u type bytes.length write u) := by
  have hround : (bytes.length + 8 - 1) / 8 = wordsFor bytes.length := rfl
  simp only [l4_factory_create_add_bytes_u, hround, TerminatorFits]
  by_cases hfull : u.words + 1 + wordsFor bytes.length > UTCB_GENERIC_DATA_SIZE
  · rw [if_pos hfull]
    unfold wordsFor at hfull
    exact Or.inl ⟨by omega, rfl⟩
  rw [if_neg hfull]
  have hfirst : u.words < UTCB_GENERIC_DATA_SIZE := by omega
  by_cases hptr : u.words + 1 < UTCB_GENERIC_DATA_SIZE
  · obtain ⟨ranges, hwritten, hall, range, hmem, hend⟩ := hwrite.written
      (u.put (8 * u.words) (LittleEndian.encode 8 (type ||| bytes.length <<< 16))) (8 * (u.words + 1))
    simp only [set_mr_of_lt _ hfirst, FactoryMsg.mr_ptr, if_pos hptr, Option.bind_eq_bind, Option.bind_some]
    refine Or.inr (Or.inl ⟨_, (8 * u.words, 8 * u.words + 8) :: ranges, rfl, ?_, ?_, ?_⟩)
    · refine appended_of_stores [0] hkind (Nat.not_lt.mp hfull) (hwrite.mem _ _) ?_
      simp only [FactoryMsg.set_words, hwrite.tag, FactoryMsg.put]
    · refine hwritten.trans ?_
      simp [FactoryMsg.put]
    · unfold wordsFor at hfull
      constructor
      · intro hin
        have hle := hin range (List.mem_cons_of_mem _ hmem)
        omega
      · intro hroom range' hmem'
        rcases List.mem_cons.mp hmem' with rfl | hmem'
        · dsimp only
          omega
        · have hle := hall range' hmem'
          omega
  · simp only [set_mr_of_lt _ hfirst, FactoryMsg.mr_ptr, if_neg hptr, Option.bind_eq_bind, Option.bind_some,
      Option.bind_none]
    unfold wordsFor at hfull
    exact Or.inr (Or.inr ⟨by omega, rfl⟩)

theorem add_cstr_adds (sys : FactoryConsts) (s : CStr) (u : FactoryMsg) :
    Adds ⟨sys.L4_VARG_TYPE_STRING, s.bytes⟩ (TerminatorFits s.bytes.length u) u
      (l4_factory_create_add_cstr_u sys s u) := by
  have hcopy : s.mem.take (s.bytes.length + 1) = s.bytes ++ [0] :=
    List.take_of_length_le (by simp [CStr.mem])
  have hwrite : WritesString s.bytes fun u c => u.put c (s.bytes ++ [0]) := by
    refine ⟨fun _ _ => rfl, fun _ _ => rfl, fun u c => ⟨_, rfl, ?_, ?_⟩⟩
    · simp [Nat.add_assoc]
    · simp [Nat.add_assoc]
  rw [l4_factory_create_add_cstr_u, strlen_eq, hcopy]
  exact add_bytes_adds sys.string_lt hwrite u

theorem add_str_adds (sys : FactoryConsts) (s : List UInt8) (u : FactoryMsg) :
    Adds ⟨sys.L4_VARG_TYPE_STRING, s⟩ (TerminatorFits s.length u) u
      (l4_factory_create_add_str_u sys s u) := by
  have hwrite : WritesString s fun u c => (u.put c s).put (c + s.length) [0] := by
    refine ⟨fun u c => (Memory.store_append u.mem c s [0]).symm, fun _ _ => rfl,
      fun u c => ⟨_, List.append_assoc .., ?_, ?_⟩⟩
    · simp
    · simp
  exact add_bytes_adds sys.string_lt hwrite u

/-- Whether an argument leaves room for its terminator, if it has one. -/
def FactoryArg.Terminated (u : FactoryMsg) : FactoryArg → Prop
  | .cstr s => TerminatorFits s.bytes.length u
  | .str s => TerminatorFits s.length u
  | .int _ | .uint _ | .fpage _ | .nil => True

theorem FactoryArg.add_adds (sys : FactoryConsts) (arg : FactoryArg) (u : FactoryMsg) :
    Adds (arg.record sys) (arg.Terminated u) u (arg.add sys u) := by
  cases arg with
  | int d => exact add_word_adds sys.mword_lt d u
  | uint d => exact add_word_adds sys.umword_lt d u
  | cstr s => exact add_cstr_adds sys s u
  | str s => exact add_str_adds sys s u
  | fpage d => exact add_word_adds sys.fpage_lt d u
  | nil => exact add_nil_adds sys u

theorem FactoryArg.add_cases {arg : FactoryArg} {answer : Bool} (h : arg.add sys u = some (answer, v)) :
    answer = false ∧ v = u ∨ answer = true ∧ Appended (arg.record sys) u v := by
  rcases arg.add_adds sys u with ⟨_, hadd⟩ | ⟨v', _, hadd, happended, _⟩ | ⟨_, hadd⟩
  · cases hadd.symm.trans h
    exact Or.inl ⟨rfl, rfl⟩
  · cases hadd.symm.trans h
    exact Or.inr ⟨rfl, happended⟩
  · cases hadd.symm.trans h

/-- The arguments whose calls returned `true`. -/
def succeeded (args : List FactoryArg) (answers : List Bool) : List FactoryArg :=
  ((args.zip answers).filter Prod.snd).map Prod.fst

theorem Appended.extends {rs : List Record} (h : Appended r u v) (hlaid : Laid u.mem 1 rs u.words) :
    Laid v.mem 1 (rs ++ [r]) v.words :=
  (hlaid.congr (h.below.mono (Nat.zero_le _) (Nat.le_refl _))).append h.laid

/-- Every call of a sequence adds its record behind those from before, or none. -/
theorem addAll_laid {args : List FactoryArg} {answers : List Bool} {rs : List Record}
    (hrun : addAll sys args u = some (answers, v)) (hlaid : Laid u.mem 1 rs u.words) :
    answers.length = args.length ∧
      Laid v.mem 1 (rs ++ (succeeded args answers).map (FactoryArg.record sys)) v.words ∧ SameTag u v := by
  induction args generalizing u answers rs with
  | nil =>
    cases hrun
    exact ⟨rfl, by simpa [succeeded] using hlaid, .refl _⟩
  | cons arg args ih =>
    simp only [addAll, Option.bind_eq_bind, Option.bind_eq_some_iff] at hrun
    obtain ⟨⟨answer, mid⟩, hadd, ⟨answers', v'⟩, hrest, heq⟩ := hrun
    cases heq
    rcases arg.add_cases hadd with ⟨rfl, rfl⟩ | ⟨rfl, happended⟩
    · obtain ⟨hlength, hlaid', hsame⟩ := ih hrest hlaid
      exact ⟨congrArg Nat.succ hlength, hlaid', hsame⟩
    · obtain ⟨hlength, hlaid', hsame⟩ := ih hrest (happended.extends hlaid)
      refine ⟨congrArg Nat.succ hlength, ?_, happended.sameTag.trans hsame⟩
      rw [List.append_assoc] at hlaid'
      exact hlaid'

theorem start_words {protocol : BitVec 32} {target_cap : BitVec 64} {start : FactoryMsg}
    (h : l4_factory_create_start_u sys protocol target_cap u = some start) : start.words = 1 := by
  simp only [l4_factory_create_start_u, Option.bind_eq_bind, Option.bind_eq_some_iff] at h
  obtain ⟨mid, _, heq⟩ := h
  cases heq
  refine l4_msgtag_words_eq (by decide) fun i hi => ?_
  rw [getLsbD_l4_msgtag, if_pos hi]
  rfl

/-- Whatever the calls after the start of a message add, walking over its words
finds the arguments of the successful ones, and nothing else of the tag changes. A
call that returns `false` does nothing. -/
theorem factory_args_self_delimiting (sys : FactoryConsts) (protocol : BitVec 32) (target_cap : BitVec 64)
    (u start v : FactoryMsg) (args : List FactoryArg) (answers : List Bool)
    (hstart : l4_factory_create_start_u sys protocol target_cap u = some start)
    (hrun : addAll sys args start = some (answers, v)) :
    answers.length = args.length ∧
      walk v.mem 1 v.words = (succeeded args answers).map (FactoryArg.record sys) ∧ SameTag start v ∧
      ∀ (arg : FactoryArg) (x y : FactoryMsg), arg.add sys x = some (false, y) → y = x := by
  have hempty : Laid start.mem 1 [] start.words := (start_words hstart).symm
  obtain ⟨hlength, hlaid, hsame⟩ := addAll_laid hrun hempty
  refine ⟨hlength, hlaid.walk, hsame, ?_⟩
  intro arg x y h
  rcases arg.add_cases h with ⟨_, hkeep⟩ | ⟨htrue, _⟩
  · exact hkeep
  · cases htrue

/-- Every kind of argument, with strings that end within a word and at its end. -/
private def oneOfEach : List FactoryArg :=
  [.int (-1), .str [104, 101, 108, 108, 111], .nil, .cstr ⟨[97, 98, 99, 100, 101, 102, 103, 104], by simp⟩,
    .uint 7, .fpage 0x1000, .str []]

private def blank (tag : BitVec 64) : FactoryMsg := ⟨tag, fun _ => 0, 0, fun _ => 0, []⟩

/-- One argument of each kind, an empty string among them: all are added, and the walk finds these and no other. -/
theorem factory_args_one_of_each :
    ∃ start v answers, l4_factory_create_start_u .l4re (-3) 0x1000 (blank 0) = some start ∧
      addAll .l4re oneOfEach start = some (answers, v) ∧ answers = List.replicate 7 true ∧
      walk v.mem 1 v.words = oneOfEach.map (FactoryArg.record .l4re) := by
  have hrun : ((l4_factory_create_start_u .l4re (-3) 0x1000 (blank 0)).bind
      (addAll .l4re oneOfEach)).map Prod.fst = some (List.replicate 7 true) := by decide +kernel
  rw [Option.map_eq_some_iff] at hrun
  obtain ⟨⟨answers, v⟩, hboth, rfl⟩ := hrun
  obtain ⟨start, hstart, hadd⟩ := Option.bind_eq_some_iff.mp hboth
  obtain ⟨_, hwalk, _⟩ := factory_args_self_delimiting .l4re (-3) 0x1000 (blank 0) start v oneOfEach _
    hstart hadd
  exact ⟨start, v, _, hstart, hadd, rfl, hwalk⟩

/-- The call returns, and writes to message registers only. -/
def StaysInside (sys : FactoryConsts) (arg : FactoryArg) (u : FactoryMsg) : Prop :=
  ∃ answer v ranges, arg.add sys u = some (answer, v) ∧ v.written = u.written ++ ranges ∧
    ∀ range ∈ ranges, range.2 ≤ 8 * UTCB_GENERIC_DATA_SIZE

/-- A call stays within the message registers unless its string fills them to the
last byte: then the terminator comes behind them, or the index of an empty string
does. -/
theorem factory_writes_inside_iff (sys : FactoryConsts) (arg : FactoryArg) (u : FactoryMsg) :
    StaysInside sys arg u ↔ arg.Terminated u := by
  rcases arg.add_adds sys u with ⟨hfits, hadd⟩ | ⟨v, ranges, hadd, _, hwritten, hiff⟩ | ⟨hfits, hadd⟩
  · exact iff_of_true ⟨false, u, [], hadd, (List.append_nil _).symm, nofun⟩ hfits
  · rw [← hiff]
    constructor
    · rintro ⟨answer, v', ranges', hadd', hwritten', hall⟩
      cases hadd.symm.trans hadd'
      rw [List.append_cancel_left (hwritten.symm.trans hwritten')]
      exact hall
    · intro hall
      exact ⟨true, v, ranges, hadd, hwritten, hall⟩
  · refine iff_of_false ?_ hfits
    rintro ⟨answer, v, ranges, hadd', _⟩
    cases hadd.symm.trans hadd'

/-- With 61 words in the message, the terminator of eight bytes is written behind the
registers. With 62 words, the empty string has no register to point to. -/
theorem factory_writes_outside :
    ¬ StaysInside .l4re (.str (List.replicate 8 65)) (blank 61) ∧ ¬ StaysInside .l4re (.str []) (blank 62) := by
  constructor
  · rintro ⟨answer, v, ranges, hadd, hwritten, hall⟩
    have hranges : (FactoryArg.add .l4re (.str (List.replicate 8 65)) (blank 61)).map (·.2.written) =
        some [(488, 496), (496, 504), (504, 505)] := by decide +kernel
    rw [hadd, Option.map_some] at hranges
    have hlast : (504, 505) ∈ ranges := by
      have heq : [] ++ ranges = [(488, 496), (496, 504), (504, 505)] :=
        hwritten.symm.trans (Option.some.inj hranges)
      rw [List.nil_append] at heq
      simp [heq]
    exact absurd (hall _ hlast) (by decide)
  · rintro ⟨answer, v, ranges, hadd, _⟩
    have hnone : FactoryArg.add .l4re (.str []) (blank 62) = none := rfl
    rw [hnone] at hadd
    cases hadd

end l4_sys.factory
