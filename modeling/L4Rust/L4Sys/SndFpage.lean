import L4Rust.L4Sys.IpcBasic

namespace l4_sys

/-- The constants of the C headers for typed items, and the error code for a full
message. -/
structure ItemConsts where
  L4_ITEM_MAP : BitVec 64
  L4_ITEM_CONT : BitVec 64
  L4_ENOMEM : Nat
  enomem_pos : 0 < L4_ENOMEM

/-- The constants of the L4Re headers. -/
def ItemConsts.l4re : ItemConsts where
  L4_ITEM_MAP := 8
  L4_ITEM_CONT := 1
  L4_ENOMEM := 12
  enomem_pos := by decide

/-- A message that is being put together: its tag and the message registers. -/
structure Message where
  tag : BitVec 64
  mr : Nat → BitVec 64

namespace Message

/-- The macro `mr!`; past the registers the index panics. -/
def set_mr (self : Message) (i : Nat) (word : BitVec 64) : Option Message :=
  if i < UTCB_GENERIC_DATA_SIZE then some { self with mr := Function.update self.mr i word } else none

theorem set_mr_of_lt {m : Message} {i : Nat} {word : BitVec 64} (h : i < UTCB_GENERIC_DATA_SIZE) :
    m.set_mr i word = some { m with mr := Function.update m.mr i word } := if_pos h

end Message

/-- A flexpage and the place it is sent to. -/
structure SndFpage where
  snd_fpage : BitVec 64
  snd_base : BitVec 64

variable (sys : ItemConsts)

/-- The word in front of a flexpage. -/
def SndFpage.item (page : SndFpage) : BitVec 64 := page.snd_base ||| sys.L4_ITEM_MAP ||| sys.L4_ITEM_CONT

def l4_sndfpage_add_u (page : SndFpage) (m : Message) : Option (Int × Message) := do
  let i := (l4_msgtag_words m.tag).toNat + 2 * l4_msgtag_items m.tag
  if i ≥ UTCB_GENERIC_DATA_SIZE - 1 then pure (-sys.L4_ENOMEM, m)
  else do
    let m ← m.set_mr i (page.item sys)
    let m ← m.set_mr (i + 1) page.snd_fpage
    let tag := l4_msgtag (l4_msgtag_label m.tag) (l4_msgtag_words m.tag)
      (.ofNat 32 (l4_msgtag_items m.tag) + 1) ((l4_msgtag_flags m.tag).setWidth 32)
    pure (0, { m with tag := tag })

/-- One call after the other, with what each of them returns. -/
def l4_sndfpage_add_all : List SndFpage → Message → Option (List Int × Message)
  | [], m => pure ([], m)
  | page :: pages, m => do
    let (code, m) ← l4_sndfpage_add_u sys page m
    let (codes, m) ← l4_sndfpage_add_all pages m
    pure (code :: codes, m)

/-- Where the next flexpage goes. -/
def Message.next (m : Message) : Nat := (l4_msgtag_words m.tag).toNat + 2 * l4_msgtag_items m.tag

/-- The tag with another item count. -/
def retag (t : BitVec 64) (items : Nat) : BitVec 64 :=
  l4_msgtag (l4_msgtag_label t) (l4_msgtag_words t) (.ofNat 32 items) ((l4_msgtag_flags t).setWidth 32)

theorem getLsbD_retag_nat (t : BitVec 64) (items : Nat) {i : Nat} (hi : i < 64) :
    (retag t items).getLsbD i = if 6 ≤ i ∧ i < 12 then items.testBit (i - 6) else t.getLsbD i := by
  rw [retag, getLsbD_retag t _ hi, BitVec.getLsbD_ofNat]
  by_cases h : 6 ≤ i ∧ i < 12
  · simp [h, show i - 6 < 32 by omega]
  · rw [if_neg h, if_neg h]

/-- Only the count changes, and one below 64 is not cut off. -/
theorem retag_counted (t : BitVec 64) {items : Nat} (h : items < 64) :
    l4_msgtag_label (retag t items) = l4_msgtag_label t ∧
      l4_msgtag_words (retag t items) = l4_msgtag_words t ∧
      l4_msgtag_flags (retag t items) = l4_msgtag_flags t ∧ l4_msgtag_items (retag t items) = items := by
  have hsame (i : Nat) (hi : i < 64) (hout : i < 6 ∨ 12 ≤ i) :
      (retag t items).getLsbD i = t.getLsbD i := by
    rw [getLsbD_retag_nat t items hi, if_neg (by omega)]
  refine ⟨?_, ?_, ?_, ?_⟩
  · exact l4_msgtag_label_congr fun i hlo hhi => hsame i hhi (by omega)
  · exact l4_msgtag_words_congr fun i hi => hsame i (by omega) (Or.inl hi)
  · exact l4_msgtag_flags_congr fun i hlo hhi => hsame i (by omega) (Or.inr hlo)
  · refine l4_msgtag_items_eq h fun i hlo hhi => ?_
    rw [getLsbD_retag_nat t items (by omega), if_pos ⟨hlo, hhi⟩]

/-- The tag counts some more items, and says the same apart from that. -/
structure Counted (count : Nat) (m t : Message) : Prop where
  label : l4_msgtag_label t.tag = l4_msgtag_label m.tag
  words : l4_msgtag_words t.tag = l4_msgtag_words m.tag
  flags : l4_msgtag_flags t.tag = l4_msgtag_flags m.tag
  items : l4_msgtag_items t.tag = l4_msgtag_items m.tag + count

theorem Counted.next {count : Nat} {m t : Message} (h : Counted count m t) :
    t.next = m.next + 2 * count := by
  rw [Message.next, Message.next, h.words, h.items]
  omega

theorem Counted.trans {count count' : Nat} {m t u : Message} (h : Counted count m t)
    (h' : Counted count' t u) : Counted (count + count') m u := by
  refine ⟨h'.label.trans h.label, h'.words.trans h.words, h'.flags.trans h.flags, ?_⟩
  rw [h'.items, h.items, Nat.add_assoc]

/-- One more flexpage in the two registers behind the others. -/
structure Added (sys : ItemConsts) (page : SndFpage) (m t : Message) : Prop where
  room : m.next + 1 < UTCB_GENERIC_DATA_SIZE
  counted : Counted 1 m t
  item : t.mr m.next = page.item sys
  fpage : t.mr (m.next + 1) = page.snd_fpage
  rest : ∀ j, j ≠ m.next → j ≠ m.next + 1 → t.mr j = m.mr j

variable {sys}

/-- A call that has room for both words. Its item count is below 31, so that the
next one is still a six-bit number. -/
theorem l4_sndfpage_add_u_of_room (sys : ItemConsts) {m : Message} (page : SndFpage)
    (h : m.next + 1 < UTCB_GENERIC_DATA_SIZE) :
    ∃ t, l4_sndfpage_add_u sys page m = some (0, t) ∧ Added sys page m t := by
  have hitems : l4_msgtag_items m.tag + 1 < 64 := by
    simp only [Message.next, UTCB_GENERIC_DATA_SIZE] at h
    omega
  have hcount : BitVec.ofNat 32 (l4_msgtag_items m.tag) + 1 = .ofNat 32 (l4_msgtag_items m.tag + 1) :=
    (BitVec.ofNat_add ..).symm
  refine ⟨⟨retag m.tag (l4_msgtag_items m.tag + 1), Function.update
    (Function.update m.mr m.next (page.item sys)) (m.next + 1) page.snd_fpage⟩, ?_, h, ?_, ?_, ?_, ?_⟩
  · have hroom : ¬ m.next ≥ UTCB_GENERIC_DATA_SIZE - 1 := by omega
    have hi : (l4_msgtag_words m.tag).toNat + 2 * l4_msgtag_items m.tag = m.next := rfl
    simp only [l4_sndfpage_add_u, hi, if_neg hroom, Message.set_mr_of_lt (Nat.lt_of_succ_lt h),
      Message.set_mr_of_lt h, hcount, Option.bind_eq_bind, Option.bind_some]
    rfl
  · obtain ⟨hlabel, hwords, hflags, hcounted⟩ := retag_counted m.tag hitems
    exact ⟨hlabel, hwords, hflags, hcounted⟩
  · dsimp only
    rw [Function.update_of_ne (Nat.ne_of_lt (Nat.lt_succ_self _)), Function.update_self]
  · exact Function.update_self ..
  · intro j hj hj'
    dsimp only
    rw [Function.update_of_ne hj', Function.update_of_ne hj]

theorem l4_sndfpage_add_u_of_full {m : Message} (page : SndFpage)
    (h : ¬ m.next + 1 < UTCB_GENERIC_DATA_SIZE) :
    l4_sndfpage_add_u sys page m = some (-(sys.L4_ENOMEM : Int), m) := by
  have hfull : m.next ≥ UTCB_GENERIC_DATA_SIZE - 1 := by omega
  exact if_pos hfull

/-- The flexpages stand one behind the other where the message ended, in registers
that exist, and all other registers are as they were. -/
structure AllAdded (sys : ItemConsts) (pages : List SndFpage) (m t : Message) : Prop where
  counted : Counted pages.length m t
  room : pages ≠ [] → t.next ≤ UTCB_GENERIC_DATA_SIZE
  item : ∀ k page, pages[k]? = some page → t.mr (m.next + 2 * k) = page.item sys
  fpage : ∀ k page, pages[k]? = some page → t.mr (m.next + 2 * k + 1) = page.snd_fpage
  rest : ∀ j, j < m.next ∨ t.next ≤ j → t.mr j = m.mr j

theorem AllAdded.nil (m : Message) : AllAdded sys [] m m :=
  ⟨⟨rfl, rfl, rfl, rfl⟩, nofun, nofun, nofun, fun _ _ => rfl⟩

theorem Added.cons_allAdded {page : SndFpage} {pages : List SndFpage} {m t u : Message}
    (h : Added sys page m t) (h' : AllAdded sys pages t u) : AllAdded sys (page :: pages) m u := by
  have hnext : t.next = m.next + 2 := h.counted.next
  have hlast : u.next = t.next + 2 * pages.length := h'.counted.next
  refine ⟨?_, ?_, ?_, ?_, ?_⟩
  · rw [List.length_cons, Nat.add_comm]
    exact h.counted.trans h'.counted
  · intro _
    by_cases hpages : pages = []
    · have hroom := h.room
      rw [hlast, hpages, List.length_nil]
      omega
    · exact h'.room hpages
  · intro k q hq
    cases k with
    | zero =>
      cases hq
      rw [h'.rest _ (Or.inl (by omega)), Nat.mul_zero, Nat.add_zero, h.item]
    | succ k =>
      rw [List.getElem?_cons_succ] at hq
      rw [← h'.item k q hq, hnext]
      congr 1
      omega
  · intro k q hq
    cases k with
    | zero =>
      cases hq
      rw [h'.rest _ (Or.inl (by omega)), Nat.mul_zero, Nat.add_zero, h.fpage]
    | succ k =>
      rw [List.getElem?_cons_succ] at hq
      rw [← h'.fpage k q hq, hnext]
      congr 1
      omega
  · intro j hj
    rw [h'.rest j (by omega), h.rest j (by omega) (by omega)]

/-- The flexpages for which the calls returned 0. -/
def succeeded (pages : List SndFpage) (codes : List Int) : List SndFpage :=
  ((pages.zip codes).filter fun p => p.2 = 0).map Prod.fst

theorem l4_sndfpage_add_all_allAdded (sys : ItemConsts) (pages : List SndFpage) (m : Message) :
    ∃ codes t, l4_sndfpage_add_all sys pages m = some (codes, t) ∧ codes.length = pages.length ∧
      AllAdded sys (succeeded pages codes) m t := by
  induction pages generalizing m with
  | nil => exact ⟨[], m, rfl, rfl, .nil m⟩
  | cons page pages ih =>
    by_cases hroom : m.next + 1 < UTCB_GENERIC_DATA_SIZE
    · obtain ⟨mid, hadd, hadded⟩ := l4_sndfpage_add_u_of_room sys page hroom
      obtain ⟨codes, t, hall, hlength, hpages⟩ := ih mid
      refine ⟨0 :: codes, t, ?_, congrArg Nat.succ hlength, hadded.cons_allAdded hpages⟩
      simp [l4_sndfpage_add_all, hadd, hall]
    · obtain ⟨codes, t, hall, hlength, hpages⟩ := ih m
      have hcode : (-sys.L4_ENOMEM : Int) ≠ 0 := by
        have hpos := sys.enomem_pos
        omega
      refine ⟨-sys.L4_ENOMEM :: codes, t, ?_, congrArg Nat.succ hlength, ?_⟩
      · simp [l4_sndfpage_add_all, l4_sndfpage_add_u_of_full page hroom, hall]
      · rw [succeeded, List.zip_cons_cons, List.filter_cons_of_neg (by simpa using hcode)]
        exact hpages

/-- Every call adds its flexpage behind the others or fails without a trace. So
whatever the tag and the registers are at the start, the flexpages added by a
sequence of calls follow each other in order, and their count never wraps. -/
theorem flexpages_appended (sys : ItemConsts) (pages : List SndFpage) (m : Message) :
    (∀ (page : SndFpage) (m : Message), ∃ code t, l4_sndfpage_add_u sys page m = some (code, t) ∧
        (code = 0 ∧ Added sys page m t ∨ code < 0 ∧ t = m)) ∧
      ∃ codes t, l4_sndfpage_add_all sys pages m = some (codes, t) ∧ codes.length = pages.length ∧
        AllAdded sys (succeeded pages codes) m t := by
  refine ⟨?_, l4_sndfpage_add_all_allAdded sys pages m⟩
  intro page m
  by_cases hroom : m.next + 1 < UTCB_GENERIC_DATA_SIZE
  · obtain ⟨t, hadd, hadded⟩ := l4_sndfpage_add_u_of_room sys page hroom
    exact ⟨0, t, hadd, Or.inl ⟨rfl, hadded⟩⟩
  · have hpos := sys.enomem_pos
    exact ⟨_, m, l4_sndfpage_add_u_of_full page hroom, Or.inr ⟨by omega, rfl⟩⟩

-- Two flexpages behind one word, and the same two for a message that is full.
example :
    (l4_sndfpage_add_all .l4re [⟨0x40, 0⟩, ⟨0x80, 0x1000⟩] ⟨1, fun _ => 7⟩).map
        (fun r => (r.1, r.2.tag, (List.range 6).map r.2.mr)) =
      some ([0, 0], 0x81, [7, 9, 0x40, 0x1009, 0x80, 7]) := by decide

example :
    (l4_sndfpage_add_all .l4re [⟨0x40, 0⟩, ⟨0x80, 0x1000⟩] ⟨62, fun _ => 7⟩).map
        (fun r => (r.1, r.2.tag, r.2.mr 62)) = some ([-12, -12], 62, 7) := by decide

end l4_sys
