import Mathlib

namespace Text

variable {cs front mid back : List Char} {i j : Nat}

/-- How many bytes a text is in UTF-8. -/
def byteLen (cs : List Char) : Nat := (cs.map Char.utf8Size).sum

@[simp] theorem byteLen_nil : byteLen [] = 0 := rfl

@[simp] theorem byteLen_cons (c : Char) (cs : List Char) : byteLen (c :: cs) = c.utf8Size + byteLen cs := by
  simp [byteLen]

@[simp] theorem byteLen_append (cs ds : List Char) : byteLen (cs ++ ds) = byteLen cs + byteLen ds := by
  simp [byteLen]

theorem length_le_byteLen (cs : List Char) : cs.length ≤ byteLen cs := by
  induction cs with
  | nil => exact Nat.le_refl 0
  | cons c cs ih =>
    have hpos := c.utf8Size_pos
    rw [List.length_cons, byteLen_cons]
    omega

theorem byteLen_eq_zero (h : byteLen cs = 0) : cs = [] := by
  have hlength := length_le_byteLen cs
  exact List.length_eq_zero_iff.mp (by omega)

/-- A text of one byte is one character. -/
theorem byteLen_eq_one_iff : byteLen cs = 1 ↔ ∃ c, cs = [c] ∧ c.utf8Size = 1 := by
  constructor
  · intro h
    cases cs with
    | nil => cases h
    | cons c cs =>
      have hpos := c.utf8Size_pos
      rw [byteLen_cons] at h
      obtain rfl : cs = [] := byteLen_eq_zero (by omega)
      exact ⟨c, rfl, by simpa using h⟩
  · rintro ⟨c, rfl, hc⟩
    simpa using hc

/-- Of two beginnings of a text, the one of fewer bytes is a beginning of the other. -/
theorem exists_of_append_eq {ds es : List Char} (h : front ++ back = ds ++ es)
    (hle : byteLen front ≤ byteLen ds) : ∃ between, ds = front ++ between ∧ back = between ++ es := by
  rcases List.append_eq_append_iff.mp h with ⟨between, hds, hback⟩ | ⟨between, hfront, hes⟩
  · exact ⟨between, hds, hback⟩
  · rw [hfront, byteLen_append] at hle
    obtain rfl : between = [] := byteLen_eq_zero (by omega)
    rw [List.append_nil] at hfront
    exact ⟨[], by simp [hfront], by simpa using hes.symm⟩

/-- A property of all beginnings of a text can be checked. -/
instance decidableForallPrefix (P : List Char → Prop) [DecidablePred P] (cs : List Char) :
    Decidable (∀ front, front <+: cs → P front) :=
  decidable_of_iff (∀ front ∈ cs.inits, P front) (by simp only [List.mem_inits])

/-- What is in front of a byte offset and what is behind it, if no character is torn apart. -/
def split_at : Nat → List Char → Option (List Char × List Char)
  | 0, cs => some ([], cs)
  | _ + 1, [] => none
  | i + 1, c :: cs =>
    if c.utf8Size ≤ i + 1 then (split_at (i + 1 - c.utf8Size) cs).map fun p => (c :: p.1, p.2) else none

theorem split_at_append (front back : List Char) :
    split_at (byteLen front) (front ++ back) = some (front, back) := by
  induction front with
  | nil => cases back <;> rfl
  | cons c front ih =>
    have hpos := c.utf8Size_pos
    obtain ⟨n, hn⟩ : ∃ n, byteLen (c :: front) = n + 1 := by
      apply Nat.exists_eq_succ_of_ne_zero
      rw [byteLen_cons]
      omega
    have hrest : n + 1 - c.utf8Size = byteLen front := by
      rw [← hn, byteLen_cons, Nat.add_sub_cancel_left]
    have hle : c.utf8Size ≤ n + 1 := by
      rw [← hn, byteLen_cons]
      exact Nat.le_add_right ..
    rw [hn, List.cons_append, split_at, if_pos hle, hrest, ih]
    rfl

/-- A text can be split exactly where one of its beginnings ends. -/
theorem split_at_eq_some_iff :
    split_at i cs = some (front, back) ↔ cs = front ++ back ∧ byteLen front = i := by
  constructor
  · intro h
    induction i, cs using split_at.induct generalizing front with
    | case1 cs =>
      rw [split_at] at h
      cases h
      exact ⟨rfl, rfl⟩
    | case2 i =>
      rw [split_at] at h
      cases h
    | case3 i c cs hle ih =>
      rw [split_at, if_pos hle, Option.map_eq_some_iff] at h
      obtain ⟨⟨front', back'⟩, hsplit, heq⟩ := h
      cases heq
      obtain ⟨rfl, hlen⟩ := ih hsplit
      refine ⟨rfl, ?_⟩
      rw [byteLen_cons, hlen]
      omega
    | case4 i c cs hle =>
      rw [split_at, if_neg hle] at h
      cases h
  · rintro ⟨rfl, rfl⟩
    exact split_at_append front back

/-- The text between two byte offsets. -/
def slice (cs : List Char) (i j : Nat) : Option (List Char) :=
  if i ≤ j then
    (split_at j cs).bind fun p => (split_at i p.1).map Prod.snd
  else none

theorem slice_eq_some_iff :
    slice cs i j = some mid ↔ ∃ front back, cs = front ++ mid ++ back ∧ byteLen front = i ∧
      byteLen (front ++ mid) = j := by
  unfold slice
  constructor
  · intro h
    split at h
    · obtain ⟨⟨upto, back⟩, hj, h⟩ := Option.bind_eq_some_iff.mp h
      obtain ⟨⟨front, mid'⟩, hi, hmid⟩ := Option.map_eq_some_iff.mp h
      obtain ⟨rfl, hupto⟩ := split_at_eq_some_iff.mp hj
      obtain ⟨hsplit, hfront⟩ := split_at_eq_some_iff.mp hi
      dsimp only at hsplit hmid
      subst hmid hsplit
      exact ⟨front, back, rfl, hfront, hupto⟩
    · cases h
  · rintro ⟨front, back, rfl, rfl, rfl⟩
    rw [if_pos (by rw [byteLen_append]; exact Nat.le_add_right ..), split_at_append, Option.bind_some,
      split_at_append]
    rfl

/-- A slice behind a beginning of a text is a beginning of the rest. -/
theorem slice_append_iff {n : Nat} :
    slice (front ++ back) (byteLen front) (byteLen front + n) = some mid ↔
      mid <+: back ∧ byteLen mid = n := by
  rw [slice_eq_some_iff]
  constructor
  · rintro ⟨front', back', h, hfront, hlen⟩
    rw [List.append_assoc] at h
    obtain ⟨between, rfl, hback⟩ := exists_of_append_eq h hfront.ge
    rw [byteLen_append] at hfront
    obtain rfl : between = [] := byteLen_eq_zero (by omega)
    rw [List.nil_append] at hback
    rw [List.append_nil, byteLen_append] at hlen
    exact ⟨⟨back', hback.symm⟩, by omega⟩
  · rintro ⟨⟨rest, rfl⟩, rfl⟩
    exact ⟨front, rest, by rw [List.append_assoc], rfl, byteLen_append ..⟩

/-- A slice that leaves out one byte on either side leaves out a character there. -/
theorem slice_inner_iff :
    slice (front ++ back) (byteLen front + 1) (byteLen (front ++ back) - 1) = some mid ↔
      ∃ c d, back = c :: (mid ++ [d]) ∧ c.utf8Size = 1 ∧ d.utf8Size = 1 := by
  rw [slice_eq_some_iff]
  constructor
  · rintro ⟨front', back', h, hfront, hlen⟩
    have htotal := congrArg byteLen h
    rw [byteLen_append _ back'] at htotal
    rw [List.append_assoc] at h
    obtain ⟨first, rfl, hback⟩ := exists_of_append_eq h (by omega)
    rw [byteLen_append] at hfront
    have hpos : 1 ≤ byteLen (front ++ first ++ mid) := by
      rw [byteLen_append, byteLen_append]
      omega
    obtain ⟨c, rfl, hc⟩ := byteLen_eq_one_iff.mp (show byteLen first = 1 by omega)
    obtain ⟨d, rfl, hd⟩ := byteLen_eq_one_iff.mp (show byteLen back' = 1 by omega)
    exact ⟨c, d, hback, hc, hd⟩
  · rintro ⟨c, d, rfl, hc, hd⟩
    refine ⟨front ++ [c], [d], by simp, by simp [hc], ?_⟩
    simp only [byteLen_append, byteLen_cons, byteLen_nil, hc, hd]
    omega

/-- The byte offset at which a pattern is found first. -/
def find (pat : List Char) : List Char → Option Nat
  | [] => if pat.isPrefixOf [] then some 0 else none
  | c :: cs => if pat.isPrefixOf (c :: cs) then some 0 else (find pat cs).map (c.utf8Size + ·)

variable {pat : List Char}

theorem find_of_prefix (h : pat <+: cs) : find pat cs = some 0 := by
  have hbegin : pat.isPrefixOf cs = true := List.isPrefixOf_iff_prefix.mpr h
  cases cs with
  | nil => rw [find, if_pos hbegin]
  | cons c cs => rw [find, if_pos hbegin]

/-- A pattern without a repeated character does not overlap with itself, so that it is found where
it stands if it is not in the text before. -/
theorem find_append (hnodup : pat.Nodup) (hfront : ¬ pat <:+: front) :
    find pat (front ++ pat ++ back) = some (byteLen front) := by
  induction front with
  | nil => exact find_of_prefix (List.prefix_append ..)
  | cons c front ih =>
    have hrest : ¬ pat <:+: front := fun h => hfront (h.trans (List.suffix_cons ..).isInfix)
    have hhere : ¬ pat <+: c :: (front ++ pat ++ back) := by
      rintro ⟨rest, h⟩
      rw [List.append_assoc, ← List.cons_append] at h
      rcases List.append_eq_append_iff.mp h with ⟨after, hinside, -⟩ | ⟨tail, hpat', hover⟩
      · exact hfront ⟨[], after, by simpa using hinside.symm⟩
      · cases tail with
        | nil => exact hfront ⟨[], [], by simpa using hpat'⟩
        | cons d tail =>
          -- The pattern starts with the character that it has again where it overlaps.
          rw [hpat', List.cons_append, List.cons_append, List.cons_append] at hover
          obtain rfl : c = d := (List.cons.inj hover).1
          rw [hpat', List.cons_append] at hnodup
          exact (List.nodup_cons.mp hnodup).1 (List.mem_append_right _ (List.mem_cons_self ..))
    have hfalse : pat.isPrefixOf (c :: (front ++ pat ++ back)) = false := by
      rw [← Bool.not_eq_true, List.isPrefixOf_iff_prefix]
      exact hhere
    rw [List.cons_append, List.cons_append, find, hfalse, ih hrest]
    rfl

/-- The Unicode property `White_Space`. -/
def is_whitespace (c : Char) : Bool :=
  (0x9 ≤ c.val && c.val ≤ 0xD) || (0x2000 ≤ c.val && c.val ≤ 0x200A) ||
    c.val ∈ [0x20, 0x85, 0xA0, 0x1680, 0x2028, 0x2029, 0x202F, 0x205F, 0x3000]

/-- A text without the characters of a kind at its ends. -/
def trim (p : Char → Bool) (cs : List Char) : List Char := (cs.rdropWhile p).dropWhile p

variable {p q : Char → Bool}

theorem countP_dropWhile (hq : ∀ c, q c → ¬ p c) (cs : List Char) : (cs.dropWhile p).countP q = cs.countP q := by
  have htake : (cs.takeWhile p).countP q = 0 := by
    rw [List.countP_eq_zero]
    intro c hc hqc
    exact hq c hqc (List.mem_takeWhile_imp hc)
  calc (cs.dropWhile p).countP q = (cs.takeWhile p).countP q + (cs.dropWhile p).countP q := by
        rw [htake, Nat.zero_add]
    _ = (cs.takeWhile p ++ cs.dropWhile p).countP q := List.countP_append.symm
    _ = cs.countP q := by rw [List.takeWhile_append_dropWhile]

/-- The characters of other kinds are all there after a text is trimmed. -/
theorem countP_trim (hq : ∀ c, q c → ¬ p c) (cs : List Char) : (trim p cs).countP q = cs.countP q := by
  rw [trim, countP_dropWhile hq, List.rdropWhile, List.countP_reverse, countP_dropWhile hq,
    List.countP_reverse]

/-- A text is trimmed to the same as a beginning of it exactly when the rest is to be trimmed. -/
theorem trim_append_iff : trim p front = trim p (front ++ back) ↔ ∀ c ∈ back, p c := by
  constructor
  · intro h c hc
    have hcount : front.countP (fun c => !p c) = (front ++ back).countP (fun c => !p c) := by
      have hkind : ∀ c, (!p c) = true → ¬ p c = true := by simp
      rw [← countP_trim hkind front, h, countP_trim hkind]
    rw [List.countP_append] at hcount
    have hzero : back.countP (fun c => !p c) = 0 := by omega
    simpa using List.countP_eq_zero.mp hzero c hc
  · intro h
    have hreverse : ∀ c ∈ back.reverse, p c := fun c hc => h c (List.mem_reverse.mp hc)
    rw [trim, trim, List.rdropWhile, List.rdropWhile, List.reverse_append,
      List.dropWhile_append_of_pos hreverse]

end Text
