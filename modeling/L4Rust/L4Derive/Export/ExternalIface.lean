import L4Rust.Library.Exec
import L4Rust.Library.Text

namespace l4_derive

open Text

/-- The result of an operation on `i32` values. With overflow checks the program stops if it does
not fit, which takes a text of more than `2 ^ 31` bytes. -/
def i32_checked (n : Int) : Option Int := if -2 ^ 31 ≤ n ∧ n < 2 ^ 31 then some n else none

/-- The loop of `parse_external_iface`, which looks for the closing brace. -/
def scan (braces : Int) (index : Nat) : List Char → Option (Option Nat)
  | [] => some none
  | ch :: chars =>
    let counted :=
      match ch with
      | '{' => i32_checked (braces + 1)
      | '}' => i32_checked (braces - 1)
      | _ => some braces
    counted.bind fun braces => if braces = 0 then some (some index) else scan braces (index + 1) chars

/-- The text that `parse_external_iface` hands to the parser. -/
def extract (contents : List Char) : Exec String Unit (List Char) := do
  let start ← Exec.ok_or (find "iface!".toList contents) "No iface! macro invocation found"
  let (_, invocation) ← Exec.checked (split_at start contents)
  let brace ← Exec.ok_or (find ['{'] invocation) "Interface definition without opening brace '\x7b'"
  let start := start + brace + 1
  let scanned ← Exec.checked (slice contents (start + 1) (byteLen contents - 1))
  let found ← Exec.checked (scan 1 0 scanned)
  let index ← Exec.ok_or found "Unterminated IPC interface definition"
  Exec.checked (slice contents start (start + index))

/-- The interface in a file of which these are the contents. -/
def parse_external_iface {ι : Type} (parse : List Char → Except String ι) (contents : List Char) :
    Exec String Unit ι := do
  let text ← extract contents
  match parse text with
  | .ok iface => pure iface
  | .error e => Exec.throw e

/-- How many braces are open at the end of a text. -/
def depth (cs : List Char) : Int := (cs.count '{' : Int) - cs.count '}'

theorem depth_nil : depth [] = 0 := rfl

theorem depth_append (cs ds : List Char) : depth (cs ++ ds) = depth cs + depth ds := by
  simp only [depth, List.count_append]
  omega

/-- No brace is closed that is not open, and all are closed at the end. -/
def Balanced (cs : List Char) : Prop := depth cs = 0 ∧ ∀ front, front <+: cs → 0 ≤ depth front

instance (cs : List Char) : Decidable (Balanced cs) := inferInstanceAs (Decidable (_ ∧ _))

/-- The braces that are counted stay open, and their number fits into an `i32`. -/
def StaysOpen (braces : Int) (cs : List Char) : Prop :=
  ∀ front, front <+: cs → 0 < braces + depth front ∧ braces + depth front < 2 ^ 31

instance (braces : Int) (cs : List Char) : Decidable (StaysOpen braces cs) :=
  decidableForallPrefix (fun front => 0 < braces + depth front ∧ braces + depth front < 2 ^ 31) cs

theorem staysOpen_nil {braces : Int} : StaysOpen braces [] ↔ 0 < braces ∧ braces < 2 ^ 31 := by
  unfold StaysOpen
  simp only [List.prefix_nil, forall_eq, depth_nil, add_zero]

theorem depth_cons (c : Char) (cs : List Char) : depth (c :: cs) = depth [c] + depth cs :=
  depth_append [c] cs

theorem staysOpen_cons {braces : Int} {c : Char} {cs : List Char} :
    StaysOpen braces (c :: cs) ↔ (0 < braces ∧ braces < 2 ^ 31) ∧ StaysOpen (braces + depth [c]) cs := by
  constructor
  · intro h
    refine ⟨by simpa [depth_nil] using h [] (List.nil_prefix), fun front hfront => ?_⟩
    have hcons := h (c :: front) (List.cons_prefix_cons.mpr ⟨rfl, hfront⟩)
    rwa [depth_cons, ← Int.add_assoc] at hcons
  · rintro ⟨hbraces, h⟩ front hfront
    cases front with
    | nil => simpa [depth_nil] using hbraces
    | cons d front =>
      obtain ⟨rfl, hrest⟩ := List.cons_prefix_cons.mp hfront
      rw [depth_cons, ← Int.add_assoc]
      exact h front hrest

theorem depth_eq_of_ne {c : Char} (hopen : c ≠ '{') (hclose : c ≠ '}') : depth [c] = 0 := by
  rw [depth, List.count_singleton, List.count_singleton]
  simp [hopen, hclose]

theorem neg_one_le_depth (c : Char) : -1 ≤ depth [c] := by
  by_cases hopen : c = '{'
  · rw [hopen]
    decide
  by_cases hclose : c = '}'
  · rw [hclose]
    decide
  · rw [depth_eq_of_ne hopen hclose]
    decide

theorem eq_of_depth {c : Char} (h : depth [c] < 0) : c = '}' := by
  by_contra hclose
  by_cases hopen : c = '{'
  · rw [hopen] at h
    exact absurd h (by decide)
  · rw [depth_eq_of_ne hopen hclose] at h
    exact absurd h (by decide)

variable {braces : Int} {index : Nat} {cs : List Char}

/-- One pass of the loop. -/
theorem scan_cons (hbraces : 0 < braces ∧ braces < 2 ^ 31) (c : Char) :
    scan braces index (c :: cs) =
      if braces + depth [c] = 0 then some (some index)
      else if braces + depth [c] < 2 ^ 31 then scan (braces + depth [c]) (index + 1) cs
      else none := by
  have hdepth : depth ['{'] = 1 := rfl
  have hdepth' : depth ['}'] = -1 := rfl
  by_cases hopen : c = '{'
  · subst hopen
    rw [scan, hdepth, if_neg (by omega), i32_checked]
    by_cases hfits : braces + 1 < 2 ^ 31
    · rw [if_pos ⟨by omega, hfits⟩, if_pos hfits, Option.bind_some, if_neg (by omega)]
    · rw [if_neg (fun h => hfits h.2), if_neg hfits, Option.bind_none]
  by_cases hclose : c = '}'
  · subst hclose
    rw [scan, hdepth', i32_checked, if_pos ⟨by omega, by omega⟩, Option.bind_some]
    by_cases hclosed : braces - 1 = 0
    · rw [if_pos hclosed, if_pos (by omega)]
    · rw [if_neg hclosed, if_neg (by omega), if_pos (by omega)]
      rfl
  · rw [scan, depth_eq_of_ne hopen hclose, Int.add_zero, Option.bind_some, if_neg (by omega),
      if_neg (by omega), if_pos hbraces.2]
    · exact hopen
    · exact hclose

/-- As long as the braces stay open the loop goes on. -/
theorem scan_append {inside behind : List Char} (hopen : StaysOpen braces inside) :
    scan braces index (inside ++ behind) =
      scan (braces + depth inside) (index + inside.length) behind := by
  induction inside generalizing braces index with
  | nil => rw [depth_nil, Int.add_zero, List.nil_append, List.length_nil, Nat.add_zero]
  | cons c inside ih =>
    obtain ⟨hbraces, hrest⟩ := staysOpen_cons.mp hopen
    have hnow := hrest [] List.nil_prefix
    rw [depth_nil, Int.add_zero] at hnow
    rw [List.cons_append, scan_cons hbraces, if_neg (by omega), if_pos hnow.2, ih hrest, depth_cons c inside,
      List.length_cons, Int.add_assoc, Nat.add_assoc, Nat.add_comm 1]

/-- What the loop can come to: it finds no closing brace, it finds the first one behind which all
braces are closed, or there are too many. -/
theorem scan_cases (hbraces : 0 < braces ∧ braces < 2 ^ 31) :
    (scan braces index cs = some none ∧ StaysOpen braces cs) ∨
    (∃ inside behind, scan braces index cs = some (some (index + inside.length)) ∧
      cs = inside ++ '}' :: behind ∧ StaysOpen braces inside ∧ braces + depth inside = 1) ∨
    scan braces index cs = none := by
  induction cs generalizing braces index with
  | nil => exact .inl ⟨rfl, staysOpen_nil.mpr hbraces⟩
  | cons c cs ih =>
    rw [scan_cons hbraces]
    have hstep := neg_one_le_depth c
    by_cases hclosed : braces + depth [c] = 0
    · obtain rfl : c = '}' := eq_of_depth (by omega)
      have hone : braces + depth [] = 1 := by
        rw [depth_nil]
        omega
      rw [if_pos hclosed]
      exact .inr (.inl ⟨[], cs, rfl, rfl, staysOpen_nil.mpr hbraces, hone⟩)
    rw [if_neg hclosed]
    by_cases hfits : braces + depth [c] < 2 ^ 31
    · rw [if_pos hfits]
      rcases ih ⟨by omega, hfits⟩ with ⟨hscan, hopen⟩ | ⟨inside, behind, hscan, rfl, hopen, hone⟩ | hscan
      · exact .inl ⟨hscan, staysOpen_cons.mpr ⟨hbraces, hopen⟩⟩
      · refine .inr (.inl ⟨c :: inside, behind, ?_, rfl, staysOpen_cons.mpr ⟨hbraces, hopen⟩, ?_⟩)
        · rw [hscan, List.length_cons, Nat.add_assoc, Nat.add_comm 1]
        · rw [depth_cons, ← Int.add_assoc]
          exact hone
      · exact .inr (.inr hscan)
    · rw [if_neg hfits]
      exact .inr (.inr rfl)

/-- The loop ends without a closing brace exactly when the braces stay open. -/
theorem scan_eq_none_iff (hbraces : 0 < braces ∧ braces < 2 ^ 31) :
    scan braces index cs = some none ↔ StaysOpen braces cs := by
  constructor
  · intro h
    rcases scan_cases hbraces with ⟨-, hopen⟩ | ⟨_, _, hscan, -⟩ | hscan
    · exact hopen
    · cases h.symm.trans hscan
    · cases h.symm.trans hscan
  · intro hopen
    rw [← List.append_nil cs, scan_append hopen, scan]

/-- The loop finds a closing brace exactly where they are all closed for the first time. -/
theorem scan_eq_some_iff (hbraces : 0 < braces ∧ braces < 2 ^ 31) {found : Nat} :
    scan braces index cs = some (some found) ↔ ∃ inside behind, cs = inside ++ '}' :: behind ∧
      StaysOpen braces inside ∧ braces + depth inside = 1 ∧ found = index + inside.length := by
  constructor
  · intro h
    rcases scan_cases hbraces with ⟨hscan, -⟩ | ⟨inside, behind, hscan, hcs, hopen, hone⟩ | hscan
    · cases h.symm.trans hscan
    · cases h.symm.trans hscan
      exact ⟨inside, behind, hcs, hopen, hone, rfl⟩
    · cases h.symm.trans hscan
  · rintro ⟨inside, behind, rfl, hopen, hone, rfl⟩
    rw [scan_append hopen, hone, scan_cons (by decide)]
    rfl

/-- A file with an invocation of the macro, up to its opening brace. -/
def opening (pre blanks : List Char) : List Char := pre ++ "iface!".toList ++ blanks ++ ['{']

section Extraction

variable {pre blanks tail text : List Char} (hpre : ¬ "iface!".toList <:+: pre)
  (hblanks : ∀ c ∈ blanks, is_whitespace c)

include hpre hblanks

/-- What is left to do where the invocation has been found. -/
theorem extract_opening :
    extract (opening pre blanks ++ tail) () = (do
      let scanned ← Exec.checked (slice (opening pre blanks ++ tail) (byteLen (opening pre blanks) + 1)
        (byteLen (opening pre blanks ++ tail) - 1))
      let found ← Exec.checked (scan 1 0 scanned)
      let index ← Exec.ok_or found "Unterminated IPC interface definition"
      Exec.checked (slice (opening pre blanks ++ tail) (byteLen (opening pre blanks))
        (byteLen (opening pre blanks) + index)) : Exec String Unit (List Char)) () := by
  have hcontents : opening pre blanks ++ tail =
      pre ++ ("iface!".toList ++ blanks ++ ['{'] ++ tail) := by
    simp only [opening, List.append_assoc]
  have hmacro : find "iface!".toList (opening pre blanks ++ tail) = some (byteLen pre) := by
    rw [hcontents, List.append_assoc, List.append_assoc, ← List.append_assoc pre]
    exact find_append (by decide) hpre
  have hbrace : find ['{'] ("iface!".toList ++ blanks ++ ['{'] ++ tail) =
      some (byteLen ("iface!".toList ++ blanks)) := by
    apply find_append (List.nodup_singleton _)
    rw [List.singleton_infix_iff, List.mem_append]
    rintro (hmem | hmem)
    · exact absurd hmem (by decide)
    · exact absurd (hblanks _ hmem) (by decide)
  have hsplit : split_at (byteLen pre) (opening pre blanks ++ tail) =
      some (pre, "iface!".toList ++ blanks ++ ['{'] ++ tail) := by
    rw [hcontents]
    exact split_at_append ..
  have hstart : byteLen pre + byteLen ("iface!".toList ++ blanks) + 1 = byteLen (opening pre blanks) := by
    simp only [opening, byteLen_append, byteLen_cons, byteLen_nil]
    have hsize : ('{' : Char).utf8Size = 1 := by decide
    omega
  rw [extract, Exec.bind_ok_or_of_some hmacro, Exec.bind_checked_of_some hsplit]
  dsimp only
  rw [Exec.bind_ok_or_of_some hbrace, hstart]

/-- A text is handed over exactly when the file ends behind the closing brace and neither end of
the search tears a character apart, and it has as many bytes as there are characters in between. -/
theorem extract_eq_ok_iff :
    extract (opening pre blanks ++ tail) () = .ok text () ↔
      ∃ c inside behind d, tail = c :: (inside ++ '}' :: behind ++ [d]) ∧ c.utf8Size = 1 ∧
        d.utf8Size = 1 ∧ StaysOpen 1 inside ∧ depth inside = 0 ∧ text <+: tail ∧
        byteLen text = inside.length := by
  rw [extract_opening hpre hblanks, Exec.bind_checked_eq_ok_iff]
  simp only [Exec.bind_checked_eq_ok_iff, Exec.bind_ok_or_eq_ok_iff, slice_inner_iff]
  constructor
  · rintro ⟨scanned, ⟨c, d, rfl, hc, hd⟩, found, hscan, index, rfl, hslice⟩
    obtain ⟨inside, behind, rfl, hopen, hone, rfl⟩ := (scan_eq_some_iff (by decide)).mp hscan
    obtain ⟨hslice, -⟩ := Exec.checked_eq_ok_iff.mp hslice
    obtain ⟨htext, hlen⟩ := slice_append_iff.mp hslice
    exact ⟨c, inside, behind, d, rfl, hc, hd, hopen, by omega, htext, by omega⟩
  · rintro ⟨c, inside, behind, d, rfl, hc, hd, hopen, hzero, htext, hlen⟩
    have hscan : scan 1 0 (inside ++ '}' :: behind) = some (some inside.length) := by
      rw [scan_eq_some_iff (by decide)]
      exact ⟨inside, behind, rfl, hopen, by omega, by omega⟩
    refine ⟨_, ⟨c, d, rfl, hc, hd⟩, _, hscan, _, rfl, ?_⟩
    exact Exec.checked_eq_ok_iff.mpr ⟨slice_append_iff.mpr ⟨htext, hlen⟩, rfl⟩

/-- An error is returned exactly when neither end of the search tears a character apart and the
braces stay open in between. -/
theorem extract_eq_err_iff {e : String} :
    extract (opening pre blanks ++ tail) () = .err e () ↔ e = "Unterminated IPC interface definition" ∧
      ∃ c inside d, tail = c :: (inside ++ [d]) ∧ c.utf8Size = 1 ∧ d.utf8Size = 1 ∧
        StaysOpen 1 inside := by
  rw [extract_opening hpre hblanks, Exec.bind_checked_eq_err_iff]
  simp only [Exec.bind_checked_eq_err_iff, slice_inner_iff]
  constructor
  · rintro ⟨inside, ⟨c, d, rfl, hc, hd⟩, found, hscan, herr⟩
    cases found with
    | none =>
      cases herr
      exact ⟨rfl, c, inside, d, rfl, hc, hd, (scan_eq_none_iff (by decide)).mp hscan⟩
    | some index =>
      rw [Exec.bind_ok_or_of_some rfl] at herr
      exact absurd herr Exec.checked_ne_err
  · rintro ⟨rfl, c, inside, d, rfl, hc, hd, hopen⟩
    exact ⟨inside, ⟨c, d, rfl, hc, hd⟩, none, (scan_eq_none_iff (by decide)).mpr hopen, rfl⟩

end Extraction

/-- The text that is handed to the parser is the body, up to whitespace around it. -/
def HandsBody (contents body : List Char) : Prop :=
  ∃ text, extract contents () = .ok text () ∧ trim is_whitespace text = trim is_whitespace body

/-- The last character is one byte. -/
def EndsNarrow (cs : List Char) : Prop := ∃ front d, cs = front ++ [d] ∧ d.utf8Size = 1

/-- The open braces can be counted in an `i32`, with the one that opens the body. -/
def NestingFits (cs : List Char) : Prop := ∀ front, front <+: cs → 1 + depth front < 2 ^ 31

/-- The body begins with a character of one byte that is not a brace, its nesting fits, the file goes
on behind the closing brace and ends with a character of one byte, and what is behind as many bytes
as the body has characters, less one, is whitespace. Or it is empty, and there is another closing
brace by accident. -/
def Extractable (body post : List Char) : Prop :=
  (∃ c rest, body = c :: rest ∧ c ≠ '{' ∧ c.utf8Size = 1 ∧ NestingFits body ∧ EndsNarrow post ∧
    ∃ text blank, body = text ++ blank ∧ byteLen text + 1 = body.length ∧ ∀ b ∈ blank, is_whitespace b) ∨
  (body = [] ∧ ∃ behind, post = '}' :: behind ∧ EndsNarrow behind)

theorem count_trim {c : Char} (hc : ¬ is_whitespace c) (cs : List Char) :
    (trim is_whitespace cs).count c = cs.count c := by
  apply countP_trim
  intro b hb hspace
  rw [beq_iff_eq.mp hb] at hspace
  exact hc hspace

theorem depth_trim (cs : List Char) : depth (trim is_whitespace cs) = depth cs := by
  rw [depth, depth, count_trim (by decide), count_trim (by decide)]

theorem trim_cons_ne_nil {c : Char} (hc : ¬ is_whitespace c) (rest : List Char) :
    trim is_whitespace (c :: rest) ≠ [] := by
  intro hempty
  have hcount := count_trim hc (c :: rest)
  rw [hempty, List.count_nil, List.count_cons_self] at hcount
  cases hcount

theorem depth_concat_close (cs : List Char) : depth (cs ++ ['}']) = depth cs - 1 := depth_append ..

/-- A brace that closes all is the first one to do so. -/
theorem first_close {inside rest behind post : List Char} (hopen : StaysOpen 1 inside)
    (hinside : depth inside = 0) (hrest : Balanced rest)
    (h : inside ++ '}' :: behind = rest ++ '}' :: post) : inside = rest ∧ behind = post := by
  rcases List.append_eq_append_iff.mp h with ⟨between, rfl, htail⟩ | ⟨between, rfl, htail⟩
  · cases between with
    | nil =>
      rw [List.nil_append] at htail
      exact ⟨(List.append_nil _).symm, (List.cons.inj htail).2⟩
    | cons b between =>
      obtain ⟨rfl, -⟩ := List.cons.inj htail
      have hclosed := hrest.2 (inside ++ ['}']) ⟨between, by simp⟩
      rw [depth_concat_close, hinside] at hclosed
      omega
  · cases between with
    | nil =>
      rw [List.nil_append] at htail
      exact ⟨List.append_nil _, (List.cons.inj htail).2.symm⟩
    | cons b between =>
      obtain ⟨rfl, -⟩ := List.cons.inj htail
      have hclosed := (hopen (rest ++ ['}']) ⟨between, by simp⟩).1
      rw [depth_concat_close, hrest.1] at hclosed
      omega

/-- Where a brace was skipped the text has an open brace, if it is not empty. -/
theorem depth_pos_of_skipped {inside behind text : List Char} (hopen : StaysOpen 1 inside)
    (hbegin : text <+: '{' :: (inside ++ behind)) (hlen : byteLen text = inside.length) (hne : text ≠ []) :
    0 < depth text := by
  obtain ⟨c, rest, rfl⟩ := List.exists_cons_of_ne_nil hne
  obtain ⟨rfl, hrest⟩ := List.cons_prefix_cons.mp hbegin
  have hshort := length_le_byteLen ('{' :: rest)
  rw [hlen, List.length_cons] at hshort
  have hinside : rest <+: inside :=
    List.prefix_of_prefix_length_le hrest (List.prefix_append ..) (by omega)
  have hdepth : depth ['{'] = 1 := rfl
  rw [depth_cons, hdepth]
  exact (hopen rest hinside).1

/-- A body that begins with a brace is not what is cut out of it, where that brace is open. -/
theorem trim_ne_of_skipped {rest inside behind text : List Char} (hbody : Balanced ('{' :: rest))
    (hopen : StaysOpen 1 inside) (hbegin : text <+: '{' :: (inside ++ behind))
    (hlen : byteLen text = inside.length) :
    trim is_whitespace text ≠ trim is_whitespace ('{' :: rest) := by
  intro htrim
  have hne : text ≠ [] := by
    rintro rfl
    exact trim_cons_ne_nil (by decide) rest htrim.symm
  have hpos := depth_pos_of_skipped hopen hbegin hlen hne
  rw [← depth_trim, htrim, depth_trim, hbody.1] at hpos
  omega

theorem nestingFits_cons {c : Char} {rest : List Char} (hc : depth [c] = 0) (hbalanced : Balanced (c :: rest)) :
    NestingFits (c :: rest) ↔ StaysOpen 1 rest := by
  constructor
  · intro h front hfront
    have hbegin : c :: front <+: c :: rest := List.cons_prefix_cons.mpr ⟨rfl, hfront⟩
    have hfits := h _ hbegin
    have hnonneg := hbalanced.2 _ hbegin
    rw [depth_cons, hc] at hfits hnonneg
    omega
  · intro h front hfront
    cases front with
    | nil => decide
    | cons d front =>
      obtain ⟨rfl, hrest⟩ := List.cons_prefix_cons.mp hfront
      have hfits := (h front hrest).2
      rw [depth_cons, hc]
      omega

/-- The first character of a balanced text does not close a brace. -/
theorem Balanced.head_ne {c : Char} {rest : List Char} (h : Balanced (c :: rest)) : c ≠ '}' := by
  rintro rfl
  have hfirst := h.2 ['}'] ⟨rest, rfl⟩
  exact absurd hfirst (by decide)

theorem Balanced.tail {c : Char} {rest : List Char} (h : Balanced (c :: rest)) (hc : depth [c] = 0) :
    Balanced rest := by
  refine ⟨?_, fun front hfront => ?_⟩
  · have hzero := h.1
    rwa [depth_cons, hc, Int.zero_add] at hzero
  · have hnonneg := h.2 (c :: front) (List.cons_prefix_cons.mpr ⟨rfl, hfront⟩)
    rwa [depth_cons, hc, Int.zero_add] at hnonneg

section Body

variable {pre blanks body post : List Char} (hpre : ¬ "iface!".toList <:+: pre)
  (hblanks : ∀ c ∈ blanks, is_whitespace c)

include hpre hblanks

theorem handsBody_nil_iff :
    HandsBody (opening pre blanks ++ '}' :: post) [] ↔ ∃ behind, post = '}' :: behind ∧ EndsNarrow behind := by
  unfold HandsBody
  simp only [extract_eq_ok_iff hpre hblanks]
  constructor
  · rintro ⟨text, ⟨c, inside, behind, d, htail, -, hd, -, -, hbegin, hlen⟩, htrim⟩
    -- A text that is not empty would begin with the brace.
    have htext : text = [] := by
      by_contra hne
      obtain ⟨b, rest, rfl⟩ := List.exists_cons_of_ne_nil hne
      obtain ⟨rfl, -⟩ := List.cons_prefix_cons.mp hbegin
      exact trim_cons_ne_nil (by decide) rest htrim
    subst htext
    obtain rfl : inside = [] := List.length_eq_zero_iff.mp hlen.symm
    obtain ⟨-, hpost⟩ := List.cons.inj htail
    exact ⟨behind ++ [d], hpost, behind, d, rfl, hd⟩
  · rintro ⟨_, rfl, behind, d, rfl, hd⟩
    refine ⟨[], ⟨'}', [], behind, d, rfl, by decide, hd, ?_, rfl, List.nil_prefix, rfl⟩, rfl⟩
    exact staysOpen_nil.mpr (by decide)

theorem handsBody_cons_iff {c : Char} {rest : List Char} (hbody : Balanced (c :: rest)) :
    HandsBody (opening pre blanks ++ (c :: rest ++ '}' :: post)) (c :: rest) ↔
      c ≠ '{' ∧ c.utf8Size = 1 ∧ NestingFits (c :: rest) ∧ EndsNarrow post ∧
        ∃ text blank, c :: rest = text ++ blank ∧ byteLen text + 1 = (c :: rest).length ∧
          ∀ b ∈ blank, is_whitespace b := by
  unfold HandsBody
  simp only [extract_eq_ok_iff hpre hblanks]
  constructor
  · rintro ⟨text, ⟨c', inside, behind, d, htail, hc, hd, hopen, hinside, hbegin, hlen⟩, htrim⟩
    rw [List.cons_append] at htail hbegin
    obtain ⟨rfl, hinner⟩ := List.cons.inj htail
    rw [List.append_assoc, List.cons_append] at hinner
    have hbrace : c ≠ '{' := by
      rintro rfl
      rw [hinner] at hbegin
      exact trim_ne_of_skipped hbody hopen hbegin hlen htrim
    have hzero : depth [c] = 0 := depth_eq_of_ne hbrace hbody.head_ne
    obtain ⟨rfl, rfl⟩ := first_close hopen hinside (hbody.tail hzero) hinner.symm
    refine ⟨hbrace, hc, (nestingFits_cons hzero hbody).mpr hopen, ⟨behind, d, rfl, hd⟩, ?_⟩
    have hshort := length_le_byteLen text
    have hbody' : text <+: c :: inside := by
      refine List.prefix_of_prefix_length_le hbegin (List.prefix_append (c :: inside) _) ?_
      rw [List.length_cons]
      omega
    obtain ⟨blank, hblank⟩ := hbody'
    rw [← hblank] at htrim
    exact ⟨text, blank, hblank.symm, by rw [hlen, List.length_cons], trim_append_iff.mp htrim⟩
  · rintro ⟨hbrace, hc, hfits, ⟨behind, d, rfl, hd⟩, text, blank, htext, hlen, hblank⟩
    have hzero : depth [c] = 0 := depth_eq_of_ne hbrace hbody.head_ne
    refine ⟨text, ⟨c, rest, behind, d, by simp, hc, hd, (nestingFits_cons hzero hbody).mp hfits,
      (hbody.tail hzero).1, ?_, by simpa using hlen⟩, ?_⟩
    · rw [htext, List.append_assoc]
      exact List.prefix_append ..
    · rw [htext]
      exact trim_append_iff.mpr hblank

/-- The body is handed over exactly when it is extractable. -/
theorem handsBody_iff (hbody : Balanced body) :
    HandsBody (opening pre blanks ++ (body ++ '}' :: post)) body ↔ Extractable body post := by
  unfold Extractable
  cases body with
  | nil =>
    rw [List.nil_append, handsBody_nil_iff hpre hblanks]
    simp
  | cons c rest =>
    rw [handsBody_cons_iff hpre hblanks hbody]
    simp

end Body

/-- The brace in front of the text is not closed in it. -/
def Unclosed (rest : List Char) : Prop := ∀ front, front <+: rest → 0 ≤ depth front

instance (rest : List Char) : Decidable (Unclosed rest) :=
  decidableForallPrefix (fun front => 0 ≤ depth front) rest

def ReturnsError {ι : Type} (parse : List Char → Except String ι) (contents : List Char) : Prop :=
  ∃ e, parse_external_iface parse contents () = .err e ()

/-- There are at least two characters, the first and the last of one byte. Between them the braces
stay open and can be counted, or else the first one is a brace that is closed between them, where as
many bytes as there are characters inside of it end at the end of a character. -/
def Reported (rest : List Char) : Prop :=
  ∃ c inside d, rest = c :: (inside ++ [d]) ∧ c.utf8Size = 1 ∧ d.utf8Size = 1 ∧
    (StaysOpen 1 inside ∨ (c = '{' ∧ ∃ block behind text, inside = block ++ '}' :: behind ∧
      StaysOpen 1 block ∧ depth block = 0 ∧ text <+: rest ∧ byteLen text = block.length))

/-- What an interface cannot begin with is refused: it begins with the keyword `trait`. -/
def RefusesBraces {ι : Type} (parse : List Char → Except String ι) : Prop :=
  ∀ text, text = [] ∨ text.head? = some '{' → ∃ e, parse text = .error e

theorem parse_external_iface_eq_err_iff {ι : Type} {parse : List Char → Except String ι}
    {contents : List Char} {e : String} :
    parse_external_iface parse contents () = .err e () ↔ extract contents () = .err e () ∨
      ∃ text, extract contents () = .ok text () ∧ parse text = .error e := by
  rw [parse_external_iface, Exec.bind_eq_err_iff]
  apply or_congr_right
  constructor
  · rintro ⟨text, _, hextract, herr⟩
    cases hparse : parse text with
    | ok iface =>
      rw [hparse] at herr
      cases herr
    | error e' =>
      rw [hparse] at herr
      cases herr
      exact ⟨text, hextract, hparse⟩
  · rintro ⟨text, hextract, hparse⟩
    refine ⟨text, (), hextract, ?_⟩
    rw [hparse]
    rfl

/-- Without a closing brace the function returns an error exactly when the text allows it. -/
theorem returnsError_iff {ι : Type} {parse : List Char → Except String ι} (hparse : RefusesBraces parse)
    {pre blanks rest : List Char} (hpre : ¬ "iface!".toList <:+: pre)
    (hblanks : ∀ c ∈ blanks, is_whitespace c) (hrest : Unclosed rest) :
    ReturnsError parse (opening pre blanks ++ rest) ↔ Reported rest := by
  unfold ReturnsError
  simp only [parse_external_iface_eq_err_iff, extract_eq_err_iff hpre hblanks,
    extract_eq_ok_iff hpre hblanks]
  constructor
  · rintro ⟨e, ⟨-, c, inside, d, rfl, hc, hd, hopen⟩ | ⟨text, ⟨c, block, behind, d, rfl, hc, hd, hopen,
      hblock, htext⟩, -⟩⟩
    · exact ⟨c, inside, d, rfl, hc, hd, .inl hopen⟩
    · refine ⟨c, block ++ '}' :: behind, d, rfl, hc, hd, .inr ⟨?_, block, behind, text, rfl, hopen,
        hblock, htext⟩⟩
      -- Else the brace in front would be closed.
      by_contra hbrace
      have hclosed := hrest (c :: (block ++ ['}'])) ⟨behind ++ [d], by simp⟩
      rw [depth_cons, depth_concat_close, hblock] at hclosed
      by_cases hclose : c = '}'
      · subst hclose
        exact absurd hclosed (by decide)
      · rw [depth_eq_of_ne hbrace hclose] at hclosed
        exact absurd hclosed (by decide)
  · rintro ⟨c, inside, d, rfl, hc, hd, hopen | ⟨rfl, block, behind, text, rfl, hopen, hblock, htext⟩⟩
    · exact ⟨_, .inl ⟨rfl, c, inside, d, rfl, hc, hd, hopen⟩⟩
    · have hhead : text = [] ∨ text.head? = some '{' := by
        cases text with
        | nil => exact .inl rfl
        | cons b text => exact .inr (congrArg some (List.cons_prefix_cons.mp htext.1).1)
      obtain ⟨e, he⟩ := hparse text hhead
      exact ⟨e, .inr ⟨text, ⟨_, block, behind, d, rfl, hc, hd, hopen, hblock, htext⟩, he⟩⟩

/-- The body of an interface is handed to the parser, and a missing brace is reported, exactly in
the files that are laid out in a certain way. -/
theorem extracts_body_iff {ι : Type} (parse : List Char → Except String ι) (hparse : RefusesBraces parse)
    (pre blanks body post rest : List Char) (hpre : ¬ "iface!".toList <:+: pre)
    (hblanks : ∀ c ∈ blanks, is_whitespace c) (hbody : Balanced body) (hrest : Unclosed rest) :
    (HandsBody (opening pre blanks ++ (body ++ '}' :: post)) body ↔ Extractable body post) ∧
      (ReturnsError parse (opening pre blanks ++ rest) ↔ Reported rest) :=
  ⟨handsBody_iff hpre hblanks hbody, returnsError_iff hparse hpre hblanks hrest⟩

/-- A parser that looks for the keyword only. -/
def expectTrait (text : List Char) : Except String Unit :=
  if "trait".toList.isPrefixOf (text.dropWhile is_whitespace) then .ok () else .error "expected trait"

theorem expectTrait_refusesBraces : RefusesBraces expectTrait := by
  rintro text (rfl | hhead)
  · exact ⟨_, rfl⟩
  · obtain ⟨rest, rfl⟩ := List.head?_eq_some_iff.mp hhead
    exact ⟨_, rfl⟩

/-- An interface as they are usually written. -/
theorem usual_interface_extracted :
    (let body := "\ntrait T \x7b\x7d\n".toList;
      HandsBody (opening [] [' '] ++ (body ++ '}' :: ['\n'])) body) ∧
    ReturnsError expectTrait (opening [] [' '] ++ "\ntrait T \x7b\n".toList) := by
  have hiff := extracts_body_iff expectTrait expectTrait_refusesBraces [] [' ']
    "\ntrait T \x7b\x7d\n".toList ['\n'] "\ntrait T \x7b\n".toList (by decide)
    (List.forall_mem_singleton.mpr rfl) (by decide +kernel) (by decide +kernel)
  refine ⟨hiff.1.mpr (.inl ?_), hiff.2.mpr ?_⟩
  · refine ⟨'\n', _, rfl, by decide, by decide, ?_, ⟨[], '\n', rfl, by decide⟩, ?_⟩
    · exact (nestingFits_cons rfl (by decide +kernel)).mpr (by decide +kernel)
    · exact ⟨"\ntrait T \x7b\x7d".toList, ['\n'], rfl, by decide, List.forall_mem_singleton.mpr rfl⟩
  · exact ⟨'\n', "trait T \x7b".toList, '\n', rfl, by decide, by decide, .inl (by decide +kernel)⟩

/-- The last character of a body is cut off, and an empty body stops the exporter, as does a brace
at the end of the file. -/
theorem last_character_lost :
    (let body := "trait T \x7b\x7d".toList;
      extract (opening [] [' '] ++ (body ++ '}' :: ['\n'])) () = .ok "trait T \x7b".toList () ∧
        ¬ HandsBody (opening [] [' '] ++ (body ++ '}' :: ['\n'])) body) ∧
    extract (opening [] [] ++ ([] ++ '}' :: [])) () = .abort ∧
    parse_external_iface expectTrait (opening [] []) () = .abort := by
  have hextract : extract (opening [] [' '] ++ ("trait T \x7b\x7d".toList ++ '}' :: ['\n'])) () =
      .ok "trait T \x7b".toList () := by
    rfl
  refine ⟨⟨hextract, ?_⟩, rfl, rfl⟩
  rintro ⟨text, htext, htrim⟩
  cases hextract.symm.trans htext
  exact absurd htrim (by decide)

end l4_derive
