import Mathlib

/-! Regular expressions without classes and alternatives: how they are written, and what the search
for all their matches in a text finds. -/

inductive Regex where
  | empty
  | char (c : Char)
  | start
  | seq (r s : Regex)
  | plus (r : Regex)
  | group (i : Nat) (r : Regex)
  deriving DecidableEq

namespace Regex

/-- Whether every match has at least one character. -/
def consumes : Regex → Bool
  | .empty | .start => false
  | .char _ => true
  | .seq r s => r.consumes || s.consumes
  | .plus r | .group _ r => r.consumes

section Syntax

/-- The characters that have a meaning of their own. -/
def SPECIAL : List Char := ['\\', '.', '+', '*', '?', '(', ')', '|', '[', ']', '{', '}', '^', '$']

/-- Those that can be written behind a backslash, to stand for themselves. -/
def ESCAPABLE : List Char := SPECIAL ++ ['#', '&', '-', '~']

/-- A group that is not closed yet: its number, and what was in front of it, the last item first. -/
abbrev Frame : Type := Nat × List Regex

def seqAll (items : List Regex) : Regex := items.foldl (fun rest item => .seq item rest) .empty

/-- Reads a pattern, with the groups that are open, the items so far and the number of the next group.
Nothing is said of patterns with other constructs. -/
def read : List Char → List Frame → List Regex → Nat → Option Regex
  | [], [], items, _ => some (seqAll items)
  | [], _ :: _, _, _ => none
  | '\\' :: c :: cs, frames, items, next =>
    if c ∈ ESCAPABLE then read cs frames (.char c :: items) next else none
  | '^' :: cs, frames, items, next => read cs frames (.start :: items) next
  | '(' :: cs, frames, items, next => read cs ((next, items) :: frames) [] (next + 1)
  | ')' :: cs, (i, outer) :: frames, items, next => read cs frames (.group i (seqAll items) :: outer) next
  | '+' :: cs, frames, item :: items, next =>
    if item.consumes then read cs frames (.plus item :: items) next else none
  | c :: cs, frames, items, next =>
    if c ∈ SPECIAL then none else read cs frames (.char c :: items) next

def parse (pattern : String) : Option Regex := read pattern.toList [] [] 1

end Syntax

/-- Where a match has come to: the number of characters in front, what is left, and what the groups
have captured, the most recent one first. -/
structure State where
  pos : Nat
  rest : List Char
  groups : List (Nat × String)

/-- What is between two states. -/
def State.upTo (s t : State) : String := String.ofList (s.rest.take (t.pos - s.pos))

/-- One or more steps, as many as possible first. -/
def iterate (step : State → List State) : Nat → State → List State
  | 0, _ => []
  | fuel + 1, s => (step s).flatMap fun t => (if s.pos < t.pos then iterate step fuel t else []) ++ [t]

/-- The ways to match from some state on, the preferred one first. -/
def run : Regex → State → List State
  | .empty, s => [s]
  | .char c, s =>
    match s.rest with
    | [] => []
    | d :: rest => if d = c then [⟨s.pos + 1, rest, s.groups⟩] else []
  | .start, s => if s.pos = 0 then [s] else []
  | .seq r r', s => (r.run s).flatMap r'.run
  | .plus r, s => iterate r.run (s.rest.length + 1) s
  | .group i r, s => (r.run s).map fun t => { t with groups := (i, s.upTo t) :: t.groups }

/-- A match, with the text of its groups. -/
structure Captures where
  whole : String
  groups : List (Nat × String)
  deriving DecidableEq

/-- The text of a group, of which number 0 is the whole match. -/
def Captures.get (cap : Captures) : Nat → Option String
  | 0 => some cap.whole
  | i + 1 => cap.groups.lookup (i + 1)

/-- The first match that begins at some place or behind it, and where it ends. -/
def find (r : Regex) (pos : Nat) : List Char → Option (Captures × State)
  | [] => (r.run ⟨pos, [], []⟩).head?.map fun t => (⟨State.upTo ⟨pos, [], []⟩ t, t.groups⟩, t)
  | c :: rest =>
    match (r.run ⟨pos, c :: rest, []⟩).head? with
    | some t => some (⟨State.upTo ⟨pos, c :: rest, []⟩ t, t.groups⟩, t)
    | none => find r (pos + 1) rest

/-- The matches from some place on, each beginning where the one before it ends or later. -/
def findAll (r : Regex) : Nat → Nat → List Char → List Captures
  | 0, _, _ => []
  | fuel + 1, pos, rest =>
    match find r pos rest with
    | some (cap, t) => cap :: findAll r fuel t.pos t.rest
    | none => []

/-- All matches in a text, none of which is empty. -/
def captures_iter (r : Regex) (text : List Char) : List Captures := findAll r (text.length + 1) 0 text

section Matches

/-- What it means to match, whichever way is preferred. -/
inductive Matches : Regex → State → State → Prop where
  | empty (s : State) : Matches .empty s s
  | char (c : Char) (pos : Nat) (rest : List Char) (groups : List (Nat × String)) :
      Matches (.char c) ⟨pos, c :: rest, groups⟩ ⟨pos + 1, rest, groups⟩
  | start (rest : List Char) (groups : List (Nat × String)) : Matches .start ⟨0, rest, groups⟩ ⟨0, rest, groups⟩
  | seq {r r' : Regex} {s t u : State} (h : Matches r s t) (h' : Matches r' t u) : Matches (.seq r r') s u
  | once {r : Regex} {s t : State} (h : Matches r s t) : Matches (.plus r) s t
  | again {r : Regex} {s t u : State} (h : Matches r s t) (hpos : s.pos < t.pos) (h' : Matches (.plus r) t u) :
      Matches (.plus r) s u
  | group {r : Regex} {s t : State} (i : Nat) (h : Matches r s t) :
      Matches (.group i r) s { t with groups := (i, s.upTo t) :: t.groups }

variable {r : Regex} {s t : State}

theorem matches_of_mem_iterate {step : State → List State} (hstep : ∀ s t, t ∈ step s → Matches r s t)
    (fuel : Nat) (s t : State) (h : t ∈ iterate step fuel s) : Matches (.plus r) s t := by
  induction fuel generalizing s with
  | zero => cases h
  | succ fuel ih =>
    obtain ⟨u, hu, ht⟩ := List.mem_flatMap.mp h
    have hfirst : Matches r s u := hstep s u hu
    obtain ht | ht := List.mem_append.mp ht
    · split at ht
      · exact .again hfirst ‹_› (ih u ht)
      · cases ht
    · rw [List.mem_singleton.mp ht]
      exact .once hfirst

/-- Every way to match that the search goes is one. -/
theorem matches_of_mem_run (h : t ∈ r.run s) : Matches r s t := by
  induction r generalizing s t with
  | empty =>
    rw [List.mem_singleton.mp h]
    exact .empty s
  | char c =>
    obtain ⟨pos, rest, groups⟩ := s
    cases rest with
    | nil => cases h
    | cons d rest =>
      change t ∈ if d = c then [⟨pos + 1, rest, groups⟩] else [] at h
      split at h
      · rename_i hd
        subst hd
        rw [List.mem_singleton.mp h]
        exact .char d pos rest groups
      · cases h
  | start =>
    rw [run] at h
    split at h
    · rename_i hpos
      obtain ⟨pos, rest, groups⟩ := s
      obtain rfl : pos = 0 := hpos
      rw [List.mem_singleton.mp h]
      exact .start rest groups
    · cases h
  | seq r r' ih ih' =>
    obtain ⟨u, hu, ht⟩ := List.mem_flatMap.mp h
    exact .seq (ih hu) (ih' ht)
  | plus r ih => exact matches_of_mem_iterate (fun _ _ hmem => ih hmem) _ s t h
  | group i r ih =>
    obtain ⟨u, hu, rfl⟩ := List.mem_map.mp h
    exact .group i (ih hu)

theorem Matches.length (h : Matches r s t) : s.pos ≤ t.pos ∧ t.pos + t.rest.length = s.pos + s.rest.length := by
  induction h with
  | empty s => exact ⟨le_rfl, rfl⟩
  | char c pos rest groups =>
    simp only [List.length_cons]
    omega
  | start rest groups => exact ⟨le_rfl, rfl⟩
  | seq h h' ih ih' => omega
  | once h ih => exact ih
  | again h hpos h' ih ih' => omega
  | group i h ih => exact ih

/-- The search goes all ways to match. -/
theorem mem_run_of_matches (h : Matches r s t) : t ∈ r.run s := by
  suffices hboth : t ∈ r.run s ∧ ∀ r', r = .plus r' → ∀ fuel, s.rest.length < fuel → t ∈ iterate r'.run fuel s by
    exact hboth.1
  induction h with
  | empty s => exact ⟨List.mem_singleton_self _, nofun⟩
  | char c pos rest groups =>
    refine ⟨?_, nofun⟩
    change _ ∈ if c = c then _ else _
    rw [if_pos rfl]
    exact List.mem_singleton_self _
  | start rest groups => exact ⟨List.mem_singleton_self _, nofun⟩
  | seq h h' ih ih' => exact ⟨List.mem_flatMap.mpr ⟨_, ih.1, ih'.1⟩, nofun⟩
  | @once r s t h ih =>
    have hiterate : ∀ fuel, s.rest.length < fuel → t ∈ iterate r.run fuel s := by
      intro fuel hfuel
      obtain ⟨fuel, rfl⟩ := Nat.exists_eq_succ_of_ne_zero (Nat.ne_of_gt (Nat.zero_lt_of_lt hfuel))
      exact List.mem_flatMap.mpr ⟨t, ih.1, List.mem_append_right _ (List.mem_singleton_self _)⟩
    refine ⟨hiterate _ (Nat.lt_succ_self _), ?_⟩
    rintro _ ⟨⟩
    exact hiterate
  | @again r s t u h hpos h' ih ih' =>
    have hiterate : ∀ fuel, s.rest.length < fuel → u ∈ iterate r.run fuel s := by
      intro fuel hfuel
      obtain ⟨fuel, rfl⟩ := Nat.exists_eq_succ_of_ne_zero (Nat.ne_of_gt (Nat.zero_lt_of_lt hfuel))
      refine List.mem_flatMap.mpr ⟨t, ih.1, List.mem_append_left _ ?_⟩
      rw [if_pos hpos]
      have hlength := h.length
      exact ih'.2 r rfl fuel (by omega)
    refine ⟨hiterate _ (Nat.lt_succ_self _), ?_⟩
    rintro _ ⟨⟩
    exact hiterate
  | group i h ih => exact ⟨List.mem_map.mpr ⟨_, ih.1, rfl⟩, nofun⟩

theorem mem_run_iff : t ∈ r.run s ↔ Matches r s t := ⟨matches_of_mem_run, mem_run_of_matches⟩

section Sequences

variable {r : Regex} {c : Char} {pos : Nat} {rest : List Char} {groups : List (Nat × String)} {t : State}

@[simp] theorem matches_empty_iff {s : State} : Matches .empty s t ↔ t = s := by
  constructor
  · intro h
    cases h
    rfl
  · rintro rfl
    exact .empty t

@[simp] theorem matches_seq_char_iff :
    Matches (.seq (.char c) r) ⟨pos, rest, groups⟩ t ↔
      ∃ behind, rest = c :: behind ∧ Matches r ⟨pos + 1, behind, groups⟩ t := by
  constructor
  · rintro (_ | _ | _ | ⟨h, h'⟩)
    cases h with
    | char _ _ behind _ => exact ⟨behind, rfl, h'⟩
  · rintro ⟨behind, rfl, h⟩
    exact .seq (.char c pos behind groups) h

@[simp] theorem matches_seq_start_iff :
    Matches (.seq .start r) ⟨pos, rest, groups⟩ t ↔ pos = 0 ∧ Matches r ⟨pos, rest, groups⟩ t := by
  constructor
  · rintro (_ | _ | _ | ⟨h, h'⟩)
    cases h
    exact ⟨rfl, h'⟩
  · rintro ⟨rfl, h⟩
    exact .seq (.start rest groups) h

/-- A repeated character matches wherever it occurs some times in a row. -/
theorem matches_plus_char (c : Char) (n pos : Nat) (behind : List Char) (groups : List (Nat × String)) :
    Matches (.plus (.char c)) ⟨pos, List.replicate (n + 1) c ++ behind, groups⟩ ⟨pos + (n + 1), behind, groups⟩ := by
  induction n generalizing pos with
  | zero => exact .once (.char c pos behind groups)
  | succ n ih =>
    have hend : pos + (n + 1 + 1) = pos + 1 + (n + 1) := by omega
    rw [hend]
    exact .again (.char c pos _ groups) (Nat.lt_succ_self pos) (ih (pos + 1))

theorem exists_of_matches_plus_char {s : State} (h : Matches (.plus (.char c)) s t) :
    ∃ n, s.rest = List.replicate (n + 1) c ++ t.rest ∧ t = ⟨s.pos + (n + 1), t.rest, s.groups⟩ := by
  generalize hr : Regex.plus (.char c) = r at h
  induction h with
  | once h =>
    cases hr
    cases h
    exact ⟨0, rfl, rfl⟩
  | @again _ s u t h hpos h' ih ih' =>
    cases hr
    obtain ⟨n, hrest, ht⟩ := ih' rfl
    cases h with
    | char _ pos rest groups =>
      have hend : pos + 1 + (n + 1) = pos + (n + 1 + 1) := by omega
      exact ⟨n + 1, congrArg (c :: ·) hrest, ht.trans (congrArg (fun p => State.mk p t.rest groups) hend)⟩
  | empty => cases hr
  | char => cases hr
  | start => cases hr
  | seq => cases hr
  | group => cases hr

@[simp] theorem matches_seq_plus_char_iff :
    Matches (.seq (.plus (.char c)) r) ⟨pos, rest, groups⟩ t ↔ ∃ n behind, rest = List.replicate (n + 1) c ++ behind ∧
      Matches r ⟨pos + (n + 1), behind, groups⟩ t := by
  constructor
  · rintro (_ | _ | _ | ⟨h, h'⟩)
    obtain ⟨n, hrest, hu⟩ := exists_of_matches_plus_char h
    rw [hu] at h'
    exact ⟨n, _, hrest, h'⟩
  · rintro ⟨n, behind, rfl, h⟩
    exact .seq (matches_plus_char c n pos behind groups) h

@[simp] theorem matches_seq_group_iff {i : Nat} {r' : Regex} {s : State} :
    Matches (.seq (.group i r) r') s t ↔
      ∃ u, Matches r s u ∧ Matches r' { u with groups := (i, s.upTo u) :: u.groups } t := by
  constructor
  · rintro (_ | _ | _ | ⟨h, h'⟩)
    cases h with
    | @group _ _ u _ h => exact ⟨u, h, h'⟩
  · rintro ⟨u, h, h'⟩
    exact .seq (.group i h) h'

end Sequences

end Matches

section Search

variable {r : Regex} {pos : Nat} {text : List Char} {cap : Captures} {t : State}

/-- What is found comes from a match that begins in the text. -/
theorem matches_of_find (h : find r pos text = some (cap, t)) :
    ∃ front back, text = front ++ back ∧ Matches r ⟨pos + front.length, back, []⟩ t ∧
      cap = ⟨State.upTo ⟨pos + front.length, back, []⟩ t, t.groups⟩ := by
  induction text generalizing pos with
  | nil =>
    obtain ⟨u, hu, heq⟩ := Option.map_eq_some_iff.mp h
    cases heq
    exact ⟨[], [], rfl, mem_run_iff.mp (List.mem_of_mem_head? hu), rfl⟩
  | cons c text ih =>
    rw [find] at h
    split at h
    · rename_i u hu
      cases h
      exact ⟨[], c :: text, rfl, mem_run_iff.mp (List.mem_of_mem_head? hu), rfl⟩
    · obtain ⟨front, back, rfl, hmatches, hcap⟩ := ih h
      have hpos : pos + (c :: front).length = pos + 1 + front.length := by
        rw [List.length_cons]
        omega
      exact ⟨c :: front, back, rfl, hpos ▸ hmatches, hpos ▸ hcap⟩

theorem find_ne_none {front back : List Char} (h : Matches r ⟨pos + front.length, back, []⟩ t) :
    find r pos (front ++ back) ≠ none := by
  induction front generalizing pos with
  | nil =>
    have hmem : t ∈ r.run ⟨pos, back, []⟩ := mem_run_iff.mpr h
    cases back with
    | nil => simpa [find] using List.ne_nil_of_mem hmem
    | cons c back =>
      obtain ⟨u, hu⟩ := Option.isSome_iff_exists.mp (List.isSome_head?.mpr (List.ne_nil_of_mem hmem))
      rw [List.nil_append, find, hu]
      exact Option.some_ne_none _
  | cons c front ih =>
    have hpos : pos + (c :: front).length = pos + 1 + front.length := by
      rw [List.length_cons]
      omega
    rw [List.cons_append, find]
    split
    · exact Option.some_ne_none _
    · exact ih (hpos ▸ h)

theorem matches_of_mem_findAll {fuel : Nat} (h : cap ∈ findAll r fuel pos text) :
    ∃ s t, Matches r s t ∧ s.groups = [] ∧ cap = ⟨s.upTo t, t.groups⟩ := by
  induction fuel generalizing pos text with
  | zero => cases h
  | succ fuel ih =>
    rw [findAll] at h
    split at h
    · rename_i found u hfound
      obtain rfl | h := List.mem_cons.mp h
      · obtain ⟨front, back, -, hmatches, hcap⟩ := matches_of_find hfound
        exact ⟨_, u, hmatches, rfl, hcap⟩
      · exact ih h
    · cases h

/-- All that is found comes from matches. -/
theorem matches_of_mem_captures_iter (h : cap ∈ captures_iter r text) :
    ∃ s t, Matches r s t ∧ s.groups = [] ∧ cap = ⟨s.upTo t, t.groups⟩ :=
  matches_of_mem_findAll h

/-- Nothing is found exactly if there is no match anywhere. -/
theorem captures_iter_eq_nil_iff :
    captures_iter r text = [] ↔ ∀ front back t, text = front ++ back → ¬ Matches r ⟨front.length, back, []⟩ t := by
  constructor
  · rintro h front back t rfl hmatches
    have hsome : find r 0 (front ++ back) ≠ none := find_ne_none (by rwa [Nat.zero_add])
    rw [captures_iter, findAll] at h
    split at h
    · cases h
    · rename_i hnone
      exact hsome hnone
  · intro h
    rw [captures_iter, findAll]
    split
    · rename_i found u hfound
      obtain ⟨front, back, hsplit, hmatches, -⟩ := matches_of_find hfound
      rw [Nat.zero_add] at hmatches
      exact absurd hmatches (h front back u hsplit)
    · rfl

end Search

end Regex
