import L4Rust.Library.Lists
import Mathlib

namespace FreshNames

variable {ν : Type} [DecidableEq ν] (letter : Nat → ν) (limit : Nat)

/-- The first letter that has not been used. -/
def fresh (used : List ν) : Option Nat := (List.range limit).find? fun k => letter k ∉ used

/-- The names for some requests, one after the other: a request comes with a name, or it gets the
first letter that is not among the names before it. -/
inductive Assigned : List (Option ν) → List ν → Prop where
  | nil : Assigned [] []
  | given {requests : List (Option ν)} {names : List ν} (name : ν) (h : Assigned requests names) :
      Assigned (requests ++ [some name]) (names ++ [name])
  | unnamed {requests : List (Option ν)} {names : List ν} {k : Nat} (h : Assigned requests names)
      (hk : fresh letter limit names = some k) : Assigned (requests ++ [none]) (names ++ [letter k])

/-- A request that takes one of the first letters, or may do so. -/
def Takes (k : Nat) : Option ν → Prop
  | none => True
  | some name => ∃ i < k, name = letter i

instance (k : Nat) : DecidablePred (Takes letter k)
  | none => isTrue trivial
  | some name => inferInstanceAs (Decidable (∃ i < k, name = letter i))

/-- How many requests take one of the first letters, or may do so. -/
def taken (k : Nat) (requests : List (Option ν)) : Nat := requests.countP fun r => Takes letter k r

/-- How many of the first letters are used. -/
def usedBelow (k : Nat) (names : List ν) : Nat := ((Finset.range k).filter fun i => letter i ∈ names).card

/-- The names that do not come with a request are among the first letters. -/
def Bounded (k : Nat) (requests : List (Option ν)) (names : List ν) : Prop :=
  ∀ name ∈ names, some name ∈ requests ∨ ∃ i < k, name = letter i

variable {letter limit} {requests : List (Option ν)} {names used : List ν} {k m : Nat}

theorem fresh_eq_some_iff :
    fresh letter limit used = some k ↔ k < limit ∧ letter k ∉ used ∧ ∀ i < k, letter i ∈ used := by
  rw [fresh, List.find?_range_eq_some]
  simp only [decide_eq_true_eq, List.mem_range, Bool.not_eq_true', decide_eq_false_iff_not, not_not]
  tauto

theorem usedBelow_le (k : Nat) (names : List ν) : usedBelow letter k names ≤ k := by
  calc usedBelow letter k names ≤ (Finset.range k).card := Finset.card_filter_le ..
    _ = k := Finset.card_range k

theorem usedBelow_eq_iff : usedBelow letter k names = k ↔ ∀ i < k, letter i ∈ names := by
  have hcard := Finset.card_filter_eq_iff (s := Finset.range k) (p := fun i => letter i ∈ names)
  rw [Finset.card_range] at hcard
  simpa [usedBelow] using hcard

theorem taken_concat (k : Nat) (requests : List (Option ν)) (r : Option ν) :
    taken letter k (requests ++ [r]) = taken letter k requests + if Takes letter k r then 1 else 0 := by
  simp [taken, List.countP_append, List.countP_singleton]

theorem usedBelow_concat_of_ne {name : ν} (hname : ∀ i < k, name ≠ letter i) :
    usedBelow letter k (names ++ [name]) = usedBelow letter k names := by
  unfold usedBelow
  congr 1
  apply Finset.filter_congr
  intro i hi
  have hne : letter i ≠ name := (hname i (Finset.mem_range.mp hi)).symm
  simp [hne]

section Injective

variable (hletter : Set.InjOn letter (Set.Iio limit))

include hletter

/-- A letter that is used once more is counted once more. -/
theorem usedBelow_concat_of_not_mem {i : Nat} (hk : k ≤ limit) (hi : i < k) (hmem : letter i ∉ names) :
    usedBelow letter k (names ++ [letter i]) = usedBelow letter k names + 1 := by
  have hinsert : ((Finset.range k).filter fun j => letter j ∈ names ++ [letter i]) =
      insert i ((Finset.range k).filter fun j => letter j ∈ names) := by
    ext j
    simp only [Finset.mem_filter, Finset.mem_range, Finset.mem_insert, List.mem_append,
      List.mem_singleton]
    constructor
    · rintro ⟨hj, hused | heq⟩
      · exact .inr ⟨hj, hused⟩
      · exact .inl (hletter (Set.mem_Iio.mpr (by omega)) (Set.mem_Iio.mpr (by omega)) heq)
    · rintro (rfl | ⟨hj, hused⟩)
      · exact ⟨hi, .inr rfl⟩
      · exact ⟨hj, .inl hused⟩
  rw [usedBelow, hinsert, Finset.card_insert_of_notMem, usedBelow]
  simp [hmem]

theorem usedBelow_concat_le (hk : k ≤ limit) (names : List ν) (name : ν) :
    usedBelow letter k (names ++ [name]) ≤ usedBelow letter k names + 1 := by
  by_cases hname : ∃ i < k, name = letter i
  · obtain ⟨i, hi, rfl⟩ := hname
    by_cases hmem : letter i ∈ names
    · have hsame : usedBelow letter k (names ++ [letter i]) = usedBelow letter k names := by
        unfold usedBelow
        congr 1
        apply Finset.filter_congr
        intro j _
        simp only [List.mem_append, List.mem_singleton, or_iff_left_iff_imp]
        intro hj
        rw [hj]
        exact hmem
      omega
    · rw [usedBelow_concat_of_not_mem hletter hk hi hmem]
  · rw [usedBelow_concat_of_ne (by simpa using hname)]
    omega

/-- Every letter that is used was taken by some request. -/
theorem Assigned.usedBelow_le_taken (h : Assigned letter limit requests names) (hlimit : m ≤ limit)
    (hgiven : ∀ i, k ≤ i → i < m → some (letter i) ∉ requests) :
    usedBelow letter m names ≤ taken letter k requests := by
  induction h with
  | nil => simp [usedBelow]
  | @given requests names name h ih =>
    have hbefore : usedBelow letter m names ≤ taken letter k requests := by
      apply ih
      intro i hk hm hmem
      exact hgiven i hk hm (List.mem_append_left _ hmem)
    rw [taken_concat]
    by_cases hname : ∃ i < m, name = letter i
    · obtain ⟨i, hi, rfl⟩ := hname
      have hik : i < k := by
        by_contra hle
        exact hgiven i (Nat.not_lt.mp hle) hi (List.mem_append_right _ (List.mem_singleton_self _))
      have htakes : Takes letter k (some (letter i)) := ⟨i, hik, rfl⟩
      have hle := usedBelow_concat_le hletter hlimit names (letter i)
      rw [if_pos htakes]
      omega
    · rw [usedBelow_concat_of_ne (by simpa using hname)]
      omega
  | @unnamed requests names j h hj ih =>
    have hbefore : usedBelow letter m names ≤ taken letter k requests := by
      apply ih
      intro i hk hm hmem
      exact hgiven i hk hm (List.mem_append_left _ hmem)
    have htakes : Takes letter k (none : Option ν) := trivial
    have hle := usedBelow_concat_le hletter hlimit names (letter j)
    rw [taken_concat, if_pos htakes]
    omega

end Injective

/-- A name was given or is a letter, behind letters that are all used. -/
theorem Assigned.mem_cases (h : Assigned letter limit requests names) {name : ν} (hname : name ∈ names) :
    some name ∈ requests ∨ ∃ k < limit, name = letter k ∧ ∀ i < k, letter i ∈ names := by
  induction h with
  | nil => cases hname
  | @given requests names last h ih =>
    rcases List.mem_append.mp hname with hbefore | hlast
    · rcases ih hbefore with hgiven | ⟨k, hk, rfl, hused⟩
      · exact .inl (List.mem_append_left _ hgiven)
      · exact .inr ⟨k, hk, rfl, fun i hi => List.mem_append_left _ (hused i hi)⟩
    · rw [List.mem_singleton.mp hlast]
      exact .inl (List.mem_append_right _ (List.mem_singleton_self _))
  | @unnamed requests names j h hj ih =>
    rcases List.mem_append.mp hname with hbefore | hlast
    · rcases ih hbefore with hgiven | ⟨k, hk, rfl, hused⟩
      · exact .inl (List.mem_append_left _ hgiven)
      · exact .inr ⟨k, hk, rfl, fun i hi => List.mem_append_left _ (hused i hi)⟩
    · obtain ⟨hlimit, -, hused⟩ := fresh_eq_some_iff.mp hj
      refine .inr ⟨j, hlimit, List.mem_singleton.mp hlast, fun i hi => ?_⟩
      exact List.mem_append_left _ (hused i hi)

/-- Without some letter there are only smaller ones. -/
theorem Assigned.bounded_of_not_mem (h : Assigned letter limit requests names) (hk : letter k ∉ names) :
    Bounded letter k requests names := by
  intro name hname
  rcases h.mem_cases hname with hgiven | ⟨j, -, rfl, hused⟩
  · exact .inl hgiven
  · refine .inr ⟨j, ?_, rfl⟩
    by_contra hle
    rcases Nat.lt_or_eq_of_le (Nat.not_lt.mp hle) with hlt | rfl
    · exact hk (hused k hlt)
    · exact hk hname

theorem Assigned.mem_of_some_mem (h : Assigned letter limit requests names) {name : ν}
    (hname : some name ∈ requests) : name ∈ names := by
  induction h with
  | nil => cases hname
  | @given requests names last h ih =>
    rcases List.mem_append.mp hname with hbefore | hlast
    · exact List.mem_append_left _ (ih hbefore)
    · cases List.mem_singleton.mp hlast
      exact List.mem_append_right _ (List.mem_singleton_self _)
  | @unnamed requests names j h hj ih =>
    rcases List.mem_append.mp hname with hbefore | hlast
    · exact List.mem_append_left _ (ih hbefore)
    · cases List.mem_singleton.mp hlast

omit [DecidableEq ν] in
theorem nodup_concat_iff {name : ν} : (names ++ [name]).Nodup ↔ names.Nodup ∧ name ∉ names := by
  rw [← List.concat_eq_append, List.nodup_concat, and_comm]

omit [DecidableEq ν] in
theorem bounded_given_iff {name : ν} (hnew : name ∉ names) :
    Bounded letter m (requests ++ [some name]) (names ++ [name]) ↔ Bounded letter m requests names := by
  constructor
  · intro h other hother
    rcases h other (List.mem_append_left _ hother) with hgiven | hbelow
    · rcases List.mem_append.mp hgiven with hgiven | hlast
      · exact .inl hgiven
      · cases List.mem_singleton.mp hlast
        exact absurd hother hnew
    · exact .inr hbelow
  · intro h other hother
    rcases List.mem_append.mp hother with hbefore | hlast
    · exact (h other hbefore).imp_left (List.mem_append_left _)
    · rw [List.mem_singleton.mp hlast]
      exact .inl (List.mem_append_right _ (List.mem_singleton_self _))

omit [DecidableEq ν] in
theorem some_mem_concat_none {name : ν} : some name ∈ requests ++ [none] ↔ some name ∈ requests := by
  simp

/-- One more letter that is found is one more that has to be among the first. -/
theorem Assigned.bounded_unnamed_iff (hletter : Set.InjOn letter (Set.Iio limit))
    (h : Assigned letter limit requests names) (hk : fresh letter limit names = some k) (hm : m ≤ limit) :
    Bounded letter m (requests ++ [none]) (names ++ [letter k]) ↔
      Bounded letter m requests names ∧ k < m := by
  obtain ⟨hlimit, hnew, -⟩ := fresh_eq_some_iff.mp hk
  unfold Bounded
  simp only [some_mem_concat_none, List.forall_mem_append, List.forall_mem_singleton]
  apply and_congr_right'
  constructor
  · rintro (hgiven | ⟨i, hi, heq⟩)
    · exact absurd (h.mem_of_some_mem hgiven) hnew
    · rw [hletter (Set.mem_Iio.mpr hlimit) (Set.mem_Iio.mpr (by omega)) heq]
      exact hi
  · exact fun hkm => .inr ⟨k, hkm, rfl⟩

/-- Where all names are different, the requests that take one of the first letters have one each. -/
theorem Assigned.taken_eq_usedBelow (hletter : Set.InjOn letter (Set.Iio limit))
    (h : Assigned letter limit requests names) (hnodup : names.Nodup)
    (hbounded : Bounded letter m requests names) (hm : m ≤ limit) : taken letter m requests = usedBelow letter m names := by
  induction h with
  | nil => simp [taken, usedBelow]
  | @given requests names name h ih =>
    obtain ⟨hbefore, hnew⟩ := nodup_concat_iff.mp hnodup
    rw [taken_concat, ih hbefore ((bounded_given_iff hnew).mp hbounded)]
    by_cases htakes : Takes letter m (some name)
    · rw [if_pos htakes]
      obtain ⟨i, hi, rfl⟩ := htakes
      exact (usedBelow_concat_of_not_mem hletter hm hi hnew).symm
    · have hne : ∀ i < m, name ≠ letter i := fun i hi heq => htakes ⟨i, hi, heq⟩
      rw [if_neg htakes, usedBelow_concat_of_ne hne, Nat.add_zero]
  | @unnamed requests names k h hk ih =>
    obtain ⟨hbefore, hnew⟩ := nodup_concat_iff.mp hnodup
    obtain ⟨hbounded, hkm⟩ := (h.bounded_unnamed_iff hletter hk hm).mp hbounded
    have htakes : Takes letter m (none : Option ν) := trivial
    rw [taken_concat, if_pos htakes, ih hbefore hbounded, usedBelow_concat_of_not_mem hletter hm hkm hnew]

theorem assigned_given_iff {name : ν} :
    Assigned letter limit (requests ++ [some name]) used ↔
      ∃ names, used = names ++ [name] ∧ Assigned letter limit requests names := by
  constructor
  · intro h
    generalize hall : requests ++ [some name] = all at h
    cases h with
    | nil => simp at hall
    | given last h =>
      obtain ⟨rfl, hlast⟩ := List.append_inj' hall rfl
      cases hlast
      exact ⟨_, rfl, h⟩
    | unnamed h hk =>
      obtain ⟨-, hlast⟩ := List.append_inj' hall rfl
      cases hlast
  · rintro ⟨names, rfl, h⟩
    exact .given name h

theorem assigned_unnamed_iff :
    Assigned letter limit (requests ++ [none]) used ↔ ∃ names k, used = names ++ [letter k] ∧
      Assigned letter limit requests names ∧ fresh letter limit names = some k := by
  constructor
  · intro h
    generalize hall : requests ++ [none] = all at h
    cases h with
    | nil => simp at hall
    | given last h =>
      obtain ⟨-, hlast⟩ := List.append_inj' hall rfl
      cases hlast
    | unnamed h hk =>
      obtain ⟨rfl, -⟩ := List.append_inj' hall rfl
      exact ⟨_, _, rfl, h, hk⟩
  · rintro ⟨names, k, rfl, h, hk⟩
    exact .unnamed h hk

/-- The requests at the beginning have names too. -/
theorem Assigned.exists_front {before after : List (Option ν)}
    (h : Assigned letter limit (before ++ after) used) : ∃ names, Assigned letter limit before names := by
  induction after using List.reverseRecOn generalizing used with
  | nil =>
    rw [List.append_nil] at h
    exact ⟨used, h⟩
  | append_singleton after r ih =>
    rw [← List.append_assoc] at h
    cases r with
    | some name =>
      obtain ⟨names, -, hnames⟩ := assigned_given_iff.mp h
      exact ih hnames
    | none =>
      obtain ⟨names, k, -, hnames, -⟩ := assigned_unnamed_iff.mp h
      exact ih hnames

theorem Assigned.unique (h : Assigned letter limit requests names)
    (h' : Assigned letter limit requests used) : names = used := by
  induction h generalizing used with
  | nil =>
    generalize hall : ([] : List (Option ν)) = all at h'
    cases h' with
    | nil => rfl
    | given => simp at hall
    | unnamed => simp at hall
  | given name h ih =>
    obtain ⟨names', rfl, hnames⟩ := assigned_given_iff.mp h'
    rw [ih hnames]
  | unnamed h hk ih =>
    obtain ⟨names', k', rfl, hnames, hk'⟩ := assigned_unnamed_iff.mp h'
    obtain rfl := ih hnames
    cases hk.symm.trans hk'
    rfl

/-- Where the letters have run out there are no names for the requests. -/
theorem Assigned.not_exists_of_full (h : Assigned letter limit requests used)
    (hfull : fresh letter limit used = none) (after : List (Option ν)) :
    ¬ ∃ total, Assigned letter limit (requests ++ [none] ++ after) total := by
  rintro ⟨total, htotal⟩
  obtain ⟨front, hfront⟩ := htotal.exists_front
  obtain ⟨names, k, -, hnames, hk⟩ := assigned_unnamed_iff.mp hfront
  rw [h.unique hnames, hk] at hfull
  cases hfull

variable (letter) in
/-- The condition on a request and those before it: a name has not been given before and has not
been used up as a letter, and where a letter is to be found there is one left. -/
def Fit (m : Nat) (before : List (Option ν)) : Option ν → Prop
  | some name => some name ∉ before ∧ ∀ k < m, name = letter k → taken letter k before ≤ k
  | none => taken letter m before < m

variable (letter) in
/-- The condition on all requests. -/
def Fits (m : Nat) (requests : List (Option ν)) : Prop :=
  ∀ before r after, requests = before ++ r :: after → Fit letter m before r

section Injective

variable (hletter : Set.InjOn letter (Set.Iio limit))

include hletter

/-- A name is new exactly when the requests before it leave it alone. -/
theorem Assigned.not_mem_iff (h : Assigned letter limit requests names) (hnodup : names.Nodup)
    (hbounded : Bounded letter m requests names) (hm : m ≤ limit) {name : ν} :
    name ∉ names ↔ Fit letter m requests (some name) := by
  constructor
  · intro hnew
    refine ⟨fun hgiven => hnew (h.mem_of_some_mem hgiven), ?_⟩
    rintro k hk rfl
    rw [h.taken_eq_usedBelow hletter hnodup (h.bounded_of_not_mem hnew) (by omega)]
    exact usedBelow_le k names
  · rintro ⟨hgiven, hletters⟩ hmem
    obtain ⟨k, hlimit, rfl, hused⟩ := (h.mem_cases hmem).resolve_left hgiven
    obtain ⟨i, hi, heq⟩ := (hbounded _ hmem).resolve_left hgiven
    obtain rfl := hletter (Set.mem_Iio.mpr hlimit) (Set.mem_Iio.mpr (by omega)) heq
    have hall : usedBelow letter (k + 1) names = k + 1 := by
      rw [usedBelow_eq_iff]
      intro i hi
      rcases Nat.lt_succ_iff_lt_or_eq.mp hi with hlt | rfl
      · exact hused i hlt
      · exact hmem
    have hle : usedBelow letter (k + 1) names ≤ taken letter k requests := by
      apply h.usedBelow_le_taken hletter hlimit
      intro i hki hik
      obtain rfl : i = k := by omega
      exact hgiven
    have htaken := hletters k hi rfl
    omega

/-- There is a letter left exactly when the requests before leave one. -/
theorem Assigned.fresh_iff (h : Assigned letter limit requests names) (hnodup : names.Nodup)
    (hbounded : Bounded letter m requests names) (hm : m ≤ limit) :
    (∃ k < m, fresh letter limit names = some k) ↔ Fit letter m requests none := by
  have hle : usedBelow letter m names ≤ m := usedBelow_le m names
  rw [Fit, h.taken_eq_usedBelow hletter hnodup hbounded hm]
  constructor
  · rintro ⟨k, hk, hfresh⟩
    obtain ⟨-, hnew, -⟩ := fresh_eq_some_iff.mp hfresh
    apply lt_of_le_of_ne hle
    intro hall
    exact hnew (usedBelow_eq_iff.mp hall k hk)
  · intro hlt
    have hsome : ∃ k, k < m ∧ letter k ∉ names := by
      by_contra hnone
      push Not at hnone
      exact absurd (usedBelow_eq_iff.mpr hnone) hlt.ne
    obtain ⟨hk, hnew⟩ := Nat.find_spec hsome
    refine ⟨Nat.find hsome, hk, fresh_eq_some_iff.mpr ⟨by omega, hnew, fun i hi => ?_⟩⟩
    by_contra hmem
    exact Nat.find_min hsome hi ⟨by omega, hmem⟩

/-- All names are different, and those that are found are among the first letters, exactly when the
requests fit. -/
theorem assigned_iff (hm : m ≤ limit) :
    (∃ names, Assigned letter limit requests names ∧ names.Nodup ∧ Bounded letter m requests names) ↔
      Fits letter m requests := by
  induction requests using List.reverseRecOn with
  | nil =>
    refine ⟨fun _ before r after hsplit => by simp at hsplit, fun _ => ⟨[], .nil, List.nodup_nil, ?_⟩⟩
    exact fun name hname => by cases hname
  | append_singleton requests r ih =>
    rw [Fits, Lists.forall_split_concat, ← Fits, ← ih]
    cases r with
    | some name =>
      constructor
      · rintro ⟨used, h, hnodup, hbounded⟩
        obtain ⟨names, rfl, hnames⟩ := assigned_given_iff.mp h
        obtain ⟨hbefore, hnew⟩ := nodup_concat_iff.mp hnodup
        have hbounded' := (bounded_given_iff hnew).mp hbounded
        exact ⟨⟨names, hnames, hbefore, hbounded'⟩, (hnames.not_mem_iff hletter hbefore hbounded' hm).mp hnew⟩
      · rintro ⟨⟨names, hnames, hbefore, hbounded⟩, hfit⟩
        have hnew := (hnames.not_mem_iff hletter hbefore hbounded hm).mpr hfit
        exact ⟨names ++ [name], .given name hnames, nodup_concat_iff.mpr ⟨hbefore, hnew⟩,
          (bounded_given_iff hnew).mpr hbounded⟩
    | none =>
      constructor
      · rintro ⟨used, h, hnodup, hbounded⟩
        obtain ⟨names, k, rfl, hnames, hk⟩ := assigned_unnamed_iff.mp h
        obtain ⟨hbefore, -⟩ := nodup_concat_iff.mp hnodup
        obtain ⟨hbounded', hkm⟩ := (hnames.bounded_unnamed_iff hletter hk hm).mp hbounded
        exact ⟨⟨names, hnames, hbefore, hbounded'⟩,
          (hnames.fresh_iff hletter hbefore hbounded' hm).mp ⟨k, hkm, hk⟩⟩
      · rintro ⟨⟨names, hnames, hbefore, hbounded⟩, hfit⟩
        obtain ⟨k, hkm, hk⟩ := (hnames.fresh_iff hletter hbefore hbounded hm).mpr hfit
        obtain ⟨-, hnew, -⟩ := fresh_eq_some_iff.mp hk
        exact ⟨names ++ [letter k], .unnamed hnames hk, nodup_concat_iff.mpr ⟨hbefore, hnew⟩,
          (hnames.bounded_unnamed_iff hletter hk hm).mpr ⟨hbounded, hkm⟩⟩

end Injective

end FreshNames
