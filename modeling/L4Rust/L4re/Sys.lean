import Mathlib
import L4Rust.Library.Exec

namespace l4_sys.helpers

/-- The byte at a pointer, with a record of the offsets read, which the code does not keep. There
is nothing to read behind the memory. -/
def deref (other : List UInt8) (in_name : Nat) : Exec Unit (List Nat) UInt8 := do
  Exec.modify (· ++ [in_name])
  Exec.checked other[in_name]?

/-- The loop of `eq_str_cstr` over the bytes of the name, with the comparison behind it. -/
def eq_str_cstr.loop (other : List UInt8) (in_name : Nat) : List UInt8 → Exec Unit (List Nat) Bool
  | [] => do
    let last ← deref other in_name
    pure (last = 0)
  | byte :: name => do
    let n ← deref other in_name
    if n = 0 then pure false
    else if n ≠ byte then pure false
    else eq_str_cstr.loop other (in_name + 1) name

/-- Compares the bytes of a `&str` with a string that ends with a zero. -/
def eq_str_cstr (name other : List UInt8) : Exec Unit (List Nat) Bool := eq_str_cstr.loop other 0 name

/-- The string that ends with the first zero. -/
def cstr (other : List UInt8) : List UInt8 := other.takeWhile (· ≠ 0)

theorem zero_notMem_cstr (other : List UInt8) : 0 ∉ cstr other := by
  intro hmem
  exact absurd (List.mem_takeWhile_imp hmem) (by decide)

/-- A string in memory has its zero right behind it. -/
theorem exists_cstr_append {other : List UInt8} (h : 0 ∈ other) :
    ∃ behind, other = cstr other ++ 0 :: behind := by
  induction other with
  | nil => cases h
  | cons b other ih =>
    by_cases hb : b = 0
    · subst hb
      exact ⟨other, rfl⟩
    · obtain ⟨behind, hsplit⟩ := ih (List.mem_of_ne_of_mem (Ne.symm hb) h)
      refine ⟨behind, ?_⟩
      rw [cstr, List.takeWhile_cons_of_pos (by simpa using hb), List.cons_append]
      exact congrArg (b :: ·) hsplit

theorem deref_of_getElem? {other : List UInt8} {k : Nat} {b : UInt8} (h : other[k]? = some b)
    (reads : List Nat) : deref other k reads = .ok b (reads ++ [k]) := by
  rw [deref, Exec.bind_modify, h]
  rfl

/-- From any offset in the string on, the loop finds out whether the rest of it is the name, and
it does not read behind the zero. -/
theorem eq_str_cstr.loop_spec {s : List UInt8} (hs : 0 ∉ s) (behind name : List UInt8) {k : Nat}
    (hk : k ≤ s.length) (reads : List Nat) :
    ∃ offsets, loop (s ++ 0 :: behind) k name reads = .ok (decide (s.drop k = name)) (reads ++ offsets) ∧
      ∀ o ∈ offsets, o ≤ s.length := by
  have hend : (s ++ 0 :: behind)[s.length]? = some 0 := by simp
  induction name generalizing k reads with
  | nil =>
    refine ⟨[k], ?_, by simp [hk]⟩
    rcases Nat.eq_or_lt_of_le hk with rfl | hlt
    · rw [loop, Exec.bind_of_ok (deref_of_getElem? hend reads), List.drop_length]
      rfl
    · have hbyte : (s ++ 0 :: behind)[k]? = some s[k] := by
        rw [List.getElem?_append_left hlt, List.getElem?_eq_getElem hlt]
      have hne : s[k] ≠ 0 := fun hzero => hs (hzero ▸ List.getElem_mem hlt)
      rw [loop, Exec.bind_of_ok (deref_of_getElem? hbyte reads), decide_eq_false hne,
        List.drop_eq_getElem_cons hlt]
      rfl
  | cons byte name ih =>
    rcases Nat.eq_or_lt_of_le hk with rfl | hlt
    · refine ⟨[s.length], ?_, by simp⟩
      rw [loop, Exec.bind_of_ok (deref_of_getElem? hend reads), List.drop_length]
      rfl
    · have hbyte : (s ++ 0 :: behind)[k]? = some s[k] := by
        rw [List.getElem?_append_left hlt, List.getElem?_eq_getElem hlt]
      have hne : s[k] ≠ 0 := fun hzero => hs (hzero ▸ List.getElem_mem hlt)
      rw [loop, Exec.bind_of_ok (deref_of_getElem? hbyte reads), if_neg hne,
        List.drop_eq_getElem_cons hlt]
      by_cases hsame : s[k] = byte
      · obtain ⟨offsets, hrun, hle⟩ := ih (k := k + 1) hlt (reads ++ [k])
        refine ⟨k :: offsets, ?_, List.forall_mem_cons.mpr ⟨hk, hle⟩⟩
        rw [if_neg (not_not.mpr hsame), hrun, hsame, List.append_assoc, List.singleton_append]
        simp only [List.cons.injEq, true_and]
      · refine ⟨[k], ?_, by simp [hk]⟩
        have hdiffers : s[k] :: s.drop (k + 1) ≠ byte :: name := fun h => hsame (List.cons.inj h).1
        rw [if_pos hsame, decide_eq_false hdiffers]
        rfl

/-- The comparison is exact, and reads the string and its zero at most. -/
theorem eq_str_cstr_spec {other : List UInt8} (h : 0 ∈ other) (name : List UInt8) :
    ∃ offsets, eq_str_cstr name other [] = .ok (decide (cstr other = name)) offsets ∧
      ∀ o ∈ offsets, o ≤ (cstr other).length := by
  obtain ⟨behind, hsplit⟩ := exists_cstr_append h
  obtain ⟨offsets, hrun, hle⟩ :=
    eq_str_cstr.loop_spec (zero_notMem_cstr other) behind name (Nat.zero_le _) []
  rw [← hsplit] at hrun
  exact ⟨offsets, hrun, hle⟩

end l4_sys.helpers

namespace l4re.sys

open l4_sys.helpers

/-- A record of the environment. The name is the memory from the beginning of that field on. -/
structure l4re_env_cap_entry_t where
  cap : UInt64
  flags : UInt64
  name : List UInt8
  deriving DecidableEq, Repr

/-- The environment: a pointer to the records, unless it is null. -/
structure l4re_env_t where
  caps : Option (List l4re_env_cap_entry_t)
  deriving DecidableEq, Repr

def str.as_bytes (name : String) : List UInt8 := name.toByteArray.data.toList

/-- The loop of `l4re_env_get_cap_l`, from some record on. Which offsets were read of each name is
recorded. -/
def l4re_env_get_cap_l.loop (name : List UInt8) :
    List l4re_env_cap_entry_t → Exec Unit (List (List Nat)) (Option l4re_env_cap_entry_t)
  | [] => Exec.abort
  | c :: behind =>
    if c.flags ≠ ~~~(0 : UInt64) then do
      let same ← Exec.zoom (fun _ => []) (fun offsets reads => reads ++ [offsets]) (eq_str_cstr name c.name)
      if same then pure (some c) else l4re_env_get_cap_l.loop name behind
    else pure none

def l4re_env_get_cap_l (name : String) (env : Option l4re_env_t) :
    Exec Unit (List (List Nat)) (Option l4re_env_cap_entry_t) :=
  match env with
  | none => pure none
  | some env =>
    match env.caps with
    | none => pure none
    | some c => l4re_env_get_cap_l.loop (str.as_bytes name) c

def l4re_env_get_cap (l4re_global_env : Option l4re_env_t) (name : String) :
    Exec Unit (List (List Nat)) (Option UInt64) := do
  let record ← l4re_env_get_cap_l name l4re_global_env
  pure (record.map fun record => record.cap)

/-- A table of capabilities up to the first record with all flags, whose names end with a zero, and
whatever is behind it. -/
structure CapTable where
  entries : List l4re_env_cap_entry_t
  last : l4re_env_cap_entry_t
  behind : List l4re_env_cap_entry_t
  flags_ne : ∀ e ∈ entries, e.flags ≠ ~~~(0 : UInt64)
  last_flags : last.flags = ~~~(0 : UInt64)
  terminated : ∀ e ∈ entries, 0 ∈ e.name

def CapTable.env (table : CapTable) : l4re_env_t := ⟨some (table.entries ++ table.last :: table.behind)⟩

/-- The entry with a name. -/
def CapTable.entry? (table : CapTable) (name : List UInt8) : Option l4re_env_cap_entry_t :=
  table.entries.find? fun e => cstr e.name = name

/-- What a lookup finds and reads: the capability of the first entry with that name, nothing exactly
if there is none, no name that the other one begins with, and no byte behind the zero of a name. -/
structure Exact (table : CapTable) (name : List UInt8) (found : Option UInt64) (reads : List (List Nat)) :
    Prop where
  first : found = (table.entry? name).map fun e => e.cap
  none_iff : found = none ↔ ∀ e ∈ table.entries, cstr e.name ≠ name
  whole : ∀ e ∈ table.entries, cstr e.name <+: name ∨ name <+: cstr e.name → cstr e.name ≠ name →
    (eq_str_cstr name e.name []).value? = some false
  within : ∀ (i : Nat) (offsets : List Nat), reads[i]? = some offsets →
    ∃ e : l4re_env_cap_entry_t, table.entries[i]? = some e ∧ ∀ o ∈ offsets, o ≤ (cstr e.name).length

/-- The scan up to the terminator finds the first entry with the name, and reads within the names of
the entries it comes to. -/
theorem l4re_env_get_cap_l.loop_spec {entries : List l4re_env_cap_entry_t}
    {last : l4re_env_cap_entry_t} (hflags : ∀ e ∈ entries, e.flags ≠ ~~~(0 : UInt64))
    (hlast : last.flags = ~~~(0 : UInt64)) (hzero : ∀ e ∈ entries, 0 ∈ e.name)
    (behind : List l4re_env_cap_entry_t) (name : List UInt8) (before : List (List Nat)) :
    ∃ reads, loop name (entries ++ last :: behind) before =
        .ok (entries.find? fun e => cstr e.name = name) (before ++ reads) ∧
      ∀ (i : Nat) (offsets : List Nat), reads[i]? = some offsets →
        ∃ e : l4re_env_cap_entry_t, entries[i]? = some e ∧ ∀ o ∈ offsets, o ≤ (cstr e.name).length := by
  induction entries generalizing before with
  | nil =>
    refine ⟨[], ?_, by simp⟩
    rw [List.nil_append, loop, if_neg (not_not.mpr hlast), List.append_nil]
    rfl
  | cons e entries ih =>
    obtain ⟨hne, hflags⟩ := List.forall_mem_cons.mp hflags
    obtain ⟨he, hzero⟩ := List.forall_mem_cons.mp hzero
    obtain ⟨offsets, hrun, hle⟩ := eq_str_cstr_spec he name
    have hzoom : Exec.zoom (fun _ => []) (fun offsets reads => reads ++ [offsets]) (eq_str_cstr name e.name)
        before = .ok (decide (cstr e.name = name)) (before ++ [offsets]) := by
      rw [Exec.zoom_eq_ok_iff]
      exact ⟨offsets, hrun, rfl⟩
    rw [List.cons_append, loop, if_pos hne, Exec.bind_of_ok hzoom]
    by_cases hsame : cstr e.name = name
    · refine ⟨[offsets], ?_, ?_⟩
      · rw [List.find?_cons_of_pos (by simpa using hsame), decide_eq_true hsame]
        rfl
      · intro i offsets' hread
        obtain ⟨rfl, rfl⟩ : i = 0 ∧ offsets = offsets' := by
          cases i with
          | zero => exact ⟨rfl, Option.some.inj hread⟩
          | succ i => cases hread
        exact ⟨e, rfl, hle⟩
    · obtain ⟨reads, hloop, hwithin⟩ := ih hflags hzero (before ++ [offsets])
      refine ⟨offsets :: reads, ?_, ?_⟩
      · rw [List.find?_cons_of_neg (by simpa using hsame), decide_eq_false hsame, if_neg Bool.false_ne_true,
          hloop, List.append_assoc, List.singleton_append]
      · intro i offsets' hread
        cases i with
        | zero =>
          obtain rfl : offsets = offsets' := Option.some.inj hread
          exact ⟨e, rfl, hle⟩
        | succ i => exact hwithin i offsets' hread

/-- The lookup of a capability returns for every table and every name, and is exact. -/
theorem env_get_cap_exact (table : CapTable) (name : String) :
    ∃ found reads, l4re_env_get_cap (some table.env) name [] = .ok found reads ∧
      Exact table (str.as_bytes name) found reads := by
  obtain ⟨reads, hloop, hwithin⟩ := l4re_env_get_cap_l.loop_spec table.flags_ne table.last_flags
    table.terminated table.behind (str.as_bytes name) []
  refine ⟨_, reads, Exec.bind_of_ok hloop, rfl, ?_, ?_, hwithin⟩
  · rw [Option.map_eq_none_iff, List.find?_eq_none]
    simp
  · intro e he _ hne
    obtain ⟨offsets, hrun, -⟩ := eq_str_cstr_spec (table.terminated e he) (str.as_bytes name)
    rw [hrun, decide_eq_false hne]
    rfl

/-- Two of the names that the servers ask for, of which the first one begins with the second. -/
def driverCaps : CapTable where
  entries := [⟨8, 0, str.as_bytes "virtio_blk_irq" ++ [0]⟩, ⟨9, 0, str.as_bytes "virtio_blk" ++ [0]⟩]
  last := ⟨0, ~~~0, []⟩
  behind := []
  flags_ne := by decide +kernel
  last_flags := rfl
  terminated := by decide +kernel

/-- The entry with the longer name is in front and is not taken for the other one. -/
theorem env_get_cap_exact_longer :
    ∃ reads, l4re_env_get_cap (some driverCaps.env) "virtio_blk" [] = .ok (some 9) reads ∧
      reads.length = 2 ∧ Exact driverCaps (str.as_bytes "virtio_blk") (some 9) reads := by
  obtain ⟨found, reads, hrun, hexact⟩ := env_get_cap_exact driverCaps "virtio_blk"
  have hreturned : l4re_env_get_cap (some driverCaps.env) "virtio_blk" [] =
      .ok (some 9) [List.range 11, List.range 11] := rfl
  rw [hreturned] at hrun
  cases hrun
  exact ⟨_, hreturned, rfl, hexact⟩

end l4re.sys
