import Mathlib
import L4Rust.Library.Exec
import L4Rust.Library.Regex
import L4Rust.Library.Text
import L4Rust.Library.Words

namespace driver_picker

/-- Names of files and directories, which need not be UTF-8. -/
abbrev OsString : Type := List UInt8

abbrev PathBuf : Type := List OsString

def os (name : String) : OsString := name.toUTF8.data.toList

def parent (path : PathBuf) : Option PathBuf := if path = [] then none else some path.dropLast

structure DirEntry where
  path : PathBuf
  is_file : Bool

def DirEntry.file_name (entry : DirEntry) : Option OsString := entry.path.getLast?

structure DriverInfo where
  symbol : String
  dir : PathBuf
  kconfig : PathBuf
  deriving DecidableEq

/-- The drivers of each subsystem. -/
abbrev DriverMap : Type := String → List DriverInfo

def DriverMap.push (map : DriverMap) (subsystem : String) (info : DriverInfo) : DriverMap :=
  Function.update map subsystem (map subsystem ++ [info])

/-- What is used of the regular expressions, each match of which has a text for some groups. -/
structure RegexCrate (ρ : Type) where
  new : String → Except String ρ
  captures_iter : ρ → String → List (Nat → Option String)

/-- Patterns that use only literals, escapes, `^`, `+` and groups, and match no empty text, find the
matches that they describe, if they are not so long that they might exceed a limit. -/
def RegexCrate.Documented {ρ : Type} (regex : RegexCrate ρ) : Prop :=
  ∀ pattern r, pattern.length ≤ 100 → Regex.parse pattern = some r → r.consumes = true →
    ∃ re, regex.new pattern = .ok re ∧
      ∀ text, regex.captures_iter re text = (Regex.captures_iter r text.toList).map Regex.Captures.get

/-- What is used of the file system. -/
structure Files where
  walk_dir : PathBuf → List (Except String DirEntry)
  read_to_string : PathBuf → Except String String

/-- The raw string has two backslashes wherever this one has four. -/
def CONFIG : String := "^config\\\\s+(\\\\w+)"

section Collect

variable {ρ : Type} (regex : RegexCrate ρ) (files : Files) (to_string_lossy : OsString → String)
  (drivers_dir : PathBuf)

/-- The loop over the matches in a file. -/
def record (path : PathBuf) : List (Nat → Option String) → DriverMap → Exec String Unit DriverMap
  | [], map => pure map
  | cap :: caps, map => do
    let symbol ← Exec.checked (cap 1)
    let dir ← Exec.checked (parent path)
    let rel ← Exec.checked (dir.dropPrefix? drivers_dir)
    let component ← Exec.checked rel.head?
    let subsystem := to_string_lossy component
    record path caps (map.push subsystem ⟨symbol, dir, path⟩)

/-- The loop over the entries. -/
def collect_from (re : ρ) : List (Except String DirEntry) → DriverMap → Exec String Unit DriverMap
  | [], map => pure map
  | entry :: entries, map => do
    let entry ← Exec.ofExcept entry
    if entry.is_file ∧ entry.file_name = some (os "Kconfig") then
      let content ← Exec.ofExcept (files.read_to_string entry.path)
      let map ← record to_string_lossy drivers_dir entry.path (regex.captures_iter re content) map
      collect_from re entries map
    else collect_from re entries map

end Collect

def collect_drivers {ρ : Type} (regex : RegexCrate ρ) (files : Files) (to_string_lossy : OsString → String)
    (linux_src : PathBuf) : Exec String Unit DriverMap := do
  let drivers_dir := linux_src ++ [os "drivers"]
  let re ← Exec.ofExcept (regex.new CONFIG)
  collect_from regex files to_string_lossy drivers_dir re (files.walk_dir drivers_dir) fun _ => []

/-- What is below the directory of the drivers: the entries, with their paths from there on, and the
texts of the files. The first entry that a walk comes to is the directory itself. -/
structure SourceTree where
  entries : List (PathBuf × Bool)
  text : PathBuf → String
  root : ([], true) ∉ entries

namespace SourceTree

def files (tree : SourceTree) (linux_src : PathBuf) : Files where
  walk_dir dir := tree.entries.map fun p => .ok ⟨dir ++ p.1, p.2⟩
  read_to_string path :=
    match path.dropPrefix? (linux_src ++ [os "drivers"]) with
    | some rel => .ok (tree.text rel)
    | none => .error "No such file or directory"

def Kconfig (tree : SourceTree) (rel : PathBuf) : Prop :=
  (rel, true) ∈ tree.entries ∧ rel.getLast? = some (os "Kconfig")

end SourceTree

section Symbols

variable (word_beyond : Char → Bool)

/-- The characters of words, of which those beyond ASCII are a matter of Unicode. -/
def is_word (c : Char) : Bool := c.isAlphanum || c == '_' || (decide (128 ≤ c.val) && word_beyond c)

/-- The word that follows the keyword at the start of a line, behind blanks. -/
def symbol? (line : List Char) : Option String :=
  match line.dropPrefix? "config".toList with
  | some behind =>
    let word := (behind.dropWhile Text.is_whitespace).takeWhile (is_word word_beyond)
    if behind.head?.any Text.is_whitespace ∧ word ≠ [] then some (String.ofList word) else none
  | none => none

def symbols (text : String) : List String := (Words.lines '\n' text.toList).filterMap (symbol? word_beyond)

end Symbols

/-- The symbols that are recorded for a file, under some subsystem. -/
def recorded (map : DriverMap) (subsystem : String) (kconfig : PathBuf) : List String :=
  ((map subsystem).filter fun info => info.kconfig = kconfig).map DriverInfo.symbol

/-- The scan returns, and for each file it has recorded the symbols of its text, under the first
component of its path. -/
def FindsAll {ρ : Type} (regex : RegexCrate ρ) (to_string_lossy : OsString → String)
    (word_beyond : Char → Bool) (linux_src : PathBuf) (tree : SourceTree) : Prop :=
  ∃ map, collect_drivers regex (tree.files linux_src) to_string_lossy linux_src () = .ok map () ∧
    ∀ rel, tree.Kconfig rel → ∀ subsystem,
      recorded map subsystem (linux_src ++ [os "drivers"] ++ rel) =
        if rel.head?.map to_string_lossy = some subsystem then symbols word_beyond (tree.text rel) else []

/-- What the pattern says, read as it stands: a text that begins with `config`, a backslash, one or more
times `s`, another backslash, and one or more times `w`. -/
def LooksLikePattern (text : List Char) : Prop :=
  ∃ m n behind, text = "config\\".toList ++ (List.replicate (m + 1) 's' ++
    '\\' :: (List.replicate (n + 1) 'w' ++ behind))

section Pattern

def CONFIG_REGEX : Regex :=
  .seq .start (.seq (.char 'c') (.seq (.char 'o') (.seq (.char 'n') (.seq (.char 'f') (.seq (.char 'i')
    (.seq (.char 'g') (.seq (.char '\\') (.seq (.plus (.char 's'))
      (.seq (.group 1 (.seq (.char '\\') (.seq (.plus (.char 'w')) .empty))) .empty)))))))))

theorem parse_CONFIG : Regex.parse CONFIG = some CONFIG_REGEX := by decide +kernel

variable {pos : Nat} {text : List Char} {t : Regex.State} {cap : Regex.Captures}

theorem exists_match (h : LooksLikePattern text) : ∃ t, Regex.Matches CONFIG_REGEX ⟨0, text, []⟩ t := by
  obtain ⟨m, n, behind, rfl⟩ := h
  simp only [CONFIG_REGEX, Regex.matches_seq_start_iff, Regex.matches_seq_char_iff,
    Regex.matches_seq_plus_char_iff, Regex.matches_seq_group_iff, Regex.matches_empty_iff]
  exact ⟨_, trivial, _, rfl, _, rfl, _, rfl, _, rfl, _, rfl, _, rfl, _, rfl, m, _, rfl, _,
    ⟨_, rfl, n, behind, rfl, rfl⟩, rfl⟩

/-- The pattern is anchored at the start of the text, and the backslash belongs to the group. -/
theorem looksLikePattern_of_matches (h : Regex.Matches CONFIG_REGEX ⟨pos, text, []⟩ t) :
    pos = 0 ∧ LooksLikePattern text ∧ ∃ symbol, t.groups = [(1, symbol)] ∧ '\\' ∈ symbol.toList := by
  simp only [CONFIG_REGEX, Regex.matches_seq_start_iff, Regex.matches_seq_char_iff,
    Regex.matches_seq_plus_char_iff, Regex.matches_seq_group_iff, Regex.matches_empty_iff] at h
  obtain ⟨rfl, _, rfl, _, rfl, _, rfl, _, rfl, _, rfl, _, rfl, _, rfl, m, _, rfl, _,
    ⟨_, rfl, n, behind, rfl, rfl⟩, rfl⟩ := h
  refine ⟨rfl, ⟨m, n, behind, rfl⟩, _, rfl, ?_⟩
  rw [Regex.State.upTo, String.toList_ofList, Nat.add_assoc, Nat.add_sub_cancel_left, Nat.add_comm 1]
  exact List.mem_cons_self ..

/-- Nothing is found in a text unless it looks like the pattern. -/
theorem captures_eq_nil_iff : Regex.captures_iter CONFIG_REGEX text = [] ↔ ¬ LooksLikePattern text := by
  rw [Regex.captures_iter_eq_nil_iff]
  constructor
  · intro h hlooks
    obtain ⟨t, hmatches⟩ := exists_match hlooks
    exact h [] text t rfl hmatches
  · rintro h front back t rfl hmatches
    obtain ⟨hpos, hlooks, -⟩ := looksLikePattern_of_matches hmatches
    obtain rfl : front = [] := List.length_eq_zero_iff.mp hpos
    exact h hlooks

/-- A match captures a text with a backslash. -/
theorem symbol_of_capture (h : cap ∈ Regex.captures_iter CONFIG_REGEX text) :
    ∃ symbol, cap.get 1 = some symbol ∧ '\\' ∈ symbol.toList := by
  obtain ⟨⟨pos, rest, groups⟩, t, hmatches, rfl, rfl⟩ := Regex.matches_of_mem_captures_iter h
  obtain ⟨-, -, symbol, hgroups, hmem⟩ := looksLikePattern_of_matches hmatches
  refine ⟨symbol, ?_, hmem⟩
  rw [Regex.Captures.get, hgroups]
  rfl

end Pattern

section Symbols

variable {word_beyond : Char → Bool} {symbol : String}

theorem backslash_not_word : is_word word_beyond '\\' = false := by
  rw [is_word, decide_eq_false (by decide : ¬ 128 ≤ '\\'.val)]
  rfl

theorem word_of_symbol? {line : List Char} (h : symbol? word_beyond line = some symbol) :
    ∀ c ∈ symbol.toList, is_word word_beyond c := by
  unfold symbol? at h
  split at h
  · dsimp only at h
    split at h
    · cases h
      intro c hc
      rw [String.toList_ofList] at hc
      exact List.mem_takeWhile_imp hc
    · cases h
  · cases h

/-- The symbols of a text have no backslashes. -/
theorem backslash_notMem_symbols {text : String} (h : symbol ∈ symbols word_beyond text) :
    '\\' ∉ symbol.toList := by
  obtain ⟨line, -, hline⟩ := List.mem_filterMap.mp h
  intro hmem
  have hword := word_of_symbol? hline _ hmem
  rw [backslash_not_word] at hword
  cases hword

end Symbols

section Scan

variable {ρ : Type} {regex : RegexCrate ρ} {re : ρ} {files : Files} {to_string_lossy : OsString → String}
  {drivers_dir path : PathBuf} {caps : List (Nat → Option String)} {map map' : DriverMap}

theorem mem_push {info info' : DriverInfo} {subsystem key : String} :
    info' ∈ (map.push subsystem info) key ↔ info' ∈ map key ∨ key = subsystem ∧ info' = info := by
  unfold DriverMap.push
  by_cases hkey : key = subsystem
  · subst hkey
    simp
  · simp [hkey]

/-- The scan only adds entries, and one for each match. -/
theorem record_adds (h : record to_string_lossy drivers_dir path caps map () = .ok map' ()) :
    (∀ key, map key ⊆ map' key) ∧ ∀ cap ∈ caps, ∃ key, ∃ info ∈ map' key, info.kconfig = path ∧
      cap 1 = some info.symbol := by
  induction caps generalizing map with
  | nil =>
    cases h
    exact ⟨fun _ => List.Subset.refl _, by simp⟩
  | cons cap caps ih =>
    obtain ⟨symbol, hsymbol, h⟩ := Exec.bind_checked_eq_ok_iff.mp h
    obtain ⟨dir, -, h⟩ := Exec.bind_checked_eq_ok_iff.mp h
    obtain ⟨rel, -, h⟩ := Exec.bind_checked_eq_ok_iff.mp h
    obtain ⟨component, -, h⟩ := Exec.bind_checked_eq_ok_iff.mp h
    obtain ⟨hkeeps, hcaps⟩ := ih h
    refine ⟨fun key info hinfo => hkeeps key (mem_push.mpr (.inl hinfo)), List.forall_mem_cons.mpr ⟨?_, hcaps⟩⟩
    exact ⟨to_string_lossy component, ⟨symbol, dir, path⟩, hkeeps _ (mem_push.mpr (.inr ⟨rfl, rfl⟩)), rfl, hsymbol⟩

def DirEntry.IsKconfig (entry : DirEntry) : Prop := entry.is_file ∧ entry.file_name = some (os "Kconfig")

theorem collect_from_kconfig {entry : DirEntry} {entries : List (Except String DirEntry)} (h : entry.IsKconfig) :
    collect_from regex files to_string_lossy drivers_dir re (.ok entry :: entries) map = (do
      let content ← Exec.ofExcept (files.read_to_string entry.path)
      let map ← record to_string_lossy drivers_dir entry.path (regex.captures_iter re content) map
      collect_from regex files to_string_lossy drivers_dir re entries map) :=
  if_pos h

theorem collect_from_other {entry : DirEntry} {entries : List (Except String DirEntry)} (h : ¬ entry.IsKconfig) :
    collect_from regex files to_string_lossy drivers_dir re (.ok entry :: entries) map =
      collect_from regex files to_string_lossy drivers_dir re entries map :=
  if_neg h

theorem collect_adds {entries : List (Except String DirEntry)}
    (h : collect_from regex files to_string_lossy drivers_dir re entries map () = .ok map' ()) :
    (∀ key, map key ⊆ map' key) ∧ ∀ entry, .ok entry ∈ entries → entry.IsKconfig →
      ∃ content, files.read_to_string entry.path = .ok content ∧ ∀ cap ∈ regex.captures_iter re content,
        ∃ key, ∃ info ∈ map' key, info.kconfig = entry.path ∧ cap 1 = some info.symbol := by
  induction entries generalizing map with
  | nil =>
    cases h
    exact ⟨fun _ => List.Subset.refl _, by simp⟩
  | cons first entries ih =>
    cases first with
    | error e => cases h
    | ok first =>
      by_cases hfirst : first.IsKconfig
      · rw [collect_from_kconfig hfirst] at h
        obtain ⟨content, _, hcontent, h⟩ := Exec.bind_eq_ok_iff.mp h
        obtain ⟨hread, rfl⟩ := Exec.ofExcept_eq_ok_iff.mp hcontent
        obtain ⟨between, _, hrecord, h⟩ := Exec.bind_eq_ok_iff.mp h
        obtain ⟨hkeeps, hentries⟩ := ih h
        obtain ⟨hkeeps', hcaps⟩ := record_adds hrecord
        refine ⟨fun key info hinfo => hkeeps key (hkeeps' key hinfo), fun entry hentry hkconfig => ?_⟩
        obtain heq | hentry := List.mem_cons.mp hentry
        · cases heq
          refine ⟨content, hread, fun cap hcap => ?_⟩
          obtain ⟨key, info, hinfo, hsame⟩ := hcaps cap hcap
          exact ⟨key, info, hkeeps key hinfo, hsame⟩
        · exact hentries entry hentry hkconfig
      · rw [collect_from_other hfirst] at h
        obtain ⟨hkeeps, hentries⟩ := ih h
        refine ⟨hkeeps, fun entry hentry hkconfig => ?_⟩
        obtain heq | hentry := List.mem_cons.mp hentry
        · cases heq
          exact absurd hkconfig hfirst
        · exact hentries entry hentry hkconfig

/-- Where there are no matches the scan returns what it has. -/
theorem collect_nothing {entries : List DirEntry}
    (h : ∀ entry ∈ entries, entry.IsKconfig →
      ∃ content, files.read_to_string entry.path = .ok content ∧ regex.captures_iter re content = []) :
    collect_from regex files to_string_lossy drivers_dir re (entries.map .ok) map () = .ok map () := by
  induction entries with
  | nil => rfl
  | cons entry entries ih =>
    obtain ⟨hentry, hentries⟩ := List.forall_mem_cons.mp h
    rw [List.map_cons]
    by_cases hkconfig : entry.IsKconfig
    · obtain ⟨content, hcontent, hnone⟩ := hentry hkconfig
      rw [collect_from_kconfig hkconfig, hcontent, Exec.ofExcept_ok, Exec.bind_of_ok (Exec.pure_apply ..), hnone]
      exact ih hentries
    · rw [collect_from_other hkconfig]
      exact ih hentries

end Scan

section Trees

variable {ρ : Type} {regex : RegexCrate ρ} {to_string_lossy : OsString → String} {word_beyond : Char → Bool}
  {linux_src : PathBuf} {tree : SourceTree}

theorem read_below (tree : SourceTree) (linux_src rel : PathBuf) :
    (tree.files linux_src).read_to_string (linux_src ++ [os "drivers"] ++ rel) = .ok (tree.text rel) := by
  have hrel : (linux_src ++ [os "drivers"] ++ rel).dropPrefix? (linux_src ++ [os "drivers"]) = some rel :=
    List.dropPrefix?_eq_some_iff.mpr ⟨_, rfl, BEq.rfl⟩
  rw [SourceTree.files]
  dsimp only
  rw [hrel]

/-- The files of that name that the walk comes to are those of the tree. -/
theorem isKconfig_iff {rel : PathBuf} {is_file : Bool} (h : (rel, is_file) ∈ tree.entries) :
    DirEntry.IsKconfig ⟨linux_src ++ [os "drivers"] ++ rel, is_file⟩ ↔ is_file = true ∧ tree.Kconfig rel := by
  cases is_file with
  | false => simp [DirEntry.IsKconfig]
  | true =>
    have hne : rel ≠ [] := by
      rintro rfl
      exact tree.root h
    have hlast : (linux_src ++ [os "drivers"] ++ rel).getLast? = rel.getLast? := by
      rw [List.getLast?_append_of_ne_nil _ hne]
    rw [DirEntry.IsKconfig, DirEntry.file_name, hlast]
    simp [SourceTree.Kconfig, h]

/-- A text in which something is found leaves an entry for its file, with a backslash. -/
theorem collect_drivers_of_match (hregex : regex.Documented) {map : DriverMap}
    (h : collect_drivers regex (tree.files linux_src) to_string_lossy linux_src () = .ok map ())
    {rel : PathBuf} (hrel : tree.Kconfig rel) (hlooks : LooksLikePattern (tree.text rel).toList) :
    ∃ subsystem, ∃ symbol ∈ recorded map subsystem (linux_src ++ [os "drivers"] ++ rel),
      '\\' ∈ symbol.toList := by
  obtain ⟨re, hnew, hcaptures⟩ := hregex CONFIG CONFIG_REGEX (by decide) parse_CONFIG rfl
  rw [collect_drivers, hnew, Exec.ofExcept_ok, Exec.bind_of_ok (Exec.pure_apply ..)] at h
  obtain ⟨-, hentries⟩ := collect_adds h
  have hentry : .ok ⟨linux_src ++ [os "drivers"] ++ rel, true⟩ ∈
      (tree.files linux_src).walk_dir (linux_src ++ [os "drivers"]) :=
    List.mem_map.mpr ⟨(rel, true), hrel.1, rfl⟩
  obtain ⟨content, hcontent, hcaps⟩ := hentries _ hentry ((isKconfig_iff hrel.1).mpr ⟨rfl, hrel⟩)
  rw [read_below] at hcontent
  cases hcontent
  rw [hcaptures] at hcaps
  obtain ⟨cap, hcap⟩ := List.exists_mem_of_ne_nil _ (mt captures_eq_nil_iff.mp (not_not.mpr hlooks))
  obtain ⟨subsystem, info, hinfo, hpath, hget⟩ := hcaps cap.get (List.mem_map_of_mem hcap)
  obtain ⟨symbol, hsymbol, hmem⟩ := symbol_of_capture hcap
  rw [hsymbol] at hget
  cases hget
  refine ⟨subsystem, info.symbol, List.mem_map_of_mem (List.mem_filter.mpr ⟨hinfo, ?_⟩), hmem⟩
  exact decide_eq_true hpath

/-- Without such a text the scan returns an empty catalogue. -/
theorem collect_drivers_of_no_match (hregex : regex.Documented)
    (h : ∀ rel, tree.Kconfig rel → ¬ LooksLikePattern (tree.text rel).toList) :
    collect_drivers regex (tree.files linux_src) to_string_lossy linux_src () = .ok (fun _ => []) () := by
  obtain ⟨re, hnew, hcaptures⟩ := hregex CONFIG CONFIG_REGEX (by decide) parse_CONFIG rfl
  rw [collect_drivers, hnew, Exec.ofExcept_ok, Exec.bind_of_ok (Exec.pure_apply ..)]
  have hwalk : (tree.files linux_src).walk_dir (linux_src ++ [os "drivers"]) =
      (tree.entries.map fun p => (⟨linux_src ++ [os "drivers"] ++ p.1, p.2⟩ : DirEntry)).map .ok := by
    simp [SourceTree.files]
  rw [hwalk]
  apply collect_nothing
  intro entry hentry hkconfig
  obtain ⟨p, hp, rfl⟩ := List.mem_map.mp hentry
  obtain ⟨-, hrel⟩ := (isKconfig_iff hp).mp hkconfig
  refine ⟨tree.text p.1, read_below tree linux_src p.1, ?_⟩
  rw [hcaptures, captures_eq_nil_iff.mpr (h p.1 hrel), List.map_nil]

end Trees

/-- The scan finds all drivers exactly where there are none, and no text is one that the pattern as it
stands matches. -/
theorem drivers_found_iff {ρ : Type} (regex : RegexCrate ρ) (hregex : regex.Documented)
    (to_string_lossy : OsString → String) (word_beyond : Char → Bool) (linux_src : PathBuf) (tree : SourceTree) :
    FindsAll regex to_string_lossy word_beyond linux_src tree ↔ ∀ rel, tree.Kconfig rel →
      symbols word_beyond (tree.text rel) = [] ∧ ¬ LooksLikePattern (tree.text rel).toList := by
  constructor
  · rintro ⟨map, hcollect, hfound⟩
    have hlooks : ∀ rel, tree.Kconfig rel → ¬ LooksLikePattern (tree.text rel).toList := by
      intro rel hrel hlooks
      obtain ⟨subsystem, symbol, hsymbol, hmem⟩ := collect_drivers_of_match hregex hcollect hrel hlooks
      rw [hfound rel hrel subsystem] at hsymbol
      split at hsymbol
      · exact backslash_notMem_symbols hsymbol hmem
      · cases hsymbol
    intro rel hrel
    refine ⟨?_, hlooks rel hrel⟩
    rw [collect_drivers_of_no_match hregex hlooks] at hcollect
    cases hcollect
    obtain ⟨first, hfirst⟩ : ∃ first, rel.head? = some first := by
      apply Option.isSome_iff_exists.mp
      rw [List.isSome_head?]
      rintro rfl
      exact tree.root hrel.1
    have hempty := hfound rel hrel (to_string_lossy first)
    rw [hfirst, Option.map_some, if_pos rfl] at hempty
    exact hempty.symm
  · intro h
    refine ⟨fun _ => [], collect_drivers_of_no_match hregex fun rel hrel => (h rel hrel).2, ?_⟩
    intro rel hrel subsystem
    rw [(h rel hrel).1, ite_self]
    rfl

/-- A crate that knows no other patterns. -/
def documentedRegex : RegexCrate Regex where
  new pattern :=
    match Regex.parse pattern with
    | some r => .ok r
    | none => .error "unsupported"
  captures_iter r text := (Regex.captures_iter r text.toList).map Regex.Captures.get

theorem documentedRegex_documented : documentedRegex.Documented := by
  intro pattern r _ hparse _
  refine ⟨r, ?_, fun text => rfl⟩
  change (match Regex.parse pattern with
    | some r => Except.ok r
    | none => Except.error "unsupported") = Except.ok r
  rw [hparse]

/-- A tree with one file, in `net`, and its text. -/
def netTree (text : String) : SourceTree where
  entries := [([], false), ([os "net"], false), ([os "net", os "Kconfig"], true)]
  text _ := text
  root := by decide

/-- In a text with comments only there is nothing to find. -/
theorem comments_scanned :
    FindsAll documentedRegex (fun _ => "net") (fun _ => false) [] (netTree "# no drivers\n") := by
  have hnone : symbols (fun _ => false) "# no drivers\n" = [] := by decide +kernel
  have hlooks : ¬ LooksLikePattern "# no drivers\n".toList := by
    rintro ⟨m, n, behind, htext⟩
    have hfirst : some '#' = some 'c' := congrArg (fun text => text[0]?) htext
    exact absurd hfirst (by decide)
  exact (drivers_found_iff documentedRegex documentedRegex_documented _ _ _ _).mpr fun _ _ => ⟨hnone, hlooks⟩

/-- The symbol of a usual text is not found. -/
theorem driver_not_found :
    ¬ FindsAll documentedRegex (fun _ => "net") (fun _ => false) [] (netTree "config E1000\n\ttristate\n") := by
  rintro ⟨map, hcollect, hfound⟩
  have hlooks : ∀ rel, (netTree "config E1000\n\ttristate\n").Kconfig rel →
      ¬ LooksLikePattern "config E1000\n\ttristate\n".toList := by
    rintro rel - ⟨m, n, behind, htext⟩
    have hseventh : some ' ' = some '\\' := congrArg (fun text => text[6]?) htext
    exact absurd hseventh (by decide)
  rw [collect_drivers_of_no_match documentedRegex_documented hlooks] at hcollect
  cases hcollect
  have hsymbols : symbols (fun _ => false) "config E1000\n\ttristate\n" = ["E1000"] := by decide +kernel
  have hempty := hfound [os "net", os "Kconfig"] ⟨by simp [netTree], rfl⟩ "net"
  change [] = symbols (fun _ => false) "config E1000\n\ttristate\n" at hempty
  rw [hsymbols] at hempty
  cases hempty

/-- A text that looks like the pattern stops the program, if its file is not in a subsystem. -/
example :
    let tree : SourceTree := ⟨[([], false), ([os "Kconfig"], true)], fun _ => "config\\s\\w", by decide⟩
    (collect_drivers documentedRegex (tree.files []) (fun _ => "") [] ()).value?.isNone := by decide +kernel

end driver_picker
