import L4Rust.DriverPicker.Catalog
import L4Rust.Library.Shell

namespace driver_picker.menu

/-- How the script ends before its last command: with a status, and maybe a message. -/
structure Exit where
  status : Nat
  message : Option String
  deriving DecidableEq

def NO_DRIVERS : Exit := ⟨1, some "No drivers discovered in the provided Linux source tree."⟩

/-- What the script uses: the order of `sort`, and `dialog`, which shows tags with a text each and hands
back a tag unless it is cancelled. -/
structure Tools where
  sort : List String → List String
  dialog : List (String × String) → Option String

structure Tools.Documented (tools : Tools) : Prop where
  perm : ∀ names, (tools.sort names).Perm names
  mem : ∀ items tag, tools.dialog items = some tag → tag ∈ items.map Prod.fst

/-- `((i++))` has the status 1 if the value was 0, and then `set -e` ends the script. -/
def increment (i : Nat) : Except Exit Nat := if i = 0 then .error ⟨1, none⟩ else .ok (i + 1)

/-- The options that the script drops, and those of them that have a value as their next argument. -/
def takes_value (arg : String) : Bool := arg ∈ ["--driver", "--subsystem", "--format"]

def dropped (arg : String) : Bool :=
  arg = "--list" ∨
    ["--driver=", "--subsystem=", "--format=", "--list="].any fun front => front.toList.isPrefixOf arg.toList

/-- The loop over the arguments, with fuel for the number of passes. -/
def filter_from (orig_args : List String) : Nat → Nat → List String → Except Exit (List String)
  | 0, _, filtered_args => .ok filtered_args
  | fuel + 1, i, filtered_args =>
    match orig_args[i]? with
    | none => .ok filtered_args
    | some arg =>
      if takes_value arg then do
        let i ← increment i
        if orig_args.length ≤ i then throw ⟨1, some ("Missing value for " ++ arg)⟩
        else
          let i ← increment i
          filter_from orig_args fuel i filtered_args
      else if dropped arg then do
        let i ← increment i
        filter_from orig_args fuel i filtered_args
      else do
        let i ← increment i
        filter_from orig_args fuel i (filtered_args ++ [arg])

def filter_args (orig_args : List String) : Except Exit (List String) :=
  filter_from orig_args orig_args.length 0 []

/-- What is read from the catalogue: the drivers of each subsystem, which the script keeps as the lines of
a text, their number, and the subsystems as they come. -/
structure Table where
  driver_map : String → Option (List String)
  subsystem_counts : String → Nat
  subsystems : List String

namespace Table

def empty : Table := ⟨fun _ => none, fun _ => 0, []⟩

/-- One pass of the loop over the lines. -/
def add (table : Table) (row : String × String) : Table :=
  let (subsystem, driver) := row
  if subsystem = "" ∨ driver = "" then table
  else
    { driver_map := Function.update table.driver_map subsystem
        (some ((table.driver_map subsystem).elim [driver] (· ++ [driver])))
      subsystem_counts := Function.update table.subsystem_counts subsystem (table.subsystem_counts subsystem + 1)
      subsystems :=
        if (table.driver_map subsystem).isSome then table.subsystems else table.subsystems ++ [subsystem] }

end Table

/-- `IFS=$'\t' read -r subsystem driver` -/
def row (line : List Char) : String × String :=
  let (subsystem, driver) := Shell.read_two '\t' line
  (String.ofList subsystem, String.ofList driver)

def read_catalog (catalog : List Char) : Table :=
  (Shell.here_lines catalog).foldl (fun table line => table.add (row line)) .empty

def count_text (count : Nat) : String := toString count ++ " " ++ if count ≠ 1 then "drivers" else "driver"

/-- A menu. What the script takes for the status of a cancelled dialog is that of its negation. -/
def pick (tools : Tools) (items : List (String × String)) : Except Exit String :=
  match tools.dialog items with
  | some tag => .ok tag
  | none => .error ⟨0, none⟩

/-- The two menus. A subsystem without an entry would be an unset variable. -/
def menus (tools : Tools) (table : Table) : Except Exit Args := do
  let subsystems := tools.sort table.subsystems
  let selected_subsystem ← pick tools (subsystems.map fun s => (s, count_text (table.subsystem_counts s)))
  match table.driver_map selected_subsystem with
  | none => throw ⟨1, none⟩
  | some drivers =>
    let selected_driver ← pick tools ((tools.sort drivers).map fun d => (d, "Linux config symbol"))
    pure ⟨false, some selected_subsystem, some selected_driver, .Tsv⟩

/-- The script up to its last command, which runs the program with these arguments. The listing is what
the program prints for the arguments that are not dropped. -/
def script (tools : Tools) (listing : List String → Except Exit (List Char)) (orig_args : List String) :
    Except Exit Args := do
  let filtered_args ← filter_args orig_args
  let output ← listing filtered_args
  let catalog := Shell.substitution output
  if catalog = [] then throw NO_DRIVERS
  else
    let table := read_catalog catalog
    if table.subsystems = [] then throw NO_DRIVERS else menus tools table

section Arguments

/-- The first argument ends the script. -/
theorem filter_args_eq (orig_args : List String) :
    filter_args orig_args = if orig_args = [] then .ok [] else .error ⟨1, none⟩ := by
  cases orig_args with
  | nil => rfl
  | cons arg rest =>
    rw [if_neg (List.cons_ne_nil _ _), filter_args, List.length_cons, filter_from, List.getElem?_cons_zero]
    dsimp only
    split
    · rfl
    split
    · rfl
    · rfl

end Arguments

section Tables

variable {rows : List (String × String)} {table : Table}

/-- The drivers of a subsystem, in order. -/
def drivers_of (rows : List (String × String)) (subsystem : String) : List String :=
  (rows.filter fun r => r.1 = subsystem).map Prod.snd

theorem mem_drivers_of {subsystem driver : String} :
    driver ∈ drivers_of rows subsystem ↔ (subsystem, driver) ∈ rows := by
  simp [drivers_of]

theorem drivers_of_concat (rows : List (String × String)) (r : String × String) (subsystem : String) :
    drivers_of (rows ++ [r]) subsystem =
      drivers_of rows subsystem ++ if r.1 = subsystem then [r.2] else [] := by
  rw [drivers_of, List.filter_append, List.map_append]
  congr 1
  by_cases h : r.1 = subsystem
  · simp [h]
  · simp [h]

/-- The table has the drivers of each subsystem that there is a row of. -/
structure Table.Holds (rows : List (String × String)) (table : Table) : Prop where
  drivers : ∀ s, table.driver_map s = if drivers_of rows s = [] then none else some (drivers_of rows s)
  counts : ∀ s, table.subsystem_counts s = (drivers_of rows s).length
  listed : ∀ s, s ∈ table.subsystems ↔ drivers_of rows s ≠ []
  nodup : table.subsystems.Nodup

theorem Table.Holds.add {r : String × String} (h : table.Holds rows) (hr : r.1 ≠ "" ∧ r.2 ≠ "") :
    (table.add r).Holds (rows ++ [r]) := by
  obtain ⟨subsystem, driver⟩ := r
  have hadded : ¬ (subsystem = "" ∨ driver = "") := not_or.mpr hr
  have hsome : (table.driver_map subsystem).isSome ↔ drivers_of rows subsystem ≠ [] := by
    rw [h.drivers]
    by_cases hempty : drivers_of rows subsystem = []
    · simp [hempty]
    · simp [hempty]
  unfold Table.add
  dsimp only
  rw [if_neg hadded]
  refine ⟨fun s => ?_, fun s => ?_, fun s => ?_, ?_⟩
  · rw [drivers_of_concat]
    dsimp only
    by_cases hs : subsystem = s
    · subst hs
      rw [Function.update_self, if_pos rfl, if_neg (by simp), h.drivers]
      by_cases hempty : drivers_of rows subsystem = []
      · rw [if_pos hempty, hempty]
        rfl
      · rw [if_neg hempty]
        rfl
    · rw [Function.update_of_ne (Ne.symm hs), if_neg hs, List.append_nil, h.drivers]
  · rw [drivers_of_concat]
    dsimp only
    by_cases hs : subsystem = s
    · subst hs
      rw [Function.update_self, if_pos rfl, h.counts, List.length_append, List.length_singleton]
    · rw [Function.update_of_ne (Ne.symm hs), if_neg hs, List.append_nil, h.counts]
  · rw [drivers_of_concat]
    dsimp only
    by_cases hs : subsystem = s
    · subst hs
      rw [if_pos rfl]
      refine iff_of_true ?_ (by simp)
      by_cases hmem : (table.driver_map subsystem).isSome
      · rw [if_pos hmem, h.listed]
        exact hsome.mp hmem
      · rw [if_neg hmem]
        exact List.mem_append_right _ (List.mem_singleton_self _)
    · rw [if_neg hs, List.append_nil, ← h.listed]
      split
      · rfl
      · rw [List.mem_append, List.mem_singleton, or_iff_left (Ne.symm hs)]
  · dsimp only
    by_cases hmem : (table.driver_map subsystem).isSome
    · rw [if_pos hmem]
      exact h.nodup
    · rw [if_neg hmem, ← List.concat_eq_append]
      refine h.nodup.concat fun hlisted => hmem ?_
      exact hsome.mpr ((h.listed subsystem).mp hlisted)

/-- The loop over the lines takes in each row. -/
theorem foldl_holds (h : ∀ r ∈ rows, r.1 ≠ "" ∧ r.2 ≠ "") : (rows.foldl Table.add .empty).Holds rows := by
  induction rows using List.reverseRecOn with
  | nil => exact ⟨fun _ => rfl, fun _ => rfl, fun _ => by simp [Table.empty, drivers_of], List.nodup_nil⟩
  | append_singleton rows r ih =>
    obtain ⟨hrows, hr⟩ := List.forall_mem_append.mp h
    rw [List.foldl_append]
    exact (ih hrows).add (hr r (List.mem_singleton_self _))

end Tables

section Names

/-- The names that the shell, `dialog` and the command line take as they are. -/
structure Plain (name : String) : Prop where
  nonempty : name ≠ ""
  option : name.toList.head? ≠ some '-'
  separator : '\t' ∉ name.toList ∧ '\n' ∉ name.toList

/-- Characters that mean nothing to the shell. -/
def is_plain (c : Char) : Bool := c.isAlphanum || c == '_' || c == '-' || c == '.'

/-- The names of the subsystems, which the shell also expands, and those of the drivers. -/
structure Listable (map : DriverMap) : Prop where
  subsystem : ∀ subsystem, map subsystem ≠ [] → Plain subsystem ∧ ∀ c ∈ subsystem.toList, is_plain c
  driver : ∀ subsystem, ∀ info ∈ map subsystem, Plain info.symbol

theorem Plain.toList_ne_nil {name : String} (h : Plain name) : name.toList ≠ [] := by
  rw [Ne, String.toList_eq_nil_iff]
  exact h.nonempty

/-- A line of the catalogue is read as it was printed. -/
theorem row_line {entry : CatalogEntry} (hsubsystem : Plain entry.subsystem) (hdriver : Plain entry.driver) :
    row entry.line = (entry.subsystem, entry.driver) := by
  rw [row, CatalogEntry.line, Shell.read_two_of_words hsubsystem.toList_ne_nil hdriver.toList_ne_nil
    hsubsystem.separator.1 hdriver.separator.1]
  simp only [String.ofList_toList]

theorem line_of_plain {entry : CatalogEntry} (hsubsystem : Plain entry.subsystem) (hdriver : Plain entry.driver) :
    entry.line ≠ [] ∧ '\n' ∉ entry.line := by
  rw [CatalogEntry.line]
  refine ⟨by simp, fun hmem => ?_⟩
  obtain hmem | hmem := List.mem_append.mp hmem
  · exact hsubsystem.separator.2 hmem
  · exact hdriver.separator.2 ((List.mem_cons.mp hmem).resolve_left (by decide))

end Names

section Runs

variable {map : DriverMap} {keys : List String} {sorts : Sorts} {tools : Tools}

theorem Listable.entry (hlistable : Listable map) (hkeys : Iterates keys map) {entry : CatalogEntry}
    (h : entry ∈ catalog sorts keys map) : Plain entry.subsystem ∧ Plain entry.driver := by
  obtain ⟨info, hinfo, hsymbol⟩ := (mem_catalog sorts hkeys).mp h
  exact ⟨(hlistable.subsystem _ (List.ne_nil_of_mem hinfo)).1, hsymbol ▸ hlistable.driver _ info hinfo⟩

/-- The rows that the entries of a catalogue are read as. -/
def rows (entries : List CatalogEntry) : List (String × String) :=
  entries.map fun entry => (entry.subsystem, entry.driver)

/-- What `--list` prints. -/
def printed (entries : List CatalogEntry) : List Char := (entries.map CatalogEntry.line).flatMap (· ++ ['\n'])

/-- The catalogue is read as it was printed. -/
theorem read_catalog_printed {entries : List CatalogEntry} (hne : entries ≠ [])
    (h : ∀ entry ∈ entries, Plain entry.subsystem ∧ Plain entry.driver) :
    (read_catalog (Shell.substitution (printed entries))).Holds (rows entries) := by
  have hlines : ∀ line ∈ entries.map CatalogEntry.line, line ≠ [] ∧ '\n' ∉ line := by
    intro line hline
    obtain ⟨entry, hentry, rfl⟩ := List.mem_map.mp hline
    exact line_of_plain (h entry hentry).1 (h entry hentry).2
  have hrows : read_catalog (Shell.substitution (printed entries)) = (rows entries).foldl Table.add .empty := by
    rw [read_catalog, printed, Shell.here_lines_substitution (by simpa using hne) hlines, List.foldl_map, rows,
      List.foldl_map]
    apply List.foldl_ext
    intro table entry hentry
    rw [row_line (h entry hentry).1 (h entry hentry).2]
  rw [hrows]
  refine foldl_holds fun r hr => ?_
  obtain ⟨entry, hentry, rfl⟩ := List.mem_map.mp hr
  exact ⟨(h entry hentry).1.nonempty, (h entry hentry).2.nonempty⟩

theorem printed_empty_iff {entries : List CatalogEntry}
    (h : ∀ entry ∈ entries, Plain entry.subsystem ∧ Plain entry.driver) :
    Shell.substitution (printed entries) = [] ↔ entries = [] := by
  rw [printed, Shell.substitution_eq_nil_iff, List.map_eq_nil_iff]
  intro line hline
  obtain ⟨entry, hentry, rfl⟩ := List.mem_map.mp hline
  exact line_of_plain (h entry hentry).1 (h entry hentry).2

theorem script_eq (tools : Tools) (listing : List String → Except Exit (List Char)) {output : List Char}
    (h : listing [] = .ok output) :
    script tools listing [] =
      if Shell.substitution output = [] then .error NO_DRIVERS
      else if (read_catalog (Shell.substitution output)).subsystems = [] then .error NO_DRIVERS
      else menus tools (read_catalog (Shell.substitution output)) := by
  rw [script, filter_args_eq, if_pos rfl]
  simp only [bind, Except.bind, h]
  rfl

theorem menus_eq_ok_iff {table : Table} {args : Args} :
    menus tools table = .ok args ↔ ∃ subsystem drivers driver,
      tools.dialog ((tools.sort table.subsystems).map fun s => (s, count_text (table.subsystem_counts s))) =
          some subsystem ∧
        table.driver_map subsystem = some drivers ∧
        tools.dialog ((tools.sort drivers).map fun d => (d, "Linux config symbol")) = some driver ∧
        args = ⟨false, some subsystem, some driver, .Tsv⟩ := by
  unfold menus pick
  simp only [bind, Except.bind, pure, Except.pure]
  cases tools.dialog ((tools.sort table.subsystems).map fun s => (s, count_text (table.subsystem_counts s))) with
  | none => simp
  | some subsystem =>
    cases hdrivers : table.driver_map subsystem with
    | none => simp [hdrivers]
    | some drivers =>
      cases hdriver : tools.dialog ((tools.sort drivers).map fun d => (d, "Linux config symbol")) with
      | none => simp [hdrivers, hdriver]
      | some driver => simp [hdrivers, hdriver, eq_comm]

theorem menus_ne_no_drivers (tools : Tools) (table : Table) : menus tools table ≠ .error NO_DRIVERS := by
  unfold menus pick
  simp only [bind, Except.bind, pure, Except.pure]
  cases tools.dialog ((tools.sort table.subsystems).map fun s => (s, count_text (table.subsystem_counts s))) with
  | none => simp [NO_DRIVERS]
  | some subsystem =>
    cases hdrivers : table.driver_map subsystem with
    | none => simp [hdrivers, NO_DRIVERS, throw, throwThe, MonadExceptOf.throw]
    | some drivers =>
      cases hdriver : tools.dialog ((tools.sort drivers).map fun d => (d, "Linux config symbol")) with
      | none => simp [hdrivers, hdriver, NO_DRIVERS]
      | some driver => simp [hdrivers, hdriver]

/-- What is picked has been read from the catalogue. -/
theorem mem_of_menus {entries : List CatalogEntry} {table : Table} {args : Args} (htools : tools.Documented)
    (hholds : table.Holds (rows entries)) (h : menus tools table = .ok args) :
    ∃ entry ∈ entries, args = ⟨false, some entry.subsystem, some entry.driver, .Tsv⟩ := by
  obtain ⟨subsystem, drivers, driver, -, hdrivers, hdriver, rfl⟩ := menus_eq_ok_iff.mp h
  have hmem := htools.mem _ _ hdriver
  rw [List.map_map] at hmem
  obtain ⟨d, hd, rfl⟩ := List.mem_map.mp hmem
  rw [(htools.perm drivers).mem_iff] at hd
  rw [hholds.drivers] at hdrivers
  split at hdrivers
  · cases hdrivers
  · cases hdrivers
    obtain ⟨entry, hentry, heq⟩ := List.mem_map.mp (mem_drivers_of.mp hd)
    cases heq
    exact ⟨entry, hentry, rfl⟩

theorem count_text_ne (count : Nat) : count_text count ≠ "Linux config symbol" := by
  intro heq
  have hlast := congrArg (fun text => text.toList.getLast?) heq
  unfold count_text at hlast
  by_cases hone : count = 1
  · rw [if_neg (not_not.mpr hone)] at hlast
    simp at hlast
  · rw [if_pos hone] at hlast
    simp at hlast

/-- Someone who has made up their mind. -/
def decided (entry : CatalogEntry) : Tools where
  sort names := names
  dialog items :=
    if (entry.driver, "Linux config symbol") ∈ items then some entry.driver
    else if entry.subsystem ∈ items.map Prod.fst then some entry.subsystem
    else none

theorem decided_documented (entry : CatalogEntry) : (decided entry).Documented := by
  refine ⟨fun _ => List.Perm.refl _, fun items tag h => ?_⟩
  unfold decided at h
  dsimp only at h
  split at h
  · cases h
    exact List.mem_map_of_mem ‹_›
  split at h
  · cases h
    assumption
  · cases h

/-- Every entry can be picked. -/
theorem menus_decided {entries : List CatalogEntry} {table : Table} {entry : CatalogEntry}
    (hholds : table.Holds (rows entries)) (hentry : entry ∈ entries) :
    menus (decided entry) table = .ok ⟨false, some entry.subsystem, some entry.driver, .Tsv⟩ := by
  have hdriver : entry.driver ∈ drivers_of (rows entries) entry.subsystem :=
    mem_drivers_of.mpr (List.mem_map.mpr ⟨entry, hentry, rfl⟩)
  have hne := List.ne_nil_of_mem hdriver
  refine menus_eq_ok_iff.mpr
    ⟨entry.subsystem, drivers_of (rows entries) entry.subsystem, entry.driver, ?_, ?_, ?_, rfl⟩
  · unfold decided
    dsimp only
    rw [if_neg, if_pos]
    · rw [List.map_map]
      exact List.mem_map.mpr ⟨entry.subsystem, (hholds.listed _).mpr hne, rfl⟩
    · intro hmem
      obtain ⟨s, -, heq⟩ := List.mem_map.mp hmem
      exact count_text_ne _ (congrArg Prod.snd heq)
  · rw [hholds.drivers, if_neg hne]
  · unfold decided
    dsimp only
    rw [if_pos]
    exact List.mem_map.mpr ⟨entry.driver, hdriver, rfl⟩

/-- What the script offers for a catalogue: nothing if there are no drivers, and otherwise every driver that
was recorded and no other. What is picked names a driver in any later run of the program, which prints the
same catalogue, and so does the name alone if it is offered in one subsystem only. With an argument the
script runs nothing. -/
structure Offers (map : DriverMap) (text : List Char)
    (again : Args → Exec String Unit Action) : Prop where
  nothing : ∀ tools : Tools, tools.Documented →
    (script tools (fun _ => .ok text) [] = .error NO_DRIVERS ↔ ∀ subsystem, map subsystem = [])
  picked : ∀ tools : Tools, tools.Documented → ∀ args, script tools (fun _ => .ok text) [] = .ok args →
    ∃ subsystem, ∃ info ∈ map subsystem, args = ⟨false, some subsystem, some info.symbol, .Tsv⟩ ∧
      again args () = .ok (.extract_driver subsystem info) ()
  offered : ∀ subsystem, ∀ info ∈ map subsystem, ∃ tools : Tools, tools.Documented ∧
    script tools (fun _ => .ok text) [] = .ok ⟨false, some subsystem, some info.symbol, .Tsv⟩
  unique : ∀ driver subsystem,
    (∃ info, again ⟨false, none, some driver, .Tsv⟩ () = .ok (.extract_driver subsystem info) ()) ↔
      ∀ name, (∃ info ∈ map name, info.symbol = driver) ↔ name = subsystem
  listed : again ⟨true, none, none, .Tsv⟩ () = .ok (.printed text) ()
  arguments : ∀ (tools : Tools) listing orig_args, orig_args ≠ [] →
    script tools listing orig_args = .error ⟨1, none⟩

theorem main_eq_ok_iff {pretty : List CatalogEntry → Except String String}
    {interact : List String → Except String Nat} {name : Option String} {driver subsystem : String}
    {info : DriverInfo} :
    main pretty interact sorts keys map ⟨false, name, some driver, .Tsv⟩ () =
        .ok (.extract_driver subsystem info) () ↔
      resolve_driver keys map name driver = .ok (subsystem, info) := by
  unfold main
  dsimp only
  rw [if_neg (by simp)]
  cases resolve_driver keys map name driver with
  | error e => simp [Exec.bind_apply]
  | ok found => simp [Exec.bind_apply, Prod.ext_iff]

theorem main_resolves (pretty : List CatalogEntry → Except String String)
    (interact : List String → Except String Nat) (sorts : Sorts) (keys : List String) {subsystem : String}
    {info : DriverInfo} (hinfo : info ∈ map subsystem) :
    ∃ found ∈ map subsystem, found.symbol = info.symbol ∧
      main pretty interact sorts keys map ⟨false, some subsystem, some info.symbol, .Tsv⟩ () =
        .ok (.extract_driver subsystem found) () := by
  obtain ⟨found, hfound⟩ := find_driver_isSome_iff.mpr ⟨info, hinfo, rfl⟩
  obtain ⟨hmem, hsymbol⟩ := find_driver_eq_some hfound
  refine ⟨found, hmem, hsymbol, ?_⟩
  exact main_eq_ok_iff.mpr (resolve_in_subsystem_iff.mpr hfound)

/-- A name alone is resolved if it is in one subsystem. -/
theorem main_of_unique {pretty : List CatalogEntry → Except String String}
    {interact : List String → Except String Nat} (hkeys : Iterates keys map) (driver subsystem : String) :
    (∃ info, main pretty interact sorts keys map ⟨false, none, some driver, .Tsv⟩ () =
        .ok (.extract_driver subsystem info) ()) ↔
      ∀ name, (∃ info ∈ map name, info.symbol = driver) ↔ name = subsystem := by
  simp only [main_eq_ok_iff, resolve_anywhere_iff hkeys]
  constructor
  · rintro ⟨info, hfind, honly⟩ name
    refine ⟨honly name, ?_⟩
    rintro rfl
    exact find_driver_isSome_iff.mp ⟨info, hfind⟩
  · intro h
    obtain ⟨info, hfind⟩ := find_driver_isSome_iff.mpr ((h subsystem).mpr rfl)
    exact ⟨info, hfind, fun name hname => (h name).mp hname⟩

theorem script_of_args (tools : Tools) (listing : List String → Except Exit (List Char)) (orig_args : List String)
    (h : orig_args ≠ []) : script tools listing orig_args = .error ⟨1, none⟩ := by
  rw [script, filter_args_eq, if_neg h]
  rfl

/-- The script reads back what the program prints, whatever orders the hash map and the sorts have in this
run and in the next one. -/
theorem menu_offers_recorded (pretty : List CatalogEntry → Except String String)
    (interact : List String → Except String Nat) (sorts sorts' : Sorts) (map : DriverMap)
    (keys keys' : List String) (hlistable : Listable map) (hkeys : Iterates keys map) (hkeys' : Iterates keys' map)
    (text : List Char)
    (hlist : main pretty interact sorts keys map ⟨true, none, none, .Tsv⟩ () = .ok (.printed text) ()) :
    Offers map text (main pretty interact sorts' keys' map) := by
  have htext : printed (catalog sorts keys map) = text := by
    obtain ⟨output, _, hemit, hprinted⟩ := Exec.bind_eq_ok_iff.mp hlist
    obtain ⟨houtput, rfl⟩ := Exec.ofExcept_eq_ok_iff.mp hemit
    cases hprinted
    rw [printed, List.flatMap_map]
    exact Except.ok.inj houtput
  have hlisted : main pretty interact sorts' keys' map ⟨true, none, none, .Tsv⟩ () = .ok (.printed text) () := by
    rw [← hlist, main, main, emit_catalog, emit_catalog, catalog_eq sorts' sorts hkeys' hkeys]
    rfl
  subst htext
  have hplain : ∀ entry ∈ catalog sorts keys map, Plain entry.subsystem ∧ Plain entry.driver :=
    fun entry hentry => hlistable.entry hkeys hentry
  have hscript (tools : Tools) := script_eq tools (fun _ => .ok (printed (catalog sorts keys map))) rfl
  have hnothing : catalog sorts keys map = [] ↔ ∀ subsystem, map subsystem = [] := by
    constructor
    · intro hempty subsystem
      by_contra hne
      obtain ⟨info, hinfo⟩ := List.exists_mem_of_ne_nil _ hne
      have hentry := (mem_catalog sorts hkeys).mpr ⟨info, hinfo, rfl⟩
      rw [hempty] at hentry
      cases hentry
    · intro hempty
      apply List.eq_nil_iff_forall_not_mem.mpr
      intro entry hentry
      obtain ⟨info, hinfo, -⟩ := (mem_catalog sorts hkeys).mp hentry
      rw [hempty] at hinfo
      cases hinfo
  by_cases hne : catalog sorts keys map = []
  · have hnone (tools : Tools) :
        script tools (fun _ => .ok (printed (catalog sorts keys map))) [] = .error NO_DRIVERS := by
      rw [hscript, if_pos ((printed_empty_iff hplain).mpr hne)]
    refine ⟨fun tools _ => iff_of_true (hnone tools) (hnothing.mp hne), fun tools _ args hargs => ?_,
      fun subsystem info hinfo => ?_, main_of_unique hkeys', hlisted, script_of_args⟩
    · rw [hnone] at hargs
      cases hargs
    · rw [hnothing.mp hne] at hinfo
      cases hinfo
  have hholds := read_catalog_printed hne hplain
  have hmenus (tools : Tools) : script tools (fun _ => .ok (printed (catalog sorts keys map))) [] =
      menus tools (read_catalog (Shell.substitution (printed (catalog sorts keys map)))) := by
    rw [hscript, if_neg (mt (printed_empty_iff hplain).mp hne), if_neg]
    obtain ⟨entry, hentry⟩ := List.exists_mem_of_ne_nil _ hne
    apply List.ne_nil_of_mem (a := entry.subsystem)
    rw [hholds.listed]
    exact List.ne_nil_of_mem (mem_drivers_of.mpr (List.mem_map.mpr ⟨entry, hentry, rfl⟩))
  refine ⟨fun tools htools => ?_, fun tools htools args hargs => ?_, fun subsystem info hinfo => ?_,
    main_of_unique hkeys', hlisted, script_of_args⟩
  · rw [hmenus]
    exact iff_of_false (menus_ne_no_drivers tools _) (mt hnothing.mpr hne)
  · rw [hmenus] at hargs
    obtain ⟨entry, hentry, rfl⟩ := mem_of_menus htools hholds hargs
    obtain ⟨info, hinfo, hsymbol⟩ := (mem_catalog sorts hkeys).mp hentry
    obtain ⟨found, hfound, hsame, hmain⟩ := main_resolves pretty interact sorts' keys' hinfo
    refine ⟨entry.subsystem, found, hfound, ?_, ?_⟩
    · rw [hsame, hsymbol]
    · rw [← hsymbol]
      exact hmain
  · have hentry := (mem_catalog sorts hkeys).mpr ⟨info, hinfo, rfl⟩
    refine ⟨decided ⟨subsystem, info.symbol⟩, decided_documented _, ?_⟩
    rw [hmenus]
    exact menus_decided hholds hentry

end Runs

def mergeSorts : Sorts := ⟨.merge id, .merge DriverInfo.symbol⟩

/-- Two subsystems with a driver of one name. -/
def sampleMap : DriverMap := fun subsystem =>
  if subsystem = "net" then
    [⟨"R8169", [os "net"], [os "net", os "Kconfig"]⟩, ⟨"E1000", [os "net"], [os "net", os "Kconfig"]⟩]
  else if subsystem = "usb" then [⟨"E1000", [os "usb"], [os "usb", os "Kconfig"]⟩]
  else []

theorem catalog_sampleMap :
    catalog mergeSorts ["usb", "net"] sampleMap = [⟨"net", "E1000"⟩, ⟨"net", "R8169"⟩, ⟨"usb", "E1000"⟩] := by
  have hsubsystems : mergeSorts.sort_unstable.sort ["usb", "net"] = ["net", "usb"] := by
    rw [← List.map_id (mergeSorts.sort_unstable.sort _)]
    exact mergeSorts.sort_unstable.map_key_sort_eq (List.Perm.swap _ _ _) (by decide)
  have hnet : (mergeSorts.sort_unstable_by_symbol.sort (sampleMap "net")).map DriverInfo.symbol =
      ["E1000", "R8169"] :=
    mergeSorts.sort_unstable_by_symbol.map_key_sort_eq (List.Perm.swap _ _ [] : List.Perm _ [_, _]) (by decide)
  have husb : (mergeSorts.sort_unstable_by_symbol.sort (sampleMap "usb")).map DriverInfo.symbol = ["E1000"] :=
    mergeSorts.sort_unstable_by_symbol.map_key_sort_eq (List.Perm.refl [_]) (by decide)
  unfold catalog
  rw [hsubsystems, List.flatMap_cons, List.flatMap_singleton]
  have hentries (subsystem : String) (drivers : List DriverInfo) :
      drivers.map (fun driver => (⟨subsystem, driver.symbol⟩ : CatalogEntry)) =
        (drivers.map DriverInfo.symbol).map (CatalogEntry.mk subsystem) := by
    rw [List.map_map]
    rfl
  rw [hentries, hentries, hnet, husb]
  rfl

/-- Three drivers in two subsystems, with a name that is in both. -/
theorem menu_offers_sample :
    Offers sampleMap "net\tE1000\nnet\tR8169\nusb\tE1000\n".toList
      (main (fun _ => .error "") (fun _ => .ok 0) mergeSorts ["net", "usb"] sampleMap) := by
  have hnames (subsystem : String) : sampleMap subsystem ≠ [] ↔ subsystem = "net" ∨ subsystem = "usb" := by
    unfold sampleMap
    split
    · simp [*]
    split
    · simp [*]
    · simp [*]
  have hplain : ∀ name ∈ ["net", "usb", "R8169", "E1000"], Plain name ∧ ∀ c ∈ name.toList, is_plain c := by
    intro name hname
    simp only [List.mem_cons, List.not_mem_nil, or_false] at hname
    obtain rfl | rfl | rfl | rfl := hname <;>
      exact ⟨⟨by decide, by decide, by decide⟩, by simp [is_plain]⟩
  have hlistable : Listable sampleMap := by
    refine ⟨fun subsystem hne => ?_, fun subsystem info hinfo => ?_⟩
    · obtain rfl | rfl := (hnames subsystem).mp hne
      · exact hplain "net" (by simp)
      · exact hplain "usb" (by simp)
    · have hsymbol : info.symbol = "R8169" ∨ info.symbol = "E1000" := by
        obtain rfl | rfl := (hnames subsystem).mp (List.ne_nil_of_mem hinfo)
        · simp only [sampleMap, if_true, List.mem_cons, List.not_mem_nil, or_false] at hinfo
          obtain rfl | rfl := hinfo
          · exact .inl rfl
          · exact .inr rfl
        · obtain rfl := List.mem_singleton.mp hinfo
          exact .inr rfl
      obtain hsymbol | hsymbol := hsymbol
      · rw [hsymbol]
        exact (hplain "R8169" (by simp)).1
      · rw [hsymbol]
        exact (hplain "E1000" (by simp)).1
  refine menu_offers_recorded (fun _ => .error "") (fun _ => .ok 0) mergeSorts mergeSorts sampleMap
    ["usb", "net"] ["net", "usb"] hlistable ⟨by decide, fun key => ?_⟩ ⟨by decide, fun key => ?_⟩ _ ?_
  · rw [hnames]
    simp [or_comm]
  · rw [hnames]
    simp
  · rw [main, if_pos rfl, emit_catalog, catalog_sampleMap]
    rfl

end driver_picker.menu
