import L4Rust.DriverPicker
import L4Rust.Library.Sorting

namespace driver_picker

/-- The keys of the map in the order in which it is gone through, which is another in every run. -/
structure Iterates (keys : List String) (map : DriverMap) : Prop where
  nodup : keys.Nodup
  mem_iff : ∀ key, key ∈ keys ↔ map key ≠ []

/-- `HashMap::get`: there is an entry for a key once a driver is pushed to it. -/
def DriverMap.get (map : DriverMap) (key : String) : Option (List DriverInfo) :=
  if map key = [] then none else some (map key)

inductive CatalogFormat where
  | Tsv
  | Json
  deriving DecidableEq, Repr

structure CatalogEntry where
  subsystem : String
  driver : String
  deriving DecidableEq, Repr

/-- The standard sorts of names and of drivers, neither of which is stable. -/
structure Sorts where
  sort_unstable : SortByKey (id : String → String)
  sort_unstable_by_symbol : SortByKey DriverInfo.symbol

/-- The entries of the catalogue, which both formats go through in the same way. -/
def catalog (sorts : Sorts) (keys : List String) (map : DriverMap) : List CatalogEntry :=
  (sorts.sort_unstable.sort keys).flatMap fun subsystem =>
    (sorts.sort_unstable_by_symbol.sort (map subsystem)).map fun driver => ⟨subsystem, driver.symbol⟩

/-- `println!("{}\t{}", subsystem, driver.symbol)`, without the line break. -/
def CatalogEntry.line (entry : CatalogEntry) : List Char :=
  entry.subsystem.toList ++ '\t' :: entry.driver.toList

/-- What is printed. -/
def emit_catalog (to_string_pretty : List CatalogEntry → Except String String) (sorts : Sorts)
    (keys : List String) (map : DriverMap) : CatalogFormat → Except String (List Char)
  | .Tsv => .ok ((catalog sorts keys map).flatMap fun entry => entry.line ++ ['\n'])
  | .Json => (to_string_pretty (catalog sorts keys map)).map fun text => text.toList ++ ['\n']

/-- The first driver of that name in a subsystem. -/
def find_driver (drivers : List DriverInfo) (driver : String) : Option DriverInfo :=
  drivers.find? fun d => d.symbol = driver

def resolve_driver (keys : List String) (map : DriverMap) (subsystem : Option String) (driver : String) :
    Except String (String × DriverInfo) :=
  match subsystem with
  | some subsystem_name =>
    match map.get subsystem_name with
    | none => .error ("Subsystem '" ++ subsystem_name ++ "' not found")
    | some drivers =>
      match find_driver drivers driver with
      | none => .error ("Driver '" ++ driver ++ "' not found in subsystem '" ++ subsystem_name ++ "'")
      | some driver_info => .ok (subsystem_name, driver_info)
  | none =>
    let found := keys.filterMap fun name => (find_driver (map name) driver).map fun info => (name, info)
    match found with
    | [] => .error ("Driver '" ++ driver ++ "' not found")
    | [found] => .ok found
    | _ => .error ("Driver '" ++ driver ++ "' exists in multiple subsystems, please specify --subsystem")

structure Args where
  list : Bool
  subsystem : Option String
  driver : Option String
  format : CatalogFormat

/-- What `main` does in the end: it prints the catalogue, or hands a driver to `extract_driver`. -/
inductive Action where
  | printed (text : List Char)
  | extract_driver (subsystem : String) (driver : DriverInfo)
  deriving DecidableEq

/-- `main` once the drivers are collected. An index that is not one of a choice stops it. -/
def main (to_string_pretty : List CatalogEntry → Except String String)
    (interact : List String → Except String Nat) (sorts : Sorts) (keys : List String) (map : DriverMap)
    (args : Args) : Exec String Unit Action :=
  if args.list then do
    let text ← Exec.ofExcept (emit_catalog to_string_pretty sorts keys map args.format)
    pure (.printed text)
  else
    match args.driver with
    | some driver => do
      let (subsystem, driver_info) ← Exec.ofExcept (resolve_driver keys map args.subsystem driver)
      pure (.extract_driver subsystem driver_info)
    | none => do
      let subsystems := sorts.sort_unstable.sort keys
      let subsystem_choice ← Exec.ofExcept (interact subsystems)
      let subsystem ← Exec.checked subsystems[subsystem_choice]?
      let drivers := sorts.sort_unstable_by_symbol.sort (map subsystem)
      let driver_choice ← Exec.ofExcept (interact (drivers.map DriverInfo.symbol))
      let driver ← Exec.checked drivers[driver_choice]?
      pure (.extract_driver subsystem driver)

variable {keys keys' : List String} {map : DriverMap} {sorts sorts' : Sorts} {subsystem driver : String}
  {info : DriverInfo}

theorem Iterates.perm (h : Iterates keys map) (h' : Iterates keys' map) : keys.Perm keys' :=
  (List.perm_ext_iff_of_nodup h.nodup h'.nodup).mpr fun key => (h.mem_iff key).trans (h'.mem_iff key).symm

theorem push_ne_nil_iff {map : DriverMap} {subsystem key : String} {info : DriverInfo} :
    map.push subsystem info key ≠ [] ↔ map key ≠ [] ∨ key = subsystem := by
  unfold DriverMap.push
  by_cases hkey : key = subsystem
  · subst hkey
    simp
  · simp [hkey]

theorem exists_iterates_push {map : DriverMap} (h : ∃ keys, Iterates keys map) (subsystem : String)
    (info : DriverInfo) : ∃ keys, Iterates keys (map.push subsystem info) := by
  obtain ⟨keys, hkeys⟩ := h
  by_cases hmem : subsystem ∈ keys
  · refine ⟨keys, hkeys.nodup, fun key => ?_⟩
    rw [push_ne_nil_iff, ← hkeys.mem_iff, iff_self_or]
    rintro rfl
    exact hmem
  · refine ⟨subsystem :: keys, hkeys.nodup.cons hmem, fun key => ?_⟩
    rw [push_ne_nil_iff, ← hkeys.mem_iff, List.mem_cons, or_comm]

section Scan

variable {ρ : Type} {regex : RegexCrate ρ} {re : ρ} {files : Files} {to_string_lossy : OsString → String}
  {drivers_dir path linux_src : PathBuf} {caps : List (Nat → Option String)} {map map' : DriverMap}

theorem iterates_of_record (hmap : ∃ keys, Iterates keys map)
    (h : record to_string_lossy drivers_dir path caps map () = .ok map' ()) : ∃ keys, Iterates keys map' := by
  induction caps generalizing map with
  | nil =>
    cases h
    exact hmap
  | cons cap caps ih =>
    obtain ⟨symbol, -, h⟩ := Exec.bind_checked_eq_ok_iff.mp h
    obtain ⟨dir, -, h⟩ := Exec.bind_checked_eq_ok_iff.mp h
    obtain ⟨rel, -, h⟩ := Exec.bind_checked_eq_ok_iff.mp h
    obtain ⟨component, -, h⟩ := Exec.bind_checked_eq_ok_iff.mp h
    exact ih (exists_iterates_push hmap _ _) h

theorem iterates_of_collect_from {entries : List (Except String DirEntry)} (hmap : ∃ keys, Iterates keys map)
    (h : collect_from regex files to_string_lossy drivers_dir re entries map () = .ok map' ()) :
    ∃ keys, Iterates keys map' := by
  induction entries generalizing map with
  | nil =>
    cases h
    exact hmap
  | cons entry entries ih =>
    cases entry with
    | error e => cases h
    | ok entry =>
      by_cases hentry : entry.IsKconfig
      · rw [collect_from_kconfig hentry] at h
        obtain ⟨content, _, hcontent, h⟩ := Exec.bind_eq_ok_iff.mp h
        obtain ⟨-, rfl⟩ := Exec.ofExcept_eq_ok_iff.mp hcontent
        obtain ⟨between, _, hrecord, h⟩ := Exec.bind_eq_ok_iff.mp h
        exact ih (iterates_of_record hmap hrecord) h
      · rw [collect_from_other hentry] at h
        exact ih hmap h

/-- The map of a scan can be gone through. -/
theorem iterates_of_collect (h : collect_drivers regex files to_string_lossy linux_src () = .ok map ()) :
    ∃ keys, Iterates keys map := by
  obtain ⟨re, _, hnew, h⟩ := Exec.bind_eq_ok_iff.mp h
  obtain ⟨-, rfl⟩ := Exec.ofExcept_eq_ok_iff.mp hnew
  refine iterates_of_collect_from ⟨[], List.nodup_nil, fun key => ?_⟩ h
  simp

end Scan

/-- Neither the order of the map nor that of equal drivers shows in the catalogue. -/
theorem catalog_eq (sorts sorts' : Sorts) (h : Iterates keys map) (h' : Iterates keys' map) :
    catalog sorts keys map = catalog sorts' keys' map := by
  unfold catalog
  rw [sorts.sort_unstable.sort_eq sorts'.sort_unstable (h.perm h')]
  congr 1
  funext subsystem
  have hsymbols := sorts.sort_unstable_by_symbol.map_key_sort sorts'.sort_unstable_by_symbol
    (List.Perm.refl (map subsystem))
  have hentries := congrArg (List.map (CatalogEntry.mk subsystem)) hsymbols
  rwa [List.map_map, List.map_map] at hentries

/-- The catalogue has the drivers that were recorded. -/
theorem mem_catalog (sorts : Sorts) (h : Iterates keys map) :
    ⟨subsystem, driver⟩ ∈ catalog sorts keys map ↔ ∃ info ∈ map subsystem, info.symbol = driver := by
  unfold catalog
  rw [List.mem_flatMap]
  constructor
  · rintro ⟨name, -, hmem⟩
    obtain ⟨info, hinfo, heq⟩ := List.mem_map.mp hmem
    cases heq
    exact ⟨info, sorts.sort_unstable_by_symbol.mem_sort.mp hinfo, rfl⟩
  · rintro ⟨info, hinfo, rfl⟩
    refine ⟨subsystem, ?_, ?_⟩
    · rw [sorts.sort_unstable.mem_sort, h.mem_iff]
      exact List.ne_nil_of_mem hinfo
    · exact List.mem_map.mpr ⟨info, sorts.sort_unstable_by_symbol.mem_sort.mpr hinfo, rfl⟩

theorem find_driver_eq_some (h : find_driver (map subsystem) driver = some info) :
    info ∈ map subsystem ∧ info.symbol = driver :=
  ⟨List.mem_of_find?_eq_some h, by simpa using List.find?_some h⟩

theorem find_driver_isSome_iff :
    (∃ info, find_driver (map subsystem) driver = some info) ↔ ∃ info ∈ map subsystem, info.symbol = driver := by
  rw [← Option.isSome_iff_exists, find_driver, List.find?_isSome]
  simp

/-- In a subsystem a name is resolved to the first driver of that name. -/
theorem resolve_in_subsystem_iff :
    resolve_driver keys map (some subsystem) driver = .ok (subsystem, info) ↔
      find_driver (map subsystem) driver = some info := by
  unfold resolve_driver DriverMap.get
  by_cases hempty : map subsystem = []
  · simp [hempty, find_driver]
  · simp only [hempty, if_false]
    cases find_driver (map subsystem) driver with
    | none => simp
    | some found => simp

/-- The subsystems that have a driver of that name, each with the first one. -/
def matching (keys : List String) (map : DriverMap) (driver : String) : List (String × DriverInfo) :=
  keys.filterMap fun name => (find_driver (map name) driver).map fun info => (name, info)

theorem mem_matching_iff (h : Iterates keys map) :
    (subsystem, info) ∈ matching keys map driver ↔ find_driver (map subsystem) driver = some info := by
  unfold matching
  rw [List.mem_filterMap]
  constructor
  · rintro ⟨name, -, hfound⟩
    obtain ⟨found, hfind, heq⟩ := Option.map_eq_some_iff.mp hfound
    cases heq
    exact hfind
  · intro hfind
    refine ⟨subsystem, ?_, by rw [hfind, Option.map_some]⟩
    rw [h.mem_iff]
    exact List.ne_nil_of_mem (find_driver_eq_some hfind).1

theorem nodup_matching (h : Iterates keys map) : (matching keys map driver).Nodup := by
  refine List.Nodup.filterMap (fun name name' p hp hp' => ?_) h.nodup
  obtain ⟨info, -, hinfo⟩ := Option.map_eq_some_iff.mp hp
  obtain ⟨info', -, hinfo'⟩ := Option.map_eq_some_iff.mp hp'
  exact congrArg Prod.fst (hinfo.trans hinfo'.symm)

/-- Without a subsystem a name is resolved if it is in one subsystem only, and then as it is there. -/
theorem resolve_anywhere_iff (h : Iterates keys map) :
    resolve_driver keys map none driver = .ok (subsystem, info) ↔
      find_driver (map subsystem) driver = some info ∧
        ∀ name, (∃ info ∈ map name, info.symbol = driver) → name = subsystem := by
  have hresolve : resolve_driver keys map none driver = .ok (subsystem, info) ↔
      matching keys map driver = [(subsystem, info)] := by
    unfold resolve_driver
    dsimp only
    rw [← matching]
    cases matching keys map driver with
    | nil => simp
    | cons found rest => cases rest <;> simp
  rw [hresolve]
  constructor
  · intro hmatching
    refine ⟨(mem_matching_iff h).mp (hmatching ▸ List.mem_singleton_self _), fun name hname => ?_⟩
    obtain ⟨found, hfound⟩ := find_driver_isSome_iff.mpr hname
    have hmem := (mem_matching_iff h).mpr hfound
    rw [hmatching, List.mem_singleton] at hmem
    exact congrArg Prod.fst hmem
  · rintro ⟨hfind, honly⟩
    apply List.perm_singleton.mp
    refine (List.perm_ext_iff_of_nodup (nodup_matching h) (List.nodup_singleton _)).mpr fun found => ?_
    rw [List.mem_singleton]
    constructor
    · intro hfound
      have hfound := (mem_matching_iff h).mp hfound
      obtain ⟨name, found⟩ := found
      obtain rfl := honly name ⟨found, find_driver_eq_some hfound⟩
      rw [hfind] at hfound
      rw [Option.some.inj hfound]
    · rintro rfl
      exact (mem_matching_iff h).mpr hfind

end driver_picker
