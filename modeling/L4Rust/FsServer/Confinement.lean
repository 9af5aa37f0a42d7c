import L4Rust.FsServer
import L4Rust.L4.Registers.Strings
import L4Rust.Library.Paths

open l4_sys (Br)
open Paths

namespace fs_server

/-- What a part between slashes stands for. -/
def component (part : List Char) : Component (List Char) :=
  if part = [] ∨ part = ['.'] then .here else if part = ['.', '.'] then .up else .name part

def components (q : String) : List (Component (List Char)) := (q.toList.splitOn '/').map component

/-- The trees that the server exports. -/
def exported : List (List Char) := ["bin".toList, "etc".toList, "usr".toList]

/-- After resolving its components lexically, the path is at or below one of the trees. -/
def Confined (q : String) : Prop := ∃ top ∈ exported, (resolve (components q)).Below top

/-- The path that the server uses for the bytes a client has sent. -/
def client_path (br : Br) : Option String := (br_read_path br).bind resolve_path

theorem exported_parts : ∀ top ∈ exported, '/' ∉ top ∧ component top = .name top := by decide

theorem resolve_path_eq_some_iff {p q : String} :
    resolve_path p = some q ↔
      ∃ top ∈ exported, ∃ rest, p.toList = '/' :: (top ++ '/' :: rest) ∧
        q = String.ofList (top ++ '/' :: rest) := by
  unfold resolve_path
  constructor
  · intro h
    split at h
    case h_1 rel hp =>
      split at h
      case isTrue haccepted =>
        cases h
        rw [hp]
        rcases haccepted with hpre | hpre | hpre
        all_goals
          obtain ⟨rest, rfl⟩ := List.isPrefixOf_iff_prefix.mp hpre
        · exact ⟨"bin".toList, by decide, rest, rfl, rfl⟩
        · exact ⟨"etc".toList, by decide, rest, rfl, rfl⟩
        · exact ⟨"usr".toList, by decide, rest, rfl, rfl⟩
      case isFalse => cases h
    case h_2 => cases h
  · rintro ⟨top, htop, rest, hp, rfl⟩
    rw [hp]
    have hpre : "bin/".toList.isPrefixOf (top ++ '/' :: rest) ∨
        "etc/".toList.isPrefixOf (top ++ '/' :: rest) ∨ "usr/".toList.isPrefixOf (top ++ '/' :: rest) := by
      simp only [exported, List.mem_cons, List.not_mem_nil, or_false] at htop
      rcases htop with rfl | rfl | rfl
      · exact Or.inl rfl
      · exact Or.inr (Or.inl rfl)
      · exact Or.inr (Or.inr rfl)
    exact if_pos hpre

theorem components_of_split {top rest : List Char} (htop : top ∈ exported) :
    components (String.ofList (top ++ '/' :: rest)) = .name top :: components (String.ofList rest) := by
  obtain ⟨hslash, hname⟩ := exported_parts top htop
  unfold components
  rw [String.toList_ofList, String.toList_ofList, List.splitOn_append_cons_self_of_not_mem hslash,
    List.map_cons, hname]

/-- Behind the first name of a path there are nowhere more parents than names; or else, once they
have led back to the root, the path enters one of the trees again. -/
def Returns (rest : List (Component (List Char))) : Prop :=
  Inside rest ∨ ∃ pre post, rest = pre ++ .up :: post ∧ Inside pre ∧ net pre = 0 ∧
    ∃ top ∈ exported, Enters post top

theorem confined_iff_returns {top rest : List Char} (htop : top ∈ exported) :
    Confined (String.ofList (top ++ '/' :: rest)) ↔ Returns (components (String.ofList rest)) := by
  unfold Confined Returns
  simp only [below_iff_enters, components_of_split htop, enters_cons]
  constructor
  · rintro ⟨top', htop', ⟨rfl, hinside⟩ | ⟨pre, post, hrest, hpre, hnet, henters⟩⟩
    · exact Or.inl hinside
    · exact Or.inr ⟨pre, post, hrest, hpre, hnet, top', htop', henters⟩
  · rintro (hinside | ⟨pre, post, hrest, hpre, hnet, top', htop', henters⟩)
    · exact ⟨top, htop, Or.inl ⟨rfl, hinside⟩⟩
    · exact ⟨top', htop', Or.inr ⟨pre, post, hrest, hpre, hnet, henters⟩⟩

/-- The paths that a client can use are confined if and only if those behind one of the trees
do not leave it, or come back to one. -/
theorem path_confined_iff (br : Br) :
    (∀ q, client_path br = some q → Confined q) ↔
      ∀ p top rest, br_read_path br = some p → top ∈ exported →
        p.toList = '/' :: (top ++ '/' :: rest) → Returns (components (String.ofList rest)) := by
  have haccepted : ∀ q, client_path br = some q ↔ ∃ p, br_read_path br = some p ∧
      resolve_path p = some q := by
    intro q
    exact Option.bind_eq_some_iff
  constructor
  · intro hconfined p top rest hp htop hpath
    rw [← confined_iff_returns htop]
    apply hconfined
    exact (haccepted _).mpr ⟨p, hp, resolve_path_eq_some_iff.mpr ⟨top, htop, rest, hpath, rfl⟩⟩
  · intro hreturns q hq
    obtain ⟨p, hp, hresolved⟩ := (haccepted q).mp hq
    obtain ⟨top, htop, rest, hpath, rfl⟩ := resolve_path_eq_some_iff.mp hresolved
    exact (confined_iff_returns htop).mpr (hreturns p top rest hp htop hpath)

/-- The buffer registers of a client that asks for a path. -/
def sending (p : String) : Br :=
  ⟨.ofNat (l4.utcb.utf8 p).length, fun i => (l4.utcb.utf8 p).getD i 0⟩

/-- A path that is not too long is what the server reads. -/
theorem br_read_path_sending {p : String} (h : (l4.utcb.utf8 p).length ≤ BR_DATA_MAX) :
    br_read_path (sending p) = some p := by
  have hword : (UInt64.ofNat (l4.utcb.utf8 p).length).toNat = (l4.utcb.utf8 p).length :=
    UInt64.toNat_ofNat_of_lt' (Nat.lt_of_le_of_lt h (by decide))
  have hbytes : br_read_bytes (sending p) = l4.utcb.utf8 p := by
    rw [br_read_bytes, sending, hword, Nat.min_eq_left h]
    apply List.ext_getElem
    · rw [Br.bytes, List.length_map, List.length_range]
    · intro i _ hi
      simp [Br.bytes, hi]
  rw [br_read_path, hbytes, l4.utcb.fromUTF8?_utf8]

/-- A path that leaves its tree is used as it is. -/
theorem path_leaves_tree : ¬ ∀ q, client_path (sending "/bin/../boot") = some q → Confined q := by
  intro hconfined
  have hpath : client_path (sending "/bin/../boot") = some "bin/../boot" := by
    rw [client_path, br_read_path_sending (by decide)]
    rfl
  obtain ⟨top, htop, hbelow⟩ := hconfined _ hpath
  revert top
  decide

end fs_server
