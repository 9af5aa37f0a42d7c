import Mathlib

namespace Paths

variable {α : Type}

/-- A component of a path: one that changes nothing, the parent directory, or a name. -/
inductive Component (α : Type) where
  | here
  | up
  | name (a : α)
  deriving DecidableEq, Repr

/-- A path relative to some directory, without any detours: so many directories up, and then
down the names, of which the last one comes first. -/
structure Resolved (α : Type) where
  ups : Nat
  names : List α
  deriving DecidableEq, Repr

def Resolved.step (r : Resolved α) : Component α → Resolved α
  | .here => r
  | .up =>
    match r.names with
    | [] => { r with ups := r.ups + 1 }
    | _ :: names => { r with names := names }
  | .name a => { r with names := a :: r.names }

def Resolved.walk (r : Resolved α) (path : List (Component α)) : Resolved α := path.foldl step r

/-- The lexical resolution of a path. -/
def resolve (path : List (Component α)) : Resolved α := Resolved.walk ⟨0, []⟩ path

/-- The path leads to a directory or a file, or into it. -/
def Resolved.Below (r : Resolved α) (top : α) : Prop := r.ups = 0 ∧ r.names.getLast? = some top

instance [DecidableEq α] (r : Resolved α) (top : α) : Decidable (r.Below top) :=
  inferInstanceAs (Decidable (_ ∧ _))

def Component.rise : Component α → Int
  | .here => 0
  | .up => -1
  | .name _ => 1

/-- How many more names than parents there are. -/
def net (path : List (Component α)) : Int := (path.map Component.rise).sum

theorem net_append (path path' : List (Component α)) : net (path ++ path') = net path + net path' := by
  rw [net, net, net, List.map_append, List.sum_append]

theorem net_concat (path : List (Component α)) (c : Component α) :
    net (path ++ [c]) = net path + c.rise := by
  rw [net_append]
  simp [net]

/-- Nowhere along the path are there more parents than names. -/
def Inside (path : List (Component α)) : Prop := ∀ pre, pre <+: path → 0 ≤ net pre

theorem inside_nil : Inside ([] : List (Component α)) := by
  intro pre hpre
  rw [List.prefix_nil.mp hpre]
  exact le_rfl

theorem inside_concat {path : List (Component α)} {c : Component α} :
    Inside (path ++ [c]) ↔ Inside path ∧ 0 ≤ net path + c.rise := by
  constructor
  · intro h
    refine ⟨fun pre hpre => h pre (hpre.trans (List.prefix_append _ _)), ?_⟩
    rw [← net_concat]
    exact h _ (List.prefix_refl _)
  · rintro ⟨hpath, hlast⟩ pre hpre
    rcases List.prefix_concat_iff.mp hpre with rfl | hpre
    · rw [net_concat]
      exact hlast
    · exact hpath pre hpre

theorem Inside.net_nonneg {path : List (Component α)} (h : Inside path) : 0 ≤ net path :=
  h path (List.prefix_refl _)

theorem Resolved.walk_concat (r : Resolved α) (path : List (Component α)) (c : Component α) :
    r.walk (path ++ [c]) = (r.walk path).step c := by
  rw [walk, List.foldl_append]
  rfl

theorem Resolved.walk_append (r : Resolved α) (path path' : List (Component α)) :
    r.walk (path ++ path') = (r.walk path).walk path' := List.foldl_append

/-- A path that stays inside adds its names to where it starts. -/
theorem Resolved.walk_inside (r : Resolved α) {path : List (Component α)} (h : Inside path) :
    ∃ names, r.walk path = ⟨r.ups, names ++ r.names⟩ ∧ (names.length : Int) = net path := by
  induction path using List.reverseRecOn with
  | nil => exact ⟨[], rfl, rfl⟩
  | append_singleton path c ih =>
    obtain ⟨hpath, hlast⟩ := inside_concat.mp h
    obtain ⟨names, hwalk, hlength⟩ := ih hpath
    rw [walk_concat, hwalk, net_concat]
    cases c with
    | here => exact ⟨names, rfl, by simp [Component.rise, hlength]⟩
    | up =>
      cases names with
      | nil =>
        simp only [Component.rise, List.length_nil] at hlast hlength
        omega
      | cons a names =>
        refine ⟨names, rfl, ?_⟩
        simp only [Component.rise, List.length_cons] at hlength ⊢
        omega
    | name a =>
      refine ⟨a :: names, rfl, ?_⟩
      simp only [Component.rise, List.length_cons] at hlength ⊢
      omega

/-- What has been left upwards is never entered again. -/
theorem Resolved.ups_le_walk (r : Resolved α) (path : List (Component α)) :
    r.ups ≤ (r.walk path).ups := by
  induction path using List.reverseRecOn with
  | nil => exact le_rfl
  | append_singleton path c ih =>
    rw [walk_concat]
    refine ih.trans ?_
    generalize r.walk path = r'
    obtain ⟨ups, names⟩ := r'
    cases c with
    | here | name a => exact le_rfl
    | up =>
      cases names with
      | nil => exact Nat.le_succ _
      | cons a names => exact le_rfl

/-- A path that is back where it started stays inside and adds nothing. -/
theorem resolve_of_balanced {path : List (Component α)} (h : Inside path) (hnet : net path = 0) :
    resolve path = ⟨0, []⟩ := by
  obtain ⟨names, hwalk, hlength⟩ := Resolved.walk_inside ⟨0, []⟩ h
  have hnil : names = [] := List.eq_nil_of_length_eq_zero (by omega)
  rw [resolve, hwalk, hnil]
  rfl

/-- A path stays inside if it is resolved without going up. -/
theorem inside_of_ups_eq_zero {path : List (Component α)} (h : (resolve path).ups = 0) :
    Inside path := by
  induction path using List.reverseRecOn with
  | nil => exact inside_nil
  | append_singleton path c ih =>
    have hsplit : resolve (path ++ [c]) = (resolve path).walk [c] := Resolved.walk_append _ _ _
    have hpath : Inside path := by
      apply ih
      have hle := (resolve path).ups_le_walk [c]
      rw [← hsplit, h] at hle
      exact Nat.le_zero.mp hle
    refine inside_concat.mpr ⟨hpath, ?_⟩
    have hnonneg := hpath.net_nonneg
    cases c with
    | here | name a =>
      simp only [Component.rise]
      omega
    | up =>
      simp only [Component.rise]
      by_contra hneg
      rw [hsplit, resolve_of_balanced hpath (by omega)] at h
      cases h

/-- A path leads below a name if, apart from a part that comes back to where it started, it
goes down that name and stays inside from there on. -/
def Enters (path : List (Component α)) (top : α) : Prop :=
  ∃ pre post, path = pre ++ .name top :: post ∧ Inside pre ∧ net pre = 0 ∧ Inside post

/-- A path that stays inside comes back to where it started or leads below a name. -/
theorem balanced_or_enters {path : List (Component α)} (h : Inside path) :
    net path = 0 ∨ ∃ top, Enters path top := by
  induction path using List.reverseRecOn with
  | nil => exact Or.inl rfl
  | append_singleton path c ih =>
    obtain ⟨hpath, hlast⟩ := inside_concat.mp h
    rw [net_concat]
    rcases ih hpath with hnet | ⟨top, pre, post, rfl, hpre, hnet, hpost⟩
    · cases c with
      | here => exact Or.inl (by rw [hnet]; rfl)
      | up =>
        simp only [Component.rise] at hlast
        omega
      | name a => exact Or.inr ⟨a, path, [], rfl, hpath, hnet, inside_nil⟩
    · by_cases hends : net post + c.rise < 0
      · left
        have hnonneg := hpost.net_nonneg
        have hup : c.rise = -1 := by
          cases c with
          | here | name a =>
            simp only [Component.rise] at hends
            omega
          | up => rfl
        have hsum : net (pre ++ .name top :: post) = net pre + (1 + net post) := by
          rw [net_append]
          simp [net, Component.rise]
        omega
      · refine Or.inr ⟨top, pre, post ++ [c], by simp, hpre, hnet, ?_⟩
        exact inside_concat.mpr ⟨hpost, not_lt.mp hends⟩

theorem below_of_enters {path : List (Component α)} {top : α} (h : Enters path top) :
    (resolve path).Below top := by
  obtain ⟨pre, post, rfl, hpre, hnet, hpost⟩ := h
  have hstart : (resolve pre).walk (.name top :: post) = Resolved.walk ⟨0, [top]⟩ post := by
    rw [resolve_of_balanced hpre hnet]
    rfl
  obtain ⟨names, hwalk, -⟩ := Resolved.walk_inside ⟨0, [top]⟩ hpost
  rw [resolve, Resolved.walk_append]
  rw [resolve] at hstart
  rw [hstart, hwalk]
  exact ⟨rfl, by simp⟩

/-- A path is resolved to one below a name if and only if it enters that. -/
theorem below_iff_enters {path : List (Component α)} {top : α} :
    (resolve path).Below top ↔ Enters path top := by
  refine ⟨fun h => ?_, below_of_enters⟩
  have hinside := inside_of_ups_eq_zero h.1
  rcases balanced_or_enters hinside with hnet | ⟨top', henters⟩
  · rw [resolve_of_balanced hinside hnet] at h
    cases h.2
  · have hsame := (below_of_enters henters).2
    rw [h.2] at hsame
    rw [Option.some.inj hsame]
    exact henters

/-- A path that does not stay inside leaves by a parent that follows a part which is back where it
started. -/
theorem exits_of_not_inside {path : List (Component α)} (h : ¬ Inside path) :
    ∃ pre post, path = pre ++ .up :: post ∧ Inside pre ∧ net pre = 0 := by
  induction path using List.reverseRecOn with
  | nil => exact absurd inside_nil h
  | append_singleton path c ih =>
    by_cases hpath : Inside path
    · have hlast : net path + c.rise < 0 := by
        by_contra hnonneg
        exact h (inside_concat.mpr ⟨hpath, not_lt.mp hnonneg⟩)
      have hnonneg := hpath.net_nonneg
      cases c with
      | here | name a =>
        simp only [Component.rise] at hlast
        omega
      | up =>
        simp only [Component.rise] at hlast
        exact ⟨path, [], rfl, hpath, by omega⟩
    · obtain ⟨pre, post, rfl, hpre, hnet⟩ := ih hpath
      exact ⟨pre, post ++ [c], by simp, hpre, hnet⟩

theorem resolve_of_exit {pre post : List (Component α)} {a : α} (hpre : Inside pre)
    (hnet : net pre = 0) : resolve (.name a :: (pre ++ .up :: post)) = resolve post := by
  obtain ⟨names, hwalk, hlength⟩ := Resolved.walk_inside ⟨0, [a]⟩ hpre
  have hnil : names = [] := List.eq_nil_of_length_eq_zero (by omega)
  have hstart : resolve (.name a :: (pre ++ .up :: post)) =
      Resolved.walk (Resolved.walk ⟨0, [a]⟩ pre) (.up :: post) := Resolved.walk_append _ _ _
  rw [hstart, hwalk, hnil]
  rfl

/-- A path that starts with a name leads below that if it stays inside from there on; once it has
left, it leads where the rest of it leads. -/
theorem enters_cons {rest : List (Component α)} {a top : α} :
    Enters (.name a :: rest) top ↔ (top = a ∧ Inside rest) ∨
      ∃ pre post, rest = pre ++ .up :: post ∧ Inside pre ∧ net pre = 0 ∧ Enters post top := by
  constructor
  · intro h
    by_cases hrest : Inside rest
    · left
      have henters : Enters (.name a :: rest) a := ⟨[], rest, rfl, inside_nil, rfl, hrest⟩
      have hbelow := below_of_enters henters
      have hsame := (below_of_enters h).2
      rw [hbelow.2] at hsame
      exact ⟨(Option.some.inj hsame).symm, hrest⟩
    · right
      obtain ⟨pre, post, rfl, hpre, hnet⟩ := exits_of_not_inside hrest
      refine ⟨pre, post, rfl, hpre, hnet, ?_⟩
      rw [← below_iff_enters, resolve_of_exit hpre hnet] at h
      exact below_iff_enters.mp h
  · rintro (⟨rfl, hrest⟩ | ⟨pre, post, rfl, hpre, hnet, hpost⟩)
    · exact ⟨[], rest, rfl, inside_nil, rfl, hrest⟩
    · rw [← below_iff_enters, resolve_of_exit hpre hnet]
      exact below_of_enters hpost

end Paths
