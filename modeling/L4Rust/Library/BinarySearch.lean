import Mathlib
import L4Rust.Library.Lists

/-- What a binary search promises: in a sorted list it finds a position that
splits the list at the key. Which of several equal keys it finds is left open. -/
structure BinarySearch (κ : Type) [LinearOrder κ] where
  position : List κ → κ → Nat
  position_le : ∀ (keys : List κ) (key : κ), position keys key ≤ keys.length
  le_key : ∀ (keys : List κ) (key : κ), keys.Pairwise (· ≤ ·) →
    ∀ a ∈ keys.take (position keys key), a ≤ key
  key_le : ∀ (keys : List κ) (key : κ), keys.Pairwise (· ≤ ·) →
    ∀ b ∈ keys.drop (position keys key), key ≤ b

namespace BinarySearch

variable {κ : Type} [LinearOrder κ] {keys : List κ} {key : κ}

/-- The loop of the standard library: halve the window until one element is
left, and keep the upper half unless its first element is beyond the key. -/
def narrow (keys : List κ) (key : κ) : Nat → Nat → Nat → Nat
  | 0, base, _ => base
  | fuel + 1, base, size =>
    if 1 < size then
      let half := size / 2
      let mid := base + half
      match keys[mid]? with
      | some k => narrow keys key fuel (if key < k then base else mid) (size - half)
      | none => base
    else base

/-- The position of an element that equals the key, or where the key belongs. -/
def binary_search (keys : List κ) (key : κ) : Nat :=
  let base := narrow keys key keys.length 0 keys.length
  match keys[base]? with
  | none => 0
  | some k => if k = key then base else if k < key then base + 1 else base

/-- The key is in the window: what lies before is not beyond the key, unless the
window starts the list, and what lies behind is. -/
structure Window (keys : List κ) (key : κ) (base size : Nat) : Prop where
  size_pos : 0 < size
  le_length : base + size ≤ keys.length
  base_le : base = 0 ∨ ∀ k, keys[base]? = some k → k ≤ key
  lt_behind : ∀ i k, base + size ≤ i → keys[i]? = some k → key < k

theorem getElem?_mono (hsorted : keys.Pairwise (· ≤ ·)) {i j : Nat} {a b : κ} (hij : i ≤ j)
    (ha : keys[i]? = some a) (hb : keys[j]? = some b) : a ≤ b := by
  obtain ⟨hi, rfl⟩ := List.getElem?_eq_some_iff.mp ha
  obtain ⟨hj, rfl⟩ := List.getElem?_eq_some_iff.mp hb
  rcases Nat.eq_or_lt_of_le hij with rfl | hlt
  · exact le_rfl
  · exact List.pairwise_iff_getElem.mp hsorted i j hi hj hlt

theorem Window.lower {base size half : Nat} (hsorted : keys.Pairwise (· ≤ ·))
    (h : Window keys key base size) (hhalf : half < size) (hle : half ≤ size - half) {k : κ}
    (hk : keys[base + half]? = some k) (hlt : key < k) : Window keys key base (size - half) where
  size_pos := by omega
  le_length := by
    have hlen := h.le_length
    omega
  base_le := h.base_le
  lt_behind := by
    intro i k' hi hk'
    exact lt_of_lt_of_le hlt (getElem?_mono hsorted (by omega) hk hk')

theorem Window.upper {base size half : Nat} (h : Window keys key base size) (hhalf : half < size)
    {k : κ} (hk : keys[base + half]? = some k) (hle : k ≤ key) :
    Window keys key (base + half) (size - half) where
  size_pos := by omega
  le_length := by
    have hlen := h.le_length
    omega
  base_le := by
    refine Or.inr fun k' hk' => ?_
    rw [hk] at hk'
    cases hk'
    exact hle
  lt_behind := by
    intro i k' hi hk'
    exact h.lt_behind i k' (by omega) hk'

/-- The loop ends with a window of one element. -/
theorem narrow_window (hsorted : keys.Pairwise (· ≤ ·)) {fuel base size : Nat} (hfuel : size ≤ fuel)
    (h : Window keys key base size) : Window keys key (narrow keys key fuel base size) 1 := by
  induction fuel generalizing base size with
  | zero =>
    have hpos := h.size_pos
    omega
  | succ fuel ih =>
    have hlen := h.le_length
    unfold narrow
    split
    · next hsize =>
      have hlt : base + size / 2 < keys.length := by omega
      dsimp only
      rw [List.getElem?_eq_getElem hlt]
      dsimp only
      split
      · next hkey =>
        exact ih (by omega) (h.lower hsorted (by omega) (by omega) (List.getElem?_eq_getElem hlt) hkey)
      · next hkey =>
        exact ih (by omega) (h.upper (by omega) (List.getElem?_eq_getElem hlt) (le_of_not_gt hkey))
    · next hsize =>
      have hone : size = 1 := by
        have hpos := h.size_pos
        omega
      rw [← hone]
      exact h

theorem binary_search_le (keys : List κ) (key : κ) : binary_search keys key ≤ keys.length := by
  unfold binary_search
  dsimp only
  cases hbase : keys[narrow keys key keys.length 0 keys.length]? with
  | none => exact Nat.zero_le _
  | some k =>
    obtain ⟨hlt, _⟩ := List.getElem?_eq_some_iff.mp hbase
    dsimp only
    split
    · omega
    · split <;> omega

/-- In a sorted list the position found splits the list at the key. -/
theorem binary_search_splits (hsorted : keys.Pairwise (· ≤ ·)) (key : κ) {i : Nat} {a : κ}
    (ha : keys[i]? = some a) :
    (i < binary_search keys key → a ≤ key) ∧ (binary_search keys key ≤ i → key ≤ a) := by
  obtain ⟨hi, _⟩ := List.getElem?_eq_some_iff.mp ha
  have hstart : Window keys key 0 keys.length := by
    refine ⟨by omega, by omega, Or.inl rfl, ?_⟩
    intro j k hj hk
    obtain ⟨hlt, _⟩ := List.getElem?_eq_some_iff.mp hk
    omega
  have hend := narrow_window hsorted (Nat.le_refl _) hstart
  unfold binary_search
  dsimp only
  generalize narrow keys key keys.length 0 keys.length = base at hend ⊢
  have hlt : base < keys.length := hend.le_length
  have hk := List.getElem?_eq_getElem hlt
  rw [hk]
  dsimp only
  split
  · next heq =>
    rw [← heq]
    exact ⟨fun h => getElem?_mono hsorted (Nat.le_of_lt h) ha hk, fun h => getElem?_mono hsorted h hk ha⟩
  split
  · next hless =>
    refine ⟨fun h => ?_, fun h => (hend.lt_behind i a h ha).le⟩
    exact (getElem?_mono hsorted (Nat.le_of_lt_succ h) ha hk).trans hless.le
  · next hne hless =>
    -- An element beyond the key can only be left over at the start of the list.
    have hzero : base = 0 := by
      rcases hend.base_le with hzero | hle
      · exact hzero
      · exact absurd (lt_of_le_of_ne (hle _ hk) hne) hless
    refine ⟨fun h => by omega, fun h => ?_⟩
    exact (le_of_not_gt hless).trans (getElem?_mono hsorted h hk ha)

variable {α : Type}

/-- Inserting where the search points puts an element between those that may
come before it and those that may come after it. -/
theorem insertIdx_splits (search : BinarySearch κ) (f : α → κ) (xs : List α) (a : α) :
    ∃ front back, xs = front ++ back ∧
      xs.insertIdx (search.position (xs.map f) (f a)) a = front ++ a :: back ∧
      (xs.Pairwise (fun b c => f b ≤ f c) → (∀ b ∈ front, f b ≤ f a) ∧ ∀ b ∈ back, f a ≤ f b) := by
  have hle : search.position (xs.map f) (f a) ≤ xs.length := by
    simpa using search.position_le (xs.map f) (f a)
  refine ⟨xs.take _, xs.drop _, (List.take_append_drop _ xs).symm,
    Lists.insertIdx_eq_take_drop hle a, ?_⟩
  intro hsorted
  have hkeys : (xs.map f).Pairwise (· ≤ ·) := List.pairwise_map.mpr hsorted
  constructor
  · intro b hb
    apply search.le_key _ (f a) hkeys
    rw [← List.map_take]
    exact List.mem_map_of_mem hb
  · intro b hb
    apply search.key_le _ (f a) hkeys
    rw [← List.map_drop]
    exact List.mem_map_of_mem hb

/-- In particular a sorted list stays sorted. -/
theorem pairwise_insert {f : α → κ} {front back : List α} {a : α}
    (hsorted : (front ++ back).Pairwise (fun b c => f b ≤ f c)) (hfront : ∀ b ∈ front, f b ≤ f a)
    (hback : ∀ b ∈ back, f a ≤ f b) : (front ++ a :: back).Pairwise (fun b c => f b ≤ f c) := by
  obtain ⟨hf, hb, hcross⟩ := List.pairwise_append.mp hsorted
  refine List.pairwise_append.mpr ⟨hf, List.pairwise_cons.mpr ⟨hback, hb⟩, ?_⟩
  intro b hbf c hc
  rcases List.mem_cons.mp hc with rfl | hc
  · exact hfront b hbf
  · exact hcross b hbf c hc

/-- The search of the standard library. -/
def std : BinarySearch κ where
  position := binary_search
  position_le := binary_search_le
  le_key := by
    intro keys key hsorted a ha
    obtain ⟨i, hi, rfl⟩ := List.mem_take_iff_getElem.mp ha
    have hlt : i < keys.length := by omega
    exact (binary_search_splits hsorted key (List.getElem?_eq_getElem hlt)).1 (by omega)
  key_le := by
    intro keys key hsorted b hb
    obtain ⟨i, hi, rfl⟩ := List.mem_drop_iff_getElem.mp hb
    have hlt : binary_search keys key + i < keys.length := by omega
    exact (binary_search_splits hsorted key (List.getElem?_eq_getElem hlt)).2 (Nat.le_add_right _ _)

end BinarySearch
