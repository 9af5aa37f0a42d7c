import Mathlib

namespace Codes

variable {α β : Type}

/-- A code of which every word begins with a symbol that no word goes on with, and which tells how
long the word is. -/
structure SelfDelimiting (code : α → List β) (start : β → Prop) : Prop where
  ne_nil : ∀ a, code a ≠ []
  start_iff : ∀ a i b, (code a)[i]? = some b → (start b ↔ i = 0)
  length_eq : ∀ a a', (code a).head? = (code a').head? → (code a).length = (code a').length

namespace SelfDelimiting

variable {code : α → List β} {start : β → Prop}

/-- Words that begin with the same symbol and are in the same place are the same. -/
theorem word_eq (h : SelfDelimiting code start) {a a' : α} {rest rest' : List β}
    (hsame : code a ++ rest = code a' ++ rest') : code a = code a' ∧ rest = rest' := by
  apply List.append_inj hsame
  apply h.length_eq
  have hhead := congrArg List.head? hsame
  rwa [List.head?_append_of_ne_nil _ (h.ne_nil a), List.head?_append_of_ne_nil _ (h.ne_nil a')] at hhead

/-- Behind some words there are words in a sequence of words. -/
theorem exists_rest (h : SelfDelimiting code start) {front all : List α} {rest : List β}
    (hsame : front.flatMap code ++ rest = all.flatMap code) : ∃ back : List α, rest = back.flatMap code := by
  induction front generalizing all with
  | nil => exact ⟨all, hsame⟩
  | cons a front ih =>
    rw [List.flatMap_cons, List.append_assoc] at hsame
    cases all with
    | nil => exact absurd (List.append_eq_nil_iff.mp hsame).1 (h.ne_nil a)
    | cons a' all => exact ih (h.word_eq hsame).2

/-- What begins a sequence of words is a start symbol. -/
theorem start_of_head (h : SelfDelimiting code start) {all : List α} {b : β}
    (hb : (all.flatMap code).head? = some b) : start b := by
  cases all with
  | nil => cases hb
  | cons a all =>
    rw [List.flatMap_cons, List.head?_append_of_ne_nil _ (h.ne_nil a), List.head?_eq_getElem?] at hb
    exact (h.start_iff a 0 b hb).mpr rfl

theorem not_start_of_mem_tail (h : SelfDelimiting code start) {a : α} {b : β} (hb : b ∈ (code a).tail) :
    ¬ start b := by
  obtain ⟨i, hi⟩ := List.mem_iff_getElem?.mp hb
  rw [List.getElem?_tail] at hi
  rw [h.start_iff a (i + 1) b hi]
  exact Nat.succ_ne_zero i

/-- Where the symbols that are no starts end is the same in two lists that are the same. -/
theorem tails_eq {s s' rest rest' : List β} (hs : ∀ b ∈ s, ¬ start b) (hs' : ∀ b ∈ s', ¬ start b)
    (hrest : ∀ b, rest.head? = some b → start b) (hrest' : ∀ b, rest'.head? = some b → start b)
    (hsame : s ++ rest = s' ++ rest') : s = s' := by
  induction s generalizing s' with
  | nil =>
    cases s' with
    | nil => rfl
    | cons b s' =>
      rw [List.nil_append] at hsame
      exact absurd (hrest b (by rw [hsame]; rfl)) (hs' b (List.mem_cons_self ..))
  | cons b s ih =>
    cases s' with
    | nil =>
      rw [List.nil_append] at hsame
      exact absurd (hrest' b (by rw [← hsame]; rfl)) (hs b (List.mem_cons_self ..))
    | cons b' s' =>
      obtain ⟨rfl, htail⟩ := List.cons.inj hsame
      rw [ih (fun b hb => hs b (List.mem_cons_of_mem _ hb)) (fun b hb => hs' b (List.mem_cons_of_mem _ hb))
        htail]

/-- A word with one symbol replaced makes a sequence of words with others behind it exactly when
it is a word again. -/
theorem set_append_iff (h : SelfDelimiting code start) (a : α) (k : Nat) (b : β) (back : List α) :
    (∃ all : List α, (code a).set k b ++ back.flatMap code = all.flatMap code) ↔
      ∃ a', (code a).set k b = code a' := by
  constructor
  · rintro ⟨all, hall⟩
    cases all with
    | nil =>
      have hnil := List.append_eq_nil_iff.mp hall
      rw [List.set_eq_nil_iff] at hnil
      exact absurd hnil.1 (h.ne_nil a)
    | cons a' all =>
      refine ⟨a', ?_⟩
      rw [List.flatMap_cons] at hall
      obtain ⟨s, w, hw⟩ := List.exists_cons_of_ne_nil (h.ne_nil a)
      obtain ⟨s', w', hw'⟩ := List.exists_cons_of_ne_nil (h.ne_nil a')
      cases k with
      | zero =>
        -- The symbols that are no starts go on to the end of the word in both.
        rw [hw, hw'] at hall ⊢
        obtain ⟨rfl, htail⟩ := List.cons.inj hall
        have htails : ∀ b ∈ w, ¬ start b := fun b hb => h.not_start_of_mem_tail (a := a) (by rw [hw]; exact hb)
        have htails' : ∀ b ∈ w', ¬ start b := fun b hb =>
          h.not_start_of_mem_tail (a := a') (by rw [hw']; exact hb)
        rw [List.set_cons_zero, tails_eq htails htails' (fun b => h.start_of_head) (fun b => h.start_of_head) htail]
      | succ k =>
        -- The first symbol has been kept, and it tells the length.
        refine (List.append_inj hall ?_).1
        rw [List.length_set]
        apply h.length_eq
        rw [hw, hw'] at hall ⊢
        rw [List.set_cons_succ] at hall
        rw [(List.cons.inj hall).1]
        rfl
  · rintro ⟨a', ha'⟩
    refine ⟨a' :: back, ?_⟩
    rw [ha', List.flatMap_cons]

/-- The same with words in front of it. -/
theorem set_iff (h : SelfDelimiting code start) (front : List α) (a : α) (k : Nat) (b : β) (back : List α) :
    (∃ all : List α, front.flatMap code ++ ((code a).set k b ++ back.flatMap code) = all.flatMap code) ↔
      ∃ a', (code a).set k b = code a' := by
  rw [← h.set_append_iff a k b back]
  constructor
  · rintro ⟨all, hall⟩
    exact h.exists_rest hall
  · rintro ⟨all, hall⟩
    refine ⟨front ++ all, ?_⟩
    rw [hall, List.flatMap_append]

end SelfDelimiting

/-- Every symbol of a sequence of words is in one of them. -/
theorem exists_word {code : α → List β} {all : List α} {i : Nat} (hi : i < (all.flatMap code).length) :
    ∃ front a back k, all = front ++ a :: back ∧ i = (front.flatMap code).length + k ∧
      k < (code a).length := by
  induction all generalizing i with
  | nil => exact absurd hi (Nat.not_lt_zero i)
  | cons a all ih =>
    rw [List.flatMap_cons, List.length_append] at hi
    by_cases hword : i < (code a).length
    · exact ⟨[], a, all, i, rfl, by simp, hword⟩
    · obtain ⟨front, a', back, k, hall, hik, hk⟩ := ih (i := i - (code a).length) (by omega)
      refine ⟨a :: front, a', back, k, by rw [hall]; rfl, ?_, hk⟩
      rw [List.flatMap_cons, List.length_append]
      omega

end Codes
