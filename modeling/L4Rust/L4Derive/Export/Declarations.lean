import L4Rust.L4Derive.Export.ParameterList
import L4Rust.L4Derive.Export.Usage
import L4Rust.Library.Words

namespace l4_derive

open syn (Ty PathSegment PathArguments GenericArgument IdentChar)

/-- The C++ names in the text for a type. -/
def cppNames (cpp : String) : List String :=
  (Words.words (fun c => decide (IdentChar c)) cpp.toList).map String.ofList

/-- The namespace and the header of a C++ type are in the sets, if there is an entry for it. -/
def Usage.Declares (used : Usage) (name : String) : Prop :=
  ∀ usg incl, CPPTYPE2NAMESPACE.lookup name = some (usg, incl) →
    usg ∈ used.namespace_usg ∧ ∀ header, incl = some header → header ∈ used.includes

/-- The Rust types that get the name of another one in C++, and need the declaration of that. -/
def RENAMED : List (String × String) := [("Option", "Opt"), ("str", "String")]

/-- Wherever one of them is mentioned, the other one is mentioned, too, or declared anyway. -/
def RenamedDeclared (names : List String) (Given : String → Prop) : Prop :=
  ∀ rust cpp, (rust, cpp) ∈ RENAMED → rust ∈ names → cpp ∈ names ∨ Given cpp

section Names

variable {name : String} {is_output : Bool}

theorem cppNames_empty : cppNames "" = [] := rfl

theorem cppNames_append_cons (cpp : String) {c : Char} (hc : ¬ IdentChar c) (cs : List Char) :
    cppNames (cpp ++ String.ofList (c :: cs)) = cppNames cpp ++ cppNames (String.ofList cs) := by
  have hseparator : decide (IdentChar c) = false := decide_eq_false hc
  unfold cppNames
  rw [String.toList_append, String.toList_ofList, String.toList_ofList, ← List.map_append]
  exact congrArg (List.map String.ofList) (Words.words_append_cons cpp.toList cs hseparator)

theorem cppNames_ident (ident : syn.Ident) : cppNames ident.text = [ident.text] := by
  unfold cppNames
  rw [Words.words_of_forall]
  · simp
  · simpa using ident.ne_empty
  · intro c hc
    exact decide_eq_true (ident.chars c hc)

theorem mem_of_lookup {κ β : Type} [BEq κ] [LawfulBEq κ] {table : List (κ × β)} {key : κ} {value : β}
    (h : table.lookup key = some value) : (key, value) ∈ table := by
  obtain ⟨front, back, rfl, -⟩ := List.lookup_eq_some_iff.mp h
  exact List.mem_append_right _ (List.mem_cons_self ..)

/-- A name either has a translation or stays as it is. -/
theorem translate_name_cases (main : String) (is_output : Bool) :
    main ∈ RUST2CPP_TYPE.map Prod.fst ∨
      main ∉ RENAMED.map Prod.fst ∧ translate_name noMappings is_output main = main := by
  cases hlookup : RUST2CPP_TYPE.lookup main with
  | some translated => exact .inl (List.mem_map_of_mem (mem_of_lookup hlookup))
  | none =>
    right
    have hkeys : ∀ rust ∈ RENAMED.map Prod.fst ++ RUST2CPP_OUTPUT.map Prod.fst,
        (RUST2CPP_TYPE.lookup rust).isSome := by decide
    have hmain : main ∉ RENAMED.map Prod.fst ++ RUST2CPP_OUTPUT.map Prod.fst := by
      intro hmem
      have hsome := hkeys main hmem
      rw [hlookup] at hsome
      cases hsome
    obtain ⟨hrenamed, houtput⟩ := not_or.mp (mt List.mem_append.mpr hmain)
    have hlookup' : RUST2CPP_OUTPUT.lookup main = none := by
      cases h : RUST2CPP_OUTPUT.lookup main with
      | none => rfl
      | some output => exact absurd (List.mem_map_of_mem (mem_of_lookup h)) houtput
    refine ⟨hrenamed, ?_⟩
    unfold translate_name noMappings
    rw [hlookup, hlookup']
    cases is_output <;> rfl

/-- The names with an entry that the translation of a name contains: the name itself, if there is an
entry for it, and the one that it is renamed to. -/
theorem mem_cppNames_translate_name (ident : syn.Ident) {entry : String × Option String}
    (hname : (name, entry) ∈ CPPTYPE2NAMESPACE) :
    name ∈ cppNames (translate_name noMappings is_output ident.text) ↔
      ident.text = name ∨ (ident.text, name) ∈ RENAMED := by
  have hmem : name ∈ CPPTYPE2NAMESPACE.map Prod.fst := List.mem_map_of_mem hname
  obtain hkey | ⟨hrenamed, hsame⟩ := translate_name_cases ident.text is_output
  · have htable : ∀ rust ∈ RUST2CPP_TYPE.map Prod.fst, ∀ is_output, ∀ name ∈ CPPTYPE2NAMESPACE.map Prod.fst,
        (name ∈ cppNames (translate_name noMappings is_output rust) ↔ rust = name ∨ (rust, name) ∈ RENAMED) := by
      decide +kernel
    exact htable _ hkey is_output name hmem
  · have hnot : (ident.text, name) ∉ RENAMED := fun h => hrenamed (List.mem_map_of_mem h)
    rw [hsame, cppNames_ident, List.mem_singleton, eq_comm, or_iff_left hnot]

theorem chars_translate_name (ident : syn.Ident) :
    ∀ c ∈ (translate_name noMappings is_output ident.text).toList, IdentChar c ∨ c ∈ ['<', '>', ',', ' '] := by
  obtain hkey | ⟨-, hsame⟩ := translate_name_cases ident.text is_output
  · have htable : ∀ rust ∈ RUST2CPP_TYPE.map Prod.fst, ∀ is_output,
        (translate_name noMappings is_output rust).toList.all fun c =>
          decide (IdentChar c) || ['<', '>', ',', ' '].contains c := by
      decide +kernel
    intro c hc
    simpa using List.all_eq_true.mp (htable _ hkey is_output) c hc
  · rw [hsame]
    exact fun c hc => .inl (ident.chars c hc)

end Names

section Spelled

variable {name : String} {is_output : Bool} {names names' : List String} {cpp cpp' : String}

/-- A name is that of one of some Rust types, or the one that it is renamed to. -/
def Named (names : List String) (name : String) : Prop := ∃ rust ∈ names, rust = name ∨ (rust, name) ∈ RENAMED

theorem named_append : Named (names ++ names') name ↔ Named names name ∨ Named names' name := by
  simp [Named, or_and_right, exists_or]

/-- The text for types that mention some names: its characters, and the names in it with an entry. -/
structure Spelled (names : List String) (cpp : String) : Prop where
  chars : ∀ c ∈ cpp.toList, IdentChar c ∨ c ∈ ['<', '>', ',', ' ']
  names_iff : ∀ name entry, (name, entry) ∈ CPPTYPE2NAMESPACE → (name ∈ cppNames cpp ↔ Named names name)

namespace Spelled

theorem empty : Spelled [] "" where
  chars := by simp
  names_iff name _ _ := by simp [cppNames_empty, Named]

theorem append_empty (h : Spelled names cpp) (h' : Spelled names' "") : Spelled (names ++ names') cpp where
  chars := h.chars
  names_iff name entry hentry := by
    have hnone : ¬ Named names' name := by
      rw [← h'.names_iff name entry hentry, cppNames_empty]
      exact List.not_mem_nil
    rw [h.names_iff name entry hentry, named_append, or_iff_left hnone]

theorem separated (h : Spelled names cpp) (h' : Spelled names' cpp') :
    Spelled (names ++ names') (cpp ++ ", " ++ cpp') where
  chars c hc := by
    simp only [String.toList_append, List.mem_append] at hc
    obtain (hc | hc) | hc := hc
    · exact h.chars c hc
    · exact .inr (List.mem_of_mem_drop (i := 2) hc)
    · exact h'.chars c hc
  names_iff name entry hentry := by
    have htext : cpp ++ ", " ++ cpp' = cpp ++ String.ofList (',' :: ' ' :: cpp'.toList) := by
      simp [← String.toList_inj]
    have hspace : cppNames (String.ofList (' ' :: cpp'.toList)) = cppNames cpp' := by
      simpa [cppNames_empty] using cppNames_append_cons "" (c := ' ') (by decide) cpp'.toList
    rw [htext, cppNames_append_cons cpp (by decide), hspace, List.mem_append, h.names_iff name entry hentry,
      h'.names_iff name entry hentry, named_append]

theorem stripped (h : Spelled names (cpp ++ ", ")) : Spelled names cpp where
  chars c hc := h.chars c (by simp [hc])
  names_iff name entry hentry := by
    have htext : cppNames (cpp ++ ", ") = cppNames cpp := by
      have hcomma := cppNames_append_cons cpp (c := ',') (by decide) [' ']
      have hspace : cppNames (String.ofList [' ']) = [] := rfl
      rwa [hspace, List.append_nil] at hcomma
    rw [← htext]
    exact h.names_iff name entry hentry

theorem apply (h : Spelled names cpp) (h' : Spelled names' cpp') :
    Spelled (names ++ names') (cpp ++ ("<" ++ cpp' ++ ">")) where
  chars c hc := by
    simp only [String.toList_append, List.mem_append] at hc
    obtain hc | (hc | hc) | hc := hc
    · exact h.chars c hc
    · exact .inr (by simpa using Or.inl hc)
    · exact h'.chars c hc
    · exact .inr (by simpa using Or.inr (Or.inl hc))
  names_iff name entry hentry := by
    have htext : cpp ++ ("<" ++ cpp' ++ ">") = cpp ++ String.ofList ('<' :: (cpp'.toList ++ ['>'])) := by
      simp [← String.toList_inj]
    have hclose : cppNames (String.ofList (cpp'.toList ++ ['>'])) = cppNames cpp' := by
      have hlast := cppNames_append_cons cpp' (c := '>') (by decide) []
      have hempty : cppNames (String.ofList []) = [] := rfl
      rw [hempty, List.append_nil] at hlast
      rw [← hlast]
      simp
    rw [htext, cppNames_append_cons cpp (by decide), hclose, List.mem_append, h.names_iff name entry hentry,
      h'.names_iff name entry hentry, named_append]

theorem nonzero_sized (h : Spelled names cpp) : Spelled names (nonzero_sized cpp) := by
  unfold l4_derive.nonzero_sized
  split
  · rename_i hunit
    exact ⟨by simp, fun name entry hentry => by rw [← h.names_iff name entry hentry, hunit]; rfl⟩
  · exact h

theorem ofIdent (ident : syn.Ident) : Spelled [ident.text] (translate_name noMappings is_output ident.text) where
  chars := chars_translate_name ident
  names_iff name entry hentry := by
    rw [mem_cppNames_translate_name ident hentry]
    simp [Named]

theorem tokens {tokens : String} (h : translate_tokens tokens = .ok cpp) : Spelled [] cpp := by
  unfold translate_tokens at h
  dsimp only at h
  split at h
  · cases h
    exact empty
  · cases h

end Spelled

mutual

theorem spelled_of_type : {cpp : String} → (ty : Ty) → translate_type noMappings is_output ty = .ok cpp →
    Spelled (mentions ty) cpp
  | _, .Path segments, h => spelled_of_path segments h
  | _, .Tuple [] _, h => by
    cases h
    exact .empty
  | _, .Reference elem, h => spelled_of_type elem h
  | _, .Tuple (_ :: _) _, h => .tokens h
  | _, .Other _, h => .tokens h

theorem spelled_of_path : {cpp : String} → (segments : List PathSegment) →
    translate_path noMappings is_output segments = .ok cpp → Spelled (pathMentions segments) cpp
  | _, [], h => by cases h
  | _, [.mk ident arguments], h => by
    obtain ⟨applied, happlied, hcpp⟩ := bind_eq_ok_iff.mp h
    cases hcpp
    exact (spelled_of_arguments ident arguments happlied).nonzero_sized
  | _, .mk _ _ :: .mk ident arguments :: segments, h =>
    spelled_of_path (.mk ident arguments :: segments) h

theorem spelled_of_arguments : {cpp : String} → (ident : syn.Ident) → (arguments : PathArguments) →
    translate_arguments noMappings is_output arguments = .ok cpp →
    Spelled (ident.text :: argumentMentions arguments) (translate_name noMappings is_output ident.text ++ cpp)
  | _, ident, .None, h => by
    cases h
    rw [String.append_empty]
    exact .ofIdent ident
  | _, ident, .AngleBracketed args, h => by
    obtain ⟨text, htext, -⟩ := bind_eq_ok_iff.mp h
    have hspelled := spelled_of_generics args htext
    rw [translate_arguments_of_list htext] at h
    cases h
    obtain rfl | ⟨front, rfl⟩ := translate_generics_separated htext
    · rw [applied_empty, String.append_empty]
      exact (Spelled.ofIdent ident).append_empty hspelled
    · rw [applied_separated]
      exact (Spelled.ofIdent ident).apply hspelled.stripped
  | _, _, .Parenthesized _, h => by cases h

theorem spelled_of_generics : {text : String} → (args : List GenericArgument) →
    translate_generics noMappings is_output args = .ok text → Spelled (genericMentions args) text
  | _, [], h => by
    cases h
    exact .empty
  | _, .Lifetime :: args, h => by
    obtain ⟨rest, hrest, htext⟩ := bind_eq_ok_iff.mp h
    cases htext
    exact Spelled.empty.separated (spelled_of_generics args hrest)
  | _, .Type ty :: args, h => by
    obtain ⟨translated, htranslated, h⟩ := bind_eq_ok_iff.mp h
    obtain ⟨rest, hrest, htext⟩ := bind_eq_ok_iff.mp h
    cases htext
    exact (spelled_of_type ty htranslated).separated (spelled_of_generics args hrest)
  | _, .Other :: _, h => by cases h

end

end Spelled

section Sets

variable {name : String} {used : Usage}

/-- Two entries of the table have neither the namespace nor the header in common. -/
theorem entries_distinct : ∀ p ∈ CPPTYPE2NAMESPACE, ∀ q ∈ CPPTYPE2NAMESPACE,
    p.2.1 = q.2.1 ∨ p.2.2 = q.2.2 → p.1 = q.1 := by decide

theorem entries_unique : ∀ p ∈ CPPTYPE2NAMESPACE, CPPTYPE2NAMESPACE.lookup p.1 = some p.2 := by decide

theorem entries_have_header : ∀ p ∈ CPPTYPE2NAMESPACE, p.2.2 ≠ none := by decide

theorem decl_noMappings (main : String) : usage.decl noMappings main = CPPTYPE2NAMESPACE.lookup main :=
  Option.or_none

theorem declares_of_entry {usg : String} {header : String} (h : (name, usg, some header) ∈ CPPTYPE2NAMESPACE) :
    used.Declares name ↔ usg ∈ used.namespace_usg ∧ header ∈ used.includes := by
  have hlookup := entries_unique _ h
  constructor
  · intro hdeclares
    obtain ⟨husg, hheader⟩ := hdeclares usg (some header) hlookup
    exact ⟨husg, hheader header rfl⟩
  · rintro ⟨husg, hheader⟩ usg' incl' hlookup'
    rw [hlookup] at hlookup'
    cases hlookup'
    refine ⟨husg, ?_⟩
    rintro _ ⟨⟩
    exact hheader

theorem usg_mem_declare_all {usg header : String} (h : (name, usg, some header) ∈ CPPTYPE2NAMESPACE)
    (names : List String) : usg ∈ (usage.declare_all noMappings names used).namespace_usg ↔
      name ∈ names ∨ usg ∈ used.namespace_usg := by
  rw [(usage.mem_declare_all noMappings names used).1, or_comm]
  apply or_congr_left
  constructor
  · rintro ⟨main, hmain, incl, hdecl⟩
    rw [decl_noMappings] at hdecl
    have hsame : main = name := entries_distinct _ (mem_of_lookup hdecl) _ h (.inl rfl)
    exact hsame ▸ hmain
  · intro hname
    exact ⟨name, hname, some header, (decl_noMappings name).trans (entries_unique _ h)⟩

theorem header_mem_declare_all {usg header : String} (h : (name, usg, some header) ∈ CPPTYPE2NAMESPACE)
    (names : List String) : header ∈ (usage.declare_all noMappings names used).includes ↔
      name ∈ names ∨ header ∈ used.includes := by
  rw [(usage.mem_declare_all noMappings names used).2, or_comm]
  apply or_congr_left
  constructor
  · rintro ⟨main, hmain, usg', hdecl⟩
    rw [decl_noMappings] at hdecl
    have hsame : main = name := entries_distinct _ (mem_of_lookup hdecl) _ h (.inr rfl)
    exact hsame ▸ hmain
  · intro hname
    exact ⟨name, hname, usg, (decl_noMappings name).trans (entries_unique _ h)⟩

/-- After some names, the entries for these are declared, and those that were. -/
theorem declares_declare_all (names : List String) {entry : String × Option String}
    (h : (name, entry) ∈ CPPTYPE2NAMESPACE) :
    (usage.declare_all noMappings names used).Declares name ↔ name ∈ names ∨ used.Declares name := by
  obtain ⟨usg, incl⟩ := entry
  obtain ⟨header, rfl⟩ := Option.ne_none_iff_exists'.mp (entries_have_header _ h)
  rw [declares_of_entry h, declares_of_entry h, usg_mem_declare_all h, header_mem_declare_all h, or_and_left]

end Sets

/-- All names of some Rust types are declared exactly if those that the renamed ones get are. -/
theorem forall_named_iff {names : List String} {Given : String → Prop} :
    (∀ name entry, (name, entry) ∈ CPPTYPE2NAMESPACE → Named names name → name ∈ names ∨ Given name) ↔
      RenamedDeclared names Given := by
  constructor
  · intro h rust cpp hrenamed hrust
    have hentry : ∀ p ∈ RENAMED, (CPPTYPE2NAMESPACE.lookup p.2).isSome := by decide
    obtain ⟨entry, hlookup⟩ := Option.isSome_iff_exists.mp (hentry _ hrenamed)
    exact h cpp entry (mem_of_lookup hlookup) ⟨rust, hrust, .inr hrenamed⟩
  · rintro h name entry - ⟨rust, hrust, rfl | hrenamed⟩
    · exact .inl hrust
    · exact h rust name hrenamed hrust

/-- A translation declares all names in its text exactly if the renamed types that it mentions are
declared under their new names, by another type or before. -/
theorem translate_type_declares_iff {is_output : Bool} {ty : Ty} {used used' : Usage} {cpp : String}
    (h : usage.translate_type noMappings is_output ty used = .ok cpp used') :
    (∀ name ∈ cppNames cpp, used'.Declares name) ↔ RenamedDeclared (mentions ty) used.Declares := by
  obtain ⟨hcpp, rfl⟩ := (usage.translate_type_collects ty).ok_iff.mp h
  rw [← forall_named_iff]
  have hspelled := spelled_of_type ty hcpp
  constructor
  · intro hall name entry hentry hnamed
    exact (declares_declare_all _ hentry).mp (hall name ((hspelled.names_iff name entry hentry).mpr hnamed))
  · intro hall name hname usg incl hlookup
    have hentry := mem_of_lookup hlookup
    have hdeclared := hall name _ hentry ((hspelled.names_iff name _ hentry).mp hname)
    exact (declares_declare_all _ hentry).mpr hdeclared usg incl hlookup

end l4_derive
