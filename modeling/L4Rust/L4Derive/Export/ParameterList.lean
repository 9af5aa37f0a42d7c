import L4Rust.L4Derive.Export.RpcMethod

namespace l4_derive

open FreshNames

/-- The keywords of C++, which are no identifiers. -/
def CPP_KEYWORDS : List String := [
  "alignas", "alignof", "and", "and_eq", "asm", "auto", "bitand", "bitor", "bool", "break", "case", "catch",
  "char", "char8_t", "char16_t", "char32_t", "class", "compl", "concept", "const", "consteval", "constexpr",
  "constinit", "const_cast", "continue", "co_await", "co_return", "co_yield", "decltype", "default",
  "delete", "do", "double", "dynamic_cast", "else", "enum", "explicit", "export", "extern", "false", "float",
  "for", "friend", "goto", "if", "inline", "int", "long", "mutable", "namespace", "new", "noexcept", "not",
  "not_eq", "nullptr", "operator", "or", "or_eq", "private", "protected", "public", "register",
  "reinterpret_cast", "requires", "return", "short", "signed", "sizeof", "static", "static_assert",
  "static_cast", "struct", "switch", "template", "this", "thread_local", "throw", "true", "try", "typedef",
  "typeid", "typename", "union", "unsigned", "using", "virtual", "void", "volatile", "wchar_t", "while", "xor",
  "xor_eq"]

section Identifiers

-- The characters beyond ASCII that may begin an identifier, and that may stand in one.
variable (xid_start xid_continue : Char → Bool)

def StartsIdentifier (c : Char) : Prop := c.isAlpha ∨ c = '_' ∨ (128 ≤ c.val ∧ xid_start c)

def ContinuesIdentifier (c : Char) : Prop :=
  c.isAlphanum ∨ c = '_' ∨ (128 ≤ c.val ∧ xid_continue c)

/-- A name that is an identifier in C++. -/
def IsCppIdentifier (name : String) : Prop :=
  name ∉ CPP_KEYWORDS ∧ ∃ first rest, name.toList = first :: rest ∧ StartsIdentifier xid_start first ∧
    ∀ c ∈ rest, ContinuesIdentifier xid_continue c

end Identifiers

/-- Entries with commas in between. -/
def comma_separated : List String → String
  | [] => ""
  | [entry] => entry
  | entry :: next :: entries => entry ++ ", " ++ comma_separated (next :: entries)

/-- A parameter. -/
def entry (ty name : String) : String := ty ++ " " ++ name

/-- A declaration with a parameter of each type. -/
def declaration (ident : String) (types names : List String) : String :=
  "  L4_INLINE_RPC(int, " ++ ident ++ ", (" ++ comma_separated (List.zipWith entry types names) ++ "));\n"

namespace syn

/-- The name that an argument is given. -/
def FnArg.given : FnArg → Option String
  | .Captured (.Ident ident) _ => some ident.text
  | _ => none

/-- A way to write the unit type. -/
def Ty.isUnit : Ty → Bool
  | .Tuple [] _ => true
  | .Other tokens => tokens.toList.filter (fun c => !Text.is_whitespace c) = ['(', ')']
  | _ => false

namespace TraitItemMethod

variable (m : TraitItemMethod)

/-- The arguments behind `self`. -/
def args : List FnArg := m.inputs.tail

/-- The method with the return type that `enumerate_iface_methods` leaves. -/
def enumerated : TraitItemMethod := { m with output := some m.ret }

/-- What names are asked for: one for each argument, and one for the result if there is one. -/
def requests : List (Option String) := m.args.map FnArg.given ++ if m.ret.isUnit then [] else [none]

end TraitItemMethod

end syn

/-- An argument of a type that is not a unit type and has a translation. -/
def Translates (ty_mappings : TypeMappings) (arg : syn.FnArg) (ty : String) : Prop :=
  ty ≠ "" ∧ ∃ name argtype, arg_name_type arg = some (.ok (name, argtype)) ∧
    translate_type ty_mappings false argtype = .ok ty

/-- The text is a declaration with a parameter of each type, under different names that are
identifiers. -/
def Declares (xid_start xid_continue : Char → Bool) (ident : String) (types : List String)
    (cpp : String) : Prop :=
  ∃ names, cpp = declaration ident types names ∧ names.length = types.length ∧ names.Nodup ∧
    ∀ name ∈ names, IsCppIdentifier xid_start xid_continue name

/-- There is one parameter for each argument, and a reference for the result unless that is of the
unit type. -/
def WellFormed (xid_start xid_continue : Char → Bool) (m : syn.TraitItemMethod) (types : List String)
    (ret cpp : String) : Prop :=
  (m.ret.isUnit = false → ret ≠ "") ∧
    Declares xid_start xid_continue m.ident.text (types ++ if m.ret.isUnit then [] else [ret ++ "&"]) cpp

/-- The result is not the only parameter and has a type, the names that are given are identifiers, and
the first 26 letters suffice for the others and are not given behind them. -/
structure NamesFit (xid_start xid_continue : Char → Bool) (m : syn.TraitItemMethod) (ret : String) :
    Prop where
  result : m.ret.isUnit = false → ret ≠ "" ∧ m.args ≠ []
  given : ∀ name, some name ∈ m.requests → IsCppIdentifier xid_start xid_continue name
  fits : Fits letter 26 m.requests

theorem toList_letter (k : Nat) : (letter k).toList = [Char.ofNat (97 + k)] := String.toList_singleton _

theorem toNat_letter {k : Nat} (hk : k < VARS) : (Char.ofNat (97 + k)).toNat = 97 + k := by
  have hsmall : 97 + k < 0xd800 := by
    unfold VARS at hk
    omega
  have hvalid : (97 + k).isValidChar := .inl hsmall
  rw [Char.toNat_ofNat, if_pos hvalid]

theorem letter_injOn : Set.InjOn letter (Set.Iio VARS) := by
  intro i hi j hj heq
  have hchars := congrArg String.toList heq
  rw [toList_letter, toList_letter] at hchars
  have hcodes := congrArg Char.toNat (List.cons.inj hchars).1
  rw [toNat_letter hi, toNat_letter hj] at hcodes
  omega

theorem length_keyword : ∀ word ∈ CPP_KEYWORDS, word.toList.length ≠ 1 := by
  decide

theorem letter_not_mem_keywords (k : Nat) : letter k ∉ CPP_KEYWORDS := by
  intro hmem
  have hlength := length_keyword _ hmem
  rw [toList_letter] at hlength
  exact hlength rfl

variable {xid_start xid_continue : Char → Bool}

theorem isCppIdentifier_letter {k : Nat} (hk : k < 26) :
    IsCppIdentifier xid_start xid_continue (letter k) := by
  have halpha : ∀ i < 26, (Char.ofNat (97 + i)).isAlpha := by decide
  exact ⟨letter_not_mem_keywords k, _, [], toList_letter k, .inl (halpha k hk), List.forall_mem_nil _⟩

/-- The byte behind the letters is a brace. -/
theorem not_isCppIdentifier_letter : ¬ IsCppIdentifier xid_start xid_continue (letter 26) := by
  rintro ⟨-, first, rest, hchars, hstarts, -⟩
  rw [toList_letter] at hchars
  obtain rfl := (List.cons.inj hchars).1
  rcases hstarts with h | h | ⟨h, -⟩
  · exact absurd h (by decide)
  · exact absurd h (by decide)
  · exact absurd h (by decide)

theorem IsCppIdentifier.identChar {name : String} (h : IsCppIdentifier xid_start xid_continue name) :
    ∀ c ∈ name.toList, syn.IdentChar c := by
  obtain ⟨-, first, rest, hchars, hstarts, hcontinues⟩ := h
  rw [hchars, List.forall_mem_cons]
  constructor
  · rcases hstarts with halpha | hunderscore | ⟨hwide, -⟩
    · exact .inl (by simp [Char.isAlphanum, halpha])
    · exact .inr (.inl hunderscore)
    · exact .inr (.inr (.inr hwide))
  · intro c hc
    rcases hcontinues c hc with halnum | hunderscore | ⟨hwide, -⟩
    · exact .inl halnum
    · exact .inr (.inl hunderscore)
    · exact .inr (.inr (.inr hwide))

/-- What separates or ends the parameters. -/
def Delimits (c : Char) : Prop := c = ',' ∨ c = ')'

/-- What separates or ends the parameters is not in a name. -/
def Plain (name : String) : Prop := ∀ c ∈ name.toList, ¬ Delimits c

theorem plain_of_identChar {name : String} (h : ∀ c ∈ name.toList, syn.IdentChar c) : Plain name := by
  rintro c hmem (rfl | rfl)
  · exact absurd (h _ hmem) (by decide)
  · exact absurd (h _ hmem) (by decide)

theorem plain_letter {k : Nat} (hk : k < VARS) : Plain (letter k) := by
  have hcode := toNat_letter hk
  intro c hmem
  rw [toList_letter, List.mem_singleton] at hmem
  rw [← hmem] at hcode
  rintro (rfl | rfl)
  · have hcomma : (',' : Char).toNat = 44 := rfl
    omega
  · have hparen : (')' : Char).toNat = 41 := rfl
    omega

theorem plain_of_given {args : List syn.FnArg} {name : String} (h : some name ∈ args.map syn.FnArg.given) :
    Plain name := by
  obtain ⟨arg, -, hgiven⟩ := List.mem_map.mp h
  cases arg with
  | Captured pat ty =>
    cases pat with
    | Ident ident =>
      cases hgiven
      exact plain_of_identChar ident.chars
    | Other debug => cases hgiven
  | SelfRef mutability => cases hgiven
  | SelfValue => cases hgiven
  | Inferred parsed => cases hgiven
  | Ignored ty => cases hgiven

theorem some_mem_requests {m : syn.TraitItemMethod} {name : String} :
    some name ∈ m.requests ↔ some name ∈ m.args.map syn.FnArg.given := by
  unfold syn.TraitItemMethod.requests
  split <;> simp

/-- All names that are given or found are plain. -/
theorem plain_of_assigned {m : syn.TraitItemMethod} {names : List String}
    (h : Assigned letter VARS m.requests names) : ∀ name ∈ names, Plain name := by
  intro name hname
  rcases h.mem_cases hname with hgiven | ⟨k, hk, rfl, -⟩
  · exact plain_of_given (some_mem_requests.mp hgiven)
  · exact plain_letter hk

section Run

variable {ty_mappings : TypeMappings} {arg : syn.FnArg} {ty : String} {idx : Nat} {used : List String}
  {cpp : String} {inputs : List syn.FnArg}

/-- The text behind a pass of the loop. -/
def passText (idx : Nat) (cpp ty name : String) : String :=
  (if 1 < idx then cpp ++ ", " else cpp) ++ ty ++ " " ++ name

/-- An argument has a name exactly when it is given one. -/
theorem given_of_name {name : String} {argtype : syn.Ty} (h : arg_name_type arg = some (.ok (name, argtype))) :
    arg.given = if name = "" then none else some name := by
  cases arg with
  | Captured pat ty =>
    cases pat with
    | Ident ident =>
      cases h
      rw [if_neg ident.ne_empty]
      rfl
    | Other debug => cases h
  | SelfRef mutability => cases h
  | SelfValue => cases h
  | Inferred parsed =>
    cases parsed with
    | ok ty =>
      cases h
      rfl
    | error e => cases h
  | Ignored ty =>
    cases h
    rfl

/-- A pass of the loop for an argument that has a translation. -/
theorem gen_cpp_args_cons {name : String} {argtype : syn.Ty}
    (hname : arg_name_type arg = some (.ok (name, argtype)))
    (htype : translate_type ty_mappings false argtype = .ok ty) :
    gen_cpp_args ty_mappings idx used cpp (arg :: inputs) = (do
      let name ← (if name = "" then Exec.checked (new_var used) else pure name)
      gen_cpp_args ty_mappings (idx + 1) (used ++ [name]) (passText idx cpp ty name) inputs) := by
  rw [gen_cpp_args, hname]
  dsimp only
  funext s
  rw [Exec.bind_apply, propagate, Exec.pure_apply]
  dsimp only
  rw [htype]
  rfl

/-- A pass for an argument with a name. -/
theorem gen_cpp_args_given {name : String} (harg : Translates ty_mappings arg ty)
    (hgiven : arg.given = some name) :
    gen_cpp_args ty_mappings idx used cpp (arg :: inputs) () =
      gen_cpp_args ty_mappings (idx + 1) (used ++ [name]) (passText idx cpp ty name) inputs () := by
  obtain ⟨-, name', argtype, hname, htype⟩ := harg
  rw [given_of_name hname] at hgiven
  split at hgiven
  · cases hgiven
  next hne =>
  cases hgiven
  rw [gen_cpp_args_cons hname htype, if_neg hne]
  rfl

/-- A pass for an argument without a name. -/
theorem gen_cpp_args_unnamed (harg : Translates ty_mappings arg ty) (hgiven : arg.given = none) :
    gen_cpp_args ty_mappings idx used cpp (arg :: inputs) () =
      match fresh letter VARS used with
      | some k => gen_cpp_args ty_mappings (idx + 1) (used ++ [letter k]) (passText idx cpp ty (letter k))
          inputs ()
      | none => .abort := by
  obtain ⟨-, name', argtype, hname, htype⟩ := harg
  rw [given_of_name hname] at hgiven
  split at hgiven
  next hempty =>
    rw [gen_cpp_args_cons hname htype, if_pos hempty, new_var]
    cases fresh letter VARS used with
    | none => rfl
    | some k => rfl
  · cases hgiven

/-- The text that the loop adds. -/
def joined : Nat → List String → List String → String
  | idx, ty :: types, name :: names =>
    (if 1 < idx then ", " else "") ++ ty ++ " " ++ name ++ joined (idx + 1) types names
  | _, _ :: _, [] => ""
  | _, [], _ => ""

theorem passText_append_joined {name : String} {types names : List String} :
    passText idx cpp ty name ++ joined (idx + 1) types names =
      cpp ++ joined idx (ty :: types) (name :: names) := by
  rw [joined, passText]
  split
  · simp only [String.append_assoc]
  · simp only [String.append_assoc, String.empty_append]

/-- The loop gives every argument a name and an entry, or the names run out. -/
theorem gen_cpp_args_cases (idx : Nat) (cpp : String) {args : List syn.FnArg} {types : List String}
    {before : List (Option String)} (hargs : List.Forall₂ (Translates ty_mappings) args types)
    (hused : Assigned letter VARS before used) :
    (∃ names, gen_cpp_args ty_mappings idx used cpp args () =
        .ok (used ++ names, cpp ++ joined idx types names) () ∧
      names.length = types.length ∧
      Assigned letter VARS (before ++ args.map syn.FnArg.given) (used ++ names)) ∨
    (gen_cpp_args ty_mappings idx used cpp args () = .abort ∧
      ¬ ∃ total, Assigned letter VARS (before ++ args.map syn.FnArg.given) total) := by
  induction hargs generalizing before used cpp idx with
  | nil =>
    refine .inl ⟨[], ?_, rfl, ?_⟩
    · rw [gen_cpp_args, joined, List.append_nil, String.append_empty]
      rfl
    · simpa using hused
  | @cons arg ty args types harg hargs ih =>
    have hmap : ∀ r, before ++ (r :: args.map syn.FnArg.given) =
        (before ++ [r]) ++ args.map syn.FnArg.given := by simp
    rw [List.map_cons]
    cases hgiven : arg.given with
    | some name =>
      rw [gen_cpp_args_given harg hgiven, hmap]
      rcases ih _ _ (hused.given name) with ⟨names, hrun, hlength, hnames⟩ | habort
      · refine .inl ⟨name :: names, ?_, by simp [hlength], by simpa using hnames⟩
        rw [hrun, passText_append_joined, List.append_assoc, List.singleton_append]
      · exact .inr habort
    | none =>
      rw [gen_cpp_args_unnamed harg hgiven, hmap]
      cases hfresh : fresh letter VARS used with
      | some k =>
        rcases ih _ _ (hused.unnamed hfresh) with ⟨names, hrun, hlength, hnames⟩ | habort
        · refine .inl ⟨letter k :: names, ?_, by simp [hlength], by simpa using hnames⟩
          dsimp only
          rw [hrun, passText_append_joined, List.append_assoc, List.singleton_append]
        · exact .inr habort
      | none => exact .inr ⟨rfl, hused.not_exists_of_full hfresh _⟩

end Run

theorem comma_separated_cons (e : String) (i : Nat) (types names : List String) :
    comma_separated (e :: List.zipWith entry types names) = e ++ joined (i + 2) types names := by
  induction types generalizing e i names with
  | nil => rw [List.zipWith_nil_left, comma_separated, joined, String.append_empty]
  | cons ty types ih =>
    cases names with
    | nil => rw [List.zipWith_nil_right, comma_separated, joined, String.append_empty]
    | cons name names =>
      rw [List.zipWith_cons_cons, comma_separated, ih _ (i + 1), joined, if_pos (by omega), entry]
      simp only [String.append_assoc]

theorem joined_one (types names : List String) :
    joined 1 types names = comma_separated (List.zipWith entry types names) := by
  cases types with
  | nil => rw [List.zipWith_nil_left, comma_separated, joined]
  | cons ty types =>
    cases names with
    | nil => rw [List.zipWith_nil_right, comma_separated, joined]
    | cons name names =>
      rw [List.zipWith_cons_cons, comma_separated_cons _ 0, joined, if_neg (by omega), String.empty_append,
        entry]

theorem joined_concat {types names : List String} (hlength : names.length = types.length) (idx : Nat)
    (ty name : String) :
    joined idx (types ++ [ty]) (names ++ [name]) =
      joined idx types names ++ ((if 1 < idx + types.length then ", " else "") ++ ty ++ " " ++ name) := by
  induction types generalizing idx names with
  | nil =>
    obtain rfl : names = [] := List.length_eq_zero_iff.mp hlength
    simp only [List.nil_append, joined, String.empty_append, String.append_empty, List.length_nil, Nat.add_zero]
  | cons t types ih =>
    cases names with
    | nil => cases hlength
    | cons n names =>
      have hrest : names.length = types.length := Nat.succ.inj hlength
      have hidx : idx + 1 + types.length = idx + (t :: types).length := by
        rw [List.length_cons]
        omega
      rw [List.cons_append, List.cons_append, joined, ih hrest, joined, hidx]
      simp only [String.append_assoc]

/-- What the loop and the end of the function print without a result. -/
theorem declaration_of_joined (ident : String) (types names : List String) :
    "  L4_INLINE_RPC(int, " ++ ident ++ ", (" ++ joined 1 types names ++ "));\n" =
      declaration ident types names := by
  rw [joined_one]
  rfl

/-- What they print with a result, if there is an argument. -/
theorem declaration_of_joined_concat (ident : String) {types names : List String}
    (hlength : names.length = types.length) (hne : types ≠ []) (ret name : String) :
    "  L4_INLINE_RPC(int, " ++ ident ++ ", (" ++ joined 1 types names ++ ", " ++ ret ++ "& " ++ name ++
        "));\n" =
      declaration ident (types ++ [ret ++ "&"]) (names ++ [name]) := by
  have hpos := List.length_pos_iff.mpr hne
  have hamp : "& " = "&" ++ " " := rfl
  rw [← declaration_of_joined, joined_concat hlength, if_pos (by omega), hamp]
  simp only [String.append_assoc]

/-- Behind a name there is a delimiter. -/
theorem exists_delimiter {types names : List String} (hlength : names.length = types.length) (i : Nat) :
    ∃ c rest, (joined (i + 1 + 1) types names).toList ++ "));\n".toList = c :: rest ∧ Delimits c := by
  cases types with
  | nil => exact ⟨')', [')', ';', '\n'], by rw [joined]; rfl, .inr rfl⟩
  | cons ty types =>
    cases names with
    | nil => cases hlength
    | cons name names =>
      rw [joined, if_pos (by omega)]
      simp only [String.append_assoc, String.toList_append]
      exact ⟨',', _, rfl, .inl rfl⟩

/-- The names can be read off the text of the parameters. -/
theorem joined_inj {types names names' : List String} (hlength : names.length = types.length)
    (hlength' : names'.length = types.length) (hplain : ∀ name ∈ names, Plain name)
    (hplain' : ∀ name ∈ names', Plain name) (i : Nat)
    (h : joined (i + 1) types names ++ "));\n" = joined (i + 1) types names' ++ "));\n") :
    names = names' := by
  induction types generalizing names names' i with
  | nil =>
    rw [List.length_eq_zero_iff.mp hlength, List.length_eq_zero_iff.mp hlength']
  | cons ty types ih =>
    obtain ⟨name, names, rfl⟩ := List.exists_cons_of_length_eq_add_one hlength
    obtain ⟨name', names', rfl⟩ := List.exists_cons_of_length_eq_add_one hlength'
    have hrest : names.length = types.length := Nat.succ.inj hlength
    have hrest' : names'.length = types.length := Nat.succ.inj hlength'
    obtain ⟨hname, hnames⟩ := List.forall_mem_cons.mp hplain
    obtain ⟨hname', hnames'⟩ := List.forall_mem_cons.mp hplain'
    have hchars := congrArg String.toList h
    simp only [joined, String.append_assoc, String.toList_append, List.append_cancel_left_eq] at hchars
    obtain ⟨c, behind, hbehind, hc⟩ := exists_delimiter hrest i
    obtain ⟨c', behind', hbehind', hc'⟩ := exists_delimiter hrest' i
    rw [hbehind, hbehind'] at hchars
    obtain ⟨heq, htail⟩ := Lists.append_inj_of_delimiter hname hname' hc hc' hchars
    rw [← hbehind, ← hbehind', ← String.toList_append, ← String.toList_append, String.toList_inj] at htail
    rw [String.toList_inj.mp heq, ih hrest hrest' hnames hnames' (i + 1) htail]

/-- The names can be read off a declaration. -/
theorem declaration_inj {ident : String} {types names names' : List String}
    (hlength : names.length = types.length) (hlength' : names'.length = types.length)
    (hplain : ∀ name ∈ names, Plain name) (hplain' : ∀ name ∈ names', Plain name)
    (h : declaration ident types names = declaration ident types names') : names = names' := by
  apply joined_inj hlength hlength' hplain hplain' 0
  rw [← declaration_of_joined, ← declaration_of_joined] at h
  have hchars := congrArg String.toList h
  simp only [String.append_assoc, String.toList_append, List.append_cancel_left_eq] at hchars
  rw [← String.toList_append, ← String.toList_append] at hchars
  exact String.toList_inj.mp hchars

/-- With a result and no arguments the list begins with a comma, which no name makes up for. -/
theorem leading_comma {ident ret name name' : String} (hname' : '&' ∉ name'.toList)
    (h : "  L4_INLINE_RPC(int, " ++ ident ++ ", (" ++ ", " ++ ret ++ "& " ++ name ++ "));\n" =
      declaration ident [ret ++ "&"] [name']) : False := by
  have hchars := congrArg String.toList h
  rw [← declaration_of_joined, joined, joined, if_neg (by decide)] at hchars
  simp only [String.append_assoc, String.toList_append, List.append_cancel_left_eq] at hchars
  have hsplit : ([',', ' '] ++ ret.toList) ++ (['&', ' '] ++ name.toList ++ "));\n".toList) =
      (ret.toList ++ ['&', ' ']) ++ (name'.toList ++ "));\n".toList) := by
    simpa using hchars
  have hlength := congrArg List.length hsplit
  simp only [List.length_append, List.length_cons, List.length_nil] at hlength
  obtain ⟨-, hnames⟩ := List.append_inj' hsplit (by simp only [List.length_append, List.length_cons, List.length_nil]; omega)
  apply hname'
  rw [← List.append_cancel_right hnames]
  exact List.mem_cons_self ..

theorem check_method_of_enumerated {opcode : Nat} {methods numbered : List IfaceMethod}
    (h : enumerate_from opcode methods = .ok numbered) :
    ∀ method ∈ methods, check_method method.inner_ref = .ok () := by
  induction methods generalizing opcode numbered with
  | nil => exact List.forall_mem_nil _
  | cons method methods ih =>
    rw [enumerate_from] at h
    obtain ⟨⟨⟩, hcheck, h⟩ := bind_eq_ok_iff.mp h
    obtain ⟨rest, hrest, -⟩ := bind_eq_ok_iff.mp h
    exact List.forall_mem_cons.mpr ⟨hcheck, ih hrest⟩

/-- A method that is accepted begins with `&mut self`. -/
theorem inputs_of_accepted {methods : List syn.TraitItemMethod} {numbered : List IfaceMethod}
    (h : enumerate_iface_methods (methods.map fun m => .Unnumbered m.erase) = .ok numbered)
    {m : syn.TraitItemMethod} (hm : m ∈ methods) : m.inputs = .SelfRef true :: m.args := by
  have hcheck : check_method m.erase = .ok () := by
    unfold enumerate_iface_methods at h
    split at h
    · cases h
    · split at h
      · exact check_method_of_enumerated h (.Unnumbered m.erase) (List.mem_map_of_mem hm)
      · cases h
  unfold check_method at hcheck
  split at hcheck
  · cases hcheck
  split at hcheck
  next inputs hinputs =>
    obtain ⟨first, rest, hsplit, hfirst, -⟩ := List.map_eq_cons_iff.mp hinputs
    have hself : first = .SelfRef true := by
      cases first with
      | SelfRef mutability =>
        cases hfirst
        rfl
      | SelfValue => cases hfirst
      | Captured pat ty => cases hfirst
      | Inferred parsed => cases hfirst
      | Ignored ty => cases hfirst
    rw [syn.TraitItemMethod.args, hsplit, hself]
    rfl
  · cases hcheck

/-- The names are identifiers exactly when those that are given are, and the others are letters. -/
theorem identifiers_iff {m : syn.TraitItemMethod} {names : List String}
    (h : Assigned letter VARS m.requests names) :
    (∀ name ∈ names, IsCppIdentifier xid_start xid_continue name) ↔
      (∀ name, some name ∈ m.requests → IsCppIdentifier xid_start xid_continue name) ∧
        Bounded letter 26 m.requests names := by
  constructor
  · intro hall
    refine ⟨fun name hgiven => hall name (h.mem_of_some_mem hgiven), fun name hname => ?_⟩
    rcases h.mem_cases hname with hgiven | ⟨k, -, rfl, hused⟩
    · exact .inl hgiven
    -- Behind the letters there is a brace first.
    · refine .inr ⟨k, ?_, rfl⟩
      by_contra hle
      have hbrace : letter 26 ∈ names := by
        rcases Nat.lt_or_eq_of_le (Nat.not_lt.mp hle) with hlt | rfl
        · exact hused 26 hlt
        · exact hname
      exact not_isCppIdentifier_letter (hall _ hbrace)
  · rintro ⟨hgiven, hbounded⟩ name hname
    rcases hbounded name hname with hrequest | ⟨k, hk, rfl⟩
    · exact hgiven name hrequest
    · exact isCppIdentifier_letter hk

/-- There are different identifiers for a method exactly when its names fit. -/
theorem exists_identifiers_iff {m : syn.TraitItemMethod} :
    (∃ names, Assigned letter VARS m.requests names ∧ names.Nodup ∧
      ∀ name ∈ names, IsCppIdentifier xid_start xid_continue name) ↔
      (∀ name, some name ∈ m.requests → IsCppIdentifier xid_start xid_continue name) ∧
        Fits letter 26 m.requests := by
  rw [← assigned_iff letter_injOn (show 26 ≤ VARS by decide)]
  constructor
  · rintro ⟨names, h, hnodup, hall⟩
    obtain ⟨hgiven, hbounded⟩ := (identifiers_iff h).mp hall
    exact ⟨hgiven, names, h, hnodup, hbounded⟩
  · rintro ⟨hgiven, names, h, hnodup, hbounded⟩
    exact ⟨names, h, hnodup, (identifiers_iff h).mpr ⟨hgiven, hbounded⟩⟩

theorem translate_type_of_isUnit {additional : TypeMappings} {is_output : Bool} {ty : syn.Ty}
    (h : ty.isUnit = true) : translate_type additional is_output ty = .ok "" := by
  cases ty with
  | Path segments => cases h
  | Reference elem => cases h
  | Tuple elems tokens =>
    cases elems with
    | nil => rw [translate_type]
    | cons elem elems => cases h
  | Other tokens =>
    have hunit : tokens.toList.filter (fun c => !Text.is_whitespace c) = ['(', ')'] := of_decide_eq_true h
    rw [translate_type, translate_tokens, hunit]
    rfl

section Generation

variable {ty_mappings : TypeMappings} {m : syn.TraitItemMethod} {types : List String} {ret : String}

/-- The beginning of the text. -/
def header (m : syn.TraitItemMethod) : String := "  L4_INLINE_RPC(int, " ++ m.ident.text ++ ", ("

theorem gen_cpp_rpc_method_eq (hinputs : m.inputs = .SelfRef true :: m.args) :
    gen_cpp_rpc_method ty_mappings m.enumerated = (do
      let (used_vars, cpp) ← gen_cpp_args ty_mappings 1 [] (header m) m.args
      let cpp ← gen_cpp_ret ty_mappings used_vars cpp (some m.ret)
      pure (cpp ++ "));\n")) := by
  rw [gen_cpp_rpc_method, syn.TraitItemMethod.enumerated, hinputs]
  rfl

theorem gen_cpp_ret_of_ok {used : List String} {cpp : String} {ty : syn.Ty}
    (hret : translate_type ty_mappings true ty = .ok ret) :
    gen_cpp_ret ty_mappings used cpp (some ty) =
      if ret = "" then pure cpp
      else Exec.checked (new_var used) >>= fun name => pure (cpp ++ ", " ++ ret ++ "& " ++ name) := by
  rw [gen_cpp_ret, hret]
  rfl

/-- Without a C++ type for the result the arguments are all. -/
theorem gen_cpp_rpc_method_of_empty (hinputs : m.inputs = .SelfRef true :: m.args)
    (htypes : List.Forall₂ (Translates ty_mappings) m.args types)
    (hret : translate_type ty_mappings true m.ret = .ok "") :
    (∃ names, gen_cpp_rpc_method ty_mappings m.enumerated () =
        .ok (declaration m.ident.text types names) () ∧
      names.length = types.length ∧ Assigned letter VARS (m.args.map syn.FnArg.given) names) ∨
    (gen_cpp_rpc_method ty_mappings m.enumerated () = .abort ∧
      ¬ ∃ total, Assigned letter VARS (m.args.map syn.FnArg.given) total) := by
  rw [gen_cpp_rpc_method_eq hinputs, Exec.bind_apply]
  rcases gen_cpp_args_cases 1 (header m) htypes .nil with ⟨names, hrun, hlength, hnames⟩ | ⟨habort, hnone⟩
  · refine .inl ⟨names, ?_, hlength, hnames⟩
    rw [hrun, ← declaration_of_joined]
    dsimp only
    rw [gen_cpp_ret_of_ok hret, if_pos rfl]
    rfl
  · refine .inr ⟨?_, hnone⟩
    rw [habort]

/-- Otherwise the result is printed behind them, with a comma in any case. -/
theorem gen_cpp_rpc_method_of_type (hinputs : m.inputs = .SelfRef true :: m.args)
    (htypes : List.Forall₂ (Translates ty_mappings) m.args types)
    (hret : translate_type ty_mappings true m.ret = .ok ret) (hne : ret ≠ "") :
    (∃ names name, gen_cpp_rpc_method ty_mappings m.enumerated () =
        .ok (header m ++ joined 1 types names ++ ", " ++ ret ++ "& " ++ name ++ "));\n") () ∧
      names.length = types.length ∧
      Assigned letter VARS (m.args.map syn.FnArg.given ++ [none]) (names ++ [name])) ∨
    (gen_cpp_rpc_method ty_mappings m.enumerated () = .abort ∧
      ¬ ∃ total, Assigned letter VARS (m.args.map syn.FnArg.given ++ [none]) total) := by
  rw [gen_cpp_rpc_method_eq hinputs, Exec.bind_apply]
  rcases gen_cpp_args_cases 1 (header m) htypes .nil with ⟨names, hrun, hlength, hnames⟩ | ⟨habort, hnone⟩
  · rw [hrun]
    dsimp only
    rw [gen_cpp_ret_of_ok hret, if_neg hne, new_var]
    rw [List.nil_append] at hnames ⊢
    cases hfresh : fresh letter VARS names with
    | some k => exact .inl ⟨names, letter k, rfl, hlength, hnames.unnamed hfresh⟩
    | none =>
      have hnone := hnames.not_exists_of_full hfresh []
      rw [List.append_nil] at hnone
      exact .inr ⟨rfl, hnone⟩
  · refine .inr ⟨by rw [habort], ?_⟩
    rintro ⟨total, htotal⟩
    obtain ⟨names, k, -, hnames, -⟩ := assigned_unnamed_iff.mp htotal
    exact hnone ⟨names, hnames⟩

variable (xid_start xid_continue) in
/-- A text that is a declaration under the names that were assigned is one under identifiers exactly
when those are. -/
theorem declares_iff {outcome : Outcome String Unit String} {all : List String}
    (h : (∃ total, outcome = .ok (declaration m.ident.text all total) () ∧ total.length = all.length ∧
        Assigned letter VARS m.requests total) ∨
      (outcome = .abort ∧ ¬ ∃ total, Assigned letter VARS m.requests total)) :
    (∃ cpp, outcome = .ok cpp () ∧ Declares xid_start xid_continue m.ident.text all cpp) ↔
      (∀ name, some name ∈ m.requests → IsCppIdentifier xid_start xid_continue name) ∧
        Fits letter 26 m.requests := by
  rw [← exists_identifiers_iff]
  constructor
  · rintro ⟨cpp, hok, names, rfl, hlength, hnodup, hall⟩
    rcases h with ⟨total, htext, hlength', htotal⟩ | ⟨habort, -⟩
    · have hsame := (Outcome.ok.inj (hok.symm.trans htext)).1
      have hplain : ∀ name ∈ names, Plain name := fun name hname => plain_of_identChar (hall name hname).identChar
      obtain rfl := declaration_inj hlength hlength' hplain (plain_of_assigned htotal) hsame
      exact ⟨names, htotal, hnodup, hall⟩
    · cases hok.symm.trans habort
  · rintro ⟨names, hnames, hnodup, hall⟩
    rcases h with ⟨total, htext, hlength, htotal⟩ | ⟨-, hnone⟩
    · rw [htotal.unique hnames] at htext hlength
      exact ⟨_, htext, names, rfl, hlength, hnodup, hall⟩
    · exact absurd ⟨names, hnames⟩ hnone

/-- Without a translation for the return type there is no text. -/
theorem gen_cpp_rpc_method_ne_ok (hinputs : m.inputs = .SelfRef true :: m.args) {e cpp : String}
    (hret : translate_type ty_mappings true m.ret = .error e) :
    gen_cpp_rpc_method ty_mappings m.enumerated () ≠ .ok cpp () := by
  intro hok
  rw [gen_cpp_rpc_method_eq hinputs] at hok
  obtain ⟨⟨used, cpp'⟩, s, -, hok⟩ := Exec.bind_eq_ok_iff.mp hok
  obtain ⟨cpp'', s', hcpp, -⟩ := Exec.bind_eq_ok_iff.mp hok
  rw [gen_cpp_ret, hret] at hcpp
  cases hcpp

theorem wellFormed_iff_of_unit (hinputs : m.inputs = .SelfRef true :: m.args)
    (htypes : List.Forall₂ (Translates ty_mappings) m.args types)
    (hret : translate_type ty_mappings true m.ret = .ok ret) (hunit : m.ret.isUnit = true) :
    (∃ cpp, gen_cpp_rpc_method ty_mappings m.enumerated () = .ok cpp () ∧
        WellFormed xid_start xid_continue m types ret cpp) ↔ NamesFit xid_start xid_continue m ret := by
  obtain rfl : ret = "" := Except.ok.inj (hret.symm.trans (translate_type_of_isUnit hunit))
  have hrequests : m.requests = m.args.map syn.FnArg.given := by
    rw [syn.TraitItemMethod.requests, if_pos hunit, List.append_nil]
  have hcases := gen_cpp_rpc_method_of_empty hinputs htypes hret
  rw [← hrequests] at hcases
  have hiff := declares_iff xid_start xid_continue hcases
  simp only [WellFormed, hunit, if_true, List.append_nil, reduceCtorEq, false_implies, true_and, hiff]
  exact ⟨fun ⟨hgiven, hfits⟩ => ⟨by simp [hunit], hgiven, hfits⟩, fun h => ⟨h.given, h.fits⟩⟩

theorem wellFormed_iff_of_type (hinputs : m.inputs = .SelfRef true :: m.args)
    (htypes : List.Forall₂ (Translates ty_mappings) m.args types)
    (hret : translate_type ty_mappings true m.ret = .ok ret) (hunit : m.ret.isUnit = false)
    (hne : ret ≠ "") (hargs : m.args ≠ []) :
    (∃ cpp, gen_cpp_rpc_method ty_mappings m.enumerated () = .ok cpp () ∧
        WellFormed xid_start xid_continue m types ret cpp) ↔ NamesFit xid_start xid_continue m ret := by
  have hrequests : m.requests = m.args.map syn.FnArg.given ++ [none] := by
    rw [syn.TraitItemMethod.requests, hunit]
    rfl
  have htypes_ne : types ≠ [] := by
    rintro rfl
    exact hargs (List.forall₂_nil_right_iff.mp htypes)
  have hcases : (∃ total, gen_cpp_rpc_method ty_mappings m.enumerated () =
        .ok (declaration m.ident.text (types ++ [ret ++ "&"]) total) () ∧
        total.length = (types ++ [ret ++ "&"]).length ∧ Assigned letter VARS m.requests total) ∨
      (gen_cpp_rpc_method ty_mappings m.enumerated () = .abort ∧
        ¬ ∃ total, Assigned letter VARS m.requests total) := by
    rw [hrequests]
    rcases gen_cpp_rpc_method_of_type hinputs htypes hret hne with ⟨names, name, hok, hlength, hnames⟩ |
      habort
    · refine .inl ⟨names ++ [name], ?_, by simp [hlength], hnames⟩
      rw [hok, ← declaration_of_joined_concat _ hlength htypes_ne]
      rfl
    · exact .inr habort
  have hiff := declares_iff xid_start xid_continue hcases
  simp only [WellFormed, hunit, Bool.false_eq_true, if_false]
  constructor
  · rintro ⟨cpp, hok, -, hdeclares⟩
    obtain ⟨hgiven, hfits⟩ := hiff.mp ⟨cpp, hok, hdeclares⟩
    exact ⟨fun _ => ⟨hne, hargs⟩, hgiven, hfits⟩
  · intro h
    obtain ⟨cpp, hok, hdeclares⟩ := hiff.mpr ⟨h.given, h.fits⟩
    exact ⟨cpp, hok, fun _ => hne, hdeclares⟩

/-- A result that is alone has a comma in front of it. -/
theorem not_wellFormed_of_alone (hinputs : m.inputs = .SelfRef true :: m.args)
    (hret : translate_type ty_mappings true m.ret = .ok ret) (hunit : m.ret.isUnit = false)
    (hne : ret ≠ "") (hargs : m.args = []) {cpp : String}
    (hok : gen_cpp_rpc_method ty_mappings m.enumerated () = .ok cpp ()) :
    ¬ WellFormed xid_start xid_continue m [] ret cpp := by
  have htypes : List.Forall₂ (Translates ty_mappings) m.args [] := by
    rw [hargs]
    exact .nil
  rcases gen_cpp_rpc_method_of_type hinputs htypes hret hne with ⟨names, name, htext, hlength, -⟩ | ⟨habort, -⟩
  · rintro ⟨-, names', hcpp, hlength', -, hidents⟩
    obtain rfl : names = [] := List.length_eq_zero_iff.mp hlength
    rw [hunit] at hcpp hlength'
    obtain ⟨name', rfl⟩ := List.length_eq_one_iff.mp hlength'
    have hamp : '&' ∉ name'.toList := by
      intro hmem
      exact absurd ((hidents name' (List.mem_singleton_self _)).identChar _ hmem) (by decide)
    rw [joined, String.append_empty] at htext
    exact leading_comma hamp ((Outcome.ok.inj (htext.symm.trans hok)).1.trans hcpp)
  · cases hok.symm.trans habort

end Generation

/-- The parameter list of a method is well-formed exactly when its result is not alone and its names
fit. A method whose return type has no translation is not printed. -/
theorem parameter_list_iff (xid_start xid_continue : Char → Bool) (ty_mappings : TypeMappings)
    (methods : List syn.TraitItemMethod) (numbered : List IfaceMethod)
    (haccepted : enumerate_iface_methods (methods.map fun m => .Unnumbered m.erase) = .ok numbered)
    (m : syn.TraitItemMethod) (hm : m ∈ methods) (types : List String)
    (htypes : List.Forall₂ (Translates ty_mappings) m.args types) :
    (∀ e, translate_type ty_mappings true m.ret = .error e →
      ∀ cpp, gen_cpp_rpc_method ty_mappings m.enumerated () ≠ .ok cpp ()) ∧
    ∀ ret, translate_type ty_mappings true m.ret = .ok ret →
      ((∃ cpp, gen_cpp_rpc_method ty_mappings m.enumerated () = .ok cpp () ∧
          WellFormed xid_start xid_continue m types ret cpp) ↔
        NamesFit xid_start xid_continue m ret) := by
  have hinputs := inputs_of_accepted haccepted hm
  refine ⟨fun e hret cpp => gen_cpp_rpc_method_ne_ok hinputs hret, fun ret hret => ?_⟩
  cases hunit : m.ret.isUnit with
  | true => exact wellFormed_iff_of_unit hinputs htypes hret hunit
  | false =>
    by_cases hne : ret = ""
    · exact ⟨fun ⟨_, _, hwell⟩ => absurd hne (hwell.1 hunit), fun h => absurd hne (h.result hunit).1⟩
    by_cases hargs : m.args = []
    · refine ⟨fun ⟨cpp, hok, hwell⟩ => ?_, fun h => absurd hargs (h.result hunit).2⟩
      rw [hargs] at htypes
      cases htypes
      exact absurd hwell (not_wellFormed_of_alone hinputs hret hunit hne hargs hok)
    · exact wellFormed_iff_of_type hinputs htypes hret hunit hne hargs

/-- An identifier of which the characters are checked. -/
def ident (text : String) (h : text ≠ "" ∧ text.toList.all fun c => syn.IdentChar c) : syn.Ident :=
  ⟨text, h.1, fun c hc => of_decide_eq_true (List.all_eq_true.mp h.2 c hc)⟩

def u32 : syn.Ty := .Path [.mk (ident "u32" (by decide)) .None]

/-- A method `foo` of some arguments and some result. -/
def foo (args : List syn.FnArg) (output : Option syn.Ty) : syn.TraitItemMethod :=
  ⟨ident "foo" (by decide), false, .SelfRef true :: args, output, false⟩

def noMappings : TypeMappings := fun _ => none

theorem u32_translates {arg : syn.FnArg} (h : arg_name_type arg = some (.ok (arg.given.getD "", u32))) :
    Translates noMappings arg "l4_uint32_t" :=
  ⟨by decide, _, _, h, rfl⟩

/-- The names that are left for two arguments without one are behind the one that is given. -/
theorem names_found : Fits letter 26 [some "a", none, none] := by
  have hletters : Assigned letter VARS [some "a", none, none] ["a", letter 1, letter 2] :=
    ((Assigned.nil.given "a").unnamed (k := 1) (by decide)).unnamed (k := 2) (by decide)
  refine (assigned_iff letter_injOn (by decide)).mp ⟨_, hletters, by decide, ?_⟩
  intro name hname
  simp only [List.mem_cons, List.not_mem_nil, or_false] at hname
  rcases hname with rfl | rfl | rfl
  · exact .inl (List.mem_cons_self ..)
  · exact .inr ⟨1, by decide, rfl⟩
  · exact .inr ⟨2, by decide, rfl⟩

/-- A name, an argument without one, and a result. -/
theorem usual_parameter_list :
    let m := foo [.Captured (.Ident (ident "a" (by decide))) u32, .Inferred (.ok u32)] (some u32)
    (gen_cpp_rpc_method noMappings m.enumerated ()).value? =
        some "  L4_INLINE_RPC(int, foo, (l4_uint32_t a, l4_uint32_t b, l4_uint32_t& c));\n" ∧
      ∃ cpp, gen_cpp_rpc_method noMappings m.enumerated () = .ok cpp () ∧
        WellFormed (fun _ => false) (fun _ => false) m ["l4_uint32_t", "l4_uint32_t"] "l4_uint32_t" cpp := by
  intro m
  refine ⟨by decide +kernel, ?_⟩
  have htypes : List.Forall₂ (Translates noMappings) m.args ["l4_uint32_t", "l4_uint32_t"] :=
    .cons (u32_translates rfl) (.cons (u32_translates rfl) .nil)
  have hret : translate_type noMappings true m.ret = .ok "l4_uint32_t" := rfl
  have hiff := parameter_list_iff (fun _ => false) (fun _ => false) noMappings [m]
    [.Numbered 0 m.enumerated.erase] rfl m (List.mem_singleton_self m) _ htypes
  refine (hiff.2 _ hret).mpr ⟨fun _ => ⟨by decide, List.cons_ne_nil _ _⟩, ?_, names_found⟩
  intro name hname
  have hgiven : some name ∈ [some "a", none, none] := hname
  simp only [List.mem_cons, Option.some.injEq, reduceCtorEq, List.not_mem_nil, or_false] at hgiven
  rw [hgiven]
  exact isCppIdentifier_letter (show 0 < 26 by decide)

/-- A result that is alone has a comma in front of it, and a name that is given behind an argument
without one is given twice. -/
theorem parameter_lists_broken :
    (let m := foo [] (some u32);
      (gen_cpp_rpc_method noMappings m.enumerated ()).value? =
          some "  L4_INLINE_RPC(int, foo, (, l4_uint32_t& a));\n" ∧
        ¬ ∃ cpp, gen_cpp_rpc_method noMappings m.enumerated () = .ok cpp () ∧
          WellFormed (fun _ => false) (fun _ => false) m [] "l4_uint32_t" cpp) ∧
    (let m := foo [.Inferred (.ok u32), .Captured (.Ident (ident "a" (by decide))) u32] none;
      (gen_cpp_rpc_method noMappings m.enumerated ()).value? =
          some "  L4_INLINE_RPC(int, foo, (l4_uint32_t a, l4_uint32_t a));\n" ∧
        ¬ ∃ cpp, gen_cpp_rpc_method noMappings m.enumerated () = .ok cpp () ∧
          WellFormed (fun _ => false) (fun _ => false) m ["l4_uint32_t", "l4_uint32_t"] "" cpp) := by
  refine ⟨⟨by decide +kernel, ?_⟩, by decide +kernel, ?_⟩
  · rintro ⟨cpp, hok, hwell⟩
    exact not_wellFormed_of_alone rfl rfl rfl (by decide) rfl hok hwell
  · intro hwell
    have htypes : List.Forall₂ (Translates noMappings)
        (foo [.Inferred (.ok u32), .Captured (.Ident (ident "a" (by decide))) u32] none).args
        ["l4_uint32_t", "l4_uint32_t"] :=
      .cons (u32_translates rfl) (.cons (u32_translates rfl) .nil)
    have hfit := (wellFormed_iff_of_unit rfl htypes rfl rfl).mp hwell
    have htaken := (hfit.fits [none] (some "a") [] rfl).2 0 (by decide) rfl
    exact absurd htaken (by decide)

end l4_derive
