import L4Rust.L4Derive.Export.Declarations

namespace l4_derive

open syn (Ty)

namespace syn

/-- An expression, as far as the protocol of an interface is looked at. -/
inductive Expr where
  | LitInt (value : UInt64)
  | LitOther
  | Other
  deriving DecidableEq

inductive IfaceMethod where
  | Unnumbered (m : TraitItemMethod)
  | Numbered (opcode : Nat) (m : TraitItemMethod)

def IfaceMethod.inner_ref : IfaceMethod → TraitItemMethod
  | .Unnumbered m | .Numbered _ m => m

structure Demand where
  caps : UInt8

structure Iface where
  name : Ident
  protocol : Expr
  demand : Demand
  methods : List IfaceMethod

end syn

/-- What can be adjusted about the exported interface. -/
structure ExportOptions where
  name : Option String
  protocol : Option UInt64
  type_mappings : TypeMappings
  includes : Finset String

namespace usage

/-- The loop over the arguments, with the sets. -/
def gen_cpp_args (ty_mappings : TypeMappings) : Nat → List String → String → List syn.FnArg →
    Exec String Usage (List String × String)
  | _, used_vars, cpp, [] => pure (used_vars, cpp)
  | idx, used_vars, cpp, fnarg :: inputs =>
    match arg_name_type fnarg with
    | none => gen_cpp_args ty_mappings (idx + 1) used_vars cpp inputs
    | some named => do
      let (name, argtype) ← Exec.ofExcept named
      let name ← (if name = "" then Exec.checked (new_var used_vars) else pure name)
      let argtype ← translate_type ty_mappings false argtype
      let cpp := if 1 < idx then cpp ++ ", " else cpp
      gen_cpp_args ty_mappings (idx + 1) (used_vars ++ [name]) (cpp ++ argtype ++ " " ++ name) inputs

def gen_cpp_ret (ty_mappings : TypeMappings) (used_vars : List String) (cpp : String) :
    Option Ty → Exec String Usage String
  | none => pure cpp
  | some ty => do
    let ty ← translate_type ty_mappings true ty
    if ty = "" then pure cpp
    else do
      let name ← Exec.checked (new_var used_vars)
      pure (cpp ++ ", " ++ ty ++ "& " ++ name)

def gen_cpp_rpc_method (ty_mappings : TypeMappings) (method : syn.TraitItemMethod) :
    Exec String Usage String := do
  let cpp := "  L4_INLINE_RPC(int, " ++ method.ident.text ++ ", ("
  let (used_vars, cpp) ← gen_cpp_args ty_mappings 0 [] cpp method.inputs
  let cpp ← gen_cpp_ret ty_mappings used_vars cpp method.output
  pure (cpp ++ "));\n")

/-- The loop of `gen_cpp_interface` over the methods, with the text so far. -/
def gen_cpp_methods (ty_mappings : TypeMappings) (cpp_iface : String) : List syn.IfaceMethod →
    Exec String Usage String
  | [] => pure cpp_iface
  | method :: methods => do
    let rpc ← gen_cpp_rpc_method ty_mappings method.inner_ref
    gen_cpp_methods ty_mappings (cpp_iface ++ rpc) methods

end usage

section Answers

variable {α β : Type}

/-- Two calls, with the sets and without, return the same. -/
def SameAnswer (x : Exec String Usage α) (y : Exec String Unit α) : Prop :=
  ∀ used, (x used).answer? = (y ()).answer?

namespace SameAnswer

variable {x : Exec String Usage α} {y : Exec String Unit α} {f : α → Exec String Usage β}
  {g : α → Exec String Unit β}

theorem pure (a : α) : SameAnswer (Pure.pure a) (Pure.pure a) := fun _ => rfl

theorem checked (found : Option α) : SameAnswer (Exec.checked found) (Exec.checked found) := by
  cases found with
  | none => exact fun _ => rfl
  | some a => exact .pure a

theorem propagate (result : Except String α) : SameAnswer (Exec.ofExcept result) (propagate result) := by
  cases result with
  | ok a => exact .pure a
  | error e => exact fun _ => rfl

theorem type (ty_mappings : TypeMappings) (is_output : Bool) (ty : Ty) :
    SameAnswer (usage.translate_type ty_mappings is_output ty)
      (l4_derive.propagate (translate_type ty_mappings is_output ty)) := by
  intro used
  cases hty : translate_type ty_mappings is_output ty with
  | ok cpp =>
    rw [(usage.translate_type_collects ty).ok cpp hty used]
    rfl
  | error e =>
    obtain ⟨left, hleft⟩ := (usage.translate_type_collects ty).error e hty used
    rw [hleft]
    rfl

theorem bind (hx : SameAnswer x y) (hf : ∀ a, SameAnswer (f a) (g a)) : SameAnswer (x >>= f) (y >>= g) := by
  intro used
  have hfirst := hx used
  rw [Exec.bind_apply, Exec.bind_apply]
  cases hxu : x used with
  | ok a used' =>
    cases hy : y () with
    | ok b _ =>
      rw [hxu, hy] at hfirst
      cases hfirst
      exact hf a used'
    | err e _ => simp [hxu, hy, Outcome.answer?] at hfirst
    | abort => simp [hxu, hy, Outcome.answer?] at hfirst
  | err e used' =>
    cases hy : y () with
    | ok b _ => simp [hxu, hy, Outcome.answer?] at hfirst
    | err e' _ =>
      rw [hxu, hy] at hfirst
      cases hfirst
      rfl
    | abort => simp [hxu, hy, Outcome.answer?] at hfirst
  | abort =>
    cases hy : y () with
    | ok b _ => simp [hxu, hy, Outcome.answer?] at hfirst
    | err e _ => simp [hxu, hy, Outcome.answer?] at hfirst
    | abort => rfl

theorem ite {c : Prop} [Decidable c] {x' : Exec String Usage α} {y' : Exec String Unit α}
    (hx : SameAnswer x y) (hx' : SameAnswer x' y') :
    SameAnswer (if c then x else x') (if c then y else y') := by
  by_cases hc : c
  · rwa [if_pos hc, if_pos hc]
  · rwa [if_neg hc, if_neg hc]

end SameAnswer

theorem usage.gen_cpp_args_same (ty_mappings : TypeMappings) (idx : Nat) (used_vars : List String) (cpp : String)
    (inputs : List syn.FnArg) : SameAnswer (gen_cpp_args ty_mappings idx used_vars cpp inputs)
      (l4_derive.gen_cpp_args ty_mappings idx used_vars cpp inputs) := by
  induction inputs generalizing idx used_vars cpp with
  | nil => exact .pure _
  | cons arg inputs ih =>
    rw [gen_cpp_args, l4_derive.gen_cpp_args]
    cases arg_name_type arg with
    | none => exact ih _ _ _
    | some named =>
      refine (SameAnswer.propagate named).bind fun named => ?_
      obtain ⟨name, argtype⟩ := named
      refine (SameAnswer.ite (.checked _) (.pure name)).bind fun name => ?_
      exact (SameAnswer.type ty_mappings false argtype).bind fun _ => ih _ _ _

/-- The sets do not change what is printed for a method. -/
theorem usage.gen_cpp_rpc_method_same (ty_mappings : TypeMappings) (method : syn.TraitItemMethod) :
    SameAnswer (gen_cpp_rpc_method ty_mappings method) (l4_derive.gen_cpp_rpc_method ty_mappings method) := by
  refine (usage.gen_cpp_args_same ty_mappings 0 [] _ method.inputs).bind fun printed => ?_
  obtain ⟨used_vars, cpp⟩ := printed
  refine SameAnswer.bind ?_ fun _ => .pure _
  cases method.output with
  | none => exact .pure _
  | some ty =>
    refine (SameAnswer.type ty_mappings true ty).bind fun text => ?_
    exact .ite (.pure _) ((SameAnswer.checked _).bind fun _ => .pure _)

end Answers

/-- The protocol that the interface is declared with. -/
def protocol_literal : syn.Expr → Except String UInt64
  | .LitInt value => .ok value
  | .LitOther => .error "Protocol literal is not an integer"
  | .Other => .error "No protocol specified and no protocol literal in interface definition."

def demand_text (demand : syn.Demand) : String :=
  if demand.caps = 0 then "" else ", L4::Type_info::Demand_t<" ++ toString demand.caps.toNat ++ ">"

/-- The line that begins the interface. -/
def struct_line (name : String) (protocol : UInt64) (demand : String) : String :=
  "struct " ++ name ++ ": L4::Kobject_t<" ++ name ++ ", L4::Kobject, " ++ toString protocol.toNat ++ demand ++
    "> \x7b"

def rpcs_text (rpcs : List String) : String := String.join (rpcs.map fun n => n ++ "_t, ")

/-- The text without its last two characters. -/
def truncated (text : String) : String := String.ofList (text.toList.take (text.length - 2))

def include_line (header : String) : String := "#include <" ++ header ++ ">"

def using_line (usg : String) : String := "using " ++ usg ++ ";"

def preamble (used : Usage) : String :=
  String.join ((used.includes.sort (· ≤ ·)).map fun x => include_line x ++ "\n") ++
    (if 0 < used.namespace_usg.card then "\n" else "") ++
    String.join ((used.namespace_usg.sort (· ≤ ·)).map fun x => using_line x ++ "\n")

/-- The sets before the first method. -/
def default_usage (opts : ExportOptions) : Usage :=
  ⟨∅, {"l4/sys/capability", "l4/sys/cxx/ipc_iface"} ∪ opts.includes⟩

def export_protocol (iface : syn.Iface) (opts : ExportOptions) : Except String UInt64 :=
  match opts.protocol with
  | some x => .ok x
  | none => protocol_literal iface.protocol

def gen_cpp_interface (iface : syn.Iface) (opts : ExportOptions) : Exec String Unit String := do
  let protocol ← Exec.ofExcept (export_protocol iface opts)
  let name := opts.name.getD iface.name.text
  let cpp_iface := struct_line name protocol (demand_text iface.demand) ++ "\n"
  -- The sets are variables of the function.
  Exec.zoom (fun _ => default_usage opts) (fun _ s => s) do
    let cpp_iface ← usage.gen_cpp_methods opts.type_mappings cpp_iface iface.methods
    let rpcs := iface.methods.map fun method => method.inner_ref.ident.text
    let cpp_iface := truncated (cpp_iface ++ "  typedef L4::Typeid::Rpcs<" ++ rpcs_text rpcs) ++ "> Rpcs;\n\x7d;\n"
    let used ← Exec.get
    if !(preamble used).toList.all Text.is_whitespace then pure (preamble used ++ "\n" ++ cpp_iface)
    else pure cpp_iface

section Texts

/-- A text without a line break. -/
def OneLine (text : String) : Prop := '\n' ∉ text.toList

theorem OneLine.append {text text' : String} (h : OneLine text) (h' : OneLine text') : OneLine (text ++ text') := by
  unfold OneLine
  rw [String.toList_append, List.mem_append]
  exact not_or.mpr ⟨h, h'⟩

theorem Spelled.oneLine {names : List String} {cpp : String} (h : Spelled names cpp) : OneLine cpp := by
  intro hmem
  have hbreak := h.chars _ hmem
  exact absurd hbreak (by decide)

theorem oneLine_ident (ident : syn.Ident) : OneLine ident.text := by
  intro hmem
  have hbreak := ident.chars _ hmem
  exact absurd hbreak (by decide)

theorem oneLine_letter {k : Nat} (hk : k < VARS) : OneLine (letter k) := by
  unfold OneLine
  rw [toList_letter, List.mem_singleton]
  intro heq
  have hcode := congrArg Char.toNat heq
  rw [toNat_letter hk] at hcode
  have hbreak : '\n'.toNat = 10 := rfl
  omega

theorem oneLine_empty : OneLine "" := by simp [OneLine]

theorem oneLine_new_var {used_vars : List String} {name : String} (h : new_var used_vars = some name) :
    OneLine name := by
  obtain ⟨k, hk, rfl⟩ := Option.map_eq_some_iff.mp h
  exact oneLine_letter (FreshNames.fresh_eq_some_iff.mp hk).1

theorem oneLine_arg_name {arg : syn.FnArg} {name : String} {argtype : Ty}
    (h : arg_name_type arg = some (.ok (name, argtype))) : OneLine name := by
  cases arg with
  | SelfRef _ => cases h
  | SelfValue => cases h
  | Ignored ty =>
    cases h
    exact oneLine_empty
  | Captured pat ty =>
    cases pat with
    | Ident ident =>
      cases h
      exact oneLine_ident ident
    | Other debug => cases h
  | Inferred parsed =>
    cases parsed with
    | ok ty =>
      cases h
      exact oneLine_empty
    | error e => cases h

end Texts

/-- The types that are printed for an argument and for a result, which are outputs. -/
def syn.FnArg.types (arg : syn.FnArg) : List (Bool × Ty) :=
  match arg_name_type arg with
  | some (.ok (_, ty)) => [(false, ty)]
  | some (.error _) | none => []

def syn.TraitItemMethod.types (m : syn.TraitItemMethod) : List (Bool × Ty) :=
  m.inputs.flatMap syn.FnArg.types ++ m.output.toList.map fun ty => (true, ty)

def syn.Iface.types (iface : syn.Iface) : List (Bool × Ty) :=
  iface.methods.flatMap fun method => method.inner_ref.types

/-- The names that the types of an interface mention. -/
def typeMentions (types : List (Bool × Ty)) : List String := types.flatMap fun p => mentions p.2

section Printed

variable {types types' : List (Bool × Ty)} {used used' used'' : Usage} {cpp cpp' cpp'' : String}

/-- Some types have been translated, with text behind what was there before and on the same line. -/
structure Printed (types : List (Bool × Ty)) (used used' : Usage) (cpp cpp' : String) : Prop where
  sets : used' = usage.declare_all noMappings (typeMentions types) used
  translated : ∀ p ∈ types, ∃ text, translate_type noMappings p.1 p.2 = .ok text
  behind : ∃ text, cpp' = cpp ++ text ∧ OneLine text

namespace Printed

theorem text {text : String} (h : OneLine text) : Printed [] used used cpp (cpp ++ text) where
  sets := rfl
  translated _ hp := absurd hp List.not_mem_nil
  behind := ⟨text, rfl, h⟩

theorem refl : Printed [] used used cpp cpp where
  sets := rfl
  translated _ hp := absurd hp List.not_mem_nil
  behind := ⟨"", String.append_empty.symm, oneLine_empty⟩

theorem trans (h : Printed types used used' cpp cpp') (h' : Printed types' used' used'' cpp' cpp'') :
    Printed (types ++ types') used used'' cpp cpp'' where
  sets := by
    rw [h'.sets, h.sets, typeMentions, typeMentions, typeMentions, List.flatMap_append, usage.declare_all,
      usage.declare_all, usage.declare_all, List.foldl_append]
  translated p hp := by
    obtain hp | hp := List.mem_append.mp hp
    · exact h.translated p hp
    · exact h'.translated p hp
  behind := by
    obtain ⟨text, rfl, htext⟩ := h.behind
    obtain ⟨text', rfl, htext'⟩ := h'.behind
    exact ⟨text ++ text', String.append_assoc .., htext.append htext'⟩

theorem type {is_output : Bool} {ty : Ty} {text : String}
    (h : usage.translate_type noMappings is_output ty used = .ok text used') :
    Printed [(is_output, ty)] used used' cpp (cpp ++ text) := by
  obtain ⟨htext, rfl⟩ := (usage.translate_type_collects ty).ok_iff.mp h
  refine ⟨?_, ?_, text, rfl, (spelled_of_type ty htext).oneLine⟩
  · rw [typeMentions, List.flatMap_singleton]
  · intro p hp
    rw [List.mem_singleton.mp hp]
    exact ⟨text, htext⟩

end Printed

theorem oneLine_literal {text : String} (h : text.toList.all fun c => c ≠ '\n') : OneLine text := by
  intro hmem
  have hbreak := List.all_eq_true.mp h _ hmem
  exact absurd hbreak (by decide)

theorem usage.gen_cpp_args_printed {idx : Nat} {used_vars vars : List String} {inputs : List syn.FnArg}
    (h : gen_cpp_args noMappings idx used_vars cpp inputs used = .ok (vars, cpp') used') :
    Printed (inputs.flatMap syn.FnArg.types) used used' cpp cpp' := by
  induction inputs generalizing idx used_vars cpp used with
  | nil =>
    cases h
    exact .refl
  | cons arg inputs ih =>
    rw [List.flatMap_cons, syn.FnArg.types]
    rw [gen_cpp_args] at h
    cases harg : arg_name_type arg with
    | none =>
      rw [harg] at h
      exact ih h
    | some named =>
      rw [harg] at h
      cases named with
      | error e => cases h
      | ok named =>
        obtain ⟨name, argtype⟩ := named
        obtain ⟨_, _, hnamed, hloop⟩ := Exec.bind_eq_ok_iff.mp h
        cases hnamed
        obtain ⟨name', used₁, hname, htypes⟩ := Exec.bind_eq_ok_iff.mp hloop
        obtain ⟨text, used₂, htype, hrest⟩ := Exec.bind_eq_ok_iff.mp htypes
        have hseparated : Printed [] used used cpp (if 1 < idx then cpp ++ ", " else cpp) := by
          split
          · exact .text (oneLine_literal rfl)
          · exact .refl
        have hvar : used₁ = used ∧ OneLine name' := by
          split at hname
          · obtain ⟨hnew, hsame⟩ := Exec.checked_eq_ok_iff.mp hname
            exact ⟨hsame.symm, oneLine_new_var hnew⟩
          · cases hname
            exact ⟨rfl, oneLine_arg_name harg⟩
        obtain ⟨rfl, hline⟩ := hvar
        have hspace : OneLine " " := oneLine_literal rfl
        have hprinted := (hseparated.trans (.type htype)).trans (.text hspace)
        exact (hprinted.trans (.text hline)).trans (ih hrest)

theorem usage.gen_cpp_ret_printed {used_vars : List String} {output : Option Ty}
    (h : gen_cpp_ret noMappings used_vars cpp output used = .ok cpp' used') :
    Printed (output.toList.map fun ty => (true, ty)) used used' cpp cpp' := by
  cases output with
  | none =>
    cases h
    exact .refl
  | some ty =>
    obtain ⟨text, used₁, htype, hrest⟩ := Exec.bind_eq_ok_iff.mp h
    split at hrest
    · rename_i hempty
      cases hrest
      have hprinted : Printed [(true, ty)] used used' cpp (cpp ++ text) := .type htype
      rwa [hempty, String.append_empty] at hprinted
    · obtain ⟨name, used₂, hname, hrest⟩ := Exec.bind_eq_ok_iff.mp hrest
      obtain ⟨hnew, rfl⟩ := Exec.checked_eq_ok_iff.mp hname
      cases hrest
      have hprinted : Printed [(true, ty)] used used' (cpp ++ ", ") (cpp ++ ", " ++ text) := .type htype
      have hline : OneLine ("& " ++ name) := (oneLine_literal rfl).append (oneLine_new_var hnew)
      have hseparated : Printed [] used used cpp (cpp ++ ", ") := .text (oneLine_literal rfl)
      simpa [String.append_assoc] using (hseparated.trans hprinted).trans (.text hline)

theorem usage.gen_cpp_rpc_method_printed {m : syn.TraitItemMethod}
    (h : gen_cpp_rpc_method noMappings m used = .ok cpp used') :
    ∃ line, Printed m.types used used' "  " line ∧ cpp = line ++ "\n" := by
  obtain ⟨⟨vars, args⟩, used₁, hargs, hrest⟩ := Exec.bind_eq_ok_iff.mp h
  obtain ⟨text, used₂, hret, hcpp⟩ := Exec.bind_eq_ok_iff.mp hrest
  cases hcpp
  have hhead : Printed [] used used "  " ("  L4_INLINE_RPC(int, " ++ m.ident.text ++ ", (") := by
    have hsplit : "  L4_INLINE_RPC(int, " ++ m.ident.text ++ ", (" =
        "  " ++ ("L4_INLINE_RPC(int, " ++ m.ident.text ++ ", (") := by
      simp [← String.toList_inj]
    rw [hsplit]
    exact .text (((oneLine_literal rfl).append (oneLine_ident m.ident)).append (oneLine_literal rfl))
  have htypes := (hhead.trans (usage.gen_cpp_args_printed hargs)).trans (usage.gen_cpp_ret_printed hret)
  have hbreak : text ++ "));\n" = text ++ "));" ++ "\n" := by simp [← String.toList_inj]
  refine ⟨text ++ "));", ?_, hbreak⟩
  simpa [syn.TraitItemMethod.types] using htypes.trans (.text (oneLine_literal rfl))

/-- The lines of the methods are indented. -/
structure MethodLines (types : List (Bool × Ty)) (used used' : Usage) (texts : List (List Char)) : Prop where
  sets : used' = usage.declare_all noMappings (typeMentions types) used
  translated : ∀ p ∈ types, ∃ text, translate_type noMappings p.1 p.2 = .ok text
  indented : ∀ text ∈ texts, text.head? = some ' ' ∧ '\n' ∉ text

theorem usage.gen_cpp_methods_lines {methods : List syn.IfaceMethod}
    (h : gen_cpp_methods noMappings cpp methods used = .ok cpp' used') :
    ∃ texts, MethodLines (methods.flatMap fun method => method.inner_ref.types) used used' texts ∧
      cpp'.toList = cpp.toList ++ texts.flatMap fun text => text ++ ['\n'] := by
  induction methods generalizing cpp used with
  | nil =>
    cases h
    exact ⟨[], ⟨rfl, by simp, by simp⟩, by simp⟩
  | cons method methods ih =>
    obtain ⟨rpc, used₁, hrpc, hrest⟩ := Exec.bind_eq_ok_iff.mp h
    obtain ⟨line, hprinted, rfl⟩ := usage.gen_cpp_rpc_method_printed hrpc
    obtain ⟨texts, hlines, htexts⟩ := ih hrest
    obtain ⟨text, rfl, htext⟩ := hprinted.behind
    refine ⟨("  " ++ text).toList :: texts, ⟨?_, ?_, ?_⟩, ?_⟩
    · rw [hlines.sets, hprinted.sets, List.flatMap_cons, typeMentions, typeMentions, typeMentions,
        List.flatMap_append, usage.declare_all, usage.declare_all, usage.declare_all, List.foldl_append]
    · intro p hp
      obtain hp | hp := List.mem_append.mp hp
      · exact hprinted.translated p hp
      · exact hlines.translated p hp
    · refine List.forall_mem_cons.mpr ⟨⟨by simp, ?_⟩, hlines.indented⟩
      have hline : OneLine ("  " ++ text) := (oneLine_literal rfl).append htext
      exact hline
    · rw [htexts]
      simp

end Printed

section Lines

/-- One of the lines of a text. -/
def HasLine (text line : String) : Prop := line.toList ∈ Words.lines '\n' text.toList

theorem toList_join_map (f : String → String) (xs : List String) :
    (String.join (xs.map fun x => f x ++ "\n")).toList = xs.flatMap fun x => (f x).toList ++ ['\n'] := by
  simp [String.toList_join, List.flatMap_map]

theorem toList_truncated (text : String) : (truncated text).toList = text.toList.take (text.length - 2) :=
  String.toList_ofList

theorem truncated_append (front : String) {back : String} (h : 2 ≤ back.length) :
    truncated (front ++ back) = front ++ truncated back := by
  rw [← String.toList_inj, String.toList_append, toList_truncated, toList_truncated, String.toList_append,
    String.length_append, ← String.length_toList, ← String.length_toList, List.take_append]
  rw [← String.length_toList] at h
  congr 1
  · exact List.take_of_length_le (by omega)
  · congr 1
    omega

/-- The names of the methods, with `Rpcs` in front of them cut off if there are none. -/
def typedef_line (rpcs : List String) : String :=
  truncated ("  typedef L4::Typeid::Rpcs<" ++ rpcs_text rpcs) ++ "> Rpcs;"

/-- Only the last line is cut. -/
theorem truncated_typedef (cpp : String) (rpcs : List String) :
    truncated (cpp ++ "  typedef L4::Typeid::Rpcs<" ++ rpcs_text rpcs) ++ "> Rpcs;\n\x7d;\n" =
      cpp ++ typedef_line rpcs ++ "\n\x7d;\n" := by
  have hlong : "  typedef L4::Typeid::Rpcs<".length = 27 := rfl
  have hlength : 2 ≤ ("  typedef L4::Typeid::Rpcs<" ++ rpcs_text rpcs).length := by
    rw [String.length_append]
    omega
  rw [String.append_assoc, truncated_append cpp hlength]
  simp [typedef_line, ← String.toList_inj]

theorem indented_typedef_line {rpcs : List String} (h : ∀ n ∈ rpcs, OneLine n) :
    (typedef_line rpcs).toList.head? = some ' ' ∧ '\n' ∉ (typedef_line rpcs).toList := by
  have hnames : OneLine (rpcs_text rpcs) := by
    unfold OneLine rpcs_text
    rw [String.toList_join, List.mem_flatMap]
    rintro ⟨text, htext, hmem⟩
    obtain ⟨n, hn, rfl⟩ := List.mem_map.mp htext
    exact ((h n hn).append (oneLine_literal rfl)) hmem
  have hline : OneLine ("  typedef L4::Typeid::Rpcs<" ++ rpcs_text rpcs) := (oneLine_literal rfl).append hnames
  constructor
  · have hlength : ("  typedef L4::Typeid::Rpcs<" ++ rpcs_text rpcs).length = 27 + (rpcs_text rpcs).length :=
      String.length_append ..
    obtain ⟨k, hk⟩ : ∃ k, ("  typedef L4::Typeid::Rpcs<" ++ rpcs_text rpcs).length - 2 = k + 1 :=
      ⟨24 + (rpcs_text rpcs).length, by omega⟩
    rw [typedef_line, String.toList_append, toList_truncated, hk, String.toList_append]
    rfl
  · rw [typedef_line, String.toList_append, toList_truncated, List.mem_append, not_or]
    refine ⟨fun hmem => hline (List.mem_of_mem_take hmem), ?_⟩
    decide

theorem not_whitespace_preamble {used : Usage} {header : String} (h : header ∈ used.includes) :
    (preamble used).toList.all Text.is_whitespace = false := by
  rw [List.all_eq_false]
  refine ⟨'#', ?_, by decide⟩
  rw [preamble, String.toList_append, String.toList_append, toList_join_map]
  refine List.mem_append_left _ (List.mem_append_left _ (List.mem_flatMap.mpr ⟨header, ?_, ?_⟩))
  · rwa [Finset.mem_sort]
  · simp [include_line]

/-- What the first line of the interface says, once its protocol is known. -/
def struct_line_of (iface : syn.Iface) (opts : ExportOptions) (protocol : UInt64) : String :=
  struct_line (opts.name.getD iface.name.text) protocol (demand_text iface.demand)

/-- The sets at the end. -/
def final_usage (iface : syn.Iface) (opts : ExportOptions) : Usage :=
  usage.declare_all noMappings (typeMentions iface.types) (default_usage opts)

variable {iface : syn.Iface} {opts : ExportOptions} {text : String}

/-- The text, as the lines of which it is made. -/
theorem gen_cpp_interface_text (hmappings : opts.type_mappings = noMappings)
    (h : gen_cpp_interface iface opts () = .ok text ()) :
    (∀ p ∈ iface.types, ∃ cpp, translate_type noMappings p.1 p.2 = .ok cpp) ∧
    ∃ (protocol : UInt64) (texts : List (List Char)), export_protocol iface opts = .ok protocol ∧
      (∀ line ∈ texts, line.head? = some ' ' ∧ '\n' ∉ line) ∧
      text.toList = (preamble (final_usage iface opts)).toList ++
        '\n' :: ((struct_line_of iface opts protocol).toList ++
          '\n' :: (texts.flatMap (fun line => line ++ ['\n']) ++ "\x7d;\n".toList)) := by
  obtain ⟨protocol, _, hprotocol, hzoom⟩ := Exec.bind_eq_ok_iff.mp h
  obtain ⟨used, hbody, -⟩ := Exec.zoom_eq_ok_iff.mp hzoom
  obtain ⟨cpp, used', hmethods, hrest⟩ := Exec.bind_eq_ok_iff.mp hbody
  rw [hmappings] at hmethods
  obtain ⟨texts, hlines, hcpp⟩ := usage.gen_cpp_methods_lines hmethods
  refine ⟨hlines.translated, protocol,
    texts ++ [(typedef_line (iface.methods.map fun method => method.inner_ref.ident.text)).toList], ?_, ?_, ?_⟩
  · exact (Exec.ofExcept_eq_ok_iff.mp hprotocol).1
  · intro line hline
    obtain hline | hline := List.mem_append.mp hline
    · exact hlines.indented line hline
    · rw [List.mem_singleton.mp hline]
      apply indented_typedef_line
      intro n hn
      obtain ⟨method, -, rfl⟩ := List.mem_map.mp hn
      exact oneLine_ident _
  · have hsets : used' = final_usage iface opts := hlines.sets
    have hheader : "l4/sys/capability" ∈ used'.includes := by
      rw [hsets, final_usage, (usage.mem_declare_all _ _ _).2]
      exact .inl (by simp [default_usage])
    have hpreamble : (!(preamble used').toList.all Text.is_whitespace) = true := by
      rw [not_whitespace_preamble hheader]
      rfl
    rw [Exec.bind_get, if_pos hpreamble] at hrest
    cases hrest
    rw [truncated_typedef]
    simp [hcpp, hsets, struct_line_of]

theorem lines_of_indented {line text : List Char} (htext : text.head? = some ' ' ∧ '\n' ∉ text)
    (hline : line.head? ≠ some ' ') : line ∉ Words.lines '\n' text := by
  rw [Words.lines_of_notMem htext.2, List.mem_singleton]
  rintro rfl
  exact hline htext.1

/-- The lines of the preamble are those of its includes and its namespaces, and blank ones. -/
theorem mem_lines_preamble {used : Usage} {line behind : List Char} (hline : line ≠ []) :
    line ∈ Words.lines '\n' ((preamble used).toList ++ behind) ↔
      (∃ x ∈ used.includes, line ∈ Words.lines '\n' (include_line x).toList) ∨
      (∃ x ∈ used.namespace_usg, line ∈ Words.lines '\n' (using_line x).toList) ∨
      line ∈ Words.lines '\n' behind := by
  have hblank (behind : List Char) :
      line ∈ Words.lines '\n' ((if 0 < used.namespace_usg.card then "\n" else "").toList ++ behind) ↔
        line ∈ Words.lines '\n' behind := by
    split
    · have hempty := Words.lines_append_cons '\n' [] behind
      rw [Words.lines_of_notMem List.not_mem_nil] at hempty
      have hsplit : "\n".toList ++ behind = [] ++ '\n' :: behind := rfl
      rw [hsplit, hempty, List.singleton_append, List.mem_cons, or_iff_right hline]
    · rfl
  rw [preamble, String.toList_append, String.toList_append, toList_join_map, toList_join_map, List.append_assoc,
    List.append_assoc, Words.mem_lines_flatMap, hblank, Words.mem_lines_flatMap]
  simp only [Finset.mem_sort]

/-- Where a line of the kind of the preamble may come from. -/
theorem hasLine_iff (hmappings : opts.type_mappings = noMappings)
    (h : gen_cpp_interface iface opts () = .ok text ()) :
    ∃ protocol, export_protocol iface opts = .ok protocol ∧
      ∀ line : String, line.toList.head? = some '#' ∨ line.toList.head? = some 'u' →
        (HasLine text line ↔ (∃ x ∈ (final_usage iface opts).includes, HasLine (include_line x) line) ∨
          (∃ x ∈ (final_usage iface opts).namespace_usg, HasLine (using_line x) line) ∨
          HasLine (struct_line_of iface opts protocol) line) := by
  obtain ⟨-, protocol, texts, hprotocol, htexts, htext⟩ := gen_cpp_interface_text hmappings h
  refine ⟨protocol, hprotocol, fun line hline => ?_⟩
  have hne : line.toList ≠ [] := by
    rintro hempty
    simp [hempty] at hline
  have hindented : line.toList.head? ≠ some ' ' := by
    rintro hspace
    simp [hspace] at hline
  have hclose : line.toList ∉ Words.lines '\n' "\x7d;\n".toList := by
    have hlines : Words.lines '\n' "\x7d;\n".toList = [['\x7d', ';'], []] := by decide
    rw [hlines]
    intro hmem
    simp only [List.mem_cons, List.not_mem_nil, or_false] at hmem
    obtain hmem | hmem := hmem
    · simp [hmem] at hline
    · exact hne hmem
  have hrest : line.toList ∉ Words.lines '\n'
      (texts.flatMap (fun line => line ++ ['\n']) ++ "\x7d;\n".toList) := by
    rw [Words.mem_lines_flatMap, not_or]
    refine ⟨?_, hclose⟩
    rintro ⟨text, hmem, hline⟩
    exact lines_of_indented (htexts text hmem) hindented hline
  have hblank : Words.lines '\n' ([] : List Char) = [[]] := rfl
  unfold HasLine
  rw [htext, mem_lines_preamble hne]
  apply or_congr_right
  apply or_congr_right
  have hsplit := Words.lines_append_cons '\n' [] ((struct_line_of iface opts protocol).toList ++
    '\n' :: (texts.flatMap (fun line => line ++ ['\n']) ++ "\x7d;\n".toList))
  rw [List.nil_append] at hsplit
  rw [hsplit, hblank, List.singleton_append, List.mem_cons, or_iff_right hne, Words.lines_append_cons,
    List.mem_append, or_iff_left hrest]

theorem hasLine_of_oneLine {line : String} (h : OneLine text) : HasLine text line ↔ line = text := by
  unfold HasLine
  rw [Words.lines_of_notMem h, List.mem_singleton, String.toList_inj]

theorem head_include_line (x : String) : (include_line x).toList.head? = some '#' := by simp [include_line]

theorem head_using_line (x : String) : (using_line x).toList.head? = some 'u' := by simp [using_line]

theorem include_line_inj {x y : String} : include_line x = include_line y ↔ x = y := by
  simp [include_line, ← String.toList_inj]

theorem using_line_inj {x y : String} : using_line x = using_line y ↔ x = y := by
  simp [using_line, ← String.toList_inj]

theorem include_line_ne_using_line {x y : String} : include_line x ≠ using_line y := by
  simp [include_line, using_line, ← String.toList_inj]

theorem oneLine_entry {name usg : String} {incl : Option String} (h : (name, usg, incl) ∈ CPPTYPE2NAMESPACE) :
    OneLine (using_line usg) ∧ ∀ header, incl = some header → OneLine (include_line header) := by
  have htable : ∀ p ∈ CPPTYPE2NAMESPACE, ((using_line p.2.1).toList.all fun c => c ≠ '\n') ∧
      ∀ header ∈ p.2.2, ((include_line header).toList.all fun c => c ≠ '\n') := by decide +kernel
  obtain ⟨husing, hinclude⟩ := htable _ h
  exact ⟨oneLine_literal husing, fun header hheader => oneLine_literal (hinclude header hheader)⟩

/-- The line is there whatever the methods are: for a header that is always included or one of the
additional ones, or in the name of the interface. -/
def Given (iface : syn.Iface) (opts : ExportOptions) (line : String) : Prop :=
  (∃ x ∈ (default_usage opts).includes, HasLine (include_line x) line) ∨
    ∃ protocol, export_protocol iface opts = .ok protocol ∧ HasLine (struct_line_of iface opts protocol) line

/-- The line is added for a name that is mentioned. -/
def Added (names : List String) (line : String) : Prop :=
  ∃ main ∈ names, ∃ usg incl, (main, usg, incl) ∈ CPPTYPE2NAMESPACE ∧
    (line = using_line usg ∨ ∃ header, incl = some header ∧ line = include_line header)

/-- A line of the preamble is given, or added for a type that the interface mentions. -/
theorem hasLine_iff_given_or_added (hmappings : opts.type_mappings = noMappings)
    (h : gen_cpp_interface iface opts () = .ok text ()) {line : String}
    (hline : line.toList.head? = some '#' ∨ line.toList.head? = some 'u') :
    HasLine text line ↔ Added (typeMentions iface.types) line ∨ Given iface opts line := by
  obtain ⟨protocol, hprotocol, hiff⟩ := hasLine_iff hmappings h
  obtain ⟨husings, hincludes⟩ := usage.mem_declare_all noMappings (typeMentions iface.types)
    (default_usage opts)
  rw [hiff line hline]
  constructor
  · rintro (⟨x, hx, hmem⟩ | ⟨x, hx, hmem⟩ | hstruct)
    · obtain hdefault | ⟨main, hmain, usg, hdecl⟩ := (hincludes x).mp hx
      · exact .inr (.inl ⟨x, hdefault, hmem⟩)
      · rw [decl_noMappings] at hdecl
        have hentry := mem_of_lookup hdecl
        rw [hasLine_of_oneLine ((oneLine_entry hentry).2 x rfl)] at hmem
        exact .inl ⟨main, hmain, usg, some x, hentry, .inr ⟨x, rfl, hmem⟩⟩
    · obtain hdefault | ⟨main, hmain, incl, hdecl⟩ := (husings x).mp hx
      · simp [default_usage] at hdefault
      · rw [decl_noMappings] at hdecl
        have hentry := mem_of_lookup hdecl
        rw [hasLine_of_oneLine (oneLine_entry hentry).1] at hmem
        exact .inl ⟨main, hmain, x, incl, hentry, .inl hmem⟩
    · exact .inr (.inr ⟨protocol, hprotocol, hstruct⟩)
  · rintro (⟨main, hmain, usg, incl, hentry, rfl | ⟨header, rfl, rfl⟩⟩ | ⟨x, hx, hmem⟩ | ⟨protocol', hprotocol', hstruct⟩)
    · have hmem := (husings usg).mpr (.inr ⟨main, hmain, incl, (decl_noMappings main).trans (entries_unique _ hentry)⟩)
      exact .inr (.inl ⟨usg, hmem, (hasLine_of_oneLine (oneLine_entry hentry).1).mpr rfl⟩)
    · have hmem := (hincludes header).mpr
        (.inr ⟨main, hmain, usg, (decl_noMappings main).trans (entries_unique _ hentry)⟩)
      exact .inl ⟨header, hmem, (hasLine_of_oneLine ((oneLine_entry hentry).2 header rfl)).mpr rfl⟩
    · exact .inl ⟨x, (hincludes x).mpr (.inl hx), hmem⟩
    · rw [hprotocol] at hprotocol'
      cases hprotocol'
      exact .inr (.inr hstruct)

end Lines

section Emits

variable {iface : syn.Iface} {opts : ExportOptions} {text name : String}

/-- A line for the namespace of a C++ type and one for its header, if there is an entry for it. -/
def Emits (HasLine : String → Prop) (name : String) : Prop :=
  ∀ usg incl, CPPTYPE2NAMESPACE.lookup name = some (usg, incl) →
    HasLine (using_line usg) ∧ ∀ header, incl = some header → HasLine (include_line header)

/-- A C++ type occurs in what one of the types of the interface is translated to. -/
def syn.Iface.Uses (iface : syn.Iface) (name : String) : Prop :=
  ∃ p ∈ iface.types, ∃ cpp, translate_type noMappings p.1 p.2 = .ok cpp ∧ name ∈ cppNames cpp

theorem emits_of_entry {HasLine : String → Prop} {usg header : String}
    (h : (name, usg, some header) ∈ CPPTYPE2NAMESPACE) :
    Emits HasLine name ↔ HasLine (using_line usg) ∧ HasLine (include_line header) := by
  have hlookup := entries_unique _ h
  constructor
  · intro hemits
    obtain ⟨husing, hinclude⟩ := hemits usg (some header) hlookup
    exact ⟨husing, hinclude header rfl⟩
  · rintro ⟨husing, hinclude⟩ usg' incl' hlookup'
    rw [hlookup] at hlookup'
    cases hlookup'
    refine ⟨husing, ?_⟩
    rintro _ ⟨⟩
    exact hinclude

theorem added_iff (names : List String) {usg header : String}
    (h : (name, usg, some header) ∈ CPPTYPE2NAMESPACE) :
    (Added names (using_line usg) ↔ name ∈ names) ∧ (Added names (include_line header) ↔ name ∈ names) := by
  constructor
  · constructor
    · rintro ⟨main, hmain, usg', incl', hentry, hsame | ⟨header', -, hother⟩⟩
      · have hname : main = name := entries_distinct _ hentry _ h (.inl (using_line_inj.mp hsame).symm)
        exact hname ▸ hmain
      · exact absurd hother.symm include_line_ne_using_line
    · intro hname
      exact ⟨name, hname, usg, some header, h, .inl rfl⟩
  · constructor
    · rintro ⟨main, hmain, usg', incl', hentry, hother | ⟨header', rfl, hsame⟩⟩
      · exact absurd hother include_line_ne_using_line
      · have hname : main = name :=
          entries_distinct _ hentry _ h (.inr (congrArg some (include_line_inj.mp hsame).symm))
        exact hname ▸ hmain
    · intro hname
      exact ⟨name, hname, usg, some header, h, .inr ⟨header, rfl, rfl⟩⟩

theorem emits_iff (hmappings : opts.type_mappings = noMappings)
    (h : gen_cpp_interface iface opts () = .ok text ()) {entry : String × Option String}
    (hentry : (name, entry) ∈ CPPTYPE2NAMESPACE) :
    Emits (HasLine text) name ↔ name ∈ typeMentions iface.types ∨ Emits (Given iface opts) name := by
  obtain ⟨usg, incl⟩ := entry
  obtain ⟨header, rfl⟩ := Option.ne_none_iff_exists'.mp (entries_have_header _ hentry)
  obtain ⟨husing, hinclude⟩ := added_iff (typeMentions iface.types) hentry
  rw [emits_of_entry hentry, emits_of_entry hentry, hasLine_iff_given_or_added hmappings h (.inr (head_using_line usg)),
    hasLine_iff_given_or_added hmappings h (.inl (head_include_line header)), husing, hinclude, or_and_left]

/-- The C++ types with an entry that an interface uses are those that its types mention, and those that
the renamed ones become. -/
theorem uses_iff (htranslated : ∀ p ∈ iface.types, ∃ cpp, translate_type noMappings p.1 p.2 = .ok cpp)
    {entry : String × Option String} (hentry : (name, entry) ∈ CPPTYPE2NAMESPACE) :
    iface.Uses name ↔ Named (typeMentions iface.types) name := by
  constructor
  · rintro ⟨p, hp, cpp, hcpp, hname⟩
    obtain ⟨rust, hrust, hnamed⟩ := ((spelled_of_type p.2 hcpp).names_iff name entry hentry).mp hname
    exact ⟨rust, List.mem_flatMap.mpr ⟨p, hp, hrust⟩, hnamed⟩
  · rintro ⟨rust, hrust, hnamed⟩
    obtain ⟨p, hp, hrust⟩ := List.mem_flatMap.mp hrust
    obtain ⟨cpp, hcpp⟩ := htranslated p hp
    exact ⟨p, hp, cpp, hcpp, ((spelled_of_type p.2 hcpp).names_iff name entry hentry).mpr ⟨rust, hrust, hnamed⟩⟩

/-- An interface declares all C++ types that it uses exactly if the renamed types that it mentions are
declared under their new names, because of another type or in any case. -/
theorem gen_cpp_interface_emits_iff (hmappings : opts.type_mappings = noMappings)
    (h : gen_cpp_interface iface opts () = .ok text ()) :
    (∀ name, iface.Uses name → Emits (HasLine text) name) ↔
      RenamedDeclared (typeMentions iface.types) (Emits (Given iface opts)) := by
  obtain ⟨htranslated, -⟩ := gen_cpp_interface_text hmappings h
  rw [← forall_named_iff]
  constructor
  · intro hall name entry hentry hnamed
    exact (emits_iff hmappings h hentry).mp (hall name ((uses_iff htranslated hentry).mpr hnamed))
  · intro hall name huses usg incl hlookup
    have hentry := mem_of_lookup hlookup
    have hemits := hall name _ hentry ((uses_iff htranslated hentry).mp huses)
    exact (emits_iff hmappings h hentry).mpr hemits usg incl hlookup

end Emits

/-- An interface with a protocol is printed if its methods are. -/
theorem exists_text {protocol : UInt64} {cpp : String} {used : Usage}
    (hprotocol : export_protocol iface opts = .ok protocol)
    (hmethods : usage.gen_cpp_methods opts.type_mappings (struct_line_of iface opts protocol ++ "\n") iface.methods
      (default_usage opts) = .ok cpp used) : ∃ text, gen_cpp_interface iface opts () = .ok text () := by
  rw [gen_cpp_interface, hprotocol, Exec.ofExcept_ok, Exec.bind_of_ok (Exec.pure_apply ..)]
  simp only [Exec.zoom_eq_ok_iff]
  unfold struct_line_of at hmethods
  rw [Exec.bind_of_ok hmethods, Exec.bind_get]
  split
  · exact ⟨_, _, rfl, trivial⟩
  · exact ⟨_, _, rfl, trivial⟩

/-- Translations and interfaces without additional mappings declare what they use exactly if `Opt` is
declared wherever `Option` is mentioned, and `String` wherever `str` is. -/
theorem renamed_types_declared_iff (is_output : Bool) (ty : Ty) (used used' : Usage) (cpp : String)
    (iface : syn.Iface) (opts : ExportOptions) (text : String) :
    (usage.translate_type noMappings is_output ty used = .ok cpp used' →
      ((∀ name ∈ cppNames cpp, used'.Declares name) ↔ RenamedDeclared (mentions ty) used.Declares)) ∧
    (opts.type_mappings = noMappings → gen_cpp_interface iface opts () = .ok text () →
      ((∀ name, iface.Uses name → Emits (HasLine text) name) ↔
        RenamedDeclared (typeMentions iface.types) (Emits (Given iface opts)))) :=
  ⟨translate_type_declares_iff, gen_cpp_interface_emits_iff⟩

/-- A type without arguments, and one with some. -/
def plainType (name : String) (h : name ≠ "" ∧ name.toList.all fun c => syn.IdentChar c) : Ty :=
  .Path [.mk (ident name h) .None]

def appliedType (name : String) (args : List Ty) (h : name ≠ "" ∧ name.toList.all fun c => syn.IdentChar c) : Ty :=
  .Path [.mk (ident name h) (.AngleBracketed (args.map .Type))]

def plainOptions : ExportOptions := ⟨none, none, noMappings, ∅⟩

/-- A capability is declared, also inside of a reference and by an interface. -/
theorem capability_declared :
    let ty := Ty.Reference (appliedType "Cap" [plainType "Dataspace" (by decide)] (by decide))
    let iface : syn.Iface := ⟨ident "Foo" (by decide), .LitInt 7, ⟨1⟩, [.Unnumbered (foo [.Ignored ty] none)]⟩
    let used : Usage := ⟨{"L4Re::Dataspace", "L4::Ipc::Cap"}, {"l4/re/dataspace", "l4/sys/capability"}⟩
    usage.translate_type noMappings false ty ⟨∅, ∅⟩ = .ok "Cap<Dataspace>" used ∧
      (∀ name ∈ cppNames "Cap<Dataspace>", used.Declares name) ∧
      ∃ text, gen_cpp_interface iface plainOptions () = .ok text () ∧
        ∀ name, iface.Uses name → Emits (HasLine text) name := by
  intro ty iface used
  have hrun : usage.translate_type noMappings false ty ⟨∅, ∅⟩ = .ok "Cap<Dataspace>" used := by
    rw [(usage.translate_type_collects ty).ok "Cap<Dataspace>" rfl]
    rfl
  obtain ⟨text, htext⟩ : ∃ text, gen_cpp_interface iface plainOptions () = .ok text () :=
    exists_text (show export_protocol iface plainOptions = .ok 7 from rfl) rfl
  have hiff := renamed_types_declared_iff false ty ⟨∅, ∅⟩ used "Cap<Dataspace>" iface plainOptions text
  have hnone : ∀ p ∈ RENAMED, p.1 ∉ mentions ty ∧ p.1 ∉ typeMentions iface.types := by decide
  refine ⟨hrun, (hiff.1 hrun).mpr ?_, text, htext, (hiff.2 rfl htext).mpr ?_⟩
  · intro rust cpp hrenamed hmem
    exact absurd hmem (hnone _ hrenamed).1
  · intro rust cpp hrenamed hmem
    exact absurd hmem (hnone _ hrenamed).2

/-- The declaration of `Opt` is missing where `Option` is translated. -/
theorem option_not_declared :
    ¬ ∀ (is_output : Bool) (ty : Ty) (used used' : Usage) (cpp : String),
      usage.translate_type noMappings is_output ty used = .ok cpp used' →
        ∀ name ∈ cppNames cpp, used'.Declares name := by
  intro h
  have hrun : usage.translate_type noMappings false (appliedType "Option" [u32] (by decide)) ⟨∅, ∅⟩ =
      .ok "Opt<l4_uint32_t>" ⟨∅, ∅⟩ := by
    rw [(usage.translate_type_collects _).ok "Opt<l4_uint32_t>" rfl]
    rfl
  have hdeclares := h _ _ _ _ _ hrun "Opt" (by decide) "L4::Ipc::Opt" (some "l4/sys/cxx/ipc_types") rfl
  exact Finset.notMem_empty _ hdeclares.1

end l4_derive
