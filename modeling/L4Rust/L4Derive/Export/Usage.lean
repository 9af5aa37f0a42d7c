import Mathlib
import L4Rust.L4Derive.Export.RpcMethod

namespace l4_derive

open syn (Ty PathSegment PathArguments GenericArgument)

/-- The two sets to which the translation of a type adds what its names need: names of C++ namespaces
for `using`, and header files. -/
structure Usage where
  namespace_usg : Finset String
  includes : Finset String
  deriving DecidableEq

def CPPTYPE2NAMESPACE : List (String × String × Option String) := [
  ("Opt", "L4::Ipc::Opt", some "l4/sys/cxx/ipc_types"),
  ("Cap", "L4::Ipc::Cap", some "l4/sys/capability"),
  ("String", "L4::Ipc::String", some "l4/sys/cxx/ipc_string"),
  ("Dataspace", "L4Re::Dataspace", some "l4/re/dataspace")]

namespace usage

variable (additional : TypeMappings) (is_output : Bool)

/-- What the last segment of a path needs. The table has C++ names, but is asked for the Rust one. -/
def decl (main : String) : Option (String × Option String) :=
  (CPPTYPE2NAMESPACE.lookup main).or ((additional main).map fun mapping => (mapping.1, none))

def declare (main : String) (used : Usage) : Usage :=
  match decl additional main with
  | some (usg, some incl) => ⟨insert usg used.namespace_usg, insert incl used.includes⟩
  | some (usg, none) => { used with namespace_usg := insert usg used.namespace_usg }
  | none => used

mutual

/-- As without the sets, but for the declarations that are added to them. -/
def translate_type : Ty → Exec String Usage String
  | .Path segments => translate_path segments
  | .Tuple [] _ => pure ""
  | .Reference elem => translate_type elem
  | .Tuple (_ :: _) tokens => Exec.ofExcept (translate_tokens tokens)
  | .Other tokens => Exec.ofExcept (translate_tokens tokens)

def translate_path : List PathSegment → Exec String Usage String
  | [] => Exec.throw "Invalid type specification"
  | [.mk ident arguments] => do
    let translated := translate_name additional is_output ident.text
    Exec.modify (declare additional ident.text)
    let applied ← translate_arguments arguments
    pure (nonzero_sized (translated ++ applied))
  | _ :: segment :: segments => translate_path (segment :: segments)

def translate_arguments : PathArguments → Exec String Usage String
  | .None => pure ""
  | .AngleBracketed args => do
    let transformed_generics ← translate_generics args
    if 0 < transformed_generics.length then
      let stripped := transformed_generics.toList.take (transformed_generics.length - 2)
      pure ("<" ++ String.ofList stripped ++ ">")
    else pure ""
  | .Parenthesized debug => Exec.throw ("Only types with generic types supported, got: " ++ debug)

def translate_generics : List GenericArgument → Exec String Usage String
  | [] => pure ""
  | .Lifetime :: args => do
    let rest ← translate_generics args
    pure (", " ++ rest)
  | .Type ty :: args => do
    let translated ← translate_type ty
    let rest ← translate_generics args
    pure (translated ++ ", " ++ rest)
  | .Other :: _ => Exec.throw "Invalid type parameter"

end

end usage

section Applied

variable {additional : TypeMappings} {is_output : Bool} {args : List GenericArgument} {text : String}

/-- The arguments as they are printed, from the text that the loop over them leaves. -/
def applied (text : String) : String :=
  if 0 < text.length then "<" ++ String.ofList (text.toList.take (text.length - 2)) ++ ">" else ""

theorem applied_empty : applied "" = "" := rfl

theorem applied_separated (front : String) : applied (front ++ ", ") = "<" ++ front ++ ">" := by
  have hlength : (front ++ ", ").length = front.length + 2 := String.length_append front ", "
  have hstripped : (front ++ ", ").toList.take ((front ++ ", ").length - 2) = front.toList := by
    rw [hlength, Nat.add_sub_cancel, String.toList_append, ← String.length_toList, List.take_left]
  unfold applied
  rw [hstripped, String.ofList_toList, if_pos (by omega)]

theorem translate_arguments_of_list (h : translate_generics additional is_output args = .ok text) :
    translate_arguments additional is_output (.AngleBracketed args) = .ok (applied text) := by
  rw [translate_arguments, h]
  unfold applied
  split
  · rename_i hpos
    exact if_pos hpos
  · rename_i hzero
    exact if_neg hzero

/-- Every argument, a lifetime too, leaves its separator. -/
theorem translate_generics_separated (h : translate_generics additional is_output args = .ok text) :
    text = "" ∨ ∃ front, text = front ++ ", " := by
  induction args generalizing text with
  | nil =>
    cases h
    exact .inl rfl
  | cons arg args ih =>
    have hbehind (front : String) {rest : String} (hrest : translate_generics additional is_output args = .ok rest) :
        ∃ front', front ++ ", " ++ rest = front' ++ ", " := by
      obtain rfl | ⟨front', rfl⟩ := ih hrest
      · exact ⟨front, String.append_empty⟩
      · exact ⟨front ++ ", " ++ front', (String.append_assoc ..).symm⟩
    cases arg with
    | Lifetime =>
      obtain ⟨rest, hrest, htext⟩ := bind_eq_ok_iff.mp h
      cases htext
      exact .inr (by simpa using hbehind "" hrest)
    | «Type» ty =>
      obtain ⟨translated, -, h⟩ := bind_eq_ok_iff.mp h
      obtain ⟨rest, hrest, htext⟩ := bind_eq_ok_iff.mp h
      cases htext
      exact .inr (hbehind translated hrest)
    | Other => cases h

end Applied

section Mentions

mutual

/-- The names that a translation comes to, in that order. -/
def mentions : Ty → List String
  | .Path segments => pathMentions segments
  | .Reference elem => mentions elem
  | .Tuple _ _ | .Other _ => []

def pathMentions : List PathSegment → List String
  | [] => []
  | [.mk ident arguments] => ident.text :: argumentMentions arguments
  | _ :: segment :: segments => pathMentions (segment :: segments)

def argumentMentions : PathArguments → List String
  | .None | .Parenthesized _ => []
  | .AngleBracketed args => genericMentions args

def genericMentions : List GenericArgument → List String
  | [] => []
  | .Type ty :: args => mentions ty ++ genericMentions args
  | .Lifetime :: args | .Other :: args => genericMentions args

end

end Mentions

namespace usage

section Collects

variable {additional : TypeMappings} {is_output : Bool} {α β : Type}

def declare_all (additional : TypeMappings) (names : List String) (used : Usage) : Usage :=
  names.foldl (fun used name => declare additional name used) used

/-- A name needs one namespace and at most one header. -/
theorem mem_declare_all (additional : TypeMappings) (names : List String) (used : Usage) :
    (∀ usg, usg ∈ (declare_all additional names used).namespace_usg ↔
      usg ∈ used.namespace_usg ∨ ∃ main ∈ names, ∃ incl, decl additional main = some (usg, incl)) ∧
    (∀ header, header ∈ (declare_all additional names used).includes ↔
      header ∈ used.includes ∨ ∃ main ∈ names, ∃ usg, decl additional main = some (usg, some header)) := by
  induction names generalizing used with
  | nil => simp [declare_all]
  | cons main names ih =>
    have hstep : declare_all additional (main :: names) used =
        declare_all additional names (usage.declare additional main used) := rfl
    have hmain : (∀ usg, usg ∈ (usage.declare additional main used).namespace_usg ↔
          usg ∈ used.namespace_usg ∨ ∃ incl, decl additional main = some (usg, incl)) ∧
        (∀ header, header ∈ (usage.declare additional main used).includes ↔
          header ∈ used.includes ∨ ∃ usg, decl additional main = some (usg, some header)) := by
      unfold usage.declare
      cases decl additional main with
      | none => simp
      | some entry =>
        obtain ⟨usg, incl⟩ := entry
        cases incl with
        | none => simp [or_comm, eq_comm]
        | some header => simp [or_comm, eq_comm]
    rw [hstep]
    constructor
    · intro usg
      rw [(ih _).1, hmain.1, List.exists_mem_cons_iff, or_assoc]
    · intro header
      rw [(ih _).2, hmain.2, List.exists_mem_cons_iff, or_assoc]

/-- A call that returns what is known of it without the sets, and if it succeeds leaves the
declarations of some names in them. -/
structure Collects (additional : TypeMappings) (x : Exec String Usage α) (result : Except String α)
    (names : List String) : Prop where
  ok : ∀ a, result = .ok a → ∀ used, x used = .ok a (declare_all additional names used)
  error : ∀ e, result = .error e → ∀ used, ∃ left, x used = .err e left

namespace Collects

variable {used used' : Usage} {a : α} {x : Exec String Usage α} {f : α → Exec String Usage β} {result : Except String α}
  {g : α → Except String β} {names names' : List String}

theorem ok_iff (h : Collects additional x result names) :
    x used = .ok a used' ↔ result = .ok a ∧ used' = declare_all additional names used := by
  cases result with
  | ok b =>
    rw [h.ok b rfl used]
    simp [eq_comm]
  | error e =>
    obtain ⟨left, hleft⟩ := h.error e rfl used
    simp [hleft]

theorem pure (a : α) : Collects additional (Pure.pure a) (.ok a) [] where
  ok b hb used := by
    cases hb
    rfl
  error e he := by cases he

theorem throw (e : String) : Collects additional (Exec.throw e : Exec String Usage α) (.error e) names where
  ok b hb := by cases hb
  error e' he used := by
    cases he
    exact ⟨used, rfl⟩

theorem ofExcept (result : Except String α) : Collects additional (Exec.ofExcept result) result [] := by
  cases result with
  | ok a => exact .pure a
  | error e => exact .throw e

theorem bind (hx : Collects additional x result names)
    (hf : ∀ a, Collects additional (f a) (g a) names') :
    Collects additional (x >>= f) (result >>= g) (names ++ names') := by
  cases result with
  | error e =>
    constructor
    · intro b hb
      cases hb
    intro e' he used
    cases he
    obtain ⟨left, hleft⟩ := hx.error e rfl used
    exact ⟨left, Exec.bind_of_err hleft⟩
  | ok a =>
    have hfirst := hx.ok a rfl
    constructor
    · intro b hb used
      rw [Exec.bind_of_ok (hfirst used), (hf a).ok b hb, declare_all, declare_all, declare_all,
        List.foldl_append]
    · intro e he used
      obtain ⟨left, hleft⟩ := (hf a).error e he (declare_all additional names used)
      exact ⟨left, (Exec.bind_of_ok (hfirst used)).trans hleft⟩

theorem bind_last (hx : Collects additional x result names)
    (hf : ∀ a, Collects additional (f a) (g a) []) :
    Collects additional (x >>= f) (result >>= g) names := by
  have hbind := hx.bind hf
  rwa [List.append_nil] at hbind

theorem map (hx : Collects additional x result names) (h : α → β) :
    Collects additional (do let a ← x; Pure.pure (h a)) (do let a ← result; Pure.pure (h a)) names :=
  hx.bind_last fun a => .pure (h a)

theorem ite {c : Prop} [Decidable c] {y : Exec String Usage α} {other : Except String α}
    (hx : Collects additional x result names) (hy : Collects additional y other names) :
    Collects additional (if c then x else y) (if c then result else other) names := by
  by_cases hc : c
  · rwa [if_pos hc, if_pos hc]
  · rwa [if_neg hc, if_neg hc]

theorem declare (hx : Collects additional x result names) (name : String) :
    Collects additional (do Exec.modify (usage.declare additional name); x) result (name :: names) where
  ok a ha used := hx.ok a ha (usage.declare additional name used)
  error e he used := hx.error e he (usage.declare additional name used)

end Collects

mutual

theorem translate_type_collects : (ty : Ty) → Collects additional (translate_type additional is_output ty)
    (l4_derive.translate_type additional is_output ty) (mentions ty)
  | .Path segments => translate_path_collects segments
  | .Tuple [] _ => .pure ""
  | .Reference elem => translate_type_collects elem
  | .Tuple (_ :: _) tokens => .ofExcept (translate_tokens tokens)
  | .Other tokens => .ofExcept (translate_tokens tokens)

theorem translate_path_collects : (segments : List PathSegment) →
    Collects additional (translate_path additional is_output segments)
      (l4_derive.translate_path additional is_output segments) (pathMentions segments)
  | [] => .throw _
  | [.mk ident arguments] => ((translate_arguments_collects arguments).map _).declare ident.text
  | .mk _ _ :: segment :: segments => translate_path_collects (segment :: segments)

theorem translate_arguments_collects : (arguments : PathArguments) →
    Collects additional (translate_arguments additional is_output arguments)
      (l4_derive.translate_arguments additional is_output arguments) (argumentMentions arguments)
  | .None => .pure ""
  | .AngleBracketed args => (translate_generics_collects args).bind_last fun _ => .ite (.pure _) (.pure "")
  | .Parenthesized _ => .throw _

theorem translate_generics_collects : (args : List GenericArgument) →
    Collects additional (translate_generics additional is_output args)
      (l4_derive.translate_generics additional is_output args) (genericMentions args)
  | [] => .pure ""
  | .Lifetime :: args => (translate_generics_collects args).map _
  | .Type ty :: args =>
    (translate_type_collects ty).bind fun _ => (translate_generics_collects args).map _
  | .Other :: _ => .throw _

end

end Collects

end usage

end l4_derive
