import L4Rust.L4Derive.Iface
import L4Rust.Library.Exec
import L4Rust.Library.FreshNames
import L4Rust.Library.Text

namespace l4_derive

namespace syn

/-- The characters of identifiers: none of them is punctuation. The `#` is that of a raw
identifier. -/
def IdentChar (c : Char) : Prop := c.isAlphanum ∨ c = '_' ∨ c = '#' ∨ 128 ≤ c.val

instance (c : Char) : Decidable (IdentChar c) := inferInstanceAs (Decidable (_ ∨ _ ∨ _ ∨ _))

structure Ident where
  text : String
  ne_empty : text ≠ ""
  chars : ∀ c ∈ text.toList, IdentChar c

mutual

/-- A type, with the tokens or the debug text of its parts where those are looked at. -/
inductive Ty where
  | Path (segments : List PathSegment)
  | Tuple (elems : List Ty) (tokens : String)
  | Reference (elem : Ty)
  | Other (tokens : String)

inductive PathSegment where
  | mk (ident : Ident) (arguments : PathArguments)

inductive PathArguments where
  | None
  | AngleBracketed (args : List GenericArgument)
  | Parenthesized (debug : String)

inductive GenericArgument where
  | Lifetime
  | Type (ty : Ty)
  | Other

end

/-- The pattern of an argument: a name, or else what the argument looks like in a debug text. -/
inductive Pat where
  | Ident (ident : Ident)
  | Other (debug : String)

/-- An argument. One that is just a pattern comes with what its tokens are as a type. -/
inductive FnArg where
  | SelfRef (mutability : Bool)
  | SelfValue
  | Captured (pat : Pat) (ty : Ty)
  | Inferred (parsed : Except String Ty)
  | Ignored (ty : Ty)

structure TraitItemMethod where
  ident : Ident
  constness : Bool
  inputs : List FnArg
  output : Option Ty
  default : Bool

mutual

/-- The type as far as the declaration of an interface looks at it. -/
def Ty.erase : Ty → TypeExpr
  | .Path segments => .Path (eraseSegments segments)
  | .Tuple elems _ => .Tuple (eraseTypes elems)
  | .Reference elem => .Reference elem.erase
  | .Other tokens => .Verbatim tokens

def eraseTypes : List Ty → List TypeExpr
  | [] => []
  | ty :: tys => ty.erase :: eraseTypes tys

def eraseSegments : List PathSegment → List (String × List TypeExpr)
  | [] => []
  | .mk ident arguments :: segments => (ident.text, eraseArguments arguments) :: eraseSegments segments

def eraseArguments : PathArguments → List TypeExpr
  | .None | .Parenthesized _ => []
  | .AngleBracketed args => eraseGenerics args

def eraseGenerics : List GenericArgument → List TypeExpr
  | [] => []
  | .Type ty :: args => ty.erase :: eraseGenerics args
  | .Lifetime :: args | .Other :: args => eraseGenerics args

end

def Pat.erase : Pat → String
  | .Ident ident => ident.text
  | .Other debug => debug

def FnArg.erase : FnArg → l4_derive.FnArg
  | .SelfRef mutability => .SelfRef mutability
  | .SelfValue => .SelfValue
  | .Captured pat ty => .Captured pat.erase ty.erase
  | .Inferred _ => .Inferred
  | .Ignored ty => .Ignored ty.erase

def TraitItemMethod.erase (m : TraitItemMethod) : l4_derive.TraitItemMethod where
  ident := m.ident.text
  constness := m.constness
  inputs := m.inputs.map FnArg.erase
  output := m.output.map Ty.erase
  default := m.default

/-- The return type that `enumerate_iface_methods` leaves, which is the unit type if there is
none. -/
def TraitItemMethod.ret (m : TraitItemMethod) : Ty := m.output.getD (.Other "()")

end syn

open syn (Ty PathSegment PathArguments GenericArgument)

def RUST2CPP_TYPE : List (String × String) := [
  ("char", "char"), ("i8", "char"), ("u8", "unsigned char"), ("i16", "l4_int16_t"),
  ("u16", "l4_uint16_t"), ("i32", "l4_int32_t"), ("u32", "l4_uint32_t"), ("i64", "l4_int64_t"),
  ("u64", "l4_uint64_t"), ("f32", "float"), ("f64", "double"), ("usize", "l4_umword_t"),
  ("isize", "l4_mword_t"), ("bool", "bool"), ("Option", "Opt"), ("Cap", "Cap"),
  ("String", "String<>"), ("str", "String<>")]

def RUST2CPP_OUTPUT : List (String × String) := [("String", "String<char>"), ("str", "String<char>")]

/-- From the name of a Rust type to a C++ namespace and the name of a C++ type. -/
abbrev TypeMappings : Type := String → Option (String × String)

section Types

variable (additional : TypeMappings) (is_output : Bool)

/-- The C++ name for the last segment of a path, without what it is applied to. -/
def translate_name (main : String) : String :=
  let translated := (((additional main).map Prod.snd).or (RUST2CPP_TYPE.lookup main)).getD main
  if is_output then (RUST2CPP_OUTPUT.lookup main).getD translated else translated

/-- Types that are not paths, by their tokens: only the unit type is known. -/
def translate_tokens (tokens : String) : Except String String :=
  let n := String.ofList (tokens.toList.filter fun c => !Text.is_whitespace c)
  if n = "()" then .ok "" else .error ("Unrecognised type expression: " ++ n)

/-- Types without a size have no C++ type. -/
def nonzero_sized (translated : String) : String := if translated = "()" then "" else translated

mutual

def translate_type : Ty → Except String String
  | .Path segments => translate_path segments
  | .Tuple [] _ => .ok ""
  | .Reference elem => translate_type elem
  | .Tuple (_ :: _) tokens => translate_tokens tokens
  | .Other tokens => translate_tokens tokens

/-- Only the last segment counts. -/
def translate_path : List PathSegment → Except String String
  | [] => .error "Invalid type specification"
  | [.mk ident arguments] => do
    let translated := translate_name additional is_output ident.text
    let applied ← translate_arguments arguments
    pure (nonzero_sized (translated ++ applied))
  | _ :: segment :: segments => translate_path (segment :: segments)

def translate_arguments : PathArguments → Except String String
  | .None => .ok ""
  | .AngleBracketed args => do
    let transformed_generics ← translate_generics args
    if 0 < transformed_generics.length then
      -- The last separator is stripped.
      let stripped := transformed_generics.toList.take (transformed_generics.length - 2)
      pure ("<" ++ String.ofList stripped ++ ">")
    else pure ""
  | .Parenthesized debug => .error ("Only types with generic types supported, got: " ++ debug)

/-- The loop over the arguments, with a separator behind each. -/
def translate_generics : List GenericArgument → Except String String
  | [] => .ok ""
  | .Lifetime :: args => do
    let rest ← translate_generics args
    pure (", " ++ rest)
  | .Type ty :: args => do
    let translated ← translate_type ty
    let rest ← translate_generics args
    pure (translated ++ ", " ++ rest)
  | .Other :: _ => .error "Invalid type parameter"

end

end Types

/-- The name that `new_var` gives for a byte. -/
def letter (k : Nat) : String := String.singleton (Char.ofNat (97 + k))

/-- Bytes from 97 on, until the range overflows. -/
def VARS : Nat := 158

/-- A name that is not used yet. The program stops if the bytes run out. -/
def new_var (used : List String) : Option String := (FreshNames.fresh letter VARS used).map letter

/-- The name and the type of an argument, unless it is `self`. -/
def arg_name_type : syn.FnArg → Option (Except String (String × Ty))
  | .SelfRef _ | .SelfValue => none
  | .Inferred parsed => some (parsed.map fun ty => ("", ty))
  | .Ignored ty => some (.ok ("", ty))
  | .Captured (.Ident ident) ty => some (.ok (ident.text, ty))
  | .Captured (.Other debug) _ => some (.error ("Invalid argument type " ++ debug))

/-- The operator `?`. -/
def propagate {α : Type} : Except String α → Exec String Unit α
  | .ok a => pure a
  | .error e => Exec.throw e

/-- The loop of `gen_cpp_rpc_method` over the arguments, with the names used so far and the text. -/
def gen_cpp_args (ty_mappings : TypeMappings) : Nat → List String → String → List syn.FnArg →
    Exec String Unit (List String × String)
  | _, used_vars, cpp, [] => pure (used_vars, cpp)
  | idx, used_vars, cpp, fnarg :: inputs =>
    match arg_name_type fnarg with
    | none => gen_cpp_args ty_mappings (idx + 1) used_vars cpp inputs
    | some named => do
      let (name, argtype) ← propagate named
      let name ← (if name = "" then Exec.checked (new_var used_vars) else pure name)
      let argtype ← propagate (translate_type ty_mappings false argtype)
      -- There is no separator before the first argument behind `self`.
      let cpp := if 1 < idx then cpp ++ ", " else cpp
      gen_cpp_args ty_mappings (idx + 1) (used_vars ++ [name]) (cpp ++ argtype ++ " " ++ name) inputs

/-- The return type is a reference behind the arguments, if it has a C++ type. -/
def gen_cpp_ret (ty_mappings : TypeMappings) (used_vars : List String) (cpp : String) :
    Option Ty → Exec String Unit String
  | none => pure cpp
  | some ty => do
    let ty ← propagate (translate_type ty_mappings true ty)
    if ty = "" then pure cpp
    else do
      let name ← Exec.checked (new_var used_vars)
      pure (cpp ++ ", " ++ ty ++ "& " ++ name)

def gen_cpp_rpc_method (ty_mappings : TypeMappings) (method : syn.TraitItemMethod) :
    Exec String Unit String := do
  let cpp := "  L4_INLINE_RPC(int, " ++ method.ident.text ++ ", ("
  let (used_vars, cpp) ← gen_cpp_args ty_mappings 0 [] cpp method.inputs
  let cpp ← gen_cpp_ret ty_mappings used_vars cpp method.output
  pure (cpp ++ "));\n")

end l4_derive
