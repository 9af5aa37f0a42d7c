import L4Rust.L4Derive.Export.ParameterList
import L4Rust.L4Derive.Export.Usage

namespace l4_derive

open syn (Ty PathSegment PathArguments GenericArgument)

section Types

mutual

/-- Types that are built from paths, references, lifetimes and types in angle brackets. -/
def Generic : Ty → Prop
  | .Path segments => segments ≠ [] ∧ GenericSegments segments
  | .Reference elem => Generic elem
  | .Tuple _ _ | .Other _ => False

def GenericSegments : List PathSegment → Prop
  | [] => True
  | .mk _ arguments :: segments => GenericArguments arguments ∧ GenericSegments segments

def GenericArguments : PathArguments → Prop
  | .None => True
  | .AngleBracketed args => GenericList args
  | .Parenthesized _ => False

def GenericList : List GenericArgument → Prop
  | [] => True
  | .Lifetime :: args => GenericList args
  | .Type ty :: args => Generic ty ∧ GenericList args
  | .Other :: _ => False

end

mutual

/-- Such a type without its lifetime arguments. -/
def strip : Ty → Ty
  | .Path segments => .Path (stripSegments segments)
  | .Reference elem => .Reference (strip elem)
  | .Tuple elems tokens => .Tuple elems tokens
  | .Other tokens => .Other tokens

def stripSegments : List PathSegment → List PathSegment
  | [] => []
  | .mk ident arguments :: segments => .mk ident (stripArguments arguments) :: stripSegments segments

/-- A list of arguments that becomes empty is dropped. -/
def stripArguments : PathArguments → PathArguments
  | .None => .None
  | .AngleBracketed args =>
    match stripList args with
    | [] => .None
    | arg :: args => .AngleBracketed (arg :: args)
  | .Parenthesized debug => .Parenthesized debug

def stripList : List GenericArgument → List GenericArgument
  | [] => []
  | .Lifetime :: args => stripList args
  | .Type ty :: args => .Type (strip ty) :: stripList args
  | .Other :: args => .Other :: stripList args

end

mutual

/-- Whether a lifetime is among the arguments of the last segment of the path, or of one of the types
that are arguments there. -/
def TakesLifetime : Ty → Prop
  | .Path segments => PathTakesLifetime segments
  | .Reference elem => TakesLifetime elem
  | .Tuple _ _ | .Other _ => False

def PathTakesLifetime : List PathSegment → Prop
  | [] => False
  | [.mk _ arguments] => ArgumentsTakeLifetime arguments
  | _ :: segment :: segments => PathTakesLifetime (segment :: segments)

def ArgumentsTakeLifetime : PathArguments → Prop
  | .None | .Parenthesized _ => False
  | .AngleBracketed args => ListTakesLifetime args

def ListTakesLifetime : List GenericArgument → Prop
  | [] => False
  | .Lifetime :: _ => True
  | .Type ty :: args => TakesLifetime ty ∨ ListTakesLifetime args
  | .Other :: args => ListTakesLifetime args

end

mutual

theorem mentions_strip : (ty : Ty) → mentions (strip ty) = mentions ty
  | .Path segments => pathMentions_strip segments
  | .Reference elem => mentions_strip elem
  | .Tuple _ _ | .Other _ => rfl

theorem pathMentions_strip : (segments : List PathSegment) →
    pathMentions (stripSegments segments) = pathMentions segments
  | [] => rfl
  | [.mk ident arguments] => congrArg (ident.text :: ·) (argumentMentions_strip arguments)
  | .mk _ _ :: .mk ident arguments :: segments => pathMentions_strip (.mk ident arguments :: segments)

theorem argumentMentions_strip : (arguments : PathArguments) →
    argumentMentions (stripArguments arguments) = argumentMentions arguments
  | .None => rfl
  | .AngleBracketed args => by
    rw [argumentMentions, ← genericMentions_strip args, stripArguments]
    cases stripList args with
    | nil => rfl
    | cons arg args => rfl
  | .Parenthesized _ => rfl

theorem genericMentions_strip : (args : List GenericArgument) →
    genericMentions (stripList args) = genericMentions args
  | [] => rfl
  | .Lifetime :: args => genericMentions_strip args
  | .Type ty :: args => congrArg₂ (· ++ ·) (mentions_strip ty) (genericMentions_strip args)
  | .Other :: args => genericMentions_strip args

end

end Types

section Texts

variable {counted : Prop} {text text' : String}

/-- The text for a type without its lifetimes, against that for the type: shorter if there are any
that count, and else the same. -/
structure Shrinks (counted : Prop) (text text' : String) : Prop where
  same : ¬ counted → text' = text
  shorter : counted → text'.length < text.length

theorem Shrinks.length_le (h : Shrinks counted text text') : text'.length ≤ text.length := by
  by_cases hc : counted
  · exact (h.shorter hc).le
  · rw [h.same hc]

theorem Shrinks.eq_iff (h : Shrinks counted text text') : text = text' ↔ ¬ counted := by
  constructor
  · intro heq hc
    have hlt := h.shorter hc
    rw [heq] at hlt
    exact lt_irrefl _ hlt
  · intro hc
    exact (h.same hc).symm

theorem length_applied (h : text.length ≠ 1) : (applied text).length = text.length := by
  unfold applied
  split
  · have hstripped : (String.ofList (text.toList.take (text.length - 2))).length = text.length - 2 := by
      rw [String.length_ofList, List.length_take, String.length_toList]
      omega
    rw [String.length_append, String.length_append, hstripped]
    have hopen : "<".length = 1 := rfl
    have hclose : ">".length = 1 := rfl
    omega
  · have hempty : "".length = 0 := rfl
    omega

theorem Shrinks.applied (h : Shrinks counted text text') (hlength : text.length ≠ 1)
    (hlength' : text'.length ≠ 1) : Shrinks counted (applied text) (applied text') where
  same hc := by rw [h.same hc]
  shorter hc := by
    rw [length_applied hlength, length_applied hlength']
    exact h.shorter hc

theorem nonzero_sized_applied (name : String) (h : 0 < text.length) :
    nonzero_sized (name ++ applied text) = name ++ applied text := by
  have hne : name ++ applied text ≠ "()" := by
    intro heq
    have hlast := congrArg (fun s : String => s.toList.getLast?) heq
    rw [applied, if_pos h] at hlast
    have htext : (name ++ ("<" ++ String.ofList (text.toList.take (text.length - 2)) ++ ">")).toList =
        name.toList ++ '<' :: text.toList.take (text.length - 2) ++ ['>'] := by
      simp [String.toList_append]
    rw [htext, List.getLast?_concat] at hlast
    cases hlast
  exact if_neg hne

theorem length_nonzero_sized_le (text : String) : (nonzero_sized text).length ≤ text.length := by
  unfold nonzero_sized
  split
  · exact Nat.zero_le _
  · exact le_rfl

theorem Shrinks.nonzero_sized (h : Shrinks counted text text') (hlength : text.length ≠ 1)
    (hlength' : text'.length ≠ 1) (name : String) :
    Shrinks counted (nonzero_sized (name ++ l4_derive.applied text))
      (nonzero_sized (name ++ l4_derive.applied text')) where
  same hc := by rw [h.same hc]
  shorter hc := by
    have hlt := h.shorter hc
    have hle := length_nonzero_sized_le (name ++ l4_derive.applied text')
    rw [nonzero_sized_applied name (Nat.zero_lt_of_lt hlt)]
    rw [String.length_append, length_applied hlength'] at hle
    rw [String.length_append, length_applied hlength]
    omega

end Texts

section Translations

variable (additional : TypeMappings) (is_output : Bool)

/-- Two translations succeed, of a type and of the same without its lifetimes. -/
def BothSucceed (counted : Prop) (result result' : Except String String) : Prop :=
  ∃ text text', result = .ok text ∧ result' = .ok text' ∧ Shrinks counted text text'

theorem length_translate_generics {additional : TypeMappings} {is_output : Bool}
    {args : List GenericArgument} {text : String}
    (h : translate_generics additional is_output args = .ok text) : text.length ≠ 1 := by
  obtain rfl | ⟨front, rfl⟩ := translate_generics_separated h
  · exact Nat.zero_ne_one
  · have hseparator : ", ".length = 2 := rfl
    rw [String.length_append]
    omega

theorem translate_stripArguments (args : List GenericArgument) :
    translate_arguments additional is_output (stripArguments (.AngleBracketed args)) =
      translate_arguments additional is_output (.AngleBracketed (stripList args)) := by
  rw [stripArguments]
  cases stripList args with
  | nil => rfl
  | cons arg args => rfl

mutual

theorem translate_type_strip : (ty : Ty) → Generic ty → BothSucceed (TakesLifetime ty)
    (translate_type additional is_output ty) (translate_type additional is_output (strip ty))
  | .Path segments, h => translate_path_strip segments h.1 h.2
  | .Reference elem, h => translate_type_strip elem h
  | .Tuple _ _, h => h.elim
  | .Other _, h => h.elim

theorem translate_path_strip : (segments : List PathSegment) → segments ≠ [] → GenericSegments segments →
    BothSucceed (PathTakesLifetime segments) (translate_path additional is_output segments)
      (translate_path additional is_output (stripSegments segments))
  | [], hne, _ => absurd rfl hne
  | [.mk ident .None], _, _ => ⟨_, _, rfl, rfl, fun _ => rfl, False.elim⟩
  | [.mk ident (.AngleBracketed args)], _, h => by
    obtain ⟨text, text', htext, htext', hshrinks⟩ := translate_list_strip args h.1
    have hlength := length_translate_generics htext
    have hlength' := length_translate_generics htext'
    refine ⟨_, _, ?_, ?_, hshrinks.nonzero_sized hlength hlength' (translate_name additional is_output ident.text)⟩
    · rw [translate_path, translate_arguments_of_list htext]
      rfl
    · rw [stripSegments, stripSegments, translate_path, translate_stripArguments,
        translate_arguments_of_list htext']
      rfl
  | [.mk _ (.Parenthesized _)], _, h => h.1.elim
  | .mk _ _ :: .mk ident arguments :: segments, _, h =>
    translate_path_strip (.mk ident arguments :: segments) (List.cons_ne_nil _ _) h.2

theorem translate_list_strip : (args : List GenericArgument) → GenericList args →
    BothSucceed (ListTakesLifetime args) (translate_generics additional is_output args)
      (translate_generics additional is_output (stripList args))
  | [], _ => ⟨"", "", rfl, rfl, fun _ => rfl, False.elim⟩
  | .Lifetime :: args, h => by
    obtain ⟨rest, rest', hrest, hrest', hshrinks⟩ := translate_list_strip args h
    refine ⟨", " ++ rest, rest', ?_, hrest', fun hc => absurd trivial hc, fun _ => ?_⟩
    · rw [translate_generics, hrest]
      rfl
    · -- The separator is left.
      have hle := hshrinks.length_le
      have hseparator : ", ".length = 2 := rfl
      rw [String.length_append]
      omega
  | .Type ty :: args, h => by
    obtain ⟨cpp, cpp', hcpp, hcpp', hty⟩ := translate_type_strip ty h.1
    obtain ⟨rest, rest', hrest, hrest', hshrinks⟩ := translate_list_strip args h.2
    refine ⟨cpp ++ ", " ++ rest, cpp' ++ ", " ++ rest', ?_, ?_, ?_, ?_⟩
    · rw [translate_generics, hcpp, hrest]
      rfl
    · rw [stripList, translate_generics, hcpp', hrest']
      rfl
    · intro hc
      obtain ⟨hcpp, hrest⟩ := not_or.mp hc
      rw [hty.same hcpp, hshrinks.same hrest]
    · intro hc
      have hle := hty.length_le
      have hle' := hshrinks.length_le
      simp only [String.length_append]
      obtain hc | hc := hc
      · have hlt := hty.shorter hc
        omega
      · have hlt := hshrinks.shorter hc
        omega
  | .Other :: _, h => h.elim

end

end Translations

/-- The lifetimes are ignored exactly where there is none that counts: the text is longer by the
separators otherwise, while the names are the same. -/
theorem lifetimes_ignored_iff (additional : TypeMappings) (is_output : Bool) (ty : Ty) (h : Generic ty)
    (used : Usage) :
    usage.translate_type additional is_output ty used = usage.translate_type additional is_output (strip ty) used ↔
      ¬ TakesLifetime ty := by
  obtain ⟨cpp, cpp', hcpp, hcpp', hshrinks⟩ := translate_type_strip additional is_output ty h
  rw [(usage.translate_type_collects ty).ok cpp hcpp used,
    (usage.translate_type_collects (strip ty)).ok cpp' hcpp' used, mentions_strip, ← hshrinks.eq_iff]
  simp

/-- The type `Foo<'a>::Bar<u32>`, whose lifetime is not among the arguments that are looked at. -/
def lifetimeBefore : Ty :=
  .Path [.mk (ident "Foo" (by decide)) (.AngleBracketed [.Lifetime]),
    .mk (ident "Bar" (by decide)) (.AngleBracketed [.Type u32])]

/-- A lifetime in a segment in front of the last one leaves no trace in the text. -/
theorem lifetime_before_ignored :
    Generic lifetimeBefore ∧ usage.translate_type noMappings false lifetimeBefore ⟨∅, ∅⟩ =
      usage.translate_type noMappings false (strip lifetimeBefore) ⟨∅, ∅⟩ := by
  have hgeneric : Generic lifetimeBefore := by
    simp [Generic, GenericSegments, GenericArguments, GenericList, lifetimeBefore, u32]
  refine ⟨hgeneric, (lifetimes_ignored_iff noMappings false lifetimeBefore hgeneric ⟨∅, ∅⟩).mpr ?_⟩
  simp [TakesLifetime, PathTakesLifetime, ArgumentsTakeLifetime, ListTakesLifetime, lifetimeBefore, u32]

/-- The type `Foo<'a, u32>`. -/
def lifetimeFirst : Ty := .Path [.mk (ident "Foo" (by decide)) (.AngleBracketed [.Lifetime, .Type u32])]

/-- The separator behind a lifetime stays in the text. -/
theorem separator_left :
    Generic lifetimeFirst ∧
      (usage.translate_type noMappings false lifetimeFirst ⟨∅, ∅⟩).value? = some "Foo<, l4_uint32_t>" ∧
      (usage.translate_type noMappings false (strip lifetimeFirst) ⟨∅, ∅⟩).value? = some "Foo<l4_uint32_t>" ∧
      usage.translate_type noMappings false lifetimeFirst ⟨∅, ∅⟩ ≠
        usage.translate_type noMappings false (strip lifetimeFirst) ⟨∅, ∅⟩ := by
  have htext : (usage.translate_type noMappings false lifetimeFirst ⟨∅, ∅⟩).value? =
      some "Foo<, l4_uint32_t>" := by decide +kernel
  have hstripped : (usage.translate_type noMappings false (strip lifetimeFirst) ⟨∅, ∅⟩).value? =
      some "Foo<l4_uint32_t>" := by decide +kernel
  refine ⟨?_, htext, hstripped, fun heq => ?_⟩
  · simp [Generic, GenericSegments, GenericArguments, GenericList, lifetimeFirst, u32]
  · rw [heq, hstripped] at htext
    exact absurd htext (by decide)

end l4_derive
