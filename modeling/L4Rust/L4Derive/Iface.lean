import L4Rust.L4.Ipc.Iface

open l4.ipc l4.utcb

namespace l4_derive

/-- A type as it is spelled in a declaration. -/
inductive TypeExpr where
  | Path (segments : List (String × List TypeExpr))
  | Tuple (elems : List TypeExpr)
  | Reference (elem : TypeExpr)
  | Verbatim (tokens : String)

inductive FnArg where
  | SelfRef (mutability : Bool)
  | SelfValue
  | Captured (name : String) (ty : TypeExpr)
  | Inferred
  | Ignored (ty : TypeExpr)

/-- A method of the declared trait. `default` tells whether it has a body. -/
structure TraitItemMethod where
  ident : String
  constness : Bool
  inputs : List FnArg
  output : Option TypeExpr
  default : Bool

inductive IfaceMethod where
  | Unnumbered (m : TraitItemMethod)
  | Numbered (opcode : Nat) (m : TraitItemMethod)

/-- An associated const or type, with the value it is given. -/
inductive IfaceAttr where
  | Const (ident : String) (default : Option (BitVec 64))
  | Type (ident : String) (default : Option TypeExpr)

inductive TraitItem where
  | Attr (attr : IfaceAttr)
  | Method (m : TraitItemMethod)
  | Other

/-- A parsed interface declaration. -/
structure Iface where
  protocol : BitVec 64
  optype : TypeExpr
  demand : Nat
  methods : List IfaceMethod

def IfaceMethod.inner_ref : IfaceMethod → TraitItemMethod
  | .Unnumbered m => m
  | .Numbered _ m => m

def IfaceMethod.same_type : IfaceMethod → IfaceMethod → Bool
  | .Unnumbered _, .Unnumbered _ => true
  | .Numbered _ _, .Numbered _ _ => true
  | _, _ => false

def IfaceMethod.set_opcode_if_unnumbered (opcode : Nat) : IfaceMethod → IfaceMethod
  | .Unnumbered m => .Numbered opcode m
  | .Numbered k m => .Numbered k m

/-- The default operand type. -/
def i32 : TypeExpr := .Verbatim "i32"

/-- The protocol and the operand type, the last one given winning. -/
def parse_iface_attributes : List IfaceAttr → Option (BitVec 64) → TypeExpr →
    Except String (BitVec 64 × TypeExpr)
  | [], protocol, optype =>
    match protocol with
    | none => .error "No protocol id (PROTOCOL_ID) specified"
    | some protocol => .ok (protocol, optype)
  | .Const ident default :: attrs, _, optype =>
    if ident = "PROTOCOL_ID" then
      match default with
      | some expr => parse_iface_attributes attrs (some expr) optype
      | none => .error "Missing protocol ID"
    else .error "Illegal interface attribute specified"
  | .Type ident default :: attrs, protocol, _ =>
    if ident = "OpType" then
      match default with
      | some tt => parse_iface_attributes attrs protocol tt
      | none => .error "No operand type specified"
    else .error "Illegal interface attribute specified"

/-- A method must be `fn(&mut self, …)` without a body. -/
def check_method (m : TraitItemMethod) : Except String Unit :=
  if m.constness then .error "Const fn functions not allowed"
  else match m.inputs with
    | .SelfRef true :: _ =>
      if m.default then .error "No default implementation allowed" else .ok ()
    | _ => .error "First parameter must be &mut self"

/-- A missing return type is the unit type. -/
def IfaceMethod.with_output : IfaceMethod → IfaceMethod
  | .Unnumbered m => .Unnumbered { m with output := some (m.output.getD (.Verbatim "()")) }
  | .Numbered k m => .Numbered k { m with output := some (m.output.getD (.Verbatim "()")) }

/-- The loop of `enumerate_iface_methods`. -/
def enumerate_from (opcode : Nat) : List IfaceMethod → Except String (List IfaceMethod)
  | [] => .ok []
  | method :: methods => do
    check_method method.inner_ref
    let rest ← enumerate_from (opcode + 1) methods
    pure (method.with_output.set_opcode_if_unnumbered opcode :: rest)

def enumerate_iface_methods (methods : List IfaceMethod) : Except String (List IfaceMethod) :=
  match methods with
  | [] => .error "Empty interfaces not allowed"
  | first :: _ =>
    if methods.all fun m => m.same_type first then enumerate_from 0 methods
    else .error "Found methods both with and without an opcode"

/-- An argument counts when the last segment of its path reads `Cap`. -/
def FnArg.counts : FnArg → Bool
  | .Captured _ (.Path segments) | .Ignored (.Path segments) =>
    match segments.getLast? with
    | some (ident, _) => ident = "Cap"
    | none => false
  | _ => false

/-- The receive window demand, summed over all methods in a `u8`, which wraps as in
the release profile. With overflow checks the macro stops instead, and there is no
interface to speak of. -/
def count_demand (methods : List IfaceMethod) : Nat :=
  methods.foldl (fun count method =>
    (count + (method.inner_ref.inputs.countP FnArg.counts) % 2 ^ 8) % 2 ^ 8) 0

/-- The attributes and the methods of a declaration, in order. -/
def split_items : List TraitItem → Except String (List IfaceAttr × List IfaceMethod)
  | [] => .ok ([], [])
  | .Attr attr :: items => do
    let (attrs, methods) ← split_items items
    pure (attr :: attrs, methods)
  | .Method m :: items => do
    let (attrs, methods) ← split_items items
    pure (attrs, .Unnumbered m :: methods)
  | .Other :: _ => .error "Only methods, associated consts and associated types allowed"

def Iface.parse (items : List TraitItem) : Except String Iface := do
  let (attrs, methods) ← split_items items
  let (protocol, optype) ← parse_iface_attributes attrs none i32
  let methods ← enumerate_iface_methods methods
  pure ⟨protocol, optype, count_demand methods, methods⟩

/-- What the types of a declaration name where the macro is used. -/
structure Scope where
  argTy : TypeExpr → Option ArgTy
  opType : TypeExpr → Option IntTy

def primitive? : String → Option Primitive
  | "i8" => some (.int .i8) | "i16" => some (.int .i16) | "i32" => some (.int .i32)
  | "i64" => some (.int .i64) | "i128" => some (.int .i128) | "isize" => some (.int .isize)
  | "u8" => some (.int .u8) | "u16" => some (.int .u16) | "u32" => some (.int .u32)
  | "u64" => some (.int .u64) | "u128" => some (.int .u128) | "usize" => some (.int .usize)
  | "f32" => some .f32 | "f64" => some .f64 | "bool" => some .bool | "char" => some .char
  | _ => none

/-- A scope in which the framework's types have their usual names. -/
def Scope.prelude : Scope where
  argTy
    | .Path [(name, [])] =>
      match name, primitive? name with
      | _, some P => some (.scalar P.serialisable)
      | "String", none => some .string
      | "SndFlexPage", none => some .flexPage
      | _, none => none
    | .Path [("Cap", [_])] => some .cap
    | .Path [("Vec", [.Path [(name, [])]])] => (primitive? name).map fun P => .vec P.serialisable
    | .Path [("Option", [.Path [(name, [])]])] => (primitive? name).map fun P => .option P.serialisable
    | .Tuple [] | .Verbatim "()" => some .unit
    | _ => none
  opType
    | .Path [(name, [])] | .Verbatim name =>
      match primitive? name with
      | some (.int I) => some I
      | _ => none
    | _ => none

def FnArg.expand (scope : Scope) : FnArg → Option ArgTy
  | .Captured _ ty => scope.argTy ty
  | _ => none

/-- Methods expand when every argument is named and typed and the receiver is a
mutable reference. -/
def IfaceMethod.expand (scope : Scope) : IfaceMethod → Option Method
  | .Numbered opcode m => do
    match m.inputs with
    | .SelfRef true :: inputs =>
      let args ← inputs.mapM (FnArg.expand scope)
      let ret ← m.output >>= scope.argTy
      pure ⟨opcode, args, ret⟩
    | _ => none
  | .Unnumbered _ => none

/-- The expansion of `iface_back!`, when it compiles. -/
def iface_back (scope : Scope) (iface : Iface) : Option Interface := do
  let OpType ← scope.opType iface.optype
  let methods ← iface.methods.mapM (IfaceMethod.expand scope)
  if h : ∀ m ∈ methods, m.opcode < IntTy.i32.bound ∧ m.opcode < OpType.bound then
    some ⟨iface.protocol, iface.demand, OpType, methods, h⟩
  else none

theorem bind_eq_ok_iff {ε α β : Type} {x : Except ε α} {f : α → Except ε β} {b : β} :
    (x >>= f) = .ok b ↔ ∃ a, x = .ok a ∧ f a = .ok b := by
  cases x with
  | error e => exact ⟨nofun, nofun⟩
  | ok a =>
    constructor
    · intro h
      exact ⟨a, rfl, h⟩
    · rintro ⟨a', ha, h⟩
      cases ha
      exact h

/-- What an accepted declaration goes through. -/
theorem parse_cases {items : List TraitItem} {iface : Iface} (h : Iface.parse items = .ok iface) :
    ∃ attrs methods, split_items items = .ok (attrs, methods) ∧
      parse_iface_attributes attrs none i32 = .ok (iface.protocol, iface.optype) ∧
      enumerate_iface_methods methods = .ok iface.methods ∧
      iface.demand = count_demand iface.methods := by
  unfold Iface.parse at h
  rw [bind_eq_ok_iff] at h
  obtain ⟨⟨attrs, methods⟩, hsplit, h⟩ := h
  rw [bind_eq_ok_iff] at h
  obtain ⟨⟨protocol, optype⟩, hattrs, h⟩ := h
  rw [bind_eq_ok_iff] at h
  obtain ⟨numbered, henum, h⟩ := h
  cases h
  exact ⟨attrs, methods, hsplit, hattrs, henum, rfl⟩

theorem iface_back_cases {scope : Scope} {iface : Iface} {I : Interface}
    (h : iface_back scope iface = some I) :
    I.CAP_DEMAND = iface.demand ∧
      iface.methods.mapM (IfaceMethod.expand scope) = some I.methods := by
  obtain ⟨OpType, _, h⟩ := Option.bind_eq_some_iff.mp h
  obtain ⟨methods, hmethods, h⟩ := Option.bind_eq_some_iff.mp h
  split at h
  · cases h
    exact ⟨rfl, hmethods⟩
  · cases h

/-- Parsing yields methods without opcodes. -/
theorem split_items_unnumbered {items : List TraitItem} {attrs : List IfaceAttr}
    {methods : List IfaceMethod} (h : split_items items = .ok (attrs, methods)) :
    ∀ m ∈ methods, ∃ inner, m = .Unnumbered inner := by
  induction items generalizing attrs methods with
  | nil =>
    cases h
    simp
  | cons item items ih =>
    cases item with
    | Attr attr =>
      rw [split_items, bind_eq_ok_iff] at h
      obtain ⟨rest, hrest, h⟩ := h
      cases h
      exact ih hrest
    | Method m =>
      rw [split_items, bind_eq_ok_iff] at h
      obtain ⟨rest, hrest, h⟩ := h
      cases h
      intro method hmethod
      rcases List.mem_cons.mp hmethod with rfl | htail
      · exact ⟨m, rfl⟩
      · exact ih hrest method htail
    | Other => cases h

/-- What an expanded method is made of. -/
theorem expand_cases {scope : Scope} {method : IfaceMethod} {m : Method}
    (h : method.expand scope = some m) :
    ∃ inner inputs output, method = .Numbered m.opcode inner ∧
      inner.inputs = .SelfRef true :: inputs ∧ inputs.mapM (FnArg.expand scope) = some m.args ∧
      inner.output = some output ∧ scope.argTy output = some m.ret := by
  cases method with
  | Unnumbered inner => cases h
  | Numbered opcode inner =>
    unfold IfaceMethod.expand at h
    dsimp only at h
    split at h
    · next inputs hinputs =>
      obtain ⟨args, hargs, h⟩ := Option.bind_eq_some_iff.mp h
      obtain ⟨ret, hret, h⟩ := Option.bind_eq_some_iff.mp h
      obtain ⟨output, houtput, hret⟩ := Option.bind_eq_some_iff.mp hret
      cases h
      exact ⟨inner, inputs, output, rfl, hinputs, hargs, houtput, hret⟩
    · cases h

/-- The opcodes count up from where the loop starts. -/
theorem enumerate_from_opcodes {methods numbered : List IfaceMethod} {opcode : Nat}
    (hunnumbered : ∀ m ∈ methods, ∃ inner, m = .Unnumbered inner)
    (h : enumerate_from opcode methods = .ok numbered) (scope : Scope) {expanded : List Method}
    (hexpand : numbered.mapM (IfaceMethod.expand scope) = some expanded) :
    expanded.map Method.opcode = List.range' opcode expanded.length := by
  induction methods generalizing opcode numbered expanded with
  | nil =>
    cases h
    cases hexpand
    rfl
  | cons method methods ih =>
    obtain ⟨inner, rfl⟩ := hunnumbered method (by simp)
    rw [enumerate_from, bind_eq_ok_iff] at h
    obtain ⟨_, _, h⟩ := h
    rw [bind_eq_ok_iff] at h
    obtain ⟨rest, hrest, h⟩ := h
    cases h
    rw [List.mapM_cons] at hexpand
    obtain ⟨m, hm, hexpand⟩ := Option.bind_eq_some_iff.mp hexpand
    obtain ⟨ms, hms, hexpand⟩ := Option.bind_eq_some_iff.mp hexpand
    cases hexpand
    obtain ⟨_, _, _, hmethod, _⟩ := expand_cases hm
    have hcode : m.opcode = opcode := by
      cases hmethod
      rfl
    have htail := ih (fun x hx => hunnumbered x (by simp [hx])) hrest hms
    rw [List.map_cons, hcode, htail, List.length_cons, List.range'_succ]

/-- The opcodes of an accepted interface are `0, 1, 2, …`. -/
theorem iface_back_opcodes {items : List TraitItem} {iface : Iface} (hparse : Iface.parse items = .ok iface)
    {scope : Scope} {I : Interface} (hback : iface_back scope iface = some I) :
    I.methods.map Method.opcode = List.range I.methods.length := by
  obtain ⟨attrs, methods, hsplit, _, henum, _⟩ := parse_cases hparse
  obtain ⟨_, hexpanded⟩ := iface_back_cases hback
  unfold enumerate_iface_methods at henum
  split at henum
  · cases henum
  · split at henum
    · rw [List.range_eq_range']
      exact enumerate_from_opcodes (split_items_unnumbered hsplit) henum scope hexpanded
    · cases henum

end l4_derive
