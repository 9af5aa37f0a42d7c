import Mathlib.Algebra.Order.BigOperators.Group.List
import L4Rust.L4Derive.Iface
import L4Rust.Library.Lists

open l4.ipc l4.utcb

namespace l4.ipc

/-- Decoding a capability or a flex page takes a receive slot. -/
def ArgTy.takesSlot : ArgTy → Bool
  | .cap | .flexPage => true
  | .scalar _ | .unit | .option _ | .string | .vec _ => false

/-- The receive slots it takes to decode values of the given types. -/
def slotsTaken (types : List ArgTy) : Nat := types.countP ArgTy.takesSlot

end l4.ipc

namespace l4_derive

/-- Whether an argument takes a receive slot, whatever its type is called. -/
def FnArg.takesSlot (scope : Scope) (arg : FnArg) : Bool := (arg.expand scope).any ArgTy.takesSlot

/-- The arguments of a method whose type is called `Cap`. -/
def IfaceMethod.spelled (m : IfaceMethod) : Nat := m.inner_ref.inputs.countP FnArg.counts

/-- Those that take a receive slot under another name. -/
def IfaceMethod.hidden (scope : Scope) (m : IfaceMethod) : Nat :=
  m.inner_ref.inputs.countP fun arg => arg.takesSlot scope && !arg.counts

/-- Those that are called `Cap` and take none. -/
def IfaceMethod.spare (scope : Scope) (m : IfaceMethod) : Nat :=
  m.inner_ref.inputs.countP fun arg => arg.counts && !arg.takesSlot scope

/-- Whether the reply to a method takes a receive slot. -/
def IfaceMethod.returnsSlot (scope : Scope) (m : IfaceMethod) : Bool :=
  (m.inner_ref.output >>= scope.argTy).any ArgTy.takesSlot

/-- The arguments called `Cap` of all methods together. -/
def totalSpelled (methods : List IfaceMethod) : Nat := (methods.map IfaceMethod.spelled).sum

/-- The demand is the number of arguments it counts, and no request and no reply
takes more slots. -/
structure DemandSuffices (iface : Iface) (I : Interface) : Prop where
  exact_sum : I.CAP_DEMAND = totalSpelled iface.methods
  requests : ∀ m ∈ I.methods, slotsTaken m.args ≤ I.CAP_DEMAND
  replies : ∀ m ∈ I.methods, slotsTaken [m.ret] ≤ I.CAP_DEMAND

/-- At most 255 arguments are called `Cap`; what a method receives under other
names is made up for by the arguments called `Cap` of the other methods, and what
a reply carries by at least one such argument. -/
structure DemandCovers (scope : Scope) (methods : List IfaceMethod) : Prop where
  total_lt : totalSpelled methods < 2 ^ 8
  requests : ∀ m ∈ methods, m.hidden scope ≤ totalSpelled methods - m.spelled + m.spare scope
  replies : ∀ m ∈ methods, m.returnsSlot scope → 0 < totalSpelled methods

/-- The sum is computed modulo `2 ^ 8`. -/
theorem count_demand_eq (methods : List IfaceMethod) :
    count_demand methods = totalSpelled methods % 2 ^ 8 := by
  have hfrom (count : Nat) (hcount : count < 2 ^ 8) :
      methods.foldl (fun count method =>
          (count + (method.inner_ref.inputs.countP FnArg.counts) % 2 ^ 8) % 2 ^ 8) count =
        (count + totalSpelled methods) % 2 ^ 8 := by
    unfold totalSpelled
    induction methods generalizing count with
    | nil => exact (Nat.mod_eq_of_lt hcount).symm
    | cons method methods ih =>
      rw [List.foldl_cons, ih _ (Nat.mod_lt _ (by decide)), List.map_cons, List.sum_cons,
        IfaceMethod.spelled]
      omega
  unfold count_demand
  rw [hfrom 0 (by decide), Nat.zero_add]

/-- The slots a request takes, by what the declaration shows. -/
theorem slotsTaken_args {scope : Scope} {method : IfaceMethod} {m : Method}
    (h : method.expand scope = some m) :
    slotsTaken m.args + method.spare scope = method.spelled + method.hidden scope := by
  obtain ⟨inner, inputs, _, hmethod, hinputs, hargs, _⟩ := expand_cases h
  have hinner : method.inner_ref = inner := by rw [hmethod]; rfl
  have hcount : slotsTaken m.args = inner.inputs.countP (FnArg.takesSlot scope) := by
    have hself : ¬ FnArg.takesSlot scope (.SelfRef true) = true := Bool.false_ne_true
    rw [hinputs, List.countP_cons_of_neg hself]
    exact Lists.countP_of_mapM ArgTy.takesSlot hargs
  unfold IfaceMethod.spare IfaceMethod.spelled IfaceMethod.hidden
  rw [hcount, hinner]
  exact Lists.countP_exchange _ _ _

theorem slotsTaken_ret {scope : Scope} {method : IfaceMethod} {m : Method}
    (h : method.expand scope = some m) :
    slotsTaken [m.ret] = if method.returnsSlot scope then 1 else 0 := by
  obtain ⟨inner, _, output, hmethod, _, _, houtput, hret⟩ := expand_cases h
  have hslot : method.returnsSlot scope = m.ret.takesSlot := by
    have hinner : method.inner_ref = inner := by rw [hmethod]; rfl
    simp [IfaceMethod.returnsSlot, hinner, houtput, hret]
  rw [hslot, slotsTaken, List.countP_singleton]

theorem spelled_le_total {methods : List IfaceMethod} {m : IfaceMethod} (h : m ∈ methods) :
    m.spelled ≤ totalSpelled methods :=
  List.le_sum_of_mem (List.mem_map_of_mem h)

/-- For every accepted interface the demand is enough for every request and
reply exactly when the arguments called `Cap` cover the others. -/
theorem demand_suffices_iff (scope : Scope) (items : List TraitItem) (iface : Iface) (I : Interface)
    (hparse : Iface.parse items = .ok iface) (hback : iface_back scope iface = some I) :
    DemandSuffices iface I ↔ DemandCovers scope iface.methods := by
  obtain ⟨_, _, _, _, _, hdemand⟩ := parse_cases hparse
  obtain ⟨hcaps, hmethods⟩ := iface_back_cases hback
  rw [hdemand, count_demand_eq] at hcaps
  have hpairs := Lists.forall₂_of_mapM hmethods
  have hrequests : (∀ m ∈ iface.methods,
      m.hidden scope ≤ totalSpelled iface.methods - m.spelled + m.spare scope) ↔
      ∀ m ∈ I.methods, slotsTaken m.args ≤ totalSpelled iface.methods := by
    apply Lists.forall₂_forall_iff hpairs
    intro method m hm hmem
    have hslots := slotsTaken_args hm
    have hle := spelled_le_total hmem
    omega
  have hreplies : (∀ m ∈ iface.methods, m.returnsSlot scope → 0 < totalSpelled iface.methods) ↔
      ∀ m ∈ I.methods, slotsTaken [m.ret] ≤ totalSpelled iface.methods := by
    apply Lists.forall₂_forall_iff hpairs
    intro method m hm _
    rw [slotsTaken_ret hm]
    cases method.returnsSlot scope <;> simp [Nat.one_le_iff_ne_zero, Nat.pos_iff_ne_zero]
  constructor
  · rintro ⟨hsum, hargs, hret⟩
    rw [hsum] at hcaps hargs hret
    refine ⟨?_, hrequests.mpr hargs, hreplies.mpr hret⟩
    rw [hcaps]
    exact Nat.mod_lt _ (by decide)
  · rintro ⟨htotal, hargs, hret⟩
    rw [Nat.mod_eq_of_lt htotal] at hcaps
    refine ⟨hcaps, ?_, ?_⟩
    · rw [hcaps]
      exact hrequests.mp hargs
    · rw [hcaps]
      exact hreplies.mp hret

/-- A type named without arguments. -/
def named (name : String) : TypeExpr := .Path [(name, [])]

/-- A capability to something of the given name. -/
def capTo (name : String) : TypeExpr := .Path [("Cap", [named name])]

/-- An interface that sends a capability one way and returns one. -/
def exchangeDecl : List TraitItem :=
  [.Attr (.Const "PROTOCOL_ID" (some 0x4000#64)),
    .Method ⟨"exchange", false, [.SelfRef true, .Captured "offset" (named "u64"),
      .Captured "src" (capTo "Dataspace")], some (capTo "Dataspace"), false⟩]

/-- A method that takes a capability and returns one has a demand of one slot, which is enough for both. -/
theorem demand_suffices_exchange :
    ∃ iface I, Iface.parse exchangeDecl = .ok iface ∧ iface_back .prelude iface = some I ∧
      I.CAP_DEMAND = 1 ∧ DemandSuffices iface I := by
  refine ⟨_, _, rfl, rfl, rfl, ?_⟩
  apply (demand_suffices_iff .prelude exchangeDecl _ _ rfl rfl).mpr
  refine ⟨by decide, ?_, ?_⟩
  · intro m hm
    obtain rfl := List.mem_singleton.mp hm
    decide
  · intro m hm
    obtain rfl := List.mem_singleton.mp hm
    decide

/-- `MemoryAllocator` of the runtime environment, with `PROTO_EMPTY` for its
protocol. -/
def memoryAllocatorDecl : List TraitItem :=
  [.Attr (.Const "PROTOCOL_ID" (some (BitVec.ofInt 64 (-19)))),
    .Method ⟨"alloc", false, [.SelfRef true, .Captured "size" (named "isize"),
      .Captured "flags" (named "u64"), .Captured "align" (.Path [("Option", [named "u64"])])],
      some (capTo "Dataspace"), false⟩]

/-- The reply to `alloc` carries a capability, but no slot is allocated for it. -/
theorem demand_suffices_fails :
    ∃ iface I, Iface.parse memoryAllocatorDecl = .ok iface ∧
      iface_back .prelude iface = some I ∧ I.CAP_DEMAND = 0 ∧
      I.methods.map (fun m => slotsTaken [m.ret]) = [1] ∧ ¬ DemandSuffices iface I := by
  refine ⟨_, _, rfl, rfl, rfl, rfl, ?_⟩
  intro hsuffices
  exact absurd (hsuffices.replies _ (List.mem_singleton_self _)) (by decide)

end l4_derive
