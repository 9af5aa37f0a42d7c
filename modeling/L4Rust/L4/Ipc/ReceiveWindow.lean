import L4Rust.L4.Ipc.Buffers
import L4Rust.L4.Ipc.Iface
import L4Rust.Library.Machine

open l4.error l4.utcb

namespace l4.ipc

variable {N : Nat}

/-- What the kernel finds when it is entered: the buffer registers, and beside
them the slots they are meant to announce. -/
structure Entry (N : Nat) where
  regs : BufRegs
  slots : BufferManager N

/-- The kernel reads the buffer registers up to the first zero word. -/
def BufRegs.window (u : BufRegs) : List (BitVec 64) := u.br.takeWhile (· ≠ 0)

/-- The window is what the manager has allocated. -/
def Entry.Exact (e : Entry N) : Prop := e.regs.window = e.slots.items

/-- A thread that receives through a buffer manager. `entries` records what the
kernel found at each IPC so far; the code never looks at it. -/
structure Receiver (N : Nat) where
  regs : BufRegs
  slots : BufferManager N
  entries : List (Entry N)

/-- Enter the kernel, which leaves the buffer registers alone. -/
def Receiver.enter (self : Receiver N) : Receiver N :=
  { self with entries := self.entries ++ [⟨self.regs, self.slots⟩] }

/-- A call on the manager, whether it succeeds or not. -/
def Receiver.onSlots (self : Receiver N) (x : Exec Error (BufferManager N) Unit) :
    Option (Receiver N) :=
  match x self.slots with
  | .ok _ slots | .err _ slots => some { self with slots := slots }
  | .abort => none

/-- `Loop::start` up to its first wait. -/
def Receiver.start (self : Receiver N) : Option (Receiver N) := do
  let regs ← self.slots.setup_wait self.regs
  pure (enter { self with regs := regs })

/-- `Loop::reply_and_wait`, for the label and the tag that the reply comes back
with. -/
def Receiver.reply_and_wait (self : Receiver N) (label : BitVec 64) (client_tag : MsgTag) :
    Option (Receiver N) := do
  let regs ← self.slots.setup_wait self.regs
  let self := enter { self with regs := regs }
  if label = 0 ∧ client_tag.has_error then pure self.enter else pure self

variable (rcv : RcvItems) (sys : Fpages)

/-- A client stub up to its IPC, for what the message registers hold and the
allocator returns. Without slots, or when an argument does not fit, it returns
early. -/
def Receiver.stub (self : Receiver N) (I : Interface) (opcode : Nat) (args : List Arg) (mem : Memory)
    (supply : Nat → BitVec 64) : Option (Receiver N) :=
  match BufferManager.alloc_capslots rcv I.CAP_DEMAND supply self.slots with
  | .ok _ slots =>
    let self := { self with slots := slots }
    match derive_ipc_calls sys I opcode args (UtcbMr.from_mr mem) with
    | .ok _ _ => some self.enter
    | .err _ _ => some self
    | .abort => none
  | .err _ slots => some { self with slots := slots }
  | .abort => none

/-- What happens in a thread. `foreign` is any other use of its buffer registers,
such as by another manager or by the functions that create kernel objects. -/
inductive Event where
  | alloc_capslots (cap_demand : Nat) (supply : Nat → BitVec 64)
  | set_rcv_cap_flags (flags : BitVec 64)
  | foreign (regs : BufRegs)
  | start
  | reply_and_wait (label : BitVec 64) (client_tag : MsgTag)
  | stub (I : Interface) (opcode : Nat) (args : List Arg) (mem : Memory) (supply : Nat → BitVec 64)

def Event.run (s : Receiver N) : Event → Option (Receiver N)
  | .alloc_capslots cap_demand supply => s.onSlots (BufferManager.alloc_capslots rcv cap_demand supply)
  | .set_rcv_cap_flags flags => s.onSlots (BufferManager.set_rcv_cap_flags flags)
  | .foreign regs => some { s with regs := regs }
  | .start => s.start
  | .reply_and_wait label client_tag => s.reply_and_wait label client_tag
  | .stub I opcode args mem supply => s.stub rcv sys I opcode args mem supply

/-- A thread that starts with an empty manager and any content of its buffer
registers. -/
def receiver (N : Nat) : Machine (Receiver N) Event where
  init s := ∃ regs, s = ⟨regs, BufferManager.new rcv, []⟩
  allowed _ _ := True
  step := Event.run rcv sys

/-- The word at the given position, if there is one, is zero. -/
def BufRegs.EndsAt (u : BufRegs) (n : Nat) : Prop := ∀ word, u.br[n]? = some word → word = 0

/-- The stub gets as far as its IPC. -/
def Reaches (s : Receiver N) (I : Interface) (opcode : Nat) (args : List Arg) (mem : Memory)
    (supply : Nat → BitVec 64) : Prop :=
  (∃ slots, BufferManager.alloc_capslots rcv I.CAP_DEMAND supply s.slots = .ok () slots) ∧
    ∃ tag mr, derive_ipc_calls sys I opcode args (UtcbMr.from_mr mem) = .ok tag mr

/-- The server loop finds a zero word behind the registers it writes. A client
stub, which writes none, finds the items of its slots there already, followed by
a zero word. -/
def Event.FindsTerminator (s : Receiver N) : Event → Prop
  | .start | .reply_and_wait .. => s.regs.EndsAt s.slots.caps
  | .stub I opcode args mem supply => Reaches rcv sys s I opcode args mem supply →
    s.regs.br.take (max s.slots.caps I.CAP_DEMAND) = s.slots.items ++
        BufferManager.fresh rcv s.slots.cap_flags supply 0 (I.CAP_DEMAND - s.slots.caps) ∧
      s.regs.EndsAt (max s.slots.caps I.CAP_DEMAND)
  | .alloc_capslots .. | .set_rcv_cap_flags _ | .foreign _ => True

variable {rcv sys} {s t : Receiver N}

theorem takeWhile_eq_nil_iff {ys : List (BitVec 64)} :
    ys.takeWhile (· ≠ 0) = [] ↔ ∀ y, ys.head? = some y → y = 0 := by
  cases ys with
  | nil => simp
  | cons y ys =>
    rw [List.takeWhile_cons]
    by_cases hy : y = 0 <;> simp_all

/-- The kernel finds a list of items exactly when the registers hold them and a
zero word behind them. -/
theorem window_eq_iff {u : BufRegs} {xs : List (BitVec 64)} (hxs : ∀ x ∈ xs, x ≠ 0) :
    u.window = xs ↔ u.br.take xs.length = xs ∧ u.EndsAt xs.length := by
  unfold BufRegs.window BufRegs.EndsAt
  constructor
  · intro hwindow
    have hprefix : xs <+: u.br := hwindow ▸ List.takeWhile_prefix _
    obtain ⟨rest, hrest⟩ := hprefix
    rw [← hrest] at hwindow ⊢
    rw [List.takeWhile_append_of_pos (by simpa using hxs), List.append_right_eq_self] at hwindow
    refine ⟨List.take_left, ?_⟩
    rw [List.getElem?_append_right (Nat.le_refl _), Nat.sub_self, ← List.head?_eq_getElem?]
    exact takeWhile_eq_nil_iff.mp hwindow
  · rintro ⟨htake, hend⟩
    have hsplit : u.br = xs ++ u.br.drop xs.length := by
      conv_lhs => rw [← List.take_append_drop xs.length u.br, htake]
    rw [← List.head?_drop] at hend
    rw [hsplit, List.takeWhile_append_of_pos (by simpa using hxs), List.append_right_eq_self]
    exact takeWhile_eq_nil_iff.mpr hend

theorem setup_wait_window {slots : BufferManager N} {u v : BufRegs} (hslots : slots.NonZero)
    (h : slots.setup_wait u = some v) : v.window = slots.items ↔ u.EndsAt slots.caps := by
  unfold BufferManager.setup_wait at h
  split at h
  · next hle =>
    cases h
    rw [window_eq_iff hslots, BufferManager.length_items]
    have htake : (slots.items ++ u.br.drop slots.caps).take slots.caps = slots.items := by
      rw [← slots.length_items]
      exact List.take_left
    have hend : (slots.items ++ u.br.drop slots.caps)[slots.caps]? = u.br[slots.caps]? := by
      rw [List.getElem?_append_right (Nat.le_of_eq slots.length_items), slots.length_items,
        List.getElem?_drop, Nat.sub_self, Nat.add_zero]
    unfold BufRegs.EndsAt
    rw [hend]
    simp only [htake, true_and]
  · cases h

/-- All IPCs so far had an exact window. -/
def Receiver.AllExact (s : Receiver N) : Prop := ∀ e ∈ s.entries, e.Exact

theorem enter_allExact : s.enter.AllExact ↔ s.AllExact ∧ s.regs.window = s.slots.items := by
  unfold Receiver.AllExact Receiver.enter
  rw [List.forall_mem_append, List.forall_mem_singleton]
  rfl

/-- A call that keeps the items from being zero, and makes no IPC. -/
theorem onSlots_cases {x : Exec Error (BufferManager N) Unit}
    (hx : Exec.Preserves BufferManager.NonZero x) (hslots : s.slots.NonZero)
    (h : s.onSlots x = some t) : t.slots.NonZero ∧ t.entries = s.entries := by
  have hrun := hx s.slots hslots
  unfold Receiver.onSlots at h
  cases hx' : x s.slots with
  | ok u slots =>
    rw [hx'] at h hrun
    cases h
    exact ⟨hrun, rfl⟩
  | err e slots =>
    rw [hx'] at h hrun
    cases h
    exact ⟨hrun, rfl⟩
  | abort =>
    rw [hx'] at h
    cases h

theorem set_rcv_cap_flags_nonZero (flags : BitVec 64) :
    Exec.Preserves (BufferManager.NonZero (N := N)) (BufferManager.set_rcv_cap_flags flags) := by
  intro slots hslots
  unfold BufferManager.set_rcv_cap_flags
  rw [Exec.bind_get]
  by_cases hzero : slots.cap_flags = 0
  · rw [if_pos hzero]
    exact hslots
  · rw [if_neg hzero]
    exact hslots

theorem start_exact (hslots : s.slots.NonZero) (h : s.start = some t) :
    t.slots = s.slots ∧ (t.AllExact ↔ s.AllExact ∧ s.regs.EndsAt s.slots.caps) := by
  obtain ⟨regs, hregs, h⟩ := Option.bind_eq_some_iff.mp h
  cases h
  refine ⟨rfl, ?_⟩
  rw [enter_allExact, setup_wait_window hslots hregs]
  rfl

theorem reply_and_wait_exact {label : BitVec 64} {client_tag : MsgTag} (hslots : s.slots.NonZero)
    (h : s.reply_and_wait label client_tag = some t) :
    t.slots = s.slots ∧ (t.AllExact ↔ s.AllExact ∧ s.regs.EndsAt s.slots.caps) := by
  obtain ⟨regs, hregs, h⟩ := Option.bind_eq_some_iff.mp h
  have hwindow := setup_wait_window hslots hregs
  have hreply : (Receiver.enter { s with regs := regs }).AllExact ↔
      s.AllExact ∧ s.regs.EndsAt s.slots.caps := by
    rw [enter_allExact, hwindow]
    rfl
  dsimp only at h
  split at h
  · -- The second wait finds the registers as the first left them.
    cases h
    refine ⟨rfl, ?_⟩
    rw [enter_allExact, hreply]
    constructor
    · exact And.left
    · intro hboth
      exact ⟨hboth, hwindow.mpr hboth.2⟩
  · cases h
    exact ⟨rfl, hreply⟩

section stub

variable {I : Interface} {opcode : Nat} {args : List Arg} {mem : Memory} {supply : Nat → BitVec 64}

/-- A stub enters its IPC, or stops before it with the slots it got so far. -/
theorem stub_cases (h : s.stub rcv sys I opcode args mem supply = some t) :
    (Reaches rcv sys s I opcode args mem supply ∧ ∃ slots,
      BufferManager.alloc_capslots rcv I.CAP_DEMAND supply s.slots = .ok () slots ∧
        t = Receiver.enter { s with slots := slots }) ∨
    (¬ Reaches rcv sys s I opcode args mem supply ∧
      s.onSlots (BufferManager.alloc_capslots rcv I.CAP_DEMAND supply) = some t) := by
  unfold Receiver.stub at h
  unfold Receiver.onSlots
  cases hslots : BufferManager.alloc_capslots rcv I.CAP_DEMAND supply s.slots with
  | ok u slots =>
    rw [hslots] at h
    dsimp only at h
    cases hwrite : derive_ipc_calls sys I opcode args (UtcbMr.from_mr mem) with
    | ok tag mr =>
      rw [hwrite] at h
      cases h
      exact Or.inl ⟨⟨⟨slots, hslots⟩, tag, mr, hwrite⟩, slots, rfl, rfl⟩
    | err e mr =>
      rw [hwrite] at h
      refine Or.inr ⟨?_, h⟩
      rintro ⟨_, tag, mr', hok⟩
      rw [hwrite] at hok
      cases hok
    | abort =>
      rw [hwrite] at h
      cases h
  | err e slots =>
    rw [hslots] at h
    refine Or.inr ⟨?_, h⟩
    rintro ⟨⟨slots', hok⟩, _⟩
    rw [hslots] at hok
    cases hok
  | abort =>
    rw [hslots] at h
    cases h

theorem stub_exact (hslots : s.slots.NonZero) (h : s.stub rcv sys I opcode args mem supply = some t) :
    t.slots.NonZero ∧ (t.AllExact ↔ s.AllExact ∧
      (Event.stub I opcode args mem supply).FindsTerminator rcv sys s) := by
  have halloc : Exec.Preserves BufferManager.NonZero
      (BufferManager.alloc_capslots (N := N) rcv I.CAP_DEMAND supply) :=
    BufferManager.alloc_capslots_nonZero I.CAP_DEMAND supply
  rcases stub_cases h with ⟨hreaches, slots, hok, rfl⟩ | ⟨hnot, hquiet⟩
  · have hkeeps := halloc s.slots hslots
    rw [hok] at hkeeps
    obtain ⟨hitems, hcaps⟩ := BufferManager.alloc_capslots_success hok
    refine ⟨hkeeps, ?_⟩
    rw [enter_allExact]
    apply and_congr_right'
    dsimp only
    rw [window_eq_iff hkeeps, BufferManager.length_items, hcaps, hitems]
    constructor
    · exact fun hfound _ => hfound
    · exact fun hfound => hfound hreaches
  · -- Without an IPC there is nothing to find.
    obtain ⟨hkeeps, hentries⟩ := onSlots_cases halloc hslots hquiet
    refine ⟨hkeeps, ?_⟩
    rw [Receiver.AllExact, hentries]
    constructor
    · intro hall
      exact ⟨hall, fun hreaches => absurd hreaches hnot⟩
    · exact And.left

end stub

theorem Event.run_exact {event : Event} (hslots : s.slots.NonZero)
    (h : event.run rcv sys s = some t) :
    t.slots.NonZero ∧ (t.AllExact ↔ s.AllExact ∧ event.FindsTerminator rcv sys s) := by
  have hquiet (hentries : t.entries = s.entries) : t.AllExact ↔ s.AllExact ∧ True := by
    rw [and_true, Receiver.AllExact, hentries, Receiver.AllExact]
  cases event with
  | alloc_capslots cap_demand supply =>
    obtain ⟨hkeeps, hentries⟩ :=
      onSlots_cases (BufferManager.alloc_capslots_nonZero cap_demand supply) hslots h
    exact ⟨hkeeps, hquiet hentries⟩
  | set_rcv_cap_flags flags =>
    obtain ⟨hkeeps, hentries⟩ := onSlots_cases (set_rcv_cap_flags_nonZero flags) hslots h
    exact ⟨hkeeps, hquiet hentries⟩
  | foreign regs =>
    cases h
    exact ⟨hslots, hquiet rfl⟩
  | start =>
    obtain ⟨hsame, hiff⟩ := start_exact hslots h
    exact ⟨hsame ▸ hslots, hiff⟩
  | reply_and_wait label client_tag =>
    obtain ⟨hsame, hiff⟩ := reply_and_wait_exact hslots h
    exact ⟨hsame ▸ hslots, hiff⟩
  | stub I opcode args mem supply => exact stub_exact hslots h

/-- In every run the kernel finds exactly the allocated receive items at every
IPC if and only if every IPC meets its terminator, and the client stubs their
items, in the registers already. -/
theorem receive_window_iff (rcv : RcvItems) (sys : Fpages) (N : Nat)
    (past : List (Receiver N × Event)) (s : Receiver N) (hrun : (receiver rcv sys N).Run past s) :
    (∀ e ∈ s.entries, e.Exact) ↔ ∀ p ∈ past, p.2.FindsTerminator rcv sys p.1 := by
  have hnew : (BufferManager.new rcv : BufferManager N).NonZero := by
    intro word hword
    cases hword
  refine hrun.recorded_iff (I := fun s => s.slots.NonZero) (P := Receiver.AllExact)
    (Q := fun s event => event.FindsTerminator rcv sys s) ?_ ?_ ?_
  · rintro s ⟨regs, rfl⟩
    exact ⟨hnew, nofun⟩
  · intro s event t hslots _ h
    exact (Event.run_exact hslots h).1
  · intro s event t hslots _ h
    exact (Event.run_exact hslots h).2

/-- Buffer registers with one word in use. -/
def oneWord (word : BitVec 64) : BufRegs := ⟨0, word :: List.replicate 57 0, rfl⟩

/-- Capabilities as an allocator hands them out. -/
def counting (k : Nat) : BitVec 64 := BitVec.ofNat 64 (4096 * (k + 1))

/-- A server that has allocated a slot and found its registers empty. -/
theorem receive_window_of_empty_registers :
    ∃ past s, (receiver .l4re .l4re 58).Run past s ∧ s.entries.length = 1 ∧
      ∀ e ∈ s.entries, e.Exact := by
  have hstart : (receiver .l4re .l4re 58).Run [] ⟨oneWord 0, BufferManager.new .l4re, []⟩ :=
    .start ⟨oneWord 0, rfl⟩
  have halloc := hstart.call (i := Event.alloc_capslots 1 counting) trivial rfl
  have hwait := halloc.call (i := Event.start) trivial rfl
  refine ⟨_, _, hwait, rfl, ?_⟩
  apply (receive_window_iff .l4re .l4re 58 _ _ hwait).mpr
  simp only [List.forall_mem_append, List.forall_mem_singleton]
  refine ⟨⟨?_, trivial⟩, ?_⟩
  · intro p hp
    cases hp
  · intro word hword
    cases hword
    rfl

/-- A server without slots waits with the word that creating a kernel object has
left in the first buffer register: the kernel takes it for a receive item. -/
theorem receive_window_fails :
    ∃ past s e, (receiver .l4re .l4re 58).Run past s ∧ e ∈ s.entries ∧ e.slots.caps_used = 0 ∧
      e.slots.items = [] ∧ e.regs.window = [0x100a#64] ∧ ¬ e.Exact := by
  have hinit : (receiver .l4re .l4re 58).Run [] ⟨oneWord 0x100a#64, BufferManager.new .l4re, []⟩ :=
    .start ⟨oneWord 0x100a#64, rfl⟩
  have hwait := hinit.call (i := Event.start) trivial rfl
  refine ⟨_, _, _, hwait, List.mem_singleton_self _, rfl, rfl, rfl, ?_⟩
  intro hexact
  cases hexact

end l4.ipc
