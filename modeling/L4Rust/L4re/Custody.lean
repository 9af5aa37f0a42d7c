import L4Rust.L4re.OwnedCap
import L4Rust.L4re.ReceiveSlots

open Ledger
open l4.cap l4.error l4.ipc l4.task l4.utcb l4_sys

namespace l4re.cap

variable {κ η τ : Type} {N : Nat}

/-- What happens in a task, in any order. -/
inductive Event (κ η τ : Type) where
  /-- A step of a thread: of its server loop, of a client stub, or anything else it does with its buffers. -/
  | thread (t : τ) (event : l4.ipc.Event)
  /-- A message arrives; where an item brings no capability, its slot stays as it is. -/
  | delivered (t : τ) (arrivals : List (Option κ))
  | alloc (h : η) (cap : CapIdx)
  | transfer (h : η) (source : Cap) (u : Nat → BitVec 64) (after : Placement (BitVec 64) κ)
  | drop (h : η)
  | remove (how : Task.Removal) (obj : Cap) (u : Nat → BitVec 64) (after : Placement (BitVec 64) κ)
  /-- Another task takes away what is in a slot. -/
  | revoked (p : BitVec 64)

variable [DecidableEq η] [DecidableEq τ] (sys : Fpages) (task : Task) (reserved : BitVec 64 → Prop)

/-- What the kernel puts where. -/
def deliveries (e : Entry N) (arrivals : List (Option κ)) : List (BitVec 64 × Option κ) :=
  (e.regs.window.map slot).zip arrivals

omit [DecidableEq η] [DecidableEq τ] in
theorem map_fst_deliveries (e : Entry N) (arrivals : List (Option κ)) :
    (deliveries e arrivals).map Prod.fst <+: e.regs.window.map slot := by
  rw [deliveries, List.zip_eq_zip_take_min, List.map_fst_zip]
  · exact List.take_prefix ..
  · rw [List.length_take, List.length_take]
    omega

omit [DecidableEq η] [DecidableEq τ] in
/-- With a slot for each of them all capabilities are delivered. -/
theorem filterMap_deliveries {e : Entry N} {arrivals : List (Option κ)}
    (h : arrivals.length ≤ e.regs.window.length) :
    (deliveries e arrivals).filterMap Prod.snd = arrivals.reduceOption := by
  have hzip : (deliveries e arrivals).map Prod.snd = arrivals :=
    List.map_snd_zip (by rwa [List.length_map])
  change (deliveries e arrivals).filterMap Prod.snd = arrivals.filterMap id
  rw [← Function.id_comp Prod.snd, ← List.filterMap_map, hzip]

def Event.run (s : CapSpace κ η τ N) : Event κ η τ → Option (CapSpace κ η τ N)
  | .thread t event => (event.run .l4re sys (s.threads t)).map fun r =>
    { s with
      threads := Function.update s.threads t r
      events := s.events ++ (taken event (s.threads t) r).map .opened }
  | .delivered t arrivals => (announced (s.threads t)).map fun e =>
    { s with
      objects := s.objects.putAll (deliveries e arrivals)
      arrived := s.arrived ++ arrivals.reduceOption }
  | .alloc h cap => some (OwnedCap.alloc h cap s)
  | .transfer h source u after =>
    match OwnedCap.transfer sys h source u after s with
    | .ok _ t | .err _ t => some t
    | .abort => none
  | .drop h => some (OwnedCap.drop h s)
  | .remove _ _ _ after => some { s with objects := after }
  | .revoked p => some { s with objects := s.objects.clear p }

/-- The allocator hands out a slot that nobody has and that was not in use when the task started. -/
def Vacant (s : CapSpace κ η τ N) (p : BitVec 64) : Prop := p ∉ in_use s.events ∧ ¬ reserved p

/-- What is documented of the kernel and of the allocator, and that the kernel is entered with the
receive slots announced. The kernel may refuse what it is asked for. -/
def Event.Lawful (s : CapSpace κ η τ N) : Event κ η τ → Prop
  | .thread t event => ∀ r, event.run .l4re sys (s.threads t) = some r →
    (taken event (s.threads t) r).Nodup ∧ ∀ p ∈ taken event (s.threads t) r, Vacant reserved s p
  | .delivered t arrivals => ∀ e, announced (s.threads t) = some e →
    e.Exact ∧ arrivals.length ≤ e.regs.window.length ∧ arrivals.reduceOption.Nodup ∧
      ∀ a ∈ arrivals.reduceOption, a ∉ s.arrived
  | .alloc h cap => s.owned h = none ∧ ((⟨cap⟩ : Cap).is_valid = true → Vacant reserved s (slot cap))
  | .transfer h source u after => ∀ self call p q, s.owned h = some self → self.transfer sys source u = .ok call →
    call.Grants p q → after = s.objects ∨ after = s.objects.move p q
  | .remove how obj u after => ∀ p, (task.remove sys obj u how).Unmaps task.cap p →
    after = s.objects ∨ after = s.objects.clear p
  | .drop _ | .revoked _ => True

/-- A task from its start on: what it is given at first is in slots that the allocator does not hand out. -/
def capabilities : Machine (CapSpace κ η τ N) (Event κ η τ) where
  init s := s.owned = (fun _ => none) ∧ s.events = [] ∧ s.objects.Once ∧
    (∀ p a, s.objects p = some a → reserved p) ∧ (∀ a, a ∈ s.arrived ↔ s.objects.Somewhere a) ∧
    ∀ t, (receiver .l4re sys N).init (s.threads t)
  allowed s event := event.Lawful sys task reserved s
  step s event := event.run sys s

section Accounting

variable {sys task reserved} {s t : CapSpace κ η τ N}

/-- The slot that an `OwnedCap` has. -/
def owned_slot (cap : Cap) : Option (BitVec 64) := if cap.is_valid then some cap.slot else none

/-- Who has which slot: the `OwnedCap`s, and the threads for what they receive. -/
def holder (owned : η → Option Cap) (slots : τ → List (BitVec 64)) : η ⊕ τ × Nat → Option (BitVec 64)
  | .inl h => (owned h).bind owned_slot
  | .inr (t, i) => (slots t)[i]?

def CapSpace.holder (s : CapSpace κ η τ N) : η ⊕ τ × Nat → Option (BitVec 64) :=
  cap.holder s.owned fun t => received (s.threads t)

theorem holder_update_owned (owned : η → Option Cap) (slots : τ → List (BitVec 64)) (h : η) (new : Option Cap) :
    holder (Function.update owned h new) slots =
      Function.update (holder owned slots) (.inl h) (new.bind owned_slot) := by
  funext who
  obtain h' | ⟨t, i⟩ := who
  · by_cases hh : h' = h
    · subst hh
      rw [Function.update_self, holder, Function.update_self]
    · rw [Function.update_of_ne fun heq => hh (Sum.inl.inj heq), holder, holder, Function.update_of_ne hh]
  · rw [Function.update_of_ne Sum.inr_ne_inl, holder, holder]

theorem holder_update_slots (owned : η → Option Cap) (slots : τ → List (BitVec 64)) (t : τ) (p : BitVec 64) :
    holder owned (Function.update slots t (slots t ++ [p])) =
      Function.update (holder owned slots) (.inr (t, (slots t).length)) (some p) := by
  funext who
  obtain h | ⟨t', i⟩ := who
  · rw [Function.update_of_ne Sum.inl_ne_inr, holder, holder]
  · by_cases ht : t' = t
    · subst ht
      rw [holder, Function.update_self]
      by_cases hi : i = (slots t').length
      · rw [hi, Function.update_self, List.getElem?_concat_length]
      · rw [Function.update_of_ne fun heq => hi (Prod.mk.inj (Sum.inr.inj heq)).2, holder]
        obtain hlt | hgt := Nat.lt_or_gt_of_ne hi
        · exact List.getElem?_append_left hlt
        · rw [List.getElem?_eq_none (by simp; omega), List.getElem?_eq_none (Nat.le_of_lt hgt)]
    · rw [Function.update_of_ne fun heq => ht (Prod.mk.inj (Sum.inr.inj heq)).1, holder, holder,
        Function.update_of_ne ht]

theorem balanced_taken {events : List (Ledger.Event (BitVec 64))} {owned : η → Option Cap}
    {slots : τ → List (BitVec 64)} (hbal : Balanced events (holder owned slots)) (t : τ)
    {new : List (BitVec 64)} (hnodup : new.Nodup) (hnew : ∀ p ∈ new, p ∉ in_use events) :
    Balanced (events ++ new.map .opened) (holder owned (Function.update slots t (slots t ++ new))) := by
  induction new using List.reverseRecOn with
  | nil => simpa using hbal
  | append_singleton new p ih =>
    obtain ⟨hfront, _, hdistinct⟩ := List.nodup_append.mp hnodup
    have hbefore := ih hfront fun q hq => hnew q (List.mem_append_left _ hq)
    have hp : p ∉ in_use (events ++ new.map .opened) := by
      rw [mem_in_use_opened]
      rintro (hopen | hmem)
      · exact hnew p (List.mem_append_right _ (List.mem_singleton_self p)) hopen
      · exact hdistinct p hmem p (List.mem_singleton_self p) rfl
    have hstep := holder_update_slots owned (Function.update slots t (slots t ++ new)) t p
    rw [Function.update_self, Function.update_idem, List.append_assoc] at hstep
    rw [hstep, List.map_append, List.map_singleton, ← List.append_assoc]
    refine hbefore.opened hp ?_
    rw [holder, Function.update_self]
    exact List.getElem?_eq_none (Nat.le_refl _)

/-- A slot in which a capability may be: the task was started with it, somebody has it, or it was given
back, which does not empty it. -/
def Known (reserved : BitVec 64 → Prop) (events : List (Ledger.Event (BitVec 64))) (p : BitVec 64) : Prop :=
  reserved p ∨ p ∈ in_use events ∨ .closed p ∈ events

theorem Known.append {events : List (Ledger.Event (BitVec 64))} {p : BitVec 64}
    (h : Known reserved events p) (more : List (Ledger.Event (BitVec 64))) :
    Known reserved (events ++ more) p := by
  obtain hreserved | hopen | hclosed := h
  · exact .inl hreserved
  · obtain hstill | hnow := mem_in_use_append hopen more
    · exact .inr (.inl hstill)
    · exact .inr (.inr (List.mem_append_right _ hnow))
  · exact .inr (.inr (List.mem_append_left _ hclosed))

/-- Every slot in use has one owner, an `OwnedCap` or a thread, and every capability is in one slot at
most, which is a known one. -/
structure CapSpace.Accounted (s : CapSpace κ η τ N) (reserved : BitVec 64 → Prop) : Prop where
  balanced : Balanced s.events s.holder
  once : s.objects.Once
  arrived : ∀ p a, s.objects p = some a → a ∈ s.arrived
  known : ∀ p a, s.objects p = some a → Known reserved s.events p
  threads : ∀ t, Consistent (s.threads t)

namespace CapSpace

omit [DecidableEq η] [DecidableEq τ] in
theorem holder_inl {h : η} {self : Cap} (hself : s.owned h = some self) (hvalid : self.is_valid = true) :
    s.holder (.inl h) = some self.slot := by
  rw [holder, cap.holder, hself, Option.bind_some, owned_slot, if_pos hvalid]

/-- An `OwnedCap` without a slot does not count. -/
theorem update_holder_none {h : η} (hnone : s.holder (.inl h) = none) :
    Function.update (cap.holder s.owned fun th => received (s.threads th)) (.inl h) none = s.holder := by
  rw [← hnone]
  exact Function.update_eq_self ..

namespace Accounted

omit [DecidableEq η] [DecidableEq τ] in
theorem owned_in_use (hs : s.Accounted reserved) {h : η} {self : Cap} (hself : s.owned h = some self)
    (hvalid : self.is_valid = true) : self.slot ∈ in_use s.events :=
  (hs.balanced.holdings.mem_iff _).mpr ⟨.inl h, holder_inl hself hvalid⟩

omit [DecidableEq η] [DecidableEq τ] in
/-- The slots that a thread has announced are its own. -/
theorem announced_holder (hs : s.Accounted reserved) {th : τ} {e : Entry N}
    (he : announced (s.threads th) = some e) (hexact : e.Exact) {p : BitVec 64}
    (hp : p ∈ e.regs.window.map slot) : ∃ i, s.holder (.inr (th, i)) = some p := by
  have hinitial := ((hs.threads th).entries e (List.mem_of_getLast? he)).map slot
  rw [hexact] at hp
  obtain ⟨i, hi, hget⟩ := List.getElem_of_mem (hinitial.subset hp)
  refine ⟨i, ?_⟩
  rw [holder, cap.holder, received, List.getElem?_eq_getElem hi, hget]

omit [DecidableEq η] [DecidableEq τ] in
theorem received_nodup (hs : s.Accounted reserved) (th : τ) : (received (s.threads th)).Nodup := by
  rw [List.nodup_iff_getElem?_ne_getElem?]
  intro i j hij hj hsame
  have hi : i < (received (s.threads th)).length := hij.trans hj
  have hholds (k : Nat) (hk : (received (s.threads th))[k]? = (received (s.threads th))[j]?) :
      s.holder (.inr (th, k)) = some (received (s.threads th))[j] := by
    rw [holder, cap.holder, hk, List.getElem?_eq_getElem hj]
  have hwho := hs.balanced.holdings.unique _ _ _ (hholds i hsame) (hholds j rfl)
  exact absurd (Prod.mk.inj (Sum.inr.inj hwho)).2 (Nat.ne_of_lt hij)

omit [DecidableEq η] [DecidableEq τ] in
/-- Where a message brings capabilities only slots of threads are concerned. -/
theorem delivered_holder (hs : s.Accounted reserved) {th : τ} {e : Entry N}
    (he : announced (s.threads th) = some e) (hexact : e.Exact) {arrivals : List (Option κ)}
    {p : BitVec 64} {a : κ} (hp : (p, some a) ∈ deliveries e arrivals) :
    ∃ i, s.holder (.inr (th, i)) = some p :=
  hs.announced_holder he hexact (List.of_mem_zip hp).1

theorem thread (hs : s.Accounted reserved) {th : τ} {event : l4.ipc.Event}
    (hlawful : (Event.thread th event : Event κ η τ).Lawful sys task reserved s)
    (hstep : (Event.thread th event).run sys s = some t) : t.Accounted reserved := by
  obtain ⟨r, hrun, rfl⟩ := Option.map_eq_some_iff.mp hstep
  have hadvanced := run_advanced (hs.threads th) hrun
  obtain ⟨hnodup, hvacant⟩ := hlawful r hrun
  refine ⟨?_, hs.once, hs.arrived, fun p a hp => (hs.known p a hp).append _, ?_⟩
  · have hslots : (fun th' => received (Function.update s.threads th r th')) =
        Function.update (fun th' => received (s.threads th')) th
          (received (s.threads th) ++ taken event (s.threads th) r) := by
      funext th'
      by_cases hth : th' = th
      · subst hth
        rw [Function.update_self, Function.update_self, received_advanced (hs.threads th') hadvanced]
      · rw [Function.update_of_ne hth, Function.update_of_ne hth]
    rw [holder, hslots]
    exact balanced_taken hs.balanced th hnodup fun p hp => (hvacant p hp).1
  · intro th'
    dsimp only
    by_cases hth : th' = th
    · subst hth
      rw [Function.update_self]
      exact hadvanced.consistent (hs.threads th')
    · rw [Function.update_of_ne hth]
      exact hs.threads th'

theorem delivered (hs : s.Accounted reserved) {th : τ} {arrivals : List (Option κ)}
    (hlawful : (Event.delivered th arrivals : Event κ η τ).Lawful sys task reserved s)
    (hstep : (Event.delivered th arrivals).run sys s = some t) : t.Accounted reserved := by
  obtain ⟨e, he, rfl⟩ := Option.map_eq_some_iff.mp hstep
  obtain ⟨hexact, hlength, hnodup, hnew⟩ := hlawful e he
  have hbrought := filterMap_deliveries hlength
  refine ⟨hs.balanced, hs.once.putAll ?_ ?_, ?_, ?_, hs.threads⟩
  · rw [hbrought]
    exact hnodup
  · rw [hbrought]
    rintro a ha ⟨p, hp⟩
    exact hnew a ha (hs.arrived p a hp)
  · intro p a hp
    obtain hmem | hbefore := Placement.putAll_eq_some hp
    · refine List.mem_append_right _ ?_
      rw [← hbrought]
      exact List.mem_filterMap.mpr ⟨_, hmem, rfl⟩
    · exact List.mem_append_left _ (hs.arrived p a hbefore)
  · intro p a hp
    obtain hmem | hbefore := Placement.putAll_eq_some hp
    · obtain ⟨i, hi⟩ := hs.delivered_holder he hexact hmem
      exact .inr (.inl ((hs.balanced.holdings.mem_iff p).mpr ⟨_, hi⟩))
    · exact hs.known p a hbefore

theorem alloc (hs : s.Accounted reserved) {h : η} {cap : CapIdx}
    (hlawful : (Event.alloc h cap : Event κ η τ).Lawful sys task reserved s) :
    (OwnedCap.alloc h cap s).Accounted reserved := by
  obtain ⟨hfresh, hvacant⟩ := hlawful
  refine ⟨?_, hs.once, hs.arrived, fun p a hp => (hs.known p a hp).append _, hs.threads⟩
  have hnone : s.holder (.inl h) = none := by
    rw [holder, cap.holder, hfresh, Option.bind_none]
  rw [holder, OwnedCap.alloc, holder_update_owned, Option.bind_some, owned_slot, record]
  by_cases hvalid : (⟨cap⟩ : Cap).is_valid = true
  · rw [if_pos hvalid, if_pos hvalid]
    exact hs.balanced.opened (hvacant hvalid).1 hnone
  · rw [if_neg hvalid, if_neg hvalid, List.append_nil]
    dsimp only
    rw [update_holder_none hnone]
    exact hs.balanced

theorem drop (hs : s.Accounted reserved) (h : η) : (OwnedCap.drop h s).Accounted reserved := by
  refine ⟨?_, hs.once, hs.arrived, fun p a hp => (hs.known p a hp).append _, hs.threads⟩
  rw [holder, OwnedCap.drop, holder_update_owned, Option.bind_none]
  cases hself : s.owned h with
  | none =>
    rw [Option.map_none, Option.getD_none, List.append_nil, update_holder_none]
    · exact hs.balanced
    · rw [holder, cap.holder, hself, Option.bind_none]
  | some self =>
    rw [Option.map_some, Option.getD_some, record]
    by_cases hvalid : self.is_valid = true
    · rw [if_pos hvalid]
      exact hs.balanced.closed (holder_inl hself hvalid)
    · rw [if_neg hvalid, List.append_nil, update_holder_none]
      · exact hs.balanced
      · rw [holder, cap.holder, hself, Option.bind_some, owned_slot, if_neg hvalid]

omit [DecidableEq η] [DecidableEq τ] in
/-- What the kernel makes of the slots when a capability goes from one to the slot of an `OwnedCap`. -/
theorem moved (hs : s.Accounted reserved) {h : η} {self : Cap} (hself : s.owned h = some self)
    (hvalid : self.is_valid = true) (p : BitVec 64) :
    CapSpace.Accounted { s with objects := s.objects.move p self.slot } reserved := by
  refine ⟨hs.balanced, hs.once.move p self.slot, ?_, ?_, hs.threads⟩
  · intro q a hq
    obtain ⟨_, hbefore⟩ | hbefore := Placement.move_eq_some hq
    · exact hs.arrived p a hbefore
    · exact hs.arrived q a hbefore
  · intro q a hq
    obtain ⟨rfl, _⟩ | hbefore := Placement.move_eq_some hq
    · exact .inr (.inl (hs.owned_in_use hself hvalid))
    · exact hs.known q a hbefore

omit [DecidableEq η] [DecidableEq τ] in
theorem cleared (hs : s.Accounted reserved) (p : BitVec 64) :
    CapSpace.Accounted { s with objects := s.objects.clear p } reserved := by
  refine ⟨hs.balanced, hs.once.clear p, ?_, ?_, hs.threads⟩
  · intro q a hq
    exact hs.arrived q a (Placement.clear_eq_some hq).2
  · intro q a hq
    exact hs.known q a (Placement.clear_eq_some hq).2

end Accounted

end CapSpace

variable (hfpage : ObjFpages sys.l4_obj_fpage)

include hfpage

/-- A transfer on an `OwnedCap` leaves the slots alone, or they are as the kernel answers. -/
theorem transfer_cases {h : η} {source : Cap} {u : Nat → BitVec 64} {after : Placement (BitVec 64) κ}
    (hlawful : (Event.transfer h source u after : Event κ η τ).Lawful sys task reserved s)
    (hstep : (Event.transfer h source u after).run sys s = some t) :
    t = s ∨ ∃ self, s.owned h = some self ∧ self.is_valid = true ∧ source.is_valid = true ∧
      t = { s with objects := s.objects.move source.slot self.slot } := by
  cases hself : s.owned h with
  | none =>
    have habort : OwnedCap.transfer sys h source u after s = .abort := by
      rw [OwnedCap.transfer, Exec.bind_get, hself]
      rfl
    rw [Event.run, habort] at hstep
    cases hstep
  | some self =>
    cases hcall : self.transfer sys source u with
    | error e =>
      rw [Event.run, OwnedCap.transfer_of_error sys h source u after s hself hcall] at hstep
      cases hstep
      exact .inl rfl
    | ok call =>
      rw [Event.run, OwnedCap.transfer_of_ok sys h source u after s hself hcall] at hstep
      cases hstep
      obtain ⟨hvalid, hsource⟩ := Cap.transfer_eq_ok_iff.mp ⟨call, hcall⟩
      obtain rfl | rfl := hlawful self call _ _ hself hcall (Cap.transfer_grants hfpage hcall)
      · exact .inl rfl
      · exact .inr ⟨self, rfl, hvalid, hsource, rfl⟩

theorem remove_cases {how : Task.Removal} {obj : Cap} {u : Nat → BitVec 64} {after : Placement (BitVec 64) κ}
    (hlawful : (Event.remove how obj u after : Event κ η τ).Lawful sys task reserved s)
    (hstep : (Event.remove how obj u after).run sys s = some t) :
    t = s ∨ t = { s with objects := s.objects.clear obj.slot } := by
  cases hstep
  obtain rfl | rfl := hlawful _ (Task.remove_unmaps hfpage task obj u how)
  · exact .inl rfl
  · exact .inr rfl

theorem Event.accounted {event : Event κ η τ} (hs : s.Accounted reserved)
    (hlawful : event.Lawful sys task reserved s) (hstep : event.run sys s = some t) :
    t.Accounted reserved := by
  cases event with
  | thread th event => exact hs.thread hlawful hstep
  | delivered th arrivals => exact hs.delivered hlawful hstep
  | alloc h cap =>
    cases hstep
    exact hs.alloc hlawful
  | transfer h source u after =>
    obtain rfl | ⟨self, hself, hvalid, _, rfl⟩ := transfer_cases hfpage hlawful hstep
    · exact hs
    · exact hs.moved hself hvalid source.slot
  | drop h =>
    cases hstep
    exact hs.drop h
  | remove how obj u after =>
    obtain rfl | rfl := remove_cases hfpage hlawful hstep
    · exact hs
    · exact hs.cleared obj.slot
  | revoked p =>
    cases hstep
    exact hs.cleared p

/-- The event puts something else where the capability is, or takes it away. -/
def Event.Loses (s : CapSpace κ η τ N) (a : κ) : Event κ η τ → Prop
  -- Another capability is received in the slot of a thread.
  | .delivered t arrivals => ∃ e p b, announced (s.threads t) = some e ∧ (p, some b) ∈ deliveries e arrivals ∧
      s.objects p = some a
  -- Another capability is transferred into the slot of an `OwnedCap`.
  | .transfer h source _ _ => ∃ self b, s.owned h = some self ∧ s.objects source.slot = some b ∧
      source.slot ≠ self.slot ∧ s.objects self.slot = some a
  | .remove _ obj _ _ => s.objects obj.slot = some a
  | .revoked p => s.objects p = some a
  | .thread .. | .alloc .. | .drop _ => False

theorem Event.loses_of_gone {event : Event κ η τ} {a : κ} (hlawful : event.Lawful sys task reserved s)
    (hstep : event.run sys s = some t) (hgone : Placement.Gone s.objects t.objects a) : event.Loses s a := by
  cases event with
  | thread th event =>
    obtain ⟨r, _, rfl⟩ := Option.map_eq_some_iff.mp hstep
    exact hgone.not_same
  | delivered th arrivals =>
    obtain ⟨e, he, rfl⟩ := Option.map_eq_some_iff.mp hstep
    obtain ⟨p, b, hp, hmem⟩ := hgone.of_putAll
    exact ⟨e, p, b, he, hmem, hp⟩
  | alloc h cap =>
    cases hstep
    exact hgone.not_same
  | transfer h source u after =>
    obtain rfl | ⟨self, hself, _, _, rfl⟩ := transfer_cases hfpage hlawful hstep
    · exact hgone.not_same.elim
    · obtain ⟨ha, b, hb, hne⟩ := hgone.of_move
      exact ⟨self, b, hself, hb, hne, ha⟩
  | drop h =>
    cases hstep
    exact hgone.not_same
  | remove how obj u after =>
    obtain rfl | rfl := remove_cases hfpage hlawful hstep
    · exact hgone.not_same.elim
    · exact hgone.of_clear
  | revoked p =>
    cases hstep
    exact hgone.of_clear

/-- The slot is that of an `OwnedCap`. -/
def CapSpace.Has (s : CapSpace κ η τ N) (h : η) (p : BitVec 64) : Prop :=
  ∃ self, s.owned h = some self ∧ self.is_valid = true ∧ self.slot = p

/-- The event is about the `OwnedCap` itself, or names its slot. -/
def Event.Disturbs (s : CapSpace κ η τ N) (h : η) : Event κ η τ → Prop
  | .transfer h' source _ _ => h' = h ∨ s.Has h source.slot
  | .drop h' => h' = h
  | .remove _ obj _ _ => s.Has h obj.slot
  | .revoked p => s.Has h p
  | .thread .. | .delivered .. | .alloc .. => False

/-- All other events leave an `OwnedCap` alone, and what is in its slot. -/
theorem Event.keeps {event : Event κ η τ} {h : η} {p : BitVec 64} (hs : s.Accounted reserved)
    (hlawful : event.Lawful sys task reserved s) (hstep : event.run sys s = some t)
    (hhas : s.Has h p) (hother : ¬ event.Disturbs s h) : t.Has h p ∧ t.objects p = s.objects p := by
  obtain ⟨self, hself, hvalid, rfl⟩ := hhas
  have hhas : s.Has h self.slot := ⟨self, hself, hvalid, rfl⟩
  have hslot : s.holder (.inl h) = some self.slot := CapSpace.holder_inl hself hvalid
  cases event with
  | thread th event =>
    obtain ⟨r, _, rfl⟩ := Option.map_eq_some_iff.mp hstep
    exact ⟨hhas, rfl⟩
  | delivered th arrivals =>
    obtain ⟨e, he, rfl⟩ := Option.map_eq_some_iff.mp hstep
    refine ⟨hhas, Placement.putAll_of_not_mem _ fun a ha => ?_⟩
    obtain ⟨i, hi⟩ := hs.delivered_holder he (hlawful e he).1 ha
    exact Sum.inl_ne_inr (hs.balanced.holdings.unique _ _ _ hslot hi)
  | alloc h' cap =>
    cases hstep
    have hne : h ≠ h' := by
      rintro rfl
      rw [hlawful.1] at hself
      cases hself
    exact ⟨⟨self, (Function.update_of_ne hne ..).trans hself, hvalid, rfl⟩, rfl⟩
  | transfer h' source u after =>
    obtain rfl | ⟨other, hother', hvalid', _, rfl⟩ := transfer_cases hfpage hlawful hstep
    · exact ⟨hhas, rfl⟩
    · refine ⟨hhas, Placement.move_of_ne _ ?_ ?_⟩
      · intro heq
        exact hother (.inr (heq ▸ hhas))
      · intro heq
        have hsame := hs.balanced.holdings.unique _ _ _ hslot
          (heq ▸ CapSpace.holder_inl hother' hvalid')
        exact hother (.inl (Sum.inl.inj hsame).symm)
  | drop h' =>
    cases hstep
    have hne : h ≠ h' := fun heq => hother heq.symm
    exact ⟨⟨self, (Function.update_of_ne hne ..).trans hself, hvalid, rfl⟩, rfl⟩
  | remove how obj u after =>
    obtain rfl | rfl := remove_cases hfpage hlawful hstep
    · exact ⟨hhas, rfl⟩
    · refine ⟨hhas, Placement.clear_of_ne _ fun heq => ?_⟩
      exact hother (show s.Has h obj.slot from heq ▸ hhas)
  | revoked p =>
    cases hstep
    refine ⟨hhas, Placement.clear_of_ne _ fun heq => ?_⟩
    exact hother (show s.Has h p from heq ▸ hhas)

variable {past : List (CapSpace κ η τ N × Event κ η τ)}

theorem run_accounted (hrun : (capabilities sys task reserved).Run past s) : s.Accounted reserved := by
  refine hrun.invariant (P := fun s => s.Accounted reserved) ?_
    fun s event t hs hlawful hstep => Event.accounted hfpage hs hlawful hstep
  rintro s ⟨howned, hevents, honce, hreserved, harrived, hthreads⟩
  have hempty (th : τ) : (s.threads th).slots.items = [] ∧ Consistent (s.threads th) := by
    obtain ⟨regs, hregs⟩ := hthreads th
    rw [hregs]
    exact ⟨rfl, rfl, nofun⟩
  have hholder : s.holder = fun _ => none := by
    funext who
    obtain h | ⟨th, i⟩ := who
    · rw [CapSpace.holder, holder, howned]
      rfl
    · rw [CapSpace.holder, holder, received, (hempty th).1]
      rfl
  refine ⟨?_, honce, fun p a hp => (harrived a).mpr ⟨p, hp⟩, fun p a hp => .inl (hreserved p a hp),
    fun th => (hempty th).2⟩
  rw [hholder, hevents]
  exact Balanced.empty

/-- What has just arrived is somewhere. -/
theorem Event.arrived_cases {event : Event κ η τ} {a : κ} (hs : s.Accounted reserved)
    (hlawful : event.Lawful sys task reserved s) (hstep : event.run sys s = some t) (ha : a ∈ t.arrived) :
    a ∈ s.arrived ∨ t.objects.Somewhere a := by
  cases event with
  | thread th event =>
    obtain ⟨r, _, rfl⟩ := Option.map_eq_some_iff.mp hstep
    exact .inl ha
  | delivered th arrivals =>
    obtain ⟨e, he, rfl⟩ := Option.map_eq_some_iff.mp hstep
    obtain ⟨hexact, hlength, _, _⟩ := hlawful e he
    obtain hold | hnew := List.mem_append.mp ha
    · exact .inl hold
    · rw [← filterMap_deliveries hlength] at hnew
      obtain ⟨⟨p, arrived⟩, hmem, harrived⟩ := List.mem_filterMap.mp hnew
      cases harrived
      refine .inr ⟨p, Placement.putAll_of_mem _ ?_ hmem⟩
      have hinitial := ((hs.threads th).entries e (List.mem_of_getLast? he)).map slot
      rw [← hexact] at hinitial
      exact (hs.received_nodup th).sublist ((map_fst_deliveries e arrivals).trans hinitial).sublist
  | alloc h cap | drop h | remove how obj u after | revoked p =>
    cases hstep
    exact .inl ha
  | transfer h source u after =>
    obtain rfl | ⟨self, _, _, _, rfl⟩ := transfer_cases hfpage hlawful hstep
    · exact .inl ha
    · exact .inl ha

/-- What has arrived is somewhere, unless an event of the run has lost it. -/
theorem run_arrived (hrun : (capabilities sys task reserved).Run past s) {a : κ} (ha : a ∈ s.arrived) :
    s.objects.Somewhere a ∨ ∃ p ∈ past, p.2.Loses p.1 a := by
  induction hrun with
  | start hinit =>
    obtain ⟨_, _, _, _, harrived, _⟩ := hinit
    exact .inl ((harrived a).mp ha)
  | @call past s t event hrun hlawful hstep ih =>
    by_cases hthere : t.objects.Somewhere a
    · exact .inl hthere
    · refine .inr ?_
      obtain hold | hnew := Event.arrived_cases hfpage (run_accounted hfpage hrun) hlawful hstep ha
      · obtain hbefore | ⟨p, hp, hloses⟩ := ih hold
        · refine ⟨(s, event), List.mem_append_right _ (List.mem_singleton_self _), ?_⟩
          exact Event.loses_of_gone hfpage hlawful hstep ⟨hbefore, hthere⟩
        · exact ⟨p, List.mem_append_left _ hp, hloses⟩
      · exact absurd hnew hthere

/-- Whatever else happens, an `OwnedCap` keeps its slot and what is in it. -/
theorem run_keeps (hrun : (capabilities sys task reserved).Run past s) {h : η} {p : BitVec 64}
    (hhas : s.Has h p) {later : List (CapSpace κ η τ N × Event κ η τ)}
    (hlater : ((capabilities sys task reserved).restart s).Run later t)
    (hothers : ∀ q ∈ later, ¬ q.2.Disturbs q.1 h) : t.Has h p ∧ t.objects p = s.objects p := by
  induction hlater with
  | start hs =>
    cases hs
    exact ⟨hhas, rfl⟩
  | @call later t t' event hbefore hlawful hstep ih =>
    rw [List.forall_mem_append, List.forall_mem_singleton] at hothers
    obtain ⟨hstill, hsame⟩ := ih hothers.1
    have hs := run_accounted hfpage (hrun.append hbefore)
    obtain ⟨hhas', hsame'⟩ := Event.keeps hfpage hs hlawful hstep hstill hothers.2
    exact ⟨hhas', hsame'.trans hsame⟩

/-- `OwnedCap::from` has returned a new `OwnedCap`. What was in the slot of the source is in its slot,
unless the kernel has refused to move it, of which the code takes no notice. -/
structure CapSpace.Made (s : CapSpace κ η τ N) (h : η) (source : Cap) (cap : CapIdx) (t : CapSpace κ η τ N) :
    Prop where
  valid : (⟨cap⟩ : Cap).is_valid = true ∧ source.is_valid = true
  owned : t.owned = Function.update s.owned h (some ⟨cap⟩)
  objects : t.objects = s.objects ∨ t.objects = s.objects.move source.slot (slot cap)

/-- It has returned an error, and nothing is left of the new `OwnedCap`. -/
structure CapSpace.Unmade (s : CapSpace κ η τ N) (source : Cap) (cap : CapIdx) (t : CapSpace κ η τ N) :
    Prop where
  invalid : ¬ ((⟨cap⟩ : Cap).is_valid = true ∧ source.is_valid = true)
  owned : t.owned = s.owned
  objects : t.objects = s.objects
  in_use : in_use t.events = in_use s.events

/-- What `OwnedCap::from` does is done by events of a run. -/
theorem from_cap_run {h : η} {source : Cap} {cap : CapIdx} {u : Nat → BitVec 64}
    {after : Placement (BitVec 64) κ}
    (halloc : (Event.alloc h cap : Event κ η τ).Lawful sys task reserved s)
    (htransfer : (Event.transfer h source u after : Event κ η τ).Lawful sys task reserved
      (OwnedCap.alloc h cap s)) :
    ∃ later t, ((capabilities sys task reserved).restart s).Run later t ∧
      (OwnedCap.from_cap sys h source cap u after s = .ok () t ∧ s.Made h source cap t ∨
        OwnedCap.from_cap sys h source cap u after s = .err .InvalidCap t ∧ s.Unmade source cap t) := by
  have hstart : ((capabilities sys task reserved).restart s).Run [] s := .start rfl
  have hnew := hstart.call (i := Event.alloc h cap) halloc rfl
  have howned := OwnedCap.owned_alloc h cap s
  cases hcall : (⟨cap⟩ : Cap).transfer sys source u with
  | ok call =>
    have hstep : (Event.transfer h source u after).run sys (OwnedCap.alloc h cap s) =
        some { OwnedCap.alloc h cap s with objects := after } := by
      rw [Event.run, OwnedCap.transfer_of_ok sys h source u after _ howned hcall]
    have hmoved := hnew.call (i := Event.transfer h source u after) htransfer hstep
    have hgrants := htransfer _ call _ _ howned hcall (Cap.transfer_grants hfpage hcall)
    refine ⟨_, _, hmoved, .inl ⟨OwnedCap.from_cap_of_ok sys h source cap u after s hcall, ?_⟩⟩
    exact ⟨Cap.transfer_eq_ok_iff.mp ⟨call, hcall⟩, rfl, hgrants⟩
  | error e =>
    obtain ⟨rfl, hinvalid⟩ := Cap.transfer_eq_error hcall
    have hstep : (Event.transfer h source u after).run sys (OwnedCap.alloc h cap s) =
        some (OwnedCap.alloc h cap s) := by
      rw [Event.run, OwnedCap.transfer_of_error sys h source u after _ howned hcall]
    have hdropped := (hnew.call (i := Event.transfer h source u after) htransfer hstep).call
      (i := Event.drop h) trivial rfl
    have hunused := OwnedCap.drop_alloc h cap s halloc.1 fun hvalid => (halloc.2 hvalid).1
    refine ⟨_, _, hdropped, .inr ⟨OwnedCap.from_cap_of_error sys h source cap u after s hcall, ?_⟩⟩
    exact ⟨hinvalid, hunused.1, hunused.2.1, hunused.2.2⟩

/-- Whatever happens in a task whose threads enter the kernel with exactly their receive slots announced, each
slot in use has one owner and each capability one slot at most. What
has arrived is somewhere unless it was lost to an event that puts something else in its slot or takes it
away; an `OwnedCap` keeps what it has while no event is about it or names its slot; and from a valid
source `OwnedCap::from` makes one, which has what the source had. -/
theorem owned_caps_keep_custody (hrun : (capabilities sys task reserved).Run past s) :
    s.Accounted reserved ∧
      (∀ a ∈ s.arrived, s.objects.Somewhere a ∨ ∃ p ∈ past, p.2.Loses p.1 a) ∧
      (∀ h p, s.Has h p → ∀ later t, ((capabilities sys task reserved).restart s).Run later t →
        (∀ q ∈ later, ¬ q.2.Disturbs q.1 h) → t.Has h p ∧ t.objects p = s.objects p) ∧
      ∀ h source cap u after, (Event.alloc h cap : Event κ η τ).Lawful sys task reserved s →
        (Event.transfer h source u after : Event κ η τ).Lawful sys task reserved (OwnedCap.alloc h cap s) →
        ∃ later t, ((capabilities sys task reserved).restart s).Run later t ∧
          (OwnedCap.from_cap sys h source cap u after s = .ok () t ∧ s.Made h source cap t ∨
            OwnedCap.from_cap sys h source cap u after s = .err .InvalidCap t ∧ s.Unmade source cap t) := by
  refine ⟨run_accounted hfpage hrun, fun a ha => run_arrived hfpage hrun ha, ?_, ?_⟩
  · intro h p hhas later t hlater hothers
    exact run_keeps hfpage hrun hhas hlater hothers
  · intro h source cap u after halloc htransfer
    exact from_cap_run hfpage halloc htransfer

variable (sys task reserved) in
omit [DecidableEq η] [DecidableEq τ] in
/-- The kernel may do what a transfer asks it for. -/
theorem lawful_transfer {h : η} {self source : Cap} {u : Nat → BitVec 64} (hself : s.owned h = some self) :
    (Event.transfer h source u (s.objects.move source.slot self.slot) : Event κ η τ).Lawful
      sys task reserved s := by
  intro self' call p q hself' hcall hgrants
  obtain rfl := Option.some.inj (hself.symm.trans hself')
  have hmoves := Cap.transfer_grants hfpage hcall
  have hp := hmoves.fpage.selected.symm.trans hgrants.fpage.selected
  have hq := hmoves.item.hot_spot.symm.trans hgrants.item.hot_spot
  rw [hp, hq]
  exact .inr rfl

end Accounting

/-- A task that starts with one capability, in slot 1, and with one thread. -/
def started : CapSpace Nat Nat Unit 58 :=
  ⟨Placement.put (fun _ => none) 1 0, fun _ => none, fun _ => ⟨oneWord 0, BufferManager.new .l4re, []⟩, [], [0]⟩

theorem run_started (sys : Fpages) (task : Task) : (capabilities sys task (· = 1)).Run [] started := by
  have hput {p : BitVec 64} {a : Nat} (hp : started.objects p = some a) : p = 1 ∧ a = 0 := by
    change Placement.put (fun _ => none) 1 0 p = some a at hp
    obtain hfirst | ⟨_, hbefore⟩ := Placement.put_eq_some hp
    · exact hfirst
    · cases hbefore
  refine .start ⟨rfl, rfl, ?_, fun p a hp => (hput hp).1, fun a => ⟨?_, ?_⟩, fun _ => ⟨_, rfl⟩⟩
  · intro a p q hp hq
    exact (hput hp).1.trans (hput hq).1.symm
  · intro ha
    exact ⟨1, congrArg some (List.mem_singleton.mp ha).symm⟩
  · rintro ⟨p, hp⟩
    exact List.mem_singleton.mpr (hput hp).2

/-- It has moved its capability to an `OwnedCap`. -/
def transferred : CapSpace Nat Nat Unit 58 :=
  { OwnedCap.alloc 0 0x3000 started with objects := started.objects.move 1 3 }

/-- A capability that was transferred to an `OwnedCap` is still there when the thread receives another one. -/
theorem owned_caps_keep_custody_received :
    ∃ past later t, (capabilities .l4re ⟨L4_BASE_TASK_CAP⟩ (· = 1)).Run past transferred ∧
      ((capabilities .l4re ⟨L4_BASE_TASK_CAP⟩ (· = 1)).restart transferred).Run later t ∧
      t.Accounted (· = 1) ∧ t.arrived = [0, 7] ∧ t.objects 2 = some 7 ∧ t.Has 0 3 ∧
      t.objects 3 = some 0 := by
  have hnew := (run_started .l4re ⟨L4_BASE_TASK_CAP⟩).call (i := Event.alloc 0 0x3000)
    ⟨rfl, fun _ => ⟨List.not_mem_nil, by decide⟩⟩ rfl
  have hself : (OwnedCap.alloc 0 0x3000 started).owned 0 = some ⟨0x3000⟩ := OwnedCap.owned_alloc ..
  have hmoved : (capabilities .l4re ⟨L4_BASE_TASK_CAP⟩ (· = 1)).Run _ transferred :=
    hnew.call (i := Event.transfer 0 ⟨0x1000⟩ (fun _ => 0) (started.objects.move 1 3))
      (lawful_transfer .l4re ⟨L4_BASE_TASK_CAP⟩ (· = 1) objFpages_l4re hself) rfl
  have hstart := Machine.Run.start
    (M := (capabilities .l4re ⟨L4_BASE_TASK_CAP⟩ (· = 1)).restart transferred) rfl
  have hslots := hstart.call (i := Event.thread () (.alloc_capslots 1 fun _ => 0x2000)) (by
    intro r hr
    obtain rfl := Option.some.inj hr
    refine ⟨List.nodup_singleton _, fun p hp => ?_⟩
    obtain rfl : p = 2 := List.mem_singleton.mp hp
    exact ⟨by decide, by decide⟩) rfl
  have hwaiting := hslots.call (i := Event.thread () .start) (by
    intro r hr
    obtain rfl := Option.some.inj hr
    exact ⟨List.nodup_nil, nofun⟩) rfl
  have hreceived := hwaiting.call (i := Event.delivered () [some 7]) (by
    intro e he
    obtain rfl := Option.some.inj he
    exact ⟨rfl, by decide, List.nodup_singleton _, by decide⟩) rfl
  have hhas : transferred.Has 0 3 := ⟨⟨0x3000⟩, rfl, by decide, by decide⟩
  obtain ⟨_, _, hkeeps, _⟩ := owned_caps_keep_custody objFpages_l4re hmoved
  obtain ⟨hstill, hsame⟩ := hkeeps 0 3 hhas _ _ hreceived (by simp [Event.Disturbs])
  refine ⟨_, _, _, hmoved, hreceived, ?_, rfl, rfl, hstill, hsame.trans rfl⟩
  exact (owned_caps_keep_custody objFpages_l4re (hmoved.append hreceived)).1

end l4re.cap
