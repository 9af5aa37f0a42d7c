import L4Rust.L4.Cap
import L4Rust.L4.Ipc.ReceiveWindow
import L4Rust.Library.Ledger
import L4Rust.Library.Placement

open Ledger
open l4.cap l4.error l4.ipc l4.utcb l4_sys

namespace l4re.cap

/-- The capabilities of a task: what is in its slots, the `OwnedCap`s that live, each under a name,
and its threads with their receive slots. The calls of the allocator and what has ever arrived are
recorded, which the code does not do. -/
structure CapSpace (κ η τ : Type) (N : Nat) where
  objects : Placement (BitVec 64) κ
  owned : η → Option Cap
  threads : τ → Receiver N
  events : List (Ledger.Event (BitVec 64))
  arrived : List κ

variable {κ η τ : Type} {N : Nat} [DecidableEq η]

/-- The slot is the allocator's business if the index is valid. -/
def record (event : BitVec 64 → Ledger.Event (BitVec 64)) (cap : Cap) : List (Ledger.Event (BitVec 64)) :=
  if cap.is_valid then [event cap.slot] else []

namespace OwnedCap

/-- A new `OwnedCap`, with what `l4re_util_cap_alloc` returns. -/
def alloc (h : η) (cap : CapIdx) (s : CapSpace κ η τ N) : CapSpace κ η τ N :=
  { s with
    owned := Function.update s.owned h (some ⟨cap⟩)
    events := s.events ++ record .opened ⟨cap⟩ }

/-- `Cap::transfer` on what the `OwnedCap` derefs to; `after` is what the kernel makes of the slots. -/
def transfer (sys : Fpages) (h : η) (source : Cap) (u : Nat → BitVec 64)
    (after : Placement (BitVec 64) κ) : Exec Error (CapSpace κ η τ N) Unit := do
  let s ← Exec.get
  let self ← Exec.checked (s.owned h)
  let _call ← Exec.ofExcept (self.transfer sys source u)
  Exec.modify fun s => { s with objects := after }

/-- The index goes back to the allocator, and nothing is unmapped. -/
def drop (h : η) (s : CapSpace κ η τ N) : CapSpace κ η τ N :=
  { s with
    owned := Function.update s.owned h none
    events := s.events ++ ((s.owned h).map (record .closed)).getD [] }

/-- `OwnedCap::from`. Where it returns an error the new `OwnedCap` is dropped. -/
def from_cap (sys : Fpages) (h : η) (source : Cap) (cap : CapIdx) (u : Nat → BitVec 64)
    (after : Placement (BitVec 64) κ) : Exec Error (CapSpace κ η τ N) Unit := fun s =>
  match transfer sys h source u after (alloc h cap s) with
  | .ok _ t => if Cap.is_valid ⟨cap⟩ then .ok () t else .err .InvalidCap (drop h t)
  | .err e t => .err e (drop h t)
  | .abort => .abort

end OwnedCap

namespace OwnedCap

variable (sys : Fpages) (h : η) (source : Cap) (cap : CapIdx) (u : Nat → BitVec 64)
  (after : Placement (BitVec 64) κ) (s : CapSpace κ η τ N)

theorem owned_alloc : (alloc h cap s).owned h = some ⟨cap⟩ := Function.update_self ..

omit [DecidableEq η] in
theorem transfer_of_ok {self : Cap} {call : TaskCall} (hself : s.owned h = some self)
    (hcall : self.transfer sys source u = .ok call) :
    transfer sys h source u after s = .ok () { s with objects := after } := by
  rw [transfer, Exec.bind_get, Exec.bind_checked_of_some hself, hcall]
  rfl

omit [DecidableEq η] in
theorem transfer_of_error {self : Cap} {e : Error} (hself : s.owned h = some self)
    (hcall : self.transfer sys source u = .error e) : transfer sys h source u after s = .err e s := by
  rw [transfer, Exec.bind_get, Exec.bind_checked_of_some hself, hcall]
  rfl

/-- With two capabilities that are valid, and whatever the kernel answers. -/
theorem from_cap_of_ok {call : TaskCall} (hcall : (⟨cap⟩ : Cap).transfer sys source u = .ok call) :
    from_cap sys h source cap u after s = .ok () { alloc h cap s with objects := after } := by
  obtain ⟨hvalid, _⟩ := Cap.transfer_eq_ok_iff.mp ⟨call, hcall⟩
  rw [from_cap, transfer_of_ok sys h source u after _ (owned_alloc h cap s) hcall]
  exact if_pos hvalid

theorem from_cap_of_error {e : Error} (hcall : (⟨cap⟩ : Cap).transfer sys source u = .error e) :
    from_cap sys h source cap u after s = .err e (drop h (alloc h cap s)) := by
  rw [from_cap, transfer_of_error sys h source u after _ (owned_alloc h cap s) hcall]

/-- What is dropped before it was used leaves nothing behind. -/
theorem drop_alloc (hfresh : s.owned h = none)
    (hvacant : (⟨cap⟩ : Cap).is_valid = true → Cap.slot ⟨cap⟩ ∉ in_use s.events) :
    (drop h (alloc h cap s)).owned = s.owned ∧ (drop h (alloc h cap s)).objects = s.objects ∧
      in_use (drop h (alloc h cap s)).events = in_use s.events := by
  refine ⟨?_, rfl, ?_⟩
  · rw [drop, alloc, ← hfresh]
    dsimp only
    rw [Function.update_idem, Function.update_eq_self]
  · rw [drop, owned_alloc, Option.map_some, Option.getD_some, alloc, record, record]
    by_cases hvalid : (⟨cap⟩ : Cap).is_valid = true
    · rw [if_pos hvalid, if_pos hvalid]
      dsimp only
      rw [in_use_concat, in_use_concat, after, List.insert_of_not_mem (hvacant hvalid)]
      exact List.erase_cons_head ..
    · rw [if_neg hvalid, if_neg hvalid, List.append_nil, List.append_nil]

end OwnedCap

end l4re.cap
