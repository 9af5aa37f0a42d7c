import L4Rust.L4.Error
import L4Rust.L4.Utcb
import L4Rust.L4Sys.Task

open l4.error l4.utcb l4_sys

namespace l4.cap

abbrev CapIdx := BitVec 64

/-- The flex pages of the L4Re headers are what the headers say. -/
theorem objFpages_l4re : ObjFpages Fpages.l4re.l4_obj_fpage := by
  refine objFpages_of_low_bits fun obj rights hrights => ?_
  have hor : 0x30#64 ||| rights.setWidth 64 = BitVec.ofNat 64 (0x30 + rights.toNat) := by
    apply BitVec.eq_of_toNat_eq
    rw [BitVec.toNat_or, BitVec.toNat_setWidth, BitVec.toNat_ofNat, BitVec.toNat_ofNat,
      Nat.mod_eq_of_lt (show rights.toNat < 2 ^ 64 by omega), Nat.mod_eq_of_lt (show 0x30 < 2 ^ 64 by decide),
      Nat.mod_eq_of_lt (show 0x30 + rights.toNat < 2 ^ 64 by omega)]
    exact (Nat.shiftLeft_add_eq_or_of_lt (show rights.toNat < 2 ^ 4 from hrights) 3).symm
  rw [Fpages.l4re, ← hor]
  simp [BitVec.or_assoc]

/-- A capability, which is its index whatever its interface is. -/
structure Cap where
  raw : CapIdx
  deriving DecidableEq, Repr

namespace Cap

def is_valid (self : Cap) : Bool := self.raw &&& L4_INVALID_CAP_BIT = 0

def send_base (self : Cap) (grant : BitVec 32) (base_cap : Option CapIdx) : BitVec 64 :=
  l4_map_obj_control (base_cap.getD self.raw) grant

/-- The call that moves a capability into the slot of this one. The tag that comes back is not looked at. -/
def transfer (sys : Fpages) (self source : Cap) (u : Nat → BitVec 64) : Except Error TaskCall :=
  if !self.is_valid || !source.is_valid then .error .InvalidCap
  else
    .ok (l4_task_map_u sys.l4_obj_fpage L4_BASE_TASK_CAP L4_BASE_TASK_CAP
      (sys.l4_obj_fpage source.raw 0 L4_CAP_FPAGE_RWSD) (self.send_base L4_MAP_ITEM_GRANT none ||| 0xe0) u)

/-- The slot that a capability selects. -/
def slot (self : Cap) : BitVec 64 := l4_sys.slot self.raw

variable {sys : Fpages} {self source : Cap} {u : Nat → BitVec 64} {call : TaskCall}

theorem isGrantItem_send_base (self : Cap) :
    IsGrantItem (self.send_base L4_MAP_ITEM_GRANT none ||| 0xe0) self.slot := by
  have hbase : self.send_base L4_MAP_ITEM_GRANT none ||| 0xe0 =
      (self.raw &&& ~~~0xfff#64) ||| BitVec.ofNat 64 0xea := by
    simp only [send_base, l4_map_obj_control, l4_map_control, Option.getD_none, L4_FPAGE_CONTROL_MASK,
      BitVec.or_assoc]
    rfl
  rw [hbase]
  refine ⟨?_, ?_, slot_low_bits self.raw (by decide)⟩
  · rw [extractLsb'_low_bits self.raw 0xea (by decide)]
    rfl
  · rw [extractLsb'_low_bits self.raw 0xea (by decide)]
    rfl

/-- With two capabilities that are valid the kernel is asked for what the method is for. -/
theorem transfer_grants (hfpage : ObjFpages sys.l4_obj_fpage) (h : self.transfer sys source u = .ok call) :
    call.Grants source.slot self.slot := by
  unfold transfer at h
  split at h
  · cases h
  · cases h
    exact
      { own_task := rfl
        label := show l4_msgtag_label (l4_msgtag L4_PROTO_TASK 3 1 0) = L4_PROTO_TASK by decide
        words := show (l4_msgtag_words (l4_msgtag L4_PROTO_TASK 3 1 0)).toNat = 3 by decide
        items := show l4_msgtag_items (l4_msgtag L4_PROTO_TASK 3 1 0) = 1 by decide
        opcode := rfl
        item := isGrantItem_send_base self
        fpage := hfpage.fpage source.raw _ (by decide)
        task_item := show (l4_map_obj_control 0 0).extractLsb' 3 1 = 1 by decide
        task_fpage := hfpage.fpage L4_BASE_TASK_CAP _ (by decide) }

theorem transfer_eq_ok_iff :
    (∃ call, self.transfer sys source u = .ok call) ↔ self.is_valid = true ∧ source.is_valid = true := by
  unfold transfer
  cases self.is_valid <;> cases source.is_valid <;> simp

theorem transfer_eq_error {e : Error} (h : self.transfer sys source u = .error e) :
    e = .InvalidCap ∧ ¬ (self.is_valid = true ∧ source.is_valid = true) := by
  unfold transfer at h
  split at h
  · next hinvalid =>
    cases h
    refine ⟨rfl, fun hboth => ?_⟩
    rw [hboth.1, hboth.2] at hinvalid
    cases hinvalid
  · cases h

end Cap

end l4.cap

namespace l4.task

open l4.cap

/-- The capability of a task. -/
structure Task where
  cap : CapIdx

namespace Task

/-- Both ways to give up a capability, in `u` as the UTCB. -/
inductive Removal where
  | release_cap
  | delete_obj
  deriving DecidableEq

def release_cap (sys : Fpages) (self : Task) (cap : Cap) (u : Nat → BitVec 64) : TaskCall :=
  l4_task_release_cap_u sys.l4_obj_fpage self.cap cap.raw u

def delete_obj (sys : Fpages) (self : Task) (obj : Cap) (u : Nat → BitVec 64) : TaskCall :=
  l4_task_delete_obj_u sys.l4_obj_fpage self.cap obj.raw u

def remove (sys : Fpages) (self : Task) (obj : Cap) (u : Nat → BitVec 64) : Removal → TaskCall
  | .release_cap => self.release_cap sys obj u
  | .delete_obj => self.delete_obj sys obj u

theorem remove_unmaps {sys : Fpages} (hfpage : ObjFpages sys.l4_obj_fpage) (self : Task) (obj : Cap)
    (u : Nat → BitVec 64) (how : Removal) : (self.remove sys obj u how).Unmaps self.cap obj.slot := by
  cases how with
  | release_cap => exact unmaps_l4_task_release_cap_u hfpage self.cap obj.raw u
  | delete_obj => exact unmaps_l4_task_delete_obj_u hfpage self.cap obj.raw u

end Task

end l4.task
