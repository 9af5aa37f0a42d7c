import L4Rust.L4Sys.IpcBasic

namespace l4_sys

/-! Constants of the C headers. -/

def L4_CAP_SHIFT : Nat := 12

def L4_INVALID_CAP_BIT : BitVec 64 := 1 <<< 11

/-- The capability of a task on itself. -/
def L4_BASE_TASK_CAP : BitVec 64 := 1 <<< 12

def L4_PROTO_TASK : BitVec 64 := -11

def L4_TASK_MAP_OP : BitVec 64 := 0

def L4_TASK_UNMAP_OP : BitVec 64 := 1

def L4_FPAGE_CONTROL_MASK : BitVec 64 := ~~~0xfff

def L4_ITEM_MAP : BitVec 64 := 8

def L4_MAP_ITEM_GRANT : BitVec 32 := 2

def L4_FPAGE_RWX : BitVec 8 := 7

def L4_CAP_FPAGE_RWSD : BitVec 8 := 0xf

def L4_FP_ALL_SPACES : BitVec 64 := 0x80000000

def L4_FP_DELETE_OBJ : BitVec 64 := 0xc0000000

def l4_map_control (snd_base : BitVec 64) (cache : BitVec 8) (grant : BitVec 32) : BitVec 64 :=
  (snd_base &&& L4_FPAGE_CONTROL_MASK) ||| (cache.setWidth 64 <<< 4) ||| L4_ITEM_MAP |||
    grant.setWidth 64

def l4_map_obj_control (snd_base : BitVec 64) (grant : BitVec 32) : BitVec 64 :=
  l4_map_control snd_base 0 grant

/-- A call to a task: its capability, the tag and the message registers. -/
structure TaskCall where
  dest : BitVec 64
  tag : BitVec 64
  mr : Nat → BitVec 64

section Calls

/-! The C wrapper for the flex page of a kernel object is not part of the repository. -/

variable (l4_obj_fpage : BitVec 64 → BitVec 32 → BitVec 8 → BitVec 64)

/-- The registers are those of the UTCB, which keep what is not written. -/
def l4_task_map_u (dst_task src_task snd_fpage snd_base : BitVec 64) (u : Nat → BitVec 64) : TaskCall :=
  let v := Function.update u 0 L4_TASK_MAP_OP
  let v := Function.update v 3 (l4_map_obj_control 0 0)
  let v := Function.update v 4 (l4_obj_fpage src_task 0 L4_FPAGE_RWX)
  let v := Function.update v 1 snd_base
  let v := Function.update v 2 snd_fpage
  ⟨dst_task, l4_msgtag L4_PROTO_TASK 3 1 0, v⟩

def l4_task_unmap_u (task fpage map_mask : BitVec 64) (u : Nat → BitVec 64) : TaskCall :=
  let v := Function.update u 0 L4_TASK_UNMAP_OP
  let v := Function.update v 1 map_mask
  let v := Function.update v 2 fpage
  ⟨task, l4_msgtag L4_PROTO_TASK 3 0 0, v⟩

def l4_task_delete_obj_u (task obj : BitVec 64) (u : Nat → BitVec 64) : TaskCall :=
  l4_task_unmap_u task (l4_obj_fpage obj 0 L4_CAP_FPAGE_RWSD) L4_FP_DELETE_OBJ u

def l4_task_release_cap_u (task cap : BitVec 64) (u : Nat → BitVec 64) : TaskCall :=
  l4_task_unmap_u task (l4_obj_fpage cap 0 L4_CAP_FPAGE_RWSD) L4_FP_ALL_SPACES u

end Calls

/-- The number of the slot that a capability index selects. -/
def slot (cap : BitVec 64) : BitVec 64 := cap >>> L4_CAP_SHIFT

/-- What the headers say of a flexpage for one object: its type, its size and its slot. -/
structure IsObjFpage (word selected : BitVec 64) : Prop where
  type : word.extractLsb' 4 2 = 3
  order : word.extractLsb' 6 6 = 0
  selected : slot word = selected

/-- What the headers say of the C wrapper: it gives the flex page of the object, with the rights in the
low bits. -/
structure ObjFpages (l4_obj_fpage : BitVec 64 → BitVec 32 → BitVec 8 → BitVec 64) : Prop where
  fpage : ∀ obj rights, rights.toNat < 16 → IsObjFpage (l4_obj_fpage obj 0 rights) (slot obj)
  rights : ∀ obj rights, rights.toNat < 16 → (l4_obj_fpage obj 0 rights).extractLsb' 0 4 = rights.setWidth 4

/-- The first word of an item by which a capability is granted, for the slot that is its hot spot. -/
structure IsGrantItem (word hot_spot : BitVec 64) : Prop where
  map : word.extractLsb' 3 1 = 1
  grant : word.extractLsb' 1 1 = 1
  hot_spot : slot word = hot_spot

/-- The message asks a task to move a capability from one of its slots to another. -/
structure TaskCall.Grants (call : TaskCall) (source target : BitVec 64) : Prop where
  own_task : call.dest = L4_BASE_TASK_CAP
  label : l4_msgtag_label call.tag = L4_PROTO_TASK
  words : (l4_msgtag_words call.tag).toNat = 3
  items : l4_msgtag_items call.tag = 1
  opcode : call.mr 0 = L4_TASK_MAP_OP
  item : IsGrantItem (call.mr 1) target
  fpage : IsObjFpage (call.mr 2) source
  /-- The typed item behind the words names the task that the capability comes from. -/
  task_item : (call.mr 3).extractLsb' 3 1 = 1
  task_fpage : IsObjFpage (call.mr 4) (slot L4_BASE_TASK_CAP)

/-- The message asks a task to remove the capability in a slot. -/
structure TaskCall.Unmaps (call : TaskCall) (task selected : BitVec 64) : Prop where
  dest : call.dest = task
  label : l4_msgtag_label call.tag = L4_PROTO_TASK
  words : (l4_msgtag_words call.tag).toNat = 3
  opcode : call.mr 0 = L4_TASK_UNMAP_OP
  /-- This space too, and not only what was mapped from it. -/
  all_spaces : (call.mr 1).extractLsb' 31 1 = 1
  fpage : IsObjFpage (call.mr 2) selected
  /-- All the rights that a capability has. -/
  rights : (call.mr 2).extractLsb' 0 4 = 0xf

/-- A capability index with other low bits. -/
theorem toNat_low_bits (cap : BitVec 64) {low : Nat} (h : low < 4096) :
    ((cap &&& ~~~0xfff#64) ||| BitVec.ofNat 64 low).toNat = cap.toNat / 4096 * 4096 + low := by
  have hmask : cap &&& ~~~0xfff#64 = (cap >>> 12) <<< 12 := by
    have hlow (i : Nat) : (0xfff#64).getLsbD i = decide (i < 12) :=
      getLsbD_low_ones (w := 64) (n := 12) (by decide) i
    apply BitVec.eq_of_getLsbD_eq
    intro i hi
    simp only [BitVec.getLsbD_and, BitVec.getLsbD_not, hlow, BitVec.getLsbD_shiftLeft,
      BitVec.getLsbD_ushiftRight, hi, decide_true, Bool.true_and]
    by_cases h12 : i < 12
    · simp [h12]
    · simp [h12, show 12 + (i - 12) = i by omega]
  have hcap : cap.toNat < 2 ^ 64 := cap.isLt
  have hshift : ((cap >>> 12) <<< 12).toNat = (cap.toNat / 4096) <<< 12 := by
    rw [BitVec.toNat_shiftLeft, BitVec.toNat_ushiftRight, Nat.shiftRight_eq_div_pow, Nat.shiftLeft_eq]
    omega
  rw [hmask, BitVec.toNat_or, hshift, BitVec.toNat_ofNat, Nat.mod_eq_of_lt (by omega),
    ← Nat.shiftLeft_add_eq_or_of_lt (show low < 2 ^ 12 from h), Nat.shiftLeft_eq]

theorem slot_low_bits (cap : BitVec 64) {low : Nat} (h : low < 4096) :
    slot ((cap &&& ~~~0xfff#64) ||| BitVec.ofNat 64 low) = slot cap := by
  apply BitVec.eq_of_toNat_eq
  rw [slot, slot, BitVec.toNat_ushiftRight, BitVec.toNat_ushiftRight, toNat_low_bits cap h,
    Nat.shiftRight_eq_div_pow, Nat.shiftRight_eq_div_pow, L4_CAP_SHIFT]
  omega

/-- The fields in the low bits do not depend on the capability. -/
theorem extractLsb'_low_bits (cap : BitVec 64) (low : Nat) {start len : Nat} (hfield : start + len ≤ 12) :
    ((cap &&& ~~~0xfff#64) ||| BitVec.ofNat 64 low).extractLsb' start len =
      (BitVec.ofNat 64 low).extractLsb' start len := by
  have hlow (i : Nat) : (0xfff#64).getLsbD i = decide (i < 12) :=
    getLsbD_low_ones (w := 64) (n := 12) (by decide) i
  apply BitVec.eq_of_getLsbD_eq
  intro i hi
  simp only [BitVec.getLsbD_extractLsb', BitVec.getLsbD_or, BitVec.getLsbD_and, BitVec.getLsbD_not, hlow,
    show start + i < 12 by omega, decide_true, Bool.not_true, Bool.and_false, Bool.false_or]

theorem toNat_extractLsb'_low_bits (cap : BitVec 64) {low start len : Nat} (hlow : low < 4096)
    (hfield : start + len ≤ 12) :
    (((cap &&& ~~~0xfff#64) ||| BitVec.ofNat 64 low).extractLsb' start len).toNat =
      low / 2 ^ start % 2 ^ len := by
  have hword : low < 2 ^ 64 := by omega
  rw [extractLsb'_low_bits cap low hfield, BitVec.extractLsb'_toNat, BitVec.toNat_ofNat,
    Nat.mod_eq_of_lt hword, Nat.shiftRight_eq_div_pow]

/-- A word of the given layout: the slot on top, the type of an object in bits 4 and 5, the rights below. -/
theorem objFpages_of_low_bits {l4_obj_fpage : BitVec 64 → BitVec 32 → BitVec 8 → BitVec 64}
    (h : ∀ obj rights, rights.toNat < 16 →
      l4_obj_fpage obj 0 rights = (obj &&& ~~~0xfff#64) ||| BitVec.ofNat 64 (0x30 + rights.toNat)) :
    ObjFpages l4_obj_fpage where
  fpage obj rights hrights := by
    have hlow : 0x30 + rights.toNat < 4096 := by omega
    rw [h obj rights hrights]
    refine ⟨BitVec.eq_of_toNat_eq ?_, BitVec.eq_of_toNat_eq ?_, slot_low_bits obj hlow⟩
    · rw [toNat_extractLsb'_low_bits obj hlow (by decide)]
      change (0x30 + rights.toNat) / 16 % 4 = 3
      omega
    · rw [toNat_extractLsb'_low_bits obj hlow (by decide)]
      change (0x30 + rights.toNat) / 64 % 64 = 0
      omega
  rights obj rights hrights := by
    have hlow : 0x30 + rights.toNat < 4096 := by omega
    apply BitVec.eq_of_toNat_eq
    rw [h obj rights hrights, toNat_extractLsb'_low_bits obj hlow (by decide), BitVec.toNat_setWidth]
    omega

variable {l4_obj_fpage : BitVec 64 → BitVec 32 → BitVec 8 → BitVec 64}

/-- Both ways to release a capability remove it from its slot. -/
theorem unmaps_l4_task_unmap_u (hfpage : ObjFpages l4_obj_fpage) (task obj : BitVec 64) {map_mask : BitVec 64}
    (hmask : map_mask.extractLsb' 31 1 = 1) (u : Nat → BitVec 64) :
    (l4_task_unmap_u task (l4_obj_fpage obj 0 L4_CAP_FPAGE_RWSD) map_mask u).Unmaps task (slot obj) where
  dest := rfl
  label := show l4_msgtag_label (l4_msgtag L4_PROTO_TASK 3 0 0) = L4_PROTO_TASK by decide
  words := show (l4_msgtag_words (l4_msgtag L4_PROTO_TASK 3 0 0)).toNat = 3 by decide
  opcode := rfl
  all_spaces := hmask
  fpage := hfpage.fpage obj _ (by decide)
  rights := hfpage.rights obj _ (by decide)

theorem unmaps_l4_task_release_cap_u (hfpage : ObjFpages l4_obj_fpage) (task cap : BitVec 64)
    (u : Nat → BitVec 64) : (l4_task_release_cap_u l4_obj_fpage task cap u).Unmaps task (slot cap) :=
  unmaps_l4_task_unmap_u hfpage task cap (by decide) u

theorem unmaps_l4_task_delete_obj_u (hfpage : ObjFpages l4_obj_fpage) (task obj : BitVec 64)
    (u : Nat → BitVec 64) : (l4_task_delete_obj_u l4_obj_fpage task obj u).Unmaps task (slot obj) :=
  unmaps_l4_task_unmap_u hfpage task obj (by decide) u

end l4_sys
