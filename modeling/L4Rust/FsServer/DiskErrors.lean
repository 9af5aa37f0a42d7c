import L4Rust.FsServer.FlatDisk
import L4Rust.FsServer.VirtioBlk

namespace fs_server.virtio

/-- A call of a driver. -/
inductive Access where
  | read (sector : Nat)
  | write (sector : Nat)
  deriving DecidableEq, Repr

/-- A driver some calls of which fail: which ones may depend on the number of calls
before. A call that fails leaves the sectors as they are, and any other one does what it
is for. -/
structure SectorDriver.ActsOrFails {δ : Type} (drv : SectorDriver δ) (content : δ → Nat → List UInt8)
    (calls : δ → Nat) (fails : Nat → Access → Prop) : Prop where
  length_content : ∀ d sector, (content d sector).length = 512
  read : ∀ d sector buf, sector < 2 ^ 64 → buf.length = 512 →
    ∃ d', calls d' = calls d + 1 ∧ content d' = content d ∧
      (fails (calls d) (.read sector) → drv.read_sector sector buf d = .err () d') ∧
      (¬ fails (calls d) (.read sector) → drv.read_sector sector buf d = .ok (content d sector) d')
  write : ∀ d sector buf, sector < 2 ^ 64 → buf.length = 512 →
    ∃ d', calls d' = calls d + 1 ∧
      (fails (calls d) (.write sector) →
        drv.write_sector sector buf d = .err () d' ∧ content d' = content d) ∧
      (¬ fails (calls d) (.write sector) → drv.write_sector sector buf d = .ok () d' ∧
        content d' = Function.update (content d) sector buf)

/-- A disk in memory, with the number of requests it has got. -/
structure RamDisk where
  sectors : Nat → { bytes : List UInt8 // bytes.length = 512 }
  calls : Nat

/-- A device that answers every request, with an error for some. -/
def ramDevice (fails : Nat → Access → Bool) : Device RamDisk := fun ram _ header buf =>
  let sector := header.sector.toNat
  let access := if header.req_type = 0 then Access.read sector else .write sector
  let next := { ram with calls := ram.calls + 1 }
  if fails ram.calls access then ⟨next, fun _ => none, some 1, 0, 0, 0⟩
  else if header.req_type = 0 then ⟨next, fun i => (ram.sectors sector).1[i]?, some 0, 0, 0, 0⟩
  else if h : buf.length = 512 then
    ⟨{ next with sectors := Function.update ram.sectors sector ⟨buf, h⟩ }, fun _ => none, some 0, 0, 0, 0⟩
  else ⟨next, fun _ => none, some 2, 0, 0, 0⟩

theorem stored_all {buf bytes : List UInt8} (h : buf.length = bytes.length) :
    VirtioBlk.stored buf (fun i => bytes[i]?) = bytes := by
  apply List.ext_getElem
  · rw [VirtioBlk.length_stored, h]
  · intro i _ hi
    simp [VirtioBlk.stored, hi]

/-- The driver with such a device behind it acts or fails as the device does. -/
theorem ramDevice_actsOrFails (fails : Nat → Access → Bool) :
    (VirtioBlk.sectorDriver (ramDevice fails)).ActsOrFails
      (fun d sector => (d.device.sectors sector).1) (fun d => d.device.calls)
      (fun call access => fails call access = true) where
  length_content d sector := (d.device.sectors sector).2
  read := by
    intro d sector buf hsector hbuf
    have hword : (UInt64.ofNat sector).toNat = sector := UInt64.toNat_ofNat_of_lt' hsector
    refine ⟨VirtioBlk.after (ramDevice fails) d sector buf true, ?_⟩
    by_cases hfails : fails d.device.calls (.read sector) = true
    · simp [VirtioBlk.sectorDriver, VirtioBlk.read_sector, VirtioBlk.transfer_eq, VirtioBlk.after,
        VirtioBlk.completion, ramDevice, hword, hfails]
    · have hall := stored_all (hbuf.trans (d.device.sectors sector).2.symm)
      simp [VirtioBlk.sectorDriver, VirtioBlk.read_sector, VirtioBlk.transfer_eq, VirtioBlk.after,
        VirtioBlk.completion, ramDevice, hword, hfails, hall]
  write := by
    intro d sector buf hsector hbuf
    have hword : (UInt64.ofNat sector).toNat = sector := UInt64.toNat_ofNat_of_lt' hsector
    refine ⟨VirtioBlk.after (ramDevice fails) d sector buf false, ?_⟩
    by_cases hfails : fails d.device.calls (.write sector) = true
    · simp [VirtioBlk.sectorDriver, VirtioBlk.write_sector, VirtioBlk.transfer_eq, VirtioBlk.after,
        VirtioBlk.completion, ramDevice, hword, hfails, Exec.bind_apply]
    · have hupdate : (fun i => (Function.update d.device.sectors sector ⟨buf, hbuf⟩ i).1) =
          Function.update (fun i => (d.device.sectors i).1) sector buf :=
        Function.comp_update Subtype.val d.device.sectors sector ⟨buf, hbuf⟩
      simp [VirtioBlk.sectorDriver, VirtioBlk.write_sector, VirtioBlk.transfer_eq, VirtioBlk.after,
        VirtioBlk.completion, ramDevice, hword, hfails, hbuf, hupdate, Exec.bind_apply]

/-- The driver is called for the `i`-th sector of a transfer from `pos` to `stop`. -/
def Reached (pos stop i : Nat) : Prop := pos < stop ∧ 512 * (pos / 512 + i) < min stop (2 ^ 64)

def ReadFails (fails : Nat → Access → Prop) (calls pos i : Nat) : Prop :=
  fails (calls + i) (.read (pos / 512 + i))

instance (fails : Nat → Access → Prop) [∀ call access, Decidable (fails call access)]
    (calls pos i : Nat) : Decidable (ReadFails fails calls pos i) :=
  inferInstanceAs (Decidable (fails _ _))

/-- A part of the sector lies outside of what is written, so that it is read before. -/
def Partly (pos stop sector : Nat) : Prop := 512 * sector < pos ∨ stop < 512 * (sector + 1)

instance (pos stop sector : Nat) : Decidable (Partly pos stop sector) :=
  inferInstanceAs (Decidable (_ ∨ _))

/-- How many calls there are for a sector that is written. -/
def callsFor (pos stop sector : Nat) : Nat := if Partly pos stop sector then 2 else 1

/-- How many calls are made before those for the `i`-th sector of a write: only the first
sector and the last can take two. -/
def callsBefore (pos stop : Nat) : Nat → Nat
  | 0 => 0
  | i + 1 => callsFor pos stop (pos / 512) + i

def WriteFails (fails : Nat → Access → Prop) (calls pos stop i : Nat) : Prop :=
  let sector := pos / 512 + i
  let call := calls + callsBefore pos stop i
  if Partly pos stop sector then fails call (.read sector) ∨ fails (call + 1) (.write sector)
  else fails call (.write sector)

instance (fails : Nat → Access → Prop) [∀ call access, Decidable (fails call access)]
    (calls pos stop i : Nat) : Decidable (WriteFails fails calls pos stop i) :=
  inferInstanceAs (Decidable (if Partly pos stop (pos / 512 + i) then fails _ _ ∨ fails _ _ else fails _ _))

namespace VirtioDisk

variable {δ : Type} {drv : SectorDriver δ} {content : δ → Nat → List UInt8} {calls : δ → Nat}
  {fails : Nat → Access → Prop} {self : VirtioDisk δ} {buf : List UInt8} {done : Nat}

/-- How a transfer up to `stop` ends: all of it is done, the position overflows, or the
driver fails for the `i`-th sector, where the position then is. -/
inductive Ends (content : δ → Nat → List UInt8) (stop : Nat) (failsAt : Nat → Prop)
    (self : VirtioDisk δ) {α : Type} (complete : α → Prop) : Outcome ErrorKind (VirtioDisk δ) α → Prop
  | done (value : α) (next : VirtioDisk δ) (hvalue : complete value) (hpos : next.pos = stop)
      (hnever : ∀ i, Reached self.pos stop i → ¬ failsAt i) :
      Ends content stop failsAt self complete (.ok value next)
  | overflow (hnever : ∀ i, Reached self.pos stop i → ¬ failsAt i) :
      Ends content stop failsAt self complete .abort
  | failed (i : Nat) (next : VirtioDisk δ) (hreached : Reached self.pos stop i) (hfails : failsAt i)
      (hfirst : 0 < i → ¬ failsAt 0) (hpos : next.pos = max self.pos (512 * (self.pos / 512 + i)))
      (hcontent : i = 0 → content next.driver = content self.driver) :
      Ends content stop failsAt self complete (.err .Other next)

section Ends

variable {stop : Nat} {failsAt failsAt' : Nat → Prop} {α : Type} {complete : α → Prop}

/-- A transfer of nothing is done. -/
theorem Ends.empty {value : α} (hvalue : complete value) (hstop : self.pos = stop) :
    Ends content stop failsAt self complete (.ok value self) := by
  refine .done value self hvalue hstop ?_
  rintro i ⟨hmore, -⟩
  omega

/-- A transfer whose first sector fails has done nothing. -/
theorem Ends.at_once {next : VirtioDisk δ} (hmore : self.pos < stop) (hpos : self.pos < 2 ^ 64)
    (hfails : failsAt 0) (hnext : next.pos = self.pos)
    (hcontent : content next.driver = content self.driver) :
    Ends content stop failsAt self complete (.err .Other next) := by
  refine .failed 0 next ⟨hmore, by omega⟩ hfails (fun h => absurd h (Nat.lt_irrefl _)) ?_ fun _ => hcontent
  rw [hnext]
  omega

/-- A transfer that ends in its first sector does not come to another one. -/
theorem never_of_last (hfirst : ¬ failsAt 0) (hlast : min stop (2 ^ 64) ≤ 512 * (self.pos / 512 + 1))
    (i : Nat) (h : Reached self.pos stop i) : ¬ failsAt i := by
  obtain ⟨_, hi⟩ := h
  obtain rfl : i = 0 := by omega
  exact hfirst

/-- After the first sector a transfer goes on with the next one as it would start there. -/
theorem Ends.later {mid : VirtioDisk δ} {outcome : Outcome ErrorKind (VirtioDisk δ) α}
    (h : Ends content stop failsAt' mid complete outcome) (hfirst : ¬ failsAt 0)
    (hmid : mid.pos = 512 * (self.pos / 512 + 1)) (hstop : mid.pos < stop)
    (hshift : ∀ i, Reached mid.pos stop i → (failsAt' i ↔ failsAt (i + 1))) :
    Ends content stop failsAt self complete outcome := by
  have hreached : ∀ i, Reached mid.pos stop i ↔ Reached self.pos stop (i + 1) := by
    intro i
    unfold Reached
    omega
  have hnever : (∀ i, Reached mid.pos stop i → ¬ failsAt' i) →
      ∀ i, Reached self.pos stop i → ¬ failsAt i := by
    intro hnever i hi
    cases i with
    | zero => exact hfirst
    | succ i =>
      rw [← hreached] at hi
      rw [← hshift i hi]
      exact hnever i hi
  cases h with
  | done value next hvalue hpos hnone => exact .done value next hvalue hpos (hnever hnone)
  | overflow hnone => exact .overflow (hnever hnone)
  | failed i next hi hfails _ hpos _ =>
    refine .failed (i + 1) next ((hreached i).mp hi) ((hshift i hi).mp hfails) (fun _ => hfirst) ?_ ?_
    · rw [hpos]
      omega
    · intro hzero
      cases hzero

end Ends

theorem read_pass_cases (hdrv : drv.ActsOrFails content calls fails) (hdone : done < buf.length)
    (hpos : self.pos < 2 ^ 64) :
    (ReadFails fails (calls self.driver) self.pos 0 ∧
      ∃ next, read_pass drv done buf self = .err .Other next ∧ next.pos = self.pos ∧
        content next.driver = content self.driver) ∨
    (¬ ReadFails fails (calls self.driver) self.pos 0 ∧
      2 ^ 64 ≤ self.pos + self.count (buf.length - done) ∧ read_pass drv done buf self = .abort) ∨
    (¬ ReadFails fails (calls self.driver) self.pos 0 ∧
      self.pos + self.count (buf.length - done) < 2 ^ 64 ∧
      ∃ bytes next, read_pass drv done buf self =
          .ok (done + self.count (buf.length - done), bytes) next ∧
        bytes.length = buf.length ∧ next.pos = self.pos + self.count (buf.length - done) ∧
        calls next.driver = calls self.driver + 1) := by
  obtain ⟨d, hcalls, hcontent, hfails, hreads⟩ := hdrv.read self.driver (self.pos / 512) (List.replicate 512 0)
    (by omega) List.length_replicate
  have hlen := hdrv.length_content self.driver (self.pos / 512)
  obtain ⟨_, hle, hsector⟩ := self.count_bounds (show 0 < buf.length - done by omega)
  by_cases hfail : ReadFails fails (calls self.driver) self.pos 0
  · exact Or.inl ⟨hfail, _, read_pass_of_err (hfails hfail), rfl, hcontent⟩
  have hpass := read_pass_of_ok hdone hlen (hreads hfail)
  by_cases hbound : self.pos + self.count (buf.length - done) < 2 ^ 64
  · rw [if_pos hbound] at hpass
    refine Or.inr (Or.inr ⟨hfail, hbound, _, _, hpass, ?_, rfl, hcalls⟩)
    apply Blocks.length_splice
    rw [List.length_take, List.length_drop]
    omega
  · rw [if_neg hbound] at hpass
    exact Or.inr (Or.inl ⟨hfail, Nat.not_lt.mp hbound, hpass⟩)

/-- A read stops at the first sector that fails. -/
theorem read_loop_ends (hdrv : drv.ActsOrFails content calls fails) (self : VirtioDisk δ)
    (buf : List UInt8) (done : Nat) {fuel : Nat} (hfuel : buf.length - done ≤ fuel)
    (hdone : done ≤ buf.length) (hpos : self.pos < 2 ^ 64) :
    Ends content (self.pos + (buf.length - done)) (ReadFails fails (calls self.driver) self.pos) self
      (fun value => value.1 = buf.length) (read_loop drv fuel done buf self) := by
  induction fuel generalizing self buf done with
  | zero =>
    obtain rfl : done = buf.length := by omega
    rw [read_loop_full]
    exact .empty rfl (by omega)
  | succ fuel ih =>
    rcases Nat.eq_or_lt_of_le hdone with rfl | hmore
    · rw [read_loop_full]
      exact .empty rfl (by omega)
    have hcount := self.count_eq (buf.length - done)
    rw [read_loop, if_pos hmore]
    rcases read_pass_cases hdrv hmore hpos with
      ⟨hfail, next, hpass, hnext, hcontent⟩ | ⟨hfirst, hbound, hpass⟩ |
      ⟨hfirst, hbound, bytes, mid, hpass, hlen, hmid, hcalls⟩
    · rw [Exec.bind_of_err hpass]
      exact .at_once (by omega) hpos hfail hnext hcontent
    · rw [Exec.bind_apply, hpass]
      exact .overflow (never_of_last hfirst (by omega))
    · rw [Exec.bind_of_ok hpass]
      dsimp only
      by_cases hlast : done + self.count (buf.length - done) = buf.length
      · rw [hlast, ← hlen, read_loop_full]
        exact .done _ mid rfl (by omega) (never_of_last hfirst (by omega))
      · have hstop : self.pos + (buf.length - done) =
            mid.pos + (bytes.length - (done + self.count (buf.length - done))) := by omega
        have hloop := ih mid bytes (done + self.count (buf.length - done)) (by omega) (by omega) (by omega)
        rw [← hstop, hlen] at hloop
        refine hloop.later hfirst (by omega) (by omega) fun i _ => ?_
        have hsector : mid.pos / 512 + i = self.pos / 512 + (i + 1) := by omega
        rw [ReadFails, ReadFails, hsector, hcalls, Nat.add_assoc, Nat.add_comm 1 i]

theorem partly_iff {pos remaining : Nat} :
    Partly pos (pos + remaining) (pos / 512) ↔ pos % 512 ≠ 0 ∨ remaining < 512 := by
  unfold Partly
  omega

/-- The block that a write starts from is read only where a part of the sector is kept. -/
theorem block_to_write_cases (hdrv : drv.ActsOrFails content calls fails) (remaining : Nat)
    (hpos : self.pos < 2 ^ 64) :
    (Partly self.pos (self.pos + remaining) (self.pos / 512) ∧
      fails (calls self.driver) (.read (self.pos / 512)) ∧
      ∃ d, block_to_write drv (self.pos / 512) (self.pos % 512) remaining 512 self =
        .err .Other { self with driver := d } ∧ content d = content self.driver) ∨
    ((Partly self.pos (self.pos + remaining) (self.pos / 512) →
        ¬ fails (calls self.driver) (.read (self.pos / 512))) ∧
      ∃ blk d, block_to_write drv (self.pos / 512) (self.pos % 512) remaining 512 self =
          .ok blk { self with driver := d } ∧ content d = content self.driver ∧ blk.length = 512 ∧
        calls d + 1 = calls self.driver + callsFor self.pos (self.pos + remaining) (self.pos / 512)) := by
  unfold block_to_write callsFor
  simp only [partly_iff]
  by_cases hpartly : self.pos % 512 ≠ 0 ∨ remaining < 512
  · obtain ⟨d, hcalls, hcontent, hfails, hreads⟩ := hdrv.read self.driver (self.pos / 512)
      (List.replicate 512 0) (by omega) List.length_replicate
    rw [if_pos hpartly, if_pos hpartly]
    by_cases hfail : fails (calls self.driver) (.read (self.pos / 512))
    · exact Or.inl ⟨hpartly, hfail, d, onDriver_of_err (hfails hfail), hcontent⟩
    · exact Or.inr ⟨fun _ => hfail, _, d, onDriver_of_ok (hreads hfail), hcontent,
        hdrv.length_content _ _, by omega⟩
  · rw [if_neg hpartly, if_neg hpartly]
    exact Or.inr ⟨fun h => absurd h hpartly, _, self.driver, rfl, rfl, List.length_replicate, rfl⟩

/-- The first sector of a write fails to be read, if it has to be, or to be written. -/
theorem writeFails_zero_iff {call pos stop : Nat} :
    WriteFails fails call pos stop 0 ↔ (Partly pos stop (pos / 512) ∧ fails call (.read (pos / 512))) ∨
      fails (call + callsFor pos stop (pos / 512) - 1) (.write (pos / 512)) := by
  unfold WriteFails callsFor
  by_cases hpartly : Partly pos stop (pos / 512)
  · simp [hpartly, callsBefore]
  · simp [hpartly, callsBefore]

theorem write_pass_cases (hdrv : drv.ActsOrFails content calls fails) (hdone : done < buf.length)
    (hpos : self.pos < 2 ^ 64) :
    (WriteFails fails (calls self.driver) self.pos (self.pos + (buf.length - done)) 0 ∧
      ∃ next, write_pass drv buf done self = .err .Other next ∧ next.pos = self.pos ∧
        content next.driver = content self.driver) ∨
    (¬ WriteFails fails (calls self.driver) self.pos (self.pos + (buf.length - done)) 0 ∧
      2 ^ 64 ≤ self.pos + self.count (buf.length - done) ∧ write_pass drv buf done self = .abort) ∨
    (¬ WriteFails fails (calls self.driver) self.pos (self.pos + (buf.length - done)) 0 ∧
      self.pos + self.count (buf.length - done) < 2 ^ 64 ∧
      ∃ next, write_pass drv buf done self = .ok (done + self.count (buf.length - done)) next ∧
        next.pos = self.pos + self.count (buf.length - done) ∧
        calls next.driver = calls self.driver +
          callsFor self.pos (self.pos + (buf.length - done)) (self.pos / 512)) := by
  obtain ⟨_, hle, hsector⟩ := self.count_bounds (show 0 < buf.length - done by omega)
  rw [writeFails_zero_iff]
  rcases block_to_write_cases hdrv (buf.length - done) hpos with
    ⟨hpartly, hfail, d, hblock, hcontent⟩ | ⟨hread, blk, d, hblock, hcontent, hblk, hcalls⟩
  · exact Or.inl ⟨Or.inl ⟨hpartly, hfail⟩, _, write_pass_of_block_err hblock, rfl, hcontent⟩
  have hlen : (Blocks.splice blk (self.pos % 512)
      ((buf.drop done).take (self.count (buf.length - done)))).length = 512 := by
    rw [Blocks.length_splice, hblk]
    rw [self.length_part hdone, hblk]
    exact hsector
  obtain ⟨d', hcalls', hfails, hwrites⟩ := hdrv.write d (self.pos / 512) _ (by omega) hlen
  have hcall : calls self.driver +
      callsFor self.pos (self.pos + (buf.length - done)) (self.pos / 512) - 1 = calls d := by omega
  rw [hcall]
  by_cases hfail : fails (calls d) (.write (self.pos / 512))
  · obtain ⟨hwrite, hcontent'⟩ := hfails hfail
    exact Or.inl ⟨Or.inr hfail, _, write_pass_of_err hdone hblk hblock hwrite, rfl,
      hcontent'.trans hcontent⟩
  obtain ⟨hwrite, _⟩ := hwrites hfail
  have hfirst : ¬ (Partly self.pos (self.pos + (buf.length - done)) (self.pos / 512) ∧
      fails (calls self.driver) (.read (self.pos / 512)) ∨
      fails (calls d) (.write (self.pos / 512))) := by
    rintro (⟨hpartly, hfailed⟩ | hfailed)
    · exact hread hpartly hfailed
    · exact hfail hfailed
  have hpass := write_pass_of_ok hdone hblk hblock hwrite
  by_cases hbound : self.pos + self.count (buf.length - done) < 2 ^ 64
  · rw [if_pos hbound] at hpass
    exact Or.inr (Or.inr ⟨hfirst, hbound, _, hpass, rfl, by dsimp only; omega⟩)
  · rw [if_neg hbound] at hpass
    exact Or.inr (Or.inl ⟨hfirst, Nat.not_lt.mp hbound, hpass⟩)

/-- Behind the first sector of a write the calls are counted as if it started there. -/
theorem writeFails_succ {pos stop start call i : Nat} (hstart : start = 512 * (pos / 512 + 1))
    (hcall : call = calls self.driver + callsFor pos stop (pos / 512)) (hi : Reached start stop i) :
    WriteFails fails call start stop i ↔ WriteFails fails (calls self.driver) pos stop (i + 1) := by
  have hsector : start / 512 + i = pos / 512 + (i + 1) := by omega
  have hpartly : Partly start stop (pos / 512 + (i + 1)) ↔ Partly pos stop (pos / 512 + (i + 1)) := by
    unfold Partly
    omega
  have hcalls : call + callsBefore start stop i =
      calls self.driver + callsBefore pos stop (i + 1) := by
    cases i with
    | zero =>
      rw [hcall]
      rfl
    | succ i =>
      -- Only the last sector behind the first one is written in part.
      have hwhole : callsFor start stop (start / 512) = 1 := by
        obtain ⟨_, hi⟩ := hi
        apply if_neg
        unfold Partly
        omega
      rw [callsBefore, callsBefore, hwhole]
      omega
  unfold WriteFails
  simp only [hsector, hpartly, hcalls]

/-- A write stops at the first sector that fails. -/
theorem write_loop_ends (hdrv : drv.ActsOrFails content calls fails) (self : VirtioDisk δ)
    (buf : List UInt8) (done : Nat) {fuel : Nat} (hfuel : buf.length - done ≤ fuel)
    (hdone : done ≤ buf.length) (hpos : self.pos < 2 ^ 64) :
    Ends content (self.pos + (buf.length - done))
      (WriteFails fails (calls self.driver) self.pos (self.pos + (buf.length - done))) self
      (fun value => value = buf.length) (write_loop drv buf fuel done self) := by
  induction fuel generalizing self done with
  | zero =>
    obtain rfl : done = buf.length := by omega
    rw [write_loop_full]
    exact .empty rfl (by omega)
  | succ fuel ih =>
    rcases Nat.eq_or_lt_of_le hdone with rfl | hmore
    · rw [write_loop_full]
      exact .empty rfl (by omega)
    have hcount := self.count_eq (buf.length - done)
    rw [write_loop, if_pos hmore]
    rcases write_pass_cases hdrv hmore hpos with
      ⟨hfail, next, hpass, hnext, hcontent⟩ | ⟨hfirst, hbound, hpass⟩ |
      ⟨hfirst, hbound, mid, hpass, hmid, hcalls⟩
    · rw [Exec.bind_of_err hpass]
      exact .at_once (by omega) hpos hfail hnext hcontent
    · rw [Exec.bind_apply, hpass]
      exact .overflow (never_of_last hfirst (by omega))
    · rw [Exec.bind_of_ok hpass]
      by_cases hlast : done + self.count (buf.length - done) = buf.length
      · rw [hlast, write_loop_full]
        exact .done _ mid rfl (by omega) (never_of_last hfirst (by omega))
      · have hstop : self.pos + (buf.length - done) =
            mid.pos + (buf.length - (done + self.count (buf.length - done))) := by omega
        have hloop := ih mid (done + self.count (buf.length - done)) (by omega) (by omega) (by omega)
        rw [← hstop] at hloop
        have hnext : mid.pos = 512 * (self.pos / 512 + 1) := by omega
        exact hloop.later hfirst hnext (by omega) fun i hi => writeFails_succ hnext hcalls hi

/-- A driver fails after the first sector of a transfer is done. -/
def FailsMidway (pos stop : Nat) (failsAt : Nat → Prop) : Prop :=
  ¬ failsAt 0 ∧ ∃ i, 0 < i ∧ 512 * (pos / 512 + i) < min stop (2 ^ 64) ∧ failsAt i

theorem failsMidway_iff {stop : Nat} {failsAt : Nat → Prop} {α : Type} {complete : α → Prop}
    {outcome : Outcome ErrorKind (VirtioDisk δ) α} (h : Ends content stop failsAt self complete outcome) :
    FailsMidway self.pos stop failsAt ↔ ∃ next, outcome = .err .Other next ∧ self.pos < next.pos := by
  have hreached : ∀ i, 0 < i → 512 * (self.pos / 512 + i) < min stop (2 ^ 64) →
      Reached self.pos stop i := by
    intro i hpos hi
    exact ⟨by omega, hi⟩
  cases h with
  | done value next _ _ hnever =>
    refine iff_of_false ?_ ?_
    · rintro ⟨-, i, hpos, hi, hfails⟩
      exact hnever i (hreached i hpos hi) hfails
    · rintro ⟨next', hnext, -⟩
      cases hnext
  | overflow hnever =>
    refine iff_of_false ?_ ?_
    · rintro ⟨-, i, hpos, hi, hfails⟩
      exact hnever i (hreached i hpos hi) hfails
    · rintro ⟨next', hnext, -⟩
      cases hnext
  | failed i next hi hfails hfirst hnext _ =>
    rcases Nat.eq_zero_or_pos i with rfl | hpos
    · refine iff_of_false (fun hmidway => hmidway.1 hfails) ?_
      rintro ⟨next', hnext', hlt⟩
      cases hnext'
      omega
    · exact iff_of_true ⟨hfirst hpos, i, hpos, hi.2, hfails⟩ ⟨next, rfl, by omega⟩

/-- What the caller is told about a transfer is what has happened: after an error the
position and the sectors are as before, and otherwise the position has moved by the number
of bytes that is returned. -/
def Reports (content : δ → Nat → List UInt8) (self : VirtioDisk δ) {α : Type} (moved : α → Nat) :
    Outcome ErrorKind (VirtioDisk δ) α → Prop
  | .ok value next => next.pos = self.pos + moved value
  | .err _ next => next.pos = self.pos ∧ content next.driver = content self.driver
  | .abort => True

theorem Ends.reports_iff {len : Nat} {failsAt : Nat → Prop} {α : Type} {moved : α → Nat}
    {outcome : Outcome ErrorKind (VirtioDisk δ) α}
    (h : Ends content (self.pos + len) failsAt self (fun value => moved value = len) outcome) :
    Reports content self moved outcome ↔ ¬ FailsMidway self.pos (self.pos + len) failsAt := by
  rw [failsMidway_iff h]
  cases h with
  | done value next hvalue hpos _ =>
    refine iff_of_true ?_ ?_
    · rw [Reports, hpos, hvalue]
    · rintro ⟨next', hnext, -⟩
      cases hnext
  | overflow _ =>
    refine iff_of_true trivial ?_
    rintro ⟨next', hnext, -⟩
    cases hnext
  | failed i next _ _ _ hpos hcontent =>
    constructor
    · rintro ⟨hsame, -⟩ ⟨next', hnext, hmoved⟩
      cases hnext
      omega
    · intro hnot
      have hsame : next.pos = self.pos := by
        by_contra hmoved
        exact hnot ⟨next, rfl, by omega⟩
      exact ⟨hsame, hcontent (by omega)⟩

end VirtioDisk

/-- Whichever calls of its driver fail, a disk reports what it has done unless one fails for
a sector behind the first one of a transfer. -/
theorem disk_errors_iff {δ : Type} (drv : SectorDriver δ) (content : δ → Nat → List UInt8)
    (calls : δ → Nat) (fails : Nat → Access → Prop) (hdrv : drv.ActsOrFails content calls fails)
    (self : VirtioDisk δ) (hpos : self.pos < 2 ^ 64) (buf : List UInt8) :
    (self.Reports content Prod.fst (VirtioDisk.read drv buf self) ↔
      ¬ VirtioDisk.FailsMidway self.pos (self.pos + buf.length)
        (ReadFails fails (calls self.driver) self.pos)) ∧
    (self.Reports content id (VirtioDisk.write drv buf self) ↔
      ¬ VirtioDisk.FailsMidway self.pos (self.pos + buf.length)
        (WriteFails fails (calls self.driver) self.pos (self.pos + buf.length))) := by
  have hread := VirtioDisk.read_loop_ends hdrv self buf 0 (Nat.sub_le _ _) (Nat.zero_le _) hpos
  have hwrite := VirtioDisk.write_loop_ends hdrv self buf 0 (Nat.sub_le _ _) (Nat.zero_le _) hpos
  rw [Nat.sub_zero] at hread hwrite
  exact ⟨hread.reports_iff, hwrite.reports_iff⟩

/-- A disk of sevens, at the last byte of its first sector. -/
def sevens : VirtioDisk (VirtioBlk RamDisk) :=
  { VirtioDisk.new ⟨.new, ⟨fun _ => ⟨List.replicate 512 7, List.length_replicate⟩, 0⟩, []⟩ with pos := 511 }

/-- Where the first sector fails, nothing has happened. -/
theorem disk_errors_first_sector :
    sevens.pos < 2 ^ 64 ∧
      sevens.Reports (fun d sector => (d.device.sectors sector).1) Prod.fst
        (VirtioDisk.read (VirtioBlk.sectorDriver (ramDevice fun _ access => access = .read 0)) [1, 2]
          sevens) ∧
      sevens.Reports (fun d sector => (d.device.sectors sector).1) id
        (VirtioDisk.write (VirtioBlk.sectorDriver (ramDevice fun _ access => access = .read 0)) [1, 2]
          sevens) := by
  have hpos : sevens.pos < 2 ^ 64 := by decide
  have hiff := disk_errors_iff _ _ _ _ (ramDevice_actsOrFails fun _ access => access = .read 0) sevens
    hpos [1, 2]
  refine ⟨hpos, hiff.1.mpr fun hmidway => hmidway.1 ?_, hiff.2.mpr fun hmidway => hmidway.1 ?_⟩
  · decide
  · exact Or.inl (by decide)

/-- Where the second sector fails, the position has moved, and the first sector is
written. -/
theorem disk_errors_second_sector :
    ¬ sevens.Reports (fun d sector => (d.device.sectors sector).1) Prod.fst
        (VirtioDisk.read (VirtioBlk.sectorDriver (ramDevice fun _ access => access = .read 1)) [1, 2]
          sevens) ∧
      ¬ sevens.Reports (fun d sector => (d.device.sectors sector).1) id
        (VirtioDisk.write (VirtioBlk.sectorDriver (ramDevice fun _ access => access = .write 1)) [1, 2]
          sevens) := by
  constructor
  · have hends := VirtioDisk.read_loop_ends (ramDevice_actsOrFails fun _ access => access = .read 1)
      sevens [1, 2] 0 (Nat.sub_le _ _) (Nat.zero_le _) (by decide)
    exact hends.reports_iff.not_left.mpr ⟨by decide, 1, by decide, by decide, by decide⟩
  · have hends := VirtioDisk.write_loop_ends (ramDevice_actsOrFails fun _ access => access = .write 1)
      sevens [1, 2] 0 (Nat.sub_le _ _) (Nat.zero_le _) (by decide)
    exact hends.reports_iff.not_left.mpr ⟨by decide, 1, by decide, by decide, by decide⟩

end fs_server.virtio
