import L4Rust.FsServer.VirtioDisk

namespace fs_server.virtio

namespace VirtioDisk

variable {δ : Type} {drv : SectorDriver δ} {content : δ → Nat → List UInt8} {self : VirtioDisk δ}
  {buf : List UInt8} {done : Nat}

/-- One pass of a read fills the next part of the buffer from the disk. -/
theorem read_pass_spec (hdrv : drv.ActsOn content) (hdone : done < buf.length)
    (hpos : self.pos + (buf.length - done) < 2 ^ 63) :
    ∃ next, read_pass drv done buf self = .ok (done + self.count (buf.length - done),
        Blocks.splice buf done
          ((self.bytes content).load self.pos (self.count (buf.length - done)))) next ∧
      next.pos = self.pos + self.count (buf.length - done) ∧
      next.bytes content = self.bytes content := by
  obtain ⟨_, hle, hsector⟩ := self.count_bounds (show 0 < buf.length - done by omega)
  obtain ⟨d, hread, hcontent⟩ := hdrv.read self.driver (self.pos / 512) (List.replicate 512 0)
    (by omega) List.length_replicate
  have hlen := hdrv.length_content self.driver (self.pos / 512)
  have hload : (self.bytes content).load self.pos (self.count (buf.length - done)) =
      ((content self.driver (self.pos / 512)).drop (self.pos % 512)).take
        (self.count (buf.length - done)) := Blocks.load_flat hsector hlen
  have hpass := read_pass_of_ok hdone hlen hread
  rw [if_pos (by omega), ← hload] at hpass
  refine ⟨_, hpass, rfl, ?_⟩
  simp only [bytes, hcontent]

/-- A write starts from what the sector holds, unless it is about to overwrite all
of it. -/
theorem block_to_write_spec (hdrv : drv.ActsOn content) (self : VirtioDisk δ) (remaining : Nat)
    (hpos : self.pos < 2 ^ 63) :
    ∃ blk d, block_to_write drv (self.pos / 512) (self.pos % 512) remaining 512 self =
        .ok blk { self with driver := d } ∧ content d = content self.driver ∧ blk.length = 512 ∧
      (blk = content self.driver (self.pos / 512) ∨ self.pos % 512 = 0 ∧ 512 ≤ remaining) := by
  unfold block_to_write
  by_cases hpartial : self.pos % 512 ≠ 0 ∨ remaining < 512
  · obtain ⟨d, hread, hcontent⟩ := hdrv.read self.driver (self.pos / 512) (List.replicate 512 0)
      (by omega) List.length_replicate
    refine ⟨content self.driver (self.pos / 512), d, ?_, hcontent, hdrv.length_content _ _, .inl rfl⟩
    rw [if_pos hpartial]
    exact onDriver_of_ok hread
  · refine ⟨List.replicate 512 0, self.driver, ?_, rfl, List.length_replicate, .inr (by omega)⟩
    rw [if_neg hpartial]
    rfl

/-- One pass of a write stores the next part of the buffer and nothing else. -/
theorem write_pass_spec (hdrv : drv.ActsOn content) (hdone : done < buf.length)
    (hpos : self.pos + (buf.length - done) < 2 ^ 63) :
    ∃ next, write_pass drv buf done self = .ok (done + self.count (buf.length - done)) next ∧
      next.pos = self.pos + self.count (buf.length - done) ∧
      next.bytes content = (self.bytes content).store self.pos
        ((buf.drop done).take (self.count (buf.length - done))) := by
  obtain ⟨_, hle, hsector⟩ := self.count_bounds (show 0 < buf.length - done by omega)
  have hcount := self.count_eq (buf.length - done)
  have hpart := self.length_part hdone
  obtain ⟨blk, d, hblock, hcontent, hblk, hold⟩ :=
    block_to_write_spec hdrv self (buf.length - done) (by omega)
  have hlen := hdrv.length_content self.driver (self.pos / 512)
  -- A sector that was not read is overwritten from end to end.
  have hsplice : Blocks.splice blk (self.pos % 512)
        ((buf.drop done).take (self.count (buf.length - done))) =
      Blocks.splice (content self.driver (self.pos / 512)) (self.pos % 512)
        ((buf.drop done).take (self.count (buf.length - done))) := by
    rcases hold with rfl | ⟨hstart, hfull⟩
    · rfl
    · rw [hstart, Blocks.splice_all (by omega), Blocks.splice_all (by omega)]
  have hfull : (Blocks.splice blk (self.pos % 512)
      ((buf.drop done).take (self.count (buf.length - done)))).length = 512 := by
    rw [Blocks.length_splice (by omega), hblk]
  obtain ⟨d', hwrite, hcontent'⟩ := hdrv.write d (self.pos / 512) _ (by omega) hfull
  have hpass := write_pass_of_ok hdone hblk hblock hwrite
  rw [if_pos (by omega)] at hpass
  refine ⟨_, hpass, rfl, ?_⟩
  simp only [bytes, hcontent', hcontent, hsplice]
  exact Blocks.flat_update (by omega) hlen

/-- A read that has filled the buffer up to `done` fills the rest from the disk. -/
theorem read_loop_spec (hdrv : drv.ActsOn content) (self : VirtioDisk δ) (buf : List UInt8) (done : Nat)
    {fuel : Nat} (hfuel : buf.length - done ≤ fuel) (hdone : done ≤ buf.length)
    (hpos : self.pos + (buf.length - done) < 2 ^ 63) :
    ∃ next, read_loop drv fuel done buf self = .ok (buf.length,
        buf.take done ++ (self.bytes content).load self.pos (buf.length - done)) next ∧
      next.pos = self.pos + (buf.length - done) ∧ next.bytes content = self.bytes content := by
  induction fuel generalizing self buf done with
  | zero =>
    obtain rfl : done = buf.length := by omega
    refine ⟨self, ?_, by omega, rfl⟩
    simp [read_loop_full, Memory.load]
  | succ fuel ih =>
    rcases Nat.eq_or_lt_of_le hdone with rfl | hmore
    · refine ⟨self, ?_, by omega, rfl⟩
      simp [read_loop_full, Memory.load]
    obtain ⟨mid, hpass, hmid, hbytes⟩ := read_pass_spec hdrv hmore hpos
    obtain ⟨hprogress, hle, _⟩ := self.count_bounds (show 0 < buf.length - done by omega)
    generalize self.count (buf.length - done) = count at hpass hmid hprogress hle
    have hpart := Memory.length_load (self.bytes content) self.pos count
    have hlen : (Blocks.splice buf done ((self.bytes content).load self.pos count)).length =
        buf.length := Blocks.length_splice (by omega)
    have hrest : buf.length - (done + count) = buf.length - done - count := by omega
    obtain ⟨next, hloop, hnext, hsame⟩ := ih mid
      (Blocks.splice buf done ((self.bytes content).load self.pos count)) (done + count)
      (by omega) (by omega) (by omega)
    refine ⟨next, ?_, by omega, hsame.trans hbytes⟩
    rw [read_loop, if_pos hmore, Exec.bind_of_ok hpass]
    dsimp only
    rw [hloop, hlen, hbytes, hmid, hrest]
    have htake := Blocks.take_splice buf ((self.bytes content).load self.pos count)
      (show done + _ ≤ buf.length by omega)
    rw [hpart] at htake
    rw [htake, List.append_assoc, ← Memory.load_add, Nat.add_sub_cancel' hle]

/-- A write that has stored the buffer up to `done` stores the rest. -/
theorem write_loop_spec (hdrv : drv.ActsOn content) (self : VirtioDisk δ) (buf : List UInt8) (done : Nat)
    {fuel : Nat} (hfuel : buf.length - done ≤ fuel) (hdone : done ≤ buf.length)
    (hpos : self.pos + (buf.length - done) < 2 ^ 63) :
    ∃ next, write_loop drv buf fuel done self = .ok buf.length next ∧
      next.pos = self.pos + (buf.length - done) ∧
      next.bytes content = (self.bytes content).store self.pos (buf.drop done) := by
  induction fuel generalizing self done with
  | zero =>
    obtain rfl : done = buf.length := by omega
    refine ⟨self, by rw [write_loop_full]; rfl, by omega, ?_⟩
    rw [List.drop_length, Memory.store_nil]
  | succ fuel ih =>
    rcases Nat.eq_or_lt_of_le hdone with rfl | hmore
    · refine ⟨self, by rw [write_loop_full]; rfl, by omega, ?_⟩
      rw [List.drop_length, Memory.store_nil]
    obtain ⟨mid, hpass, hmid, hbytes⟩ := write_pass_spec hdrv hmore hpos
    obtain ⟨hprogress, hle, _⟩ := self.count_bounds (show 0 < buf.length - done by omega)
    generalize self.count (buf.length - done) = count at hpass hmid hbytes hprogress hle
    obtain ⟨next, hloop, hnext, hstore⟩ := ih mid (done + count) (by omega) (by omega)
      (by omega)
    refine ⟨next, ?_, by omega, ?_⟩
    · rw [write_loop, if_pos hmore, Exec.bind_of_ok hpass]
      exact hloop
    · have hpart : ((buf.drop done).take count).length = count := by
        simp only [List.length_take, List.length_drop]
        omega
      have hsplit : (buf.drop done).take count ++ buf.drop (done + count) = buf.drop done := by
        rw [← List.drop_drop, List.take_append_drop]
      rw [← hsplit, Memory.store_append, hpart, ← hbytes, ← hmid]
      exact hstore

end VirtioDisk

/-- What a disk is for: one array of bytes and a position in it. -/
structure FlatDisk where
  bytes : Memory
  pos : Nat

/-- A call on a disk. -/
inductive DiskOp where
  | seek (pos : SeekFrom)
  | read (buf : List UInt8)
  | write (buf : List UInt8)
  deriving DecidableEq, Repr

/-- What a call returns: the new position, the number of bytes read and the buffer
that holds them, or the number of bytes written. -/
inductive DiskReply where
  | seek (result : Except ErrorKind Nat)
  | read (result : Except ErrorKind (Nat × List UInt8))
  | write (result : Except ErrorKind Nat)

/-- A position is kept where the target lies before the start. -/
def FlatDisk.seek (self : FlatDisk) (target : Int) : DiskReply × FlatDisk :=
  if target < 0 then (.seek (.error .InvalidInput), self)
  else (.seek (.ok target.toNat), { self with pos := target.toNat })

/-- Reading returns the bytes at the position and writing replaces them; both move
the position behind them. -/
def FlatDisk.perform (self : FlatDisk) : DiskOp → DiskReply × FlatDisk
  | .seek (.Start off) => self.seek off.toNat
  | .seek (.Current off) => self.seek (self.pos + off.toInt)
  | .seek (.End _) => (.seek (.error .Unsupported), self)
  | .read buf => (.read (.ok (buf.length, self.bytes.load self.pos buf.length)),
    { self with pos := self.pos + buf.length })
  | .write buf => (.write (.ok buf.length),
    ⟨self.bytes.store self.pos buf, self.pos + buf.length⟩)

def FlatDisk.performAll (self : FlatDisk) : List DiskOp → List DiskReply × FlatDisk
  | [] => ([], self)
  | op :: ops =>
    let (reply, next) := self.perform op
    let (replies, last) := next.performAll ops
    (reply :: replies, last)

/-- The position stays where an `i64` can tell it. -/
def FlatDisk.StaysBelow (self : FlatDisk) : List DiskOp → Prop
  | [] => True
  | op :: ops => (self.perform op).2.pos < 2 ^ 63 ∧ (self.perform op).2.StaysBelow ops

instance FlatDisk.decidableStaysBelow :
    (self : FlatDisk) → (ops : List DiskOp) → Decidable (self.StaysBelow ops)
  | _, [] => isTrue trivial
  | self, op :: ops =>
    have := FlatDisk.decidableStaysBelow (self.perform op).2 ops
    inferInstanceAs (Decidable ((self.perform op).2.pos < 2 ^ 63 ∧ (self.perform op).2.StaysBelow ops))

/-- The outcome of a call as its caller sees it; without one the program panics. -/
def settle {δ α : Type} (reply : Except ErrorKind α → DiskReply)
    (outcome : Outcome ErrorKind (VirtioDisk δ) α) : Option (DiskReply × VirtioDisk δ) :=
  match outcome with
  | .ok a next => some (reply (.ok a), next)
  | .err e next => some (reply (.error e), next)
  | .abort => none

namespace VirtioDisk

variable {δ : Type} (drv : SectorDriver δ)

def perform (self : VirtioDisk δ) : DiskOp → Option (DiskReply × VirtioDisk δ)
  | .seek pos => settle .seek (seek pos self)
  | .read buf => settle .read (read drv buf self)
  | .write buf => settle .write (write drv buf self)

def performAll (self : VirtioDisk δ) : List DiskOp → Option (List DiskReply × VirtioDisk δ)
  | [] => some ([], self)
  | op :: ops => do
    let (reply, next) ← self.perform drv op
    let (replies, last) ← next.performAll ops
    pure (reply :: replies, last)

variable {drv} {content : δ → Nat → List UInt8}

/-- The disk without its sectors. -/
def flat (content : δ → Nat → List UInt8) (self : VirtioDisk δ) : FlatDisk :=
  ⟨self.bytes content, self.pos⟩

theorem read_spec (hdrv : drv.ActsOn content) (self : VirtioDisk δ) (buf : List UInt8)
    (hpos : self.pos + buf.length < 2 ^ 63) :
    ∃ next, self.perform drv (.read buf) = some (((self.flat content).perform (.read buf)).1, next) ∧
      next.flat content = ((self.flat content).perform (.read buf)).2 := by
  obtain ⟨next, hread, hnext, hbytes⟩ := read_loop_spec hdrv self buf 0
    (show buf.length - 0 ≤ buf.length by omega) (Nat.zero_le _) (by omega)
  refine ⟨next, ?_, ?_⟩
  · simp only [perform, read, hread]
    rfl
  · simp only [flat, FlatDisk.perform, hnext, hbytes]
    rfl

theorem write_spec (hdrv : drv.ActsOn content) (self : VirtioDisk δ) (buf : List UInt8)
    (hpos : self.pos + buf.length < 2 ^ 63) :
    ∃ next, self.perform drv (.write buf) = some (((self.flat content).perform (.write buf)).1, next) ∧
      next.flat content = ((self.flat content).perform (.write buf)).2 := by
  obtain ⟨next, hwrite, hnext, hbytes⟩ := write_loop_spec hdrv self buf 0
    (show buf.length - 0 ≤ buf.length by omega) (Nat.zero_le _) (by omega)
  refine ⟨next, ?_, ?_⟩
  · simp only [perform, write, hwrite]
    rfl
  · simp only [flat, FlatDisk.perform, hnext, hbytes]
    rfl

theorem seek_to_spec (self : VirtioDisk δ) (target : Int) :
    ∃ next, settle .seek (seek_to target self) = some (((self.flat content).seek target).1, next) ∧
      next.flat content = ((self.flat content).seek target).2 := by
  unfold seek_to FlatDisk.seek
  split
  · exact ⟨self, rfl, rfl⟩
  · exact ⟨{ self with pos := target.toNat }, rfl, rfl⟩

theorem toInt_of_lt {w : BitVec 64} (h : w.toNat < 2 ^ 63) : w.toInt = w.toNat := by
  rw [BitVec.toInt_eq_toNat_bmod, Int.bmod_def]
  omega

theorem pos_seek (disk : FlatDisk) {target : Int} (h : 0 ≤ target) :
    (disk.seek target).2.pos = target.toNat := by
  rw [FlatDisk.seek, if_neg (by omega)]

/-- Seeking agrees as long as an `i64` can tell where the positions are. -/
theorem seek_spec (self : VirtioDisk δ) (pos : SeekFrom) (hpos : self.pos < 2 ^ 63)
    (hnext : ((self.flat content).perform (.seek pos)).2.pos < 2 ^ 63) :
    ∃ next, self.perform drv (.seek pos) = some (((self.flat content).perform (.seek pos)).1, next) ∧
      next.flat content = ((self.flat content).perform (.seek pos)).2 := by
  cases pos with
  | Start off =>
    rw [FlatDisk.perform, pos_seek _ (Int.natCast_nonneg _), Int.toNat_natCast] at hnext
    rw [FlatDisk.perform, ← toInt_of_lt hnext]
    exact self.seek_to_spec _
  | Current off =>
    have hself : (BitVec.ofNat 64 self.pos).toInt = self.pos := by
      have hnat : (BitVec.ofNat 64 self.pos).toNat = self.pos := by
        rw [BitVec.toNat_ofNat]
        omega
      rw [toInt_of_lt (by omega), hnat]
    have hsum : i64_add (BitVec.ofNat 64 self.pos).toInt off.toInt = some (self.pos + off.toInt) := by
      have hlow := BitVec.le_toInt off
      rw [hself, i64_add, if_pos]
      constructor
      · omega
      · by_contra hhigh
        rw [FlatDisk.perform, pos_seek _ (by simp only [flat]; omega)] at hnext
        simp only [flat] at hnext
        omega
    have hseek : seek (.Current off) self = seek_to (self.pos + off.toInt) self := by
      unfold seek
      rw [Exec.bind_get]
      exact Exec.bind_checked_of_some hsum
    rw [perform, hseek]
    exact self.seek_to_spec _
  | End off => exact ⟨self, rfl, rfl⟩

theorem perform_spec (hdrv : drv.ActsOn content) (self : VirtioDisk δ) (op : DiskOp)
    (hpos : self.pos < 2 ^ 63) (hnext : ((self.flat content).perform op).2.pos < 2 ^ 63) :
    ∃ next, self.perform drv op = some (((self.flat content).perform op).1, next) ∧
      next.flat content = ((self.flat content).perform op).2 := by
  cases op with
  | seek pos => exact self.seek_spec pos hpos hnext
  | read buf => exact read_spec hdrv self buf hnext
  | write buf => exact write_spec hdrv self buf hnext

theorem performAll_spec (hdrv : drv.ActsOn content) (self : VirtioDisk δ) (ops : List DiskOp)
    (hpos : self.pos < 2 ^ 63) (hbelow : (self.flat content).StaysBelow ops) :
    ∃ last, self.performAll drv ops = some (((self.flat content).performAll ops).1, last) ∧
      last.flat content = ((self.flat content).performAll ops).2 := by
  induction ops generalizing self with
  | nil => exact ⟨self, rfl, rfl⟩
  | cons op ops ih =>
    obtain ⟨hnext, hrest⟩ := hbelow
    obtain ⟨next, hop, hflat⟩ := perform_spec hdrv self op hpos hnext
    rw [← hflat] at hnext hrest
    obtain ⟨last, hops, hlast⟩ := ih next hnext hrest
    refine ⟨last, ?_, ?_⟩
    · rw [performAll, hop]
      simp only [Option.bind_eq_bind, Option.bind_some, hops]
      simp only [FlatDisk.performAll, hflat]
      rfl
    · simp only [FlatDisk.performAll, ← hflat, hlast]

end VirtioDisk

/-- Over any driver that reads and writes sectors, a disk answers every sequence of
calls as an array of bytes with a position does, and holds the same bytes at the
same position afterwards. -/
theorem virtio_disk_refines_flat {δ : Type} (drv : SectorDriver δ) (content : δ → Nat → List UInt8)
    (hdrv : drv.ActsOn content) (driver : δ) (ops : List DiskOp)
    (hbelow : ((VirtioDisk.new driver).flat content).StaysBelow ops) :
    ∃ last, (VirtioDisk.new driver).performAll drv ops =
        some ((((VirtioDisk.new driver).flat content).performAll ops).1, last) ∧
      last.flat content = (((VirtioDisk.new driver).flat content).performAll ops).2 :=
  VirtioDisk.performAll_spec hdrv _ ops (Nat.two_pow_pos 63) hbelow

/-- A driver for a disk that is an array of sectors in memory. -/
def ramDriver : SectorDriver (Nat → { bytes : List UInt8 // bytes.length = 512 }) where
  read_sector sector _ := do
    let sectors ← Exec.get
    pure (sectors sector).1
  write_sector sector buf := fun sectors =>
    if h : buf.length = 512 then .ok () (Function.update sectors sector ⟨buf, h⟩) else .err () sectors

theorem ramDriver_actsOn : ramDriver.ActsOn fun sectors sector => (sectors sector).1 where
  length_content sectors sector := (sectors sector).2
  read sectors sector _ _ _ := ⟨sectors, rfl, rfl⟩
  write := by
    intro sectors sector buf _ hlen
    exact ⟨_, dif_pos hlen, Function.comp_update Subtype.val sectors sector ⟨buf, hlen⟩⟩

/-- Four bytes across the end of a sector, read back with the ones behind them. -/
theorem virtio_disk_across_sectors :
    ∃ last, (VirtioDisk.new fun _ => ⟨List.replicate 512 7, List.length_replicate⟩).performAll ramDriver
        [.seek (.Start 510), .write [1, 2, 3, 4], .seek (.Current (-4)), .read (List.replicate 6 0)] =
      some ([.seek (.ok 510), .write (.ok 4), .seek (.ok 510), .read (.ok (6, [1, 2, 3, 4, 7, 7]))],
        last) := by
  obtain ⟨last, hrun, _⟩ := virtio_disk_refines_flat ramDriver _ ramDriver_actsOn
    (fun _ => ⟨List.replicate 512 7, List.length_replicate⟩)
    [.seek (.Start 510), .write [1, 2, 3, 4], .seek (.Current (-4)), .read (List.replicate 6 0)]
    (by decide)
  exact ⟨last, hrun⟩

end fs_server.virtio
