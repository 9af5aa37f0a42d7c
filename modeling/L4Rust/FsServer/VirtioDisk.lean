import Mathlib
import L4Rust.Library.Blocks
import L4Rust.Library.Exec

namespace fs_server.virtio

/-- The kinds of I/O errors the disk reports. -/
inductive ErrorKind where
  | Other | Unsupported | InvalidInput
  deriving DecidableEq, Repr

/-- A sector based driver with its own state. Reading is given a buffer and
returns what the buffer holds afterwards. -/
structure SectorDriver (δ : Type) where
  read_sector : Nat → List UInt8 → Exec Unit δ (List UInt8)
  write_sector : Nat → List UInt8 → Exec Unit δ Unit

/-- The sector size is set once, by `new`. -/
structure VirtioDisk (δ : Type) where
  driver : δ
  pos : Nat
  sector_size : Nat
  sector_size_eq : sector_size = 512

/-- `std::io::SeekFrom`: a `u64`, or an `i64`. -/
inductive SeekFrom where
  | Start (off : BitVec 64)
  | Current (off : BitVec 64)
  | End (off : BitVec 64)
  deriving DecidableEq, Repr

/-- A view `bytes[lo..hi]`; a range that is not inside panics. -/
def slice (bytes : List UInt8) (lo hi : Nat) : Option (List UInt8) :=
  if lo ≤ hi ∧ hi ≤ bytes.length then some ((bytes.drop lo).take (hi - lo)) else none

/-- `bytes[lo..hi].copy_from_slice(src)`; both sides must be equally long. -/
def copy_from_slice (bytes : List UInt8) (lo hi : Nat) (src : List UInt8) : Option (List UInt8) :=
  if lo ≤ hi ∧ hi ≤ bytes.length ∧ src.length = hi - lo then some (Blocks.splice bytes lo src) else none

namespace VirtioDisk

variable {δ : Type}

def new (driver : δ) : VirtioDisk δ := ⟨driver, 0, 512, rfl⟩

/-- A call of the driver; whatever error it reports becomes `Other`. -/
def onDriver {α : Type} (x : Exec Unit δ α) : Exec ErrorKind (VirtioDisk δ) α := fun self =>
  match x self.driver with
  | .ok a driver => .ok a { self with driver := driver }
  | .err _ driver => .err .Other { self with driver := driver }
  | .abort => .abort

/-- `self.pos += count`, with overflow checks: in the release profile the position wraps to the
beginning of the disk. -/
def advance (count : Nat) : Exec ErrorKind (VirtioDisk δ) Unit := do
  let self ← Exec.get
  let pos ← Exec.checked (if self.pos + count < 2 ^ 64 then some (self.pos + count) else none)
  Exec.modify fun self => { self with pos := pos }

/-- How many bytes of the current sector are part of a transfer that has this many
left. -/
def count (self : VirtioDisk δ) (remaining : Nat) : Nat :=
  min (self.sector_size - self.pos % self.sector_size) remaining

variable (drv : SectorDriver δ)

/-- One pass of the loop in `read`: how far the buffer is filled after it, and what
the buffer then holds. -/
def read_pass (done : Nat) (buf : List UInt8) : Exec ErrorKind (VirtioDisk δ) (Nat × List UInt8) := do
  let self ← Exec.get
  let sector := self.pos / self.sector_size
  let offset := self.pos % self.sector_size
  let blk ← onDriver (drv.read_sector sector (List.replicate 512 0))
  let count := self.count (buf.length - done)
  let part ← Exec.checked (slice blk offset (offset + count))
  let buf ← Exec.checked (copy_from_slice buf done (done + count) part)
  advance count
  pure (done + count, buf)

/-- The loop in `read`. Every pass takes at least one byte, so that the fuel is only
a bound on the number of passes. -/
def read_loop : Nat → Nat → List UInt8 → Exec ErrorKind (VirtioDisk δ) (Nat × List UInt8)
  | 0, done, buf => if done < buf.length then Exec.abort else pure (done, buf)
  | fuel + 1, done, buf =>
    if done < buf.length then do
      let (done, buf) ← read_pass drv done buf
      read_loop fuel done buf
    else pure (done, buf)

/-- `Read::read`: the number of bytes read and the buffer that holds them. -/
def read (buf : List UInt8) : Exec ErrorKind (VirtioDisk δ) (Nat × List UInt8) :=
  read_loop drv buf.length 0 buf

/-- The block a write starts from: read-modify-write when partial sector is
affected, zeros otherwise. -/
def block_to_write (sector offset remaining sector_size : Nat) :
    Exec ErrorKind (VirtioDisk δ) (List UInt8) :=
  if offset ≠ 0 ∨ remaining < sector_size then
    onDriver (drv.read_sector sector (List.replicate 512 0))
  else pure (List.replicate 512 0)

/-- One pass of the loop in `write`. -/
def write_pass (buf : List UInt8) (done : Nat) : Exec ErrorKind (VirtioDisk δ) Nat := do
  let self ← Exec.get
  let sector := self.pos / self.sector_size
  let offset := self.pos % self.sector_size
  let blk ← block_to_write drv sector offset (buf.length - done) self.sector_size
  let count := self.count (buf.length - done)
  let part ← Exec.checked (slice buf done (done + count))
  let blk ← Exec.checked (copy_from_slice blk offset (offset + count) part)
  onDriver (drv.write_sector sector blk)
  advance count
  pure (done + count)

def write_loop (buf : List UInt8) : Nat → Nat → Exec ErrorKind (VirtioDisk δ) Nat
  | 0, done => if done < buf.length then Exec.abort else pure done
  | fuel + 1, done =>
    if done < buf.length then do
      let done ← write_pass drv buf done
      write_loop buf fuel done
    else pure done

/-- `Write::write`. -/
def write (buf : List UInt8) : Exec ErrorKind (VirtioDisk δ) Nat := write_loop drv buf buf.length 0

/-- Addition of `i64`, with overflow checks. -/
def i64_add (a b : Int) : Option Int := if -2 ^ 63 ≤ a + b ∧ a + b < 2 ^ 63 then some (a + b) else none

/-- Take a new position unless it is negative. -/
def seek_to (new : Int) : Exec ErrorKind (VirtioDisk δ) Nat :=
  if new < 0 then Exec.throw .InvalidInput
  else do
    Exec.modify fun self => { self with pos := new.toNat }
    pure new.toNat

/-- `Seek::seek`. -/
def seek (pos : SeekFrom) : Exec ErrorKind (VirtioDisk δ) Nat := do
  let self ← Exec.get
  match pos with
  | .Start off => seek_to off.toInt
  | .Current off => do
    let new ← Exec.checked (i64_add (BitVec.ofNat 64 self.pos).toInt off.toInt)
    seek_to new
  | .End _ => Exec.throw .Unsupported

end VirtioDisk

/-- What the code relies on: the driver's calls succeed on buffers of a sector's
size, reading returns the sector and changes none, and writing changes the one
sector. -/
structure SectorDriver.ActsOn {δ : Type} (drv : SectorDriver δ) (content : δ → Nat → List UInt8) :
    Prop where
  length_content : ∀ d sector, (content d sector).length = 512
  read : ∀ d sector buf, sector < 2 ^ 64 → buf.length = 512 →
    ∃ d', drv.read_sector sector buf d = .ok (content d sector) d' ∧ content d' = content d
  write : ∀ d sector buf, sector < 2 ^ 64 → buf.length = 512 →
    ∃ d', drv.write_sector sector buf d = .ok () d' ∧
      content d' = Function.update (content d) sector buf

namespace VirtioDisk

variable {δ : Type} {drv : SectorDriver δ} {content : δ → Nat → List UInt8}

/-- The disk as one array of bytes. -/
def bytes (content : δ → Nat → List UInt8) (self : VirtioDisk δ) : Memory :=
  Blocks.flat 512 (content self.driver)

theorem onDriver_of_ok {α : Type} {x : Exec Unit δ α} {self : VirtioDisk δ} {a : α} {d : δ}
    (h : x self.driver = .ok a d) : onDriver x self = .ok a { self with driver := d } := by
  simp only [onDriver, h]

theorem advance_of_lt {self : VirtioDisk δ} {count : Nat} (h : self.pos + count < 2 ^ 64) :
    advance count self = .ok () { self with pos := self.pos + count } := by
  simp only [advance, Exec.bind_apply, Exec.get_apply, if_pos h, Exec.checked_some, Exec.pure_apply,
    Exec.modify_apply]

theorem slice_of_le {bytes : List UInt8} {lo count : Nat} (h : lo + count ≤ bytes.length) :
    slice bytes lo (lo + count) = some ((bytes.drop lo).take count) := by
  rw [slice, if_pos ⟨Nat.le_add_right _ _, h⟩, Nat.add_sub_cancel_left]

theorem copy_from_slice_of_le {bytes src : List UInt8} {lo count : Nat}
    (h : lo + count ≤ bytes.length) (hsrc : src.length = count) :
    copy_from_slice bytes lo (lo + count) src = some (Blocks.splice bytes lo src) := by
  rw [copy_from_slice, if_pos ⟨Nat.le_add_right _ _, h, by omega⟩]

theorem count_eq (self : VirtioDisk δ) (remaining : Nat) :
    self.count remaining = min (512 - self.pos % 512) remaining := by
  rw [count, self.sector_size_eq]

/-- A pass stays in its sector and makes progress. -/
theorem count_bounds (self : VirtioDisk δ) {remaining : Nat} (h : 0 < remaining) :
    0 < self.count remaining ∧ self.count remaining ≤ remaining ∧
      self.pos % 512 + self.count remaining ≤ 512 := by
  rw [count_eq]
  omega

/-- The part of the buffer that a pass of a write stores. -/
theorem length_part (self : VirtioDisk δ) {buf : List UInt8} {done : Nat} (hdone : done < buf.length) :
    ((buf.drop done).take (self.count (buf.length - done))).length = self.count (buf.length - done) := by
  obtain ⟨_, hle, _⟩ := self.count_bounds (show 0 < buf.length - done by omega)
  rw [List.length_take, List.length_drop]
  omega

variable {self : VirtioDisk δ} {buf blk : List UInt8} {done : Nat} {d : δ}

theorem onDriver_of_err {α : Type} {x : Exec Unit δ α} (h : x self.driver = .err () d) :
    onDriver x self = .err .Other { self with driver := d } := by
  simp only [onDriver, h]

theorem advance_of_le {count : Nat} (h : 2 ^ 64 ≤ self.pos + count) : advance count self = .abort := by
  simp only [advance, Exec.bind_apply, Exec.get_apply, if_neg (Nat.not_lt.mpr h), Exec.checked_none,
    Exec.abort_apply]

/-- A pass of a read whose sector is there fills the next part of the buffer. -/
theorem read_pass_of_ok (hdone : done < buf.length) (hblk : blk.length = 512)
    (hread : drv.read_sector (self.pos / 512) (List.replicate 512 0) self.driver = .ok blk d) :
    read_pass drv done buf self =
      if self.pos + self.count (buf.length - done) < 2 ^ 64 then
        .ok (done + self.count (buf.length - done), Blocks.splice buf done
            ((blk.drop (self.pos % 512)).take (self.count (buf.length - done))))
          { self with driver := d, pos := self.pos + self.count (buf.length - done) }
      else .abort := by
  obtain ⟨_, hle, hsector⟩ := self.count_bounds (show 0 < buf.length - done by omega)
  obtain ⟨driver, pos, _, rfl⟩ := self
  generalize hcount : count _ (buf.length - done) = count at hle hsector ⊢
  dsimp only at hsector hread ⊢
  have hpart : ((blk.drop (pos % 512)).take count).length = count := by
    rw [List.length_take, List.length_drop]
    omega
  unfold read_pass
  rw [Exec.bind_get, Exec.bind_of_ok (onDriver_of_ok hread)]
  dsimp only
  rw [hcount, Exec.bind_checked_of_some (slice_of_le (by omega)),
    Exec.bind_checked_of_some (copy_from_slice_of_le (by omega) hpart)]
  by_cases hpos : pos + count < 2 ^ 64
  · rw [if_pos hpos, Exec.bind_of_ok (advance_of_lt hpos)]
    rfl
  · rw [if_neg hpos, Exec.bind_apply, advance_of_le (Nat.not_lt.mp hpos)]

theorem read_pass_of_err
    (hread : drv.read_sector (self.pos / 512) (List.replicate 512 0) self.driver = .err () d) :
    read_pass drv done buf self = .err .Other { self with driver := d } := by
  obtain ⟨driver, pos, _, rfl⟩ := self
  unfold read_pass
  rw [Exec.bind_get, Exec.bind_of_err (onDriver_of_err hread)]

/-- A pass of a write stores the next part of the buffer over the block it starts from. -/
theorem write_pass_of_block (hdone : done < buf.length) (hblk : blk.length = 512)
    (hblock : block_to_write drv (self.pos / 512) (self.pos % 512) (buf.length - done) 512 self =
      .ok blk { self with driver := d }) :
    write_pass drv buf done self =
      (do
        onDriver (drv.write_sector (self.pos / 512) (Blocks.splice blk (self.pos % 512)
          ((buf.drop done).take (self.count (buf.length - done)))))
        advance (self.count (buf.length - done))
        pure (done + self.count (buf.length - done))) { self with driver := d } := by
  obtain ⟨_, hle, hsector⟩ := self.count_bounds (show 0 < buf.length - done by omega)
  have hpart := self.length_part hdone
  obtain ⟨driver, pos, _, rfl⟩ := self
  generalize hcount : count _ (buf.length - done) = count at hle hsector hpart ⊢
  dsimp only at hsector hblock ⊢
  unfold write_pass
  rw [Exec.bind_get, Exec.bind_of_ok hblock]
  dsimp only
  rw [hcount, Exec.bind_checked_of_some (slice_of_le (by omega)),
    Exec.bind_checked_of_some (copy_from_slice_of_le (by omega) hpart)]

theorem write_pass_of_ok {d' : δ} (hdone : done < buf.length) (hblk : blk.length = 512)
    (hblock : block_to_write drv (self.pos / 512) (self.pos % 512) (buf.length - done) 512 self =
      .ok blk { self with driver := d })
    (hwrite : drv.write_sector (self.pos / 512) (Blocks.splice blk (self.pos % 512)
      ((buf.drop done).take (self.count (buf.length - done)))) d = .ok () d') :
    write_pass drv buf done self =
      if self.pos + self.count (buf.length - done) < 2 ^ 64 then
        .ok (done + self.count (buf.length - done))
          { self with driver := d', pos := self.pos + self.count (buf.length - done) }
      else .abort := by
  have hstored : onDriver (drv.write_sector (self.pos / 512) (Blocks.splice blk (self.pos % 512)
      ((buf.drop done).take (self.count (buf.length - done))))) { self with driver := d } =
      .ok () { self with driver := d' } := onDriver_of_ok hwrite
  rw [write_pass_of_block hdone hblk hblock, Exec.bind_of_ok hstored]
  by_cases hpos : self.pos + self.count (buf.length - done) < 2 ^ 64
  · have hadvance : advance (self.count (buf.length - done)) { self with driver := d' } = .ok () _ :=
      advance_of_lt hpos
    rw [if_pos hpos, Exec.bind_of_ok hadvance]
    rfl
  · have hadvance : advance (self.count (buf.length - done)) { self with driver := d' } = .abort :=
      advance_of_le (Nat.not_lt.mp hpos)
    rw [if_neg hpos, Exec.bind_apply, hadvance]

theorem write_pass_of_err {d' : δ} (hdone : done < buf.length) (hblk : blk.length = 512)
    (hblock : block_to_write drv (self.pos / 512) (self.pos % 512) (buf.length - done) 512 self =
      .ok blk { self with driver := d })
    (hwrite : drv.write_sector (self.pos / 512) (Blocks.splice blk (self.pos % 512)
      ((buf.drop done).take (self.count (buf.length - done)))) d = .err () d') :
    write_pass drv buf done self = .err .Other { self with driver := d' } := by
  rw [write_pass_of_block hdone hblk hblock]
  exact Exec.bind_of_err (onDriver_of_err hwrite)

theorem write_pass_of_block_err
    (hblock : block_to_write drv (self.pos / 512) (self.pos % 512) (buf.length - done) 512 self =
      .err .Other { self with driver := d }) :
    write_pass drv buf done self = .err .Other { self with driver := d } := by
  obtain ⟨driver, pos, _, rfl⟩ := self
  unfold write_pass
  rw [Exec.bind_get, Exec.bind_of_err hblock]

theorem read_loop_full (fuel : Nat) (buf : List UInt8) :
    read_loop drv fuel buf.length buf = pure (buf.length, buf) := by
  cases fuel with
  | zero => exact if_neg (Nat.lt_irrefl _)
  | succ fuel => exact if_neg (Nat.lt_irrefl _)

theorem write_loop_full (fuel : Nat) (buf : List UInt8) :
    write_loop drv buf fuel buf.length = pure buf.length := by
  cases fuel with
  | zero => exact if_neg (Nat.lt_irrefl _)
  | succ fuel => exact if_neg (Nat.lt_irrefl _)

/-- A read that is done after one pass. -/
theorem read_of_pass {bytes : List UInt8} {mid : VirtioDisk δ} (hbuf : 0 < buf.length)
    (h : read_pass drv 0 buf self = .ok (buf.length, bytes) mid) (hbytes : bytes.length = buf.length) :
    read drv buf self = .ok (buf.length, bytes) mid := by
  obtain ⟨fuel, hfuel⟩ := Nat.exists_eq_succ_of_ne_zero (Nat.ne_of_gt hbuf)
  have hloop : read_loop drv (fuel + 1) 0 buf self = .ok (buf.length, bytes) mid := by
    rw [read_loop, if_pos hbuf, Exec.bind_of_ok h]
    dsimp only
    rw [← hbytes, read_loop_full]
    rfl
  rw [← Nat.succ_eq_add_one, ← hfuel] at hloop
  exact hloop

theorem write_of_pass {mid : VirtioDisk δ} (hbuf : 0 < buf.length)
    (h : write_pass drv buf 0 self = .ok buf.length mid) : write drv buf self = .ok buf.length mid := by
  obtain ⟨fuel, hfuel⟩ := Nat.exists_eq_succ_of_ne_zero (Nat.ne_of_gt hbuf)
  have hloop : write_loop drv buf (fuel + 1) 0 self = .ok buf.length mid := by
    rw [write_loop, if_pos hbuf, Exec.bind_of_ok h, write_loop_full]
    rfl
  rw [← Nat.succ_eq_add_one, ← hfuel] at hloop
  exact hloop

theorem read_in_sector (hbuf : 0 < buf.length) (hfits : self.pos % 512 + buf.length ≤ 512)
    (hpos : self.pos + buf.length < 2 ^ 64) (hblk : blk.length = 512)
    (hread : drv.read_sector (self.pos / 512) (List.replicate 512 0) self.driver = .ok blk d) :
    ∃ bytes, read drv buf self =
      .ok (buf.length, bytes) { self with driver := d, pos := self.pos + buf.length } := by
  have hcount : self.count (buf.length - 0) = buf.length := by
    rw [count_eq]
    omega
  have hpass := read_pass_of_ok hbuf hblk hread
  rw [if_pos (by rw [hcount]; exact hpos), hcount, Nat.zero_add] at hpass
  refine ⟨_, read_of_pass hbuf hpass (Blocks.length_splice ?_)⟩
  rw [List.length_take, List.length_drop]
  omega

theorem write_in_sector {d' : δ} (hbuf : 0 < buf.length) (hfits : self.pos % 512 + buf.length ≤ 512)
    (hpos : self.pos + buf.length < 2 ^ 64) (hblk : blk.length = 512)
    (hblock : block_to_write drv (self.pos / 512) (self.pos % 512) buf.length 512 self =
      .ok blk { self with driver := d })
    (hwrite : drv.write_sector (self.pos / 512) (Blocks.splice blk (self.pos % 512) buf) d = .ok () d') :
    write drv buf self =
      .ok buf.length { self with driver := d', pos := self.pos + buf.length } := by
  have hcount : self.count (buf.length - 0) = buf.length := by
    rw [count_eq]
    omega
  have hpart : (buf.drop 0).take (self.count (buf.length - 0)) = buf := by
    rw [hcount, List.drop_zero, List.take_length]
  rw [← hpart] at hwrite
  have hpass := write_pass_of_ok hbuf hblk hblock hwrite
  rw [if_pos (by rw [hcount]; exact hpos), hcount, Nat.zero_add] at hpass
  exact write_of_pass hbuf hpass

end VirtioDisk

end fs_server.virtio
