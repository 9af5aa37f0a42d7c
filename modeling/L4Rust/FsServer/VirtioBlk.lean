import L4Rust.FsServer.VirtioDisk

namespace fs_server.virtio

def QUEUE_SIZE : Nat := 8

/-- What the address in a descriptor is that of. -/
inductive Addr where
  | null
  | header
  | buf
  | status
  deriving DecidableEq, Repr

structure VirtqDesc where
  addr : Addr
  len : UInt32
  flags : UInt16
  next : UInt16
  deriving DecidableEq, Repr

structure VirtqAvail where
  flags : UInt16
  idx : UInt16
  ring : Vector UInt16 QUEUE_SIZE
  used_event : UInt16

structure VirtQueue where
  desc : Vector VirtqDesc QUEUE_SIZE
  avail : VirtqAvail

def VirtQueue.new : VirtQueue :=
  ⟨Vector.replicate _ ⟨.null, 0, 0, 0⟩, ⟨0, 0, Vector.replicate _ 0, 0⟩⟩

/-- Request header as defined by the virtio block specification. -/
structure VirtioBlkReq where
  req_type : UInt32
  reserved : UInt32
  sector : UInt64
  deriving DecidableEq, Repr

/-- What has happened by the time both waits have returned: the bytes of the buffer that
the device has stored, the status byte if it has written one, and what the two IPC
operations returned. -/
structure Completion (σ : Type) where
  device : σ
  stored : Nat → Option UInt8
  status : Option UInt8
  received : UInt64
  waited : UInt64
  label : UInt64

/-- Any device, with any behaviour of its interrupt: it is given the queue, the header and
the buffer that the queue refers to. -/
def Device (σ : Type) : Type := σ → VirtQueue → VirtioBlkReq → List UInt8 → Completion σ

/-- A request as the device has left it, which the code does not record: the data are
those that were stored in the buffer, or those to be written. -/
structure Request where
  read : Bool
  sector : Nat
  data : List UInt8
  status : Option UInt8
  deriving DecidableEq, Repr

/-- The driver with the device behind it and a record of its requests. -/
structure VirtioBlk (σ : Type) where
  queue : VirtQueue
  device : σ
  requests : List Request

namespace VirtioBlk

variable {σ : Type}

/-- The queue with the descriptor chain of a request placed into the available ring. -/
def place (queue : VirtQueue) (len : Nat) (read : Bool) : VirtQueue :=
  let desc := queue.desc.set 0 ⟨.header, 16, 0x0002, 1⟩ (by decide)
  let flags : UInt16 := if read then 0x0002 ||| 0x0001 else 0x0002
  let desc := desc.set 1 ⟨.buf, .ofNat len, flags, 2⟩ (by decide)
  let desc := desc.set 2 ⟨.status, 1, 0x0001, 0⟩ (by decide)
  let idx := queue.avail.idx.toNat % QUEUE_SIZE
  let ring := queue.avail.ring.set idx 0 (Nat.mod_lt _ (by decide))
  ⟨desc, { queue.avail with ring := ring, idx := queue.avail.idx + 1 }⟩

/-- The buffer as the device leaves it. -/
def stored (buf : List UInt8) (bytes : Nat → Option UInt8) : List UInt8 :=
  buf.mapIdx fun i byte => (bytes i).getD byte

def transfer (dev : Device σ) (sector : Nat) (buf : List UInt8) (read : Bool) :
    Exec Unit (VirtioBlk σ) (List UInt8) := fun self =>
  let header : VirtioBlkReq := ⟨if read then 0 else 1, 0, .ofNat sector⟩
  let status : UInt8 := 0
  let queue := place self.queue buf.length read
  -- Neither of the two waits is checked.
  let completion := dev self.device queue header buf
  let status := completion.status.getD status
  let after := stored buf completion.stored
  let request : Request := ⟨read, sector, if read then after else buf, completion.status⟩
  let self := ⟨queue, completion.device, self.requests ++ [request]⟩
  if status = 0 then .ok after self else .err () self

def read_sector (dev : Device σ) (sector : Nat) (buf : List UInt8) :
    Exec Unit (VirtioBlk σ) (List UInt8) :=
  transfer dev sector buf true

/-- The data are copied, so that nothing the device stores there is seen. -/
def write_sector (dev : Device σ) (sector : Nat) (buf : List UInt8) : Exec Unit (VirtioBlk σ) Unit := do
  let _ ← transfer dev sector buf false
  pure ()

/-- The driver as the disk uses it. -/
def sectorDriver (dev : Device σ) : SectorDriver (VirtioBlk σ) := ⟨read_sector dev, write_sector dev⟩

variable {dev : Device σ} {self next : VirtioBlk σ} {sector : Nat} {buf : List UInt8}

/-- How a request ends. -/
def completion (dev : Device σ) (self : VirtioBlk σ) (sector : Nat) (buf : List UInt8) (read : Bool) :
    Completion σ :=
  dev self.device (place self.queue buf.length read) ⟨if read then 0 else 1, 0, .ofNat sector⟩ buf

/-- The driver after a request. -/
def after (dev : Device σ) (self : VirtioBlk σ) (sector : Nat) (buf : List UInt8) (read : Bool) :
    VirtioBlk σ :=
  let completion := completion dev self sector buf read
  let data := if read then stored buf completion.stored else buf
  ⟨place self.queue buf.length read, completion.device,
    self.requests ++ [⟨read, sector, data, completion.status⟩]⟩

/-- A status byte that was not written reads as success. -/
theorem transfer_eq (read : Bool) :
    transfer dev sector buf read self =
      if (completion dev self sector buf read).status.getD 0 = 0 then
        .ok (stored buf (completion dev self sector buf read).stored) (after dev self sector buf read)
      else .err () (after dev self sector buf read) := rfl

theorem length_stored (buf : List UInt8) (bytes : Nat → Option UInt8) :
    (stored buf bytes).length = buf.length := List.length_mapIdx

/-- A read fails if the status byte is written and not 0; otherwise it leaves a request whose
data are what it returns. -/
theorem read_sector_cases (dev : Device σ) (self : VirtioBlk σ) (sector : Nat) (buf : List UInt8) :
    ((completion dev self sector buf true).status.getD 0 = 0 ∧
      ∃ blk next, (sectorDriver dev).read_sector sector buf self = .ok blk next ∧ blk.length = buf.length ∧
        next.requests =
          self.requests ++ [⟨true, sector, blk, (completion dev self sector buf true).status⟩]) ∨
    (completion dev self sector buf true).status.getD 0 ≠ 0 ∧
      ∃ next, (sectorDriver dev).read_sector sector buf self = .err () next := by
  simp only [sectorDriver, read_sector, transfer_eq]
  by_cases hstatus : (completion dev self sector buf true).status.getD 0 = 0
  · rw [if_pos hstatus]
    exact Or.inl ⟨hstatus, _, _, rfl, length_stored _ _, rfl⟩
  · rw [if_neg hstatus]
    exact Or.inr ⟨hstatus, _, rfl⟩

theorem write_sector_cases (dev : Device σ) (self : VirtioBlk σ) (sector : Nat) (buf : List UInt8) :
    ((completion dev self sector buf false).status.getD 0 = 0 ∧
      ∃ next, (sectorDriver dev).write_sector sector buf self = .ok () next ∧
        next.requests =
          self.requests ++ [⟨false, sector, buf, (completion dev self sector buf false).status⟩]) ∨
    (completion dev self sector buf false).status.getD 0 ≠ 0 ∧
      ∃ next, (sectorDriver dev).write_sector sector buf self = .err () next := by
  simp only [sectorDriver, write_sector, Exec.bind_apply, transfer_eq]
  by_cases hstatus : (completion dev self sector buf false).status.getD 0 = 0
  · rw [if_pos hstatus]
    exact Or.inl ⟨hstatus, _, rfl, rfl⟩
  · rw [if_neg hstatus]
    exact Or.inr ⟨hstatus, _, rfl⟩

/-- What the driver takes for granted: the status byte of each request that a disk can make
has been written when the waits return. The last sector is only written in part, once it
has been read, since the position overflows behind it. -/
structure Acknowledges (dev : Device σ) : Prop where
  read : ∀ (self : VirtioBlk σ) sector, 512 * sector < 2 ^ 64 →
    (completion dev self sector (List.replicate 512 0) true).status.isSome
  write : ∀ (self : VirtioBlk σ) sector (buf : List UInt8), 512 * (sector + 1) < 2 ^ 64 →
    buf.length = 512 → (completion dev self sector buf false).status.isSome
  last : ∀ (self next : VirtioBlk σ) sector (blk part : List UInt8) off,
    512 * (sector + 1) = 2 ^ 64 → read_sector dev sector (List.replicate 512 0) self = .ok blk next →
      0 < part.length → off + part.length < 512 →
        (completion dev next sector (Blocks.splice blk off part) false).status.isSome

theorem isSome_of_getD_ne {status : Option UInt8} (h : status.getD 0 ≠ 0) : status.isSome := by
  cases status with
  | none => exact absurd rfl h
  | some byte => rfl

theorem eq_some_of_isSome {status : Option UInt8} (hsome : status.isSome) (hzero : status.getD 0 = 0) :
    status = some 0 := by
  cases status with
  | none => cases hsome
  | some byte =>
    cases hzero
    rfl

end VirtioBlk

/-- The bytes from a position on are those of the requests for their sectors. -/
def Covers (requests : List Request) (read : Bool) (pos : Nat) (bytes : List UInt8) : Prop :=
  ∀ i < bytes.length, ∃ r ∈ requests, r.read = read ∧ r.sector = (pos + i) / 512 ∧
    r.data[(pos + i) % 512]? = bytes[i]?

theorem covers_nil (requests : List Request) (read : Bool) (pos : Nat) :
    Covers requests read pos [] := by
  intro i hi
  cases hi

theorem Covers.append {requests requests' : List Request} {read : Bool} {pos : Nat}
    {bytes bytes' : List UInt8} (h : Covers requests read pos bytes)
    (h' : Covers requests' read (pos + bytes.length) bytes') :
    Covers (requests ++ requests') read pos (bytes ++ bytes') := by
  intro i hi
  by_cases hleft : i < bytes.length
  · obtain ⟨r, hr, hread, hsector, hdata⟩ := h i hleft
    refine ⟨r, List.mem_append_left _ hr, hread, hsector, ?_⟩
    rw [hdata, List.getElem?_append_left hleft]
  · rw [List.length_append] at hi
    obtain ⟨r, hr, hread, hsector, hdata⟩ := h' (i - bytes.length) (by omega)
    have hpos : pos + bytes.length + (i - bytes.length) = pos + i := by omega
    rw [hpos] at hsector hdata
    refine ⟨r, List.mem_append_right _ hr, hread, hsector, ?_⟩
    rw [hdata, List.getElem?_append_right (by omega)]

/-- One request covers what lies in its sector. -/
theorem covers_of_mem {requests : List Request} {r : Request} {pos : Nat} {bytes : List UInt8}
    (hr : r ∈ requests) (hsector : r.sector = pos / 512) (hfits : pos % 512 + bytes.length ≤ 512)
    (hdata : (r.data.drop (pos % 512)).take bytes.length = bytes) :
    Covers requests r.read pos bytes := by
  intro i hi
  have hmod : (pos + i) % 512 = pos % 512 + i := by omega
  refine ⟨r, hr, rfl, by omega, ?_⟩
  have hbyte : ((r.data.drop (pos % 512)).take bytes.length)[i]? = r.data[(pos + i) % 512]? := by
    rw [List.getElem?_take_of_lt hi, List.getElem?_drop, hmod]
  rw [← hbyte, hdata]

namespace VirtioDisk

open VirtioBlk

variable {σ : Type} {dev : Device σ} {self mid next : VirtioDisk (VirtioBlk σ)} {buf bytes : List UInt8}
  {done n : Nat}

/-- From one state to another the disk has made requests that cover the bytes, and each one
is done if the device acknowledges requests. -/
def Made (dev : Device σ) (self next : VirtioDisk (VirtioBlk σ)) (read : Bool) (bytes : List UInt8) :
    Prop :=
  ∃ requests, next.driver.requests = self.driver.requests ++ requests ∧
    (Acknowledges dev → ∀ r ∈ requests, r.status = some 0) ∧ Covers requests read self.pos bytes

theorem Made.trans {read : Bool} {bytes' : List UInt8} (h : Made dev self mid read bytes)
    (hpos : mid.pos = self.pos + bytes.length) (h' : Made dev mid next read bytes') :
    Made dev self next read (bytes ++ bytes') := by
  obtain ⟨requests, hrequests, hdone, hcovers⟩ := h
  obtain ⟨requests', hrequests', hdone', hcovers'⟩ := h'
  rw [hpos] at hcovers'
  refine ⟨requests ++ requests', ?_, ?_, hcovers.append hcovers'⟩
  · rw [hrequests', hrequests, List.append_assoc]
  · intro hacks r hr
    rcases List.mem_append.mp hr with hr | hr
    · exact hdone hacks r hr
    · exact hdone' hacks r hr

/-- A pass of a read that succeeds fills the buffer with bytes it has asked for. -/
theorem read_pass_made (hdone : done < buf.length)
    (h : read_pass (sectorDriver dev) done buf self = .ok (n, bytes) mid) :
    ∃ part, part.length = self.count (buf.length - done) ∧ n = done + part.length ∧
      bytes = Blocks.splice buf done part ∧ mid.pos = self.pos + part.length ∧
      Made dev self mid true part := by
  obtain ⟨_, hle, hfits⟩ := self.count_bounds (show 0 < buf.length - done by omega)
  rcases read_sector_cases dev self.driver (self.pos / 512) (List.replicate 512 0) with
    ⟨hstatus, blk, d, hread, hlen, hrequests⟩ | ⟨-, d, hread⟩
  · rw [List.length_replicate] at hlen
    rw [read_pass_of_ok hdone hlen hread] at h
    have hpart : ((blk.drop (self.pos % 512)).take (self.count (buf.length - done))).length =
        self.count (buf.length - done) := by
      rw [List.length_take, List.length_drop]
      omega
    by_cases hpos : self.pos + self.count (buf.length - done) < 2 ^ 64
    · rw [if_pos hpos] at h
      cases h
      refine ⟨_, hpart, by rw [hpart], rfl, by rw [hpart], _, hrequests, ?_, ?_⟩
      · intro hacks r hr
        rw [List.mem_singleton.mp hr]
        exact eq_some_of_isSome (hacks.read self.driver (self.pos / 512) (by omega)) hstatus
      · exact covers_of_mem (List.mem_singleton_self _) rfl (by rw [hpart]; exact hfits) (by rw [hpart])
    · rw [if_neg hpos] at h
      cases h
  · rw [read_pass_of_err hread] at h
    cases h

/-- A transfer that has nothing left to do makes no request. -/
theorem made_nil (dev : Device σ) (self : VirtioDisk (VirtioBlk σ)) (read : Bool) :
    Made dev self self read [] :=
  ⟨[], (List.append_nil _).symm, fun _ _ hr => absurd hr List.not_mem_nil, covers_nil _ _ _⟩

theorem read_loop_made {fuel : Nat} (hdone : done ≤ buf.length)
    (h : read_loop (sectorDriver dev) fuel done buf self = .ok (n, bytes) next) :
    ∃ part, n = buf.length ∧ bytes = buf.take done ++ part ∧ part.length = buf.length - done ∧
      Made dev self next true part := by
  induction fuel generalizing self buf done with
  | zero =>
    rw [read_loop] at h
    by_cases hmore : done < buf.length
    · rw [if_pos hmore] at h
      cases h
    · rw [if_neg hmore] at h
      obtain rfl : done = buf.length := by omega
      cases h
      exact ⟨[], rfl, by simp, by simp, made_nil dev _ true⟩
  | succ fuel ih =>
    rw [read_loop] at h
    by_cases hmore : done < buf.length
    · rw [if_pos hmore] at h
      obtain ⟨⟨done', buf'⟩, mid, hpass, hrest⟩ := Exec.bind_eq_ok_iff.mp h
      obtain ⟨part, hlen, rfl, rfl, hpos, hmade⟩ := read_pass_made hmore hpass
      obtain ⟨_, hle, _⟩ := self.count_bounds (show 0 < buf.length - done by omega)
      have hlength : (Blocks.splice buf done part).length = buf.length :=
        Blocks.length_splice (by omega)
      obtain ⟨part', hn, hbytes, hlen', hmade'⟩ := ih (by omega) hrest
      refine ⟨part ++ part', hn.trans hlength, ?_, ?_, hmade.trans hpos hmade'⟩
      · rw [hbytes, Blocks.take_splice _ _ (by omega), List.append_assoc]
      · rw [List.length_append]
        omega
    · rw [if_neg hmore] at h
      obtain rfl : done = buf.length := by omega
      cases h
      exact ⟨[], rfl, by simp, by simp, made_nil dev _ true⟩

theorem drop_take_splice {blk part : List UInt8} {off : Nat} (h : off + part.length ≤ blk.length) :
    ((Blocks.splice blk off part).drop off).take part.length = part := by
  have htake : (blk.take off).length = off := by
    rw [List.length_take]
    omega
  rw [Blocks.splice, List.append_assoc, List.drop_left' htake, List.take_left' rfl]

/-- The block that a write starts from costs a request at most. -/
theorem block_to_write_made (self : VirtioDisk (VirtioBlk σ)) {remaining : Nat} {blk : List UInt8}
    (h : block_to_write (sectorDriver dev) (self.pos / 512) (self.pos % 512) remaining 512 self =
      .ok blk mid) :
    ∃ d requests, mid = { self with driver := d } ∧ blk.length = 512 ∧
      d.requests = self.driver.requests ++ requests ∧
      (Acknowledges dev → self.pos < 2 ^ 64 → ∀ r ∈ requests, r.status = some 0) ∧
      ((self.pos % 512 ≠ 0 ∨ remaining < 512) →
        read_sector dev (self.pos / 512) (List.replicate 512 0) self.driver = .ok blk d) := by
  unfold block_to_write at h
  by_cases hpartly : self.pos % 512 ≠ 0 ∨ remaining < 512
  · rw [if_pos hpartly] at h
    rcases read_sector_cases dev self.driver (self.pos / 512) (List.replicate 512 0) with
      ⟨hstatus, blk', d, hread, hlen, hrequests⟩ | ⟨-, d, hread⟩
    · rw [onDriver_of_ok hread] at h
      cases h
      rw [List.length_replicate] at hlen
      refine ⟨d, _, rfl, hlen, hrequests, ?_, fun _ => hread⟩
      intro hacks hpos r hr
      rw [List.mem_singleton.mp hr]
      exact eq_some_of_isSome (hacks.read self.driver (self.pos / 512) (by omega)) hstatus
    · rw [onDriver_of_err hread] at h
      cases h
  · rw [if_neg hpartly] at h
    cases h
    exact ⟨_, [], rfl, List.length_replicate, (List.append_nil _).symm,
      fun _ _ _ hr => absurd hr List.not_mem_nil, fun hpart => absurd hpart hpartly⟩

/-- A sector that is written whole is followed by another one, or else the position
overflows. -/
theorem write_acknowledged {d : VirtioBlk σ} {blk part : List UInt8} (hacks : Acknowledges dev)
    (hblk : blk.length = 512) (hpart : 0 < part.length) (hfits : self.pos % 512 + part.length ≤ 512)
    (hpos : self.pos + part.length < 2 ^ 64)
    (hread : (self.pos % 512 ≠ 0 ∨ part.length < 512) →
      read_sector dev (self.pos / 512) (List.replicate 512 0) self.driver = .ok blk d) :
    (completion dev d (self.pos / 512) (Blocks.splice blk (self.pos % 512) part) false).status.isSome := by
  by_cases hlast : 512 * (self.pos / 512 + 1) < 2 ^ 64
  · apply hacks.write d (self.pos / 512) _ hlast
    rw [Blocks.length_splice (by omega), hblk]
  · exact hacks.last self.driver d (self.pos / 512) blk part (self.pos % 512) (by omega)
      (hread (by omega)) hpart (by omega)

/-- A pass of a write that succeeds has handed over the next part of the buffer. -/
theorem write_pass_made (hdone : done < buf.length)
    (h : write_pass (sectorDriver dev) buf done self = .ok n mid) :
    let part := (buf.drop done).take (self.count (buf.length - done))
    part.length = self.count (buf.length - done) ∧ n = done + part.length ∧
      mid.pos = self.pos + part.length ∧ Made dev self mid false part := by
  obtain ⟨hmore, hle, hfits⟩ := self.count_bounds (show 0 < buf.length - done by omega)
  have hpart := self.length_part hdone
  have hwrite := h
  unfold write_pass at hwrite
  rw [Exec.bind_get] at hwrite
  obtain ⟨blk, mid', hblock, -⟩ := Exec.bind_eq_ok_iff.mp hwrite
  rw [self.sector_size_eq] at hblock
  obtain ⟨d, requests, rfl, hblk, hrequests, hread_acked, hread⟩ := block_to_write_made self hblock
  rcases write_sector_cases dev d (self.pos / 512) (Blocks.splice blk (self.pos % 512)
      ((buf.drop done).take (self.count (buf.length - done)))) with
    ⟨hstatus, d', hwrite, hrequests'⟩ | ⟨-, d', hwrite⟩
  · rw [write_pass_of_ok hdone hblk hblock hwrite] at h
    by_cases hpos : self.pos + self.count (buf.length - done) < 2 ^ 64
    · rw [if_pos hpos] at h
      cases h
      rw [hrequests, List.append_assoc] at hrequests'
      refine ⟨hpart, by rw [hpart], by rw [hpart], _, hrequests', ?_, ?_⟩
      · intro hacks r hr
        rcases List.mem_append.mp hr with hr | hr
        · exact hread_acked hacks (by omega) r hr
        · rw [List.mem_singleton.mp hr]
          have hshort : self.pos % 512 ≠ 0 ∨ self.count (buf.length - done) < 512 →
              self.pos % 512 ≠ 0 ∨ buf.length - done < 512 := by
            rw [count_eq]
            omega
          have hacked := write_acknowledged hacks hblk (by rw [hpart]; exact hmore)
            (by rw [hpart]; exact hfits) (by rw [hpart]; exact hpos)
            (fun hpartly => hread (hshort (by rw [hpart] at hpartly; exact hpartly)))
          exact eq_some_of_isSome hacked hstatus
      · apply covers_of_mem (List.mem_append_right _ (List.mem_singleton_self _)) rfl
        · rw [hpart]
          exact hfits
        · exact drop_take_splice (by rw [hpart, hblk]; exact hfits)
    · rw [if_neg hpos] at h
      cases h
  · rw [write_pass_of_err hdone hblk hblock hwrite] at h
    cases h

theorem write_loop_made {fuel : Nat} (hdone : done ≤ buf.length)
    (h : write_loop (sectorDriver dev) buf fuel done self = .ok n next) :
    n = buf.length ∧ Made dev self next false (buf.drop done) := by
  induction fuel generalizing self done with
  | zero =>
    rw [write_loop] at h
    by_cases hmore : done < buf.length
    · rw [if_pos hmore] at h
      cases h
    · rw [if_neg hmore] at h
      obtain rfl : done = buf.length := by omega
      cases h
      rw [List.drop_length]
      exact ⟨rfl, made_nil dev _ false⟩
  | succ fuel ih =>
    rw [write_loop] at h
    by_cases hmore : done < buf.length
    · rw [if_pos hmore] at h
      obtain ⟨done', mid, hpass, hrest⟩ := Exec.bind_eq_ok_iff.mp h
      obtain ⟨hlen, rfl, hpos, hmade⟩ := write_pass_made hmore hpass
      obtain ⟨_, hle, _⟩ := self.count_bounds (show 0 < buf.length - done by omega)
      obtain ⟨hn, hmade'⟩ := ih (by omega) hrest
      refine ⟨hn, ?_⟩
      have hsplit : (buf.drop done).take (self.count (buf.length - done)) ++
          buf.drop (done + ((buf.drop done).take (self.count (buf.length - done))).length) =
          buf.drop done := by
        rw [hlen, ← List.drop_drop, List.take_append_drop]
      rw [← hsplit]
      exact hmade.trans hpos hmade'
    · rw [if_neg hmore] at h
      obtain rfl : done = buf.length := by omega
      cases h
      rw [List.drop_length]
      exact ⟨rfl, made_nil dev _ false⟩

/-- A transfer that has succeeded was completed by the device: the status of each of its
requests was written and is 0, and the bytes read or written are those of the requests. -/
def Completed (self next : VirtioDisk (VirtioBlk σ)) (read : Bool) (bytes : List UInt8) : Prop :=
  ∃ requests, next.driver.requests = self.driver.requests ++ requests ∧
    (∀ r ∈ requests, r.status = some 0) ∧ Covers requests read self.pos bytes

/-- Every read and write that succeeds was completed. -/
def OnlyCompleted (dev : Device σ) : Prop :=
  ∀ (self : VirtioDisk (VirtioBlk σ)) (buf : List UInt8),
    (∀ n bytes next, read (sectorDriver dev) buf self = .ok (n, bytes) next →
      Completed self next true (bytes.take n)) ∧
    ∀ n next, write (sectorDriver dev) buf self = .ok n next → Completed self next false (buf.take n)

theorem Made.completed {read : Bool} (h : Made dev self next read bytes) (hacks : Acknowledges dev) :
    Completed self next read bytes := by
  obtain ⟨requests, hrequests, hdone, hcovers⟩ := h
  exact ⟨requests, hrequests, hdone hacks, hcovers⟩

/-- A request that a transfer has left is one it was completed with. -/
theorem Completed.status {read : Bool} {requests : List Request} {r : Request}
    (h : Completed self next read bytes)
    (hrequests : next.driver.requests = self.driver.requests ++ requests) (hr : r ∈ requests) :
    r.status = some 0 := by
  obtain ⟨requests', hrequests', hdone, -⟩ := h
  rw [hrequests] at hrequests'
  rw [List.append_cancel_left hrequests'] at hr
  exact hdone r hr

theorem onlyCompleted_of_acknowledges (hacks : Acknowledges dev) : OnlyCompleted dev := by
  intro self buf
  constructor
  · intro n bytes next hread
    obtain ⟨part, rfl, hbytes, hlen, hmade⟩ := read_loop_made (Nat.zero_le _) hread
    rw [List.take_zero, List.nil_append] at hbytes
    rw [hbytes, List.take_of_length_le (by omega)]
    exact hmade.completed hacks
  · intro n next hwrite
    obtain ⟨rfl, hmade⟩ := write_loop_made (Nat.zero_le _) hwrite
    rw [List.take_length]
    exact hmade.completed hacks

/-- A read of one byte makes one request, which must be acknowledged. -/
theorem acknowledged_of_read (h : OnlyCompleted dev) (d : VirtioBlk σ) {sector : Nat}
    (hsector : 512 * sector < 2 ^ 64) :
    (completion dev d sector (List.replicate 512 0) true).status.isSome := by
  rcases read_sector_cases dev d sector (List.replicate 512 0) with
    ⟨_, blk, d', hread, hlen, hrequests⟩ | ⟨hstatus, _⟩
  · rw [List.length_replicate] at hlen
    have hdiv : 512 * sector / 512 = sector := Nat.mul_div_cancel_left _ (by decide)
    rw [← hdiv] at hread
    obtain ⟨bytes, hrun⟩ : ∃ bytes, read (sectorDriver dev) [0] ⟨d, 512 * sector, 512, rfl⟩ =
        .ok (1, bytes) ⟨d', 512 * sector + 1, 512, rfl⟩ :=
      read_in_sector (by decide) (by simp) (by simp; omega) hlen hread
    have hdone := ((h _ _).1 _ _ _ hrun).status hrequests (List.mem_singleton_self _)
    dsimp only at hdone
    rw [hdone]
    rfl
  · exact isSome_of_getD_ne hstatus

/-- So does a write of a whole sector. -/
theorem acknowledged_of_write (h : OnlyCompleted dev) (d : VirtioBlk σ) {sector : Nat}
    (hsector : 512 * (sector + 1) < 2 ^ 64) (hbuf : buf.length = 512) :
    (completion dev d sector buf false).status.isSome := by
  rcases write_sector_cases dev d sector buf with ⟨_, d', hwrite, hrequests⟩ | ⟨hstatus, _⟩
  · have hdiv : 512 * sector / 512 = sector := Nat.mul_div_cancel_left _ (by decide)
    have hmod : 512 * sector % 512 = 0 := Nat.mul_mod_right _ _
    have hsplice : Blocks.splice (List.replicate 512 0) (512 * sector % 512) buf = buf := by
      rw [hmod]
      exact Blocks.splice_all (List.length_replicate.trans hbuf.symm)
    have hblock : block_to_write (sectorDriver dev) (512 * sector / 512) (512 * sector % 512) buf.length
        512 ⟨d, 512 * sector, 512, rfl⟩ = .ok (List.replicate 512 0) ⟨d, 512 * sector, 512, rfl⟩ := by
      rw [block_to_write, if_neg (by omega)]
      rfl
    rw [← hdiv, ← hsplice] at hwrite
    have hrun : write (sectorDriver dev) buf ⟨d, 512 * sector, 512, rfl⟩ =
        .ok buf.length ⟨d', 512 * sector + buf.length, 512, rfl⟩ :=
      write_in_sector (by omega) (by dsimp only; omega) (by dsimp only; omega) List.length_replicate
        hblock hwrite
    have hdone := ((h _ _).2 _ _ hrun).status hrequests (List.mem_singleton_self _)
    dsimp only at hdone
    rw [hdone]
    rfl
  · exact isSome_of_getD_ne hstatus

/-- A write to a part of a sector reads it first. -/
theorem acknowledged_of_part (h : OnlyCompleted dev) {d d' : VirtioBlk σ} {sector off : Nat}
    {blk part : List UInt8} (hsector : 512 * sector < 2 ^ 64)
    (hread : (sectorDriver dev).read_sector sector (List.replicate 512 0) d = .ok blk d')
    (hpart : 0 < part.length) (hfits : off + part.length < 512) :
    (completion dev d' sector (Blocks.splice blk off part) false).status.isSome := by
  rcases write_sector_cases dev d' sector (Blocks.splice blk off part) with
    ⟨_, d'', hwrite, hrequests⟩ | ⟨hstatus, _⟩
  · have hdiv : (512 * sector + off) / 512 = sector := by omega
    have hmod : (512 * sector + off) % 512 = off := by omega
    rw [← hdiv] at hread
    have hblock : block_to_write (sectorDriver dev) ((512 * sector + off) / 512)
        ((512 * sector + off) % 512) part.length 512 ⟨d, 512 * sector + off, 512, rfl⟩ =
        .ok blk ⟨d', 512 * sector + off, 512, rfl⟩ := by
      rw [block_to_write, if_pos (by omega)]
      exact onDriver_of_ok hread
    obtain ⟨_, requests, hd, hlen, hrequests', -⟩ :=
      block_to_write_made ⟨d, 512 * sector + off, 512, rfl⟩ hblock
    cases hd
    have hstored : (sectorDriver dev).write_sector ((512 * sector + off) / 512)
        (Blocks.splice blk ((512 * sector + off) % 512) part) d' = .ok () d'' := by
      rw [hdiv, hmod]
      exact hwrite
    have hrun : write (sectorDriver dev) part ⟨d, 512 * sector + off, 512, rfl⟩ =
        .ok part.length ⟨d'', 512 * sector + off + part.length, 512, rfl⟩ :=
      write_in_sector hpart (by dsimp only; omega) (by dsimp only; omega) hlen hblock hstored
    rw [hrequests', List.append_assoc] at hrequests
    have hdone := ((h _ _).2 _ _ hrun).status hrequests
      (List.mem_append_right _ (List.mem_singleton_self _))
    dsimp only at hdone
    rw [hdone]
    rfl
  · exact isSome_of_getD_ne hstatus

end VirtioDisk

/-- Only transfers that the device has completed succeed if and only if the device has always
written the status byte when the waits return. -/
theorem disk_io_completed_iff {σ : Type} (dev : Device σ) :
    VirtioDisk.OnlyCompleted dev ↔ VirtioBlk.Acknowledges dev := by
  refine ⟨fun h => ⟨?_, ?_, ?_⟩, VirtioDisk.onlyCompleted_of_acknowledges⟩
  · intro d sector hsector
    exact VirtioDisk.acknowledged_of_read h d hsector
  · intro d sector buf hsector hbuf
    exact VirtioDisk.acknowledged_of_write h d hsector hbuf
  · intro d d' sector blk part off hsector hread hpart hfits
    exact VirtioDisk.acknowledged_of_part h (by omega) hread hpart hfits

/-- A device that has not answered when the waits return. -/
def silentDevice : Device Unit := fun _ _ _ _ => ⟨(), fun _ => none, none, 0, 0, 0⟩

/-- A byte is read from a device that has not answered. -/
theorem silent_device_read :
    ∃ bytes next, VirtioDisk.read (VirtioBlk.sectorDriver silentDevice) [7] (.new ⟨.new, (), []⟩) =
        .ok (1, bytes) next ∧ next.driver.requests.map Request.status = [none] ∧
      ¬ VirtioDisk.OnlyCompleted silentDevice := by
  rcases VirtioBlk.read_sector_cases silentDevice ⟨.new, (), []⟩ 0 (List.replicate 512 0) with
    ⟨_, blk, d, hread, hlen, hrequests⟩ | ⟨hstatus, _⟩
  · rw [List.length_replicate] at hlen
    obtain ⟨bytes, hrun⟩ : ∃ bytes, VirtioDisk.read (VirtioBlk.sectorDriver silentDevice) [7]
        (.new ⟨.new, (), []⟩) = .ok (1, bytes) ⟨d, 0 + 1, 512, rfl⟩ :=
      VirtioDisk.read_in_sector (by decide) (by decide) (by decide) hlen hread
    refine ⟨bytes, _, hrun, by rw [hrequests]; rfl, fun h => ?_⟩
    cases VirtioDisk.acknowledged_of_read h ⟨.new, (), []⟩ (show 512 * 0 < 2 ^ 64 by decide)
  · exact absurd rfl hstatus

end fs_server.virtio
