import L4Rust.AioServer.ReadBuffers
import L4Rust.EpollServer.Replies
import L4Rust.FdServer.Replies
import L4Rust.FsServer
import L4Rust.L4reLibc.Lp64

open l4_sys

namespace servers

/-- A reply delivers what a host call has produced: the length word agrees with the count, in
units of some size, neither is larger than it may be, and the payload is those bytes. -/
structure Delivers (count len : UInt64) (payload : List UInt8) (unit capacity asked : Nat)
    (bytes : List UInt8) : Prop where
  agrees : len.toNat = count.toNat * unit
  fits : len.toNat ≤ capacity
  bounded : count.toNat ≤ asked
  length : bytes.length = len.toNat
  same : payload = bytes

/-- The payload that the length word announces. -/
def announced (br : Br) : List UInt8 := br.bytes br.len.toNat

/-- A byte string that fits is announced as it is. -/
theorem announced_br_write_bytes (utcb : Utcb) {capacity : Nat} {data : List UInt8}
    (hfits : data.length ≤ capacity) (hcapacity : capacity < 2 ^ 64) :
    (utcb.br_write_bytes capacity data).br.len.toNat = data.length ∧
      announced (utcb.br_write_bytes capacity data).br = data := by
  have hlen : (utcb.br_write_bytes capacity data).br.len.toNat = data.length := by
    rw [Utcb.br_write_bytes, Nat.min_eq_left hfits]
    exact UInt64.toNat_ofNat_of_lt' (Nat.lt_of_le_of_lt hfits hcapacity)
  refine ⟨hlen, ?_⟩
  unfold announced Br.bytes
  rw [hlen]
  apply List.ext_getElem
  · rw [List.length_map, List.length_range]
  · intro i _ hi
    simp [Utcb.br_write_bytes, hfits, hi]

theorem toNat_ofInt {n : Int} (hnonneg : 0 ≤ n) (hlt : n < 2 ^ 64) : (UInt64.ofInt n).toNat = n.toNat := by
  have hword : (n % 2 ^ 64).toNat < 2 ^ 64 := by omega
  rw [UInt64.ofInt, UInt64.toNat_ofNat_of_lt' hword]
  omega

theorem set_mr_self (utcb : Utcb) (i : Nat) (w : UInt64) : (utcb.set_mr i w).mr i = w := by
  simp [Utcb.set_mr]

/-- A reply that is a byte string and the number of its units delivers the bytes. -/
theorem delivers_of_write {utcb : Utcb} {capacity asked unit : Nat} {bytes : List UInt8} {count : UInt64}
    (hfits : bytes.length ≤ capacity) (hcapacity : capacity < 2 ^ 64)
    (hlength : bytes.length = count.toNat * unit) (hbounded : count.toNat ≤ asked) :
    let after := (utcb.br_write_bytes capacity bytes).set_mr 0 count
    Delivers (after.mr 0) after.br.len (announced after.br) unit capacity asked bytes := by
  obtain ⟨hlen, hannounced⟩ := announced_br_write_bytes utcb hfits hcapacity
  have hbr : ((utcb.br_write_bytes capacity bytes).set_mr 0 count).br =
      (utcb.br_write_bytes capacity bytes).br := rfl
  dsimp only
  rw [set_mr_self, hbr]
  exact ⟨hlen.trans hlength, hlen.trans_le hfits, hbounded, hlen.symm, hannounced⟩

/-- What the host promises for a read of records: no more bytes than were asked for. -/
def fdReads (host : fd_server.Host) (utcb : Utcb) : Prop :=
  host.result ≤ min (utcb.mr 2).toNat fd_server.BR_DATA_BYTES ∧
    host.bytes.length = host.result.toNat

theorem fill_take {bytes : List UInt8} {size : Nat} (h : bytes.length ≤ size) :
    (fd_server.fill size bytes).take bytes.length = bytes := by
  rw [fd_server.fill, List.take_of_length_le h, List.take_left' rfl]

/-- A read of records that succeeds delivers them. -/
theorem handle_read_records_delivers {α : Type} [fd_server.Drop α] {host : fd_server.Host}
    (ctx : fd_server.Ctx α) (hentry : (ctx.slab (ctx.utcb.mr 1).toNat).isSome)
    (hnonneg : 0 ≤ host.result) (hasked : ctx.utcb.mr 2 ≠ 0) (hhost : fdReads host ctx.utcb) :
    let after := (fd_server.handle_read_records host ctx).utcb
    Delivers (after.mr 0) after.br.len (announced after.br) 1 fd_server.BR_DATA_BYTES
      (ctx.utcb.mr 2).toNat host.bytes := by
  obtain ⟨hresult, hlength⟩ := hhost
  obtain ⟨entry, hentry⟩ := Option.isSome_iff_exists.mp hentry
  have hcapacity : fd_server.BR_DATA_BYTES = 456 := rfl
  have hmax : min (ctx.utcb.mr 2).toNat fd_server.BR_DATA_BYTES ≠ 0 := by
    have hne : (ctx.utcb.mr 2).toNat ≠ 0 := fun hzero => hasked (UInt64.toNat_inj.mp hzero)
    omega
  have hfits : host.bytes.length ≤ fd_server.BR_DATA_BYTES := by omega
  have hbytes : (fd_server.fill (min (ctx.utcb.mr 2).toNat fd_server.BR_DATA_BYTES) host.bytes).take
      host.result.toNat = host.bytes := by
    rw [← hlength]
    exact fill_take (by omega)
  have hafter : (fd_server.handle_read_records host ctx).utcb =
      (ctx.utcb.br_write_bytes fd_server.BR_DATA_BYTES host.bytes).set_mr 0 (.ofInt host.result) := by
    unfold fd_server.handle_read_records fd_server.Ctx.get_or_badf fd_server.Ctx.mr
    dsimp only
    rw [hentry]
    dsimp only
    rw [if_neg hmax, if_neg (by omega), hbytes]
    rfl
  have hcount : (UInt64.ofInt host.result).toNat = host.result.toNat :=
    toNat_ofInt hnonneg (by omega)
  dsimp only
  rw [hafter]
  exact delivers_of_write hfits (by decide) (by omega) (by omega)

theorem max_serialised_events_fit (EPOLL_EVENT_SIZE : Nat) :
    epoll_server.MAX_SERIALISED_EVENTS EPOLL_EVENT_SIZE * EPOLL_EVENT_SIZE ≤ epoll_server.BR_DATA_BYTES := by
  unfold epoll_server.MAX_SERIALISED_EVENTS
  split
  · rw [Nat.zero_mul]
    exact Nat.zero_le _
  · exact Nat.div_mul_le_self _ _

/-- Events of which there are not too many are written as the bytes that they are. -/
theorem br_write_events_utcb {EPOLL_EVENT_SIZE count : Nat} {events : List UInt8}
    (s : epoll_server.Server) (hcount : count ≤ epoll_server.MAX_SERIALISED_EVENTS EPOLL_EVENT_SIZE)
    (hlength : events.length = count * EPOLL_EVENT_SIZE)
    (hfits : events.length ≤ epoll_server.BR_DATA_BYTES) :
    (epoll_server.br_write_events EPOLL_EVENT_SIZE s count events).utcb =
      s.utcb.br_write_bytes epoll_server.BR_DATA_BYTES events := by
  unfold epoll_server.br_write_events Utcb.br_write_bytes
  simp only [Nat.min_eq_left hcount, ← hlength, Nat.min_eq_left hfits]

/-- A wait that succeeds delivers its events. -/
theorem handle_wait_delivers {EPOLL_EVENT_SIZE : Nat} {host : epoll_server.Host}
    (s : epoll_server.Server) (hentry : (s.instances (s.utcb.mr 1).toNat).isSome)
    (hpos : 0 < epoll_server.as_c_int (s.utcb.mr 2))
    (hroom : epoll_server.MAX_SERIALISED_EVENTS EPOLL_EVENT_SIZE ≠ 0) (hnonneg : 0 ≤ host.result)
    (hresult : host.result ≤ min (epoll_server.as_c_int (s.utcb.mr 2))
      (epoll_server.MAX_SERIALISED_EVENTS EPOLL_EVENT_SIZE))
    (hlength : host.events.length = host.result.toNat * EPOLL_EVENT_SIZE) :
    let after := (epoll_server.handle_wait EPOLL_EVENT_SIZE host s).utcb
    Delivers (after.mr 0) after.br.len (announced after.br) EPOLL_EVENT_SIZE
      epoll_server.BR_DATA_BYTES (epoll_server.as_c_int (s.utcb.mr 2)).toNat host.events := by
  obtain ⟨inst, hinst⟩ := Option.isSome_iff_exists.mp hentry
  have hcount : host.result.toNat ≤ epoll_server.MAX_SERIALISED_EVENTS EPOLL_EVENT_SIZE := by omega
  have hfits : host.events.length ≤ epoll_server.BR_DATA_BYTES := by
    rw [hlength]
    exact le_trans (Nat.mul_le_mul_right _ hcount) (max_serialised_events_fit _)
  have hafter : (epoll_server.handle_wait EPOLL_EVENT_SIZE host s).utcb =
      (s.utcb.br_write_bytes epoll_server.BR_DATA_BYTES host.events).set_mr 0 (.ofInt host.result) := by
    unfold epoll_server.handle_wait
    dsimp only
    rw [hinst]
    dsimp only
    rw [if_neg (by omega), if_neg hroom, if_neg (by omega)]
    rw [epoll_server.Server.set_mr, br_write_events_utcb _ hcount hlength hfits]
    rfl
  have hword : (UInt64.ofInt host.result).toNat = host.result.toNat := by
    apply toNat_ofInt hnonneg
    have hbound := Int32.toInt_lt (s.utcb.mr 2).toUInt32.toInt32
    have hint : epoll_server.as_c_int (s.utcb.mr 2) = (s.utcb.mr 2).toUInt32.toInt32.toInt := rfl
    omega
  dsimp only
  rw [hafter]
  exact delivers_of_write hfits (by decide) (by rw [hword, hlength]) (by omega)

/-- What the file system promises for a read: no more bytes than the buffer holds, in that
buffer. -/
def fsReads {ι φ : Type} (size : Nat) (read : Except fs_server.ErrorKind Nat × List UInt8 × ι × φ)
    (n : Nat) : Prop :=
  read.1 = .ok n ∧ n ≤ size ∧ read.2.1.length = size

/-- A read from a file returns, and delivers what was read. -/
theorem read_fd_delivers {φ ι : Type} (lib : fs_server.FileSystem φ ι) (s : fs_server.Server φ ι)
    {file : ι} {n : Nat} (hfile : s.handles (s.utcb.mr 1).toNat = some file) :
    let buf := List.replicate (min (s.utcb.mr 2).toNat fs_server.BR_DATA_MAX) 0
    fsReads buf.length (lib.read file buf s.fs) n →
    ∃ t, fs_server.read_fd lib s = some t ∧
      Delivers (t.utcb.mr 0) t.utcb.br.len (announced t.utcb.br) 1 fs_server.BR_DATA_MAX
        (s.utcb.mr 2).toNat ((lib.read file buf s.fs).2.1.take n) := by
  obtain ⟨_, _, _, fread, _, _, _⟩ := lib
  simp only [fs_server.read_fd, hfile]
  generalize fread file (List.replicate (min (s.utcb.mr 2).toNat fs_server.BR_DATA_MAX) 0) s.fs = read
  intro hread
  obtain ⟨hok, hle, hlen⟩ := hread
  rw [List.length_replicate] at hle hlen
  rw [hok]
  dsimp only
  rw [if_pos hle]
  refine ⟨_, rfl, ?_⟩
  have hbytes : (read.2.1.take n).length = n := by
    rw [List.length_take]
    omega
  have hcapacity : n ≤ fs_server.BR_DATA_MAX := hle.trans (Nat.min_le_right ..)
  have hword : (UInt64.ofNat n).toNat = n :=
    UInt64.toNat_ofNat_of_lt' (Nat.lt_of_le_of_lt hcapacity (by decide))
  refine delivers_of_write (hbytes.trans_le hcapacity) (by decide) ?_ ?_
  · rw [hword, Nat.mul_one]
    exact hbytes
  · rw [hword]
    exact hle.trans (Nat.min_le_left ..)

/-- In every run of the server, `aio_return` delivers the bytes of the read that it is for. -/
theorem aio_return_delivers {layout : aio_server.libc.Layout}
    {past : List (aio_server.Reads × (aio_server.Message × aio_server.Host))} {s : aio_server.Reads}
    {msg : aio_server.Message} {host : aio_server.Host} (hrun : (aio_server.reads layout).Run past s)
    (hreturns : aio_server.ReturnsRead s.ops msg) :
    let reply := (aio_server.dispatch layout host s.ops msg).msg
    ∃ call, s.calls msg.mr1.toNat = some call ∧
      Delivers reply.mr0 (.ofNat reply.br.length) reply.br 1 aio_server.BR_DATA_BYTES call.asked
        call.bytes := by
  obtain ⟨hop, op, hslot, hkind, herror⟩ := hreturns
  obtain ⟨call, hcall, -, hresult, hbuffer, hle, hasked⟩ :=
    aio_server.reads_hold hrun _ op hslot hkind
  obtain ⟨hmr, hbr⟩ := aio_server.dispatch_returns_read hop hslot hkind herror
  refine ⟨call, hcall, ?_⟩
  rw [hmr, hbr, hbuffer, List.take_of_length_le (hle.trans hasked), hresult]
  have hcapacity : aio_server.BR_DATA_BYTES = 456 := rfl
  have hlen : (UInt64.ofNat call.bytes.length).toNat = call.bytes.length :=
    UInt64.toNat_ofNat_of_lt' (Nat.lt_of_le_of_lt (hle.trans hasked) (by decide))
  have hcount : (UInt64.ofInt (call.bytes.length : Int)).toNat = call.bytes.length := by
    rw [toNat_ofInt (by omega) (by omega)]
    rfl
  exact ⟨by omega, by omega, by omega, hlen.symm, rfl⟩

/-- In all four servers the count, the length word and the payload of a data reply agree. -/
theorem reply_lengths_agree {φ ι : Type} (lib : fs_server.FileSystem φ ι) (EPOLL_EVENT_SIZE : Nat)
    (layout : aio_server.libc.Layout) (mr : Nat → UInt64) (br : Br) (fd : fd_server.Server)
    (fdHost : fd_server.Host) (epoll : epoll_server.Server) (epollHost : epoll_server.Host)
    (aioHost : aio_server.Host) (msg : aio_server.Message) (fs : fs_server.Server φ ι) (key : Nat) :
    (∀ op, fd_server.Op.decode (mr 0) = some op → op = .signalfd_read ∨ op = .inotify_read →
      fd_server.CarriesPayload fd (.receive mr br) fdHost op → fdReads fdHost (.receive mr br) →
      let reply := (fd.run (.request (.receive mr br) fdHost)).utcb
      Delivers (reply.mr 0) reply.br.len (announced reply.br) 1 fd_server.BR_DATA_BYTES (mr 2).toNat
        fdHost.bytes) ∧
    (epoll_server.Waits EPOLL_EVENT_SIZE epollHost epoll (.receive mr br) →
      epollHost.result ≤ min (epoll_server.as_c_int (mr 2))
        (epoll_server.MAX_SERIALISED_EVENTS EPOLL_EVENT_SIZE) →
      epollHost.events.length = epollHost.result.toNat * EPOLL_EVENT_SIZE →
      let reply := (epoll.run EPOLL_EVENT_SIZE (.receive mr br) epollHost).utcb
      Delivers (reply.mr 0) reply.br.len (announced reply.br) EPOLL_EVENT_SIZE
        epoll_server.BR_DATA_BYTES (epoll_server.as_c_int (mr 2)).toNat epollHost.events) ∧
    (∀ past s, (aio_server.reads layout).Run past s → aio_server.ReturnsRead s.ops msg →
      let reply := (aio_server.dispatch layout aioHost s.ops msg).msg
      ∃ call, s.calls msg.mr1.toNat = some call ∧
        Delivers reply.mr0 (.ofNat reply.br.length) reply.br 1 aio_server.BR_DATA_BYTES call.asked
          call.bytes) ∧
    ∀ file n, mr 0 = 2 → fs.handles (mr 1).toNat = some file →
      let buf := List.replicate (min (mr 2).toNat fs_server.BR_DATA_MAX) 0
      fsReads buf.length (lib.read file buf fs.fs) n →
      ∃ t, fs.run lib (.receive mr br) key = some t ∧
        Delivers (t.utcb.mr 0) t.utcb.br.len (announced t.utcb.br) 1 fs_server.BR_DATA_MAX (mr 2).toNat
          ((lib.read file buf fs.fs).2.1.take n) := by
  refine ⟨?_, ?_, ?_, ?_⟩
  · intro op hop hread hpayload hhost
    have hdecode : fd_server.Op.decode ((Utcb.receive mr br).mr 0) = some op := hop
    rw [fd.run_of_op fdHost hdecode]
    rcases hread with rfl | rfl
    · exact handle_read_records_delivers ⟨fd.signalfds, .receive mr br, fd.trace⟩ hpayload.1
        hpayload.2.1 hpayload.2.2 hhost
    · exact handle_read_records_delivers ⟨fd.inotifies, .receive mr br, fd.trace⟩ hpayload.1
        hpayload.2.1 hpayload.2.2 hhost
  · rintro ⟨hop, hentry, hpos, hroom, hnonneg⟩ hresult hlength
    have hrun : epoll.run EPOLL_EVENT_SIZE (.receive mr br) epollHost =
        epoll_server.handle_wait EPOLL_EVENT_SIZE epollHost { epoll with utcb := .receive mr br } := by
      unfold epoll_server.Server.run
      rw [hop]
      rfl
    rw [hrun]
    exact handle_wait_delivers { epoll with utcb := .receive mr br } hentry hpos hroom hnonneg hresult
      hlength
  · intro past s hrun hreturns
    exact aio_return_delivers hrun hreturns
  · intro file n hop hfile buf hread
    have hrun : fs.run lib (.receive mr br) key =
        fs_server.read_fd lib { fs with utcb := .receive mr br } := by
      have hop' : (Utcb.receive mr br).mr 0 = 2 := hop
      simp only [fs_server.Server.run, hop']
    rw [hrun]
    exact read_fd_delivers lib { fs with utcb := .receive mr br } hfile hread

/-- Files that are the bytes yet to be read. -/
def remainingBytes : fs_server.FileSystem Unit (List UInt8) where
  count_entries fs := (0, fs)
  create_file _ fs := (.ok [], fs)
  open_file _ fs := (.error .NotFound, fs)
  read file buf fs := (.ok (min file.length buf.length),
    file.take buf.length ++ buf.drop file.length, file.drop buf.length, fs)
  write file buf fs := (.ok buf.length, file, fs)
  seek_end file fs := (.ok file.length, file, fs)
  drop _ fs := fs

/-- Registers with an opcode, the handle 0 and a size. -/
def readRequest (op size : UInt64) : Nat → UInt64 := fun i => [op, 0, size].getD i 0

def noPayload : Br := ⟨0, fun _ => 0⟩

def withSignalfd : fd_server.Server :=
  ⟨.new, .new, Slab.new.insert 0 ⟨5⟩, .new, .receive (readRequest 0 0) noPayload, []⟩

def withEpoll : epoll_server.Server := ⟨Slab.new.insert 0 ⟨5⟩, .receive (readRequest 0 0) noPayload, []⟩

def withFile : fs_server.Server Unit (List UInt8) :=
  ⟨(), Slab.new.insert 0 [1, 2], .receive (readRequest 0 0) noPayload⟩

/-- A read of four bytes in the AIO server, of which there are two. -/
def aioRead : aio_server.Message × aio_server.Host :=
  (⟨aio_server.opcode.AIO_READ, 168, 0, 0, l4re_libc.aio.lp64Layout.bytes ⟨5, 0, 4, 0⟩⟩,
    ⟨2, 0, [1, 2], 0⟩)

def withRead : aio_server.Reads :=
  aio_server.Reads.step l4re_libc.aio.lp64Layout ⟨.new, fun _ => none⟩ aioRead

def aioReturn : aio_server.Message := ⟨aio_server.opcode.AIO_RETURN, 0, 0, 0, []⟩

theorem withRead_run :
    (aio_server.reads l4re_libc.aio.lp64Layout).Run [(⟨.new, fun _ => none⟩, aioRead)] withRead := by
  refine Machine.Run.call (.start rfl) ?_ rfl
  intro fd count offset hmade
  have hread : (aio_server.dispatch l4re_libc.aio.lp64Layout aioRead.2 .new aioRead.1).made =
      some (.pread 5 4 0) := by decide +kernel
  cases hread.symm.trans hmade
  decide

/-- Two bytes, or one event of two bytes, are delivered by each of the servers. -/
theorem two_bytes_delivered :
    (let reply := (withSignalfd.run (.request
        (.receive (readRequest fd_server.opcode.SIGNALFD_READ 4) noPayload) ⟨2, none, 0, [1, 2], 0⟩)).utcb;
      Delivers (reply.mr 0) reply.br.len (announced reply.br) 1 fd_server.BR_DATA_BYTES 4 [1, 2]) ∧
    (let reply := (withEpoll.run 2 (.receive (readRequest epoll_server.opcode.WAIT 4) noPayload)
        ⟨1, none, [1, 2], 0⟩).utcb;
      Delivers (reply.mr 0) reply.br.len (announced reply.br) 2 epoll_server.BR_DATA_BYTES 4 [1, 2]) ∧
    (let reply := (aio_server.dispatch l4re_libc.aio.lp64Layout ⟨0, 0, [], 0⟩ withRead.ops aioReturn).msg;
      Delivers reply.mr0 (.ofNat reply.br.length) reply.br 1 aio_server.BR_DATA_BYTES 4 [1, 2]) ∧
    ∃ t, withFile.run remainingBytes (.receive (readRequest 2 4) noPayload) 0 = some t ∧
      Delivers (t.utcb.mr 0) t.utcb.br.len (announced t.utcb.br) 1 fs_server.BR_DATA_MAX 4 [1, 2] := by
  obtain ⟨hfd, -, -, -⟩ := reply_lengths_agree remainingBytes 2 l4re_libc.aio.lp64Layout
    (readRequest fd_server.opcode.SIGNALFD_READ 4) noPayload withSignalfd ⟨2, none, 0, [1, 2], 0⟩
    withEpoll ⟨1, none, [1, 2], 0⟩ ⟨0, 0, [], 0⟩ aioReturn withFile 0
  obtain ⟨-, hepoll, haio, hfs⟩ := reply_lengths_agree remainingBytes 2 l4re_libc.aio.lp64Layout
    (readRequest 2 4) noPayload withSignalfd ⟨2, none, 0, [1, 2], 0⟩
    withEpoll ⟨1, none, [1, 2], 0⟩ ⟨0, 0, [], 0⟩ aioReturn withFile 0
  refine ⟨?_, ?_, ?_, ?_⟩
  · exact hfd .signalfd_read rfl (.inl rfl) ⟨rfl, by decide, by decide⟩ ⟨by decide, rfl⟩
  · exact hepoll ⟨rfl, rfl, by decide, by decide, by decide⟩ (by decide) rfl
  · have hslot : withRead.ops aioReturn.mr1.toNat = some ⟨.Read, 5, 2, 0, [1, 2]⟩ := by decide +kernel
    obtain ⟨call, hcall, hdelivers⟩ := haio _ _ withRead_run ⟨rfl, _, hslot, rfl, rfl⟩
    have hasked : withRead.calls aioReturn.mr1.toNat = some ⟨4, [1, 2]⟩ := by decide +kernel
    cases hasked.symm.trans hcall
    exact hdelivers
  · exact hfs [1, 2] 2 rfl rfl ⟨rfl, by decide, rfl⟩

end servers
