import L4Rust.AioServer
import L4Rust.L4reLibc.Lp64

open aio_server.libc

namespace aio_server

variable (layout : Layout) (host : Host) (ops : Slab Operation) (msg : Message)

/-- The byte ranges behind the length word that `read_aiocb` reads. -/
def read_aiocb.reads (expected : Nat) : List (Nat × Nat) :=
  if expected = 0 ∨ BR_DATA_BYTES < expected then []
  else if (br_bytes msg).length < expected then []
  else [(0, min expected layout.size)]

/-- The byte ranges behind the length word that `handle_aio_write` reads: what it
copies to the control block, and the slice it makes of the payload. -/
def handle_aio_write.reads : List (Nat × Nat) :=
  let struct_len := msg.mr1.toNat
  let payload_len := msg.mr2.toNat
  if (br_bytes msg).length < min (struct_len + payload_len) (2 ^ 64 - 1) then []
  else [(0, min struct_len layout.size), (struct_len, struct_len + payload_len)]

/-- The bytes in these ranges are all that the outcome depends on, apart from how many
there are. -/
def ReadsOnly {α : Type} (f : Message → α) (ranges : List (Nat × Nat)) : Prop :=
  ∀ br : List UInt8, br.length = msg.br.length →
    (∀ range ∈ ranges, ∀ i, range.1 ≤ i → i < range.2 → br[i]? = msg.br[i]?) →
    f { msg with br := br } = f msg

/-- What `handle_aio_read` and `handle_aio_fsync` ask of a control block, and a
payload that is all there. -/
def Valid : Prop :=
  (read_aiocb layout msg.mr1.toNat msg).isSome ∧ msg.mr1.toNat + msg.mr2.toNat ≤ (br_bytes msg).length

/-- Nothing is done, and the client is told so. -/
def Refused (served : Served) : Prop :=
  served.msg = msg.reply (encode_errno_raw EINVAL) ∧ served.made = none ∧ served.ops = ops

/-- No bytes are read but those of the data area. -/
def ReadsDataArea : Prop :=
  ReadsOnly msg (handle_aio_write layout host ops) (handle_aio_write.reads layout msg) ∧
    ReadsOnly msg (read_aiocb layout msg.mr1.toNat) (read_aiocb.reads layout msg msg.mr1.toNat) ∧
    ∀ range ∈ handle_aio_write.reads layout msg ++ read_aiocb.reads layout msg msg.mr1.toNat,
      range.2 ≤ BR_DATA_BYTES

/-- A write is performed for a valid request only, and any other is refused. -/
def ValidatesAlike : Prop :=
  ((handle_aio_write layout host ops msg).made.isSome → Valid layout msg) ∧
    (¬ Valid layout msg → Refused ops msg (handle_aio_write layout host ops msg)) ∧
    ReadsDataArea layout host ops msg

variable {layout host ops msg}

theorem length_br_bytes_le (msg : Message) : (br_bytes msg).length ≤ BR_DATA_BYTES := List.length_take_le ..

/-- A sum of lengths that is cut off is longer than the data area as well. -/
theorem saturated_lt_iff {sum : Nat} :
    (br_bytes msg).length < min sum (2 ^ 64 - 1) ↔ (br_bytes msg).length < sum := by
  have hle := length_br_bytes_le msg
  have harea : BR_DATA_BYTES < 2 ^ 64 - 1 := by decide
  omega

section ReadsOnly

variable {br : List UInt8}

theorem length_br_bytes_congr (h : br.length = msg.br.length) :
    (br_bytes { msg with br := br }).length = (br_bytes msg).length := by
  rw [br_bytes, br_bytes, List.length_take, List.length_take, h]

theorem br_bytes_slice_congr {start len : Nat}
    (h : ∀ i, start ≤ i → i < start + len → br[i]? = msg.br[i]?) :
    ((br_bytes { msg with br := br }).drop start).take len = ((br_bytes msg).drop start).take len := by
  apply List.ext_getElem?
  intro i
  simp only [List.getElem?_take, List.getElem?_drop, br_bytes]
  by_cases hi : i < len
  · rw [h (start + i) (Nat.le_add_right ..) (Nat.add_lt_add_left hi _)]
  · rw [if_neg hi, if_neg hi]

theorem copy_aiocb_congr {n : Nat} (hlength : br.length = msg.br.length)
    (h : ∀ i, 0 ≤ i → i < min n layout.size → br[i]? = msg.br[i]?) :
    copy_aiocb layout ((br_bytes { msg with br := br }).take n) =
      copy_aiocb layout ((br_bytes msg).take n) := by
  have hbytes := br_bytes_slice_congr fun i hle hlt => h i hle ((Nat.zero_add _).subst hlt)
  rw [List.drop_zero, List.drop_zero] at hbytes
  rw [copy_aiocb, copy_aiocb, copy_to_zeroed, copy_to_zeroed, List.take_take, List.take_take,
    Nat.min_comm layout.size, hbytes, List.length_take, List.length_take,
    length_br_bytes_congr hlength]

theorem handle_aio_write_readsOnly (layout : Layout) (host : Host) (ops : Slab Operation)
    (msg : Message) :
    ReadsOnly msg (handle_aio_write layout host ops) (handle_aio_write.reads layout msg) := by
  intro br hlength hagree
  unfold handle_aio_write.reads at hagree
  unfold handle_aio_write
  dsimp only at hagree ⊢
  rw [length_br_bytes_congr hlength]
  split at hagree
  case isTrue hshort =>
    rw [if_pos hshort, if_pos hshort]
    rfl
  case isFalse hshort =>
    rw [List.forall_mem_cons, List.forall_mem_singleton] at hagree
    rw [if_neg hshort, if_neg hshort, copy_aiocb_congr hlength hagree.1, br_bytes_slice_congr hagree.2]
    rfl

theorem read_aiocb_readsOnly (layout : Layout) (msg : Message) (expected : Nat) :
    ReadsOnly msg (read_aiocb layout expected) (read_aiocb.reads layout msg expected) := by
  intro br hlength hagree
  unfold read_aiocb.reads at hagree
  unfold read_aiocb
  rw [length_br_bytes_congr hlength]
  split at hagree
  case isTrue hexpected => rw [if_pos hexpected, if_pos hexpected]
  case isFalse hexpected =>
    rw [if_neg hexpected, if_neg hexpected]
    split at hagree
    case isTrue hshort => rw [if_pos hshort, if_pos hshort]
    case isFalse hshort =>
      rw [List.forall_mem_singleton] at hagree
      rw [if_neg hshort, if_neg hshort, copy_aiocb_congr hlength hagree]

end ReadsOnly

theorem reads_inside :
    ∀ range ∈ handle_aio_write.reads layout msg ++ read_aiocb.reads layout msg msg.mr1.toNat,
      range.2 ≤ BR_DATA_BYTES := by
  have hle := length_br_bytes_le msg
  intro range hrange
  rcases List.mem_append.mp hrange with hwrite | hread
  · simp only [handle_aio_write.reads, saturated_lt_iff] at hwrite
    split at hwrite
    · cases hwrite
    · simp only [List.mem_cons, List.not_mem_nil, or_false] at hwrite
      rcases hwrite with rfl | rfl
      · dsimp only
        omega
      · dsimp only
        omega
  · unfold read_aiocb.reads at hread
    split at hread
    · cases hread
    · split at hread
      · cases hread
      · rw [List.mem_singleton] at hread
        subst hread
        dsimp only
        omega

theorem readsDataArea : ReadsDataArea layout host ops msg :=
  ⟨handle_aio_write_readsOnly layout host ops msg, read_aiocb_readsOnly layout msg _, reads_inside⟩

theorem read_aiocb_isSome_iff {expected : Nat} :
    (read_aiocb layout expected msg).isSome ↔ expected ≠ 0 ∧ expected ≤ (br_bytes msg).length := by
  have hle := length_br_bytes_le msg
  unfold read_aiocb
  split
  · simp only [Option.isSome_none, Bool.false_eq_true, false_iff]
    omega
  · split
    · simp only [Option.isSome_none, Bool.false_eq_true, false_iff]
      omega
    · simp only [Option.isSome_some, true_iff]
      omega

theorem valid_iff :
    Valid layout msg ↔ msg.mr1.toNat ≠ 0 ∧ msg.mr1.toNat + msg.mr2.toNat ≤ (br_bytes msg).length := by
  rw [Valid, read_aiocb_isSome_iff]
  omega

theorem handle_aio_write_refused (layout : Layout) (host : Host) (ops : Slab Operation)
    (h : (br_bytes msg).length < msg.mr1.toNat + msg.mr2.toNat) :
    Refused ops msg (handle_aio_write layout host ops msg) := by
  simp only [handle_aio_write, saturated_lt_iff, if_pos h]
  exact ⟨rfl, rfl, rfl⟩

theorem handle_aio_write_made (layout : Layout) (host : Host) (ops : Slab Operation)
    (h : ¬ (br_bytes msg).length < msg.mr1.toNat + msg.mr2.toNat) :
    (handle_aio_write layout host ops msg).made.isSome := by
  simp only [handle_aio_write, saturated_lt_iff, if_neg h, submit]
  split <;> rfl

/-- The write handler lacks the test for an empty control block, so it validates
requests like the others exactly when they have one or are too short anyway. -/
theorem write_validates_alike_iff (layout : Layout) (host : Host) (ops : Slab Operation) (msg : Message) :
    ValidatesAlike layout host ops msg ↔ msg.mr1 ≠ 0 ∨ (br_bytes msg).length < msg.mr2.toNat := by
  have hzero : msg.mr1 ≠ 0 ↔ msg.mr1.toNat ≠ 0 := by
    rw [ne_eq, ← UInt64.toNat_inj]
    rfl
  rw [hzero]
  unfold ValidatesAlike
  rw [valid_iff, and_iff_left readsDataArea]
  by_cases hshort : (br_bytes msg).length < msg.mr1.toNat + msg.mr2.toNat
  · have hrefused := handle_aio_write_refused layout host ops hshort
    rw [hrefused.2.1]
    refine iff_of_true ⟨nofun, fun _ => hrefused⟩ ?_
    omega
  · have hmade := handle_aio_write_made layout host ops hshort
    constructor
    · rintro ⟨hvalid, _⟩
      exact Or.inl (hvalid hmade).1
    · rintro (hlen | hlen)
      · refine ⟨fun _ => ⟨hlen, by omega⟩, fun hinvalid => ?_⟩
        exact (hinvalid ⟨hlen, by omega⟩).elim
      · omega

/-- Four bytes without a control block are written to descriptor 0, the one of a
control block with all its bytes zero. -/
theorem write_validates_no_aiocb :
    ∃ msg : Message, msg = ⟨opcode.AIO_WRITE, 0, 4, 0, [1, 2, 3, 4]⟩ ∧
      read_aiocb l4re_libc.aio.lp64Layout msg.mr1.toNat msg = none ∧
      (handle_aio_write l4re_libc.aio.lp64Layout ⟨4, 0, [], 0⟩ (fun _ => none) msg).made =
        some (.pwrite 0 [1, 2, 3, 4] 0) ∧
      ¬ ValidatesAlike l4re_libc.aio.lp64Layout ⟨4, 0, [], 0⟩ (fun _ => none) msg := by
  have hmade : (handle_aio_write l4re_libc.aio.lp64Layout ⟨4, 0, [], 0⟩ (fun _ => none)
      ⟨opcode.AIO_WRITE, 0, 4, 0, [1, 2, 3, 4]⟩).made = some (.pwrite 0 [1, 2, 3, 4] 0) := by
    decide +kernel
  refine ⟨_, rfl, rfl, hmade, ?_⟩
  rintro ⟨hvalid, -⟩
  rw [hmade] at hvalid
  exact absurd (hvalid rfl).1 (by decide)

end aio_server
