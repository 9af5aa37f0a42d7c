import L4Rust.L4reLibc.Aio.Exchange
import L4Rust.L4reLibc.Lp64
import L4Rust.Library.Memory

open aio_server aio_server.libc

namespace l4re_libc.aio

def ENOENT : Int := 2

/-- The buffer registers of a client: the length word, the memory behind it, and the
byte ranges of that written so far, which the code does not record. -/
structure BufArea where
  len : UInt64
  data : Memory
  written : List (Nat × Nat)

/-- Copy to the memory behind the length word, which nothing bounds. -/
def BufArea.memcpy (self : BufArea) (start : Nat) (bytes : List UInt8) : BufArea :=
  { self with
    data := self.data.store start bytes
    written := self.written ++ [(start, start + bytes.length)] }

/-- The registers of a request. -/
structure Registers where
  mr0 : UInt64
  mr1 : UInt64
  mr2 : UInt64
  mr3 : UInt64
  br : BufArea

/-- The message that the registers are carried over as. -/
def Registers.message (regs : Registers) : Message :=
  ⟨regs.mr0, regs.mr1, regs.mr2, regs.mr3, regs.br.data.load 0 regs.br.len.toNat⟩

/-- The capability of the server, which is looked up once. -/
def ensure_gate (aio_gate global_aio : Option UInt64) : Except Int UInt64 :=
  match aio_gate with
  | some gate => .ok gate
  | none =>
    match global_aio with
    | some gate => .ok gate
    | none => .error ENOENT

/-- `submit_request` up to its IPC, on the registers: the sum of the lengths is a
`size_t`. -/
def submit_request.encode (layout : Layout) (aio_gate global_aio : Option UInt64) (cb : aiocb)
    (op : UInt64) (payload : Nat → UInt8) (payload_len extra : UInt64) (br : BufArea) :
    Except Int Registers := do
  let _ ← ensure_gate aio_gate global_aio
  let struct_len : UInt64 := .ofNat layout.size
  if .ofNat BR_DATA_BYTES < struct_len + payload_len then throw EOVERFLOW
  else
    let br := br.memcpy 0 (layout.bytes cb)
    let br :=
      if payload_len ≠ 0 then
        br.memcpy struct_len.toNat ((List.range payload_len.toNat).map payload)
      else br
    let br := { br with len := struct_len + payload_len }
    pure ⟨op, struct_len, payload_len, extra, br⟩

variable {layout : Layout} {aio_gate global_aio : Option UInt64} {cb : aiocb} {op extra : UInt64}
  {payload : Nat → UInt8} {payload_len : UInt64} {br : BufArea}

/-- The sum of the lengths wraps around to one that fits. -/
def Wraps (layout : Layout) (payload_len : UInt64) : Prop :=
  2 ^ 64 ≤ layout.size + payload_len.toNat ∧
    layout.size + payload_len.toNat - 2 ^ 64 ≤ BR_DATA_BYTES

instance (layout : Layout) (payload_len : UInt64) : Decidable (Wraps layout payload_len) :=
  inferInstanceAs (Decidable (_ ∧ _))

/-- The check compares the sum with its upper bit cut off. -/
theorem overflow_check_iff (layout : Layout) (payload_len : UInt64) :
    UInt64.ofNat BR_DATA_BYTES < UInt64.ofNat layout.size + payload_len ↔
      BR_DATA_BYTES < layout.size + payload_len.toNat ∧ ¬ Wraps layout payload_len := by
  have hsize := layout.size_lt
  have hlen := payload_len.toNat_lt
  have harea : (UInt64.ofNat BR_DATA_BYTES).toNat = BR_DATA_BYTES := rfl
  rw [UInt64.lt_iff_toNat_lt, UInt64.toNat_add, toNat_size, harea, Wraps]
  have hbytes : BR_DATA_BYTES = 456 := rfl
  omega

theorem fits_of_not_overflow (hwraps : ¬ Wraps layout payload_len)
    (h : ¬ UInt64.ofNat BR_DATA_BYTES < UInt64.ofNat layout.size + payload_len) :
    layout.size + payload_len.toNat ≤ BR_DATA_BYTES := by
  apply Nat.le_of_not_lt
  intro hlong
  exact h ((overflow_check_iff layout payload_len).mpr ⟨hlong, hwraps⟩)

theorem ensure_gate_ok (h : aio_gate.isSome ∨ global_aio.isSome) :
    ∃ gate, ensure_gate aio_gate global_aio = .ok gate := by
  cases aio_gate with
  | some gate => exact ⟨gate, rfl⟩
  | none =>
    cases global_aio with
    | some gate => exact ⟨gate, rfl⟩
    | none => cases h <;> contradiction

theorem encode_of_overflow (hgate : aio_gate.isSome ∨ global_aio.isSome)
    (h : UInt64.ofNat BR_DATA_BYTES < UInt64.ofNat layout.size + payload_len) :
    submit_request.encode layout aio_gate global_aio cb op payload payload_len extra br =
      .error EOVERFLOW := by
  obtain ⟨gate, hgate⟩ := ensure_gate_ok hgate
  rw [submit_request.encode, hgate]
  exact if_pos h

/-- The control block and the payload, written one behind the other. -/
def BufArea.filled (layout : Layout) (cb : aiocb) (payload : Nat → UInt8) (payload_len : UInt64)
    (br : BufArea) : BufArea :=
  if payload_len ≠ 0 then
    (br.memcpy 0 (layout.bytes cb)).memcpy (UInt64.ofNat layout.size).toNat
      ((List.range payload_len.toNat).map payload)
  else br.memcpy 0 (layout.bytes cb)

theorem encode_of_not_overflow (hgate : aio_gate.isSome ∨ global_aio.isSome)
    (h : ¬ UInt64.ofNat BR_DATA_BYTES < UInt64.ofNat layout.size + payload_len) :
    submit_request.encode layout aio_gate global_aio cb op payload payload_len extra br =
      .ok ⟨op, .ofNat layout.size, payload_len, extra,
        { br.filled layout cb payload payload_len with len := .ofNat layout.size + payload_len }⟩ := by
  obtain ⟨gate, hgate⟩ := ensure_gate_ok hgate
  rw [submit_request.encode, hgate]
  exact if_neg h

theorem filled_data (layout : Layout) (cb : aiocb) (payload : Nat → UInt8) (payload_len : UInt64)
    (br : BufArea) :
    (br.filled layout cb payload payload_len).data =
      br.data.store 0 (layout.bytes cb ++ (List.range payload_len.toNat).map payload) := by
  rw [Memory.store_append, layout.length_bytes, Nat.zero_add]
  unfold BufArea.filled
  by_cases hzero : payload_len = 0
  · rw [if_neg (not_not.mpr hzero), hzero]
    exact (Memory.store_nil _ _).symm
  · rw [if_pos hzero, toNat_size]
    rfl

theorem filled_written (layout : Layout) (cb : aiocb) (payload : Nat → UInt8) (payload_len : UInt64)
    (br : BufArea) :
    ∃ ranges, (br.filled layout cb payload payload_len).written = br.written ++ ranges ∧
      ∀ range ∈ ranges, range.2 ≤ layout.size + payload_len.toNat := by
  unfold BufArea.filled
  by_cases hzero : payload_len = 0
  · rw [if_neg (not_not.mpr hzero)]
    refine ⟨_, rfl, ?_⟩
    simp [layout.length_bytes]
  · rw [if_pos hzero, toNat_size]
    refine ⟨_, List.append_assoc .., ?_⟩
    simp [layout.length_bytes]

/-- Unless the sum of the lengths wraps around, the registers carry the message of
`submit_request`. -/
theorem encode_message (hgate : aio_gate.isSome ∨ global_aio.isSome) (hwraps : ¬ Wraps layout payload_len) :
    (submit_request.encode layout aio_gate global_aio cb op payload payload_len extra br).map
        Registers.message =
      submit_request.send layout cb op payload payload_len extra := by
  by_cases hover : UInt64.ofNat BR_DATA_BYTES < UInt64.ofNat layout.size + payload_len
  · rw [encode_of_overflow hgate hover]
    exact (if_pos hover).symm
  · have hfits := fits_of_not_overflow hwraps hover
    have hsum : (UInt64.ofNat layout.size + payload_len).toNat = layout.size + payload_len.toNat := by
      have hbytes : BR_DATA_BYTES = 456 := rfl
      rw [UInt64.toNat_add, toNat_size, Nat.mod_eq_of_lt (by omega)]
    have hload := Memory.load_store br.data 0
      (layout.bytes cb ++ (List.range payload_len.toNat).map payload)
    rw [List.length_append, layout.length_bytes, List.length_map, List.length_range] at hload
    rw [encode_of_not_overflow hgate hover]
    unfold submit_request.send
    rw [if_neg hover]
    simp only [Except.map, Registers.message, hsum, filled_data, hload]

/-- The server makes the control block and the payload out of the message. -/
def Decodes (layout : Layout) (cb : aiocb) (payload : List UInt8) (msg : Message) : Prop :=
  copy_aiocb layout ((br_bytes msg).take msg.mr1.toNat) = cb ∧
    ∀ (host : Host) (ops : Slab Operation), handle_aio_write layout host ops msg =
      submit host ops msg ((perform_write host cb.aio_fildes payload cb.aio_offset).map fun result =>
        ⟨.Write, cb.aio_fildes, result, 0, []⟩)

/-- A request that is too long is refused, and any other is encoded within the data
area such that the server decodes it. -/
def EncodesWrite (layout : Layout) (aio_gate global_aio : Option UInt64) (cb : aiocb)
    (payload : Nat → UInt8) (payload_len : UInt64) (br : BufArea) : Prop :=
  (submit_request.encode layout aio_gate global_aio cb opcode.AIO_WRITE payload payload_len 0 br =
      .error EOVERFLOW ↔ BR_DATA_BYTES < layout.size + payload_len.toNat) ∧
    (layout.size + payload_len.toNat ≤ BR_DATA_BYTES → ∃ regs ranges,
      submit_request.encode layout aio_gate global_aio cb opcode.AIO_WRITE payload payload_len 0 br =
          .ok regs ∧
        regs.br.written = br.written ++ ranges ∧ (∀ range ∈ ranges, range.2 ≤ BR_DATA_BYTES) ∧
        Decodes layout cb ((List.range payload_len.toNat).map payload) regs.message)

theorem encodesWrite_of_not_wraps (hgate : aio_gate.isSome ∨ global_aio.isSome)
    (hwraps : ¬ Wraps layout payload_len) :
    EncodesWrite layout aio_gate global_aio cb payload payload_len br := by
  have hcheck := overflow_check_iff layout payload_len
  by_cases hover : UInt64.ofNat BR_DATA_BYTES < UInt64.ofNat layout.size + payload_len
  · refine ⟨iff_of_true (encode_of_overflow hgate hover) (hcheck.mp hover).1, fun hfits => ?_⟩
    exact absurd (hcheck.mp hover).1 (Nat.not_lt.mpr hfits)
  · have hfits := fits_of_not_overflow hwraps hover
    have hencode : submit_request.encode layout aio_gate global_aio cb opcode.AIO_WRITE payload
        payload_len 0 br = .ok _ := encode_of_not_overflow hgate hover
    have hmessage : (submit_request.encode layout aio_gate global_aio cb opcode.AIO_WRITE payload
        payload_len 0 br).map Registers.message = _ := encode_message hgate hwraps
    rw [hencode, submit_request.send, if_neg hover] at hmessage
    have hsent := Except.ok.inj hmessage
    refine ⟨iff_of_false ?_ (Nat.not_lt.mpr hfits), fun _ => ?_⟩
    · rw [hencode]
      exact nofun
    · obtain ⟨ranges, hwritten, hranges⟩ := filled_written layout cb payload payload_len br
      refine ⟨_, ranges, hencode, hwritten, fun range hr => (hranges range hr).trans hfits, ?_⟩
      rw [hsent]
      have hpayload : ((List.range payload_len.toNat).map payload).length = payload_len.toNat := by
        rw [List.length_map, List.length_range]
      rw [← hpayload] at hfits
      refine ⟨copy_aiocb_of_bytes cb hfits rfl rfl, fun host ops => ?_⟩
      exact handle_aio_write_of_bytes cb hfits rfl hpayload.symm rfl

/-- A sum that wraps around passes the check, however long the request is. -/
theorem not_encodesWrite_of_wraps (hgate : aio_gate.isSome ∨ global_aio.isSome)
    (hwraps : Wraps layout payload_len) :
    ¬ EncodesWrite layout aio_gate global_aio cb payload payload_len br := by
  intro hencodes
  have hover : ¬ UInt64.ofNat BR_DATA_BYTES < UInt64.ofNat layout.size + payload_len := by
    rw [overflow_check_iff]
    exact fun h => h.2 hwraps
  have hlong : BR_DATA_BYTES < layout.size + payload_len.toNat :=
    Nat.lt_of_lt_of_le (by decide) hwraps.1
  have hrefused := hencodes.1.mpr hlong
  rw [encode_of_not_overflow hgate hover] at hrefused
  cases hrefused

theorem encode_of_no_gate :
    submit_request.encode layout none none cb op payload payload_len extra br = .error ENOENT := rfl

theorem not_encodesWrite_of_no_gate : ¬ EncodesWrite layout none none cb payload payload_len br := by
  intro hencodes
  by_cases hlong : BR_DATA_BYTES < layout.size + payload_len.toNat
  · have hrefused := hencodes.1.mpr hlong
    rw [encode_of_no_gate] at hrefused
    exact absurd (Except.error.inj hrefused) (by decide)
  · obtain ⟨regs, ranges, hencode, -⟩ := hencodes.2 (Nat.le_of_not_lt hlong)
    rw [encode_of_no_gate] at hencode
    cases hencode

/-- A write is encoded as it should be if and only if there is a server to send it to
and the sum of its lengths does not wrap around to one that fits. -/
theorem write_request_iff (layout : Layout) (aio_gate global_aio : Option UInt64) (cb : aiocb)
    (payload : Nat → UInt8) (payload_len : UInt64) (br : BufArea) :
    EncodesWrite layout aio_gate global_aio cb payload payload_len br ↔
      (aio_gate.isSome ∨ global_aio.isSome) ∧ ¬ Wraps layout payload_len := by
  constructor
  · intro hencodes
    have hgate : aio_gate.isSome ∨ global_aio.isSome := by
      by_contra hgate
      obtain ⟨hgate, hglobal⟩ := not_or.mp hgate
      rw [Option.not_isSome_iff_eq_none] at hgate hglobal
      rw [hgate, hglobal] at hencodes
      exact not_encodesWrite_of_no_gate hencodes
    exact ⟨hgate, fun hwraps => not_encodesWrite_of_wraps hgate hwraps hencodes⟩
  · rintro ⟨hgate, hwraps⟩
    exact encodesWrite_of_not_wraps hgate hwraps

/-- A length of `2 ^ 64 - 168` is added to 168 without a trace: the request is sent, with
its payload written far beyond the data area. -/
theorem write_request_wraps :
    ¬ EncodesWrite lp64Layout (some 5) none ⟨3, 0, .ofNat (2 ^ 64 - 168), 0⟩ (fun _ => 65)
      (.ofNat (2 ^ 64 - 168)) ⟨0, fun _ => 0, []⟩ := by
  apply not_encodesWrite_of_wraps (.inl rfl)
  decide

end l4re_libc.aio
