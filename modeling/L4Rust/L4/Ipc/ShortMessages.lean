import L4Rust.L4.Ipc.Iface
import L4Rust.L4.Registers.Bounds
import L4Rust.L4Derive.Iface
import L4Rust.Library.Footprint

open l4.error l4.utcb Footprint

namespace l4.utcb

instance : HasFootprint Registers where
  mem r := r.mem
  withMem m r := { r with mem := m }
  ends r := r.trace.map Access.stop

variable {limit : Nat}

/-- The bytes a range spans are the same in both memories, since the range was
recorded and stays within the limit. -/
theorem deref_readsOnly (T : Ty) (start : Nat) : ReadsOnly limit (deref T start) where
  keeps_mem := by
    intro r v t h
    cases h
    rfl
  ends_le := fun r h stop hstop => h stop (List.mem_cons_of_mem _ hstop)
  congr := by
    intro r m hm h
    have hstop : start + T.size ≤ limit := h _ (List.mem_cons_self ..)
    have hbytes : m.load start T.size = r.mem.load start T.size :=
      Memory.load_congr hm (Nat.zero_le _) hstop
    have hvalue : T.valueAt m start = T.valueAt r.mem start := by
      unfold Ty.valueAt
      congr 1
    exact congrArg (fun v => Outcome.ok v _) hvalue

theorem from_raw_parts_readsOnly (T : Ty) (start len : Nat) :
    ReadsOnly limit (from_raw_parts T start len) where
  keeps_mem := by
    intro r v t h
    cases h
    rfl
  ends_le := fun r h stop hstop => h stop (List.mem_cons_of_mem _ hstop)
  congr := by
    intro r m hm h
    have hstop : start + len * T.size ≤ limit := h _ (List.mem_cons_self ..)
    have hvalues : (List.range len).map (fun i => T.valueAt m (start + i * T.size)) =
        (List.range len).map (fun i => T.valueAt r.mem (start + i * T.size)) := by
      apply List.map_congr_left
      intro i hi
      have hend : (i + 1) * T.size ≤ len * T.size :=
        Nat.mul_le_mul_right _ (List.mem_range.mp hi)
      have hbytes : m.load (start + i * T.size) T.size = r.mem.load (start + i * T.size) T.size := by
        apply Memory.load_congr hm (Nat.zero_le _)
        rw [Nat.add_mul, Nat.one_mul] at hend
        omega
      unfold Ty.valueAt
      congr 1
    exact congrArg (fun v => Outcome.ok v _) hvalues

theorem l4_err_if_readsOnly (condition : Prop) [Decidable condition] (e : GenericErr) :
    ReadsOnly limit (l4_err_if condition e) := by
  unfold l4_err_if
  split
  · exact .throw _
  · exact .pure ()

theorem set_offset_readsOnly (stop : Nat) : ReadsOnly limit (set_offset stop) :=
  .modify (fun _ _ => rfl) (fun _ => rfl) (fun _ _ h => h)

variable (U : UtcbRegSize)

theorem Registers.read_readsOnly (T : Ty) : ReadsOnly limit (Registers.read U T) := by
  apply ReadsOnly.bind_get (fun _ _ => rfl)
  intro r
  refine .bind (.checked _) fun start => ?_
  refine .bind (.ok_or _ _) fun stop => ?_
  refine .bind (l4_err_if_readsOnly _ _) fun _ => ?_
  refine .bind (deref_readsOnly T start) fun val => ?_
  exact .bind (set_offset_readsOnly stop) fun _ => .pure val

theorem Registers.read_slice_readsOnly (Len : IntTy) (T : Ty) :
    ReadsOnly limit (Registers.read_slice U Len T) := by
  refine .bind (Registers.read_readsOnly U Len.ty) fun raw => ?_
  refine .bind (.ok_or _ _) fun len => ?_
  apply ReadsOnly.bind_get (fun _ _ => rfl)
  intro r
  refine .bind (.checked _) fun start => ?_
  refine .bind (.ok_or _ _) fun size_bytes => ?_
  refine .bind (.ok_or _ _) fun stop => ?_
  refine .bind (l4_err_if_readsOnly _ _) fun _ => ?_
  exact .bind (set_offset_readsOnly stop) fun _ => from_raw_parts_readsOnly T start len

theorem Registers.read_str_readsOnly : ReadsOnly limit (Registers.read_str U) := by
  refine .bind (Registers.read_readsOnly U _) fun raw => ?_
  apply ReadsOnly.bind_get (fun _ _ => rfl)
  intro r
  refine .bind (.ok_or _ _) fun stop => ?_
  refine .bind (l4_err_if_readsOnly _ _) fun _ => ?_
  refine .bind (from_raw_parts_readsOnly _ _ _) fun slice => ?_
  dsimp only
  cases from_utf8 _ with
  | error e => exact .throw _
  | ok str => exact .bind (set_offset_readsOnly stop) fun _ => .pure str

end l4.utcb

namespace l4.ipc

instance : HasFootprint Reader where
  mem s := s.mr.regs.mem
  withMem m s := { s with mr := { s.mr with regs := { s.mr.regs with mem := m } } }
  ends s := s.mr.regs.trace.map Access.stop

variable {limit : Nat}

theorem onRegs_eq_zoom {α : Type} (x : Exec Error Registers α) :
    Reader.onRegs x =
      Exec.zoom (fun s => s.mr.regs) (fun r s => { s with mr := { s.mr with regs := r } }) x := by
  funext s
  unfold Reader.onRegs Reader.onMr UtcbMr.onRegs Exec.zoom
  cases x s.mr.regs <;> rfl

theorem onRegs_bind {α β : Type} (x : Exec Error Registers α) (f : α → Exec Error Registers β) :
    Reader.onRegs (x >>= f) = Reader.onRegs x >>= fun a => Reader.onRegs (f a) := by
  simp only [onRegs_eq_zoom]
  funext s
  rw [Exec.bind_apply]
  unfold Exec.zoom
  rw [Exec.bind_apply]
  cases x s.mr.regs with
  | ok a r => rfl
  | err e r => rfl
  | abort => rfl

/-- A property of calls that holds of every single read of the decoder and that
composing calls keeps. -/
structure Compositional (K : {α : Type} → Exec Error Reader α → Prop) : Prop where
  pure : ∀ {α : Type} (a : α), K (pure a)
  throw : ∀ {α : Type} (e : Error), K (Exec.throw e : Exec Error Reader α)
  bind : ∀ {α β : Type} {x : Exec Error Reader α} {f : α → Exec Error Reader β},
    K x → (∀ a, K (f a)) → K (x >>= f)
  read : ∀ T, K (Reader.onRegs (Registers.read l4_msg_regs_t T))
  read_slice : ∀ Len T, K (Reader.onRegs (Registers.read_slice l4_msg_regs_t Len T))
  read_str : K (Reader.onRegs (Registers.read_str l4_msg_regs_t))
  onBufs : ∀ {α : Type} (x : Exec Error BufferAccess α), K (Reader.onBufs x)

namespace Compositional

variable {K : {α : Type} → Exec Error Reader α → Prop} (hK : Compositional K) (sys : Fpages)

include hK

theorem ok_or {α : Type} (found : Option α) (e : Error) :
    K (Exec.ok_or found e : Exec Error Reader α) := by
  cases found with
  | none => exact hK.throw e
  | some a => exact hK.pure a

theorem argTy_read (t : ArgTy) : K (t.read sys) := by
  cases t with
  | scalar T => exact hK.read _
  | unit => exact hK.pure ()
  | flexPage =>
    refine hK.bind (hK.read _) fun description => ?_
    refine hK.bind (hK.read _) fun fp_raw => ?_
    exact hK.bind (hK.onBufs _) fun cap_idx => hK.pure _
  | option T =>
    simp only [ArgTy.read, onRegs_bind]
    refine hK.bind (hK.read _) fun val => ?_
    exact hK.bind (hK.read _) fun _ => hK.pure _
  | cap => exact hK.onBufs _
  | string => exact hK.read_str
  | vec T =>
    refine hK.bind (hK.read_slice _ _) fun sl => ?_
    exact hK.bind (hK.ok_or _ _) fun _ => hK.pure sl

theorem collect (types : List ArgTy) : K (Cursor.collect (types.map (readArg sys))) := by
  induction types with
  | nil => exact hK.pure []
  | cons t types ih =>
    refine hK.bind (hK.bind (hK.argTy_read sys t) fun val => hK.pure _) fun a => ?_
    exact hK.bind ih fun rest => hK.pure _

theorem op_decode (I : Interface) (tag : MsgTag) : K (op_decode sys I tag) := by
  unfold l4.ipc.op_decode
  split
  · exact hK.throw _
  split
  · exact hK.throw _
  refine hK.bind (hK.read _) fun opcode => ?_
  cases I.arm opcode with
  | none => exact hK.throw _
  | some m => exact hK.bind (hK.collect sys m.args) fun args => hK.pure _

end Compositional

theorem onRegs_readsOnly {α : Type} {x : Exec Error Registers α} (hx : ReadsOnly limit x) :
    ReadsOnly limit (Reader.onRegs x) := by
  rw [onRegs_eq_zoom]
  exact .zoom (fun _ _ => rfl) (fun _ _ _ => rfl) (fun _ => rfl) (fun _ _ => rfl) (fun _ => rfl)
    (fun _ _ => rfl) hx

theorem readsOnly_compositional (limit : Nat) :
    Compositional fun {α} (x : Exec Error Reader α) => ReadsOnly limit x where
  pure := .pure
  throw := .throw
  bind := .bind
  read T := onRegs_readsOnly (Registers.read_readsOnly _ T)
  read_slice Len T := onRegs_readsOnly (Registers.read_slice_readsOnly _ Len T)
  read_str := onRegs_readsOnly (Registers.read_str_readsOnly _)
  onBufs _ := .zoom_frame (fun _ _ => rfl) (fun _ _ _ => rfl) (fun _ _ => rfl) (fun _ _ => rfl)

/-- Everything read so far lies inside the message registers. -/
def Reader.InBounds (s : Reader) : Prop := s.mr.regs.InBounds l4_msg_regs_t

theorem onRegs_preserves {α : Type} {x : Exec Error Registers α}
    (hx : StaysInBounds l4_msg_regs_t x) : Exec.Preserves Reader.InBounds (Reader.onRegs x) := by
  rw [onRegs_eq_zoom]
  exact .zoom (fun _ hs => hs) (fun _ _ _ ht => ht) hx.preserves

theorem onBufs_preserves {α : Type} (x : Exec Error BufferAccess α) :
    Exec.Preserves Reader.InBounds (Reader.onBufs x) := by
  refine Exec.Preserves.zoom (P := Reader.InBounds) (Q := fun _ => True) (fun _ _ => trivial)
    (fun _ _ hs _ => hs) ?_
  intro bufs _
  cases x bufs <;> trivial

theorem preserves_compositional :
    Compositional fun {α} (x : Exec Error Reader α) => Exec.Preserves Reader.InBounds x where
  pure := .pure
  throw := .throw
  bind := .bind
  read T := onRegs_preserves (Registers.read_in_bounds T)
  read_slice Len T := onRegs_preserves (Registers.read_slice_in_bounds Len T)
  read_str := onRegs_preserves Registers.read_str_in_bounds
  onBufs := onBufs_preserves

variable (sys : Fpages)

/-- What the dispatcher starts from. -/
def received (mem : Memory) (bufs : BufferAccess) : Reader := ⟨UtcbMr.from_mr mem, bufs⟩

/-- Decoding never leaves the message registers. -/
theorem op_decode_within (I : Interface) (tag : MsgTag) (mem : Memory) (bufs : BufferAccess) :
    op_decode sys I tag (received mem bufs) = .abort ∨
      Within (l4_sys.UTCB_GENERIC_DATA_SIZE * 8) (op_decode sys I tag (received mem bufs)) := by
  have hstart : (received mem bufs).InBounds := by
    refine ⟨Nat.zero_le _, ?_⟩
    simp [received, UtcbMr.from_mr, Registers.from_raw]
  have hrun := preserves_compositional.op_decode sys I tag _ hstart
  have hends (t : Reader) (ht : t.InBounds) :
      ∀ stop ∈ HasFootprint.ends t, stop ≤ l4_sys.UTCB_GENERIC_DATA_SIZE * 8 := by
    intro stop hstop
    obtain ⟨access, haccess, rfl⟩ := List.mem_map.mp hstop
    exact (ht.trace_le access haccess).2
  cases h : op_decode sys I tag (received mem bufs) with
  | ok r t =>
    rw [h] at hrun
    exact Or.inr (hends t hrun)
  | err e t =>
    rw [h] at hrun
    exact Or.inr (hends t hrun)
  | abort => exact Or.inl rfl

/-- Nothing compares what is read with the length in the tag. Two contents of
the message registers that agree on the transmitted words give the same method
and arguments, or the same error, when decoding one of them returns without
reading past those words; and contents that agree on all message registers
always do. -/
theorem decoded_from_registers_read (I : Interface) (tag : MsgTag) (m n : Memory)
    (bufs : BufferAccess) :
    (Memory.AgreeOn 0 (8 * tag.words) m n →
      Within (8 * tag.words) (op_decode sys I tag (received n bufs)) →
      (op_decode sys I tag (received m bufs)).answer? =
        (op_decode sys I tag (received n bufs)).answer?) ∧
    (Memory.AgreeOn 0 (8 * l4_sys.UTCB_GENERIC_DATA_SIZE) m n →
      (op_decode sys I tag (received m bufs)).answer? =
        (op_decode sys I tag (received n bufs)).answer?) := by
  have hstart : received m bufs = HasFootprint.withMem m (received n bufs) := rfl
  constructor
  · intro hagree hwithin
    have hrun := ((readsOnly_compositional _).op_decode sys I tag).congr (received n bufs) m hagree hwithin
    rw [hstart, hrun, Outcome.answer?_mapState]
  · intro hagree
    rw [Nat.mul_comm] at hagree
    rw [hstart]
    apply ((readsOnly_compositional _).op_decode sys I tag).answer_congr hagree rfl rfl
    · exact op_decode_within sys I tag n bufs
    · exact op_decode_within sys I tag m bufs

/-- An interface with one method that takes a 64-bit number. -/
def storeDecl : List l4_derive.TraitItem :=
  [.Attr (.Const "PROTOCOL_ID" (some 0x4000#64)),
    .Method ⟨"store", false, [.SelfRef true, .Captured "value" (.Path [("u64", [])])], none, false⟩]

/-- Registers that hold zeros but for one byte. -/
def oneByte (i : Nat) (b : UInt8) : Memory := fun j => if j = i then b else 0

/-- With both words sent, a third word that differs changes nothing. -/
theorem decoded_from_two_words :
    ∃ iface I, l4_derive.Iface.parse storeDecl = .ok iface ∧
      l4_derive.iface_back .prelude iface = some I ∧
      (op_decode .l4re I (MsgTag.new 0x4000#64 2 0 0)
          (received (oneByte 16 1) ⟨fun _ => 0, none⟩)).answer? =
        (op_decode .l4re I (MsgTag.new 0x4000#64 2 0 0)
          (received (fun _ => 0) ⟨fun _ => 0, none⟩)).answer? := by
  refine ⟨_, _, rfl, rfl, ?_⟩
  apply (decoded_from_registers_read .l4re _ (MsgTag.new 0x4000#64 2 0 0) (oneByte 16 1)
    (fun _ => 0) ⟨fun _ => 0, none⟩).1
  · intro i _ hi
    have hlt : i < 16 := hi
    exact if_neg (by omega)
  · decide +kernel

/-- The number an argument carries. -/
def Arg.number : Arg → Nat
  | ⟨.scalar _, v⟩ => LittleEndian.decode (Ty.Value.bytes v)
  | ⟨.unit, _⟩ | ⟨.flexPage, _⟩ | ⟨.option _, _⟩ | ⟨.cap, _⟩ | ⟨.string, _⟩ | ⟨.vec _, _⟩ => 0

/-- With only the opcode's word sent, the argument is whatever the second
register was left with. -/
theorem decoded_from_stale_register :
    ∃ iface I tag m n, l4_derive.Iface.parse storeDecl = .ok iface ∧
      l4_derive.iface_back .prelude iface = some I ∧ tag.words = 1 ∧
      Memory.AgreeOn 0 (8 * tag.words) m n ∧
      ((op_decode .l4re I tag (received m ⟨fun _ => 0, none⟩)).value?.map
        fun r => r.2.map Arg.number) = some [7] ∧
      ((op_decode .l4re I tag (received n ⟨fun _ => 0, none⟩)).value?.map
        fun r => r.2.map Arg.number) = some [0] ∧
      (op_decode .l4re I tag (received m ⟨fun _ => 0, none⟩)).answer? ≠
        (op_decode .l4re I tag (received n ⟨fun _ => 0, none⟩)).answer? := by
  refine ⟨_, _, MsgTag.new 0x4000#64 1 0 0, oneByte 8 7, fun _ => 0, rfl, rfl, by decide +kernel,
    ?_, by decide +kernel, by decide +kernel, ?_⟩
  · intro i _ hi
    have hlt : i < 8 := hi
    exact if_neg (by omega)
  · intro hsame
    have hvalues := congrArg
      (fun o => (o.bind Except.toOption).map fun r : Method × List Arg => r.2.map Arg.number) hsame
    simp only [← Outcome.value?_eq] at hvalues
    revert hvalues
    decide +kernel

end l4.ipc
