import L4Rust.AioServer

namespace aio_server

open libc

/-- A message register by its number. -/
def Message.mr (msg : Message) : Nat → UInt64
  | 0 => msg.mr0
  | 1 => msg.mr1
  | 2 => msg.mr2
  | 3 => msg.mr3
  | _ => 0

/-- The result of a read that succeeded is fetched. -/
def ReturnsRead (ops : Slab Operation) (msg : Message) : Prop :=
  msg.mr0 = opcode.AIO_RETURN ∧ ∃ op, ops msg.mr1.toNat = some op ∧ op.kind = .Read ∧ op.error = 0

/-- How a request is answered: at most the first two message registers are assigned to,
the others stay as they are, and the buffer registers are empty without a payload. -/
structure Answered (payload : Prop) (msg : Message) (served : Served) : Prop where
  assigned : ∀ i ∈ served.assigned, i < 2
  others : ∀ i ∉ served.assigned, served.msg.mr i = msg.mr i
  cleared : ¬ payload → served.msg.br = []

variable {payload : Prop} {ops : Slab Operation} {msg : Message}

theorem answered_word (ops : Slab Operation) (msg : Message) (w : UInt64) (made : Option Syscall) :
    Answered payload msg ⟨ops, msg.reply w, made, [0]⟩ := by
  refine ⟨by simp, ?_, fun _ => rfl⟩
  intro i hi
  match i with
  | 0 => simp at hi
  | 1 | 2 | 3 | _ + 4 => rfl

theorem answered_two_words (ops : Slab Operation) (msg : Message) (w0 w1 : UInt64) {br : List UInt8}
    (made : Option Syscall) (hcleared : ¬ payload → br = []) :
    Answered payload msg ⟨ops, { msg with mr0 := w0, mr1 := w1, br := br }, made, [0, 1]⟩ := by
  refine ⟨by simp, ?_, hcleared⟩
  intro i hi
  match i with
  | 0 | 1 => simp at hi
  | 2 | 3 | _ + 4 => rfl

theorem submit_answered (host : Host) (performed : Performed Operation) :
    Answered payload msg (submit host ops msg performed) := by
  unfold submit
  split
  · exact answered_word ..
  · exact answered_word ..

theorem with_aiocb_answered (layout : Layout) {f : aiocb → Served}
    (hf : ∀ cb, Answered payload msg (f cb)) : Answered payload msg (with_aiocb layout ops msg f) := by
  unfold with_aiocb
  split
  · exact answered_word ..
  · exact hf _

theorem handle_aio_write_answered (layout : Layout) (host : Host) :
    Answered payload msg (handle_aio_write layout host ops msg) := by
  unfold handle_aio_write
  dsimp only
  split
  · exact answered_word ..
  · exact submit_answered ..

theorem handle_aio_return_answered (hop : msg.mr0 = opcode.AIO_RETURN) :
    Answered (ReturnsRead ops msg) msg (handle_aio_return ops msg) := by
  unfold handle_aio_return ReturnsRead
  dsimp only
  cases hentry : ops msg.mr1.toNat with
  | none => exact answered_word ..
  | some op =>
    dsimp only
    split
    · exact answered_word ..
    next hok =>
    cases hkind : op.kind with
    | Read =>
      apply answered_two_words
      intro hpayload
      exact absurd ⟨hop, op, rfl, hkind, not_not.mp hok⟩ hpayload
    | Write =>
      apply answered_two_words
      intro _
      rfl
    | Fsync =>
      apply answered_two_words
      intro _
      rfl

/-- What a round of the server loop answers. -/
theorem dispatch_answered (layout : Layout) (host : Host) (ops : Slab Operation) (msg : Message) :
    Answered (ReturnsRead ops msg) msg (dispatch layout host ops msg) := by
  unfold dispatch
  split
  · exact with_aiocb_answered layout fun _ => submit_answered ..
  split
  · exact handle_aio_write_answered ..
  split
  · unfold handle_aio_error
    split
    · exact answered_word ..
    · exact answered_word ..
  split
  · next hop => exact handle_aio_return_answered hop
  split
  · unfold handle_aio_cancel
    dsimp only
    split
    · exact answered_word ..
    · exact answered_word ..
  split
  · exact answered_word ..
  split
  · exact with_aiocb_answered layout fun _ => submit_answered ..
  split
  · exact answered_word ..
  · exact answered_word ..

end aio_server
