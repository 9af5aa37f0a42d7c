import L4Rust.L4reLibc.Aio.Handles

open aio_server aio_server.libc

namespace l4re_libc.aio

def EINPROGRESS : Int := 115

/-- The server has made the call that a submission asks for, if it accepted it. -/
def Call.Performed (call : Call) (op : Option Op) (accepted : Prop) : Prop :=
  ∃ o, op = some o ∧ o.asked = call.asks ∧ (accepted → o.made = call.asks ∧ 0 ≤ o.result)

/-- What is known of a reply: a submission that was not refused has been performed, and no status is
that of an operation under way. -/
def Call.Settled (call : Call) (answer : Answer) (op : Option Op) : Prop :=
  (call.api.submits → answer.value = 0 → call.Performed op True) ∧
    (call.api = .aio_error → answer.value ≠ EINPROGRESS)

/-- A thread that goes on with a reply will settle its call. -/
def Pc.Settles : Pc → Prop
  | .idle | .waiting .. => True
  | .woken call reply op _ =>
    (call.api.submits → call.Performed op (0 ≤ as_long_long reply.mr0)) ∧
      (call.api = .aio_error → (aio_error.receive reply).value ≠ EINPROGRESS)

/-- All operations of the server are complete. -/
structure Completed (s : System) : Prop where
  stored : ∀ k entry, s.ops k = some entry → entry.error = 0
  threads : ∀ t, (s.pc t).Settles
  replies : ∀ r ∈ s.replies, r.call.Settled r.answer r.op

variable {layout : Layout} {owner : Ptr → Nat} {s s' : System} {t : Nat} {call : Call}
  {aio_head aio_head' : List aio_mapping}

theorem fails_ne_zero (rc : Int) : (fails rc).value ≠ 0 := by
  change (-1 : Int) ≠ 0
  decide

theorem settles_update {pc : Pc} (h : ∀ u, (s.pc u).Settles) (hsettles : pc.Settles) (u : Nat) :
    (Function.update s.pc t pc u).Settles := by
  by_cases hu : u = t
  · subst hu
    rwa [Function.update_self]
  · rw [Function.update_of_ne hu]
    exact h u

theorem Completed.replies_concat {r : Reply} (h : Completed s) (hr : r.call.Settled r.answer r.op) :
    ∀ q ∈ s.replies ++ [r], q.call.Settled q.answer q.op :=
  List.forall_mem_append.mpr ⟨h.replies, List.forall_mem_singleton.mpr hr⟩

/-- What a call answers without an IPC. -/
theorem Call.Sends.settled {answer : Answer} {op : Option Op}
    (h : call.Sends layout aio_head (aio_head', .done answer)) : call.Settled answer op := by
  cases h with
  | failed rc hapi =>
    refine ⟨fun _ hvalue => absurd hvalue (fails_ne_zero rc), fun herror => ?_⟩
    rw [herror] at hapi
    cases hapi
  | unmapped hapi _ =>
    refine ⟨fun hsubmits => ?_, fun herror => ?_⟩
    · rw [hapi] at hsubmits
      cases hsubmits
    · rw [Call.unmapped, herror]
      decide

section Serve

variable {host : Host} {msg : Message}

theorem remove_stored {ops : Slab Operation} (h : ∀ k entry, ops k = some entry → entry.error = 0)
    (handle : Nat) : ∀ k entry, ops.remove handle k = some entry → entry.error = 0 := by
  intro k entry hentry
  rw [Slab.remove] at hentry
  by_cases hk : k = handle
  · subst hk
    rw [Function.update_self] at hentry
    cases hentry
  · rw [Function.update_of_ne hk] at hentry
    exact h k entry hentry

theorem insert_stored {ops : Slab Operation} (h : ∀ k entry, ops k = some entry → entry.error = 0)
    {key : Nat} {op : Operation} (hop : op.error = 0) :
    ∀ k entry, ops.insert key op k = some entry → entry.error = 0 := by
  intro k entry hentry
  rw [Slab.insert] at hentry
  by_cases hk : k = key
  · subst hk
    rw [Function.update_self] at hentry
    cases hentry
    exact hop
  · rw [Function.update_of_ne hk] at hentry
    exact h k entry hentry

/-- An operation gets its slot when it is complete. -/
theorem dispatch_stored (h : ∀ k entry, s.ops k = some entry → entry.error = 0)
    (hreq : call.Requests layout msg)
    (hanswers : ∀ made ∈ (dispatch layout host s.ops msg).made, host.Answers made) :
    ∀ k entry, (dispatch layout host s.ops msg).ops k = some entry → entry.error = 0 := by
  by_cases hapi : call.api.submits = true
  · cases dispatch_submitted 0 hapi hreq hanswers with
    | refused _ _ hops _ =>
      rw [hops]
      exact h
    | accepted entry hstored hops _ =>
      rw [hops]
      exact insert_stored h hstored.error
  · rw [dispatch_ops host s.ops (by simpa using hapi) hreq]
    split
    · exact remove_stored h _
    · exact h

theorem aio_error_receive_reply (msg : Message) (w : UInt64) :
    aio_error.receive (msg.reply w) =
      returns (if as_long_long w < 0 then as_int (-as_long_long w) else as_int (as_long_long w)) := by
  have hword : (msg.reply w).mr0 = w := rfl
  rw [aio_error.receive, call_simple.receive, hword]
  by_cases hneg : as_long_long w < 0
  · rw [if_pos hneg, if_pos hneg]
  · rw [if_neg hneg, if_neg hneg]

/-- The status of an operation is 0, and that of no operation an error. -/
theorem handle_aio_error_receive (h : ∀ k entry, s.ops k = some entry → entry.error = 0) :
    (aio_error.receive (handle_aio_error s.ops msg).msg).value ≠ EINPROGRESS := by
  unfold handle_aio_error
  cases hentry : s.ops msg.mr1.toNat with
  | none =>
    rw [aio_error_receive_reply]
    decide
  | some entry =>
    rw [aio_error_receive_reply, h _ _ hentry]
    decide

theorem serve_settles (hcompleted : Completed s) (op : Option Op) (freed : Bool)
    (hreq : call.Requests layout msg)
    (hanswers : ∀ made ∈ (dispatch layout host s.ops msg).made, host.Answers made) :
    Pc.Settles (.woken call (dispatch layout host s.ops msg).msg
      (if call.api.submits then some (call.operation host (dispatch layout host s.ops msg).made s.accepted)
        else op) freed) := by
  refine ⟨fun hapi => ?_, fun herror => ?_⟩
  · rw [if_pos hapi]
    refine ⟨_, rfl, rfl, fun hslot => ?_⟩
    cases dispatch_submitted s.accepted hapi hreq hanswers with
    | refused err herr _ hreply =>
      rw [hreply, as_long_long_encode_errno_raw herr.1 herr.2] at hslot
      have hpos := herr.1
      omega
    | accepted entry hstored _ _ => exact ⟨hstored.made, hstored.nonneg⟩
  · rw [dispatch_of_requests hreq, herror]
    exact handle_aio_error_receive hcompleted.stored

end Serve

theorem resume_settled {reply : Message} {op : Option Op} {freed : Bool} (h : Consistent layout owner s)
    (hwoken : s.pc t = .woken call reply op freed) (hsettles : (s.pc t).Settles) :
    call.Settled (call.receive reply s.aio_head).2 op := by
  rw [hwoken] at hsettles
  obtain ⟨hsubmits, herror⟩ := hsettles
  obtain ⟨hapi, err, herr, -, hreceive⟩ | ⟨hapi, k, hk, hreply, hreceive⟩ | ⟨hapi, -⟩ := receive_cases h hwoken
  · rw [hreceive]
    refine ⟨fun _ hvalue => absurd hvalue (fails_ne_zero err), fun hcall => ?_⟩
    rw [hcall] at hapi
    cases hapi
  · refine ⟨fun _ _ => ?_, fun hcall => ?_⟩
    · obtain ⟨o, ho, hasked, hmade⟩ := hsubmits hapi
      refine ⟨o, ho, hasked, fun _ => hmade ?_⟩
      rw [hreply, as_long_long_ofNat hk]
      exact Int.natCast_nonneg k
    · rw [hcall] at hapi
      cases hapi
  · refine ⟨fun hsubmits => ?_, fun hcall => ?_⟩
    · rw [hapi] at hsubmits
      cases hsubmits
    · unfold Call.receive
      rw [hcall]
      exact herror hcall

theorem Completed.step {event : Event} (hconsistent : Consistent layout owner s) (h : Completed s)
    (hdoes : event.Does layout owner s s') : Completed s' := by
  cases hdoes with
  | settled _ _ hsends => exact ⟨h.stored, h.threads, h.replies_concat hsends.settled⟩
  | sent => exact ⟨h.stored, settles_update h.threads trivial, h.replies⟩
  | @served t host call msg op hwaiting hanswers _ =>
    have hproper := hconsistent.proper t
    rw [hwaiting] at hproper
    refine ⟨?_, ?_, h.replies⟩
    · simp only [System.serve]
      exact dispatch_stored h.stored hproper.2 hanswers
    · simp only [System.serve]
      exact settles_update h.threads (serve_settles h op _ hproper.2 hanswers)
  | @resumed t call reply op freed hwoken =>
    exact ⟨h.stored, settles_update h.threads trivial,
      h.replies_concat (resume_settled hconsistent hwoken (h.threads t))⟩

/-- The server answers only once an operation is complete. -/
theorem completed_of_run {past : List (System × Event)} (hrun : (system layout owner).Run past s) :
    Completed s := by
  induction hrun with
  | start hinit =>
    subst hinit
    refine ⟨?_, fun _ => trivial, fun r hr => absurd hr List.not_mem_nil⟩
    intro k entry hentry
    cases hentry
  | call hrun hallowed hstep ih =>
    exact ih.step (consistent_of_run hrun) (Event.run_does hallowed hstep)

end l4re_libc.aio
