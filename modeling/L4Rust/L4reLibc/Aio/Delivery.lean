import L4Rust.L4reLibc.Aio.Handles
import L4Rust.L4reLibc.Lp64

open aio_server aio_server.libc

namespace l4re_libc.aio

/-- What a call should answer. `aio_error` reports the status of the operation, and
`aio_return` its result and data and frees the slot; when no operation is owed it
fails. -/
def Reply.Right (r : Reply) : Prop :=
  match r.call.api, r.op with
  | .aio_error, some op => op.made = op.asked ∧ r.answer.value = op.status
  | .aio_return, some op =>
    op.made = op.asked ∧ r.answer.value = op.result ∧
      (r.call.aiocb.aio_buf ≠ 0 → r.answer.copied = op.data) ∧ r.freed = true
  | .aio_return, none => r.answer.value = -1 ∧ r.answer.errno = some EINVAL
  | _, _ => True

/-- A control block is submitted again while it is still owed an operation. -/
def Event.Resubmits (s : System) (cb : Ptr) : Event → Prop
  | .enter _ call => call.api.submits ∧ call.cb = cb ∧ s.owed cb ≠ none
  | .serve .. | .resume _ => False

/-- The server still has the operation. -/
structure Op.Kept (ops : Slab Operation) (op : Op) : Prop where
  stored : ∃ entry, ops op.slot = some entry ∧ op.Stored entry
  slot_lt : op.slot < 2 ^ 63
  first_iff : op.slot = 0 ↔ op.before = 0

/-- The answer is right and is not about the first operation. -/
def Call.Answered (call : Call) (reply : Message) (op : Option Op) (freed : Bool) : Prop :=
  ∃ o, op = some o ∧ 0 < o.before ∧ Reply.Right ⟨call, (call.receive reply []).2, op, freed⟩

/-- What is known of a thread that works on the control block. -/
def Pc.Tracks (s : System) (cb : Ptr) : Pc → Prop
  | .idle => True
  | .waiting call msg op => call.cb = cb →
    (call.api.submits → s.owed cb = none) ∧
    (call.api.finishes → s.owed cb = none ∧
      ∃ o, op = some o ∧ o.Kept s.ops ∧ msg.mr1 = .ofNat o.slot) ∧
    (call.api = .aio_error → ∃ o, op = some o ∧ s.owed cb = some o ∧ msg.mr1 = .ofNat o.slot)
  | .woken call reply op freed => call.cb = cb →
    (call.api.submits → s.owed cb = none ∧ ∀ k, k < 2 ^ 63 → reply.mr0 = .ofNat k →
      ∃ o, op = some o ∧ o.slot = k ∧ o.Kept s.ops) ∧
    (call.api.submits = false → call.Answered reply op freed)

/-- A control block is mapped exactly when it is owed an operation, and then to the
slot of that. -/
structure Mapped (s : System) (cb : Ptr) : Prop where
  owed : ∀ op, s.owed cb = some op → op.Kept s.ops ∧ ⟨cb, .ofNat op.slot⟩ ∈ s.aio_head ∧
    ∀ m ∈ s.aio_head, m.cb = cb → m = ⟨cb, .ofNat op.slot⟩
  unowed : s.owed cb = none → ∀ m ∈ s.aio_head, m.cb ≠ cb

/-- The client and the server are in step about a control block, and all calls about it
were answered as far as slot 0 allows. -/
structure Tracked (s : System) (cb : Ptr) : Prop extends Mapped s cb where
  threads : ∀ t, (s.pc t).Tracks s cb
  replies : ∀ r ∈ s.replies, r.call.cb = cb → r.call.api = .aio_error ∨ r.call.api = .aio_return →
    (r.Right ↔ ∀ op, r.op = some op → 0 < op.before)

variable {layout : Layout} {owner : Ptr → Nat} {s s' : System} {t : Nat} {call : Call} {cb : Ptr}
  {aio_head : List aio_mapping}

/-- The thread works on the control block. -/
def Pc.Concerns (cb : Ptr) : Pc → Prop
  | .idle => False
  | .waiting call .. | .woken call .. => call.cb = cb

/-- The event is part of a call about the control block. -/
def Event.Concerns (s : System) (cb : Ptr) : Event → Prop
  | .enter _ call => call.cb = cb
  | .serve t _ | .resume t => (s.pc t).Concerns cb

theorem Pc.tracks_of_not_concerns {pc : Pc} (h : ¬ pc.Concerns cb) : pc.Tracks s cb := by
  cases pc with
  | idle => trivial
  | waiting | woken => exact fun hcb => absurd hcb h

theorem Consistent.owner_of_concerns (h : Consistent layout owner s) (hcb : (s.pc t).Concerns cb) :
    cb ≠ NULL ∧ owner cb = t := by
  have hproper := h.proper t
  cases hpc : s.pc t with
  | idle =>
    rw [hpc] at hcb
    exact hcb.elim
  | waiting call msg op =>
    rw [hpc] at hcb hproper
    cases hcb
    exact hproper.1
  | woken call reply op freed =>
    rw [hpc] at hcb hproper
    cases hcb
    exact hproper.1

/-- Only the thread that owns the control block works on it. -/
theorem Consistent.not_concerns (h : Consistent layout owner s) (howner : cb ≠ NULL → owner cb = t)
    {u : Nat} (hu : u ≠ t) : ¬ (s.pc u).Concerns cb := by
  intro hcb
  obtain ⟨hne, hown⟩ := h.owner_of_concerns hcb
  exact hu (hown.symm.trans (howner hne))

/-- An operation of the control block stays where it is as long as the server leaves
the slots of others alone. -/
theorem Op.Kept.congr {op : Op} {ops ops' : Slab Operation} (h : op.Kept ops)
    (hops : ops' op.slot = ops op.slot) : op.Kept ops' :=
  ⟨hops ▸ h.stored, h.slot_lt, h.first_iff⟩

/-- What is known of a thread rests on what is owed and on the slot in its hands. -/
theorem Pc.Tracks.congr {pc : Pc} (h : pc.Tracks s cb) (howed : s'.owed cb = s.owed cb)
    (hops : ∀ k, pc.slot = some k → s'.ops k = s.ops k) : pc.Tracks s' cb := by
  cases pc with
  | idle => trivial
  | waiting call msg op =>
    intro hcb
    obtain ⟨hsubmits, hfinishes, herror⟩ := h hcb
    rw [howed]
    refine ⟨hsubmits, ?_, herror⟩
    intro hapi
    obtain ⟨hnone, o, ho, hkept, hmsg⟩ := hfinishes hapi
    refine ⟨hnone, o, ho, hkept.congr (hops o.slot ?_), hmsg⟩
    rw [Pc.slot, if_pos hapi, hmsg, toNat_ofNat_slot hkept.slot_lt]
  | woken call reply op freed =>
    intro hcb
    obtain ⟨hsubmits, hothers⟩ := h hcb
    rw [howed]
    refine ⟨?_, hothers⟩
    intro hapi
    obtain ⟨hnone, hslot⟩ := hsubmits hapi
    refine ⟨hnone, ?_⟩
    intro k hk hreply
    obtain ⟨o, ho, rfl, hkept⟩ := hslot k hk hreply
    exact ⟨o, ho, rfl, hkept.congr (hops o.slot (Pc.slot_woken_of_slot hapi hk hreply))⟩

/-- What a step about another control block has to leave alone. -/
structure Elsewhere (t : Nat) (cb : Ptr) (s s' : System) : Prop where
  owed : s'.owed cb = s.owed cb
  mapped : ∀ m, m.cb = cb → (m ∈ s'.aio_head ↔ m ∈ s.aio_head)
  others : ∀ u, u ≠ t → s'.pc u = s.pc u
  before : ¬ (s.pc t).Concerns cb
  after : ¬ (s'.pc t).Concerns cb
  ops : ∀ p k, p ≠ some t → k ∈ s.holders p → s'.ops k = s.ops k
  replies : ∀ r ∈ s'.replies, r.call.cb = cb → r ∈ s.replies

theorem Tracked.kept {op : Op} (h : Tracked s cb) (hops : ∀ k, k ∈ s.holders none → s'.ops k = s.ops k)
    (howed : s.owed cb = some op) : op.Kept s'.ops := by
  obtain ⟨hkept, hmem, _⟩ := h.owed op howed
  apply hkept.congr
  apply hops
  have hslot := toNat_ofNat_slot hkept.slot_lt
  exact List.mem_map.mpr ⟨_, hmem, hslot⟩

theorem Tracked.elsewhere (h : Tracked s cb) (he : Elsewhere t cb s s') : Tracked s' cb := by
  refine ⟨⟨?_, ?_⟩, ?_, ?_⟩
  · rw [he.owed]
    intro op howed
    obtain ⟨_, hmem, honly⟩ := h.owed op howed
    refine ⟨h.kept (fun k hk => he.ops none k (by simp) hk) howed, (he.mapped _ rfl).mpr hmem, ?_⟩
    intro m hm hcb
    exact honly m ((he.mapped m hcb).mp hm) hcb
  · rw [he.owed]
    intro hnone m hm hcb
    exact h.unowed hnone m ((he.mapped m hcb).mp hm) hcb
  · intro u
    by_cases hu : u = t
    · subst hu
      exact Pc.tracks_of_not_concerns he.after
    · rw [he.others u hu]
      refine (h.threads u).congr he.owed ?_
      intro k hk
      exact he.ops (some u) k (by simpa using hu) (by simp [System.holders, hk])
  · intro r hr hcb
    exact h.replies r (he.replies r hr hcb) hcb

/-- Removing the mapping of another control block. -/
theorem Call.mem_rest_iff {m : aio_mapping} (hm : m.cb ≠ call.cb) :
    m ∈ call.rest aio_head ↔ m ∈ aio_head := by
  rcases call.rest_cases aio_head with ⟨hrest, _⟩ | ⟨_, node, hperm, _, hnode⟩
  · rw [hrest]
  · have hne : m ≠ node := by
      rintro rfl
      exact hm hnode
    rw [hperm.mem_iff, List.mem_cons, or_iff_right hne]

theorem Call.claims_of_ne {owed : Ptr → Option Op} (h : call.cb ≠ cb) : call.claims owed cb = owed cb := by
  unfold Call.claims
  split
  · exact Function.update_of_ne (Ne.symm h) ..
  · rfl

theorem Call.Sends.mem_iff {sent : Sent} {aio_head' : List aio_mapping} {m : aio_mapping}
    (h : call.Sends layout aio_head (aio_head', sent)) (hm : m.cb ≠ call.cb) :
    m ∈ aio_head' ↔ m ∈ aio_head := by
  cases h with
  | failed | submitted => exact Iff.rfl
  | unmapped | mapped => exact Call.mem_rest_iff hm

/-- The server changes no slot but that in the hands of the thread it serves. -/
theorem serve_ops_of_held {host : Host} {msg : Message} {op : Option Op} (h : Consistent layout owner s)
    (hwaiting : s.pc t = .waiting call msg op)
    (hanswers : ∀ made ∈ (dispatch layout host s.ops msg).made, host.Answers made)
    (hinserts : call.api.submits → host.Inserts s.ops s.accepted) {p : Option Nat} {k : Nat}
    (hp : p ≠ some t) (hk : k ∈ s.holders p) : (s.serve layout t host call msg op).ops k = s.ops k := by
  have hproper := h.proper t
  rw [hwaiting] at hproper
  obtain ⟨honce, hused⟩ := h.exclusive k ⟨p, hk⟩
  -- A new slot was vacant, and one that is given back was in the hands of this thread.
  by_cases hapi : call.api.submits = true
  · cases dispatch_submitted s.accepted hapi hproper.2 hanswers with
    | refused _ _ hops => exact congrFun hops k
    | accepted entry _ hops =>
      have hne : k ≠ host.key := by
        rintro rfl
        have hvacant := (hinserts hapi).1
        rw [Option.isNone_iff_eq_none] at hvacant
        simp [hvacant] at hused
      simp only [System.serve, hops]
      exact Function.update_of_ne hne ..
  · have hops := dispatch_ops host s.ops (by simpa using hapi) hproper.2
    simp only [System.serve, hops]
    split
    case isFalse => rfl
    case isTrue hfinishes =>
      have hne : k ≠ msg.mr1.toNat := by
        rintro rfl
        refine hp (honce.unique hk ?_)
        simp [System.holders, hwaiting, Pc.slot, hfinishes]
      exact Function.update_of_ne hne ..

theorem mem_of_mem_concat {r q : Reply} {replies : List Reply} (hq : q ∈ replies ++ [r])
    (hcb : q.call.cb = cb) (hr : r.call.cb ≠ cb) : q ∈ replies := by
  rcases List.mem_append.mp hq with hq | hq
  · exact hq
  · rw [List.mem_singleton.mp hq] at hcb
    exact absurd hcb hr

theorem settle_elsewhere {answer : Answer} (hidle : s.pc t = .idle)
    (hsends : call.Sends layout s.aio_head (aio_head, .done answer)) (hne : call.cb ≠ cb) :
    Elsewhere t cb s (s.settle call aio_head answer) := by
  refine ⟨Call.claims_of_ne hne, ?_, fun _ _ => rfl, ?_, ?_, fun _ _ _ _ => rfl, ?_⟩
  · intro m hm
    exact hsends.mem_iff (hm ▸ Ne.symm hne)
  · rw [hidle]
    exact id
  · simp only [System.settle, hidle]
    exact id
  · exact fun r hr hcb => mem_of_mem_concat hr hcb hne

theorem send_elsewhere {msg : Message} (hidle : s.pc t = .idle)
    (hsends : call.Sends layout s.aio_head (aio_head, .request msg)) (hne : call.cb ≠ cb) :
    Elsewhere t cb s (s.send t call aio_head msg) := by
  refine ⟨Call.claims_of_ne hne, ?_, fun _ hu => Function.update_of_ne hu .., ?_, ?_,
    fun _ _ _ _ => rfl, fun _ hr _ => hr⟩
  · intro m hm
    exact hsends.mem_iff (hm ▸ Ne.symm hne)
  · rw [hidle]
    exact id
  · simp only [System.send, Function.update_self]
    exact hne

theorem serve_elsewhere {host : Host} {msg : Message} {op : Option Op}
    (hconsistent : Consistent layout owner s) (hwaiting : s.pc t = .waiting call msg op)
    (hanswers : ∀ made ∈ (dispatch layout host s.ops msg).made, host.Answers made)
    (hinserts : call.api.submits → host.Inserts s.ops s.accepted) (hne : call.cb ≠ cb) :
    Elsewhere t cb s (s.serve layout t host call msg op) := by
  refine ⟨rfl, fun _ _ => Iff.rfl, fun _ hu => Function.update_of_ne hu .., ?_, ?_, ?_,
    fun _ hr _ => hr⟩
  · rw [hwaiting]
    exact hne
  · simp only [System.serve, Function.update_self]
    exact hne
  · intro p k hp hk
    exact serve_ops_of_held hconsistent hwaiting hanswers hinserts hp hk

theorem resume_elsewhere {reply : Message} {op : Option Op} {freed : Bool}
    (hconsistent : Consistent layout owner s) (hwoken : s.pc t = .woken call reply op freed)
    (hne : call.cb ≠ cb) : Elsewhere t cb s (s.resume t call reply op freed) := by
  refine ⟨?_, ?_, fun _ hu => Function.update_of_ne hu .., ?_, ?_, fun _ _ _ _ => rfl, ?_⟩
  · simp only [System.resume]
    split
    · exact Function.update_of_ne (Ne.symm hne) ..
    · rfl
  · intro m hm
    simp only [System.resume]
    rcases receive_cases hconsistent hwoken with ⟨_, err, _, _, hreceive⟩ |
      ⟨_, k, _, _, hreceive⟩ | ⟨_, hreceive⟩
    · rw [hreceive]
    · have hnew : m ≠ ⟨call.cb, .ofNat k⟩ := by
        rintro rfl
        exact hne hm
      rw [hreceive, List.mem_cons, or_iff_right hnew]
    · rw [hreceive]
  · rw [hwoken]
    exact hne
  · simp only [System.resume, Function.update_self]
    exact id
  · exact fun r hr hcb => mem_of_mem_concat hr hcb hne

/-- A step for another control block. -/
theorem Tracked.step_elsewhere {event : Event} (hconsistent : Consistent layout owner s) (h : Tracked s cb)
    (hdoes : event.Does layout owner s s') (hother : ¬ event.Concerns s cb) : Tracked s' cb := by
  cases hdoes with
  | settled hidle _ hsends => exact h.elsewhere (settle_elsewhere hidle hsends hother)
  | sent hidle _ hsends => exact h.elsewhere (send_elsewhere hidle hsends hother)
  | served hwaiting hanswers hinserts =>
    rw [Event.Concerns, hwaiting] at hother
    exact h.elsewhere (serve_elsewhere hconsistent hwaiting hanswers hinserts hother)
  | resumed hwoken =>
    rw [Event.Concerns, hwoken] at hother
    exact h.elsewhere (resume_elsewhere hconsistent hwoken hother)

theorem Call.claims_self {owed : Ptr → Option Op} :
    call.claims owed call.cb = if call.api.finishes then none else owed call.cb := by
  unfold Call.claims
  split
  · exact Function.update_self ..
  · rfl

/-- A mapping that is removed is not in the list a second time. -/
theorem Consistent.not_mem_rest {m : aio_mapping} (h : Consistent layout owner s)
    (hperm : s.aio_head.Perm (m :: aio_head)) : m ∉ aio_head := by
  have hnodup := h.exclusive.nodup none
  simp only [System.holders] at hnodup
  rw [(hperm.map fun m => m.handle.toNat).nodup_iff, List.map_cons, List.nodup_cons] at hnodup
  intro hm
  exact hnodup.1 (List.mem_map_of_mem hm)

/-- A call finds the slot of the operation that is owed, and nothing if none is. -/
theorem Tracked.handle (hconsistent : Consistent layout owner s) (h : Tracked s call.cb) :
    (s.owed call.cb = none ∧ call.handle s.aio_head = 0 ∧ call.rest s.aio_head = s.aio_head) ∨
    ∃ op, s.owed call.cb = some op ∧ op.Kept s.ops ∧ call.handle s.aio_head = .ofNat op.slot ∧
      if call.api.finishes then ∀ m ∈ call.rest s.aio_head, m.cb ≠ call.cb
      else call.rest s.aio_head = s.aio_head := by
  cases howed : s.owed call.cb with
  | none =>
    left
    have hnone := h.unowed howed
    rcases remove_mapping_cases call.cb s.aio_head with ⟨_, hremove, _⟩ | ⟨m, rest, _, _, hm, hperm⟩
    · unfold Call.handle Call.rest
      rw [hremove]
      refine ⟨rfl, ?_, ?_⟩
      · split <;> rfl
      · split <;> rfl
    · exact absurd hm (hnone m (hperm.mem_iff.mpr (List.mem_cons_self ..)))
  | some op =>
    right
    obtain ⟨hkept, hmem, honly⟩ := h.owed op howed
    have hcb : call.cb ≠ NULL := hconsistent.mapped _ hmem
    rcases remove_mapping_cases call.cb s.aio_head with ⟨_, _, hnone⟩ | ⟨m, rest, _, hremove, hm, hperm⟩
    · exact absurd rfl (hnone _ hmem)
    · have hm' := honly m (hperm.mem_iff.mpr (List.mem_cons_self ..)) hm
      refine ⟨op, rfl, hkept, ?_, ?_⟩
      · rw [Call.handle, if_neg hcb, hremove, hm']
      · split
        case isFalse hapi => exact if_neg fun hboth => hapi hboth.2
        case isTrue hapi =>
          have hrest : call.rest s.aio_head = rest := by
            rw [Call.rest, if_pos ⟨hcb, hapi⟩, hremove]
          rw [hrest]
          -- No handle is in the list twice, so the mapping that went was the only one.
          intro m' hmem' hcb'
          have heq := honly m' (hperm.mem_iff.mpr (List.mem_cons_of_mem _ hmem')) hcb'
          rw [heq, ← hm'] at hmem'
          exact hconsistent.not_mem_rest hperm hmem'

theorem Mapped.congr (h : Mapped s cb) (howed : s'.owed cb = s.owed cb)
    (hhead : s'.aio_head = s.aio_head) (hops : s'.ops = s.ops) : Mapped s' cb := by
  obtain ⟨hmapped, hunowed⟩ := h
  refine ⟨?_, ?_⟩
  · rw [howed, hhead, hops]
    exact hmapped
  · rw [howed, hhead]
    exact hunowed

/-- A call that finishes an operation removes its mapping. -/
theorem Tracked.claimed (hconsistent : Consistent layout owner s) (h : Tracked s call.cb)
    (howed : s'.owed = call.claims s.owed) (hhead : s'.aio_head = call.rest s.aio_head)
    (hops : s'.ops = s.ops) : Mapped s' call.cb := by
  have hself : s'.owed call.cb = if call.api.finishes then none else s.owed call.cb := by
    rw [howed, Call.claims_self]
  rcases Tracked.handle hconsistent h with ⟨hnone, _, hrest⟩ | ⟨op, hop, _, _, hrest⟩
  · refine h.toMapped.congr ?_ (hhead.trans hrest) hops
    rw [hself, hnone, ite_self]
  · by_cases hapi : call.api.finishes = true
    · rw [if_pos hapi] at hself hrest
      refine ⟨?_, ?_⟩
      · rw [hself]
        nofun
      · rw [hhead]
        exact fun _ => hrest
    · rw [if_neg hapi] at hself hrest
      exact h.toMapped.congr hself (hhead.trans hrest) hops

theorem Consistent.threads (s' : System) (h : Consistent layout owner s) (howner : cb ≠ NULL → owner cb = t)
    (hothers : ∀ u, u ≠ t → s'.pc u = s.pc u) (ht : (s'.pc t).Tracks s' cb) (u : Nat) :
    (s'.pc u).Tracks s' cb := by
  by_cases hu : u = t
  · rw [hu]
    exact ht
  · rw [hothers u hu]
    exact Pc.tracks_of_not_concerns (h.not_concerns howner hu)

/-- An operation of which the client knows nothing is the first one. -/
theorem Op.Kept.before_of_handle {op : Op} (h : op.Kept s.ops) (hzero : UInt64.ofNat op.slot = 0) :
    op.before = 0 := by
  apply h.first_iff.mp
  rw [← toNat_ofNat_slot h.slot_lt, hzero]
  rfl

theorem Op.Kept.before_pos {op : Op} (h : op.Kept s.ops) (hne : UInt64.ofNat op.slot ≠ 0) :
    0 < op.before := by
  apply Nat.pos_of_ne_zero
  intro hzero
  rw [h.first_iff.mpr hzero] at hne
  exact hne rfl

/-- An answer without a handle is wrong exactly when an operation is owed. -/
theorem Call.unmapped_right_iff {op : Option Op} {freed : Bool}
    (hapi : call.api = .aio_error ∨ call.api = .aio_return)
    (hkept : ∀ o, op = some o → o.Kept s.ops ∧ o.before = 0) :
    Reply.Right ⟨call, call.unmapped, op, freed⟩ ↔ ∀ o, op = some o → 0 < o.before := by
  cases op with
  | none =>
    refine iff_of_true ?_ nofun
    rcases hapi with hapi | hapi
    · simp [Reply.Right, hapi]
    · simp [Reply.Right, Call.unmapped, fails, hapi]
  | some o =>
    obtain ⟨⟨⟨entry, _, hstored⟩, _, _⟩, hbefore⟩ := hkept o rfl
    have hnonneg := hstored.nonneg
    refine iff_of_false ?_ ?_
    · rcases hapi with hapi | hapi
      · have hstatus : o.status = 0 := if_neg (Int.not_lt.mpr hnonneg)
        simp [Reply.Right, Call.unmapped, returns, hapi, hstatus, EINVAL]
      · have hne : (-1 : Int) ≠ o.result := by omega
        simp [Reply.Right, Call.unmapped, fails, hapi, hne]
    · intro hpos
      have := hpos o rfl
      omega

/-- One more call has returned. -/
theorem Tracked.replies_concat {r : Reply} (h : Tracked s cb)
    (hr : r.call.api = .aio_error ∨ r.call.api = .aio_return →
      (r.Right ↔ ∀ op, r.op = some op → 0 < op.before)) (q : Reply) (hq : q ∈ s.replies ++ [r])
    (hcb : q.call.cb = cb) (hapi : q.call.api = .aio_error ∨ q.call.api = .aio_return) :
    q.Right ↔ ∀ op, q.op = some op → 0 < op.before := by
  rcases List.mem_append.mp hq with hq | hq
  · exact h.replies q hq hcb hapi
  · obtain rfl := List.mem_singleton.mp hq
    exact hr hapi

theorem not_asks_of_submits (hsubmits : call.api.submits = true) :
    ¬ (call.api = .aio_error ∨ call.api = .aio_return) := by
  rintro (h | h)
  · rw [h] at hsubmits
    cases hsubmits
  · rw [h] at hsubmits
    cases hsubmits

theorem Tracked.settle {answer : Answer} (hconsistent : Consistent layout owner s)
    (h : Tracked s call.cb) (hidle : s.pc t = .idle) (howner : call.cb ≠ NULL → owner call.cb = t)
    (hsends : call.Sends layout s.aio_head (aio_head, .done answer)) :
    Tracked (s.settle call aio_head answer) call.cb := by
  have hthreads := hconsistent.threads (s.settle call aio_head answer) howner
    (fun _ _ => rfl) (by simp only [System.settle, hidle]; trivial)
  cases hsends with
  | failed rc hapi =>
    have howed : (s.settle call s.aio_head (fails rc)).owed call.cb = s.owed call.cb := by
      simp only [System.settle, Call.claims_self, Api.finishes_of_submits hapi]
      rfl
    refine ⟨h.toMapped.congr howed rfl rfl, hthreads, h.replies_concat ?_⟩
    exact fun hasks => absurd hasks (not_asks_of_submits hapi)
  | unmapped hapi hhandle =>
    refine ⟨Tracked.claimed hconsistent h rfl rfl rfl, hthreads, h.replies_concat ?_⟩
    intro hasks
    refine Call.unmapped_right_iff (s := s) hasks ?_
    intro op howed
    rcases Tracked.handle hconsistent h with ⟨hnone, _⟩ | ⟨o, ho, hkept, hslot, _⟩
    · rw [hnone] at howed
      cases howed
    · rw [ho] at howed
      cases howed
      rw [hhandle] at hslot
      exact ⟨hkept, hkept.before_of_handle hslot.symm⟩

theorem Tracked.send {msg : Message} (hconsistent : Consistent layout owner s)
    (h : Tracked s call.cb) (howner : call.cb ≠ NULL → owner call.cb = t)
    (hsends : call.Sends layout s.aio_head (aio_head, .request msg))
    (hfresh : call.api.submits → s.owed call.cb = none) :
    Tracked (s.send t call aio_head msg) call.cb := by
  have hthreads (htracks : (Pc.waiting call msg (s.owed call.cb)).Tracks
      (s.send t call aio_head msg) call.cb) :=
    hconsistent.threads (s.send t call aio_head msg) howner
      (fun _ hu => Function.update_of_ne hu ..)
      (by simpa only [System.send, Function.update_self] using htracks)
  cases hsends with
  | submitted _ hapi hcb hreq =>
    have hfinishes := Api.finishes_of_submits hapi
    have howed : (s.send t call s.aio_head msg).owed call.cb = s.owed call.cb := by
      simp only [System.send, Call.claims_self, hfinishes]
      rfl
    refine ⟨h.toMapped.congr howed rfl rfl, hthreads ?_, h.replies⟩
    intro _
    rw [howed]
    refine ⟨hfresh, by simp [hfinishes], ?_⟩
    intro herror
    rw [herror] at hapi
    cases hapi
  | mapped _ hapi hcb hhandle hreq =>
    refine ⟨Tracked.claimed hconsistent h rfl rfl rfl, hthreads ?_, h.replies⟩
    have hne := hreq.handle_ne_zero hapi
    intro _
    rcases Tracked.handle hconsistent h with ⟨_, hzero, _⟩ | ⟨op, hop, hkept, hslot, _⟩
    · rw [hhandle, hzero] at hne
      exact absurd rfl hne
    · rw [hslot] at hhandle
      refine ⟨by simp [hapi], ?_, ?_⟩
      · intro hfinishes
        refine ⟨?_, op, hop, hkept, hhandle⟩
        simp only [System.send, Call.claims_self, if_pos hfinishes]
      · intro herror
        refine ⟨op, hop, ?_, hhandle⟩
        simp only [System.send, Call.claims_self, herror]
        exact hop

section Serve

variable {host : Host} {msg : Message}

/-- The operation of a submission gets slot 0 exactly when it is the first one. -/
theorem operation_kept {entry : Operation} {ops : Slab Operation} {made : Option Syscall}
    (hconsistent : Consistent layout owner s) (hinserts : host.Inserts s.ops s.accepted)
    (hstored : (call.operation host made s.accepted).Stored entry)
    (hops : ops = s.ops.insert host.key entry) :
    (call.operation host made s.accepted).Kept ops := by
  obtain ⟨hvacant, hkey, hfirst⟩ := hinserts
  refine ⟨⟨entry, ?_, hstored⟩, hkey, ?_, hfirst⟩
  · rw [hops]
    exact Function.update_self ..
  · intro hzero
    by_contra haccepted
    have hused := hconsistent.first (Nat.pos_of_ne_zero haccepted)
    have hzero : host.key = 0 := hzero
    rw [hzero, Option.isNone_iff_eq_none] at hvacant
    simp [hvacant] at hused

/-- The slot of a submission that was not refused. -/
theorem submission_kept (hconsistent : Consistent layout owner s) (hapi : call.api.submits = true)
    (hreq : call.Requests layout msg)
    (hanswers : ∀ made ∈ (dispatch layout host s.ops msg).made, host.Answers made)
    (hinserts : host.Inserts s.ops s.accepted) {k : Nat} (hk : k < 2 ^ 63)
    (hreply : (dispatch layout host s.ops msg).msg.mr0 = .ofNat k) :
    let op := call.operation host (dispatch layout host s.ops msg).made s.accepted
    op.slot = k ∧ op.Kept (dispatch layout host s.ops msg).ops := by
  cases dispatch_submitted s.accepted hapi hreq hanswers with
  | refused err herr _ herrno =>
    have hvalue := as_long_long_encode_errno_raw herr.1 herr.2
    rw [← herrno, hreply, as_long_long_ofNat hk] at hvalue
    have hpos := herr.1
    omega
  | accepted entry hstored hops hslot =>
    refine ⟨?_, operation_kept hconsistent hinserts hstored hops⟩
    rw [hreply] at hslot
    have hkey : host.key < 2 ^ 63 := hinserts.2.1
    rw [← toNat_ofNat_slot hk, hslot]
    exact (toNat_ofNat_slot hkey).symm

/-- The server answers a call about an operation that it still has. -/
theorem answered_of_kept {op : Op} (hapi : call.api.submits = false) (hreq : call.Requests layout msg)
    (hkept : op.Kept s.ops) (hslot : msg.mr1 = .ofNat op.slot) :
    let served := dispatch layout host s.ops msg
    call.Answered served.msg (some op) ((some op).all (·.Freed served.ops)) := by
  have hne : UInt64.ofNat op.slot ≠ 0 := by
    intro hzero
    rw [← hslot] at hzero
    exact hreq.handle_ne_zero hapi (by rw [hzero]; rfl)
  obtain ⟨entry, hentry, hstored⟩ := hkept.stored
  have hops := dispatch_ops host s.ops hapi hreq
  have hslot' : msg.mr1.toNat = op.slot := by rw [hslot, toNat_ofNat_slot hkept.slot_lt]
  have hentry : s.ops msg.mr1.toNat = some entry := by rw [hslot', hentry]
  refine ⟨op, rfl, hkept.before_pos hne, ?_⟩
  cases hcall : call.api with
  | aio_read | aio_write | aio_fsync =>
    rw [hcall] at hapi
    cases hapi
  | aio_error =>
    simp only [Reply.Right, Call.receive, dispatch_of_requests hreq, hcall]
    rw [aio_error_answers hentry hstored]
    exact ⟨hstored.made, rfl⟩
  | aio_return =>
    have hfreed : (dispatch layout host s.ops msg).ops op.slot = none := by
      rw [hops, if_pos (by rw [hcall]; rfl), hslot']
      exact Function.update_self ..
    simp only [Reply.Right, Call.receive, hcall, Option.all_some, Op.Freed, hfreed]
    simp only [dispatch_of_requests hreq, hcall]
    rw [aio_return_answers hentry hstored]
    refine ⟨hstored.made, rfl, ?_, rfl⟩
    intro hbuf
    exact if_neg hbuf
  | aio_cancel => simp only [Reply.Right, hcall]

theorem Tracked.serve {op : Option Op} (hconsistent : Consistent layout owner s)
    (h : Tracked s call.cb) (hwaiting : s.pc t = .waiting call msg op)
    (hanswers : ∀ made ∈ (dispatch layout host s.ops msg).made, host.Answers made)
    (hinserts : call.api.submits → host.Inserts s.ops s.accepted) :
    Tracked (s.serve layout t host call msg op) call.cb := by
  have hproper := hconsistent.proper t
  have htracks := h.threads t
  rw [hwaiting] at hproper htracks
  obtain ⟨hsubmits, hfinishes, herror⟩ := htracks rfl
  refine ⟨⟨?_, h.unowed⟩, hconsistent.threads _ (fun _ => hproper.1.2)
    (fun _ hu => Function.update_of_ne hu ..) ?_, h.replies⟩
  · intro o howed
    have hops : ∀ k, k ∈ s.holders none → (s.serve layout t host call msg op).ops k = s.ops k :=
      fun k hk => serve_ops_of_held hconsistent hwaiting hanswers hinserts (by simp) hk
    exact ⟨h.kept hops howed, (h.owed o howed).2⟩
  · simp only [System.serve, Function.update_self]
    intro _
    refine ⟨?_, ?_⟩
    · intro hapi
      refine ⟨hsubmits hapi, ?_⟩
      intro k hk hreply
      exact ⟨_, if_pos hapi,
        submission_kept hconsistent hapi hproper.2 hanswers (hinserts hapi) hk hreply⟩
    · intro hapi
      have hop : ∃ o, op = some o ∧ o.Kept s.ops ∧ msg.mr1 = .ofNat o.slot := by
        by_cases hfin : call.api.finishes = true
        · exact (hfinishes hfin).2
        · have hcall : call.api = .aio_error := by
            cases hcall : call.api <;> simp_all [Api.submits, Api.finishes]
          obtain ⟨o, ho, howed, hslot⟩ := herror hcall
          exact ⟨o, ho, (h.owed o howed).1, hslot⟩
      obtain ⟨o, rfl, hkept, hslot⟩ := hop
      simp only [hapi, Bool.false_eq_true, if_false]
      exact answered_of_kept hapi hproper.2 hkept hslot

end Serve

theorem Tracked.resume {reply : Message} {op : Option Op} {freed : Bool}
    (hconsistent : Consistent layout owner s) (h : Tracked s call.cb)
    (hwoken : s.pc t = .woken call reply op freed) :
    Tracked (s.resume t call reply op freed) call.cb := by
  have hproper := hconsistent.proper t
  have htracks := h.threads t
  rw [hwoken] at hproper htracks
  obtain ⟨hsubmits, hothers⟩ := htracks rfl
  have hthreads := hconsistent.threads (s.resume t call reply op freed) (fun _ => hproper.1.2)
    (fun _ hu => Function.update_of_ne hu ..)
    (by simp only [System.resume, Function.update_self]; trivial)
  rcases receive_cases hconsistent hwoken with ⟨hapi, err, _, _, hreceive⟩ |
    ⟨hapi, k, hk, hreply, hreceive⟩ | ⟨hapi, hreceive⟩
  · refine ⟨h.toMapped.congr ?_ ?_ rfl, hthreads, h.replies_concat ?_⟩
    · simp [System.resume, hreceive, fails]
    · simp only [System.resume, hreceive]
    · exact fun hasks => absurd hasks (not_asks_of_submits hapi)
  · obtain ⟨hnone, hslot⟩ := hsubmits hapi
    obtain ⟨o, rfl, rfl, hkept⟩ := hslot k hk hreply
    have howed : (s.resume t call reply (some o) freed).owed call.cb = some o := by
      simp [System.resume, hreceive, returns, hapi]
    have hhead : (s.resume t call reply (some o) freed).aio_head =
        ⟨call.cb, .ofNat o.slot⟩ :: s.aio_head := by
      simp only [System.resume, hreceive]
    refine ⟨⟨?_, ?_⟩, hthreads, h.replies_concat ?_⟩
    · rw [howed, hhead]
      rintro _ ⟨⟩
      refine ⟨hkept, List.mem_cons_self .., ?_⟩
      intro m hm hcb
      rcases List.mem_cons.mp hm with rfl | hm
      · rfl
      · exact absurd hcb (h.unowed hnone m hm)
    · rw [howed]
      intro hempty
      cases hempty
    · exact fun hasks => absurd hasks (not_asks_of_submits hapi)
  · refine ⟨h.toMapped.congr ?_ ?_ rfl, hthreads, h.replies_concat ?_⟩
    · simp [System.resume, hapi]
    · simp only [System.resume, hreceive]
    · intro _
      obtain ⟨o, rfl, hpos, hright⟩ := hothers hapi
      have hanswer : (call.receive reply s.aio_head).2 = (call.receive reply []).2 := by rw [hreceive]
      rw [← hanswer] at hright
      refine iff_of_true hright ?_
      rintro _ ⟨⟩
      exact hpos

theorem Tracked.step {event : Event} (hconsistent : Consistent layout owner s) (h : Tracked s cb)
    (hdoes : event.Does layout owner s s') (hfresh : ¬ event.Resubmits s cb) : Tracked s' cb := by
  by_cases hconcerns : event.Concerns s cb
  · cases hdoes with
    | settled hidle howner hsends =>
      cases hconcerns
      exact Tracked.settle hconsistent h hidle howner hsends
    | sent hidle howner hsends =>
      cases hconcerns
      refine Tracked.send hconsistent h howner hsends ?_
      -- Here alone the steps have to meet the condition.
      intro hapi
      by_contra howed
      exact hfresh ⟨hapi, rfl, howed⟩
    | served hwaiting hanswers hinserts =>
      rw [Event.Concerns, hwaiting] at hconcerns
      cases hconcerns
      exact Tracked.serve hconsistent h hwaiting hanswers hinserts
    | resumed hwoken =>
      rw [Event.Concerns, hwoken] at hconcerns
      cases hconcerns
      exact Tracked.resume hconsistent h hwoken
  · exact h.step_elsewhere hconsistent hdoes hconcerns

theorem tracked_of_run {past : List (System × Event)} (hrun : (system layout owner).Run past s)
    (hfresh : ∀ p ∈ past, ¬ p.2.Resubmits p.1 cb) : Tracked s cb := by
  induction hrun with
  | start hinit =>
    subst hinit
    refine ⟨⟨?_, ?_⟩, fun _ => trivial, ?_⟩
    · intro op howed
      cases howed
    · intro _ m hm
      cases hm
    · intro r hr
      cases hr
  | @call past s s' event hrun hallowed hstep ih =>
    obtain ⟨hpast, hnow⟩ := List.forall_mem_append.mp hfresh
    refine (ih hpast).step (consistent_of_run hrun) (Event.run_does hallowed hstep) ?_
    exact hnow _ (List.mem_singleton_self _)

/-- As long as a control block is not submitted again before its operation is returned
or cancelled, every `aio_error` and `aio_return` about it is right, but for those about
the operation that was accepted first: its slot is 0, which the client takes for no
mapping. -/
theorem delivered_once_iff (layout : Layout) (owner : Ptr → Nat) (past : List (System × Event))
    (s : System) (hrun : (system layout owner).Run past s) (cb : Ptr)
    (hfresh : ∀ p ∈ past, ¬ p.2.Resubmits p.1 cb) (r : Reply) (hr : r ∈ s.replies)
    (hcb : r.call.cb = cb) (hasks : r.call.api = .aio_error ∨ r.call.api = .aio_return) :
    r.Right ↔ ∀ op, r.op = some op → 0 < op.before :=
  (tracked_of_run hrun hfresh).replies r hr hcb hasks

instance (s : System) (cb : Ptr) (event : Event) : Decidable (event.Resubmits s cb) :=
  match event with
  | .enter .. => inferInstanceAs (Decidable (_ ∧ _ ∧ _ ≠ _))
  | .serve .. | .resume _ => inferInstanceAs (Decidable False)

/-- The control blocks of two threads: each reads four bytes. -/
def sampleCall (api : Api) (cb : Ptr) : Call := ⟨api, cb, ⟨3, 0x5000, 4, 0⟩, fun _ => 0⟩

def sampleOwner (cb : Ptr) : Nat := if cb = 0x1000 then 0 else 1

/-- Both threads read and collect what was read, the second one twice. -/
def sampleEvents : List Event :=
  [.enter 0 (sampleCall .aio_read 0x1000), .serve 0 ⟨4, 0, [1, 2, 3, 4], 0⟩, .resume 0,
    .enter 1 (sampleCall .aio_read 0x2000), .serve 1 ⟨2, 0, [5, 6], 1⟩, .resume 1,
    .enter 1 (sampleCall .aio_error 0x2000), .enter 0 (sampleCall .aio_error 0x1000),
    .serve 1 ⟨0, 0, [], 0⟩, .resume 1,
    .enter 1 (sampleCall .aio_return 0x2000), .enter 0 (sampleCall .aio_return 0x1000),
    .serve 1 ⟨0, 0, [], 0⟩, .resume 1, .enter 1 (sampleCall .aio_return 0x2000)]

def firstOp : Op := ⟨some (.pread 3 4 0), some (.pread 3 4 0), 4, 0, [1, 2, 3, 4], 0, 0⟩

def secondOp : Op := ⟨some (.pread 3 4 0), some (.pread 3 4 0), 2, 0, [5, 6], 1, 1⟩

/-- What a reply says about a call, as far as it can be compared. -/
def Reply.summary (r : Reply) : (Api × Ptr) × Answer × Option Op × Bool :=
  ((r.call.api, r.call.cb), r.answer, r.op, r.freed)

/-- The control block of the second submission gets the result and the data of its own operation. -/
theorem delivered_once_second :
    ∃ past s, (system lp64Layout sampleOwner).Run past s ∧ past.map Prod.snd = sampleEvents ∧
      ∃ r ∈ s.replies,
        r.summary = ((.aio_return, 0x2000), ⟨2, none, [5, 6]⟩, some secondOp, true) ∧ r.Right := by
  obtain ⟨past, s, hrun, hcalls, hfresh, hend⟩ := Machine.exists_run_of_reaches
    (M := system lp64Layout sampleOwner) (.start rfl)
    (fun s event => ¬ event.Resubmits s 0x2000)
    (fun s => ((.aio_return, 0x2000), ⟨2, none, [5, 6]⟩, some secondOp, true) ∈
      s.replies.map Reply.summary)
    sampleEvents (by decide +kernel)
  rw [decide_eq_true_eq, List.mem_map] at hend
  obtain ⟨r, hr, hsummary⟩ := hend
  simp only [Reply.summary, Prod.mk.injEq] at hsummary
  obtain ⟨⟨hapi, hcb⟩, hanswer, hop, hfreed⟩ := hsummary
  refine ⟨past, s, hrun, hcalls, r, hr, by simp only [Reply.summary, hapi, hcb, hanswer, hop, hfreed], ?_⟩
  refine (delivered_once_iff lp64Layout sampleOwner past s hrun 0x2000
    (fun p hp => of_decide_eq_true (hfresh p hp)) r hr hcb (Or.inr hapi)).mpr ?_
  rw [hop]
  rintro _ ⟨⟩
  decide

/-- The operation that was accepted first has slot 0: its result is lost, and the slot
stays taken. -/
theorem delivered_once_fails :
    ∃ past s, (system lp64Layout sampleOwner).Run past s ∧ past.map Prod.snd = sampleEvents ∧
      (∀ p ∈ past, ¬ p.2.Resubmits p.1 0x1000) ∧
      (∃ r ∈ s.replies,
        r.summary = ((.aio_error, 0x1000), ⟨EINVAL, none, []⟩, some firstOp, false) ∧ ¬ r.Right) ∧
      ∃ r ∈ s.replies,
        r.summary = ((.aio_return, 0x1000), ⟨-1, some EINVAL, []⟩, some firstOp, false) ∧
          ¬ r.Right := by
  obtain ⟨past, s, hrun, hcalls, hfresh, hend⟩ := Machine.exists_run_of_reaches
    (M := system lp64Layout sampleOwner) (.start rfl)
    (fun s event => ¬ event.Resubmits s 0x1000)
    (fun s => ((.aio_error, 0x1000), ⟨EINVAL, none, []⟩, some firstOp, false) ∈
        s.replies.map Reply.summary ∧
      ((.aio_return, 0x1000), ⟨-1, some EINVAL, []⟩, some firstOp, false) ∈
        s.replies.map Reply.summary)
    sampleEvents (by decide +kernel)
  rw [decide_eq_true_eq, List.mem_map, List.mem_map] at hend
  obtain ⟨⟨r, hr, hsummary⟩, r', hr', hsummary'⟩ := hend
  refine ⟨past, s, hrun, hcalls, fun p hp => of_decide_eq_true (hfresh p hp),
    ⟨r, hr, hsummary, ?_⟩, r', hr', hsummary', ?_⟩
  · simp only [Reply.summary, Prod.mk.injEq] at hsummary
    obtain ⟨⟨hapi, _⟩, hanswer, hop, _⟩ := hsummary
    simp only [Reply.Right, hapi, hop, hanswer]
    decide
  · simp only [Reply.summary, Prod.mk.injEq] at hsummary'
    obtain ⟨⟨hapi, _⟩, hanswer, hop, _⟩ := hsummary'
    simp only [Reply.Right, hapi, hop, hanswer]
    rintro ⟨_, hresult, _⟩
    exact absurd hresult (by decide)

end l4re_libc.aio
