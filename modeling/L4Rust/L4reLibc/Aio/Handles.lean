import L4Rust.L4reLibc.Aio.Exchange
import L4Rust.Library.Occupancy

open aio_server aio_server.libc

namespace l4re_libc.aio

variable {layout : Layout} {owner : Ptr → Nat} {s s' : System} {t : Nat} {call : Call}
  {aio_head aio_head' : List aio_mapping}

/-- The first mapping of a control block is found and removed, if there is one. -/
theorem remove_mapping_cases (cb : Ptr) (aio_head : List aio_mapping) :
    (find_mapping cb aio_head = none ∧ remove_mapping cb aio_head = (0, aio_head) ∧
      ∀ m ∈ aio_head, m.cb ≠ cb) ∨
    ∃ m rest, find_mapping cb aio_head = some m ∧ remove_mapping cb aio_head = (m.handle, rest) ∧
      m.cb = cb ∧ aio_head.Perm (m :: rest) := by
  induction aio_head with
  | nil => exact Or.inl ⟨rfl, rfl, nofun⟩
  | cons node next ih =>
    by_cases hnode : node.cb = cb
    · exact Or.inr ⟨node, next, if_pos hnode, if_pos hnode, hnode, .refl _⟩
    · have hfind : find_mapping cb (node :: next) = find_mapping cb next := if_neg hnode
      have hremove : remove_mapping cb (node :: next) =
        ((remove_mapping cb next).1, node :: (remove_mapping cb next).2) := if_neg hnode
      rw [hfind, hremove]
      rcases ih with ⟨hnone, hsame, hother⟩ | ⟨m, rest, hsome, hrest, hm, hperm⟩
      · rw [hsame]
        exact Or.inl ⟨hnone, rfl, List.forall_mem_cons.mpr ⟨hnode, hother⟩⟩
      · rw [hrest]
        exact Or.inr ⟨m, node :: rest, hsome, rfl, hm, (hperm.cons node).trans (.swap m node rest)⟩

/-- The handle that a call finds for its control block. -/
def Call.handle (call : Call) (aio_head : List aio_mapping) : UInt64 :=
  if call.cb = NULL then 0 else (remove_mapping call.cb aio_head).1

/-- The mappings that a call leaves. -/
def Call.rest (call : Call) (aio_head : List aio_mapping) : List aio_mapping :=
  if call.cb ≠ NULL ∧ call.api.finishes then (remove_mapping call.cb aio_head).2 else aio_head

/-- The answer of a call that finds no handle. -/
def Call.unmapped (call : Call) : Answer :=
  match call.api with
  | .aio_error => returns EINVAL
  | .aio_return => fails EINVAL
  | _ => returns AIO_ALLDONE

/-- What a call can do up to its IPC. -/
inductive Call.Sends (layout : Layout) (call : Call) (aio_head : List aio_mapping) :
    List aio_mapping × Sent → Prop
  | failed (rc : Int) (hapi : call.api.submits = true) : call.Sends layout aio_head (aio_head, .done (fails rc))
  | submitted (msg : Message) (hapi : call.api.submits = true) (hcb : call.cb ≠ NULL)
      (hreq : call.Requests layout msg) : call.Sends layout aio_head (aio_head, .request msg)
  | unmapped (hapi : call.api.submits = false) (hhandle : call.handle aio_head = 0) :
      call.Sends layout aio_head (call.rest aio_head, .done call.unmapped)
  | mapped (msg : Message) (hapi : call.api.submits = false) (hcb : call.cb ≠ NULL)
      (hhandle : msg.mr1 = call.handle aio_head) (hreq : call.Requests layout msg) :
      call.Sends layout aio_head (call.rest aio_head, .request msg)

theorem find_mapping_handle (cb : Ptr) (aio_head : List aio_mapping) :
    (find_mapping cb aio_head).elim 0 aio_mapping.handle = (remove_mapping cb aio_head).1 := by
  rcases remove_mapping_cases cb aio_head with ⟨hfind, hremove, _⟩ | ⟨m, rest, hfind, hremove, _⟩
  · rw [hfind, hremove]
    rfl
  · rw [hfind, hremove]
    rfl

theorem Call.sends_submission {request : Except Int Message} (hapi : call.api.submits = true)
    (hreq : ∀ msg, request = .ok msg → call.Requests layout msg) :
    call.Sends layout aio_head (submitting.send call request aio_head) := by
  unfold submitting.send
  by_cases hcb : call.cb = NULL
  · rw [if_pos hcb]
    exact .failed EINVAL hapi
  · rw [if_neg hcb]
    cases hrequest : request with
    | error rc => exact .failed rc hapi
    | ok msg => exact .submitted msg hapi hcb (hreq msg hrequest)

/-- The calls that look for a handle tell no mapping and the handle 0 not apart. -/
theorem Call.sends_handle {op : UInt64} {sending : List aio_mapping × Sent}
    (hapi : call.api.submits = false)
    (hreq : ∀ handle, handle ≠ 0 → call.Requests layout (call_simple.send op handle))
    (hsending : sending = (call.rest aio_head,
      if call.handle aio_head = 0 then .done call.unmapped
      else .request (call_simple.send op (call.handle aio_head)))) :
    call.Sends layout aio_head sending := by
  rw [hsending]
  by_cases hhandle : call.handle aio_head = 0
  · rw [if_pos hhandle]
    exact .unmapped hapi hhandle
  · rw [if_neg hhandle]
    refine .mapped _ hapi ?_ rfl (hreq _ hhandle)
    intro hcb
    exact hhandle (if_pos hcb)

theorem aio_error_send (hapi : call.api = .aio_error) :
    aio_error.send call aio_head = (call.rest aio_head,
      if call.handle aio_head = 0 then .done call.unmapped
      else .request (call_simple.send opcode.AIO_ERROR (call.handle aio_head))) := by
  unfold aio_error.send Call.rest Call.handle Call.unmapped
  by_cases hcb : call.cb = NULL
  · simp [hcb, hapi, Api.finishes]
  · simp only [hcb, hapi, Api.finishes, find_mapping_handle, if_false]
    split <;> simp

theorem finishing_send {op : UInt64} {missing : Answer} (hapi : call.api.finishes = true)
    (hmissing : call.unmapped = missing) :
    finishing.send op missing call aio_head = (call.rest aio_head,
      if call.handle aio_head = 0 then .done call.unmapped
      else .request (call_simple.send op (call.handle aio_head))) := by
  rw [hmissing]
  unfold finishing.send Call.rest Call.handle
  by_cases hcb : call.cb = NULL
  · simp [hcb]
  · simp only [hcb, hapi, if_false]
    split <;> simp [hcb]

theorem Call.send_sends (hlen : call.api = .aio_write → call.aiocb.aio_nbytes.toNat < 2 ^ 63) :
    call.Sends layout aio_head (call.send layout aio_head) := by
  unfold Call.send
  cases hapi : call.api with
  | aio_read =>
    refine Call.sends_submission (by rw [hapi]; rfl) ?_
    intro msg hmsg
    simpa only [Call.Requests, hapi] using hmsg
  | aio_write =>
    refine Call.sends_submission (by rw [hapi]; rfl) ?_
    intro msg hmsg
    simpa only [Call.Requests, hapi] using ⟨hmsg, hlen hapi⟩
  | aio_fsync op =>
    refine Call.sends_submission (by rw [hapi]; rfl) ?_
    intro msg hmsg
    simpa only [Call.Requests, hapi] using hmsg
  | aio_error =>
    refine Call.sends_handle (by rw [hapi]; rfl) ?_ (aio_error_send hapi)
    intro handle hhandle
    simpa only [Call.Requests, hapi] using ⟨rfl, hhandle⟩
  | aio_return =>
    refine Call.sends_handle (by rw [hapi]; rfl) ?_
      (finishing_send (by rw [hapi]; rfl) (by rw [Call.unmapped, hapi]))
    intro handle hhandle
    simpa only [Call.Requests, hapi] using ⟨rfl, hhandle⟩
  | aio_cancel =>
    refine Call.sends_handle (by rw [hapi]; rfl) ?_
      (finishing_send (by rw [hapi]; rfl) (by rw [Call.unmapped, hapi]))
    intro handle hhandle
    simpa only [Call.Requests, hapi] using ⟨rfl, hhandle⟩

/-- What an event does: a call starts, and returns at once or sends a request, the
server handles a request, or a call goes on with the reply. -/
inductive Event.Does (layout : Layout) (owner : Ptr → Nat) (s : System) : Event → System → Prop
  | settled {t : Nat} {call : Call} {aio_head : List aio_mapping} {answer : Answer}
      (hidle : s.pc t = .idle) (howner : call.cb ≠ NULL → owner call.cb = t)
      (hsends : call.Sends layout s.aio_head (aio_head, .done answer)) :
      Event.Does layout owner s (.enter t call) (s.settle call aio_head answer)
  | sent {t : Nat} {call : Call} {aio_head : List aio_mapping} {msg : Message}
      (hidle : s.pc t = .idle) (howner : call.cb ≠ NULL → owner call.cb = t)
      (hsends : call.Sends layout s.aio_head (aio_head, .request msg)) :
      Event.Does layout owner s (.enter t call) (s.send t call aio_head msg)
  | served {t : Nat} {host : Host} {call : Call} {msg : Message} {op : Option Op}
      (hwaiting : s.pc t = .waiting call msg op)
      (hanswers : ∀ made ∈ (dispatch layout host s.ops msg).made, host.Answers made)
      (hinserts : call.api.submits → host.Inserts s.ops s.accepted) :
      Event.Does layout owner s (.serve t host) (s.serve layout t host call msg op)
  | resumed {t : Nat} {call : Call} {reply : Message} {op : Option Op} {freed : Bool}
      (hwoken : s.pc t = .woken call reply op freed) :
      Event.Does layout owner s (.resume t) (s.resume t call reply op freed)

theorem Event.run_does {event : Event} (hallowed : event.Allowed layout owner s)
    (h : event.run layout s = some s') : event.Does layout owner s s' := by
  cases event with
  | enter t call =>
    simp only [Event.Allowed] at hallowed
    cases hpc : s.pc t with
    | waiting | woken =>
      rw [hpc] at hallowed
      exact hallowed.elim
    | idle =>
      rw [hpc] at hallowed
      have howner (hcb : call.cb ≠ NULL) : owner call.cb = t := (hallowed.1 hcb).1
      have hsends : call.Sends layout s.aio_head (call.send layout s.aio_head) :=
        Call.send_sends hallowed.2
      simp only [Event.run] at h
      generalize call.send layout s.aio_head = sending at h hsends
      obtain ⟨aio_head, sent⟩ := sending
      cases sent with
      | done answer =>
        cases h
        exact .settled hpc howner hsends
      | request msg =>
        cases h
        exact .sent hpc howner hsends
  | serve t host =>
    simp only [Event.Allowed] at hallowed
    simp only [Event.run] at h
    cases hpc : s.pc t with
    | idle | woken =>
      rw [hpc] at hallowed
      exact hallowed.elim
    | waiting call msg op =>
      rw [hpc] at hallowed h
      cases h
      exact .served hpc hallowed.1 hallowed.2
  | resume t =>
    simp only [Event.Allowed] at hallowed
    simp only [Event.run] at h
    cases hpc : s.pc t with
    | idle | waiting =>
      rw [hpc] at hallowed
      exact hallowed.elim
    | woken call reply op freed =>
      rw [hpc] at h
      cases h
      exact .resumed hpc

/-- The slot that a thread has in its hands: one that it gives back, or one that it
has got and not yet mapped. -/
def Pc.slot : Pc → Option Nat
  | .idle => none
  | .waiting call msg _ => if call.api.finishes then some msg.mr1.toNat else none
  | .woken call reply _ _ =>
    if call.api.submits ∧ 0 ≤ as_long_long reply.mr0 then some reply.mr0.toNat else none

/-- Where the client keeps the slots that it knows: in the list, or in a thread's
hands. -/
def System.holders (s : System) : Occupancy (Option Nat) Nat
  | none => s.aio_head.map fun m => m.handle.toNat
  | some t => (s.pc t).slot.toList

/-- The first word of a reply to a submission. -/
def Replies (w : UInt64) : Prop :=
  (∃ err, IsErrno err ∧ w = encode_errno_raw err) ∨ ∃ k, k < 2 ^ 63 ∧ w = .ofNat k

/-- A thread works on control blocks of its own and keeps to the protocol. -/
def Pc.Proper (layout : Layout) (owner : Ptr → Nat) (t : Nat) : Pc → Prop
  | .idle => True
  | .waiting call msg _ => (call.cb ≠ NULL ∧ owner call.cb = t) ∧ call.Requests layout msg
  | .woken call reply _ _ =>
    (call.cb ≠ NULL ∧ owner call.cb = t) ∧ (call.api.submits → Replies reply.mr0)

/-- The client and the server agree on the slots, and slot 0 is never given back. -/
structure Consistent (layout : Layout) (owner : Ptr → Nat) (s : System) : Prop where
  exclusive : Occupancy.Exclusive (fun k => (s.ops k).isSome) s.holders
  proper : ∀ t, (s.pc t).Proper layout owner t
  mapped : ∀ m ∈ s.aio_head, m.cb ≠ NULL
  first : 0 < s.accepted → (s.ops 0).isSome

theorem holders_of_ne {pc : Pc} (hpc : s'.pc = Function.update s.pc t pc) {p : Option Nat}
    (hlist : p ≠ none) (hthread : p ≠ some t) : s'.holders p = s.holders p := by
  cases p with
  | none => exact absurd rfl hlist
  | some u =>
    have hu : u ≠ t := by
      rintro rfl
      exact hthread rfl
    simp only [System.holders, hpc, Function.update_of_ne hu]

theorem holders_thread {pc : Pc} (hpc : s'.pc = Function.update s.pc t pc) :
    s'.holders (some t) = pc.slot.toList := by
  simp only [System.holders, hpc, Function.update_self]

theorem forall_proper {pc : Pc} (h : ∀ u, (s.pc u).Proper layout owner u)
    (hpc : s'.pc = Function.update s.pc t pc) (hproper : pc.Proper layout owner t) (u : Nat) :
    (s'.pc u).Proper layout owner u := by
  rw [hpc]
  by_cases hu : u = t
  · subst hu
    rwa [Function.update_self]
  · rw [Function.update_of_ne hu]
    exact h u

/-- A thread goes on without a change to the slots in its hands. -/
theorem holders_same {pc : Pc} (hpc : s'.pc = Function.update s.pc t pc)
    (hhead : s'.aio_head = s.aio_head) (hslot : pc.slot = (s.pc t).slot) :
    Occupancy.Same s.holders s'.holders := by
  apply Occupancy.Same.of_perm
  intro p
  by_cases hp : p = some t
  · subst hp
    rw [holders_thread hpc, hslot]
    exact .refl _
  · cases p with
    | none => simp only [System.holders, hhead, List.Perm.refl]
    | some u => rw [holders_of_ne hpc (by simp) hp]

/-- A slot comes into a thread's hands from outside. -/
theorem holders_added (s s' : System) {pc : Pc} {k : Nat} (hpc : s'.pc = Function.update s.pc t pc)
    (hhead : s'.aio_head = s.aio_head) (hbefore : (s.pc t).slot = none) (hslot : pc.slot = some k) :
    Occupancy.Added s.holders (some t) k s'.holders := by
  apply Occupancy.Added.of_perm
  · rw [holders_thread hpc, hslot]
    simp [System.holders, hbefore]
  · intro p hp
    cases p with
    | none => simp only [System.holders, hhead, List.Perm.refl]
    | some u => rw [holders_of_ne hpc (by simp) hp]

/-- A slot goes from the list into a thread's hands. -/
theorem holders_taken (s s' : System) {pc : Pc} {m : aio_mapping} (hpc : s'.pc = Function.update s.pc t pc)
    (hhead : s.aio_head.Perm (m :: s'.aio_head)) (hbefore : (s.pc t).slot = none)
    (hslot : pc.slot = some m.handle.toNat) :
    Occupancy.Moved s.holders none (some t) m.handle.toNat s'.holders := by
  refine Occupancy.Moved.of_perm (by simp) ?_ ?_ ?_
  · exact hhead.map fun m => m.handle.toNat
  · rw [holders_thread hpc, hslot]
    simp [System.holders, hbefore]
  · intro p hlist hthread
    exact holders_of_ne hpc hlist hthread

theorem update_back {pc : Pc} (hpc : s'.pc = Function.update s.pc t pc) :
    s.pc = Function.update s'.pc t (s.pc t) := by
  rw [hpc, Function.update_idem, Function.update_eq_self]

theorem Call.rest_cases (call : Call) (aio_head : List aio_mapping) :
    (call.rest aio_head = aio_head ∧ (call.api.finishes = true → call.handle aio_head = 0)) ∨
      (call.api.finishes = true ∧ ∃ m, aio_head.Perm (m :: call.rest aio_head) ∧
        call.handle aio_head = m.handle ∧ m.cb = call.cb) := by
  unfold Call.rest Call.handle
  by_cases hcb : call.cb = NULL
  · simp [hcb]
  · by_cases hapi : call.api.finishes = true
    · simp only [hcb, hapi, if_false, ne_eq, not_false_eq_true, and_true, if_true, forall_const, true_and]
      rcases remove_mapping_cases call.cb aio_head with ⟨_, hremove, _⟩ | ⟨m, rest, _, hremove, hm, hperm⟩
      · rw [hremove]
        exact Or.inl ⟨rfl, rfl⟩
      · rw [hremove]
        exact Or.inr ⟨m, hperm, rfl, hm⟩
    · simp [hapi]

theorem Call.mem_of_mem_rest (call : Call) {m : aio_mapping} (h : m ∈ call.rest aio_head) :
    m ∈ aio_head := by
  rcases call.rest_cases aio_head with ⟨hrest, _⟩ | ⟨_, node, hperm, _⟩
  · rwa [hrest] at h
  · exact hperm.mem_iff.mpr (List.mem_cons_of_mem _ h)

theorem holders_list {m : aio_mapping} (hpc : s'.pc = s.pc)
    (hhead : s.aio_head.Perm (m :: s'.aio_head)) :
    Occupancy.Added s'.holders none m.handle.toNat s.holders := by
  apply Occupancy.Added.of_perm
  · exact hhead.map fun m => m.handle.toNat
  · intro p hp
    cases p with
    | none => exact absurd rfl hp
    | some u => simp only [System.holders, hpc, List.Perm.refl]

theorem settle_consistent {answer : Answer} (h : Consistent layout owner s)
    (hsends : call.Sends layout s.aio_head (aio_head, .done answer)) :
    Consistent layout owner (s.settle call aio_head answer) := by
  cases hsends with
  | failed rc => exact ⟨h.exclusive, h.proper, h.mapped, h.first⟩
  | unmapped _ hhandle =>
    refine ⟨?_, h.proper, fun m hm => h.mapped m (call.mem_of_mem_rest hm), h.first⟩
    rcases call.rest_cases s.aio_head with ⟨hrest, _⟩ | ⟨_, m, hperm, _⟩
    · rw [hrest]
      exact h.exclusive
    · exact h.exclusive.removed (holders_list rfl hperm) fun _ _ hused => hused

theorem toNat_ofNat_slot {k : Nat} (hk : k < 2 ^ 63) : (UInt64.ofNat k).toNat = k :=
  UInt64.toNat_ofNat_of_lt' (Nat.lt_trans hk (by decide))

theorem Pc.slot_waiting_of_not_finishes {msg : Message} {op : Option Op} (h : call.api.finishes = false) :
    (Pc.waiting call msg op).slot = none := by
  simp [Pc.slot, h]

theorem Pc.slot_woken_of_not_submits {reply : Message} {op : Option Op} {freed : Bool}
    (h : call.api.submits = false) : (Pc.woken call reply op freed).slot = none := by
  simp [Pc.slot, h]

theorem Pc.slot_woken_of_errno {reply : Message} {op : Option Op} {freed : Bool} {err : Int}
    (herr : IsErrno err) (hreply : reply.mr0 = encode_errno_raw err) :
    (Pc.woken call reply op freed).slot = none := by
  obtain ⟨hpos, hlt⟩ := herr
  have hneg : ¬ 0 ≤ as_long_long reply.mr0 := by
    rw [hreply, as_long_long_encode_errno_raw hpos hlt]
    omega
  simp [Pc.slot, hneg]

theorem Pc.slot_woken_of_slot {reply : Message} {op : Option Op} {freed : Bool} {k : Nat}
    (hsubmits : call.api.submits = true) (hk : k < 2 ^ 63) (hreply : reply.mr0 = .ofNat k) :
    (Pc.woken call reply op freed).slot = some k := by
  have hvalue : 0 ≤ as_long_long reply.mr0 := by
    rw [hreply, as_long_long_ofNat hk]
    omega
  have hnat : reply.mr0.toNat = k := by rw [hreply, toNat_ofNat_slot hk]
  rw [Pc.slot, if_pos ⟨hsubmits, hvalue⟩, hnat]

theorem send_consistent {msg : Message} (h : Consistent layout owner s) (hidle : s.pc t = .idle)
    (howner : call.cb ≠ NULL → owner call.cb = t)
    (hsends : call.Sends layout s.aio_head (aio_head, .request msg)) :
    Consistent layout owner (s.send t call aio_head msg) := by
  have hbefore : (s.pc t).slot = none := by rw [hidle]; rfl
  cases hsends with
  | submitted _ hapi hcb hreq =>
    refine ⟨h.exclusive.same (holders_same rfl rfl ?_),
      forall_proper h.proper rfl ⟨⟨hcb, howner hcb⟩, hreq⟩, h.mapped, h.first⟩
    rw [hbefore, Pc.slot_waiting_of_not_finishes (Api.finishes_of_submits hapi)]
  | mapped _ hapi hcb hhandle hreq =>
    refine ⟨?_, forall_proper h.proper rfl ⟨⟨hcb, howner hcb⟩, hreq⟩,
      fun m hm => h.mapped m (call.mem_of_mem_rest hm), h.first⟩
    rcases call.rest_cases s.aio_head with ⟨hrest, hzero⟩ | ⟨hfinishes, m, hperm, hm, _⟩
    · have hfinishes : call.api.finishes = false := by
        by_contra hfinishes
        rw [hzero (by simpa using hfinishes)] at hhandle
        exact hreq.handle_ne_zero hapi (by rw [hhandle]; rfl)
      refine h.exclusive.same (holders_same rfl hrest ?_)
      rw [hbefore, Pc.slot_waiting_of_not_finishes hfinishes]
    · refine h.exclusive.moved (holders_taken s _ rfl hperm hbefore ?_)
      simp [Pc.slot, hfinishes, hhandle, hm]

theorem isSome_insert_of_isSome {ops : Slab Operation} {key k : Nat} {entry : Operation}
    (h : (ops k).isSome) : (ops.insert key entry k).isSome := by
  rw [Slab.insert, Function.update_apply]
  split
  · rfl
  · exact h

section Serve

variable {host : Host} {msg : Message} {op : Option Op}

/-- A submission gets a slot that nobody has, or none. -/
theorem serve_consistent_of_submits (h : Consistent layout owner s)
    (hwaiting : s.pc t = .waiting call msg op) (hapi : call.api.submits = true)
    (hanswers : ∀ made ∈ (dispatch layout host s.ops msg).made, host.Answers made)
    (hinserts : host.Inserts s.ops s.accepted) :
    Consistent layout owner (s.serve layout t host call msg op) := by
  have hproper := h.proper t
  rw [hwaiting] at hproper
  obtain ⟨howner, hreq⟩ := hproper
  have hbefore : (s.pc t).slot = none := by
    rw [hwaiting, Pc.slot_waiting_of_not_finishes (Api.finishes_of_submits hapi)]
  obtain ⟨hvacant, hkey, hfirst⟩ := hinserts
  have hvacant : s.ops host.key = none := Option.isNone_iff_eq_none.mp hvacant
  cases dispatch_submitted s.accepted hapi hreq hanswers with
  | refused err herr hops hreply =>
    refine ⟨?_, forall_proper h.proper rfl ⟨howner, fun _ => Or.inl ⟨err, herr, hreply⟩⟩,
      h.mapped, ?_⟩
    · simp only [System.serve, hops]
      refine h.exclusive.same (holders_same rfl rfl ?_)
      rw [hbefore, Pc.slot_woken_of_errno herr hreply]
    · simp only [System.serve, hops, hvacant, Option.isSome_none, Bool.false_eq_true, and_false,
        if_false]
      exact h.first
  | accepted entry _ hops hreply =>
    refine ⟨?_, forall_proper h.proper rfl ⟨howner, fun _ => Or.inr ⟨host.key, hkey, hreply⟩⟩,
      h.mapped, ?_⟩
    · refine h.exclusive.added (holders_added s _ rfl rfl hbefore
        (Pc.slot_woken_of_slot hapi hkey hreply)) ?_ ?_ ?_
      · simp [hvacant]
      · intro k hk
        simp only [System.serve, hops]
        exact isSome_insert_of_isSome hk
      · simp [System.serve, hops, Slab.insert, Call.operation]
    · intro _
      simp only [System.serve, hops]
      by_cases hnone : s.accepted = 0
      · simp [Call.operation, hfirst hnone, Slab.insert]
      · exact isSome_insert_of_isSome (h.first (Nat.pos_of_ne_zero hnone))

/-- A call that finishes an operation gives its slot back, which is never slot 0. -/
theorem serve_consistent_of_not_submits (h : Consistent layout owner s)
    (hwaiting : s.pc t = .waiting call msg op) (hapi : call.api.submits = false) :
    Consistent layout owner (s.serve layout t host call msg op) := by
  have hproper := h.proper t
  rw [hwaiting] at hproper
  obtain ⟨howner, hreq⟩ := hproper
  have hops := dispatch_ops host s.ops hapi hreq
  have hafter : ((s.serve layout t host call msg op).pc t).slot = none := by
    simp only [System.serve, Function.update_self]
    exact Pc.slot_woken_of_not_submits hapi
  have haccepted : (s.serve layout t host call msg op).accepted = s.accepted := by
    simp [System.serve, hapi]
  by_cases hfinishes : call.api.finishes = true
  · rw [if_pos hfinishes] at hops
    have hne := hreq.handle_ne_zero hapi
    refine ⟨?_, forall_proper h.proper rfl ⟨howner, by simp [hapi]⟩, h.mapped, ?_⟩
    · refine h.exclusive.removed
        (holders_added _ s (update_back rfl) rfl hafter (k := msg.mr1.toNat) ?_) ?_
      · simp [hwaiting, Pc.slot, hfinishes]
      · intro k hk hused
        simp only [System.serve, hops, Slab.remove, Function.update_of_ne hk]
        exact hused
    · rw [haccepted]
      intro hpos
      simp only [System.serve, hops, Slab.remove, Function.update_of_ne hne.symm]
      exact h.first hpos
  · rw [if_neg hfinishes] at hops
    refine ⟨?_, forall_proper h.proper rfl ⟨howner, by simp [hapi]⟩, h.mapped, ?_⟩
    · simp only [System.serve, hops]
      refine h.exclusive.same (holders_same rfl rfl ?_)
      rw [hwaiting, Pc.slot_waiting_of_not_finishes (by simpa using hfinishes),
        Pc.slot_woken_of_not_submits hapi]
    · rw [haccepted]
      simp only [System.serve, hops]
      exact h.first

theorem serve_consistent (h : Consistent layout owner s) (hwaiting : s.pc t = .waiting call msg op)
    (hanswers : ∀ made ∈ (dispatch layout host s.ops msg).made, host.Answers made)
    (hinserts : call.api.submits → host.Inserts s.ops s.accepted) :
    Consistent layout owner (s.serve layout t host call msg op) := by
  cases hapi : call.api.submits with
  | true => exact serve_consistent_of_submits h hwaiting hapi hanswers (hinserts hapi)
  | false => exact serve_consistent_of_not_submits h hwaiting hapi

end Serve

/-- How a call goes on: a submission fails or is mapped, and the other calls leave the
mappings alone. -/
theorem receive_cases {reply : Message} {op : Option Op} {freed : Bool} (h : Consistent layout owner s)
    (hwoken : s.pc t = .woken call reply op freed) :
    (call.api.submits = true ∧ ∃ err, IsErrno err ∧ reply.mr0 = encode_errno_raw err ∧
      call.receive reply s.aio_head = (s.aio_head, fails err)) ∨
    (call.api.submits = true ∧ ∃ k, k < 2 ^ 63 ∧ reply.mr0 = .ofNat k ∧
      call.receive reply s.aio_head = (⟨call.cb, .ofNat k⟩ :: s.aio_head, returns 0)) ∨
    (call.api.submits = false ∧
      call.receive reply s.aio_head = (s.aio_head, (call.receive reply []).2)) := by
  have hproper := h.proper t
  rw [hwoken] at hproper
  by_cases hapi : call.api.submits = true
  · rcases hproper.2 hapi with ⟨err, herr, hreply⟩ | ⟨k, hk, hreply⟩
    · exact Or.inl ⟨hapi, err, herr, hreply, Call.receive_of_errno hapi herr hreply⟩
    · exact Or.inr (Or.inl ⟨hapi, k, hk, hreply, Call.receive_of_slot hapi hk hreply⟩)
  · have hapi : call.api.submits = false := by simpa using hapi
    exact Or.inr (Or.inr ⟨hapi, Call.receive_of_not_submits hapi⟩)

theorem resume_consistent {reply : Message} {op : Option Op} {freed : Bool}
    (h : Consistent layout owner s) (hwoken : s.pc t = .woken call reply op freed) :
    Consistent layout owner (s.resume t call reply op freed) := by
  have hproper := h.proper t
  rw [hwoken] at hproper
  rcases receive_cases h hwoken with ⟨hapi, err, herr, hreply, hreceive⟩ |
    ⟨hapi, k, hk, hreply, hreceive⟩ | ⟨hapi, hreceive⟩
  · refine ⟨?_, forall_proper h.proper rfl trivial, ?_, h.first⟩
    · refine h.exclusive.same (holders_same rfl ?_ ?_)
      · simp only [System.resume, hreceive]
      · rw [hwoken, Pc.slot_woken_of_errno herr hreply]
        rfl
    · simp only [System.resume, hreceive]
      exact h.mapped
  · have hhead : (s.resume t call reply op freed).aio_head = ⟨call.cb, .ofNat k⟩ :: s.aio_head := by
      simp only [System.resume, hreceive]
    refine ⟨?_, forall_proper h.proper rfl trivial, ?_, h.first⟩
    · have htaken := holders_taken (s.resume t call reply op freed) s (t := t)
        (m := ⟨call.cb, .ofNat k⟩) (update_back rfl) (by rw [hhead]) ?_ ?_
      · exact h.exclusive.moved htaken.symm
      · simp [System.resume, Pc.slot]
      · rw [hwoken, Pc.slot_woken_of_slot hapi hk hreply, toNat_ofNat_slot hk]
    · rw [hhead, List.forall_mem_cons]
      exact ⟨hproper.1.1, h.mapped⟩
  · refine ⟨?_, forall_proper h.proper rfl trivial, ?_, h.first⟩
    · refine h.exclusive.same (holders_same rfl ?_ ?_)
      · simp only [System.resume, hreceive]
      · rw [hwoken, Pc.slot_woken_of_not_submits hapi]
        rfl
    · simp only [System.resume, hreceive]
      exact h.mapped

theorem consistent_of_run {past : List (System × Event)} (hrun : (system layout owner).Run past s) :
    Consistent layout owner s := by
  refine hrun.invariant ?_ ?_
  · rintro s rfl
    refine ⟨?_, fun _ => trivial, nofun, nofun⟩
    rintro k ⟨p, hk⟩
    cases p with
    | none => cases hk
    | some t => cases hk
  · intro s event s' h hallowed hstep
    cases Event.run_does hallowed hstep with
    | settled _ _ hsends => exact settle_consistent h hsends
    | sent hidle howner hsends => exact send_consistent h hidle howner hsends
    | served hwaiting hanswers hinserts => exact serve_consistent h hwaiting hanswers hinserts
    | resumed hwoken => exact resume_consistent h hwoken

end l4re_libc.aio
