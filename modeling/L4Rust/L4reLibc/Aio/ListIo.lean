import L4Rust.L4reLibc.Aio.Completed
import L4Rust.L4reLibc.Aio.Delivery

open aio_server aio_server.libc

namespace l4re_libc.aio

def LIO_READ : Int32 := 0
def LIO_WRITE : Int32 := 1
def LIO_NOP : Int32 := 2
def LIO_WAIT : Int32 := 0

/-- An entry of a list: a control block, with the operation that it is listed for and the bytes at
`aio_buf`. -/
structure lio_entry where
  cb : Ptr
  aiocb : aiocb
  aio_lio_opcode : Int32
  buf : Nat → UInt8

/-- The first loop is at an entry to submit, the second one at an entry to ask for, or they are over. -/
inductive Lio where
  | submitting (left : List lio_entry)
  | waiting (left : List lio_entry)
  | returned (answer : Answer)

/-- The second loop up to its next call. -/
def lio_listio.wait : List lio_entry → Lio
  | [] => .returned (returns 0)
  | entry :: left => if entry.cb = NULL then wait left else .waiting (entry :: left)

/-- The first loop up to its next call. -/
def lio_listio.submit (mode : Int32) (list : List lio_entry) : List lio_entry → Lio
  | [] => if mode = LIO_WAIT then lio_listio.wait list else .returned (returns 0)
  | entry :: left =>
    if entry.cb = NULL then submit mode list left
    else if entry.aio_lio_opcode = LIO_WRITE ∨ entry.aio_lio_opcode = LIO_READ then
      .submitting (entry :: left)
    else if entry.aio_lio_opcode = LIO_NOP then submit mode list left
    else .returned (fails EINVAL)

/-- The entries that a list of a length has. -/
def entries (list : Option (Nat → lio_entry)) (nent : Int32) : List lio_entry :=
  match list with
  | some list => (List.range nent.toInt.toNat).map list
  | none => []

/-- `lio_listio` up to its first call. -/
def lio_listio (mode : Int32) (list : Option (Nat → lio_entry)) (nent : Int32) : Lio :=
  if nent < 0 then .returned (fails EINVAL)
  else
    match list with
    | none => .returned (returns 0)
    | some _ => lio_listio.submit mode (entries list nent) (entries list nent)

def lio_entry.submission (entry : lio_entry) : Call :=
  ⟨if entry.aio_lio_opcode = LIO_WRITE then .aio_write else .aio_read, entry.cb, entry.aiocb, entry.buf⟩

def lio_entry.status (entry : lio_entry) : Call := ⟨.aio_error, entry.cb, entry.aiocb, entry.buf⟩

/-- The next call. -/
def Lio.call : Lio → Option Call
  | .submitting (entry :: _) => some entry.submission
  | .waiting (entry :: _) => some entry.status
  | .submitting [] | .waiting [] | .returned _ => none

/-- What follows a call up to the next. -/
def Lio.resume (mode : Int32) (list : List lio_entry) (answer : Answer) : Lio → Lio
  | .submitting (_ :: left) =>
    if answer.value ≠ 0 then .returned ⟨-1, answer.errno, []⟩ else lio_listio.submit mode list left
  | .waiting (entry :: left) =>
    if answer.value = EINPROGRESS then .waiting (entry :: left) else lio_listio.wait left
  | lio => lio

section Loops

/-- The entries that the first loop goes past. -/
def lio_entry.Known (entry : lio_entry) : Prop :=
  entry.cb = NULL ∨ entry.aio_lio_opcode = LIO_WRITE ∨ entry.aio_lio_opcode = LIO_READ ∨
    entry.aio_lio_opcode = LIO_NOP

/-- The entries that are submitted. -/
def lio_entry.Submits (entry : lio_entry) : Prop :=
  entry.cb ≠ NULL ∧ (entry.aio_lio_opcode = LIO_WRITE ∨ entry.aio_lio_opcode = LIO_READ)

instance (entry : lio_entry) : Decidable entry.Known := inferInstanceAs (Decidable (_ ∨ _ ∨ _ ∨ _))

instance (entry : lio_entry) : Decidable entry.Submits := inferInstanceAs (Decidable (_ ∧ (_ ∨ _)))

/-- The submissions of a list, in order. -/
def submissions (list : List lio_entry) : List Call :=
  (list.filter fun entry => entry.Submits).map lio_entry.submission

/-- The questions after the status of each control block, in order. -/
def statuses (list : List lio_entry) : List Call :=
  (list.filter fun entry => entry.cb ≠ NULL).map lio_entry.status

/-- A call and its answer. -/
abbrev Made : Type := Call × Answer

/-- The calls made are these, and all of them succeeded. -/
def Succeeded (calls : List Call) (past : List Made) : Prop :=
  past.map Prod.fst = calls ∧ ∀ p ∈ past, p.2.value = 0

/-- How `lio_listio` ends: with everything done, at a length below 0, at an operation that there is not, or
at a submission that fails. -/
inductive Ended (mode nent : Int32) (list : List lio_entry) (past : List Made) : Answer → Prop
  | done (before after : List Made) (hsplit : past = before ++ after)
      (hknown : ∀ entry ∈ list, entry.Known) (hbefore : Succeeded (submissions list) before)
      (hafter : after.map Prod.fst = if mode = LIO_WAIT then statuses list else []) :
      Ended mode nent list past (returns 0)
  | negative (hnent : nent < 0) (hpast : past = []) : Ended mode nent list past (fails EINVAL)
  | unknown (front : List lio_entry) (entry : lio_entry) (left : List lio_entry)
      (hlist : list = front ++ entry :: left) (hfront : ∀ entry ∈ front, entry.Known)
      (hunknown : ¬ entry.Known) (hpast : Succeeded (submissions front) past) :
      Ended mode nent list past (fails EINVAL)
  | failed (front : List lio_entry) (entry : lio_entry) (left : List lio_entry) (before : List Made)
      (answer : Answer) (hlist : list = front ++ entry :: left) (hfront : ∀ entry ∈ front, entry.Known)
      (hsubmits : entry.Submits) (hsplit : past = before ++ [(entry.submission, answer)])
      (hbefore : Succeeded (submissions front) before) (hfails : answer.value ≠ 0) :
      Ended mode nent list past ⟨-1, answer.errno, []⟩

/-- Where `lio_listio` is after these calls. -/
def Lio.At (mode nent : Int32) (list : List lio_entry) (past : List Made) : Lio → Prop
  | .submitting left =>
    ∃ front entry rest, left = entry :: rest ∧ list = front ++ left ∧ (∀ entry ∈ front, entry.Known) ∧
      entry.Submits ∧ Succeeded (submissions front) past
  | .waiting left =>
    mode = LIO_WAIT ∧ (∀ entry ∈ list, entry.Known) ∧ ∃ front entry rest before after,
      left = entry :: rest ∧ list = front ++ left ∧ entry.cb ≠ NULL ∧ past = before ++ after ∧
        Succeeded (submissions list) before ∧ after.map Prod.fst = statuses front
  | .returned answer => Ended mode nent list past answer

variable {mode nent : Int32} {list front left : List lio_entry} {entry : lio_entry} {past : List Made}

theorem submissions_concat (front : List lio_entry) (entry : lio_entry) :
    submissions (front ++ [entry]) = submissions front ++ if entry.Submits then [entry.submission] else [] := by
  rw [submissions, List.filter_append, List.map_append]
  congr 1
  by_cases h : entry.Submits
  · simp [h]
  · simp [h]

theorem statuses_concat (front : List lio_entry) (entry : lio_entry) :
    statuses (front ++ [entry]) = statuses front ++ if entry.cb ≠ NULL then [entry.status] else [] := by
  rw [statuses, List.filter_append, List.map_append]
  congr 1
  by_cases h : entry.cb = NULL
  · simp [h]
  · simp [h]

theorem known_concat (hfront : ∀ entry ∈ front, entry.Known) (hentry : entry.Known) :
    ∀ e ∈ front ++ [entry], e.Known :=
  List.forall_mem_append.mpr ⟨hfront, List.forall_mem_singleton.mpr hentry⟩

/-- The second loop skips what there is no control block for. -/
theorem wait_at (before after : List Made) (hmode : mode = LIO_WAIT) (hlist : list = front ++ left)
    (hknown : ∀ entry ∈ list, entry.Known) (hbefore : Succeeded (submissions list) before)
    (hafter : after.map Prod.fst = statuses front) :
    (lio_listio.wait left).At mode nent list (before ++ after) := by
  induction left generalizing front with
  | nil =>
    rw [List.append_nil] at hlist
    refine .done before after rfl hknown hbefore ?_
    rw [if_pos hmode, hlist, hafter]
  | cons entry left ih =>
    have hnext : list = front ++ [entry] ++ left := by
      rw [hlist, List.append_assoc, List.singleton_append]
    unfold lio_listio.wait
    by_cases hcb : entry.cb = NULL
    · rw [if_pos hcb]
      refine ih hnext ?_
      rw [statuses_concat, if_neg (not_not.mpr hcb), List.append_nil, hafter]
    · rw [if_neg hcb]
      exact ⟨hmode, hknown, front, entry, left, before, after, rfl, hlist, hcb, rfl, hbefore, hafter⟩

/-- The first loop stops at what it has to submit or does not know. -/
theorem submit_at (hlist : list = front ++ left) (hfront : ∀ entry ∈ front, entry.Known)
    (hpast : Succeeded (submissions front) past) : (lio_listio.submit mode list left).At mode nent list past := by
  induction left generalizing front with
  | nil =>
    rw [List.append_nil] at hlist
    subst hlist
    unfold lio_listio.submit
    by_cases hmode : mode = LIO_WAIT
    · rw [if_pos hmode, ← List.append_nil past]
      exact wait_at past [] hmode (List.nil_append list).symm hfront hpast rfl
    · rw [if_neg hmode]
      refine .done past [] (List.append_nil _).symm hfront hpast ?_
      rw [if_neg hmode, List.map_nil]
  | cons entry left ih =>
    have hnext : list = front ++ [entry] ++ left := by
      rw [hlist, List.append_assoc, List.singleton_append]
    unfold lio_listio.submit
    by_cases hsubmits : entry.Submits
    · rw [if_neg hsubmits.1, if_pos hsubmits.2]
      exact ⟨front, entry, left, rfl, hlist, hfront, hsubmits, hpast⟩
    have hskipped : Succeeded (submissions (front ++ [entry])) past := by
      rwa [submissions_concat, if_neg hsubmits, List.append_nil]
    by_cases hcb : entry.cb = NULL
    · rw [if_pos hcb]
      exact ih hnext (known_concat hfront (.inl hcb)) hskipped
    have hopcode : ¬ (entry.aio_lio_opcode = LIO_WRITE ∨ entry.aio_lio_opcode = LIO_READ) :=
      fun h => hsubmits ⟨hcb, h⟩
    rw [if_neg hcb, if_neg hopcode]
    by_cases hnop : entry.aio_lio_opcode = LIO_NOP
    · rw [if_pos hnop]
      exact ih hnext (known_concat hfront (.inr (.inr (.inr hnop)))) hskipped
    · rw [if_neg hnop]
      refine .unknown front entry left hlist hfront ?_ hpast
      rintro (h | h | h | h)
      · exact hcb h
      · exact hopcode (.inl h)
      · exact hopcode (.inr h)
      · exact hnop h

/-- A call brings the loops to the next, unless it fails. No control block is asked for twice where no
operation is under way. -/
theorem Lio.At.resume {lio : Lio} {call : Call} {answer : Answer} (h : lio.At mode nent list past)
    (hcall : lio.call = some call) (hanswer : call.api = .aio_error → answer.value ≠ EINPROGRESS) :
    (lio.resume mode list answer).At mode nent list (past ++ [(call, answer)]) := by
  cases lio with
  | submitting left =>
    obtain ⟨front, entry, left, rfl, hlist, hfront, hsubmits, hpast⟩ := h
    cases hcall
    have hnext : list = front ++ [entry] ++ left := by
      rw [hlist, List.append_assoc, List.singleton_append]
    rw [Lio.resume]
    by_cases hfails : answer.value = 0
    · rw [if_neg (not_not.mpr hfails)]
      refine submit_at hnext (known_concat hfront ?_) ?_
      · obtain ⟨-, h | h⟩ := hsubmits
        · exact .inr (.inl h)
        · exact .inr (.inr (.inl h))
      · rw [submissions_concat, if_pos hsubmits]
        refine ⟨?_, List.forall_mem_append.mpr ⟨hpast.2, List.forall_mem_singleton.mpr hfails⟩⟩
        rw [List.map_append, hpast.1]
        rfl
    · rw [if_pos hfails]
      exact .failed front entry left past answer hlist hfront hsubmits rfl hpast hfails
  | waiting left =>
    obtain ⟨hmode, hknown, front, entry, left, before, after, rfl, hlist, hcb, rfl, hbefore, hafter⟩ := h
    cases hcall
    have hnext : list = front ++ [entry] ++ left := by
      rw [hlist, List.append_assoc, List.singleton_append]
    rw [Lio.resume, if_neg (hanswer rfl), List.append_assoc]
    refine wait_at before _ hmode hnext hknown hbefore ?_
    rw [List.map_append, hafter, statuses_concat, if_pos hcb]
    rfl
  | returned => cases hcall

theorem submissions_initial {rest : List lio_entry} (hlist : list = front ++ rest) :
    submissions front <+: submissions list := by
  rw [hlist, submissions, submissions, List.filter_append, List.map_append]
  exact List.prefix_append _ _

/-- The calls made are the first of all that are to be made in this mode, each of them once. -/
theorem Lio.At.initial {lio : Lio} (h : lio.At mode nent list past) :
    past.map Prod.fst <+: submissions list ++ if mode = LIO_WAIT then statuses list else [] := by
  cases lio with
  | submitting left =>
    obtain ⟨front, entry, left, rfl, hlist, -, -, hpast, -⟩ := h
    rw [hpast]
    exact (submissions_initial hlist).trans (List.prefix_append _ _)
  | waiting left =>
    obtain ⟨hmode, -, front, entry, left, before, after, rfl, hlist, -, rfl, ⟨hbefore, -⟩, hafter⟩ := h
    rw [if_pos hmode, List.map_append, hbefore, hafter, hlist]
    refine List.prefix_append_right_inj _ |>.mpr ?_
    rw [statuses, statuses, List.filter_append, List.map_append]
    exact List.prefix_append _ _
  | returned answer =>
    cases h with
    | done before after hsplit _ hbefore hafter =>
      rw [hsplit, List.map_append, hbefore.1, hafter]
    | negative _ hpast =>
      rw [hpast]
      exact List.nil_prefix
    | unknown front entry left hlist _ _ hpast =>
      rw [hpast.1]
      exact (submissions_initial hlist).trans (List.prefix_append _ _)
    | failed front entry left before answer hlist _ hsubmits hsplit hbefore _ =>
      have hnext : list = front ++ [entry] ++ left := by
        rw [hlist, List.append_assoc, List.singleton_append]
      have hcalls : past.map Prod.fst = submissions (front ++ [entry]) := by
        rw [hsplit, List.map_append, hbefore.1, submissions_concat, if_pos hsubmits]
        rfl
      rw [hcalls]
      exact (submissions_initial hnext).trans (List.prefix_append _ _)

/-- There is a next call until the loops are over. -/
theorem Lio.At.ended {lio : Lio} (h : lio.At mode nent list past) (hcall : lio.call = none) :
    ∃ answer, lio = .returned answer ∧ Ended mode nent list past answer := by
  cases lio with
  | submitting left =>
    obtain ⟨front, entry, left, rfl, -⟩ := h
    cases hcall
  | waiting left =>
    obtain ⟨-, -, front, entry, left, before, after, rfl, -⟩ := h
    cases hcall
  | returned answer => exact ⟨answer, rfl, h⟩

/-- A call is a submission that has not been made yet, or leaves all submissions alone. -/
theorem Lio.At.fresh {lio : Lio} {call : Call} (h : lio.At mode nent list past) (hcall : lio.call = some call)
    (hdistinct : ((submissions list).map Call.cb).Nodup) :
    (call.api = .aio_error) ∨ ∀ p ∈ past, p.1.cb ≠ call.cb := by
  cases lio with
  | submitting left =>
    obtain ⟨front, entry, left, rfl, hlist, -, hsubmits, hpast, -⟩ := h
    cases hcall
    refine .inr fun p hp heq => ?_
    have hnext : list = front ++ [entry] ++ left := by
      rw [hlist, List.append_assoc, List.singleton_append]
    have hdistinct : ((submissions front ++ [entry.submission]).map Call.cb).Nodup := by
      have hinitial := submissions_initial hnext
      rw [submissions_concat, if_pos hsubmits] at hinitial
      exact (hinitial.map Call.cb).sublist.nodup hdistinct
    rw [List.map_append, List.nodup_append] at hdistinct
    have hmem : p.1.cb ∈ (submissions front).map Call.cb := by
      rw [← hpast]
      exact List.mem_map_of_mem (List.mem_map_of_mem hp)
    exact hdistinct.2.2 _ hmem _ (List.mem_singleton_self _) heq
  | waiting left =>
    obtain ⟨-, -, front, entry, left, before, after, rfl, -⟩ := h
    cases hcall
    exact .inl rfl
  | returned => cases hcall

end Loops

/-- The call that an event is part of. -/
def Event.about (s : System) : Event → Option Call
  | .enter _ call => some call
  | .serve t _ | .resume t =>
    match s.pc t with
    | .idle => none
    | .waiting call .. | .woken call .. => some call

def Event.thread : Event → Nat
  | .enter t _ | .serve t _ | .resume t => t

/-- The thread starts a call. -/
def Event.Enters (t : Nat) : Event → Prop
  | .enter u _ => u = t
  | .serve .. | .resume _ => False

instance (t : Nat) (event : Event) : Decidable (event.Enters t) :=
  match event with
  | .enter u _ => inferInstanceAs (Decidable (u = t))
  | .serve .. | .resume _ => inferInstanceAs (Decidable False)

/-- The client and the server while one of the threads is in `lio_listio`, which does not keep the replies
to its calls. -/
structure Listing where
  system : System
  lio : Lio
  calls : List Reply

/-- The thread makes its next call, or something else happens. -/
inductive Turn where
  | proceed
  | other (event : Event)

def Turn.Allowed (layout : Layout) (owner : Ptr → Nat) (t : Nat) (s : Listing) : Turn → Prop
  | .proceed =>
    match s.lio.call with
    | some call => (Event.enter t call).Allowed layout owner s.system
    | none => False
  | .other event => event.Allowed layout owner s.system ∧ ¬ event.Enters t

def Turn.happens (t : Nat) (s : Listing) : Turn → Option Event
  | .proceed => s.lio.call.map (.enter t)
  | .other event => some event

/-- When a call of the thread has returned, it goes on to its next one. -/
def Turn.run (layout : Layout) (t : Nat) (mode : Int32) (list : List lio_entry) (s : Listing) (turn : Turn) :
    Option Listing := do
  let event ← turn.happens t s
  let system ← event.run layout s.system
  let reply := if event.thread = t then system.replies[s.system.replies.length]? else none
  pure <|
    match reply with
    | some r => ⟨system, s.lio.resume mode list r.answer, s.calls ++ [r]⟩
    | none => { s with system := system }

/-- A thread calls `lio_listio` at any time, and the others go on. -/
def listing (layout : Layout) (owner : Ptr → Nat) (t : Nat) (mode : Int32) (list : Option (Nat → lio_entry))
    (nent : Int32) : Machine Listing Turn where
  init s := (∃ past, (system layout owner).Run past s.system) ∧ s.system.pc t = .idle ∧
    s.lio = lio_listio mode list nent ∧ s.calls = []
  allowed := Turn.Allowed layout owner t
  step := Turn.run layout t mode (entries list nent)

def Reply.made (r : Reply) : Made := (r.call, r.answer)

section Threads

variable {layout : Layout} {owner : Ptr → Nat} {s s' : System} {event : Event} {t : Nat} {call : Call}

/-- An event may end a call, and then its thread is back. -/
theorem Event.Does.calls (h : event.Does layout owner s s') :
    (∀ u, u ≠ event.thread → s'.pc u = s.pc u) ∧
      ((s'.replies = s.replies ∧
          ∃ call, event.about s = some call ∧ (Event.resume event.thread).about s' = some call) ∨
        ∃ r, s'.replies = s.replies ++ [r] ∧ event.about s = some r.call ∧ s'.pc event.thread = .idle) := by
  cases h with
  | settled hidle _ _ => exact ⟨fun _ _ => rfl, .inr ⟨_, rfl, rfl, hidle⟩⟩
  | @sent t call aio_head msg =>
    refine ⟨fun _ hu => Function.update_of_ne hu .., .inl ⟨rfl, call, rfl, ?_⟩⟩
    simp only [Event.about, Event.thread, System.send, Function.update_self]
  | @served t host call msg op hwaiting =>
    refine ⟨fun _ hu => Function.update_of_ne hu .., .inl ⟨rfl, call, ?_, ?_⟩⟩
    · simp only [Event.about, hwaiting]
    · simp only [Event.about, Event.thread, System.serve, Function.update_self]
  | @resumed t call reply op freed hwoken =>
    refine ⟨fun _ hu => Function.update_of_ne hu .., .inr ⟨_, rfl, ?_, ?_⟩⟩
    · simp only [Event.about, hwoken]
    · simp only [Event.thread, System.resume, Function.update_self]

/-- Only a submission that succeeds and a call that finishes change what a control block is owed. -/
theorem Event.Does.owed_eq {cb : Ptr} (h : event.Does layout owner s s')
    (hkeeps : ∀ call, event.about s = some call → call.cb = cb →
      call.api.submits = false ∧ call.api.finishes = false) : s'.owed cb = s.owed cb := by
  have hclaims (call : Call) (hcall : event.about s = some call) : call.claims s.owed cb = s.owed cb := by
    by_cases hcb : call.cb = cb
    · rw [Call.claims, (hkeeps call hcall hcb).2]
      rfl
    · exact Call.claims_of_ne hcb
  cases h with
  | settled => exact hclaims _ rfl
  | sent => exact hclaims _ rfl
  | served => rfl
  | @resumed t call reply op freed hwoken =>
    simp only [Event.about, hwoken] at hkeeps
    simp only [System.resume]
    by_cases hcb : call.cb = cb
    · rw [(hkeeps call rfl hcb).1, if_neg (by simp)]
    · split
      · exact Function.update_of_ne (Ne.symm hcb) ..
      · rfl

/-- A submission that succeeds leaves its operation to the control block. -/
theorem Event.Does.owes {r : Reply} (h : event.Does layout owner s s') (hconsistent : Consistent layout owner s)
    (hreply : s'.replies = s.replies ++ [r]) (hsubmits : r.call.api.submits = true) (hvalue : r.answer.value = 0) :
    (r.call.cb ≠ NULL ∧ owner r.call.cb = event.thread) ∧ s'.owed r.call.cb = r.op := by
  have hnew {q : Reply} (hq : s'.replies = s.replies ++ [q]) : q = r := by
    rw [hq] at hreply
    exact List.singleton_inj.mp (List.append_cancel_left hreply)
  cases h with
  | settled _ _ hsends =>
    cases hnew rfl
    cases hsends with
    | failed rc _ => exact absurd hvalue (fails_ne_zero rc)
    | unmapped hapi _ =>
      rw [hapi] at hsubmits
      cases hsubmits
  | sent | served =>
    have hlength := congrArg List.length hreply
    simp [System.send, System.serve] at hlength
  | @resumed t call reply op freed hwoken =>
    cases hnew rfl
    have hproper := hconsistent.proper t
    rw [hwoken] at hproper
    refine ⟨hproper.1, ?_⟩
    simp only [System.resume]
    rw [if_pos ⟨hsubmits, hvalue⟩, Function.update_self]

/-- A thread works on control blocks of its own. -/
theorem Event.Does.owner_eq (h : event.Does layout owner s s') (hconsistent : Consistent layout owner s)
    (habout : event.about s = some call) (hcb : call.cb ≠ NULL) : owner call.cb = event.thread := by
  cases h with
  | settled _ howner | sent _ howner =>
    cases habout
    exact howner hcb
  | @served t host call msg op hwaiting =>
    have hproper := hconsistent.proper t
    simp only [Event.about, hwaiting] at habout
    cases habout
    rw [hwaiting] at hproper
    exact hproper.1.2
  | @resumed t call reply op freed hwoken =>
    have hproper := hconsistent.proper t
    simp only [Event.about, hwoken] at habout
    cases habout
    rw [hwoken] at hproper
    exact hproper.1.2

end Threads

section Runs

variable {layout : Layout} {owner : Ptr → Nat} {t : Nat} {mode nent : Int32} {list : List lio_entry}
  {s s' : Listing} {turn : Turn}

/-- No control block is submitted twice. -/
def Distinct (list : List lio_entry) : Prop := ((submissions list).map Call.cb).Nodup

instance (list : List lio_entry) : Decidable (Distinct list) := inferInstanceAs (Decidable (List.Nodup _))

/-- The operations that have been submitted are owed to their control blocks. -/
def Listing.Owes (owner : Ptr → Nat) (t : Nat) (s : Listing) : Prop :=
  ∀ r ∈ s.calls, r.call.api.submits = true → r.answer.value = 0 →
    (r.call.cb ≠ NULL ∧ owner r.call.cb = t) ∧ s.system.owed r.call.cb = r.op

/-- The thread keeps to the loops. -/
structure Listing.Follows (layout : Layout) (owner : Ptr → Nat) (t : Nat) (mode nent : Int32)
    (list : List lio_entry) (s : Listing) : Prop where
  reached : ∃ past, (aio.system layout owner).Run past s.system
  calling : ∀ call, (Event.resume t).about s.system = some call → s.lio.call = some call
  stands : s.lio.At mode nent list (s.calls.map Reply.made)
  replied : ∀ r ∈ s.calls, r ∈ s.system.replies
  owed : Distinct list → s.Owes owner t

/-- What a turn is: an event, which is about the next call if it is one of the thread. -/
theorem Listing.Follows.event_of_run (h : s.Follows layout owner t mode nent list)
    (hallowed : turn.Allowed layout owner t s) (hstep : turn.run layout t mode list s = some s') :
    ∃ (event : Event) (system : System), event.Does layout owner s.system system ∧
      event.Allowed layout owner s.system ∧
      event.run layout s.system = some system ∧
      (event.thread = t → ∀ call, event.about s.system = some call → s.lio.call = some call) ∧
      s' = match if event.thread = t then system.replies[s.system.replies.length]? else none with
        | some r => ⟨system, s.lio.resume mode list r.answer, s.calls ++ [r]⟩
        | none => { s with system := system } := by
  unfold Turn.run at hstep
  obtain ⟨event, hevent, hstep⟩ := Option.bind_eq_some_iff.mp hstep
  obtain ⟨system, hsystem, hstep⟩ := Option.bind_eq_some_iff.mp hstep
  cases hstep
  have hdoes (hallowed : event.Allowed layout owner s.system) := Event.run_does hallowed hsystem
  cases turn with
  | proceed =>
    unfold Turn.happens at hevent
    obtain ⟨call, hcall, rfl⟩ := Option.map_eq_some_iff.mp hevent
    unfold Turn.Allowed at hallowed
    rw [hcall] at hallowed
    refine ⟨_, system, hdoes hallowed, hallowed, hsystem, fun _ call' habout => ?_, rfl⟩
    cases habout
    exact hcall
  | other event' =>
    cases hevent
    refine ⟨_, system, hdoes hallowed.1, hallowed.1, hsystem, fun hthread call habout => ?_, rfl⟩
    cases event with
    | enter u call => exact absurd hthread hallowed.2
    | serve u host | resume u =>
      cases hthread
      exact h.calling call habout

theorem Listing.Follows.step (h : s.Follows layout owner t mode nent list)
    (hallowed : turn.Allowed layout owner t s) (hstep : turn.run layout t mode list s = some s') :
    s'.Follows layout owner t mode nent list := by
  obtain ⟨event, system', hdoes, hevent, hrun, hnext, rfl⟩ := h.event_of_run hallowed hstep
  obtain ⟨past, hpast⟩ := h.reached
  have hconsistent := consistent_of_run hpast
  have hreached : ∃ past, (aio.system layout owner).Run past system' := ⟨_, hpast.call hevent hrun⟩
  obtain ⟨hothers, hcalls⟩ := hdoes.calls
  have howes (hdistinct : Distinct list) : Listing.Owes owner t { s with system := system' } := by
    intro r hr hsubmits hvalue
    obtain ⟨⟨hcb, howner⟩, howed⟩ := h.owed hdistinct r hr hsubmits hvalue
    refine ⟨⟨hcb, howner⟩, ?_⟩
    rw [hdoes.owed_eq, howed]
    intro call habout hsame
    have hthread : event.thread = t := by
      rw [← hdoes.owner_eq hconsistent habout (hsame ▸ hcb), hsame, howner]
    obtain hstatus | hfresh := h.stands.fresh (hnext hthread call habout) hdistinct
    · rw [hstatus]
      exact ⟨rfl, rfl⟩
    · exact absurd hsame.symm (hfresh r.made (List.mem_map_of_mem hr))
  by_cases hthread : event.thread = t
  · subst hthread
    obtain ⟨hsame, call, habout, hafter⟩ | ⟨r, hreply, habout, hidle⟩ := hcalls
    · have hnone : system'.replies[s.system.replies.length]? = none := by simp [hsame]
      rw [if_pos rfl, hnone]
      refine ⟨hreached, fun call' hcall' => ?_, h.stands, fun r hr => hsame ▸ h.replied r hr, howes⟩
      rw [hafter] at hcall'
      cases hcall'
      exact hnext rfl call habout
    · have hsome : system'.replies[s.system.replies.length]? = some r := by simp [hreply]
      obtain ⟨past', hpast'⟩ := hreached
      have hsettled := (completed_of_run hpast').replies r (by simp [hreply])
      rw [if_pos rfl, hsome]
      refine ⟨⟨past', hpast'⟩, fun call' hcall' => ?_, ?_, ?_, fun hdistinct => ?_⟩
      · simp only [Event.about, hidle] at hcall'
        cases hcall'
      · rw [List.map_append]
        exact h.stands.resume (hnext rfl _ habout) hsettled.2
      · intro q hq
        rw [hreply]
        obtain hq | hq := List.mem_append.mp hq
        · exact List.mem_append_left _ (h.replied q hq)
        · exact List.mem_append_right _ hq
      · intro q hq hsubmits hvalue
        obtain hq | hq := List.mem_append.mp hq
        · exact howes hdistinct q hq hsubmits hvalue
        · cases List.mem_singleton.mp hq
          exact hdoes.owes hconsistent hreply hsubmits hvalue
  · rw [if_neg hthread]
    have hpc : system'.pc t = s.system.pc t := hothers t (Ne.symm hthread)
    refine ⟨hreached, fun call' hcall' => h.calling call' ?_, h.stands, fun r hr => ?_, howes⟩
    · simp only [Event.about] at hcall' ⊢
      rwa [hpc] at hcall'
    · obtain ⟨hsame, -⟩ | ⟨q, hreply, -⟩ := hcalls
      · exact hsame ▸ h.replied r hr
      · rw [hreply]
        exact List.mem_append_left _ (h.replied r hr)

/-- A list is worked off in order: its operations are submitted once each, up to one that fails or that
there is not, and with `LIO_WAIT` the status of each control block is asked for once. A submission that
succeeds has been performed as its control block says. -/
structure Listing.InOrder (owner : Ptr → Nat) (t : Nat) (mode nent : Int32) (list : List lio_entry)
    (s : Listing) : Prop where
  made : s.calls.map Reply.call <+: submissions list ++ if mode = LIO_WAIT then statuses list else []
  ended : s.lio.call = none →
    ∃ answer, s.lio = .returned answer ∧ Ended mode nent list (s.calls.map Reply.made) answer
  performed : ∀ r ∈ s.calls, r.call.api.submits = true → r.answer.value = 0 →
    ∃ op, r.op = some op ∧ op.made = r.call.asks ∧ 0 ≤ op.result
  owed : Distinct list → s.Owes owner t

end Runs

instance (layout : Layout) (owner : Ptr → Nat) (t : Nat) (mode : Int32) (list : Option (Nat → lio_entry))
    (nent : Int32) (s : Listing) (turn : Turn) :
    Decidable ((listing layout owner t mode list nent).allowed s turn) :=
  match turn with
  | .proceed =>
    match hcall : s.lio.call with
    | some call =>
      decidable_of_iff ((system layout owner).allowed s.system (.enter t call))
        (by simp only [listing, Turn.Allowed, hcall]; rfl)
    | none => isFalse (by simp only [listing, Turn.Allowed, hcall]; exact id)
  | .other event => inferInstanceAs (Decidable ((system layout owner).allowed s.system event ∧ _))

end l4re_libc.aio
