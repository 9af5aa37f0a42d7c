import L4Rust.L4.Ipc.Rpc.Dispatch

open l4.error l4.utcb

namespace l4.ipc

variable {κ σ : Type} {sys : Fpages} {codes : Codes} {l4_ipc_error : MsgTag → BitVec 64}
  {objects : Objects σ}

namespace Loop

variable {self self' : Loop κ σ} {hooks : LoopHook} {client : Option κ} {tag : MsgTag} {label : BitVec 64}

@[simp] theorem act_mr (self : Loop κ σ) (client : Option κ) (action : LoopAction) :
    (self.act client action).mr = self.mr := by
  cases action <;> rfl

end Loop

/-- Where a client is in its stub, and where its request is in the service. -/
inductive Stage (sys : Fpages) (codes : Codes) (l4_ipc_error : MsgTag → BitVec 64) (objects : Objects σ)
    (server : Loop κ σ) (c : κ) (client : Client) : Service.Phase Request (Except Error Arg) → Prop where
  | idle (hstub : client.stub = .idle) : Stage sys codes l4_ipc_error objects server c client .idle
  | requested {req : Request} {I : Interface} {tag : MsgTag} {mem : Memory}
      (hstub : client.stub = .sending req.label req.method.ret tag)
      (hI : objects.interface req.label = some I) (hm : req.method ∈ I.methods)
      (htypes : req.args.map Arg.ty = req.method.args) (hcrosses : req.Crosses I)
      (hrequest : derive_ipc_calls sys I req.method.opcode req.args (UtcbMr.from_mr mem) = .ok tag client.mr) :
      Stage sys codes l4_ipc_error objects server c client (.requested req)
  | executed {ret : ArgTy} {a : Except Error Arg} (hstub : client.stub = .receiving ret)
      (htells : ∀ replytag, server.syscall = some (.reply (some c) replytag) →
        Tells sys codes l4_ipc_error ret replytag server.mr a) :
      Stage sys codes l4_ipc_error objects server c client (.executed a)
  | replied {ret : ArgTy} {restag : MsgTag} {a : Except Error Arg} (hstub : client.stub = .answered ret restag)
      (hanswer : derive_ipc_calls.answer sys codes l4_ipc_error ret restag ⟨client.mr, client.bufs⟩ = some a) :
      Stage sys codes l4_ipc_error objects server c client (.executed a)

section Stub

variable {server : Loop κ σ} {c : κ} {client : Client} {phase : Service.Phase Request (Except Error Arg)}

/-- A server that replies to a client has not changed what it replies. -/
theorem Stage.frame {server' : Loop κ σ} (h : Stage sys codes l4_ipc_error objects server c client phase)
    (hserver : ∀ replytag, server'.syscall = some (.reply (some c) replytag) →
      server.syscall = server'.syscall ∧ server.mr = server'.mr) :
    Stage sys codes l4_ipc_error objects server' c client phase := by
  cases h with
  | idle hstub => exact .idle hstub
  | requested hstub hI hm htypes hcrosses hrequest => exact .requested hstub hI hm htypes hcrosses hrequest
  | replied hstub hanswer => exact .replied hstub hanswer
  | executed hstub htells =>
    refine .executed hstub fun replytag hreply => ?_
    obtain ⟨hsyscall, hmr⟩ := hserver replytag hreply
    have h := htells replytag (hsyscall.trans hreply)
    rw [hmr] at h
    exact h

end Stub

/-- Clients and server with the service that they stand for. -/
structure Related (sys : Fpages) (codes : Codes) (l4_ipc_error : MsgTag → BitVec 64) (objects : Objects σ)
    (s : System κ σ) (t : Service.State κ Request (Except Error Arg) σ) : Prop where
  service_eq : t.service = s.server.objects
  answers_eq : t.answers = s.answers
  stage : ∀ c, Stage sys codes l4_ipc_error objects s.server c (s.client c) (t.phase c)

/-- Calls only with arguments that reach the method as they are. -/
def Transition.Crosses (objects : Objects σ) : Transition κ → Prop
  | .call _ req => ∀ I, objects.interface req.label = some I → req.Crosses I
  | .refuse _ _ | .deliver _ _ | .foreign _ _ _ | .reply _ _ | .dismiss | .server_fails _ _
  | .client_fails _ _ | .returns _ => True

/-- What happens to the requests of a service. A method is executed when the server takes its message in. -/
def Transition.meaning (sys : Fpages) (codes : Codes) (l4_ipc_error : MsgTag → BitVec 64) (objects : Objects σ)
    (s : System κ σ) : Transition κ → Option (Service.Event κ Request (Except Error Arg))
  | .call c req => some (.request c req)
  | .deliver c _ => some (.execute c)
  | .foreign label tag mr => do
    let I ← objects.interface label
    let (m, args) ← (op_decode sys I tag ⟨UtcbMr.from_mr mr, s.server.bufs⟩).value?
    pure (.intrude ⟨label, m, args⟩)
  | .client_fails c tag => some (.abandon c (.error (from_tag_raw codes l4_ipc_error tag)))
  | .returns c => some (.answer c)
  | .refuse _ _ | .reply _ _ | .dismiss | .server_fails _ _ => none

variable [DecidableEq κ] {s s' : System κ σ} {t : Service.State κ Request (Except Error Arg) σ} {c : κ}

/-- One client and its request move on together. -/
theorem Related.enter (h : Related sys codes l4_ipc_error objects s t) (server : Loop κ σ)
    (answers : List (κ × Except Error Arg)) {client : Client} {phase : Service.Phase Request (Except Error Arg)}
    (hstage : Stage sys codes l4_ipc_error objects server c client phase)
    (hserver : ∀ c' replytag, c' ≠ c → server.syscall = some (.reply (some c') replytag) →
      s.server.syscall = server.syscall ∧ s.server.mr = server.mr) :
    Related sys codes l4_ipc_error objects { s.setClient c client with server := server, answers := answers }
      { t.enter c phase with service := server.objects, answers := answers } where
  service_eq := rfl
  answers_eq := rfl
  stage c' := by
    by_cases hc : c' = c
    · subst hc
      simpa [Service.State.enter, System.setClient] using hstage
    · have hother := (h.stage c').frame fun replytag => hserver c' replytag hc
      simpa [Service.State.enter, System.setClient, hc] using hother

omit [DecidableEq κ] in
/-- The server goes on without a reply to anyone. -/
theorem Related.serve (h : Related sys codes l4_ipc_error objects s t) (server : Loop κ σ)
    (hserver : ∀ c replytag, server.syscall ≠ some (.reply (some c) replytag)) :
    Related sys codes l4_ipc_error objects { s with server := server } { t with service := server.objects } where
  service_eq := rfl
  answers_eq := h.answers_eq
  stage c := (h.stage c).frame fun replytag hreply => (hserver c replytag hreply).elim

omit [DecidableEq κ] in
theorem Related.resume (h : Related sys codes l4_ipc_error objects s t) {server : Loop κ σ}
    (hobjects : server.objects = s.server.objects)
    (hserver : ∀ c replytag, server.syscall ≠ some (.reply (some c) replytag)) :
    Related sys codes l4_ipc_error objects { s with server := server } t := by
  have hrelated := h.serve server hserver
  rw [hobjects, ← h.service_eq] at hrelated
  exact hrelated

/-- A client that is the only one to move. -/
theorem Related.move (h : Related sys codes l4_ipc_error objects s t) {client : Client}
    {phase : Service.Phase Request (Except Error Arg)}
    (hstage : Stage sys codes l4_ipc_error objects s.server c client phase) :
    Related sys codes l4_ipc_error objects (s.setClient c client) (t.enter c phase) := by
  have hsame : t.enter c phase = { t.enter c phase with service := s.server.objects, answers := s.answers } := by
    rw [← h.service_eq, ← h.answers_eq]
    rfl
  rw [hsame]
  exact h.enter s.server s.answers hstage fun _ _ _ _ => ⟨rfl, rfl⟩

end l4.ipc
