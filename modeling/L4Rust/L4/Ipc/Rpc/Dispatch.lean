import L4Rust.L4.Ipc.RequestFormat
import L4Rust.L4.Ipc.Rpc.Replies

open l4.error l4.utcb

namespace l4.utcb

/-- The registers behind a reset. -/
def UtcbMr.rewound (mr : UtcbMr) : UtcbMr := { mr with regs.offset := 0, items := 0, placed := [] }

theorem UtcbMr.reset_apply (mr : UtcbMr) : UtcbMr.reset mr = .ok () mr.rewound := rfl

end l4.utcb

namespace l4.ipc

variable {κ σ : Type} {sys : Fpages} {codes : Codes} {l4_ipc_error : MsgTag → BitVec 64}
  {objects : Objects σ} {I : Interface} {m : Method} {label : BitVec 64} {args : List Arg}

/-- Interfaces that the macro expands, whose ids fit the label of a message, and whose methods return what
crosses as it is. -/
structure Objects.Lawful (objects : Objects σ) : Prop where
  expanded : ∀ label I, objects.interface label = some I →
    ∃ scope items iface, l4_derive.Iface.parse items = .ok iface ∧ l4_derive.iface_back scope iface = some I
  label_fits : ∀ label I, objects.interface label = some I → LabelFits I.PROTOCOL_ID
  untyped : ∀ label I, objects.interface label = some I → ∀ m ∈ I.methods, m.ret.isItem = false
  returns : ∀ label I, objects.interface label = some I → ∀ m ∈ I.methods, ∀ args s v t,
    objects.call label m args s = .ok v t → Arg.Faithful ⟨m.ret, v⟩
  fails : ∀ label I, objects.interface label = some I → ∀ m ∈ I.methods, ∀ args s e t,
    objects.call label m args s = .err e t → e.Reportable

/-- Arguments that reach the method as they are. -/
structure Request.Crosses (I : Interface) (req : Request) : Prop where
  untyped : ∀ a ∈ req.args, a.ty.isItem = false
  faithful : ∀ a ∈ req.args, a.Faithful
  same_cursor : SameCursor I.OpType req.method.args

/-- The reply of a dispatcher with a value of the method. -/
def reply (sys : Fpages) (a : Arg) (s : Reader) (t : σ) : Outcome Error (Serving σ) MsgTag :=
  match a.write sys s.mr.rewound with
  | .ok _ mr => .ok (replyTag mr) ⟨{ s with mr := mr }, t⟩
  | .err e mr => .err e ⟨{ s with mr := mr }, t⟩
  | .abort => .abort

theorem reply_eq (a : Arg) (s : Reader) (t : σ) :
    (do
      Serving.onReader do
        Reader.onMr UtcbMr.reset
        Reader.onMr (a.write sys)
      let s ← Exec.get
      pure (replyTag s.reader.mr) : Exec Error (Serving σ) MsgTag) ⟨s, t⟩ = reply sys a s t := by
  have hreset : Reader.onMr UtcbMr.reset s = .ok () { s with mr := s.mr.rewound } :=
    Exec.zoom_of_ok (UtcbMr.reset_apply _)
  unfold reply
  cases hwrite : a.write sys s.mr.rewound with
  | ok u mr =>
    have hreply : Serving.onReader (do Reader.onMr UtcbMr.reset; Reader.onMr (a.write sys)) (⟨s, t⟩ : Serving σ) =
        .ok () ⟨{ s with mr := mr }, t⟩ :=
      Exec.zoom_of_ok ((Exec.bind_of_ok hreset).trans (Exec.zoom_of_ok hwrite))
    exact (Exec.bind_of_ok hreply).trans rfl
  | err e mr =>
    have hreply : Serving.onReader (do Reader.onMr UtcbMr.reset; Reader.onMr (a.write sys)) (⟨s, t⟩ : Serving σ) =
        .err e ⟨{ s with mr := mr }, t⟩ :=
      Exec.zoom_of_err ((Exec.bind_of_ok hreset).trans (Exec.zoom_of_err hwrite))
    exact Exec.bind_of_err hreply
  | abort =>
    have hreply : Serving.onReader (do Reader.onMr UtcbMr.reset; Reader.onMr (a.write sys)) (⟨s, t⟩ : Serving σ) =
        .abort :=
      Exec.zoom_of_abort ((Exec.bind_of_ok hreset).trans (Exec.zoom_of_abort hwrite))
    exact Exec.bind_of_abort hreply

/-- The dispatcher from the call of the method on. -/
theorem server_impl_callback_of_decoded {tag : MsgTag} {reader s : Reader}
    (hdecode : op_decode sys I tag reader = .ok (m, args) s) (t : σ) :
    server_impl_callback sys objects label I tag ⟨reader, t⟩ =
      match objects.call label m args t with
      | .ok v t => reply sys ⟨m.ret, v⟩ s t
      | .err e t => .err e ⟨s, t⟩
      | .abort => .abort := by
  have hreader : Serving.onReader (op_decode sys I tag) (⟨reader, t⟩ : Serving σ) = .ok (m, args) ⟨s, t⟩ :=
    Exec.zoom_of_ok hdecode
  refine (Exec.bind_of_ok hreader).trans ?_
  cases hcall : objects.call label m args t with
  | ok v t' =>
    have hobjects : Serving.onObjects (objects.call label m args) (⟨s, t⟩ : Serving σ) = .ok v ⟨s, t'⟩ :=
      Exec.zoom_of_ok hcall
    exact (Exec.bind_of_ok hobjects).trans (reply_eq ⟨m.ret, v⟩ s t')
  | err e t' =>
    have hobjects : Serving.onObjects (objects.call label m args) (⟨s, t⟩ : Serving σ) = .err e ⟨s, t'⟩ :=
      Exec.zoom_of_err hcall
    exact Exec.bind_of_err hobjects
  | abort =>
    have hobjects : Serving.onObjects (objects.call label m args) (⟨s, t⟩ : Serving σ) = .abort :=
      Exec.zoom_of_abort hcall
    exact Exec.bind_of_abort hobjects

theorem op_dispatch_of_decoded {tag : MsgTag} {reader s : Reader}
    (hdecode : op_decode sys I tag reader = .ok (m, args) s)
    (server : (m : Method) → List Arg → Except Error m.ret.Val) :
    op_dispatch sys I server tag reader =
      match server m args with
      | .error e => .err e s
      | .ok v =>
        match Arg.write sys ⟨m.ret, v⟩ s.mr.rewound with
        | .ok _ mr => .ok (replyTag mr) { s with mr := mr }
        | .err e mr => .err e { s with mr := mr }
        | .abort => .abort := by
  refine (Exec.bind_of_ok hdecode).trans ?_
  cases hserver : server m args with
  | error e =>
    simp only [hserver]
    rfl
  | ok v =>
    simp only [hserver]
    have hreset : Reader.onMr UtcbMr.reset s = .ok () { s with mr := s.mr.rewound } :=
      Exec.zoom_of_ok (UtcbMr.reset_apply _)
    refine (Exec.bind_of_ok hreset).trans ?_
    cases hwrite : m.ret.write sys v s.mr.rewound with
    | ok u mr =>
      have hreply : Reader.onMr (m.ret.write sys v) { s with mr := s.mr.rewound } = .ok u { s with mr := mr } :=
        Exec.zoom_of_ok hwrite
      refine (Exec.bind_of_ok hreply).trans ?_
      simp only [Arg.write, hwrite]
      rfl
    | err e mr =>
      have hreply : Reader.onMr (m.ret.write sys v) { s with mr := s.mr.rewound } = .err e { s with mr := mr } :=
        Exec.zoom_of_err hwrite
      refine (Exec.bind_of_err hreply).trans ?_
      simp only [Arg.write, hwrite]
    | abort =>
      have hreply : Reader.onMr (m.ret.write sys v) { s with mr := s.mr.rewound } = .abort :=
        Exec.zoom_of_abort hwrite
      refine (Exec.bind_of_abort hreply).trans ?_
      simp only [Arg.write, hwrite]

/-- Where a method is a function of its arguments, this is the dispatcher that calls it. -/
theorem server_impl_callback_eq_op_dispatch {tag : MsgTag} {reader s : Reader} {t t' : σ}
    (hdecode : op_decode sys I tag reader = .ok (m, args) s)
    (server : (m : Method) → List Arg → Except Error m.ret.Val)
    (hcall : objects.call label m args t =
      match server m args with
      | .ok v => .ok v t'
      | .error e => .err e t') :
    server_impl_callback sys objects label I tag ⟨reader, t⟩ =
      (op_dispatch sys I server tag reader).mapState fun reader => ⟨reader, t'⟩ := by
  rw [server_impl_callback_of_decoded hdecode, op_dispatch_of_decoded hdecode server, hcall]
  cases server m args with
  | error e => rfl
  | ok v =>
    simp only [reply]
    cases Arg.write sys ⟨m.ret, v⟩ s.mr.rewound with
    | ok | err | abort => rfl

/-- The registers and the label of a message say what a client is told. -/
def Tells (sys : Fpages) (codes : Codes) (l4_ipc_error : MsgTag → BitVec 64) (ret : ArgTy) (tag : MsgTag)
    (sent : Memory) (a : Except Error Arg) : Prop :=
  ∀ s : Reader, Delivered tag sent s.mr.regs.mem →
    derive_ipc_calls.answer sys codes l4_ipc_error ret tag s = some a

end l4.ipc
