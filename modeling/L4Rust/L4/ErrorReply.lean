import L4Rust.L4.MsgTag

open l4.ipc

namespace l4.error

/-- A handler's error reaches the client as an error: its reply label is
negative, and the client's check of the reply tag fails. -/
def Error.Reported (codes : Codes) (l4_ipc_error : MsgTag → BitVec 64) (e : Error) : Prop :=
  (e.into_ipc_err codes).toInt < 0 ∧
    ∃ seen, (MsgTag.new (e.into_ipc_err codes) 0#32 0#32 0#32).result codes l4_ipc_error = .error seen

/-- A label read from one reply is the label of the reply that relays it. -/
def Relayed (codes : Codes) (label : BitVec 64) : Prop :=
  (Error.from_ipc codes label).into_ipc_err codes = label

/-- Every error but `Generic(Ok)` is reported, and every negative label that
fits its field is relayed unchanged. -/
def ReplyPath (codes : Codes) (l4_ipc_error : MsgTag → BitVec 64) : Prop :=
  (∀ e : Error, e ≠ .Generic .Ok → e.Reported codes l4_ipc_error) ∧
    ∀ label : BitVec 64, label.toInt < 0 → LabelFits label → Relayed codes label

/-- The errors whose label gets the sign of an error. The two private code
points are negative already, so negating them makes them positive, and a code
carried by `Unknown` or `Protocol` is negated too: it must be positive, and its
negation must stay negative in the 48 bits of the label field. -/
def Error.Reportable : Error → Prop
  | .Generic e => e ≠ .Ok
  | .Tcr _ | .InvalidArg _ _ | .InvalidState _ => True
  | .InvalidCap | .InvalidEncoding _ => False
  | .Unknown n | .Protocol n => 0 < n.toInt ∧ 0 < n.toInt % 2 ^ 48 ∧ n.toInt % 2 ^ 48 ≤ 2 ^ 47

/-- The labels that name a generic code and neither of the private code points. -/
def NamesGeneric (codes : Codes) (label : BitVec 64) : Prop :=
  label ≠ Error.INVALID_CAP_CODE ∧ label ≠ Error.INVALID_ENCODING ∧
    ∃ e, (codes.generic e : Int) = -label.toInt

private theorem mul_neg_one (n : BitVec 64) : n * -1 = -n := by
  rw [BitVec.mul_neg]
  exact congrArg Neg.neg (BitVec.mul_one n)

private theorem neg_toInt (n : BitVec 64) : (n * -1).toInt = (-n.toInt).bmod (2 ^ 64) := by
  rw [mul_neg_one, BitVec.toInt_neg]

private theorem neg_code_toInt {code : Nat} (h : code < 2 ^ 32) :
    (BitVec.ofNat 64 code * -1).toInt = -(code : Int) := by
  have hcode : (BitVec.ofNat 64 code).toInt = code := by
    rw [BitVec.toInt_ofNat', Int.bmod_def]
    omega
  rw [neg_toInt, hcode, Int.bmod_def]
  omega

/-- Only the sign of the label matters, once in 64 bits on the server and once
in the 48 bits that reach the client. -/
theorem Error.reported_iff_label (codes : Codes) (l4_ipc_error : MsgTag → BitVec 64) (e : Error) :
    e.Reported codes l4_ipc_error ↔
      (e.into_ipc_err codes).toInt < 0 ∧ (e.into_ipc_err codes).toInt.bmod (2 ^ 48) < 0 := by
  unfold Error.Reported MsgTag.result
  rw [MsgTag.has_error_new, MsgTag.label_new_toInt]
  by_cases h : (e.into_ipc_err codes).toInt.bmod (2 ^ 48) < 0
  · simp only [Bool.false_eq_true, if_false, h, if_true, Except.error.injEq, exists_eq']
  · simp only [Bool.false_eq_true, if_false, h, reduceCtorEq, exists_false]

private theorem code_reported {code : Nat} (hpos : 0 < code) (hlt : code < 2 ^ 32) :
    (BitVec.ofNat 64 code * -1).toInt < 0 ∧ (BitVec.ofNat 64 code * -1).toInt.bmod (2 ^ 48) < 0 := by
  rw [neg_code_toInt hlt, Int.bmod_def]
  omega

theorem Error.reported_iff_reportable (codes : Codes) (l4_ipc_error : MsgTag → BitVec 64) (e : Error)
    (hok : e ≠ .Generic .Ok) : e.Reported codes l4_ipc_error ↔ e.Reportable := by
  rw [Error.reported_iff_label]
  have hcarried (n : BitVec 64) :
      (n * -1).toInt < 0 ∧ (n * -1).toInt.bmod (2 ^ 48) < 0 ↔
        0 < n.toInt ∧ 0 < n.toInt % 2 ^ 48 ∧ n.toInt % 2 ^ 48 ≤ 2 ^ 47 := by
    have hlo := BitVec.le_toInt n
    have hhi : n.toInt < 2 ^ 63 := BitVec.toInt_lt
    rw [neg_toInt, Int.bmod_def, Int.bmod_def]
    omega
  cases e with
  | Generic e =>
    have hne : e ≠ .Ok := fun h => hok (by rw [h])
    exact iff_of_true (code_reported (codes.generic_pos hne) (codes.generic_lt e)) hne
  | Tcr e => exact iff_of_true (code_reported (codes.tcr_pos e) (codes.tcr_lt e)) trivial
  | InvalidCap => exact iff_of_false (by simp only [Error.into_ipc_err]; decide) id
  | InvalidEncoding e => exact iff_of_false (by simp only [Error.into_ipc_err]; decide) id
  | InvalidArg reason code =>
    refine iff_of_true ?_ trivial
    simp only [Error.into_ipc_err]
    rw [BitVec.mul_comm]
    exact code_reported (codes.generic_pos (by decide)) (codes.generic_lt _)
  | InvalidState reason =>
    refine iff_of_true ?_ trivial
    simp only [Error.into_ipc_err]
    rw [BitVec.mul_comm]
    exact code_reported (codes.generic_pos (by decide)) (codes.generic_lt _)
  | Unknown n => exact hcarried n
  | Protocol n => exact hcarried n

theorem GenericErr.from_u64_code (codes : Codes) (e : GenericErr) :
    GenericErr.from_u64 codes (BitVec.ofNat 64 (codes.generic e)) = some e := by
  have hinj (e' : GenericErr)
      (h : BitVec.ofNat 64 (codes.generic e') = BitVec.ofNat 64 (codes.generic e)) : e' = e := by
    apply codes.generic_injective
    have hval := congrArg BitVec.toNat h
    have hlt := codes.generic_lt e
    have hlt' := codes.generic_lt e'
    rw [BitVec.toNat_ofNat, BitVec.toNat_ofNat] at hval
    omega
  unfold GenericErr.from_u64
  cases hfind : GenericErr.variants.find? _ with
  | none =>
    have hnone := List.find?_eq_none.mp hfind e e.mem_variants
    simp at hnone
  | some e' =>
    have hmatch := List.find?_some hfind
    rw [hinj e' (by simpa using hmatch)]

theorem GenericErr.code_of_from_u64 {codes : Codes} {n : BitVec 64} {e : GenericErr}
    (h : GenericErr.from_u64 codes n = some e) : BitVec.ofNat 64 (codes.generic e) = n := by
  have hmatch := List.find?_some h
  simpa using hmatch

private theorem abs_of_neg {label : BitVec 64} (h : label.toInt < 0) : label.abs = -label := by
  rw [BitVec.abs_eq, if_pos]
  rw [BitVec.msb_eq_toInt]
  simpa using h

theorem relayed_iff_namesGeneric (codes : Codes) {label : BitVec 64} (hneg : label.toInt < 0)
    (hfits : LabelFits label) : Relayed codes label ↔ NamesGeneric codes label := by
  obtain ⟨hlo, hhi⟩ := hfits
  unfold Relayed NamesGeneric Error.from_ipc
  by_cases hcap : label = Error.INVALID_CAP_CODE
  · subst hcap
    exact iff_of_false (by simp only [if_true, Error.into_ipc_err]; decide) (fun h => h.1 rfl)
  by_cases henc : label = Error.INVALID_ENCODING
  · subst henc
    refine iff_of_false ?_ (fun h => h.2.1 rfl)
    rw [if_neg hcap, if_pos rfl]
    simp only [Error.into_ipc_err]
    decide
  rw [if_neg hcap, if_neg henc, abs_of_neg hneg]
  cases hcode : GenericErr.from_u64 codes (-label) with
  | some e =>
    have hval := GenericErr.code_of_from_u64 hcode
    have hback : BitVec.ofNat 64 (codes.generic e) * -1 = label := by
      rw [hval, mul_neg_one, BitVec.neg_neg]
    refine iff_of_true hback ⟨hcap, henc, e, ?_⟩
    rw [← hback, neg_code_toInt (codes.generic_lt e), Int.neg_neg]
  | none =>
    refine iff_of_false ?_ ?_
    · intro hback
      have hint := congrArg BitVec.toInt hback
      simp only [Error.into_ipc_err] at hint
      rw [neg_toInt, Int.bmod_def] at hint
      omega
    · rintro ⟨_, _, e, he⟩
      have hval : BitVec.ofNat 64 (codes.generic e) = -label := by
        apply BitVec.eq_of_toInt_eq
        have hlt := codes.generic_lt e
        rw [BitVec.toInt_neg, ← he, BitVec.toInt_ofNat']
      rw [← hval, GenericErr.from_u64_code] at hcode
      cases hcode

/-- Exactly the reportable errors reach the client as errors, and exactly the
labels that name a generic code survive being relayed. -/
theorem reply_path_iff (codes : Codes) (l4_ipc_error : MsgTag → BitVec 64) :
    (∀ e : Error, e ≠ .Generic .Ok → (e.Reported codes l4_ipc_error ↔ e.Reportable)) ∧
      ∀ label : BitVec 64, label.toInt < 0 → LabelFits label →
        (Relayed codes label ↔ NamesGeneric codes label) :=
  ⟨fun e he => Error.reported_iff_reportable codes l4_ipc_error e he,
    fun _ hneg hfits => relayed_iff_namesGeneric codes hneg hfits⟩

/-- Both ways of reporting that memory has run out reach the client as that error. -/
theorem reply_path_no_mem :
    (Error.Generic .NoMem).Reported Codes.l4re (fun _ => 0) ∧
      Relayed Codes.l4re (BitVec.ofInt 64 (-12)) := by
  obtain ⟨hreported, hrelayed⟩ := reply_path_iff Codes.l4re (fun _ => 0)
  refine ⟨(hreported _ (by decide)).mpr (by simp [Error.Reportable]), ?_⟩
  refine (hrelayed _ (by decide) ⟨by decide, by decide⟩).mpr ⟨by decide, by decide, .NoMem, ?_⟩
  decide

/-- An invalid capability is sent as the positive label 65540, which the client
takes for success; and an unknown code comes back with its sign flipped. -/
theorem reply_path_fails :
    Error.into_ipc_err Codes.l4re .InvalidCap = 65540#64 ∧
      (MsgTag.new 65540#64 0#32 0#32 0#32).result Codes.l4re (fun _ => 0) =
        .ok (MsgTag.new 65540#64 0#32 0#32 0#32) ∧
      (Error.from_ipc Codes.l4re (BitVec.ofInt 64 (-70000))).into_ipc_err Codes.l4re = 70000#64 ∧
      ¬ ReplyPath Codes.l4re (fun _ => 0) := by
  refine ⟨by decide, by decide, by decide, ?_⟩
  rintro ⟨hreported, _⟩
  have hcap := hreported .InvalidCap (by decide)
  rw [Error.reported_iff_reportable _ _ _ (by decide)] at hcap
  exact hcap

end l4.error
