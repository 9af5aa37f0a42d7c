import L4Rust.Library.Blocks
import L4Rust.Library.LittleEndian
import L4Rust.VirtioFrontend.Transport
import Mathlib.Data.List.Induction

namespace driver_server

open virtio_frontend.transport

/-- The message registers. -/
abbrev Mr : Type := Nat → UInt64

def u64_MAX : UInt64 := .ofNat (2 ^ 64 - 1)

/-- One round of the server loop, for a message that was received. It has no result if the server
is stopped. -/
def run (transport : VirtioTransport) (mr : Mr) : Option (VirtioTransport × Mr) :=
  match mr 0 with
  | 0 => some (transport, Function.update mr 0 transport.device_features)
  | 1 =>
    let (negotiated, transport) := transport.negotiate_features (mr 1)
    some (transport, Function.update mr 0 negotiated)
  | 2 =>
    let off := mr 1
    let val := LittleEndian.encode 8 (mr 2).toNat
    (transport.write_config off (val.take 4)).map fun transport =>
      (transport, Function.update mr 0 0)
  | 3 =>
    let off := mr 1
    (transport.read_config off (List.replicate 4 0)).map fun buf =>
      (transport, Function.update mr 0 (.ofNat (LittleEndian.decode buf)))
  | _ => some (transport, Function.update mr 0 u64_MAX)

/-- The rounds for messages that come one after the other, from the start of the server. -/
def serve (requests : List Mr) : Option VirtioTransport :=
  requests.foldlM (fun transport mr => (run transport mr).map Prod.fst) (.new 0 8)

/-- The config space is read or written. -/
def AccessesConfig (mr : Mr) : Prop := mr 0 = 2 ∨ mr 0 = 3

/-- The four bytes are inside the config space. -/
def InRange (mr : Mr) : Prop := (mr 1).toNat + 4 ≤ 8

instance (mr : Mr) : Decidable (AccessesConfig mr) := inferInstanceAs (Decidable (_ ∨ _))

instance (mr : Mr) : Decidable (InRange mr) := inferInstanceAs (Decidable (_ ≤ _))

/-- The low 32 bits of the value of a write, as bytes. -/
def valueBytes (mr : Mr) : List UInt8 := LittleEndian.encode 4 (mr 2).toUInt32.toNat

/-- What a request writes to a byte, if it does. -/
def written (mr : Mr) (i : Nat) : Option UInt8 :=
  if mr 0 = 2 ∧ InRange mr ∧ (mr 1).toNat ≤ i then (valueBytes mr)[i - (mr 1).toNat]? else none

/-- The bytes most recently written, and 0 before. -/
def lastWritten (requests : List Mr) : Memory := fun i =>
  (requests.reverse.findSome? fun mr => written mr i).getD 0

/-- After some requests, the next one is answered as by a memory of eight bytes. -/
def AnsweredByMemory (before : List Mr) (mr : Mr) : Prop :=
  ∃ transport after reply, serve before = some transport ∧ run transport mr = some (after, reply) ∧
    (mr 0 = 2 → InRange mr → reply 0 = 0 ∧
      after = { transport with config := Blocks.splice transport.config (mr 1).toNat (valueBytes mr) }) ∧
    (mr 0 = 3 → InRange mr → after = transport ∧
      (reply 0).toNat = LittleEndian.decode ((lastWritten before).load (mr 1).toNat 4)) ∧
    (AccessesConfig mr → ¬ InRange mr → reply 0 = u64_MAX ∧ after.config = transport.config)

variable {before requests : List Mr} {mr : Mr} {transport : VirtioTransport}

theorem serve_concat (before : List Mr) (mr : Mr) :
    serve (before ++ [mr]) = (serve before).bind fun transport => (run transport mr).map Prod.fst := by
  simp [serve, List.foldlM_append]

theorem lastWritten_concat (before : List Mr) (mr : Mr) (i : Nat) :
    lastWritten (before ++ [mr]) i = (written mr i).getD (lastWritten before i) := by
  unfold lastWritten
  rw [List.reverse_append, List.reverse_singleton, List.singleton_append, List.findSome?_cons]
  cases written mr i with
  | none => rfl
  | some byte => rfl

/-- A write in range is a store. -/
theorem lastWritten_of_write (hop : mr 0 = 2) (hrange : InRange mr) :
    lastWritten (before ++ [mr]) = (lastWritten before).store (mr 1).toNat (valueBytes mr) := by
  funext i
  rw [lastWritten_concat, written, Memory.store]
  by_cases hoff : (mr 1).toNat ≤ i
  · rw [if_pos ⟨hop, hrange, hoff⟩, if_pos hoff, List.getD_eq_getElem?_getD]
  · rw [if_neg (fun h => hoff h.2.2), if_neg hoff, Option.getD_none]

theorem lastWritten_of_not_write (hop : mr 0 ≠ 2) :
    lastWritten (before ++ [mr]) = lastWritten before := by
  funext i
  rw [lastWritten_concat, written, if_neg (fun h => hop h.1), Option.getD_none]

theorem length_valueBytes (mr : Mr) : (valueBytes mr).length = 4 := LittleEndian.length_encode ..

theorem take_val (mr : Mr) : (LittleEndian.encode 8 (mr 2).toNat).take 4 = valueBytes mr := by
  rw [LittleEndian.take_encode _ (by decide), ← LittleEndian.encode_mod, valueBytes, UInt64.toNat_toUInt32]
  rfl

theorem run_of_write (hop : mr 0 = 2) :
    run transport mr = (transport.write_config (mr 1) (valueBytes mr)).map fun transport =>
      (transport, Function.update mr 0 0) := by
  rw [← take_val]
  unfold run
  rw [hop]
  rfl

theorem run_of_read (hop : mr 0 = 3) :
    run transport mr = (transport.read_config (mr 1) (List.replicate 4 0)).map fun buf =>
      (transport, Function.update mr 0 (.ofNat (LittleEndian.decode buf))) := by
  unfold run
  rw [hop]
  rfl

/-- The requests that are not about the config space do not touch it. -/
theorem run_of_not_access (hop : ¬ AccessesConfig mr) :
    ∃ after reply, run transport mr = some (after, reply) ∧ after.config = transport.config := by
  unfold run
  split
  · exact ⟨_, _, rfl, rfl⟩
  · exact ⟨_, _, rfl, rfl⟩
  · next hwrite => exact absurd (.inl hwrite) hop
  · next hread => exact absurd (.inr hread) hop
  · exact ⟨_, _, rfl, rfl⟩

/-- The config space is the bytes most recently written. -/
def Holds (requests : List Mr) (transport : VirtioTransport) : Prop :=
  transport.config = (lastWritten requests).load 0 8

theorem Holds.length (hold : Holds before transport) : transport.config.length = 8 := by
  rw [hold, Memory.length_load]

theorem Holds.length_lt (hold : Holds before transport) : transport.config.length < 2 ^ 64 := by
  rw [hold.length]
  decide

/-- A write in range replaces the bytes. -/
theorem run_write_of_range (hold : Holds before transport) (hop : mr 0 = 2) (hrange : InRange mr) :
    let after := { transport with config := Blocks.splice transport.config (mr 1).toNat (valueBytes mr) }
    run transport mr = some (after, Function.update mr 0 0) ∧ Holds (before ++ [mr]) after := by
  have hfits : (mr 1).toNat + (valueBytes mr).length ≤ 8 := by
    rw [length_valueBytes]
    exact hrange
  constructor
  · rw [run_of_write hop, VirtioTransport.write_config_of_range hold.length_lt (hold.length ▸ hfits)]
    rfl
  · rw [Holds, lastWritten_of_write hop hrange, hold]
    exact Blocks.splice_load _ hfits

/-- A read in range returns the bytes. -/
theorem run_read_of_range (hold : Holds before transport) (hop : mr 0 = 3) (hrange : InRange mr) :
    run transport mr = some (transport, Function.update mr 0
      (.ofNat (LittleEndian.decode ((lastWritten before).load (mr 1).toNat 4)))) := by
  have hfits : (mr 1).toNat + (List.replicate 4 (0 : UInt8)).length ≤ transport.config.length := by
    rw [hold.length]
    exact hrange
  rw [run_of_read hop, VirtioTransport.read_config_of_range hold.length_lt hfits, hold,
    List.length_replicate, Memory.take_drop_load _ _ hrange, Nat.zero_add]
  rfl

/-- Outside of the config space the server is stopped. -/
theorem run_of_not_range (hold : Holds before transport) (hop : AccessesConfig mr) (hrange : ¬ InRange mr) :
    run transport mr = none := by
  have hlen := hold.length_lt
  rcases hop with hop | hop
  · rw [run_of_write hop, VirtioTransport.write_config_of_not_range hlen]
    · rfl
    · rw [length_valueBytes]
      decide
    · rw [length_valueBytes, hold.length]
      exact hrange
  · rw [run_of_read hop, VirtioTransport.read_config_of_not_range hlen (by decide)]
    · rfl
    · rw [hold.length]
      exact hrange

/-- What one request does to the bytes, if it is not out of range. -/
theorem run_holds (hold : Holds before transport) (hrange : AccessesConfig mr → InRange mr) :
    ∃ after reply, run transport mr = some (after, reply) ∧ Holds (before ++ [mr]) after := by
  by_cases hwrite : mr 0 = 2
  · have hwritten := run_write_of_range hold hwrite (hrange (.inl hwrite))
    exact ⟨_, _, hwritten⟩
  have hsame : lastWritten (before ++ [mr]) = lastWritten before := lastWritten_of_not_write hwrite
  by_cases hread : mr 0 = 3
  · refine ⟨_, _, run_read_of_range hold hread (hrange (.inr hread)), ?_⟩
    rw [Holds, hsame]
    exact hold
  · have hother : ¬ AccessesConfig mr := not_or.mpr ⟨hwrite, hread⟩
    obtain ⟨after, reply, hrun, hconfig⟩ := run_of_not_access hother
    refine ⟨after, reply, hrun, ?_⟩
    rw [Holds, hconfig, hsame]
    exact hold

/-- Requests that are not out of range are all served. -/
theorem serve_holds (h : ∀ mr ∈ requests, AccessesConfig mr → InRange mr) :
    ∃ transport, serve requests = some transport ∧ Holds requests transport := by
  induction requests using List.reverseRecOn with
  | nil => exact ⟨.new 0 8, rfl, rfl⟩
  | append_singleton before mr ih =>
    obtain ⟨hbefore, hmr⟩ := List.forall_mem_append.mp h
    obtain ⟨transport, hserve, hold⟩ := ih hbefore
    obtain ⟨after, reply, hrun, hafter⟩ := run_holds hold (hmr mr (List.mem_singleton_self mr))
    refine ⟨after, ?_, hafter⟩
    rw [serve_concat, hserve, Option.bind_some, hrun, Option.map_some]

theorem answeredByMemory_of_inRange (hbefore : ∀ mr ∈ before, AccessesConfig mr → InRange mr)
    (hmr : AccessesConfig mr → InRange mr) : AnsweredByMemory before mr := by
  obtain ⟨transport, hserve, hold⟩ := serve_holds hbefore
  obtain ⟨after, reply, hrun, -⟩ := run_holds hold hmr
  refine ⟨transport, after, reply, hserve, hrun, ?_, ?_, fun hop hrange => absurd (hmr hop) hrange⟩
  · intro hop hrange
    obtain ⟨hwritten, -⟩ := run_write_of_range hold hop hrange
    cases hrun.symm.trans hwritten
    exact ⟨Function.update_self .., rfl⟩
  · intro hop hrange
    cases hrun.symm.trans (run_read_of_range hold hop hrange)
    refine ⟨rfl, ?_⟩
    rw [Function.update_self]
    have hdecode := LittleEndian.decode_lt ((lastWritten before).load (mr 1).toNat 4)
    rw [Memory.length_load] at hdecode
    exact UInt64.toNat_ofNat_of_lt' (hdecode.trans (by decide))

theorem inRange_of_answeredByMemory (hbefore : ∀ mr ∈ before, AccessesConfig mr → InRange mr)
    (h : AnsweredByMemory before mr) : AccessesConfig mr → InRange mr := by
  intro hop
  by_contra hrange
  obtain ⟨transport, hserve, hold⟩ := serve_holds hbefore
  obtain ⟨transport', after, reply, hserve', hrun, -⟩ := h
  cases hserve.symm.trans hserve'
  rw [run_of_not_range hold hop hrange] at hrun
  cases hrun

/-- The requests of a sequence are answered as by a memory exactly when none of them is out of
range. -/
theorem answered_by_memory_iff (requests : List Mr) :
    (∀ before mr after, requests = before ++ mr :: after → AnsweredByMemory before mr) ↔
      ∀ mr ∈ requests, AccessesConfig mr → InRange mr := by
  constructor
  · intro h
    induction requests using List.reverseRecOn with
    | nil => exact List.forall_mem_nil _
    | append_singleton before mr ih =>
      have hbefore : ∀ mr ∈ before, AccessesConfig mr → InRange mr := by
        apply ih
        rintro earlier mr' later rfl
        apply h earlier mr' (later ++ [mr])
        rw [List.append_assoc, List.cons_append]
      refine List.forall_mem_append.mpr ⟨hbefore, List.forall_mem_singleton.mpr ?_⟩
      exact inRange_of_answeredByMemory hbefore (h before mr [] rfl)
  · rintro h before mr after rfl
    obtain ⟨hbefore, hmr⟩ := List.forall_mem_append.mp h
    exact answeredByMemory_of_inRange hbefore (hmr mr (List.mem_cons_self ..))

/-- An offset whose sum with the length is too large stops the server, and so does one whose sum
wraps around. -/
theorem out_of_range_stops :
    (let write : Mr := fun i => [2, 5, 1].getD i 0;
      AccessesConfig write ∧ serve [write] = none ∧ ¬ AnsweredByMemory [] write) ∧
    (let read : Mr := fun i => [3, .ofNat (2 ^ 64 - 2)].getD i 0;
      serve [read] = none ∧ ¬ AnsweredByMemory [] read) := by
  refine ⟨⟨.inl rfl, by decide, ?_⟩, by decide, ?_⟩
  · intro h
    have hrange := inRange_of_answeredByMemory (List.forall_mem_nil _) h (.inl rfl)
    exact absurd hrange (by decide)
  · intro h
    have hrange := inRange_of_answeredByMemory (List.forall_mem_nil _) h (.inr rfl)
    exact absurd hrange (by decide)

end driver_server
