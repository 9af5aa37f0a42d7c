import L4Rust.FdServer

open l4_sys (Br)

namespace fd_server

open libc

variable {br : Br} {p : List UInt8}

/-- The terminator that is there in any case makes `CString::new` fail. -/
theorem read_string_eq_none (br : Br) : read_string br = none := by
  apply if_pos
  by_cases hlast : (br_read_bytes br).getLast? ≠ some 0
  · rw [if_pos hlast]
    exact List.mem_append_right _ (List.mem_singleton_self _)
  · rw [if_neg hlast]
    exact List.mem_of_getLast? (not_not.mp hlast)

/-- No watch is ever added: a handle that exists gets the error for a path that is not one. -/
theorem handle_inotify_add_watch_eq (host : Host) (ctx : Ctx Inotify) :
    handle_inotify_add_watch host ctx =
      ctx.get_or_badf (ctx.mr 1).toNat fun _ => ctx.reply (neg_errno EINVAL) := by
  simp only [handle_inotify_add_watch, read_string_eq_none]

/-- A path is decoded, with or without a terminator of its own, and only payloads with a zero
before the last position are refused. -/
structure DecodesPaths (br : Br) : Prop where
  decoded : ∀ p, 0 ∉ p → p.length ≤ BR_DATA_BYTES - 1 →
    br_read_bytes br = p ∨ br_read_bytes br = p ++ [0] → read_string br = some p
  refused : read_string br = none ↔ 0 ∈ (br_read_bytes br).dropLast

/-- A payload that is a path has no zero before the last position. -/
theorem not_mem_dropLast (hp : 0 ∉ p) (h : br_read_bytes br = p ∨ br_read_bytes br = p ++ [0]) :
    0 ∉ (br_read_bytes br).dropLast := by
  intro hmem
  rcases h with h | h
  · rw [h] at hmem
    exact hp (List.dropLast_subset _ hmem)
  · rw [h, List.dropLast_concat] at hmem
    exact hp hmem

/-- Watch paths are decoded as they should be if and only if the payload has a zero before its
last position, which is the one kind that is to be refused. -/
theorem read_string_decodes_iff (br : Br) : DecodesPaths br ↔ 0 ∈ (br_read_bytes br).dropLast := by
  constructor
  · intro h
    exact h.refused.mp (read_string_eq_none br)
  · intro hzero
    refine ⟨fun p hp _ hpayload => ?_, iff_of_true (read_string_eq_none br) hzero⟩
    exact absurd hzero (not_mem_dropLast hp hpayload)

/-- The path "/tmp" is refused. -/
theorem watch_path_refused :
    ¬ DecodesPaths ⟨4, fun i => [0x2f, 0x74, 0x6d, 0x70].getD i 0⟩ := by
  intro h
  have hdecoded := h.decoded [0x2f, 0x74, 0x6d, 0x70] (by decide) (by decide) (Or.inl (by decide))
  rw [read_string_eq_none] at hdecoded
  cases hdecoded

end fd_server
