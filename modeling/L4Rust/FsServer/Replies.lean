import L4Rust.FsServer

open l4_sys

namespace fs_server

variable {φ ι : Type} {lib : FileSystem φ ι} {s t : Server φ ι}

/-- How a request is answered: at most the first two message registers are assigned to. -/
def Answered (before after : Utcb) : Prop :=
  after.assigned = before.assigned ++ [0] ∨ after.assigned = before.assigned ++ [0, 1]

theorem Answered.lt_two {before after : Utcb} (h : Answered before after) (hfresh : before.assigned = []) :
    ∀ i ∈ after.assigned, i < 2 := by
  rcases h with hassigned | hassigned
  · simp [hassigned, hfresh]
  · simp [hassigned, hfresh]

theorem answer_answered (s : Server φ ι) (result : Except ErrorKind Nat) :
    (s.answer result).utcb.assigned = s.utcb.assigned ++ [0] := by
  cases result with
  | ok n => rfl
  | error e => rfl

theorem open_path_answered (key : Nat) : Answered s.utcb (open_path lib key s).utcb := by
  unfold open_path
  split
  · split
    · exact .inl rfl
    · exact .inl rfl
  · exact .inl rfl

theorem read_fd_answered (h : read_fd lib s = some t) : Answered s.utcb t.utcb := by
  unfold read_fd at h
  dsimp only at h
  split at h
  · cases h
    exact .inl rfl
  · split at h
    · split at h
      · cases h
        exact .inl (answer_answered _ _)
      · cases h
    · cases h
      exact .inl (answer_answered _ _)

theorem write_fd_answered : Answered s.utcb (write_fd lib s).utcb := by
  unfold write_fd
  dsimp only
  split
  · exact .inl rfl
  · exact .inl (answer_answered _ _)

theorem close_fd_answered : Answered s.utcb (close_fd lib s).utcb := by
  unfold close_fd
  dsimp only
  split
  · exact .inl rfl
  · exact .inl rfl

theorem stat_path_answered : Answered s.utcb (stat_path lib s).utcb := by
  unfold stat_path
  split
  · exact .inl rfl
  split
  · exact .inl rfl
  dsimp only
  split
  · exact .inr (List.append_assoc ..)
  · exact .inl rfl

/-- What a round of the server loop leaves in the message registers. -/
theorem run_answered {utcb : Utcb} {key : Nat} (h : s.run lib utcb key = some t) :
    Answered utcb t.utcb := by
  unfold Server.run at h
  dsimp only at h
  split at h
  · cases h
    exact .inl rfl
  · cases h
    exact open_path_answered (s := { s with utcb := utcb }) key
  · exact read_fd_answered h
  · cases h
    exact write_fd_answered (s := { s with utcb := utcb })
  · cases h
    exact close_fd_answered (s := { s with utcb := utcb })
  · cases h
    exact stat_path_answered (s := { s with utcb := utcb })
  · cases h
    exact .inl rfl

end fs_server
