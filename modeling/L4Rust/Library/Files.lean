import L4Rust.Library.Machine
import Mathlib.Logic.Function.Basic

/-- The items from a position on are replaced, and the sequence gets longer where they reach beyond its end. -/
def overwrite {α : Type} (content : List α) (position : Nat) (data : List α) : List α :=
  content.take position ++ data ++ content.drop (position + data.length)

theorem take_overwrite {α : Type} {content data : List α} {position : Nat} (h : position ≤ content.length) :
    (overwrite content position data).take (position + data.length) = content.take position ++ data := by
  have hlength : (content.take position ++ data).length = position + data.length := by
    rw [List.length_append, List.length_take, Nat.min_eq_left h]
  rw [overwrite, ← hlength, List.take_left]

/-- An open file, with the place to read and write at. -/
structure Session (κ : Type) where
  file : κ
  position : Nat
  deriving DecidableEq, Repr

/-- What the files hold, and who has opened which. A file that is not there holds nothing. -/
structure Files (κ η α : Type) where
  content : κ → List α
  opened : η → Option (Session κ)

namespace Files

variable {κ η α : Type}

/-- What a client is told. A read may give less than is asked for, and a write may take less than is offered. -/
inductive Event (κ η α : Type) where
  | opened (h : η) (k : κ)
  | read (h : η) (asked : Nat) (data : List α)
  | wrote (h : η) (offered : List α) (count : Nat)
  | closed (h : η)
  | failed (h : η)
  | refused (h : η)
  | sized (k : κ) (size : Nat)
  deriving DecidableEq

/-- Nobody has the file open. -/
def Closed (files : Files κ η α) (k : κ) : Prop := ∀ h o, files.opened h = some o → o.file ≠ k

/-- What is told is so. Only at the end of a file is nothing read. -/
def Event.Holds (files : Files κ η α) : Event κ η α → Prop
  | .opened h k => files.opened h = none ∧ files.Closed k
  | .read h asked data => ∃ o, files.opened h = some o ∧ data.length ≤ asked ∧
      data = ((files.content o.file).drop o.position).take data.length ∧
      (data = [] → asked = 0 ∨ (files.content o.file).length ≤ o.position)
  | .wrote h offered count => (files.opened h).isSome ∧ count ≤ offered.length
  | .closed h | .failed h => (files.opened h).isSome
  | .refused h => files.opened h = none
  | .sized k size => files.Closed k ∧ size = (files.content k).length

/-- Looking up where something was put. -/
theorem of_update_some {β : Type} [DecidableEq η] {f : η → Option β} {h h' : η} {b c : β}
    (hc : Function.update f h (some b) h' = some c) : (h' = h ∧ c = b) ∨ (h' ≠ h ∧ f h' = some c) := by
  by_cases hh : h' = h
  · subst hh
    rw [Function.update_self] at hc
    exact .inl ⟨rfl, (Option.some.inj hc).symm⟩
  · rw [Function.update_of_ne hh] at hc
    exact .inr ⟨hh, hc⟩

variable [DecidableEq η]

/-- What the reads of an open file gave and its writes took, since it was opened. -/
def Event.transcript (h : η) (so_far : List α) : Event κ η α → List α
  | .opened h' _ => if h' = h then [] else so_far
  | .read h' _ data => if h' = h then so_far ++ data else so_far
  | .wrote h' offered count => if h' = h then so_far ++ offered.take count else so_far
  | .closed _ | .failed _ | .refused _ | .sized _ _ => so_far

def transcript (h : η) (events : List (Event κ η α)) : List α := events.foldl (Event.transcript h) []

theorem transcript_concat (h : η) (events : List (Event κ η α)) (e : Event κ η α) :
    transcript h (events ++ [e]) = e.transcript h (transcript h events) := by
  simp [transcript]

/-- A file is opened once at a time, and up to where it was read and written it holds what was. -/
structure Transcribed (events : List (Event κ η α)) (files : Files κ η α) : Prop where
  alone : ∀ h h' o o', files.opened h = some o → files.opened h' = some o' → o.file = o'.file → h = h'
  position : ∀ h o, files.opened h = some o → o.position = (transcript h events).length
  content : ∀ h o, files.opened h = some o → (files.content o.file).take o.position = transcript h events

variable {events : List (Event κ η α)} {files : Files κ η α} {h : η} {o : Session κ}

theorem Transcribed.position_le (hfiles : Transcribed events files) (ho : files.opened h = some o) :
    o.position ≤ (files.content o.file).length := by
  have hlength := congrArg List.length (hfiles.content h o ho)
  rw [List.length_take, ← hfiles.position h o ho] at hlength
  omega

/-- What says nothing of the open files leaves them as they are. -/
theorem Transcribed.same {e : Event κ η α} (hfiles : Transcribed events files)
    (he : ∀ h, e.transcript h (transcript h events) = transcript h events) : Transcribed (events ++ [e]) files := by
  refine ⟨hfiles.alone, fun h o ho => ?_, fun h o ho => ?_⟩
  · rw [transcript_concat, he]
    exact hfiles.position h o ho
  · rw [transcript_concat, he]
    exact hfiles.content h o ho

/-- An open file goes on. -/
def advance (files : Files κ η α) (h : η) (o : Session κ) (n : Nat) : Files κ η α :=
  { files with opened := Function.update files.opened h (some ⟨o.file, o.position + n⟩) }

/-- One open file goes on by some items, which it then holds, and the other open files are left alone. -/
theorem Transcribed.advance {e : Event κ η α} {content : κ → List α} {data : List α}
    (hfiles : Transcribed events files) (ho : files.opened h = some o)
    (hself : e.transcript h (transcript h events) = transcript h events ++ data)
    (hothers : ∀ h', h' ≠ h → e.transcript h' (transcript h' events) = transcript h' events)
    (hcontent : (content o.file).take (o.position + data.length) = (files.content o.file).take o.position ++ data)
    (hkept : ∀ k, k ≠ o.file → content k = files.content k) :
    Transcribed (events ++ [e]) (Files.advance ⟨content, files.opened⟩ h o data.length) := by
  refine ⟨fun h₁ h₂ o₁ o₂ ho₁ ho₂ hfile => ?_, fun h' o' ho' => ?_, fun h' o' ho' => ?_⟩
  · obtain ⟨rfl, rfl⟩ | ⟨-, hother₁⟩ := of_update_some ho₁
    · obtain ⟨rfl, -⟩ | ⟨-, hother₂⟩ := of_update_some ho₂
      · rfl
      · exact hfiles.alone _ _ _ _ ho hother₂ hfile
    · obtain ⟨rfl, rfl⟩ | ⟨-, hother₂⟩ := of_update_some ho₂
      · exact hfiles.alone _ _ _ _ hother₁ ho hfile
      · exact hfiles.alone _ _ _ _ hother₁ hother₂ hfile
  · obtain ⟨rfl, rfl⟩ | ⟨hne, hother⟩ := of_update_some ho'
    · rw [transcript_concat, hself, List.length_append, ← hfiles.position _ _ ho]
    · rw [transcript_concat, hothers h' hne]
      exact hfiles.position _ _ hother
  · obtain ⟨rfl, rfl⟩ | ⟨hne, hother⟩ := of_update_some ho'
    · rw [transcript_concat, hself, ← hfiles.content _ _ ho]
      exact hcontent
    · have hfile : o'.file ≠ o.file := fun heq => hne (hfiles.alone _ _ _ _ hother ho heq)
      rw [transcript_concat, hothers h' hne, ← hfiles.content _ _ hother]
      exact congrArg (List.take o'.position) (hkept _ hfile)

variable [DecidableEq κ]

def store (files : Files κ η α) (o : Session κ) (data : List α) : Files κ η α :=
  { files with content := Function.update files.content o.file (overwrite (files.content o.file) o.position data) }

def after (files : Files κ η α) : Event κ η α → Files κ η α
  | .opened h k => { files with opened := Function.update files.opened h (some ⟨k, 0⟩) }
  | .read h _ data => (files.opened h).elim files fun o => files.advance h o data.length
  | .wrote h offered count =>
    (files.opened h).elim files fun o => (files.store o (offered.take count)).advance h o (offered.take count).length
  | .closed h => { files with opened := Function.update files.opened h none }
  | .failed _ | .refused _ | .sized _ _ => files

theorem Transcribed.opened {k : κ} (hfiles : Transcribed events files) (hclosed : files.Closed k) :
    Transcribed (events ++ [.opened h k]) (files.after (.opened h k)) := by
  refine ⟨fun h₁ h₂ o₁ o₂ ho₁ ho₂ hfile => ?_, fun h' o' ho' => ?_, fun h' o' ho' => ?_⟩
  · obtain ⟨rfl, rfl⟩ | ⟨-, hother₁⟩ := of_update_some ho₁
    · obtain ⟨rfl, -⟩ | ⟨-, hother₂⟩ := of_update_some ho₂
      · rfl
      · exact absurd hfile.symm (hclosed _ _ hother₂)
    · obtain ⟨rfl, rfl⟩ | ⟨-, hother₂⟩ := of_update_some ho₂
      · exact absurd hfile (hclosed _ _ hother₁)
      · exact hfiles.alone _ _ _ _ hother₁ hother₂ hfile
  · obtain ⟨rfl, rfl⟩ | ⟨hne, hother⟩ := of_update_some ho'
    · rw [transcript_concat, Event.transcript, if_pos rfl, List.length_nil]
    · rw [transcript_concat, Event.transcript, if_neg hne.symm]
      exact hfiles.position _ _ hother
  · obtain ⟨rfl, rfl⟩ | ⟨hne, hother⟩ := of_update_some ho'
    · rw [transcript_concat, Event.transcript, if_pos rfl, List.take_zero]
    · rw [transcript_concat, Event.transcript, if_neg hne.symm]
      exact hfiles.content _ _ hother

theorem Transcribed.closed (hfiles : Transcribed events files) :
    Transcribed (events ++ [.closed h]) (files.after (.closed h)) := by
  have hopened {h' : η} {o' : Session κ} (ho' : (files.after (.closed h)).opened h' = some o') :
      files.opened h' = some o' := by
    simp only [Files.after] at ho'
    by_cases hh : h' = h
    · subst hh
      rw [Function.update_self] at ho'
      cases ho'
    · rwa [Function.update_of_ne hh] at ho'
  refine ⟨fun h₁ h₂ o₁ o₂ ho₁ ho₂ => hfiles.alone h₁ h₂ o₁ o₂ (hopened ho₁) (hopened ho₂), fun h' o' ho' => ?_,
    fun h' o' ho' => ?_⟩
  · rw [transcript_concat, Event.transcript]
    exact hfiles.position _ _ (hopened ho')
  · rw [transcript_concat, Event.transcript]
    exact hfiles.content _ _ (hopened ho')

/-- What is told next is added to what the open files hold. -/
theorem Transcribed.after {e : Event κ η α} (hfiles : Transcribed events files) (he : e.Holds files) :
    Transcribed (events ++ [e]) (files.after e) := by
  cases e with
  | opened h k => exact hfiles.opened he.2
  | closed h => exact hfiles.closed
  | failed h | refused h | sized k size => exact hfiles.same fun _ => rfl
  | read h asked data =>
    obtain ⟨o, ho, -, hdata, -⟩ := he
    rw [Files.after, ho, Option.elim_some]
    refine hfiles.advance ho (if_pos rfl) (fun h' hne => if_neg hne.symm) ?_
      fun _ _ => rfl
    rw [List.take_add, ← hdata]
  | wrote h offered count =>
    obtain ⟨o, ho⟩ := Option.isSome_iff_exists.mp he.1
    rw [Files.after, ho, Option.elim_some]
    refine hfiles.advance ho (if_pos rfl) (fun h' hne => if_neg hne.symm) ?_ fun k hk => ?_
    · rw [Function.update_self]
      exact take_overwrite (hfiles.position_le ho)
    · exact Function.update_of_ne hk ..

end Files
