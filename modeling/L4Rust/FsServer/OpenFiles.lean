import L4Rust.Library.Files
import L4Rust.Library.Simulation
import L4Rust.Library.Unsigned
import L4Rust.FsServer.Confinement

open l4_sys

namespace fs_server

/-- How the state of the FAT library is understood: which file a path names, what the files hold, and where
the open ones are. A path names the same file in every state, as where there is only one spelling of each name
and nothing is renamed. What was written to an open file need not be stored before it is dropped. -/
structure Volume (φ ι κ : Type) where
  ident : String → κ
  stored : φ → κ → List UInt8
  file : ι → κ
  position : ι → Nat
  held : φ → ι → List UInt8
  Valid : φ → ι → Prop

variable {φ ι κ : Type} {lib : FileSystem φ ι}

namespace Volume

/-- Nothing is done to the other files, whether they are open or not. -/
structure Apart (V : Volume φ ι κ) (k : κ) (fs fs' : φ) : Prop where
  stored : ∀ k', k' ≠ k → V.stored fs' k' = V.stored fs k'
  valid : ∀ f, V.Valid fs f → V.file f ≠ k → V.Valid fs' f
  held : ∀ f, V.Valid fs f → V.file f ≠ k → V.held fs' f = V.held fs f

theorem Apart.trans {V : Volume φ ι κ} {k : κ} {fs fs' fs'' : φ} (h : V.Apart k fs fs')
    (h' : V.Apart k fs' fs'') : V.Apart k fs fs'' := by
  refine ⟨fun k' hk => ?_, fun f hf hk => ?_, fun f hf hk => ?_⟩
  · rw [h'.stored k' hk, h.stored k' hk]
  · exact h'.valid f (h.valid f hf hk) hk
  · rw [h'.held f (h.valid f hf hk) hk, h.held f hf hk]

/-- Nothing is done to any file. -/
structure Kept (V : Volume φ ι κ) (fs fs' : φ) : Prop where
  stored : ∀ k, V.stored fs' k = V.stored fs k
  valid : ∀ f, V.Valid fs f → V.Valid fs' f
  held : ∀ f, V.Valid fs f → V.held fs' f = V.held fs f

/-- A file is opened at its beginning. -/
structure Opens (V : Volume φ ι κ) (k : κ) (fs : φ) (f : ι) (fs' : φ) : Prop where
  apart : V.Apart k fs fs'
  valid : V.Valid fs' f
  file : V.file f = k
  position : V.position f = 0
  held : V.held fs' f = V.stored fs k

/-- An open file goes on by some bytes, and then holds these. -/
structure Goes (V : Volume φ ι κ) (fs : φ) (f : ι) (n : Nat) (content : List UInt8) (fs' : φ) (f' : ι) :
    Prop where
  apart : V.Apart (V.file f) fs fs'
  valid : V.Valid fs' f'
  file : V.file f' = V.file f
  position : V.position f' = V.position f + n
  held : V.held fs' f' = content

end Volume

/-- What the server relies on. It is documented that files are read and written from where they are, that reading
gives nothing only at the end of a file, and that a call that fails has read or written nothing. Besides, a file
that is dropped has what it holds stored: the library has no way to tell of a flush that fails there, so this is
asked of its storage. -/
structure FileSystem.Documented (lib : FileSystem φ ι) (V : Volume φ ι κ) : Prop where
  count_entries : ∀ fs, V.Kept fs (lib.count_entries fs).2
  create_file : ∀ p fs f fs', lib.create_file p fs = (.ok f, fs') → V.Opens (V.ident p) fs f fs'
  create_fails : ∀ p fs e fs', lib.create_file p fs = (.error e, fs') → V.Kept fs fs'
  open_file : ∀ p fs f fs', lib.open_file p fs = (.ok f, fs') → V.Opens (V.ident p) fs f fs'
  open_fails : ∀ p fs e fs', lib.open_file p fs = (.error e, fs') → V.Kept fs fs'
  read : ∀ f buf fs n buf' f' fs', V.Valid fs f → lib.read f buf fs = (.ok n, buf', f', fs') →
    V.Goes fs f n (V.held fs f) fs' f' ∧ n ≤ buf.length ∧ buf'.length = buf.length ∧
      buf'.take n = ((V.held fs f).drop (V.position f)).take n ∧
      (n = 0 → buf = [] ∨ (V.held fs f).length ≤ V.position f)
  read_fails : ∀ f buf fs e buf' f' fs', V.Valid fs f → lib.read f buf fs = (.error e, buf', f', fs') →
    V.Goes fs f 0 (V.held fs f) fs' f'
  write : ∀ f data fs n f' fs', V.Valid fs f → lib.write f data fs = (.ok n, f', fs') →
    V.Goes fs f n (overwrite (V.held fs f) (V.position f) (data.take n)) fs' f' ∧ n ≤ data.length
  write_fails : ∀ f data fs e f' fs', V.Valid fs f → lib.write f data fs = (.error e, f', fs') →
    V.Goes fs f 0 (V.held fs f) fs' f'
  seek_end : ∀ f fs result f' fs', V.Valid fs f → lib.seek_end f fs = (result, f', fs') →
    (∃ n, V.Goes fs f n (V.held fs f) fs' f') ∧
      ∀ size, result = .ok size → size = (V.held fs f).length ∧ size < 2 ^ 64
  drop : ∀ f fs, V.Valid fs f →
    V.Apart (V.file f) fs (lib.drop f fs) ∧ V.stored (lib.drop f fs) (V.file f) = V.held fs f

/-- A message, and the vacant key that the slab finds. -/
structure Incoming where
  utcb : Utcb
  key : Nat

/-- The slab finds a vacant key, below the size of any object, and no file is opened that is open. -/
structure Incoming.Lawful (V : Volume φ ι κ) (s : Server φ ι) (incoming : Incoming) : Prop where
  vacant : s.handles incoming.key = none
  small : incoming.key < 2 ^ 63
  alone : incoming.utcb.mr 0 = 1 ∨ incoming.utcb.mr 0 = 5 → ∀ p, client_path incoming.utcb.br = some p →
    ∀ fd f, s.handles fd = some f → V.file f ≠ V.ident p

/-- The server from its start on. -/
def server (lib : FileSystem φ ι) (V : Volume φ ι κ) (fs : φ) : Machine (Server φ ι) Incoming where
  init s := s.fs = fs ∧ s.handles = .new
  allowed s incoming := incoming.Lawful V s
  step s incoming := s.run lib incoming.utcb incoming.key

/-- A word that stands for an error. -/
def Negative (w : UInt64) : Prop := w.toInt64.toInt < 0

instance (w : UInt64) : Decidable (Negative w) := inferInstanceAs (Decidable (_ < _))

/-- What the answer to a request on an open file tells. -/
def answered (fd : Nat) (w : UInt64) (e : Files.Event κ Nat UInt8) : Files.Event κ Nat UInt8 :=
  if w = neg_errno EBADF then .refused fd else if Negative w then .failed fd else e

/-- What a request and its reply tell of the files. -/
def told (ident : String → κ) (request reply : Utcb) : Option (Files.Event κ Nat UInt8) :=
  let fd := (request.mr 1).toNat
  let result := reply.mr 0
  match request.mr 0 with
  | 1 => if Negative result then none else (client_path request.br).map fun p => .opened result.toNat (ident p)
  | 2 =>
    some (answered fd result (.read fd (min (request.mr 2).toNat BR_DATA_MAX) (reply.br.bytes result.toNat)))
  | 3 => some (answered fd result (.wrote fd (br_read_bytes request.br) result.toNat))
  | 4 => some (answered fd result (.closed fd))
  | 5 => if result = 0 then (client_path request.br).map fun p => .sized (ident p) (reply.mr 1).toNat else none
  | _ => none

/-- No file is touched as the clients see it. -/
structure Same (V : Volume φ ι κ) (s t : Server φ ι) : Prop where
  handles : t.handles = s.handles
  stored : ∀ k, V.stored t.fs k = V.stored s.fs k
  valid : ∀ fd f, s.handles fd = some f → V.Valid t.fs f
  held : ∀ fd f, s.handles fd = some f → V.held t.fs f = V.held s.fs f

/-- The ways in which a round of the server loop ends, with what the client is told. -/
inductive Effect (V : Volume φ ι κ) (s t : Server φ ι) : Option (Files.Event κ Nat UInt8) → Prop
  | quiet (hsame : Same V s t) : Effect V s t none
  | refused (fd : Nat) (hsame : Same V s t) (hnone : s.handles fd = none) : Effect V s t (some (.refused fd))
  | sized (k : κ) (size : Nat) (hsame : Same V s t) (hclosed : ∀ fd f, s.handles fd = some f → V.file f ≠ k)
      (hsize : size = (V.stored s.fs k).length) : Effect V s t (some (.sized k size))
  | opened (fd : Nat) (f : ι) (k : κ) (hvacant : s.handles fd = none)
      (hclosed : ∀ fd f, s.handles fd = some f → V.file f ≠ k) (hopens : V.Opens k s.fs f t.fs)
      (hhandles : t.handles = s.handles.insert fd f) : Effect V s t (some (.opened fd k))
  | read (fd : Nat) (f f' : ι) (asked : Nat) (data : List UInt8) (hfile : s.handles fd = some f)
      (hgoes : V.Goes s.fs f data.length (V.held s.fs f) t.fs f') (hhandles : t.handles = s.handles.insert fd f')
      (hasked : data.length ≤ asked)
      (hdata : data = ((V.held s.fs f).drop (V.position f)).take data.length)
      (hend : data = [] → asked = 0 ∨ (V.held s.fs f).length ≤ V.position f) :
      Effect V s t (some (.read fd asked data))
  | wrote (fd : Nat) (f f' : ι) (offered : List UInt8) (count : Nat) (hfile : s.handles fd = some f)
      (hcount : count ≤ offered.length)
      (hgoes : V.Goes s.fs f count (overwrite (V.held s.fs f) (V.position f) (offered.take count)) t.fs f')
      (hhandles : t.handles = s.handles.insert fd f') : Effect V s t (some (.wrote fd offered count))
  | failed (fd : Nat) (f f' : ι) (hfile : s.handles fd = some f)
      (hgoes : V.Goes s.fs f 0 (V.held s.fs f) t.fs f') (hhandles : t.handles = s.handles.insert fd f') :
      Effect V s t (some (.failed fd))
  | closed (fd : Nat) (f : ι) (hfile : s.handles fd = some f) (hapart : V.Apart (V.file f) s.fs t.fs)
      (hstored : V.stored t.fs (V.file f) = V.held s.fs f) (hhandles : t.handles = s.handles.remove fd) :
      Effect V s t (some (.closed fd))

section Words

end Words

section Handlers

variable {V : Volume φ ι κ} {s t : Server φ ι} {utcb : Utcb}

variable (hlib : lib.Documented V) (hvalid : ∀ fd f, s.handles fd = some f → V.Valid s.fs f)

include hlib hvalid

end Handlers

/-- The open files and what the files hold, as they are known to somebody who was told everything. -/
structure Shows (V : Volume φ ι κ) (s : Server φ ι) (files : Files κ Nat UInt8) : Prop where
  opened : ∀ fd, files.opened fd = (s.handles fd).map fun f => ⟨V.file f, V.position f⟩
  valid : ∀ fd f, s.handles fd = some f → V.Valid s.fs f
  held : ∀ fd f, s.handles fd = some f → V.held s.fs f = files.content (V.file f)
  stored : ∀ k, files.Closed k → V.stored s.fs k = files.content k
  alone : ∀ fd fd' f f', s.handles fd = some f → s.handles fd' = some f' → V.file f = V.file f' → fd = fd'

section Shown

variable {V : Volume φ ι κ} {s t : Server φ ι} {files : Files κ Nat UInt8}

theorem Shows.opened_some (h : Shows V s files) {fd : Nat} {f : ι} (hf : s.handles fd = some f) :
    files.opened fd = some ⟨V.file f, V.position f⟩ := by
  rw [h.opened, hf, Option.map_some]

theorem Shows.closed_iff (h : Shows V s files) {k : κ} :
    files.Closed k ↔ ∀ fd f, s.handles fd = some f → V.file f ≠ k := by
  constructor
  · intro hclosed fd f hf
    exact hclosed fd _ (h.opened_some hf)
  · intro hclosed fd o ho
    rw [h.opened] at ho
    obtain ⟨f, hf, rfl⟩ := Option.map_eq_some_iff.mp ho
    exact hclosed fd f hf

theorem Shows.same (h : Shows V s files) (hsame : Same V s t) : Shows V t files := by
  refine ⟨fun fd => ?_, fun fd f hf => ?_, fun fd f hf => ?_, fun k hk => ?_, fun fd fd' f f' hf hf' => ?_⟩
  · rw [hsame.handles]
    exact h.opened fd
  · rw [hsame.handles] at hf
    exact hsame.valid fd f hf
  · rw [hsame.handles] at hf
    rw [hsame.held fd f hf]
    exact h.held fd f hf
  · rw [hsame.stored]
    exact h.stored k hk
  · rw [hsame.handles] at hf hf'
    exact h.alone fd fd' f f' hf hf'

variable [DecidableEq κ]

theorem Shows.opens (h : Shows V s files) {fd : Nat} {f : ι} {k : κ} (hvacant : s.handles fd = none)
    (hclosed : files.Closed k) (hopens : V.Opens k s.fs f t.fs) (hhandles : t.handles = s.handles.insert fd f) :
    Shows V t (files.after (.opened fd k)) := by
  have hsome {fd' : Nat} {g : ι} (hg : t.handles fd' = some g) :
      (fd' = fd ∧ g = f) ∨ (fd' ≠ fd ∧ s.handles fd' = some g) := by
    rw [hhandles] at hg
    exact Files.of_update_some hg
  have hother := h.closed_iff.mp hclosed
  refine ⟨fun fd' => ?_, fun fd' g hg => ?_, fun fd' g hg => ?_, fun k' hk => ?_,
    fun fd₁ fd₂ g₁ g₂ hg₁ hg₂ hfile => ?_⟩
  · rw [hhandles, Slab.insert, Files.after]
    dsimp only
    by_cases hfd : fd' = fd
    · subst hfd
      rw [Function.update_self, Function.update_self, Option.map_some, hopens.file, hopens.position]
    · rw [Function.update_of_ne hfd, Function.update_of_ne hfd]
      exact h.opened fd'
  · obtain ⟨rfl, rfl⟩ | ⟨-, hg⟩ := hsome hg
    · exact hopens.valid
    · exact hopens.apart.valid g (h.valid fd' g hg) (hother fd' g hg)
  · obtain ⟨rfl, rfl⟩ | ⟨-, hg⟩ := hsome hg
    · rw [hopens.held, hopens.file]
      exact h.stored k hclosed
    · rw [hopens.apart.held g (h.valid fd' g hg) (hother fd' g hg)]
      exact h.held fd' g hg
  · have hself : (files.after (.opened fd k)).opened fd = some ⟨k, 0⟩ := Function.update_self ..
    have hk' : k' ≠ k := (hk fd _ hself).symm
    have hclosed' : files.Closed k' := by
      rw [h.closed_iff]
      intro fd' g hg
      have hfd : fd' ≠ fd := by
        rintro rfl
        rw [hvacant] at hg
        cases hg
      refine hk fd' ⟨V.file g, V.position g⟩ ?_
      rw [← h.opened_some hg]
      exact Function.update_of_ne hfd ..
    rw [hopens.apart.stored k' hk']
    exact h.stored k' hclosed'
  · obtain ⟨rfl, rfl⟩ | ⟨-, hg₁⟩ := hsome hg₁
    · obtain ⟨rfl, -⟩ | ⟨-, hg₂⟩ := hsome hg₂
      · rfl
      · exact absurd (hfile.symm.trans hopens.file) (hother fd₂ g₂ hg₂)
    · obtain ⟨rfl, rfl⟩ | ⟨-, hg₂⟩ := hsome hg₂
      · exact absurd (hfile.trans hopens.file) (hother fd₁ g₁ hg₁)
      · exact h.alone fd₁ fd₂ g₁ g₂ hg₁ hg₂ hfile

theorem Shows.closes (h : Shows V s files) {fd : Nat} {f : ι} (hf : s.handles fd = some f)
    (hapart : V.Apart (V.file f) s.fs t.fs) (hstored : V.stored t.fs (V.file f) = V.held s.fs f)
    (hhandles : t.handles = s.handles.remove fd) : Shows V t (files.after (.closed fd)) := by
  have hsome {fd' : Nat} {g : ι} (hg : t.handles fd' = some g) : fd' ≠ fd ∧ s.handles fd' = some g := by
    rw [hhandles, Slab.remove] at hg
    by_cases hfd : fd' = fd
    · subst hfd
      rw [Function.update_self] at hg
      cases hg
    · rw [Function.update_of_ne hfd] at hg
      exact ⟨hfd, hg⟩
  have hother {fd' : Nat} {g : ι} (hne : fd' ≠ fd) (hg : s.handles fd' = some g) : V.file g ≠ V.file f :=
    fun heq => hne (h.alone fd' fd g f hg hf heq)
  refine ⟨fun fd' => ?_, fun fd' g hg => ?_, fun fd' g hg => ?_, fun k hk => ?_, fun fd₁ fd₂ g₁ g₂ hg₁ hg₂ => ?_⟩
  · rw [hhandles, Slab.remove, Files.after]
    dsimp only
    by_cases hfd : fd' = fd
    · subst hfd
      rw [Function.update_self, Function.update_self, Option.map_none]
    · rw [Function.update_of_ne hfd, Function.update_of_ne hfd]
      exact h.opened fd'
  · obtain ⟨hne, hg⟩ := hsome hg
    exact hapart.valid g (h.valid fd' g hg) (hother hne hg)
  · obtain ⟨hne, hg⟩ := hsome hg
    rw [hapart.held g (h.valid fd' g hg) (hother hne hg)]
    exact h.held fd' g hg
  · by_cases hk' : k = V.file f
    · rw [hk', hstored]
      exact h.held fd f hf
    · have hclosed : files.Closed k := by
        rw [h.closed_iff]
        intro fd' g hg
        by_cases hfd : fd' = fd
        · subst hfd
          rw [hf] at hg
          cases hg
          exact Ne.symm hk'
        · refine hk fd' ⟨V.file g, V.position g⟩ ?_
          rw [← h.opened_some hg]
          exact Function.update_of_ne hfd ..
      rw [hapart.stored k hk']
      exact h.stored k hclosed
  · exact h.alone fd₁ fd₂ g₁ g₂ (hsome hg₁).2 (hsome hg₂).2

end Shown

section Runs

variable [DecidableEq κ] {V : Volume φ ι κ}

/-- What the client is told of a round. -/
def told_in (lib : FileSystem φ ι) (V : Volume φ ι κ) (s : Server φ ι) (incoming : Incoming) :
    Option (Files.Event κ Nat UInt8) :=
  (s.run lib incoming.utcb incoming.key).bind fun t => told V.ident incoming.utcb t.utcb

/-- What the replies have told so far. -/
def replies (lib : FileSystem φ ι) (V : Volume φ ι κ) (past : List (Server φ ι × Incoming)) :
    List (Files.Event κ Nat UInt8) :=
  past.filterMap fun p => told_in lib V p.1 p.2

end Runs

/-- A message, and the first key as long as it is vacant. -/
def request (key : Nat) (words : List UInt64) (br : Br) : Incoming :=
  ⟨.receive (fun i => words.getD i 0) br, key⟩

def opening : Incoming := request 0 [1] (sending "/bin/a")

end fs_server
