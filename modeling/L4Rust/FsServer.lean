import L4Rust.L4.MsgTag
import L4Rust.L4Sys.Utcb
import L4Rust.Library.Slab

open l4_sys (Br Utcb)

namespace fs_server

def ENOENT : Int := 2
def EIO : Int := 5
def EBADF : Int := 9

def BR_WORDS : Nat := l4_sys.UTCB_GENERIC_BUFFERS_SIZE

/-- The first word is reserved for the length. -/
def BR_DATA_MAX : Nat := BR_WORDS * 8 - 8

/-- The kinds of I/O errors that the server tells apart. -/
inductive ErrorKind where
  | NotFound
  | Other
  deriving DecidableEq, Repr

/-- The FAT library, with its state: the root directory and the files in it. Reading is
given a buffer and returns what the buffer holds afterwards. A file that is dropped may
still write to the disk. -/
structure FileSystem (φ ι : Type) where
  count_entries : φ → Nat × φ
  create_file : String → φ → Except ErrorKind ι × φ
  open_file : String → φ → Except ErrorKind ι × φ
  read : ι → List UInt8 → φ → Except ErrorKind Nat × List UInt8 × ι × φ
  write : ι → List UInt8 → φ → Except ErrorKind Nat × ι × φ
  seek_end : ι → φ → Except ErrorKind Nat × ι × φ
  drop : ι → φ → φ

def br_read_bytes (br : Br) : List UInt8 := br.bytes (min br.len.toNat BR_DATA_MAX)

def br_read_path (br : Br) : Option String := String.fromUTF8? (br_read_bytes br).toByteArray

/-- Paths below `/bin`, `/etc` and `/usr`, without the leading slash. -/
def resolve_path (p : String) : Option String :=
  match p.toList with
  | '/' :: rel =>
    if "bin/".toList.isPrefixOf rel ∨ "etc/".toList.isPrefixOf rel ∨ "usr/".toList.isPrefixOf rel then
      some (String.ofList rel)
    else none
  | _ => none

def io_to_errno : ErrorKind → Int
  | .NotFound => ENOENT
  | .Other => EIO

def neg_errno (errno : Int) : UInt64 := .ofInt (-errno)

/-- The file system, the open files, and the registers. -/
structure Server (φ ι : Type) where
  fs : φ
  handles : Slab ι
  utcb : Utcb

variable {φ ι : Type} (lib : FileSystem φ ι)

namespace Server

variable (s : Server φ ι)

def set_mr (i : Nat) (w : UInt64) : Server φ ι := { s with utcb := s.utcb.set_mr i w }

def br_write_bytes (data : List UInt8) : Server φ ι :=
  { s with utcb := s.utcb.br_write_bytes BR_DATA_MAX data }

/-- The path in the buffer registers, if the server exports it. -/
def path : Option String := (br_read_path s.utcb.br).bind resolve_path

/-- A count, or the error. -/
def answer (result : Except ErrorKind Nat) : Server φ ι :=
  match result with
  | .ok n => s.set_mr 0 (.ofNat n)
  | .error e => s.set_mr 0 (neg_errno (io_to_errno e))

end Server

/-- Operation 0: the number of entries of the root directory. -/
def list_root (s : Server φ ι) : Server φ ι :=
  let (count, fs) := lib.count_entries s.fs
  { s with fs := fs }.set_mr 0 (.ofNat count)

/-- Operation 1: a file is made if it is not there. It gets the vacant key that the slab
finds. -/
def open_path (key : Nat) (s : Server φ ι) : Server φ ι :=
  match s.path with
  | some p =>
    match lib.create_file p s.fs with
    | (.ok f, fs) => { s with fs := fs, handles := s.handles.insert key f }.set_mr 0 (.ofNat key)
    | (.error e, fs) => { s with fs := fs }.set_mr 0 (neg_errno (io_to_errno e))
  | none => s.set_mr 0 (neg_errno ENOENT)

/-- Operation 2: the data goes into the buffer registers. The buffer is zeroed before,
and a file that claims to have read more than it holds stops the server. -/
def read_fd (s : Server φ ι) : Option (Server φ ι) :=
  let fd := (s.utcb.mr 1).toNat
  let len := (s.utcb.mr 2).toNat
  match s.handles fd with
  | none => some (s.set_mr 0 (neg_errno EBADF))
  | some file =>
    let read_len := min len BR_DATA_MAX
    let (result, read_buf, file, fs) := lib.read file (List.replicate read_len 0) s.fs
    let s := { s with fs := fs, handles := s.handles.insert fd file }
    match result with
    | .ok n => if n ≤ read_len then some ((s.br_write_bytes (read_buf.take n)).answer result) else none
    | .error _ => some (s.answer result)

/-- Operation 3. -/
def write_fd (s : Server φ ι) : Server φ ι :=
  let fd := (s.utcb.mr 1).toNat
  match s.handles fd with
  | none => s.set_mr 0 (neg_errno EBADF)
  | some file =>
    let (result, file, fs) := lib.write file (br_read_bytes s.utcb.br) s.fs
    { s with fs := fs, handles := s.handles.insert fd file }.answer result

/-- Operation 4. -/
def close_fd (s : Server φ ι) : Server φ ι :=
  let fd := (s.utcb.mr 1).toNat
  match s.handles fd with
  | some file => { s with fs := lib.drop file s.fs, handles := s.handles.remove fd }.set_mr 0 0
  | none => s.set_mr 0 (neg_errno EBADF)

/-- Operation 5: the size of a file, in the second message register. -/
def stat_path (s : Server φ ι) : Server φ ι :=
  match s.path with
  | none => s.set_mr 0 (neg_errno ENOENT)
  | some p =>
    match lib.open_file p s.fs with
    | (.error e, fs) => { s with fs := fs }.set_mr 0 (neg_errno (io_to_errno e))
    | (.ok f, fs) =>
      let (result, f, fs) := lib.seek_end f fs
      let s := { s with fs := lib.drop f fs }
      match result with
      | .ok size => (s.set_mr 0 0).set_mr 1 (.ofNat size)
      | .error _ => s.set_mr 0 (neg_errno EIO)

/-- One round of the server loop, for a message and the vacant key the slab finds. -/
def Server.run (s : Server φ ι) (utcb : Utcb) (key : Nat) : Option (Server φ ι) :=
  let s := { s with utcb := utcb }
  match utcb.mr 0 with
  | 0 => some (list_root lib s)
  | 1 => some (open_path lib key s)
  | 2 => read_fd lib s
  | 3 => some (write_fd lib s)
  | 4 => some (close_fd lib s)
  | 5 => some (stat_path lib s)
  | _ => some (s.set_mr 0 (neg_errno ENOENT))

/-- The tag that every reply carries. -/
def reply_tag : l4.ipc.MsgTag := .new 0 2 0 0

end fs_server
