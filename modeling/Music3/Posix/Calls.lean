import Music3.Posix.Fs

/-!
# System calls, with an adversary and faults

A `Sys` is a file tree, the open descriptors, and what happens around the calls still to come:
before each call one `Turn` is taken, which makes the changes of others (`moves`) and may make the
call fail (`fault`, with the number of bytes that a failing write has already written). With no
turns left nobody interferes and no call fails for no reason.

The read side opens with `openat` relative to a descriptor that is held, never through a
symlink (`O_NOFOLLOW`); the write side goes by path. `Event` records each descriptor opened, with
the tree at that moment, and each one closed. `close` does not fail, and takes no turn.
-/

namespace Posix

open Py

/-- Why a call fails. `io` is a fault of its own. -/
inductive Errno where
  | noent | exist | notdir | isdir | loop | io
  deriving DecidableEq

/-- What happens at one call (module doc). -/
structure Turn where
  moves : List Move := []
  fault : Option Nat := none

abbrev Fd := Nat

inductive Event where
  /-- The descriptor `fd` was opened, in the tree `fs`, as the entry `name` of `dir` (`none`: by
  the path of the root). -/
  | opened (fd : Fd) (fs : Fs) (dir : Option Ino) (name : Name)
  | closed (fd : Fd)

/-- The system (module doc). A descriptor is a position in `fds`, which gives its inode. -/
structure Sys where
  fs : Fs
  turns : List Turn := []
  fds : List Ino := []
  log : List Event := []

abbrev SysM := EStateM Errno Sys

/-- The state after the next turn's changes, and the fault of the call. -/
def Sys.turn (s : Sys) : Sys × Option Nat :=
  match s.turns with
  | [] => (s, none)
  | t :: ts => ({ s with fs := s.fs.moves t.moves, turns := ts }, t.fault)

/-- The changes of others; then the call fails if it has a fault. -/
def enter : SysM Unit := do
  let (s, fault) := (← get).turn
  set s
  if fault.isSome then throw .io

/-- A new descriptor for the inode `i`. -/
def newFd (i : Ino) (dir : Option Ino) (name : Name) : SysM Fd := fun s =>
  .ok s.fds.length { s with
    fds := s.fds ++ [i], log := s.log ++ [.opened s.fds.length s.fs dir name] }

/-! ## Descriptors -/

/-- `os.open(path, O_RDONLY | O_DIRECTORY)` of the root. -/
def openRoot (path : Str) : SysM Fd := do
  enter
  let s ← get
  if path ≠ s.fs.rootPath then throw .noent
  match s.fs.node? s.fs.root with
  | some (.dir _) => newFd s.fs.root none []
  | some _ => throw .notdir
  | none => throw .noent

/-- `os.open(name, O_RDONLY | O_NOFOLLOW [| O_DIRECTORY], dir_fd=dirFd)` for a name without a
slash. -/
def openAt (dirFd : Fd) (name : Name) (directory : Bool) : SysM Fd := do
  enter
  let s ← get
  match s.fds[dirFd]? with
  | none => throw .noent
  | some d =>
    match s.fs.lookup d name with
    | none => throw .noent
    | some i =>
      match s.fs.node? i with
      | none => throw .noent
      | some (.symlink _) => throw .loop
      | some (.file _) => if directory then throw .notdir else newFd i (some d) name
      | some (.dir _) => newFd i (some d) name

/-- What `os.fstat` tells: the kind of the inode and the size of a file. -/
structure Stat where
  kind : Kind
  size : Nat

def Node.stat : Node → Stat
  | .file b => ⟨.file, b.length⟩
  | .dir _ => ⟨.dir, 0⟩
  | .symlink t => ⟨.symlink, t.length⟩

/-- `os.fstat(fd)`. -/
def fstat (fd : Fd) : SysM Stat := do
  enter
  let s ← get
  match s.fds[fd]?.bind s.fs.node? with
  | none => throw .noent
  | some x => pure x.stat

/-- `os.close(fd)`. -/
def close (fd : Fd) : SysM Unit := modify fun s => { s with log := s.log ++ [.closed fd] }

/-- All the bytes of an open file. -/
def readAll (fd : Fd) : SysM Bytes := do
  enter
  let s ← get
  match s.fds[fd]?.bind s.fs.file? with
  | none => throw .isdir
  | some b => pure b

/-! ## Listing the root -/

/-- An entry of `os.scandir`: its name and its kind, not following a symlink. -/
structure DirEntry where
  name : Name
  kind : Kind

/-- The entries of a directory, in the order of the directory. -/
def Fs.entriesOf (fs : Fs) (d : Dir) : List DirEntry :=
  d.entries.filterMap fun p => (fs.kind? p.2).map (DirEntry.mk p.1)

/-- `os.scandir(path)` of the root. -/
def scandir (path : Str) : SysM (List DirEntry) := do
  enter
  let s ← get
  if path ≠ s.fs.rootPath then throw .noent
  match s.fs.node? s.fs.root with
  | some (.dir d) => pure (s.fs.entriesOf d)
  | some _ => throw .notdir
  | none => throw .noent

/-- `entry.stat(follow_symlinks=False).st_mtime` for an entry of the root that is a directory. -/
def entryMtime (name : Name) : SysM Rat := do
  enter
  let s ← get
  match (s.fs.lookup s.fs.root name).bind s.fs.dir? with
  | some d => pure d.mtime
  | none => throw .noent

/-! ## The write side, by path -/

/-- Change the tree. -/
def change (f : Fs → Fs) : SysM Unit := modify fun s => { s with fs := f s.fs }

/-- The directory and the name of a path. -/
def locate (path : Str) : SysM (Ino × Name) := do
  let fs := (← get).fs
  match fs.locate path with
  | some (d, n) => if (fs.dir? d).isSome then pure (d, n) else throw .notdir
  | none => throw .noent

/-- `os.mkdir(path)` after its turn: fails if the entry exists. -/
def mkdirAt (path : Str) : SysM Unit := do
  let (d, n) ← locate path
  match (← get).fs.lookup d n with
  | some _ => throw .exist
  | none => change fun fs => fs.create d n (.dir .empty)

/-- `os.mkdir(path)`. -/
def mkdir (path : Str) : SysM Unit := do
  enter
  mkdirAt path

/-- `open(path, "wb")`: a new empty file, or an old one made empty. -/
def openTrunc (path : Str) : SysM Ino := do
  enter
  let (d, n) ← locate path
  let fs := (← get).fs
  match fs.lookup d n with
  | none => do
    change fun fs => fs.create d n (.file [])
    pure fs.nodes.length
  | some i =>
    match fs.node? i with
    | some (.file _) => do
      change fun fs => fs.write i []
      pure i
    | some (.dir _) => throw .isdir
    | _ => throw .loop

/-- `handle.write(data)` on a file opened at its start. A failing write leaves a part of the
data. -/
def write (i : Ino) (data : Bytes) : SysM Unit := do
  let (s, fault) := (← get).turn
  set s
  match fault with
  | some k => do
    change fun fs => fs.write i (data.take k)
    throw .io
  | none => change fun fs => fs.write i data

/-- A call on a path or a handle that changes nothing in the tree: `flush`, `fsync`, `close`, and
`open` of a directory. -/
def sync : SysM Unit := enter

/-- `os.replace(path, path')` of a file. -/
def replace (path path' : Str) : SysM Unit := do
  enter
  let (d, n) ← locate path
  let (d', n') ← locate path'
  let fs := (← get).fs
  match fs.lookup d n, (fs.lookup d' n').bind fs.dir? with
  | none, _ => throw .noent
  | some _, some _ => throw .isdir
  | some _, none => change fun fs => fs.rename d n d' n'

end Posix
