import Mathlib.Data.Rat.Init
import Music3.Lib.Assoc
import Music3.Py.Str

/-!
# A file tree

Inodes are the positions of a list that only grows, so an inode is never reused and never changes
its kind (`Fs.Keeps`): a rename or a removal changes the entries of directories. The tree has a
root directory, the resolved path of that directory, and, for the links that lead elsewhere, what
the rest of the file system resolves their targets to.

`Fs.locate` finds the directory and the name of a path below the root, for the paths that are
written to. Nothing here follows a symlink: these paths are resolved (`Fs.realpath`), and a path
component that is a symlink is not a directory.

`Move` are the changes that somebody else can make to the entries: create, delete, rename,
replace by a symlink, write a file. The modification time of a directory is data; no operation
here reads a clock.
-/

namespace Posix

open Py

abbrev Ino := Nat
abbrev Name := Str

/-- A directory. Its names are distinct. -/
structure Dir where
  entries : List (Name × Ino)
  nodup : (Assoc.keys entries).Nodup
  mtime : Rat

namespace Dir

def empty : Dir := ⟨[], List.nodup_nil, 0⟩

def put (d : Dir) (n : Name) (i : Ino) : Dir :=
  { d with entries := Assoc.set d.entries n i, nodup := Assoc.nodup_set d.nodup n i }

def remove (d : Dir) (n : Name) : Dir :=
  { d with entries := Assoc.erase d.entries n, nodup := Assoc.nodup_erase d.nodup n }

end Dir

inductive Node where
  | file (data : Bytes)
  | dir (d : Dir)
  | symlink (target : Str)

inductive Kind where
  | file | dir | symlink
  deriving DecidableEq

def Node.kind : Node → Kind
  | .file _ => .file
  | .dir _ => .dir
  | .symlink _ => .symlink

/-- A file tree (module doc). -/
structure Fs where
  nodes : List Node
  root : Ino
  /-- The root as it is configured, and its `realpath`. -/
  rootPath : Str
  rootReal : Str
  /-- The `realpath` of a link's target. -/
  linkReal : Str → Str

namespace Fs

def node? (fs : Fs) (i : Ino) : Option Node := fs.nodes[i]?

def kind? (fs : Fs) (i : Ino) : Option Kind := (fs.node? i).map Node.kind

def dir? (fs : Fs) (i : Ino) : Option Dir :=
  match fs.node? i with
  | some (.dir d) => some d
  | _ => none

def file? (fs : Fs) (i : Ino) : Option Bytes :=
  match fs.node? i with
  | some (.file b) => some b
  | _ => none

/-- The inode of the entry `n` of directory `d`. -/
def lookup (fs : Fs) (d : Ino) (n : Name) : Option Ino :=
  (fs.dir? d).bind fun dir => Assoc.get? dir.entries n

/-- The file `m` of the directory `d`. -/
def fileAt (fs : Fs) (d : Ino) (m : Name) : Option Bytes := (fs.lookup d m).bind fs.file?

/-- The file `m` of the directory that is the entry `n` of the root. -/
def held (fs : Fs) (n m : Name) : Option Bytes := (fs.lookup fs.root n).bind fun i => fs.fileAt i m

def setNode (fs : Fs) (i : Ino) (x : Node) : Fs := { fs with nodes := fs.nodes.set i x }

/-- A new inode, `fs.nodes.length`. -/
def alloc (fs : Fs) (x : Node) : Fs := { fs with nodes := fs.nodes ++ [x] }

/-- Make `n` an entry of `d` for the inode `i`, replacing one that is there. -/
def link (fs : Fs) (d : Ino) (n : Name) (i : Ino) : Fs :=
  match fs.dir? d with
  | some dir => fs.setNode d (.dir (dir.put n i))
  | none => fs

def unlink (fs : Fs) (d : Ino) (n : Name) : Fs :=
  match fs.dir? d with
  | some dir => fs.setNode d (.dir (dir.remove n))
  | none => fs

/-- A new inode and an entry for it. -/
def create (fs : Fs) (d : Ino) (n : Name) (x : Node) : Fs := (fs.alloc x).link d n fs.nodes.length

def rename (fs : Fs) (d : Ino) (n : Name) (d' : Ino) (n' : Name) : Fs :=
  match fs.lookup d n with
  | some i => (fs.unlink d n).link d' n' i
  | none => fs

/-- Replace the content of the regular file `i`. -/
def write (fs : Fs) (i : Ino) (data : Bytes) : Fs :=
  match fs.file? i with
  | some _ => fs.setNode i (.file data)
  | none => fs

/-! ## What the operations keep -/

/-- Every inode of `fs` is one of `fs'`, of the same kind, and the root and the paths outside the
tree are the same. -/
structure Keeps (fs fs' : Fs) : Prop where
  kind : ∀ i k, fs.kind? i = some k → fs'.kind? i = some k
  root : fs'.root = fs.root
  rootPath : fs'.rootPath = fs.rootPath
  rootReal : fs'.rootReal = fs.rootReal
  linkReal : fs'.linkReal = fs.linkReal

theorem Keeps.refl (fs : Fs) : Keeps fs fs := ⟨fun _ _ h => h, rfl, rfl, rfl, rfl⟩

theorem Keeps.trans {a b c : Fs} (h : Keeps a b) (h' : Keeps b c) : Keeps a c :=
  ⟨fun i k hk => h'.kind i k (h.kind i k hk), h'.root.trans h.root,
    h'.rootPath.trans h.rootPath, h'.rootReal.trans h.rootReal, h'.linkReal.trans h.linkReal⟩

theorem dir?_eq_some {fs : Fs} {i : Ino} {d : Dir} :
    fs.dir? i = some d ↔ fs.node? i = some (.dir d) := by
  unfold dir?; split <;> simp_all

theorem file?_eq_some {fs : Fs} {i : Ino} {b : Bytes} :
    fs.file? i = some b ↔ fs.node? i = some (.file b) := by
  unfold file?; split <;> simp_all

theorem lookup_of_dir {fs : Fs} {d : Ino} {dir : Dir} (h : fs.dir? d = some dir) (n : Name) :
    fs.lookup d n = Assoc.get? dir.entries n := by rw [lookup, h]; rfl

theorem dir_of_lookup {fs : Fs} {d i : Ino} {n : Name} (h : fs.lookup d n = some i) :
    ∃ dir, fs.dir? d = some dir ∧ Assoc.get? dir.entries n = some i := Option.bind_eq_some_iff.mp h

theorem kind?_dir {fs : Fs} {i : Ino} {d : Dir} (h : fs.dir? i = some d) :
    fs.kind? i = some .dir := by
  rw [kind?, dir?_eq_some.mp h]; rfl

theorem kind?_file {fs : Fs} {i : Ino} {b : Bytes} (h : fs.file? i = some b) :
    fs.kind? i = some .file := by
  rw [kind?, file?_eq_some.mp h]; rfl

theorem node?_setNode (fs : Fs) (i : Ino) (x : Node) (j : Ino) :
    (fs.setNode i x).node? j = if i = j ∧ (fs.node? i).isSome then some x else fs.node? j := by
  unfold setNode node?
  rw [List.getElem?_set]
  by_cases h : i = j
  · subst h
    by_cases hl : i < fs.nodes.length <;> simp [hl]
  · simp [h]

theorem setNode_keeps {fs : Fs} {i : Ino} {x : Node} (h : fs.kind? i = some x.kind) :
    Keeps fs (fs.setNode i x) := by
  refine ⟨fun j k hk => ?_, rfl, rfl, rfl, rfl⟩
  rw [kind?, node?_setNode]
  split
  · rename_i hi
    rw [hi.1, hk] at h
    exact h.symm
  · exact hk

theorem node?_alloc (fs : Fs) (x : Node) (j : Ino) :
    (fs.alloc x).node? j = if j = fs.nodes.length then some x else fs.node? j := by
  unfold alloc node?
  rw [List.getElem?_append]
  split
  · rename_i h; rw [if_neg (Nat.ne_of_lt h)]
  · rename_i h
    split
    · rename_i e; subst e; simp
    · rename_i e
      have hlt : fs.nodes.length < j := Nat.lt_of_le_of_ne (Nat.not_lt.mp h) (Ne.symm e)
      rw [List.getElem?_eq_none (Nat.succ_le_of_lt (Nat.sub_pos_of_lt hlt)),
        List.getElem?_eq_none (Nat.le_of_lt hlt)]

theorem lt_of_node? {fs : Fs} {i : Ino} {x : Node} (h : fs.node? i = some x) :
    i < fs.nodes.length := (List.getElem?_eq_some_iff.mp h).1

theorem alloc_keeps (fs : Fs) (x : Node) : Keeps fs (fs.alloc x) := by
  refine ⟨fun i k hk => ?_, rfl, rfl, rfl, rfl⟩
  obtain ⟨y, hy, -⟩ := Option.map_eq_some_iff.mp hk
  rw [kind?, node?_alloc, if_neg (Nat.ne_of_lt (lt_of_node? hy))]
  exact hk

theorem link_keeps (fs : Fs) (d : Ino) (n : Name) (i : Ino) : Keeps fs (fs.link d n i) := by
  unfold link
  split
  · rename_i dir h; exact setNode_keeps (kind?_dir h)
  · exact .refl fs

theorem unlink_keeps (fs : Fs) (d : Ino) (n : Name) : Keeps fs (fs.unlink d n) := by
  unfold unlink
  split
  · rename_i dir h; exact setNode_keeps (kind?_dir h)
  · exact .refl fs

theorem create_keeps (fs : Fs) (d : Ino) (n : Name) (x : Node) : Keeps fs (fs.create d n x) :=
  (alloc_keeps fs x).trans (link_keeps _ _ _ _)

theorem rename_keeps (fs : Fs) (d : Ino) (n : Name) (d' : Ino) (n' : Name) :
    Keeps fs (fs.rename d n d' n') := by
  unfold rename
  split
  · exact (unlink_keeps _ _ _).trans (link_keeps _ _ _ _)
  · exact .refl fs

theorem write_keeps (fs : Fs) (i : Ino) (data : Bytes) : Keeps fs (fs.write i data) := by
  unfold write
  split
  · rename_i b h; exact setNode_keeps (kind?_file h)
  · exact .refl fs

/-! ## Paths below the root -/

/-- `os.path.join(a, b)`. -/
def join (a b : Str) : Str :=
  if b.head? = some (cp '/') then b
  else if a = [] ∨ a.getLast? = some (cp '/') then a ++ b
  else a ++ cp '/' :: b

/-- The components of a path after the component `cur` so far. Slashes that follow each other are
one. -/
def components (cur : Str) : Str → List Name
  | [] => if cur = [] then [] else [cur]
  | c :: s =>
    if c = cp '/' then if cur = [] then components [] s else cur :: components [] s
    else components (cur ++ [c]) s

/-- The components of a path below the root, or `none` for a path that is not. -/
def below (fs : Fs) (path : Str) : Option (List Name) :=
  let p := join fs.rootReal []
  if p <+: path then some (components [] (path.drop p.length)) else none

/-- Where a list of components leads from the directory `d`. -/
def walk (fs : Fs) (d : Ino) : List Name → Option Ino
  | [] => some d
  | n :: ns => (fs.lookup d n).bind fun i => fs.walk i ns

/-- The directory and the name of a path below the root. -/
def locate (fs : Fs) (path : Str) : Option (Ino × Name) :=
  (fs.below path).bind fun ns =>
    ns.getLast?.bind fun n => (fs.walk fs.root ns.dropLast).map (·, n)

/-- `os.path.realpath` of the configured root and of a path one level below it. -/
def realpath (fs : Fs) (path : Str) : Str :=
  if path = fs.rootPath then fs.rootReal
  else
    let p := join fs.rootPath []
    if p <+: path then
      let n := path.drop p.length
      match (fs.lookup fs.root n).bind fs.node? with
      | some (.symlink t) => fs.linkReal t
      | _ => join fs.rootReal n
    else path

end Fs

/-! ## Somebody else's changes -/

/-- A change of the entries of a directory, or of a file's content (module doc). -/
inductive Move where
  | create (d : Ino) (n : Name) (x : Node)
  | delete (d : Ino) (n : Name)
  | rename (d : Ino) (n : Name) (d' : Ino) (n' : Name)
  | symlink (d : Ino) (n : Name) (target : Str)
  | write (i : Ino) (data : Bytes)

def Move.apply (fs : Fs) : Move → Fs
  | .create d n x => fs.create d n x
  | .delete d n => fs.unlink d n
  | .rename d n d' n' => fs.rename d n d' n'
  | .symlink d n target => fs.create d n (.symlink target)
  | .write i data => fs.write i data

theorem Move.keeps (fs : Fs) (m : Move) : fs.Keeps (m.apply fs) := by
  cases m with
  | create d n x => exact Fs.create_keeps _ _ _ _
  | delete d n => exact Fs.unlink_keeps _ _ _
  | rename d n d' n' => exact Fs.rename_keeps _ _ _ _ _
  | symlink d n target => exact Fs.create_keeps _ _ _ _
  | write i data => exact Fs.write_keeps _ _ _

/-- The changes made between two system calls, in order. -/
def Fs.moves (fs : Fs) (ms : List Move) : Fs := ms.foldl Move.apply fs

theorem Fs.moves_keeps (fs : Fs) (ms : List Move) : fs.Keeps (fs.moves ms) := by
  induction ms generalizing fs with
  | nil => exact .refl fs
  | cons m ms ih => exact (m.keeps fs).trans (ih _)

end Posix
