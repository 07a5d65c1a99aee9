import Mathlib.Logic.Function.Basic
import Music3.Posix.Calls

/-!
# A new directory and its files

What the operations on a tree do to it, for code that makes one directory and writes files into it.

* `node?_create`, `node?_write`, `node?_rename`: each operation on the tree, as the nodes after it.
* `locate_join`: a path into a directory leads to the directory.
* `locate_name`: the path of a name in the root.
* `Vacant fs path d n`: `path` is the entry `n` of the directory `d`, which does not exist yet.
* `Grown fs d n F fs'`: `fs'` is `fs` with one new directory, the entry `n` of `d`, that holds the
  files `F` and nothing else, each an inode of its own. The new directory is the inode
  `fs.nodes.length`. `Grown.create`, `Grown.write` and `Grown.rename` are the operations inside it.
* `Extends fs fs'`: entries and files are added, and none changes or goes.
-/

namespace Posix

open Py

namespace Fs

variable {fs fs' : Fs} {d i j : Ino} {n : Name} {dir : Dir} {x : Node}

/-! ## The nodes after an operation -/

theorem node?_link (h : fs.dir? d = some dir) :
    (fs.link d n i).node? j = if d = j then some (.dir (dir.put n i)) else fs.node? j := by
  unfold link
  rw [h]
  simp only
  rw [node?_setNode, dir?_eq_some.mp h]
  simp

theorem node?_create (h : fs.dir? d = some dir) :
    (fs.create d n x).node? j = if d = j then some (.dir (dir.put n fs.nodes.length))
      else if j = fs.nodes.length then some x else fs.node? j := by
  have hd : (fs.alloc x).dir? d = some dir := by
    rw [dir?_eq_some, node?_alloc, if_neg (Nat.ne_of_lt (lt_of_node? (dir?_eq_some.mp h)))]
    exact dir?_eq_some.mp h
  unfold create
  rw [node?_link hd, node?_alloc]

theorem node?_write {b : Bytes} (h : fs.file? i = some b) (data : Bytes) :
    (fs.write i data).node? j = if i = j then some (.file data) else fs.node? j := by
  unfold write
  rw [h]
  simp only
  rw [node?_setNode, file?_eq_some.mp h]
  simp

/-- A renaming within one directory. -/
theorem node?_rename {n' : Name} (h : fs.dir? d = some dir)
    (hi : Assoc.get? dir.entries n = some i) :
    (fs.rename d n d n').node? j =
      if d = j then some (.dir ((dir.remove n).put n' i)) else fs.node? j := by
  have hr : (fs.unlink d n).dir? d = some (dir.remove n) := by
    rw [dir?_eq_some, unlink, h]
    simp only
    rw [node?_setNode, dir?_eq_some.mp h]
    simp
  unfold rename
  rw [lookup_of_dir h, hi]
  simp only
  rw [node?_link hr]
  split
  · rfl
  · rename_i hne
    rw [unlink, h]
    simp only
    rw [node?_setNode, if_neg fun e => hne e.1]

theorem dir?_congr (h : fs'.node? i = fs.node? i) : fs'.dir? i = fs.dir? i := by
  unfold dir?; rw [h]

theorem file?_congr (h : fs'.node? i = fs.node? i) : fs'.file? i = fs.file? i := by
  unfold file?; rw [h]

/-! ## Paths -/

theorem components_append (cur s t : Str) :
    components cur (s ++ cp '/' :: t) = components cur s ++ components [] t := by
  induction s generalizing cur with
  | nil =>
    simp only [List.nil_append, components, ↓reduceIte]
    split <;> rfl
  | cons c s ih =>
    rw [List.cons_append, components, components, ih, ih]
    split
    · split <;> rfl
    · rfl

/-- A string that is one component of a path. -/
def IsName (n : Name) : Prop := n ≠ [] ∧ cp '/' ∉ n

theorem components_name (h : cp '/' ∉ n) (cur : Str) (hc : cur ++ n ≠ []) :
    components cur n = [cur ++ n] := by
  induction n generalizing cur with
  | nil => rw [components, if_neg (by simpa using hc), List.append_nil]
  | cons c n ih =>
    rw [List.mem_cons, not_or] at h
    rw [components, if_neg (Ne.symm h.1), ih h.2 _ (by simp), List.append_assoc]
    rfl

theorem join_eq {a : Str} (h : IsName n) :
    join a n = a ++ n ∧ (a = [] ∨ ∃ s, a = s ++ [cp '/']) ∨ join a n = a ++ cp '/' :: n := by
  have hh : n.head? ≠ some (cp '/') := fun e => h.2 (List.mem_of_head? e)
  rw [join, if_neg hh]
  split
  · rename_i ha
    refine .inl ⟨rfl, ha.imp_right fun hl => ?_⟩
    exact ⟨a.dropLast, (List.dropLast_append_getLast? _ hl).symm⟩
  · exact .inr rfl

/-- The components of a path into a directory. -/
theorem below_join {path : Str} {ns : List Name} (h : fs.below path = some ns) (hn : IsName n) :
    fs.below (join path n) = some (ns ++ [n]) := by
  unfold below at h ⊢
  generalize join fs.rootReal [] = p at h ⊢
  simp only at h ⊢
  split at h
  swap
  · cases h
  rename_i hp
  cases h
  obtain ⟨r, rfl⟩ := hp
  have hone := components_name hn.2 [] (by simpa using hn.1)
  rw [List.nil_append] at hone
  rw [List.drop_left]
  rcases join_eq (a := p ++ r) hn with ⟨e, hs⟩ | e <;> rw [e]
  · rw [if_pos ⟨r ++ n, by rw [List.append_assoc]⟩, List.append_assoc, List.drop_left]
    -- the directory's own path is empty here, or ends with a slash
    rcases List.eq_nil_or_concat r with rfl | ⟨s, c, rfl⟩
    · rw [List.nil_append, hone]; rfl
    · obtain rfl : c = cp '/' := by
        rcases hs with hs | ⟨t, hs⟩
        · simp at hs
        · rw [List.concat_eq_append, ← List.append_assoc] at hs
          simpa using (List.append_inj' hs rfl).2
      rw [List.concat_eq_append, List.append_assoc, List.singleton_append, components_append, hone,
        components_append]
      simp [components]
  · rw [if_pos ⟨r ++ cp '/' :: n, by rw [List.append_assoc]⟩, List.append_assoc, List.drop_left,
      components_append, hone]

/-- A path with a name at its end. -/
theorem join_name {a : Str} (h : IsName n) : join a n = join a [] ++ n := by
  have hh : n.head? ≠ some (cp '/') := fun e => h.2 (List.mem_of_head? e)
  have hnil : ([] : Str).head? ≠ some (cp '/') := nofun
  unfold join
  rw [if_neg hh, if_neg hnil]
  by_cases ha : a = [] ∨ a.getLast? = some (cp '/')
  · rw [if_pos ha, if_pos ha, List.append_nil]
  · rw [if_neg ha, if_neg ha, List.append_assoc]
    rfl

theorem join_name_ne {a : Str} (h : IsName n) : join a n ≠ a := by
  intro e
  have hl := congrArg List.length e
  have hn := List.length_pos_iff.mpr h.1
  rcases join_eq (a := a) h with ⟨e', -⟩ | e' <;> rw [e'] at hl <;>
    simp only [List.length_append, List.length_cons] at hl <;> omega

/-- The path of a name in the root leads there. -/
theorem locate_name (h : IsName n) : fs.locate (join fs.rootReal n) = some (fs.root, n) := by
  have hone := components_name h.2 [] (by simpa using h.1)
  have hb : fs.below (join fs.rootReal n) = some [n] := by
    unfold below
    rw [join_name h]
    simp only [List.drop_left, hone, List.nil_append, if_pos (List.prefix_append _ _)]
  rw [locate, hb]
  rfl

/-- The `realpath` of a name in the root that is no symlink. -/
theorem realpath_name (h : IsName n)
    (hs : ∀ i t, fs.lookup fs.root n = some i → fs.node? i ≠ some (.symlink t)) :
    fs.realpath (join fs.rootPath n) = join fs.rootReal n := by
  unfold realpath
  rw [if_neg (join_name_ne h)]
  simp only
  rw [join_name h, if_pos (List.prefix_append _ _), List.drop_left]
  split
  · rename_i t ht
    obtain ⟨i, hi, hn⟩ := Option.bind_eq_some_iff.mp ht
    exact absurd hn (hs i t hi)
  · rfl

theorem walk_append (ns ms : List Name) (d : Ino) :
    fs.walk d (ns ++ ms) = (fs.walk d ns).bind fun i => fs.walk i ms := by
  induction ns generalizing d with
  | nil => rfl
  | cons n ns ih =>
    rw [List.cons_append, walk, walk]
    cases fs.lookup d n with
    | none => rfl
    | some i => exact ih i

/-- A path to a name leads to the directory of the name. -/
theorem locate_join {path : Str} {k : Ino} (h : fs.locate path = some (d, n))
    (hk : fs.lookup d n = some k) {m : Name} (hm : IsName m) :
    fs.locate (join path m) = some (k, m) := by
  unfold locate at h ⊢
  obtain ⟨ns, hns, h⟩ := Option.bind_eq_some_iff.mp h
  obtain ⟨n', hlast, h⟩ := Option.bind_eq_some_iff.mp h
  obtain ⟨d', hw, h⟩ := Option.map_eq_some_iff.mp h
  cases h
  rw [below_join hns hm]
  have e : ns.dropLast ++ [n] = ns := List.dropLast_append_getLast? n hlast
  simp only [Option.bind_some, List.getLast?_concat, List.dropLast_concat]
  rw [← e, walk_append, hw]
  simp [walk, hk]

/-! ## The new directory -/

/-- `path` is the entry `n` of the directory `d`, which does not exist. -/
structure Vacant (fs : Fs) (path : Str) (d : Ino) (n : Name) : Prop where
  at_ : fs.locate path = some (d, n)
  dir : (fs.dir? d).isSome = true
  free : fs.lookup d n = none

/-- The entries of `dir` are the files `F`, each an inode of its own after `k`. -/
structure Holds (fs : Fs) (k : Ino) (dir : Dir) (F : Name → Option Bytes) : Prop where
  file : ∀ m, F m = (Assoc.get? dir.entries m).bind fs.file?
  fresh : ∀ m i, Assoc.get? dir.entries m = some i → k < i ∧ (fs.file? i).isSome = true
  own : ∀ m m' i, Assoc.get? dir.entries m = some i → Assoc.get? dir.entries m' = some i → m = m'

/-- `fs'` is `fs` with a new directory, the entry `n` of `d`, that holds the files `F`. -/
structure Grown (fs : Fs) (d : Ino) (n : Name) (F : Name → Option Bytes) (fs' : Fs) : Prop where
  root : fs'.root = fs.root
  rootPath : fs'.rootPath = fs.rootPath
  rootReal : fs'.rootReal = fs.rootReal
  linkReal : fs'.linkReal = fs.linkReal
  parent : ∃ dir, fs.dir? d = some dir ∧ Assoc.get? dir.entries n = none ∧
    fs'.dir? d = some (dir.put n fs.nodes.length)
  old : ∀ i, i < fs.nodes.length → i ≠ d → fs'.node? i = fs.node? i
  made : ∃ dir, fs'.dir? fs.nodes.length = some dir ∧ Holds fs' fs.nodes.length dir F

section
variable {F : Name → Option Bytes} {m m' : Name} {k : Ino} {b : Bytes}

theorem Holds.lookup (h : Holds fs k dir F) (hb : F m = some b) :
    ∃ i, Assoc.get? dir.entries m = some i ∧ fs.file? i = some b :=
  Option.bind_eq_some_iff.mp ((h.file m).symm.trans hb)

theorem Holds.get?_none (h : Holds fs k dir F) (hm : F m = none) :
    Assoc.get? dir.entries m = none := by
  cases hi : Assoc.get? dir.entries m with
  | none => rfl
  | some i =>
    have hf := h.file m
    obtain ⟨b, hb⟩ := Option.isSome_iff_exists.mp (h.fresh m i hi).2
    rw [hm, hi, Option.bind_some, hb] at hf
    cases hf

/-- A directory that has just been made. -/
theorem Vacant.create {path : Str} (h : Vacant fs path d n) :
    Grown fs d n (fun _ => none) (fs.create d n (.dir .empty)) := by
  obtain ⟨dir, hd⟩ := Option.isSome_iff_exists.mp h.dir
  have hk := create_keeps fs d n (.dir .empty)
  have hlt : d ≠ fs.nodes.length := Nat.ne_of_lt (lt_of_node? (dir?_eq_some.mp hd))
  refine ⟨hk.root, hk.rootPath, hk.rootReal, hk.linkReal, ⟨dir, hd, ?_, ?_⟩, fun i hi hne => ?_,
    .empty, ?_, ?_⟩
  · rw [← lookup_of_dir hd, h.free]
  · rw [dir?_eq_some, node?_create hd, if_pos rfl]
  · rw [node?_create hd, if_neg hne.symm, if_neg (Nat.ne_of_lt hi)]
  · rw [dir?_eq_some, node?_create hd, if_neg hlt, if_pos rfl]
  · exact ⟨fun _ => rfl, (fun _ _ e => by cases e), (fun _ _ _ e => by cases e)⟩

/-- A change of the new directory and its files only. -/
theorem Grown.inside {F' : Name → Option Bytes} {fs'' : Fs} {dir' : Dir} (h : Grown fs d n F fs')
    (hk : Keeps fs' fs'') (hn : ∀ i, i < fs.nodes.length → fs''.node? i = fs'.node? i)
    (hd : fs''.dir? fs.nodes.length = some dir') (hF : Holds fs'' fs.nodes.length dir' F') :
    Grown fs d n F' fs'' := by
  obtain ⟨dir, h₁, h₂, h₃⟩ := h.parent
  refine ⟨hk.root.trans h.root, hk.rootPath.trans h.rootPath, hk.rootReal.trans h.rootReal,
    hk.linkReal.trans h.linkReal, ⟨dir, h₁, h₂, ?_⟩, fun i hi hne => ?_, dir', hd, hF⟩
  · rw [dir?_congr (hn d (lt_of_node? (dir?_eq_some.mp h₁))), h₃]
  · rw [hn i hi, h.old i hi hne]

/-- A new empty file. -/
theorem Grown.create (h : Grown fs d n F fs') (m : Name) :
    Grown fs d n (Function.update F m (some [])) (fs'.create fs.nodes.length m (.file [])) ∧
      (fs'.create fs.nodes.length m (.file [])).lookup fs.nodes.length m =
        some fs'.nodes.length := by
  obtain ⟨dir, hd, hF⟩ := h.made
  have hlt : fs.nodes.length < fs'.nodes.length := lt_of_node? (dir?_eq_some.mp hd)
  have hd' : (fs'.create fs.nodes.length m (.file [])).dir? fs.nodes.length =
      some (dir.put m fs'.nodes.length) := by
    rw [dir?_eq_some, node?_create hd, if_pos rfl]
  have hnew : (fs'.create fs.nodes.length m (.file [])).file? fs'.nodes.length = some [] := by
    rw [file?_eq_some, node?_create hd, if_neg (Nat.ne_of_lt hlt), if_pos rfl]
  have hold : ∀ x i, Assoc.get? dir.entries x = some i →
      i ≠ fs'.nodes.length ∧ (fs'.create fs.nodes.length m (.file [])).file? i = fs'.file? i := by
    intro x i hi
    obtain ⟨hki, hs⟩ := hF.fresh x i hi
    obtain ⟨b, hb⟩ := Option.isSome_iff_exists.mp hs
    have hne := Nat.ne_of_lt (lt_of_node? (file?_eq_some.mp hb))
    exact ⟨hne, file?_congr (by rw [node?_create hd, if_neg (Nat.ne_of_lt hki), if_neg hne])⟩
  have hget : ∀ x, Assoc.get? (dir.put m fs'.nodes.length).entries x =
      if m = x then some fs'.nodes.length else Assoc.get? dir.entries x :=
    Assoc.get?_set dir.entries m fs'.nodes.length
  refine ⟨h.inside (create_keeps _ _ _ _) (fun i hi => ?_) hd' ⟨fun x => ?_, fun x i hi => ?_,
    fun x y i hx hy => ?_⟩, ?_⟩
  · rw [node?_create hd, if_neg (Nat.ne_of_gt hi), if_neg (Nat.ne_of_lt (Nat.lt_trans hi hlt))]
  · rw [hget]
    by_cases e : x = m
    · rw [if_pos e.symm, e, Function.update_self, Option.bind_some, hnew]
    · rw [if_neg (Ne.symm e), Function.update_of_ne e, hF.file x]
      cases hi : Assoc.get? dir.entries x with
      | none => rfl
      | some i => exact (hold x i hi).2.symm
  · rw [hget] at hi
    split at hi
    · cases hi; exact ⟨hlt, by rw [hnew]; rfl⟩
    · exact ⟨(hF.fresh x i hi).1, by rw [(hold x i hi).2]; exact (hF.fresh x i hi).2⟩
  · rw [hget] at hx hy
    split at hx <;> split at hy
    · rename_i e e'; exact e.symm.trans e'
    · cases hx; exact absurd rfl (hold y _ hy).1
    · cases hy; exact absurd rfl (hold x _ hx).1
    · exact hF.own x y i hx hy
  · rw [lookup_of_dir hd', hget, if_pos rfl]

/-- New content of a file. -/
theorem Grown.write (h : Grown fs d n F fs') (hi : fs'.lookup fs.nodes.length m = some i)
    (data : Bytes) :
    Grown fs d n (Function.update F m (some data)) (fs'.write i data) := by
  obtain ⟨dir, hd, hF⟩ := h.made
  rw [lookup_of_dir hd] at hi
  obtain ⟨hki, hs⟩ := hF.fresh m i hi
  obtain ⟨b, hb⟩ := Option.isSome_iff_exists.mp hs
  have hnew : (fs'.write i data).file? i = some data := by
    rw [file?_eq_some, node?_write hb, if_pos rfl]
  have hold : ∀ j, j ≠ i → (fs'.write i data).node? j = fs'.node? j := fun j hj => by
    rw [node?_write hb, if_neg hj.symm]
  refine h.inside (write_keeps _ _ _) (fun j hj => hold j (Nat.ne_of_lt (Nat.lt_trans hj hki)))
    ((dir?_congr (hold _ (Nat.ne_of_lt hki))).trans hd) ⟨fun x => ?_, fun x j hj => ?_, hF.own⟩
  · by_cases e : x = m
    · rw [e, Function.update_self, hi, Option.bind_some, hnew]
    · rw [Function.update_of_ne e, hF.file x]
      cases hj : Assoc.get? dir.entries x with
      | none => rfl
      | some j => exact (file?_congr (hold j fun e' => e (hF.own x m j hj (e' ▸ hi)))).symm
  · refine ⟨(hF.fresh x j hj).1, ?_⟩
    by_cases e : j = i
    · rw [e, hnew]; rfl
    · rw [file?_congr (hold j e)]; exact (hF.fresh x j hj).2

/-- A file takes a new name, and replaces the file of that name. -/
theorem Grown.rename (h : Grown fs d n F fs') (hb : F m = some b) :
    Grown fs d n (Function.update (Function.update F m none) m' (some b))
      (fs'.rename fs.nodes.length m fs.nodes.length m') := by
  obtain ⟨dir, hd, hF⟩ := h.made
  obtain ⟨i, hi, hib⟩ := hF.lookup hb
  have hnode : ∀ j, (fs'.rename fs.nodes.length m fs.nodes.length m').node? j =
      if fs.nodes.length = j then some (.dir ((dir.remove m).put m' i)) else fs'.node? j :=
    fun j => node?_rename hd hi
  have hfile : ∀ x j, Assoc.get? dir.entries x = some j →
      (fs'.rename fs.nodes.length m fs.nodes.length m').file? j = fs'.file? j := fun x j hj =>
    file?_congr (by rw [hnode, if_neg (Nat.ne_of_lt (hF.fresh x j hj).1)])
  have hget : ∀ x, Assoc.get? ((dir.remove m).put m' i).entries x =
      if m' = x then some i else if m = x then none else Assoc.get? dir.entries x := fun x => by
    rw [Dir.put, Assoc.get?_set]
    split
    · rfl
    · exact Assoc.get?_erase dir.entries m x
  have hd' : (fs'.rename fs.nodes.length m fs.nodes.length m').dir? fs.nodes.length =
      some ((dir.remove m).put m' i) := by rw [dir?_eq_some, hnode, if_pos rfl]
  refine h.inside (rename_keeps _ _ _ _ _) (fun j hj => ?_) hd'
    ⟨fun x => ?_, fun x j hj => ?_, fun x y j hx hy => ?_⟩
  · rw [hnode, if_neg (Nat.ne_of_gt hj)]
  · rw [hget]
    by_cases e : x = m'
    · rw [e, Function.update_self, if_pos rfl, Option.bind_some, hfile m i hi, hib]
    · rw [Function.update_of_ne e, if_neg (Ne.symm e)]
      by_cases e' : x = m
      · rw [e', Function.update_self, if_pos rfl]; rfl
      · rw [Function.update_of_ne e', if_neg (Ne.symm e'), hF.file x]
        cases hj : Assoc.get? dir.entries x with
        | none => rfl
        | some j => exact (hfile x j hj).symm
  · rw [hget] at hj
    have hx : ∃ y, Assoc.get? dir.entries y = some j := by
      split at hj
      · exact ⟨m, hi.trans hj⟩
      · split at hj
        · cases hj
        · exact ⟨x, hj⟩
    obtain ⟨y, hy⟩ := hx
    exact ⟨(hF.fresh y j hy).1, by rw [hfile y j hy]; exact (hF.fresh y j hy).2⟩
  · rw [hget] at hx hy
    split at hx <;> split at hy
    · rename_i e e'; exact e.symm.trans e'
    · rename_i hy'
      split at hy
      · cases hy
      · rename_i e; cases hx; exact absurd (hF.own m y i hi hy) e
    · split at hx
      · cases hx
      · rename_i e; cases hy; exact absurd (hF.own m x i hi hx) e
    · split at hx
      · cases hx
      · split at hy
        · cases hy
        · exact hF.own x y j hx hy

/-! ## What the rest of the tree keeps -/

theorem Grown.lookup_new (h : Grown fs d n F fs') : fs'.lookup d n = some fs.nodes.length := by
  obtain ⟨dir, -, -, h₃⟩ := h.parent
  rw [lookup_of_dir h₃, Dir.put, Assoc.get?_set, if_pos rfl]

theorem Grown.isDir (h : Grown fs d n F fs') : (fs'.lookup d n).bind fs'.kind? = some .dir := by
  obtain ⟨dir, hd, -⟩ := h.made
  rw [h.lookup_new, Option.bind_some, kind?_dir hd]

/-- The new directory's files. -/
theorem Grown.fileAt (h : Grown fs d n F fs') (m : Name) : fs'.fileAt fs.nodes.length m = F m := by
  obtain ⟨dir, hd, hF⟩ := h.made
  rw [Fs.fileAt, lookup_of_dir hd, hF.file m]

/-- The entries of the old directories, but for the new one. -/
theorem Grown.lookup_old (h : Grown fs d n F fs') {c : Ino} (hc : c < fs.nodes.length) (m : Name)
    (hne : c ≠ d ∨ m ≠ n) : fs'.lookup c m = fs.lookup c m := by
  obtain ⟨dir, h₁, h₂, h₃⟩ := h.parent
  by_cases e : c = d
  · subst e
    rw [lookup_of_dir h₁, lookup_of_dir h₃, Dir.put, Assoc.get?_set,
      if_neg (Ne.symm (hne.resolve_left fun h => h rfl))]
  · rw [lookup, lookup, dir?_congr (h.old c hc e)]

theorem Grown.lookup_mono (h : Grown fs d n F fs') {c : Ino} (hi : fs.lookup c m = some i) :
    fs'.lookup c m = some i := by
  obtain ⟨dir, hd, -⟩ := dir_of_lookup hi
  obtain ⟨dir', h₁, h₂, -⟩ := h.parent
  rw [h.lookup_old (lt_of_node? (dir?_eq_some.mp hd)) m, hi]
  by_cases e : c = d
  · subst e
    right
    rintro rfl
    rw [lookup_of_dir h₁, h₂] at hi
    cases hi
  · exact .inl e

theorem walk_mono (h : ∀ c m i, fs.lookup c m = some i → fs'.lookup c m = some i) {ns : List Name}
    {c : Ino} (hw : fs.walk c ns = some i) : fs'.walk c ns = some i := by
  induction ns generalizing c with
  | nil => exact hw
  | cons m ns ih =>
    obtain ⟨j, hj, hw⟩ := Option.bind_eq_some_iff.mp hw
    rw [walk, h c m j hj]
    exact ih hw

theorem Grown.locate (h : Grown fs d n F fs') {path : Str} {c : Ino}
    (hp : fs.locate path = some (c, m)) : fs'.locate path = some (c, m) := by
  unfold Fs.locate below at hp ⊢
  rw [h.rootReal]
  obtain ⟨ns, hns, hp⟩ := Option.bind_eq_some_iff.mp hp
  obtain ⟨n', hlast, hp⟩ := Option.bind_eq_some_iff.mp hp
  obtain ⟨c', hw, hp⟩ := Option.map_eq_some_iff.mp hp
  cases hp
  rw [hns]
  simp only [Option.bind_some, hlast]
  rw [h.root, walk_mono (fun c m i => h.lookup_mono) hw]
  rfl

/-- `fs'` has the entries and the files of `fs`, and perhaps more. -/
structure Extends (fs fs' : Fs) : Prop where
  root : fs'.root = fs.root
  rootPath : fs'.rootPath = fs.rootPath
  lookup : ∀ c m i, fs.lookup c m = some i → fs'.lookup c m = some i
  file : ∀ i b, fs.file? i = some b → fs'.file? i = some b
  kind : ∀ i k, fs.kind? i = some k → fs'.kind? i = some k

theorem Extends.refl (fs : Fs) : Extends fs fs :=
  ⟨rfl, rfl, fun _ _ _ h => h, fun _ _ h => h, fun _ _ h => h⟩

theorem Extends.trans {fs'' : Fs} (h : Extends fs fs') (h' : Extends fs' fs'') :
    Extends fs fs'' where
  root := h'.root.trans h.root
  rootPath := h'.rootPath.trans h.rootPath
  lookup c m i hi := h'.lookup c m i (h.lookup c m i hi)
  file i b hb := h'.file i b (h.file i b hb)
  kind i k hk := h'.kind i k (h.kind i k hk)

theorem Grown.extends (h : Grown fs d n F fs') : Extends fs fs' := by
  obtain ⟨dir, h₁, -, h₃⟩ := h.parent
  refine ⟨h.root, h.rootPath, fun c m i => h.lookup_mono, fun i b hb => ?_, fun i k hk => ?_⟩
  · have hn := file?_eq_some.mp hb
    have hne : i ≠ d := by
      rintro rfl
      rw [dir?_eq_some.mp h₁] at hn
      cases hn
    rw [file?_congr (h.old i (lt_of_node? hn) hne), hb]
  · by_cases e : i = d
    · subst e
      rw [kind?_dir h₁] at hk
      rw [kind?_dir h₃, hk]
    · obtain ⟨x, hx, -⟩ := Option.map_eq_some_iff.mp hk
      rw [kind?, h.old i (lt_of_node? hx) e]
      exact hk

/-- A path into the new directory. -/
theorem Grown.locate_join (h : Grown fs d n F fs') {path : Str}
    (hp : fs.locate path = some (d, n)) (hm : IsName m) :
    fs'.locate (join path m) = some (fs.nodes.length, m) :=
  Fs.locate_join (h.locate hp) h.lookup_new hm

end

end Fs

end Posix
