import Mathlib.Data.List.Perm.Basic
import Music3.Lib.StateExcept
import Music3.Posix.Calls

/-!
# Descriptors opened and closed

What the calls of the read side do whatever others change between them.

* `Ledger s t given held`: code that is handed the open descriptors `given` and hands on `held` has
  closed the others, each once, and every one that it has opened itself. `Ledger.trans` and
  `Ledger.frame` compose it. The inodes keep their kinds, and a system with no turns left keeps its
  tree.
* `OpenedAs s t dir name i k fd`: between the two states `fd` was opened as the entry `name` of the
  directory `dir`, which at that moment was the inode `i` of kind `k`; it refers to it ever after.
  With no turns left, that moment's tree is the tree of `s`.
* `openRoot_spec`, `openAt_spec`, `fstat_spec`, `close_spec`: the calls. `Sized` is what `fstat`
  tells of a file.
-/

namespace Posix

open Py StateExcept

def Event.opened? : Event → Option Fd
  | opened fd _ _ _ => some fd
  | closed _ => none

def Event.closed? : Event → Option Fd
  | opened _ _ _ _ => none
  | closed fd => some fd

/-- The descriptors that are opened, in order. -/
def opens (log : List Event) : List Fd := log.filterMap Event.opened?

/-- The descriptors that are closed, in order. -/
def closes (log : List Event) : List Fd := log.filterMap Event.closed?

/-- The descriptors between two states (module doc). -/
structure Ledger (s t : Sys) (given held : List Fd) : Prop where
  keeps : s.fs.Keeps t.fs
  still : s.turns = [] → t.turns = [] ∧ t.fs = s.fs
  entries : ∃ is new, t.fds = s.fds ++ is ∧ t.log = s.log ++ new ∧
    opens new = List.range' s.fds.length is.length ∧
    (closes new ++ held).Perm (opens new ++ given)

namespace Ledger

variable {s t u : Sys} {given held held' : List Fd}

theorem refl (s : Sys) (given : List Fd) : Ledger s s given given :=
  ⟨.refl _, fun h => ⟨h, rfl⟩, [], [], (List.append_nil _).symm, (List.append_nil _).symm,
    rfl, .rfl⟩

theorem trans (h : Ledger s t given held) (h' : Ledger t u held held') :
    Ledger s u given held' := by
  obtain ⟨hk, hs, is, new, hfds, hlog, hopen, hp⟩ := h
  obtain ⟨hk', hs', is', new', hfds', hlog', hopen', hp'⟩ := h'
  refine ⟨hk.trans hk', fun e => ?_, is ++ is', new ++ new', ?_, ?_, ?_, ?_⟩
  · obtain ⟨e₁, e₂⟩ := hs e
    obtain ⟨e₃, e₄⟩ := hs' e₁
    exact ⟨e₃, e₄.trans e₂⟩
  · rw [hfds', hfds, List.append_assoc]
  · rw [hlog', hlog, List.append_assoc]
  · unfold opens at hopen hopen' ⊢
    rw [List.filterMap_append, hopen, hopen', hfds, List.length_append, List.length_append,
      List.range'_append_1]
  · rw [List.perm_iff_count] at hp hp' ⊢
    intro fd
    have h₁ := hp fd
    have h₂ := hp' fd
    unfold opens closes at h₁ h₂ ⊢
    simp only [List.filterMap_append, List.count_append] at h₁ h₂ ⊢
    omega

/-- Descriptors that the code does not touch. -/
theorem frame (h : Ledger s t given held) (l : List Fd) : Ledger s t (given ++ l) (held ++ l) := by
  obtain ⟨hk, hs, is, new, hfds, hlog, hopen, hp⟩ := h
  refine ⟨hk, hs, is, new, hfds, hlog, hopen, ?_⟩
  rw [← List.append_assoc, ← List.append_assoc]
  exact hp.append_right l

theorem perm {given' : List Fd} (h : Ledger s t given held) (hg : given.Perm given')
    (hh : held.Perm held') : Ledger s t given' held' := by
  obtain ⟨hk, hs, is, new, hfds, hlog, hopen, hp⟩ := h
  exact ⟨hk, hs, is, new, hfds, hlog, hopen,
    ((hh.symm.append_left _).trans hp).trans (hg.append_left _)⟩

end Ledger

/-- Between the two states each descriptor that was opened has been closed, once, except those of
`returned`; no other one has been closed. -/
def ClosedOnce (s t : Sys) (returned : List Fd) : Prop :=
  ∃ new, t.log = s.log ++ new ∧ (opens new).Nodup ∧ (closes new ++ returned).Perm (opens new)

theorem Ledger.closedOnce {s t : Sys} {held : List Fd} (h : Ledger s t [] held) :
    ClosedOnce s t held := by
  obtain ⟨-, -, is, new, -, hlog, hopen, hp⟩ := h
  rw [List.append_nil] at hp
  exact ⟨new, hlog, hopen ▸ List.nodup_range', hp⟩

/-- A descriptor and what it was opened as (module doc). -/
structure OpenedAs (s t : Sys) (dir : Option Ino) (name : Name) (i : Ino) (k : Kind) (fd : Fd) :
    Prop where
  event : ∃ fs, .opened fd fs dir name ∈ t.log.drop s.log.length ∧ s.fs.Keeps fs ∧ fs.Keeps t.fs ∧
    (s.turns = [] → fs = s.fs) ∧ (∀ d, dir = some d → fs.lookup d name = some i) ∧
    fs.kind? i = some k
  refers : t.fds[fd]? = some i

namespace OpenedAs

variable {s t u : Sys} {dir : Option Ino} {name : Name} {i : Ino} {k : Kind} {fd : Fd}
  {given held : List Fd}

theorem kind (h : OpenedAs s t dir name i k fd) : t.fs.kind? i = some k := by
  obtain ⟨fs, -, -, hk, -, -, hi⟩ := h.event
  exact hk.kind i k hi

/-- What was opened, if nobody changes the tree. -/
theorem entry {d : Ino} (h : OpenedAs s t (some d) name i k fd) (hs : s.turns = []) :
    s.fs.lookup d name = some i ∧ s.fs.kind? i = some k := by
  obtain ⟨fs, -, -, -, he, hl, hi⟩ := h.event
  rw [← he hs]
  exact ⟨hl d rfl, hi⟩

/-- It stays so. -/
theorem later (h : OpenedAs s t dir name i k fd) (hl : s.log <+: t.log)
    (h' : Ledger t u given held) : OpenedAs s u dir name i k fd := by
  obtain ⟨⟨fs, hm, hk₁, hk₂, hi⟩, hr⟩ := h
  obtain ⟨hk, -, is, new, hfds, hlog, -⟩ := h'
  refine ⟨⟨fs, ?_, hk₁, hk₂.trans hk, hi⟩, ?_⟩
  · rw [hlog, List.drop_append_of_le_length hl.length_le]
    exact List.mem_append_left _ hm
  · rw [hfds, List.getElem?_append_left (List.getElem?_eq_some_iff.mp hr).1, hr]

/-- Code that ran before. -/
theorem earlier (h : OpenedAs t u dir name i k fd) (h' : Ledger s t given held)
    (hl : t.log <+: u.log) : OpenedAs s u dir name i k fd := by
  obtain ⟨⟨fs, hm, hk₁, hk₂, he, hi⟩, hr⟩ := h
  obtain ⟨hk, hs, is, new, -, hlog, -⟩ := h'
  refine ⟨⟨fs, ?_, hk.trans hk₁, hk₂, fun e => (he (hs e).1).trans (hs e).2, hi⟩, hr⟩
  have hle : s.log.length ≤ t.log.length := by rw [hlog]; simp
  obtain ⟨r, hr'⟩ := hl
  rw [← hr', List.drop_left] at hm
  rw [← hr', List.drop_append_of_le_length hle]
  exact List.mem_append_right _ hm

end OpenedAs

theorem Ledger.log_prefix {s t : Sys} {given held : List Fd} (h : Ledger s t given held) :
    s.log <+: t.log := by
  obtain ⟨-, -, is, new, -, hlog, -⟩ := h
  exact ⟨new, hlog.symm⟩

/-! ## The calls -/

section
variable {s : Sys}

/-- The changes of others before a call. -/
theorem turn_spec (s : Sys) : s.turn.1.fds = s.fds ∧ s.turn.1.log = s.log ∧
    Ledger s s.turn.1 [] [] ∧ (s.turns = [] → s.turn.2 = none) := by
  unfold Sys.turn
  cases h : s.turns with
  | nil => exact ⟨rfl, rfl, .refl s [], fun _ => rfl⟩
  | cons t ts =>
    refine ⟨rfl, rfl, ⟨Fs.moves_keeps _ _, fun e => ?_, [], [], ?_, ?_, rfl, .rfl⟩, nofun⟩
    · rw [h] at e; cases e
    · exact (List.append_nil _).symm
    · exact (List.append_nil _).symm

/-- A call is its turn, and then the rest, unless the turn has a fault. -/
theorem enter_spec {α : Type} {m : SysM α} {Q : α → Sys → Prop} {E : Errno → Sys → Prop}
    (hm : ∀ t, Ledger s t [] [] → t.fds = s.fds → t.log = s.log → Triple (· = t) m Q E)
    (he : ∀ t, Ledger s t [] [] → s.turns ≠ [] → E .io t) : Triple (· = s) (do enter; m) Q E := by
  rintro s rfl
  obtain ⟨hfds, hlog, hl, hnone⟩ := turn_spec s
  have hrun : enter.run s = if s.turn.2.isSome then .error .io s.turn.1 else .ok () s.turn.1 := by
    unfold enter
    rw [EStateM.run_bind, EStateM.run_get]
    simp only
    generalize s.turn = p
    obtain ⟨t, fault⟩ := p
    cases fault <;> rfl
  by_cases hf : s.turn.2.isSome
  · rw [if_pos hf] at hrun
    rw [run_seq_error hrun]
    refine ⟨fun a t h => ?_, fun e t h => ?_⟩ <;> cases h
    exact he _ hl fun e => by rw [hnone e] at hf; cases hf
  · rw [if_neg hf] at hrun
    rw [run_seq_ok hrun]
    exact hm _ hl hfds hlog _ rfl

variable (s) in
/-- The new descriptor of an `open`. -/
theorem newFd_spec {t : Sys} {i : Ino} {k : Kind} {dir : Option Ino} {name : Name}
    {E : Errno → Sys → Prop} (hl : Ledger s t [] []) (hfds : t.fds = s.fds) (hlog : t.log = s.log)
    (hi : t.fs.kind? i = some k) (hd : ∀ d, dir = some d → t.fs.lookup d name = some i) :
    Triple (· = t) (newFd i dir name)
      (fun fd u => Ledger s u [] [fd] ∧ OpenedAs s u dir name i k fd) E := by
  rintro t rfl
  refine ⟨fun fd u h => ?_, fun e u h => ?_⟩ <;> cases h
  refine ⟨⟨hl.keeps, hl.still, [i], [.opened t.fds.length t.fs dir name], ?_, ?_, ?_, .rfl⟩,
    ⟨t.fs, ?_, hl.keeps, .refl _, fun e => (hl.still e).2, hd, hi⟩, List.getElem?_concat_length⟩
  · rw [← hfds]
  · rw [← hlog]
  · rw [← hfds]; rfl
  · show _ ∈ (t.log ++ [_]).drop _
    rw [← hlog, List.drop_left]
    exact List.mem_singleton.mpr rfl

variable (s) in
theorem openRoot_spec (path : Str) : Triple (· = s) (openRoot path)
    (fun fd t => Ledger s t [] [fd] ∧ OpenedAs s t none [] s.fs.root .dir fd ∧
      path = s.fs.rootPath)
    (fun _ t => Ledger s t [] [] ∧
      (s.turns = [] → path = s.fs.rootPath → s.fs.dir? s.fs.root = none)) := by
  refine enter_spec (fun t hl hfds hlog => .get_bind ?_) fun _ h hne => ⟨h, fun e => absurd e hne⟩
  rintro t rfl
  have hfail : ∀ e, (path = t.fs.rootPath → t.fs.dir? t.fs.root = none) →
      Triple (· = t) (throw e : SysM Fd)
        (fun fd t => Ledger s t [] [fd] ∧ OpenedAs s t none [] s.fs.root .dir fd ∧
          path = s.fs.rootPath)
        (fun _ t => Ledger s t [] [] ∧
          (s.turns = [] → path = s.fs.rootPath → s.fs.dir? s.fs.root = none)) := by
    intro e hn
    refine .throw ?_
    rintro t rfl
    exact ⟨hl, fun hs => (hl.still hs).2 ▸ hn⟩
  by_cases hp : path = t.fs.rootPath
  · simp only [ne_eq, hp, not_true_eq_false, ↓reduceIte]
    split
    · rename_i dir hd
      have hk := Fs.kind?_dir (Fs.dir?_eq_some.mpr hd)
      rw [hl.keeps.root] at hk ⊢
      exact (newFd_spec s hl hfds hlog hk fun _ e => by cases e).conseq (fun _ h => h)
        (fun _ _ h => ⟨h.1, h.2, hl.keeps.rootPath⟩) fun _ _ h => h
    · rename_i x hn hx
      refine hp ▸ hfail _ fun _ => ?_
      rw [Fs.dir?, hx]
      split
      · rename_i e; cases e; exact absurd rfl (hn _)
      · rfl
    · rename_i hx
      exact hp ▸ hfail _ fun _ => by rw [Fs.dir?, hx]
  · simp only [ne_eq, hp, not_false_eq_true, ↓reduceIte]
    exact hfail .noent fun e => absurd e hp

/-- What an `openat` refuses: an entry that is not there, a symlink, or a file where a directory is
asked for. -/
def Refused (fs : Fs) (d : Ino) (name : Name) (directory : Bool) : Prop :=
  ∀ i k, fs.lookup d name = some i → fs.kind? i = some k →
    k = .symlink ∨ directory = true ∧ k = .file

/-- An `openat`: the entry is no symlink, and a directory if that is asked for. -/
theorem openAt_spec {dirFd : Fd} {d : Ino} (hd : s.fds[dirFd]? = some d) (name : Name)
    (directory : Bool) : Triple (· = s) (openAt dirFd name directory)
    (fun fd t => Ledger s t [] [fd] ∧ ∃ i k, OpenedAs s t (some d) name i k fd ∧ k ≠ .symlink ∧
      (directory = true → k = .dir))
    (fun _ t => Ledger s t [] [] ∧ (s.turns = [] → Refused s.fs d name directory)) := by
  refine enter_spec (fun t hl hfds hlog => .get_bind ?_) fun _ h hne => ⟨h, fun e => absurd e hne⟩
  rintro t rfl
  have hfail : ∀ e, Refused t.fs d name directory → Triple (· = t) (throw e : SysM Fd)
      (fun fd t => Ledger s t [] [fd] ∧ ∃ i k, OpenedAs s t (some d) name i k fd ∧ k ≠ .symlink ∧
        (directory = true → k = .dir))
      (fun _ t => Ledger s t [] [] ∧ (s.turns = [] → Refused s.fs d name directory)) := by
    intro e hn
    refine .throw ?_
    rintro t rfl
    exact ⟨hl, fun hs => (hl.still hs).2 ▸ hn⟩
  have hopen : ∀ i k, t.fs.lookup d name = some i → t.fs.kind? i = some k → k ≠ .symlink →
      (directory = true → k = .dir) → Triple (· = t) (newFd i (some d) name)
      (fun fd t => Ledger s t [] [fd] ∧ ∃ i k, OpenedAs s t (some d) name i k fd ∧ k ≠ .symlink ∧
        (directory = true → k = .dir))
      (fun _ t => Ledger s t [] [] ∧ (s.turns = [] → Refused s.fs d name directory)) := by
    intro i k hi hk hn hdir
    refine (newFd_spec s hl hfds hlog hk ?_).conseq (fun _ h => h)
      (fun _ _ h => ⟨h.1, i, k, h.2, hn, hdir⟩) fun _ _ h => h
    intro d' e
    cases e
    exact hi
  rw [hfds, hd]
  simp only
  split
  · rename_i hi
    refine hfail _ fun i k h => ?_
    rw [hi] at h
    cases h
  · rename_i i hi
    -- the entry, whose kind decides
    have hthis : ∀ k, t.fs.kind? i = k → (∀ k', k = some k' → k' = .symlink ∨
        directory = true ∧ k' = .file) → Refused t.fs d name directory := by
      rintro k hk h j k' hj hk'
      rw [hi] at hj
      cases hj
      exact h k' (hk ▸ hk')
    split
    · rename_i hx
      refine hfail _ (hthis none (by rw [Fs.kind?, hx]; rfl) fun k' e => ?_)
      cases e
    · rename_i target hx
      refine hfail _ (hthis (some .symlink) (by rw [Fs.kind?, hx]; rfl) fun k' e => ?_)
      cases e
      exact .inl rfl
    · rename_i b hb
      have hk := Fs.kind?_file (Fs.file?_eq_some.mpr hb)
      split
      · rename_i hdir
        refine hfail _ (hthis _ hk fun k' e => ?_)
        cases e
        exact .inr ⟨hdir, rfl⟩
      · rename_i hdir
        exact hopen i .file hi hk (by intro e; cases e) fun e => absurd e hdir
    · rename_i dir hdir
      have hk := Fs.kind?_dir (Fs.dir?_eq_some.mpr hdir)
      exact hopen i .dir hi hk (by intro e; cases e) fun _ => rfl

/-- `n` is the size of the file `i`, if nobody changes the tree. -/
def Sized (s : Sys) (i : Ino) (n : Nat) : Prop :=
  s.turns = [] → ∀ b, s.fs.file? i = some b → n = b.length

theorem Sized.earlier {t : Sys} {i : Ino} {n : Nat} {given held : List Fd} (h : Sized t i n)
    (hl : Ledger s t given held) : Sized s i n := by
  intro hs b hb
  obtain ⟨ht, hfs⟩ := hl.still hs
  exact h ht b (hfs ▸ hb)

theorem fstat_spec {fd : Fd} {i : Ino} {k : Kind} (hi : s.fds[fd]? = some i)
    (hk : s.fs.kind? i = some k) : Triple (· = s) (fstat fd)
    (fun st t => Ledger s t [] [] ∧ st.kind = k ∧ Sized s i st.size)
    (fun _ t => Ledger s t [] [] ∧ s.turns ≠ []) := by
  refine enter_spec (fun t hl hfds _ => .get_bind ?_) fun _ h hne => ⟨h, hne⟩
  rintro t rfl
  rw [hfds, hi, Option.bind_some]
  obtain ⟨x, hx, hxk⟩ := Option.map_eq_some_iff.mp (hl.keeps.kind i k hk)
  rw [hx]
  rintro t rfl
  refine ⟨fun st u h => ?_, fun e u h => ?_⟩ <;> cases h
  refine ⟨hl, by cases x <;> exact hxk, fun hs b hb => ?_⟩
  rw [← (hl.still hs).2] at hb
  cases hx.symm.trans (Fs.file?_eq_some.mp hb)
  rfl

theorem close_spec {E : Errno → Sys → Prop} (fd : Fd) :
    Triple (· = s) (close fd) (fun _ t => Ledger s t [fd] [] ∧ t.fs = s.fs ∧
      t.turns = s.turns) E := by
  rintro s rfl
  refine ⟨fun a t h => ?_, fun e t h => ?_⟩ <;> cases h
  exact ⟨⟨.refl _, fun h => ⟨h, rfl⟩, [], [.closed fd], (List.append_nil _).symm, rfl, rfl, .rfl⟩,
    rfl, rfl⟩

end

end Posix
