import Music3.Lib.StateExcept
import Music3.Posix.Files

/-!
# The calls of the write side

What the calls by path do when nobody else changes the tree (`Quiet`), with the faults counted.

`Calls k P m Q E`: `m` makes `k` calls. From a tree with `P` it ends with `Q` if none of the next
`k` turns has a fault (`Clear`), and raises with `E` otherwise. A sequence makes the calls of its
parts (`Calls.bind`). The specifications of the calls are about a new directory and its files
(`Fs.Vacant`, `Fs.Grown`).
-/

namespace Posix

open Py StateExcept Fs

/-- Nobody else changes the tree. -/
def Quiet (ts : List Turn) : Prop := ∀ t ∈ ts, t.moves = []

/-- The next `k` calls have no fault. -/
def Clear (ts : List Turn) (k : Nat) : Prop := ∀ t ∈ ts.take k, t.fault = none

theorem Quiet.drop {ts : List Turn} (h : Quiet ts) (k : Nat) : Quiet (ts.drop k) :=
  fun t ht => h t (List.mem_of_mem_drop ht)

theorem quiet_faults (faults : List (Option Nat)) :
    Quiet (faults.map fun fault => { fault }) := by
  intro t ht
  obtain ⟨f, -, rfl⟩ := List.mem_map.mp ht
  rfl

theorem clear_add {ts : List Turn} {j k : Nat} :
    Clear ts (j + k) ↔ Clear ts j ∧ Clear (ts.drop j) k := by
  unfold Clear
  rw [List.take_add]
  simp only [List.mem_append, or_imp, forall_and]

theorem Clear.mono {ts : List Turn} {j k : Nat} (h : Clear ts k) (hjk : j ≤ k) : Clear ts j :=
  fun t ht => h t (List.take_subset_take_left ts hjk ht)

/-- `m` makes `k` calls (module doc). -/
def Calls {ε α : Type} (k : Nat) (P : Fs → Prop) (m : EStateM ε Sys α) (Q : α → Fs → Prop)
    (E : ε → Fs → Prop) : Prop :=
  ∀ ts, Quiet ts → Triple (fun s => s.turns = ts ∧ P s.fs) m
    (fun a s => Clear ts k ∧ s.turns = ts.drop k ∧ Q a s.fs) (fun e s => ¬ Clear ts k ∧ E e s.fs)

namespace Calls

variable {ε α β : Type} {j k : Nat} {P P' : Fs → Prop} {m : EStateM ε Sys α}
  {Q Q' : α → Fs → Prop} {R : β → Fs → Prop} {E E' : ε → Fs → Prop}

theorem conseq (h : Calls k P m Q E) (hp : ∀ fs, P' fs → P fs) (hq : ∀ a fs, Q a fs → Q' a fs)
    (he : ∀ e fs, E e fs → E' e fs) : Calls k P' m Q' E' := fun ts ht =>
  (h ts ht).conseq (fun _ hs => ⟨hs.1, hp _ hs.2⟩) (fun _ _ ⟨h₁, h₂, h₃⟩ => ⟨h₁, h₂, hq _ _ h₃⟩)
    fun _ _ ⟨h₁, h₂⟩ => ⟨h₁, he _ _ h₂⟩

theorem bind {f : α → EStateM ε Sys β} (h : Calls j P m Q E) (hf : ∀ a, Calls k (Q a) (f a) R E) :
    Calls (j + k) P (m >>= f) R E := by
  intro ts ht
  refine ((h ts ht).conseq (fun _ hs => hs) (fun _ _ hs => hs) fun e s hs => ?_).bind fun a => ?_
  · exact ⟨fun hc => hs.1 (clear_add.mp hc).1, hs.2⟩
  · -- the rest of the turns
    rintro s ⟨hc, hts, hq⟩
    obtain ⟨hok, herr⟩ := hf a (ts.drop j) (ht.drop j) s ⟨hts, hq⟩
    refine ⟨fun b s' hr => ?_, fun e s' hr => ?_⟩
    · obtain ⟨hc', hts', hr'⟩ := hok b s' hr
      exact ⟨clear_add.mpr ⟨hc, hc'⟩, by rw [hts', List.drop_drop], hr'⟩
    · obtain ⟨hc', he⟩ := herr e s' hr
      exact ⟨fun h => hc' (clear_add.mp h).2, he⟩

end Calls

/-! ## One call -/

theorem clear_one {t : Turn} {ts : List Turn} : Clear (t :: ts) 1 ↔ t.fault = none := by
  simp [Clear]

theorem clear_nil (k : Nat) : Clear [] k := by
  intro t ht
  rw [List.take_nil] at ht
  cases ht

/-- The turn of a system where nobody else changes the tree. -/
theorem turn_quiet {s : Sys} (h : Quiet s.turns) :
    s.turn = ({ s with turns := s.turns.tail }, s.turns.head?.bind Turn.fault) := by
  obtain ⟨fs, turns, fds, log⟩ := s
  cases turns with
  | nil => rfl
  | cons t ts =>
    have hm : t.moves = [] := h t List.mem_cons_self
    simp only [Sys.turn, hm]
    rfl

theorem clear_turn {ts : List Turn} : Clear ts 1 ↔ ts.head?.bind Turn.fault = none := by
  cases ts with
  | nil => exact ⟨fun _ => rfl, fun _ => clear_nil 1⟩
  | cons t ts => exact clear_one

theorem enter_calls {P : Fs → Prop} : Calls 1 P enter (fun _ => P) (fun _ => P) := by
  rintro ts ht s ⟨rfl, hp⟩
  unfold enter
  rw [EStateM.run_bind, EStateM.run_get]
  simp only [turn_quiet ht, clear_turn]
  cases hf : s.turns.head?.bind Turn.fault with
  | none =>
    refine ⟨fun a s' h => ?_, fun e s' h => ?_⟩ <;> cases h
    exact ⟨rfl, List.drop_one.symm, hp⟩
  | some k =>
    refine ⟨fun a s' h => ?_, fun e s' h => ?_⟩ <;> cases h
    exact ⟨nofun, hp⟩

theorem sync_calls {P : Fs → Prop} : Calls 1 P sync (fun _ => P) (fun _ => P) := enter_calls

/-- A call that, after its turn, returns `a` and leaves the tree `f`. -/
theorem call_calls {α : Type} {P E : Fs → Prop} {m : SysM α} {Q : α → Fs → Prop}
    (hm : ∀ s : Sys, P s.fs → ∃ (a : α) (f : Fs), m.run s = .ok a { s with fs := f } ∧ Q a f)
    (he : ∀ fs, P fs → E fs) : Calls 1 P (do enter; m) Q (fun _ => E) := by
  refine (enter_calls.conseq (fun _ h => h) (fun _ _ h => h) fun _ => he).bind (k := 0) fun _ => ?_
  rintro ts - s ⟨rfl, hp⟩
  obtain ⟨a, f, hr, hq⟩ := hm s hp
  rw [hr]
  refine ⟨fun b s' h => ?_, fun e s' h => ?_⟩ <;> cases h
  exact ⟨fun t ht => (by cases ht), rfl, hq⟩

theorem run_locate {s : Sys} {path : Str} {d : Ino} {n : Name}
    (h : s.fs.locate path = some (d, n)) (hd : (s.fs.dir? d).isSome = true) :
    (locate path).run s = .ok (d, n) s := by
  unfold locate
  rw [EStateM.run_bind, EStateM.run_get]
  simp only [h, hd, ↓reduceIte]
  rfl

section
variable {fs : Fs} {path : Str} {d : Ino} {n m m' : Name} {F : Name → Option Bytes} {i : Ino}

/-- `mkdir` of a directory that does not exist makes it. -/
theorem mkdir_calls (h : fs.Vacant path d n) :
    Calls 1 (· = fs) (mkdir path) (fun _ => fs.Grown d n fun _ => none) (fun _ => (· = fs)) := by
  refine call_calls (fun s hs => ?_) fun _ h => h
  subst hs
  refine ⟨(), _, ?_, h.create⟩
  unfold mkdirAt
  rw [run_seq_ok (run_locate h.at_ h.dir), EStateM.run_bind, EStateM.run_get]
  simp only [h.free]
  rfl

/-- A call that fails whatever its turn. -/
theorem call_fails {α : Type} {m : SysM α}
    (hm : ∀ s : Sys, s.fs = fs → ∃ e, m.run s = .error e s) {s : Sys} (hs : s.fs = fs)
    (hq : Quiet s.turns) : ∃ e t, (do enter; m : SysM α).run s = .error e t ∧ t.fs = fs := by
  obtain ⟨hok, herr⟩ := enter_calls (P := (· = fs)) s.turns hq s ⟨rfl, hs⟩
  cases he : enter.run s with
  | ok a t =>
    obtain ⟨-, -, ht⟩ := hok a t he
    obtain ⟨e, hr⟩ := hm t ht
    exact ⟨e, t, (run_seq_ok he).trans hr, ht⟩
  | error e t =>
    obtain ⟨-, ht⟩ := herr e t he
    exact ⟨e, t, run_seq_error he, ht⟩

/-- `mkdir` of anything else fails. -/
theorem mkdir_fails (h : ∀ d n, ¬ fs.Vacant path d n) {s : Sys} (hs : s.fs = fs)
    (hq : Quiet s.turns) : ∃ e t, (mkdir path).run s = .error e t ∧ t.fs = fs := by
  refine call_fails (fun t ht => ?_) hs hq
  subst ht
  have hloc : ∀ e, (locate path).run t = .error e t → ∃ e, (mkdirAt path).run t = .error e t :=
    fun e he => ⟨e, run_seq_error he⟩
  cases hl : t.fs.locate path with
  | none =>
    refine hloc .noent ?_
    unfold locate
    rw [EStateM.run_bind, EStateM.run_get]
    simp only [hl]
    rfl
  | some p =>
    obtain ⟨d, n⟩ := p
    cases hd : (t.fs.dir? d).isSome with
    | false =>
      refine hloc .notdir ?_
      unfold locate
      rw [EStateM.run_bind, EStateM.run_get]
      simp only [hl, hd]
      rfl
    | true =>
      cases hn : t.fs.lookup d n with
      | none => exact absurd ⟨hl, hd, hn⟩ (h d n)
      | some i =>
        refine ⟨.exist, ?_⟩
        unfold mkdirAt
        rw [run_seq_ok (run_locate hl hd), EStateM.run_bind, EStateM.run_get]
        simp only [hn]
        rfl

/-- `open(…, "wb")` of a new file of the new directory. -/
theorem openTrunc_calls (hp : fs.locate path = some (d, n)) (hm : IsName m) (hF : F m = none) :
    Calls 1 (fs.Grown d n F) (openTrunc (join path m))
      (fun i t => fs.Grown d n (Function.update F m (some [])) t ∧
        t.lookup fs.nodes.length m = some i)
      (fun _ => fs.Grown d n F) := by
  refine call_calls (fun s hs => ?_) fun _ h => h
  obtain ⟨dir, hd, hH⟩ := hs.made
  refine ⟨s.fs.nodes.length, _, ?_, hs.create m⟩
  have hnone : s.fs.lookup fs.nodes.length m = none := by
    rw [lookup_of_dir hd, hH.get?_none hF]
  rw [run_seq_ok (run_locate (hs.locate_join hp hm) (by rw [hd]; rfl)), EStateM.run_bind,
    EStateM.run_get]
  simp only [hnone]
  rfl

/-- `handle.write` on a file of the new directory. A write that fails leaves a file too. -/
theorem write_calls (data : Bytes) :
    Calls 1 (fun t => fs.Grown d n F t ∧ t.lookup fs.nodes.length m = some i) (write i data)
      (fun _ => fs.Grown d n (Function.update F m (some data)))
      (fun _ t => ∃ b, fs.Grown d n (Function.update F m (some b)) t) := by
  rintro ts ht s ⟨rfl, hg, hi⟩
  unfold write
  rw [EStateM.run_bind, EStateM.run_get]
  simp only [turn_quiet ht, clear_turn]
  cases hf : s.turns.head?.bind Turn.fault with
  | none =>
    refine ⟨fun a s' h => ?_, fun e s' h => ?_⟩ <;> cases h
    exact ⟨rfl, List.drop_one.symm, hg.write hi data⟩
  | some k =>
    refine ⟨fun a s' h => ?_, fun e s' h => ?_⟩ <;> cases h
    exact ⟨nofun, _, hg.write hi (data.take k)⟩

/-- `os.replace` of a file of the new directory. -/
theorem replace_calls {b : Bytes} (hp : fs.locate path = some (d, n)) (hm : IsName m)
    (hm' : IsName m') (hF : F m = some b) :
    Calls 1 (fs.Grown d n F) (replace (join path m) (join path m'))
      (fun _ => fs.Grown d n (Function.update (Function.update F m none) m' (some b)))
      (fun _ => fs.Grown d n F) := by
  refine call_calls (fun s hs => ?_) fun _ h => h
  obtain ⟨dir, hd, hH⟩ := hs.made
  have hdir : (s.fs.dir? fs.nodes.length).isSome = true := by rw [hd]; rfl
  refine ⟨(), _, ?_, hs.rename hF⟩
  obtain ⟨i, hi, -⟩ := hH.lookup hF
  have hi' : s.fs.lookup fs.nodes.length m = some i := by rw [lookup_of_dir hd, hi]
  -- the target is a file, if it exists
  have hnd : (s.fs.lookup fs.nodes.length m').bind s.fs.dir? = none := by
    rw [lookup_of_dir hd]
    cases hj : Assoc.get? dir.entries m' with
    | none => rfl
    | some j =>
      obtain ⟨b', hb'⟩ := Option.isSome_iff_exists.mp (hH.fresh m' j hj).2
      rw [Option.bind_some, dir?, file?_eq_some.mp hb']
  rw [run_seq_ok (run_locate (hs.locate_join hp hm) hdir),
    run_seq_ok (run_locate (hs.locate_join hp hm') hdir), EStateM.run_bind, EStateM.run_get]
  simp only [hi', hnd]
  rfl

end

end Posix
