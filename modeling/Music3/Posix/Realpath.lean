import Mathlib.Data.Finset.Card
import Music3.Posix.Files

/-!
# `os.path.realpath`

`realpath links path` is the canonical path of the absolute path `path` in a tree with the symbolic
links `links`, a `RealPath`. The walk goes over the components and reads each link it meets. A link
that is met again while it is being read is a loop, and the rest of the path is appended as it is.
This is what the documentation of the function says. CPython 3.12 differs where a link of a loop is
followed by more than one separator: `join` then takes the rest as absolute, and drops what is before.

Links nest at most as deep as there are links, so `fuel` does not run out (`joinRealpath_good`).
`realpath_join`: a name that is no link stays in the directory that it is looked up in.
-/

namespace Posix

open Py Fs

/-- A component that a canonical path can have. -/
def IsPlain (n : Name) : Prop := IsName n ∧ n ≠ lit "." ∧ n ≠ lit ".."

instance (n : Name) : Decidable (IsName n) := inferInstanceAs (Decidable (_ ∧ _))
instance (n : Name) : Decidable (IsPlain n) := inferInstanceAs (Decidable (_ ∧ _))

/-- A canonical path, by its components. -/
structure RealPath where
  names : List Name
  plain : ∀ n ∈ names, IsPlain n

/-- The text of an absolute path. -/
def pathText : List Name → Str
  | [] => [cp '/']
  | n :: ns => (n :: ns).flatMap (cp '/' :: ·)

def RealPath.text (p : RealPath) : Str := pathText p.names

/-- The components of `normpath`, after those of `base`. -/
def normalise (base : List Name) : List Name → List Name
  | [] => base
  | n :: ns =>
    if n = lit "." then normalise base ns
    else if n = lit ".." then normalise base.dropLast ns
    else normalise (base ++ [n]) ns

/-- The links that have been met: what each leads to, or `none` while it is being read. -/
abbrev Seen := List (Str × Option (List Name))

/-- How a walk has ended; it is not `resolved` after a loop. -/
structure Walked where
  names : List Name
  resolved : Bool
  seen : Seen

section
variable (links : List (Str × Str))

/-- The loop of `_joinrealpath`; `nested` is the call for the target of a link. -/
def walkNames (nested : Seen → List Name → List Name → Option Walked) (seen : Seen)
    (path : List Name) : List Name → Option Walked
  | [] => some ⟨path, true, seen⟩
  | name :: rest =>
    if name = lit "." then walkNames nested seen path rest
    else if name = lit ".." then walkNames nested seen path.dropLast rest
    else
      let newpath := path ++ [name]
      let key := pathText newpath
      match Assoc.get? links key with
      | none => walkNames nested seen newpath rest
      | some target =>
        match Assoc.get? seen key with
        | some (some path) => walkNames nested seen path rest
        | some none => some ⟨newpath ++ rest, false, seen⟩
        | none =>
          let start := if target.head? = some (cp '/') then [] else path
          match nested (Assoc.set seen key none) start (components [] target) with
          | none => none
          | some r =>
            if r.resolved then walkNames nested (Assoc.set r.seen key (some r.names)) r.names rest
            else some { r with names := r.names ++ rest }

/-- `_joinrealpath`, for links that nest at most `fuel` deep. -/
def joinRealpath : Nat → Seen → List Name → List Name → Option Walked
  | 0 => walkNames links fun _ _ _ => none
  | fuel + 1 => walkNames links (joinRealpath fuel)

/-- The components of `_joinrealpath(path)`. -/
def realNames (path : Str) : List Name :=
  ((joinRealpath links links.length [] [] (components [] path)).map Walked.names).getD []

end

/-! ## Components -/

variable {links : List (Str × Str)} {seen : Seen} {path rest ns : List Name} {n : Name}

theorem isName_components {cur s : Str} (hc : cp '/' ∉ cur) : ∀ n ∈ components cur s, IsName n := by
  induction s generalizing cur with
  | nil =>
    unfold components
    split
    · exact List.forall_mem_nil _
    · rename_i h
      exact List.forall_mem_singleton.mpr ⟨h, hc⟩
  | cons c s ih =>
    unfold components
    split
    · have hs := @ih [] List.not_mem_nil
      split
      · exact hs
      · rename_i h
        exact List.forall_mem_cons.mpr ⟨⟨h, hc⟩, hs⟩
    · rename_i h
      refine ih ?_
      simp only [List.mem_append, List.mem_singleton, not_or]
      exact ⟨hc, Ne.symm h⟩

theorem components_join {root : Str} (hn : IsName n) :
    components [] (join root n) = components [] root ++ [n] := by
  have hone := components_name hn.2 [] (by simpa using hn.1)
  rw [List.nil_append] at hone
  rcases join_eq (a := root) hn with ⟨e, rfl | ⟨s, rfl⟩⟩ | e
  · rw [e, List.nil_append, hone]
    rfl
  · rw [e, List.append_assoc, List.singleton_append, components_append, components_append, hone]
    simp [components]
  · rw [e, components_append, hone]

theorem pathText_concat (ns : List Name) (n : Name) : ∃ s, pathText (ns ++ [n]) = s ++ cp '/' :: n ∧
    (ns = [] → s = []) ∧ (ns ≠ [] → s = pathText ns) := by
  cases ns with
  | nil => exact ⟨[], by simp [pathText], fun _ => rfl, fun h => absurd rfl h⟩
  | cons m ns => exact ⟨pathText (m :: ns), by simp [pathText], nofun, fun _ => rfl⟩

theorem join_pathText (hns : ∀ m ∈ ns, IsName m) (hn : IsName n) :
    join (pathText ns) n = pathText (ns ++ [n]) := by
  have hh : n.head? ≠ some (cp '/') := fun e => hn.2 (List.mem_of_head? e)
  rcases List.eq_nil_or_concat ns with rfl | ⟨ms, m, rfl⟩
  · rw [join, if_neg hh, if_pos (.inr rfl)]
    simp [pathText]
  · rw [List.concat_eq_append] at hns ⊢
    have hm := hns m (List.mem_append_right _ List.mem_cons_self)
    -- the text ends with the name `m`, which has no slash
    obtain ⟨s, hs, -, -⟩ := pathText_concat ms m
    have hlast : ¬ (pathText (ms ++ [m]) = [] ∨
        (pathText (ms ++ [m])).getLast? = some (cp '/')) := by
      rw [hs, List.getLast?_append, List.getLast?_cons]
      rintro (h | h)
      · simp at h
      · cases hl : m.getLast? with
        | none => exact hm.1 (List.getLast?_eq_none_iff.mp hl)
        | some c =>
          rw [hl] at h
          exact hm.2 (Option.some.inj h ▸ List.mem_of_getLast? hl)
    obtain ⟨t, ht, -, h⟩ := pathText_concat (ms ++ [m]) n
    rw [join, if_neg hh, if_neg hlast, ht, h (by simp)]

/-! ## Normal paths -/

theorem normalise_plain {base : List Name} (hb : ∀ n ∈ base, IsPlain n) (h : ∀ n ∈ ns, IsName n) :
    ∀ n ∈ normalise base ns, IsPlain n := by
  induction ns generalizing base with
  | nil => exact hb
  | cons n ns ih =>
    obtain ⟨hn, hns⟩ := List.forall_mem_cons.mp h
    unfold normalise
    split
    · exact ih hb hns
    split
    · exact ih (fun m hm => hb m (List.mem_of_mem_dropLast hm)) hns
    · rename_i h₁ h₂
      exact ih (List.forall_mem_append.mpr ⟨hb, List.forall_mem_singleton.mpr ⟨hn, h₁, h₂⟩⟩) hns

theorem normalise_of_plain {base : List Name} (h : ∀ n ∈ ns, IsPlain n) :
    normalise base ns = base ++ ns := by
  induction ns generalizing base with
  | nil => exact (List.append_nil _).symm
  | cons n ns ih =>
    obtain ⟨hn, hns⟩ := List.forall_mem_cons.mp h
    rw [normalise, if_neg hn.2.1, if_neg hn.2.2, ih hns, List.append_assoc, List.singleton_append]

theorem normalise_concat {base : List Name} (hn : IsPlain n) :
    normalise base (ns ++ [n]) = normalise base ns ++ [n] := by
  induction ns generalizing base with
  | nil => exact normalise_of_plain (List.forall_mem_singleton.mpr hn)
  | cons m ns ih =>
    rw [List.cons_append, normalise, normalise]
    split
    · exact ih
    split <;> exact ih

/-! ## The walk -/

/-- What the links that have been read lead to. -/
def SeenPlain (seen : Seen) : Prop :=
  ∀ k p, Assoc.get? seen k = some (some p) → ∀ n ∈ p, IsPlain n

/-- How a walk ends that has started with the links `seen`. -/
structure Walked.Good (seen : Seen) (r : Walked) : Prop where
  names : ∀ n ∈ r.names, IsName n
  plain : r.resolved = true → ∀ n ∈ r.names, IsPlain n
  read : SeenPlain r.seen
  keys : Assoc.keys seen ⊆ Assoc.keys r.seen

variable (links) in
/-- The number of links that have not been met. -/
def unseen (seen : Seen) : Nat :=
  ((Assoc.keys links).toFinset \ (Assoc.keys seen).toFinset).card

theorem unseen_anti {seen' : Seen} (h : Assoc.keys seen ⊆ Assoc.keys seen') :
    unseen links seen' ≤ unseen links seen :=
  Finset.card_le_card (Finset.sdiff_subset_sdiff (Finset.Subset.refl _) fun _ hk =>
    List.mem_toFinset.mpr (h (List.mem_toFinset.mp hk)))

/-- Meeting a link for the first time. -/
theorem unseen_lt {key : Str} (hl : (Assoc.get? links key).isSome = true)
    (hs : Assoc.get? seen key = none) (v : Option (List Name)) :
    unseen links (Assoc.set seen key v) < unseen links seen := by
  have hkey : key ∉ Assoc.keys seen := fun h => by simp [Assoc.mem_keys, hs] at h
  have hset : Assoc.keys (Assoc.set seen key v) = Assoc.keys seen ++ [key] := by
    rw [Assoc.set_of_not_mem hkey]
    simp [Assoc.keys]
  refine Finset.card_lt_card (Finset.ssubset_iff.mpr ⟨key, ?_, ?_⟩)
  · simp [hset]
  · intro k hk
    simp only [hset, Finset.mem_insert, Finset.mem_sdiff, List.mem_toFinset, List.mem_append,
      List.mem_singleton, not_or] at hk ⊢
    rcases hk with rfl | ⟨hk, hn, -⟩
    · exact ⟨Assoc.mem_keys.mpr hl, hkey⟩
    · exact ⟨hk, hn⟩

theorem SeenPlain.set (h : SeenPlain seen) {key : Str} {v : Option (List Name)}
    (hv : ∀ p, v = some p → ∀ n ∈ p, IsPlain n) : SeenPlain (Assoc.set seen key v) := by
  intro k p hp
  rw [Assoc.get?_set] at hp
  split at hp
  · exact hv p (Option.some.inj hp)
  · exact h k p hp

theorem keys_sub_set (seen : Seen) (key : Str) (v : Option (List Name)) :
    Assoc.keys seen ⊆ Assoc.keys (Assoc.set seen key v) := by
  rw [Assoc.keys_set]
  split
  · exact List.Subset.refl _
  · exact List.subset_append_left _ _

theorem Walked.Good.trans {seen' : Seen} {r : Walked} (h : r.Good seen')
    (hk : Assoc.keys seen ⊆ Assoc.keys seen') : r.Good seen :=
  ⟨h.names, h.plain, h.read, List.Subset.trans hk h.keys⟩

/-- The loop, for a `nested` call that ends well when fewer than `fuel` links have not been met. -/
theorem walkNames_good {fuel : Nat} {nested : Seen → List Name → List Name → Option Walked}
    (hnested : ∀ seen path rest, unseen links seen < fuel → SeenPlain seen →
      (∀ n ∈ path, IsPlain n) → (∀ n ∈ rest, IsName n) →
      ∃ r, nested seen path rest = some r ∧ r.Good seen)
    (hfuel : unseen links seen ≤ fuel) (hseen : SeenPlain seen) (hpath : ∀ n ∈ path, IsPlain n)
    (hrest : ∀ n ∈ rest, IsName n) :
    ∃ r, walkNames links nested seen path rest = some r ∧ r.Good seen := by
  induction rest generalizing seen path with
  | nil => exact ⟨_, rfl, fun n hn => (hpath n hn).1, fun _ => hpath, hseen, List.Subset.refl _⟩
  | cons name rest ih =>
    obtain ⟨hname, hrest⟩ := List.forall_mem_cons.mp hrest
    unfold walkNames
    split
    · exact ih hfuel hseen hpath hrest
    split
    · exact ih hfuel hseen (fun n hn => hpath n (List.mem_of_mem_dropLast hn)) hrest
    rename_i hdot hdots
    have hnew : ∀ n ∈ path ++ [name], IsPlain n :=
      List.forall_mem_append.mpr ⟨hpath, List.forall_mem_singleton.mpr ⟨hname, hdot, hdots⟩⟩
    simp only
    split
    · exact ih hfuel hseen hnew hrest
    rename_i target hlink
    split
    · rename_i p hp
      exact ih hfuel hseen (hseen _ _ hp) hrest
    · refine ⟨_, rfl, ?_, nofun, hseen, List.Subset.refl _⟩
      exact List.forall_mem_append.mpr ⟨fun n hn => (hnew n hn).1, hrest⟩
    · rename_i hmet
      have hlt := unseen_lt (show (Assoc.get? links _).isSome = true by rw [hlink]; rfl) hmet none
      have hstart : ∀ n ∈ (if target.head? = some (cp '/') then [] else path), IsPlain n := by
        split
        · exact List.forall_mem_nil _
        · exact hpath
      obtain ⟨r, hr, hgood⟩ := hnested _ _ _ (Nat.lt_of_lt_of_le hlt hfuel)
        (hseen.set (v := none) nofun) hstart (isName_components List.not_mem_nil)
      have hkeys := List.Subset.trans (keys_sub_set seen _ none) hgood.keys
      rw [hr]
      simp only
      split
      · rename_i hres
        have hset := keys_sub_set r.seen (pathText (path ++ [name])) (some r.names)
        obtain ⟨r', hr', hgood'⟩ := ih
          (Nat.le_trans (unseen_anti (List.Subset.trans hkeys hset)) hfuel)
          (hgood.read.set fun p hp => Option.some.inj hp ▸ hgood.plain hres) (hgood.plain hres) hrest
        exact ⟨r', hr', hgood'.trans (List.Subset.trans hkeys hset)⟩
      · rename_i hres
        exact ⟨_, rfl, List.forall_mem_append.mpr ⟨hgood.names, hrest⟩, fun h => absurd h hres,
          hgood.read, hkeys⟩

/-- The fuel does not run out. -/
theorem joinRealpath_good (fuel : Nat) (hfuel : unseen links seen ≤ fuel) (hseen : SeenPlain seen)
    (hpath : ∀ n ∈ path, IsPlain n) (hrest : ∀ n ∈ rest, IsName n) :
    ∃ r, joinRealpath links fuel seen path rest = some r ∧ r.Good seen := by
  induction fuel generalizing seen path rest with
  | zero => exact walkNames_good (fun _ _ _ h => absurd h (Nat.not_lt_zero _)) hfuel hseen hpath hrest
  | succ fuel ih =>
    exact walkNames_good (fun _ _ _ h => ih (Nat.le_of_lt_succ h)) hfuel hseen hpath hrest

variable (links) in
theorem joinRealpath_total (path : Str) :
    ∃ r, joinRealpath links links.length [] [] (components [] path) = some r ∧ r.Good [] := by
  refine joinRealpath_good _ ?_ nofun (List.forall_mem_nil _) (isName_components List.not_mem_nil)
  have hcard := (Assoc.keys links).toFinset_card_le
  rw [Assoc.keys, List.length_map] at hcard
  exact Nat.le_trans (Finset.card_le_card Finset.sdiff_subset) hcard

variable (links) in
/-- `os.path.realpath` (module doc). -/
def realpath (path : Str) : RealPath where
  names := normalise [] (realNames links path)
  plain := by
    obtain ⟨r, hr, hgood⟩ := joinRealpath_total links path
    rw [realNames, hr]
    exact normalise_plain (List.forall_mem_nil _) hgood.names

/-! ## A name in a directory -/

/-- The walk over a path with another name at its end. -/
theorem walkNames_concat {nested : Seen → List Name → List Name → Option Walked} (n : Name) :
    walkNames links nested seen path (rest ++ [n]) =
      (walkNames links nested seen path rest).bind fun r =>
        if r.resolved then walkNames links nested r.seen r.names [n]
        else some { r with names := r.names ++ [n] } := by
  induction rest generalizing seen path with
  | nil => rfl
  | cons name rest ih =>
    simp only [List.cons_append, walkNames]
    split
    · exact ih
    split
    · exact ih
    cases Assoc.get? links (pathText (path ++ [name])) with
    | none => exact ih
    | some target =>
      simp only
      cases Assoc.get? seen (pathText (path ++ [name])) with
      | some p =>
        cases p with
        | some p => exact ih
        | none => simp
      | none =>
        simp only
        cases nested (Assoc.set seen (pathText (path ++ [name])) none)
          (if target.head? = some (cp '/') then [] else path) (components [] target) with
        | none => rfl
        | some r =>
          simp only
          cases hr : r.resolved with
          | true => exact ih
          | false => simp

/-- A new name is appended. -/
theorem walkNames_single {nested : Seen → List Name → List Name → Option Walked} (hn : IsPlain n)
    (hnew : Assoc.get? links (pathText (path ++ [n])) = none) :
    walkNames links nested seen path [n] = some ⟨path ++ [n], true, seen⟩ := by
  simp only [walkNames, if_neg hn.2.1, if_neg hn.2.2, hnew]

/-- The canonical path of a name that is no link, in the directory that it is looked up in. -/
theorem realpath_join {root : Str} (hn : IsPlain n)
    (hnew : Assoc.get? links (join (realpath links root).text n) = none) :
    (realpath links (join root n)).names = (realpath links root).names ++ [n] := by
  obtain ⟨r, hr, hgood⟩ := joinRealpath_total links root
  have hroot : realNames links root = r.names := by rw [realNames, hr]; rfl
  have hcomps : components [] (join root n) = components [] root ++ [n] := components_join hn.1
  have hconcat : joinRealpath links links.length [] [] (components [] root ++ [n]) =
      some { r with names := r.names ++ [n] } := by
    obtain ⟨nested, hnested⟩ : ∃ nested,
        joinRealpath links links.length = walkNames links nested := by
      cases links.length <;> exact ⟨_, rfl⟩
    rw [hnested] at hr ⊢
    rw [walkNames_concat, hr, Option.bind_some]
    split
    · rename_i hres
      have hnames : (realpath links root).names = r.names := by
        show normalise [] (realNames links root) = r.names
        rw [hroot]
        exact normalise_of_plain (hgood.plain hres)
      rw [RealPath.text, hnames, join_pathText hgood.names hn.1] at hnew
      rw [walkNames_single hn hnew, ← hres]
    · rfl
  have hjoin : realNames links (join root n) = r.names ++ [n] := by
    rw [realNames, hcomps, hconcat]
    rfl
  show normalise [] (realNames links (join root n)) = normalise [] (realNames links root) ++ [n]
  rw [hjoin, hroot, normalise_concat hn]

/-! ## Texts -/

theorem components_pathText {ns : List Name} (h : ∀ n ∈ ns, IsName n) :
    components [] (pathText ns) = ns := by
  induction ns using List.reverseRecOn with
  | nil => rfl
  | append_singleton ns n ih =>
    obtain ⟨hns, hn⟩ := List.forall_mem_append.mp h
    rw [← join_pathText hns (List.forall_mem_singleton.mp hn),
      components_join (List.forall_mem_singleton.mp hn), ih hns]

theorem RealPath.isName (p : RealPath) : ∀ n ∈ p.names, IsName n := fun n hn => (p.plain n hn).1

theorem RealPath.text_inj {p q : RealPath} (h : p.text = q.text) : p.names = q.names := by
  rw [← components_pathText p.isName, ← components_pathText q.isName]
  exact congrArg (components []) h

theorem pathText_append {ns ms : List Name} (h : ns ≠ []) :
    pathText (ns ++ ms) = pathText ns ++ ms.flatMap (cp '/' :: ·) := by
  cases ns with
  | nil => exact absurd rfl h
  | cons n ns => simp [pathText]

/-- No canonical path starts with two separators. -/
theorem RealPath.not_double (p : RealPath) : ¬ [cp '/', cp '/'] <+: p.text := by
  rintro ⟨s, hs⟩
  cases hp : p.names with
  | nil => simp [RealPath.text, hp, pathText] at hs
  | cons n ns =>
    have hn := p.isName n (hp ▸ List.mem_cons_self)
    rw [RealPath.text, hp] at hs
    cases n with
    | nil => exact hn.1 rfl
    | cons c n =>
      simp [pathText] at hs
      exact hn.2 (hs.1 ▸ List.mem_cons_self)

end Posix
