import Mathlib.Algebra.Order.Ring.Unbundled.Rat
import Music3.Jobs.Serving

/-!
# The listing is what can be served

`scan_listing` on a tree that nobody changes (`Yields`: code as a function of the tree).

* `summaryRead`: what a sidecar with these bytes gives a listing. It is an exception for a value
  that is no `dict` (`AttributeError`), and for one that nests too deep to be read
  (`RecursionError`): the code handles `OSError` and `ValueError` only. `Usable` are the others.
* `candidatesAt`, `entriesAt`: the listing of a tree, as a function of it; `scanListing_yields`.
* `scan_listing_exact`: the listing is exact (`Lists`) if and only if every sidecar that can be
  served is `Usable`. One that is not turns the whole listing into an error (`listing_breaks`).
-/

namespace Music3

open Py Posix StateExcept

/-- How a run ends that ends like `x`. -/
def endsAs {ε σ α : Type} : Except ε α → σ → EStateM.Result ε σ α
  | .ok a, s => .ok a s
  | .error e, s => .error e s

/-- On the tree `fs`, changed by nobody, `m` ends as `x`, and does not change it either. -/
def Yields {α : Type} (fs : Fs) (m : FsM α) (x : Except Exc α) : Prop :=
  ∀ s : Sys, s.turns = [] → s.fs = fs → ∃ t, t.turns = [] ∧ t.fs = fs ∧ m.run s = endsAs x t

namespace Yields

variable {α β : Type} {fs : Fs}

theorem pure (a : α) : Yields fs (Pure.pure a) (.ok a) := fun s hs hfs => ⟨s, hs, hfs, rfl⟩

theorem bind {m : FsM α} {x : Except Exc α} {f : α → FsM β} {g : α → Except Exc β}
    (h : Yields fs m x) (hf : ∀ a, x = .ok a → Yields fs (f a) (g a)) :
    Yields fs (m >>= f) (x >>= g) := by
  intro s hs hfs
  obtain ⟨t, ht, htfs, hrun⟩ := h s hs hfs
  cases x with
  | ok a =>
    rw [run_seq_ok hrun]
    exact hf a rfl t ht htfs
  | error e =>
    rw [run_seq_error hrun]
    exact ⟨t, ht, htfs, rfl⟩

theorem bind_ok {m : FsM α} {a : α} {f : α → FsM β} {y : Except Exc β} (h : Yields fs m (.ok a))
    (hf : Yields fs (f a) y) : Yields fs (m >>= f) y :=
  h.bind (g := fun _ => y) fun _ e => by cases e; exact hf

end Yields

/-! ## Sidecars -/

/-- What a listing reads from the bytes of a sidecar. -/
def summaryRead (P : Platform) (data : Bytes) : Except Exc Dict :=
  match P.load data with
  | .ok v => summaryOf v
  | .error .value => .ok []
  | .error .recursion => .error .recursion

/-- A sidecar that the listing can show: a `dict`, or a text that is no JSON. -/
def Usable (P : Platform) (data : Bytes) : Prop :=
  P.load data = .error .value ∨ ∃ kvs, P.load data = .ok (.obj kvs)

section
variable {P : Platform} {data : Bytes}

theorem summaryRead_of_usable (h : Usable P data) : ∃ d, summaryRead P data = .ok d := by
  unfold summaryRead
  rcases h with h | ⟨kvs, h⟩ <;> rw [h]
  · exact ⟨_, rfl⟩
  · exact ⟨_, rfl⟩

theorem usable_of_summaryRead {d : Dict} (h : summaryRead P data = .ok d) : Usable P data := by
  unfold summaryRead at h
  split at h
  · rename_i v hv
    cases v with
    | obj kvs => exact .inr ⟨kvs, hv⟩
    | _ => cases h
  · rename_i hv; exact .inl hv
  · cases h

section
variable {s : Sys} {fd : Fd}

theorem run_enter_still (hs : s.turns = []) : enter.run s = .ok () s := by
  obtain ⟨fs, turns, fds, log⟩ := s
  cases hs
  rfl

theorem run_readAll (hs : s.turns = []) (hfd : s.fds[fd]?.bind s.fs.file? = some data) :
    (call (readAll fd)).run s = .ok data s := by
  have h : (readAll fd).run s = .ok data s := by
    unfold readAll
    rw [run_seq_ok (run_enter_still hs), EStateM.run_bind, EStateM.run_get]
    simp only [hfd]
    rfl
  unfold call
  rw [EStateM.run_adaptExcept, h]

variable (fd) in
theorem run_finallyClose_ok {α : Type} {m : FsM α} {a : α} {t : Sys} (h : m.run s = .ok a t) :
    (finallyClose fd m).run s = .ok a { t with log := t.log ++ [.closed fd] } := by
  unfold finallyClose
  rw [EStateM.run_bind, run_tryCatch, h]
  rfl

variable (fd) in
theorem run_finallyClose_error {α : Type} {m : FsM α} {e : Exc} {t : Sys}
    (h : m.run s = .error e t) :
    (finallyClose fd m).run s = .error e { t with log := t.log ++ [.closed fd] } := by
  unfold finallyClose
  rw [EStateM.run_bind, run_tryCatch, h]
  rfl

/-- `_listing_summary` of an open sidecar. -/
theorem listingSummary_still (hs : s.turns = []) (hfd : s.fds[fd]?.bind s.fs.file? = some data) :
    ∃ t, t.turns = [] ∧ t.fs = s.fs ∧
      (listingSummary P fd).run s = endsAs (summaryRead P data) t := by
  refine ⟨{ s with log := s.log ++ [.closed fd] }, hs, rfl, ?_⟩
  have hbody : ∀ x, P.load data = x →
      (do let b ← call (readAll fd); ofExcept ((P.load b).mapError Exc.ofLoad) : FsM Json).run s =
        endsAs (x.mapError Exc.ofLoad) s := by
    rintro _ rfl
    rw [run_seq_ok (run_readAll hs hfd)]
    cases P.load data <;> rfl
  unfold listingSummary summaryRead
  cases hl : P.load data with
  | ok v =>
    have h := run_finallyClose_ok fd (hbody _ hl)
    have hopt := run_map_ok some h
    rw [run_seq_ok (by rw [exceptIf, run_tryCatch, hopt])]
    simp only
    cases summaryOf v <;> rfl
  | error e =>
    have h := run_finallyClose_error fd (hbody _ hl)
    have hopt := run_map_error some h
    cases e with
    | value =>
      rw [run_seq_ok (by rw [exceptIf, run_tryCatch, hopt]; rfl)]
      rfl
    | recursion =>
      rw [run_seq_error (by rw [exceptIf, run_tryCatch, hopt]; rfl)]
      rfl

end

/-! ## Entries -/

/-- An entry of the listing. -/
def entryFor (mtime : Rat) (jobId : Str) (summary : Dict) : ListingEntry :=
  let base := lit "/artifacts/" ++ jobId ++ lit "/"
  ⟨jobId, base ++ audioName, base ++ sidecarName, mtime, summary⟩

/-- Both members of the pair are files. -/
def complete (fs : Fs) (jobId : Str) : Bool :=
  (fs.held jobId audioName).isSome && (fs.held jobId sidecarName).isSome

/-- The entry of a candidate, if its pair is complete. -/
def entryAt (P : Platform) (fs : Fs) (mtime : Rat) (jobId : Str) :
    Except Exc (Option ListingEntry) :=
  if complete fs jobId then do
    let summary ← summaryRead P ((fs.held jobId sidecarName).getD [])
    return some (entryFor mtime jobId summary)
  else return none

variable {fs : Fs} {root jobId : Str} {name : Name}

/-- On a tree that nobody changes, `open_member` opens a member exactly if the pair is complete. -/
theorem openMember_still {s : Sys} (hs : s.turns = []) (hroot : root = s.fs.rootPath)
    (hid : isJobId jobId = true) (hname : name = audioName ∨ name = sidecarName) :
    ∃ r t, (openMember root jobId name).run s = .ok r t ∧ t.turns = [] ∧ t.fs = s.fs ∧
      r.isSome = complete s.fs jobId ∧ ∀ fd size, r = some (fd, size) →
        t.fds[fd]?.bind t.fs.file? = s.fs.held jobId name := by
  obtain ⟨hok, herr⟩ := openMember_spec root hid hname s rfl
  cases hrun : (openMember root jobId name).run s with
  | error e t => exact (herr e t hrun).elim
  | ok r t =>
    obtain ⟨hl, hsome, hnone⟩ := hok r t hrun
    obtain ⟨ht, hfs⟩ := hl.still hs
    refine ⟨r, t, rfl, ht, hfs, ?_⟩
    cases r with
    | none =>
      refine ⟨?_, nofun⟩
      rcases hnone rfl hs hroot with h | h <;> simp [complete, h]
    | some p =>
      obtain ⟨fd, size⟩ := p
      obtain ⟨-, ⟨dirFd, d, audioFd, a, sidecarFd, b, hd, ha, hb, hfd⟩, -⟩ := hsome fd size rfl
      have hheld : ∀ m i f, OpenedAs s t (some d) m i .file f →
          s.fs.held jobId m = s.fs.file? i ∧ (s.fs.file? i).isSome = true ∧ t.fds[f]? = some i := by
        intro m i f ho
        refine ⟨held_opened hs hd ho, ?_, ho.refers⟩
        obtain ⟨x, hx, hxk⟩ := Option.map_eq_some_iff.mp (ho.entry hs).2
        cases x with
        | file data => rw [Fs.file?_eq_some.mpr hx]; rfl
        | _ => cases hxk
      obtain ⟨ha₁, ha₂, ha₃⟩ := hheld _ _ _ ha
      obtain ⟨hb₁, hb₂, hb₃⟩ := hheld _ _ _ hb
      refine ⟨?_, ?_⟩
      · rw [complete, ha₁, hb₁, ha₂, hb₂]; rfl
      · rintro _ _ ⟨⟩
        rw [hfs]
        rcases hfd with ⟨rfl, rfl⟩ | ⟨rfl, rfl⟩
        · rw [ha₃, ha₁]; rfl
        · rw [hb₃, hb₁]; rfl

theorem listingEntry_yields (hroot : root = fs.rootPath) (hid : isJobId jobId = true)
    (mtime : Rat) :
    Yields fs (listingEntry P root mtime jobId) (entryAt P fs mtime jobId) := by
  rintro s hs rfl
  obtain ⟨r, t, hrun, ht, hfs, hsome, hfd⟩ := openMember_still hs hroot hid (.inr rfl)
  unfold listingEntry entryAt
  rw [run_seq_ok hrun, ← hsome]
  cases r with
  | none => exact ⟨t, ht, hfs, rfl⟩
  | some p =>
    obtain ⟨fd, size⟩ := p
    have hdata := hfd fd size rfl
    have hheld : (s.fs.held jobId sidecarName).isSome = true := by
      rw [Option.isSome_some, complete] at hsome
      exact (Bool.and_eq_true _ _ ▸ hsome.symm).2
    obtain ⟨data, hb⟩ := Option.isSome_iff_exists.mp hheld
    rw [hb] at hdata
    obtain ⟨u, hu, hufs, hsum⟩ := listingSummary_still (P := P) ht hdata
    rw [hb]
    simp only [Option.isSome_some, ↓reduceIte, Option.getD_some]
    cases hread : summaryRead P data with
    | ok d =>
      rw [hread] at hsum
      rw [run_seq_ok hsum]
      exact ⟨u, hu, hufs.trans hfs, rfl⟩
    | error e =>
      rw [hread] at hsum
      rw [run_seq_error hsum]
      exact ⟨u, hu, hufs.trans hfs, rfl⟩

/-- The entries of candidates. -/
def entriesAt (P : Platform) (fs : Fs) : List (Rat × Str) → Except Exc (List ListingEntry)
  | [] => return []
  | (mtime, jobId) :: candidates => do
    let entry ← entryAt P fs mtime jobId
    return entry.toList ++ (← entriesAt P fs candidates)

theorem listEntries_yields (hroot : root = fs.rootPath) {candidates : List (Rat × Str)}
    (hid : ∀ c ∈ candidates, isJobId c.2 = true) :
    Yields fs (listEntries P root candidates) (entriesAt P fs candidates) := by
  induction candidates with
  | nil => exact .pure []
  | cons c candidates ih =>
    obtain ⟨mtime, jobId⟩ := c
    rw [List.forall_mem_cons] at hid
    unfold listEntries entriesAt
    exact (listingEntry_yields hroot hid.1 mtime).bind fun entry _ =>
      (ih hid.2).bind fun entries _ => .pure _

/-! ## Candidates -/

/-- The modification time of a directory in the root. -/
def mtimeAt (fs : Fs) (name : Name) : Rat :=
  ((fs.lookup fs.root name).bind fs.dir?).elim 0 Dir.mtime

/-- The directories among the entries of the root whose names are ids. -/
def candidatesAt (fs : Fs) (entries : List DirEntry) : List (Rat × Str) :=
  (entries.filter fun e => e.kind = .dir && isJobId e.name).map fun e => (mtimeAt fs e.name, e.name)

/-- The name and the kind of an entry of the root. -/
theorem mem_entriesOf {d : Dir} (hd : fs.dir? fs.root = some d) {e : DirEntry} :
    e ∈ fs.entriesOf d ↔ (fs.lookup fs.root e.name).bind fs.kind? = some e.kind := by
  unfold Fs.entriesOf
  rw [List.mem_filterMap, Fs.lookup_of_dir hd]
  constructor
  · rintro ⟨⟨n, i⟩, hm, he⟩
    obtain ⟨k, hk, rfl⟩ := Option.map_eq_some_iff.mp he
    rw [(Assoc.mem_iff_get? d.nodup).mp hm]
    exact hk
  · intro h
    obtain ⟨i, hi, hk⟩ := Option.bind_eq_some_iff.mp h
    exact ⟨(e.name, i), Assoc.mem_of_get? hi, by rw [hk]; rfl⟩

theorem scanCandidates_yields {d : Dir} (hd : fs.dir? fs.root = some d) {entries : List DirEntry}
    (he : ∀ e ∈ entries, e ∈ fs.entriesOf d) :
    Yields fs (scanCandidates entries) (.ok (candidatesAt fs entries)) := by
  induction entries with
  | nil => exact .pure []
  | cons e entries ih =>
    rw [List.forall_mem_cons] at he
    have ih := ih he.2
    unfold scanCandidates candidatesAt
    by_cases hk : e.kind = .dir ∧ isJobId e.name = true
    · have hn : ¬ (e.kind ≠ .dir ∨ (!isJobId e.name) = true) := by simp [hk]
      rw [if_neg hn, List.filter_cons_of_pos (by simp [hk]), List.map_cons]
      have hmtime : Yields fs (call (entryMtime e.name)) (.ok (mtimeAt fs e.name)) := by
        rintro s hs rfl
        refine ⟨s, hs, rfl, ?_⟩
        have hkind := (mem_entriesOf hd).mp he.1
        obtain ⟨i, hi, hki⟩ := Option.bind_eq_some_iff.mp hkind
        obtain ⟨x, hx, hxk⟩ := Option.map_eq_some_iff.mp hki
        rw [hk.1] at hxk
        cases x with
        | dir dir =>
          have hdir : (s.fs.lookup s.fs.root e.name).bind s.fs.dir? = some dir := by
            rw [hi, Option.bind_some, Fs.dir?_eq_some.mpr hx]
          have hrun : (entryMtime e.name).run s = .ok (mtimeAt s.fs e.name) s := by
            unfold entryMtime mtimeAt
            rw [run_seq_ok (run_enter_still hs), EStateM.run_bind, EStateM.run_get]
            simp only [hdir]
            rfl
          unfold call
          rw [EStateM.run_adaptExcept, hrun]
          rfl
        | _ => cases hxk
      exact hmtime.bind_ok (ih.bind_ok (.pure _))
    · have hp : e.kind ≠ .dir ∨ (!isJobId e.name) = true := by
        rw [not_and_or] at hk
        simpa using hk
      rw [if_pos hp, List.filter_cons_of_neg (by simpa using hk)]
      exact ih

theorem mem_candidatesAt {d : Dir} (hd : fs.dir? fs.root = some d) {c : Rat × Str} :
    c ∈ candidatesAt fs (fs.entriesOf d) ↔ c.1 = mtimeAt fs c.2 ∧ isJobId c.2 = true ∧
      (fs.lookup fs.root c.2).bind fs.kind? = some .dir := by
  unfold candidatesAt
  simp only [List.mem_map, List.mem_filter, mem_entriesOf hd, Bool.and_eq_true, decide_eq_true_eq]
  constructor
  · rintro ⟨e, ⟨he, hk, hid⟩, rfl⟩
    exact ⟨rfl, hid, hk ▸ he⟩
  · rintro ⟨hm, hid, hk⟩
    exact ⟨⟨c.2, .dir⟩, ⟨hk, rfl, hid⟩, by rw [← hm]⟩

/-- The names of the entries are names of the directory, each once. -/
theorem names_entriesOf (d : Dir) :
    ((fs.entriesOf d).map DirEntry.name).Sublist (Assoc.keys d.entries) := by
  unfold Fs.entriesOf
  generalize d.entries = l
  induction l with
  | nil => exact .refl _
  | cons p l ih =>
    rw [Assoc.keys_cons, List.filterMap_cons]
    cases fs.kind? p.2 with
    | none => exact ih.cons _
    | some k => exact ih.cons_cons _

theorem nodup_candidatesAt (d : Dir) : ((candidatesAt fs (fs.entriesOf d)).map Prod.snd).Nodup := by
  have hmap : (candidatesAt fs (fs.entriesOf d)).map Prod.snd =
      ((fs.entriesOf d).filter fun e => e.kind = .dir && isJobId e.name).map DirEntry.name := by
    unfold candidatesAt
    rw [List.map_map]
    rfl
  rw [hmap]
  exact d.nodup.sublist ((List.filter_sublist.map _).trans (names_entriesOf d))

theorem newestFirst_perm (candidates : List (Rat × Str)) :
    (newestFirst candidates).Perm candidates := List.perm_insertionSort _ _

theorem newestFirst_sorted (candidates : List (Rat × Str)) :
    (newestFirst candidates).Pairwise fun a b => b.1 ≤ a.1 := by
  have : Std.Total fun a b : Rat × Str => b.1 ≤ a.1 := ⟨fun _ _ => Rat.le_total⟩
  have : IsTrans (Rat × Str) fun a b => b.1 ≤ a.1 := ⟨fun _ _ _ h h' => Rat.le_trans h' h⟩
  exact List.pairwise_insertionSort _ _

/-! ## The listing -/

/-- The key of an entry. -/
def ListingEntry.key (e : ListingEntry) : Rat × Str := (e.mtime, e.jobId)

theorem entriesAt_ok {candidates : List (Rat × Str)}
    (h : ∀ c ∈ candidates, complete fs c.2 = true →
      Usable P ((fs.held c.2 sidecarName).getD [])) :
    ∃ es, entriesAt P fs candidates = .ok es ∧
      es.map ListingEntry.key = candidates.filter (fun c => complete fs c.2) ∧
      ∀ e ∈ es, summaryRead P ((fs.held e.jobId sidecarName).getD []) = .ok e.summary := by
  induction candidates with
  | nil => exact ⟨[], rfl, rfl, nofun⟩
  | cons c candidates ih =>
    obtain ⟨mtime, jobId⟩ := c
    rw [List.forall_mem_cons] at h
    obtain ⟨es, hes, hkeys, hsum⟩ := ih h.2
    unfold entriesAt entryAt
    rw [hes]
    cases hc : complete fs jobId with
    | false =>
      refine ⟨es, rfl, ?_, hsum⟩
      rw [hkeys, List.filter_cons_of_neg (by simp [hc])]
    | true =>
      obtain ⟨d, hd⟩ := summaryRead_of_usable (h.1 hc)
      refine ⟨entryFor mtime jobId d :: es, ?_, ?_, List.forall_mem_cons.mpr ⟨hd, hsum⟩⟩
      · simp only [↓reduceIte]
        rw [hd]
        rfl
      · rw [List.map_cons, hkeys, List.filter_cons_of_pos (by simp [hc])]
        rfl

theorem entriesAt_error {candidates : List (Rat × Str)} {c : Rat × Str} (hc : c ∈ candidates)
    (hcomplete : complete fs c.2 = true) (h : ¬ Usable P ((fs.held c.2 sidecarName).getD [])) :
    ∃ e, entriesAt P fs candidates = .error e := by
  induction candidates with
  | nil => cases hc
  | cons x candidates ih =>
    obtain ⟨mtime, jobId⟩ := x
    unfold entriesAt
    rcases List.mem_cons.mp hc with rfl | hc
    · cases hread : summaryRead P ((fs.held jobId sidecarName).getD []) with
      | ok d => exact absurd (usable_of_summaryRead hread) h
      | error e =>
        refine ⟨e, ?_⟩
        unfold entryAt
        rw [if_pos hcomplete, hread]
        rfl
    · obtain ⟨e, he⟩ := ih hc
      rw [he]
      cases entryAt P fs mtime jobId with
      | ok o => exact ⟨e, rfl⟩
      | error e' => exact ⟨e', rfl⟩

/-- On a root that is a directory. -/
theorem scanListing_yields (hroot : root = fs.rootPath) {d : Dir} (hd : fs.dir? fs.root = some d) :
    Yields fs (scanListing P root)
      (entriesAt P fs (newestFirst (candidatesAt fs (fs.entriesOf d)))) := by
  rintro s hs rfl
  have hscan : (scandir root).run s = .ok (s.fs.entriesOf d) s := by
    unfold scandir
    rw [run_seq_ok (run_enter_still hs), EStateM.run_bind, EStateM.run_get]
    simp only [hroot, ne_eq, not_true_eq_false, ↓reduceIte, Fs.dir?_eq_some.mp hd]
    rfl
  have hcall : (call (scandir root)).run s = .ok (s.fs.entriesOf d) s := by
    unfold call
    rw [EStateM.run_adaptExcept, hscan]
  unfold scanListing
  rw [run_seq_ok (by rw [exceptIf, run_tryCatch, run_map_ok some hcall])]
  have hids : ∀ c ∈ newestFirst (candidatesAt s.fs (s.fs.entriesOf d)), isJobId c.2 = true :=
    fun c hc => ((mem_candidatesAt hd).mp ((newestFirst_perm _).mem_iff.mp hc)).2.1
  have hlist := listEntries_yields (P := P) hroot hids
  exact ((scanCandidates_yields hd fun _ h => h).bind_ok (f := fun candidates =>
    listEntries P root (newestFirst candidates)) hlist) s hs rfl

/-- Without such a root there is nothing to list. -/
theorem scanListing_missing (h : root = fs.rootPath → fs.dir? fs.root = none) :
    Yields fs (scanListing P root) (.ok []) := by
  rintro s hs rfl
  have hscan : (scandir root).run s = .error .noent s ∨
      (scandir root).run s = .error .notdir s := by
    unfold scandir
    rw [run_seq_ok (run_enter_still hs), EStateM.run_bind, EStateM.run_get]
    by_cases hroot : root = s.fs.rootPath
    · simp only [hroot, ne_eq, not_true_eq_false, ↓reduceIte]
      have hnone := h hroot
      unfold Fs.dir? at hnone
      cases hx : s.fs.node? s.fs.root with
      | none => exact .inl rfl
      | some x =>
        cases x with
        | dir dir => rw [hx] at hnone; cases hnone
        | _ => exact .inr rfl
    · simp only [ne_eq, hroot, not_false_eq_true, ↓reduceIte]
      exact .inl rfl
  unfold scanListing
  rcases hscan with hscan | hscan
  · have hcall : (call (scandir root)).run s = .error (.os .noent) s := by
      unfold call
      rw [EStateM.run_adaptExcept, hscan]
    rw [run_seq_ok (by rw [exceptIf, run_tryCatch, run_map_error some hcall]; rfl)]
    exact ⟨s, hs, rfl, rfl⟩
  · have hcall : (call (scandir root)).run s = .error (.os .notdir) s := by
      unfold call
      rw [EStateM.run_adaptExcept, hscan]
    rw [run_seq_ok (by rw [exceptIf, run_tryCatch, run_map_error some hcall]; rfl)]
    exact ⟨s, hs, rfl, rfl⟩

/-- Which members are served. -/
theorem served_iff {s : Sys} (hs : s.turns = []) (hname : name = audioName ∨ name = sidecarName) :
    (∃ p t, (openMember root jobId name).run s = .ok (some p) t) ↔
      isJobId jobId = true ∧ root = s.fs.rootPath ∧ complete s.fs jobId = true := by
  constructor
  · rintro ⟨⟨fd, size⟩, t, hrun⟩
    have hid : isJobId jobId = true := by
      cases hid : isJobId jobId with
      | true => rfl
      | false =>
        unfold openMember openJobDirFd validateJobId at hrun
        rw [if_neg fun h => hname.elim h.1 h.2, hid] at hrun
        cases hrun
    have hroot := ((openMember_spec root hid hname s rfl).1 _ t hrun).2.1 fd size rfl
    obtain ⟨r, u, hrun', -, -, hsome, -⟩ := openMember_still hs hroot.1 hid hname
    rw [hrun] at hrun'
    cases hrun'
    exact ⟨hid, hroot.1, hsome.symm⟩
  · rintro ⟨hid, hroot, hcomplete⟩
    obtain ⟨r, u, hrun, -, -, hsome, -⟩ := openMember_still hs hroot hid hname
    rw [hcomplete] at hsome
    obtain ⟨p, rfl⟩ := Option.isSome_iff_exists.mp hsome
    exact ⟨p, u, hrun⟩

theorem isDir_of_complete (h : complete fs jobId = true) :
    (fs.lookup fs.root jobId).bind fs.kind? = some .dir ∧ ∃ d, fs.dir? fs.root = some d := by
  unfold complete at h
  obtain ⟨data, hdata⟩ := Option.isSome_iff_exists.mp (Bool.and_eq_true _ _ ▸ h).1
  obtain ⟨i, hi, hdata⟩ := Option.bind_eq_some_iff.mp hdata
  obtain ⟨j, hj, -⟩ := Option.bind_eq_some_iff.mp hdata
  obtain ⟨dir, hdir, -⟩ := Fs.dir_of_lookup hj
  obtain ⟨d, hd, -⟩ := Fs.dir_of_lookup hi
  exact ⟨by rw [hi, Option.bind_some, Fs.kind?_dir hdir], d, hd⟩

end

/-! ## The result -/

/-- A listing that is exact: the ids that can be served, each once, the newest first, each with the
summary of its own sidecar, which is empty for one that is no `dict`. -/
structure ListingOk (P : Platform) (root : Str) (s : Sys) (entries : List ListingEntry) : Prop where
  ids : ∀ id, id ∈ entries.map ListingEntry.jobId ↔ isJobId id = true ∧
    (s.fs.lookup s.fs.root id).bind s.fs.kind? = some .dir ∧
    ∃ p t, (openMember root id audioName).run s = .ok (some p) t
  once : (entries.map ListingEntry.jobId).Nodup
  sorted : entries.Pairwise fun a b => b.mtime ≤ a.mtime
  mtimes : ∀ e ∈ entries, e.mtime = mtimeAt s.fs e.jobId
  shown : ∀ e ∈ entries, ∀ kvs, P.load ((s.fs.held e.jobId sidecarName).getD []) = .ok (.obj kvs) →
    e.summary = summaryKeys.map fun key => (key, Dict.get kvs key)
  empty : ∀ e ∈ entries, (∀ kvs, P.load ((s.fs.held e.jobId sidecarName).getD []) ≠ .ok (.obj kvs)) →
    e.summary = []

/-- `scan_listing` returns normally, with an exact listing. -/
def Lists (P : Platform) (root : Str) (s : Sys) : Prop :=
  ∃ entries t, (scanListing P root).run s = .ok entries t ∧ ListingOk P root s entries

section

variable {P : Platform} {root : Str} {s : Sys} {d : Dir}

/-- Without the root nothing is served. -/
theorem not_served_of_missing (hs : s.turns = [])
    (hroot : ¬ (root = s.fs.rootPath ∧ ∃ d, s.fs.dir? s.fs.root = some d)) (id : Str) :
    ¬ ∃ p t, (openMember root id audioName).run s = .ok (some p) t := by
  intro h
  obtain ⟨-, hr, hc⟩ := (served_iff hs (.inl rfl)).mp h
  exact hroot ⟨hr, (isDir_of_complete hc).2⟩

/-- Without the root the listing is empty. -/
theorem lists_of_missing (hs : s.turns = [])
    (hroot : ¬ (root = s.fs.rootPath ∧ ∃ d, s.fs.dir? s.fs.root = some d)) : Lists P root s := by
  have hmissing : root = s.fs.rootPath → s.fs.dir? s.fs.root = none := by
    intro hr
    cases hd : s.fs.dir? s.fs.root with
    | none => rfl
    | some d => exact absurd ⟨hr, d, hd⟩ hroot
  obtain ⟨t, -, -, hrun⟩ := scanListing_missing (P := P) hmissing s hs rfl
  exact ⟨[], t, hrun, fun id => ⟨nofun, fun h => absurd h.2.2 (not_served_of_missing hs hroot id)⟩,
    List.nodup_nil, .nil, nofun, nofun, nofun⟩

/-- Where every sidecar of a complete candidate is usable, the listing is exact. -/
theorem listingOk_of_usable (hs : s.turns = []) (hr : root = s.fs.rootPath)
    (hd : s.fs.dir? s.fs.root = some d)
    (husable : ∀ c ∈ newestFirst (candidatesAt s.fs (s.fs.entriesOf d)),
      complete s.fs c.2 = true → Usable P ((s.fs.held c.2 sidecarName).getD [])) :
    ∃ es, entriesAt P s.fs (newestFirst (candidatesAt s.fs (s.fs.entriesOf d))) = .ok es ∧
      ListingOk P root s es := by
  obtain ⟨es, hes, hkeys, hsum⟩ := entriesAt_ok husable
  -- the entries are those of the complete candidates
  have hids : es.map ListingEntry.jobId = (es.map ListingEntry.key).map Prod.snd := by
    rw [List.map_map]; rfl
  have hmem : ∀ e ∈ es, e.key ∈ newestFirst (candidatesAt s.fs (s.fs.entriesOf d)) := fun e he =>
    List.mem_of_mem_filter (hkeys ▸ List.mem_map_of_mem he)
  refine ⟨es, hes, fun id => ?_, ?_, ?_, fun e he => ?_, fun e he kvs hl => ?_,
    fun e he hl => ?_⟩
  · rw [hids, hkeys, served_iff hs (.inl rfl)]
    simp only [List.mem_map, List.mem_filter, (newestFirst_perm _).mem_iff, mem_candidatesAt hd]
    constructor
    · rintro ⟨c, ⟨⟨-, hid, hk⟩, hc⟩, rfl⟩
      exact ⟨hid, hk, hid, hr, hc⟩
    · rintro ⟨hid, hk, -, -, hc⟩
      exact ⟨(mtimeAt s.fs id, id), ⟨⟨rfl, hid, hk⟩, hc⟩, rfl⟩
  · rw [hids, hkeys]
    exact (((newestFirst_perm _).map Prod.snd).nodup_iff.mpr (nodup_candidatesAt d)).sublist
      (List.filter_sublist.map _)
  · have hsorted := (newestFirst_sorted (candidatesAt s.fs (s.fs.entriesOf d))).sublist
      (List.filter_sublist (p := fun c => complete s.fs c.2))
    rw [← hkeys, List.pairwise_map] at hsorted
    exact hsorted
  · exact ((mem_candidatesAt hd).mp ((newestFirst_perm _).mem_iff.mp (hmem e he))).1
  · have := hsum e he
    rw [summaryRead, hl] at this
    exact (Except.ok.inj this).symm
  · have := hsum e he
    unfold summaryRead at this
    split at this
    · rename_i v hv
      cases v with
      | obj kvs => exact absurd hv (hl kvs)
      | _ => cases this
    · exact (Except.ok.inj this).symm
    · cases this

end

/-- With no concurrent change, the listing is exact if and only if every sidecar that can be served
is usable. -/
theorem scan_listing_exact {P : Platform} {root : Str} {s : Sys} (hs : s.turns = []) :
    Lists P root s ↔ ∀ id data, (∃ p t, (openMember root id audioName).run s = .ok (some p) t) →
      s.fs.held id sidecarName = some data → Usable P data := by
  by_cases hroot : root = s.fs.rootPath ∧ ∃ d, s.fs.dir? s.fs.root = some d
  swap
  · -- there is no root, and nothing is served
    exact ⟨fun _ id data h => absurd h (not_served_of_missing hs hroot id),
      fun _ => lists_of_missing hs hroot⟩
  obtain ⟨hr, d, hd⟩ := hroot
  obtain ⟨t, -, -, hrun⟩ := scanListing_yields (P := P) hr hd s hs rfl
  have hperm := newestFirst_perm (candidatesAt s.fs (s.fs.entriesOf d))
  constructor
  · rintro ⟨entries, u, hrun', -⟩ id data hserved hdata
    obtain ⟨hid, -, hc⟩ := (served_iff hs (.inl rfl)).mp hserved
    by_contra hu
    have hmem : (mtimeAt s.fs id, id) ∈ newestFirst (candidatesAt s.fs (s.fs.entriesOf d)) :=
      hperm.mem_iff.mpr ((mem_candidatesAt hd).mpr ⟨rfl, hid, (isDir_of_complete hc).1⟩)
    obtain ⟨e, he⟩ := entriesAt_error hmem hc (by rw [hdata]; exact hu)
    rw [hrun, he] at hrun'
    cases hrun'
  · intro h
    have husable : ∀ c ∈ newestFirst (candidatesAt s.fs (s.fs.entriesOf d)),
        complete s.fs c.2 = true → Usable P ((s.fs.held c.2 sidecarName).getD []) := by
      intro c hm hc
      obtain ⟨-, hid, -⟩ := (mem_candidatesAt hd).mp (hperm.mem_iff.mp hm)
      have hheld : (s.fs.held c.2 sidecarName).isSome = true := (Bool.and_eq_true _ _ ▸ hc).2
      obtain ⟨data, hdata⟩ := Option.isSome_iff_exists.mp hheld
      rw [hdata]
      exact h c.2 data ((served_iff hs (.inl rfl)).mpr ⟨hid, hr, hc⟩) hdata
    obtain ⟨es, hes, hok⟩ := listingOk_of_usable hs hr hd husable
    rw [hes] at hrun
    exact ⟨es, t, hrun, hok⟩

namespace Sample

/-- The root with one artifact, whose sidecar has these bytes. -/
def withSidecar (data : Bytes) : Sys where
  fs := { oneArtifact with nodes := oneArtifact.nodes.set 3 (.file data) }

end Sample

theorem scan_listing_one :
    Lists Sample.platform (lit "/artifacts") (Sample.withSidecar [123, 125]) := by
  refine (scan_listing_exact (s := Sample.withSidecar [123, 125]) rfl).mpr fun id data _ hdata => ?_
  obtain ⟨i, hi, -⟩ := Option.bind_eq_some_iff.mp hdata
  -- the root has one entry
  have hid : lit "0a" = id := by
    change Assoc.get? [(lit "0a", 1)] id = some i at hi
    rw [Assoc.get?_cons] at hi
    split at hi
    · assumption
    · cases hi
  subst hid
  exact .inr ⟨[], (Option.some.inj hdata) ▸ rfl⟩

/-- One sidecar that is a list, and nothing is listed. -/
theorem listing_breaks :
    ¬ ∀ s : Sys, s.turns = [] → Lists Sample.platform (lit "/artifacts") s := by
  intro h
  obtain ⟨entries, t, hrun, -⟩ := h (Sample.withSidecar [91, 93]) rfl
  obtain ⟨e, u, hrun'⟩ : ∃ e u, (scanListing Sample.platform (lit "/artifacts")).run
      (Sample.withSidecar [91, 93]) = .error e u := ⟨_, _, rfl⟩
  rw [hrun] at hrun'
  cases hrun'

end Music3
