import Music3.Jobs.Stored
import Music3.Posix.Realpath

/-!
# Containment of paths

`isWithin` compares texts. `isWithin_text`: between canonical paths it is the prefix of components,
but for the root `/`, whose text ends with the separator that `is_within` appends.

`containment`: so a root that `validate_artifacts_root` accepts at startup gets the directory of a
new job from `resolve_within` iff it is not `/`. Here `os.path.realpath` is the one of a whole tree
(`Posix.realpath`); `realpath_rooted` relates it to the tree that a write changes, and so every
write under `/` fails (`writeArtifact_slash`).
-/

namespace Music3

open Py Posix StateExcept Fs

/-! ## The startup check -/

/-- What the startup check calls of the operating system. `probe` makes a temporary file in a
directory, closes it and removes it. -/
structure Host where
  links : List (Str × Str)
  pathExists : Str → Bool
  isdir : Str → Bool
  probe : Str → Except Errno Unit

/-- `os.path.realpath`. -/
def Host.realpath (host : Host) (path : Str) : Str := (Posix.realpath host.links path).text

/-- `validate_artifacts_root`. -/
def validateArtifactsRoot (host : Host) (root : Str) : Except Exc Str :=
  let resolved := host.realpath root
  if !host.pathExists resolved then
    .error (.value (lit "artifacts root does not exist: " ++ resolved))
  else if !host.isdir resolved then
    .error (.value (lit "artifacts root is not a directory: " ++ resolved))
  else match host.probe resolved with
    | .error _ => .error (.value (lit "artifacts root is not writable: " ++ resolved))
    | .ok () => .ok resolved

/-- `resolve_within`, with this `os.path.realpath`. -/
def resolveWithinBy (realpath : Str → Str) (candidate root : Str) : Except Exc Str :=
  if candidate.contains (point 0) || hasUrlScheme candidate then
    .error (.untrustedPath candidate root)
  else
    let candidateReal := realpath candidate
    if isWithin candidateReal (realpath root) then .ok candidateReal
    else .error (.untrustedPath candidate root)

theorem resolveWithin_eq (fs : Fs) : resolveWithin fs = resolveWithinBy fs.realpath := by
  funext candidate root
  simp only [resolveWithin, resolveWithinBy, Bool.or_eq_true, List.contains_iff_mem]

theorem validateArtifactsRoot_ok {host : Host} {root resolved : Str}
    (h : validateArtifactsRoot host root = .ok resolved) : resolved = host.realpath root := by
  unfold validateArtifactsRoot at h
  simp only at h
  split at h
  · cases h
  split at h
  · cases h
  split at h <;> cases h
  rfl

/-! ## The test on texts -/

/-- `is_within` between canonical paths. -/
theorem isWithin_text (c r : RealPath) : isWithin c.text r.text = true ↔
    r.names <+: c.names ∧ (r.names = [] → c.names = []) := by
  rw [isWithin, Bool.or_eq_true, decide_eq_true_eq, List.isPrefixOf_iff_prefix]
  constructor
  · rintro (h | ⟨s, hs⟩)
    · rw [RealPath.text_inj h]
      exact ⟨List.prefix_rfl, id⟩
    · by_cases hr : r.names = []
      · refine absurd ⟨s, ?_⟩ c.not_double
        rw [← hs, RealPath.text, hr]
        rfl
      · refine ⟨⟨components [] s, ?_⟩, fun h => absurd h hr⟩
        rw [← components_pathText c.isName, ← components_pathText r.isName, ← components_append]
        rw [List.append_assoc, List.singleton_append] at hs
        exact congrArg (components []) hs
  · rintro ⟨⟨t, ht⟩, hroot⟩
    by_cases hr : r.names = []
    · rw [RealPath.text, RealPath.text, hr, hroot hr]
      exact .inl rfl
    · cases t with
      | nil =>
        rw [List.append_nil] at ht
        exact .inl (by rw [RealPath.text, RealPath.text, ht])
      | cons n t =>
        refine .inr ⟨n ++ t.flatMap (cp '/' :: ·), ?_⟩
        rw [RealPath.text, RealPath.text, ← ht, pathText_append hr, List.flatMap_cons]
        simp

/-! ## The directory of a new job -/

theorem isPlain_of_isJobId {id : Str} (h : isJobId id = true) : IsPlain id := by
  have hdot : ∀ s : Str, s.head? = some (cp '.') → id ≠ s := by
    rintro s hs rfl
    have := (isIdChar_of_isJobId h).2 _ (List.mem_of_head? hs)
    exact absurd this (by decide)
  exact ⟨isName_of_isJobId h, hdot _ rfl, hdot _ rfl⟩

/-- An absolute path passes the first test of `resolve_within`, with a job's id at its end. -/
theorem join_trusted {root id : Str} (habs : root.head? = some (cp '/')) (hnul : point 0 ∉ root)
    (hid : isJobId id = true) :
    ¬ (point 0 ∈ join root id ∨ hasUrlScheme (join root id) = true) := by
  have hid' : point 0 ∉ id := fun hm => absurd ((isIdChar_of_isJobId hid).2 _ hm) (by decide)
  obtain ⟨t, ht, hnul'⟩ : ∃ t, join root id = cp '/' :: t ∧ point 0 ∉ join root id := by
    have hslash : point 0 ≠ cp '/' := by decide
    cases root with
    | nil => cases habs
    | cons c t =>
      cases habs
      rcases join_eq (a := cp '/' :: t) (isName_of_isJobId hid) with ⟨e, -⟩ | e
      · refine ⟨t ++ id, e, ?_⟩
        rw [e, List.mem_append, not_or]
        exact ⟨hnul, hid'⟩
      · refine ⟨t ++ cp '/' :: id, e, ?_⟩
        rw [e, List.mem_append, not_or]
        exact ⟨hnul, List.not_mem_cons_of_ne_of_not_mem hslash hid'⟩
  rintro (h | h)
  · exact hnul' h
  · rw [ht, hasUrlScheme, show isAlpha (cp '/') = false from rfl] at h
    cases h

section
variable {host : Host} {root resolved id : Str}

/-- The path of a new job resolves to an entry of the root. -/
theorem realpath_child (hid : isJobId id = true)
    (hnew : Assoc.get? host.links (join (host.realpath root) id) = none) :
    host.realpath (join root id) = join (host.realpath root) id := by
  have hplain := isPlain_of_isJobId hid
  rw [Host.realpath, RealPath.text, realpath_join hplain hnew,
    ← join_pathText (RealPath.isName _) hplain.1]
  rfl

/-- The path of a new job is within every root but `/`. -/
theorem isWithin_child (hid : isJobId id = true)
    (hnew : Assoc.get? host.links (join (host.realpath root) id) = none) :
    isWithin (host.realpath (join root id)) (host.realpath root) = true ↔
      host.realpath root ≠ [cp '/'] := by
  have hnames := realpath_join (isPlain_of_isJobId hid) hnew
  have hroot : (Posix.realpath host.links root).names = [] ↔ host.realpath root = [cp '/'] := by
    constructor
    · intro h
      rw [Host.realpath, RealPath.text, h]
      rfl
    · exact fun h => RealPath.text_inj (q := ⟨[], List.forall_mem_nil _⟩) h
  rw [Ne, ← hroot, Host.realpath, Host.realpath, isWithin_text, hnames]
  simp

/-- `resolve_within` of the path of a new job, with a root that the startup check has accepted. -/
theorem resolve_child (habs : root.head? = some (cp '/')) (hnul : point 0 ∉ root)
    (hv : validateArtifactsRoot host root = .ok resolved) (hid : isJobId id = true)
    (hnew : Assoc.get? host.links (join resolved id) = none) :
    resolveWithinBy host.realpath (join root id) root = if resolved ≠ [cp '/']
      then .ok (join resolved id) else .error (.untrustedPath (join root id) root) := by
  obtain rfl := validateArtifactsRoot_ok hv
  rw [resolveWithinBy, if_neg (by simpa using join_trusted habs hnul hid)]
  have hwithin := isWithin_child hid hnew
  rw [realpath_child hid hnew] at hwithin ⊢
  simp only [hwithin]

/-- The tree that a write changes, and the host that it is a part of. -/
structure Rooted (host : Host) (fs : Fs) (id : Str) : Prop where
  rootReal : fs.rootReal = host.realpath fs.rootPath
  noLink : ∀ i t, fs.lookup fs.root id = some i → fs.node? i ≠ some (.symlink t)
  new : Assoc.get? host.links (join (host.realpath fs.rootPath) id) = none

/-- The write path resolves a new job as the host does. -/
theorem realpath_rooted {fs : Fs} (h : Rooted host fs id) (hid : isJobId id = true) :
    resolveWithin fs (join fs.rootPath id) fs.rootPath =
      resolveWithinBy host.realpath (join fs.rootPath id) fs.rootPath := by
  have hroot : fs.realpath fs.rootPath = host.realpath fs.rootPath := (if_pos rfl).trans h.rootReal
  have hchild : fs.realpath (join fs.rootPath id) = host.realpath (join fs.rootPath id) := by
    rw [realpath_name (isName_of_isJobId hid) h.noLink, realpath_child hid h.new, h.rootReal]
  rw [resolveWithin_eq, resolveWithinBy, resolveWithinBy, hroot, hchild]

/-- So no job can be written under the root `/`. -/
theorem writeArtifact_slash {P : Platform} {record : JobRecord} {translated : Dict} {env : Env}
    {s : Sys} (h : Rooted host s.fs record.id) (habs : s.fs.rootPath.head? = some (cp '/'))
    (hnul : point 0 ∉ s.fs.rootPath)
    (hv : validateArtifactsRoot host s.fs.rootPath = .ok [cp '/']) :
    ∃ e, (writeArtifact P record s.fs.rootPath translated env).run s = .error e s := by
  have hnew := h.new
  rw [← validateArtifactsRoot_ok hv] at hnew
  cases hprep : prepareArtifact P s.fs record s.fs.rootPath translated env with
  | error e =>
    refine ⟨e, ?_⟩
    unfold writeArtifact
    rw [EStateM.run_bind, EStateM.run_get]
    simp only [hprep]
    exact run_seq_error (run_ofExcept_error rfl s)
  | ok p =>
    obtain ⟨facts, q, t, hp, -⟩ := prepareArtifact_ok.mp hprep
    have hdir := hp.dirOk
    rw [realpath_rooted h hp.idOk, resolve_child habs hnul hv hp.idOk hnew,
      if_neg (by simp)] at hdir
    cases hdir

end

/-! ## The result -/

/-- Containment of texts is containment of components. -/
def ComponentWise (c r : RealPath) : Prop :=
  isWithin c.text r.text = true ↔ r.names <+: c.names

/-- The directory of a new job under a root that the startup check accepts. -/
structure NewJob (host : Host) (root resolved id : Str) : Prop where
  absolute : root.head? = some (cp '/')
  noNul : point 0 ∉ root
  accepted : validateArtifactsRoot host root = .ok resolved
  jobId : isJobId id = true
  new : Assoc.get? host.links (join resolved id) = none

/-- Containment and the startup check are right but for the root `/`. -/
theorem containment (c r : RealPath) (host : Host) (root resolved id : Str) :
    (ComponentWise c r ↔ (r.names = [] → c.names = [])) ∧
    (NewJob host root resolved id →
      (resolveWithinBy host.realpath (join root id) root = .ok (join resolved id) ↔
        resolved ≠ [cp '/'])) := by
  constructor
  · rw [ComponentWise, isWithin_text]
    constructor
    · exact fun h hr => (h.mpr (hr ▸ List.nil_prefix)).2 hr
    · exact fun h => ⟨fun h' => h'.1, fun h' => ⟨h', h⟩⟩
  · intro h
    rw [resolve_child h.absolute h.noNul h.accepted h.jobId h.new]
    by_cases hr : resolved = [cp '/'] <;> simp [hr]

namespace Sample

/-- A host without links, on which every directory can be written. -/
def host : Host := ⟨[], fun _ => true, fun _ => true, fun _ => .ok ()⟩

theorem newJob (root : Str) (h : root.head? = some (cp '/')) (hn : point 0 ∉ root) :
    NewJob host root (host.realpath root) one := ⟨h, hn, rfl, by decide, rfl⟩

end Sample

theorem containment_sample :
    ComponentWise ⟨[lit "srv", lit "0a"], by decide⟩ ⟨[lit "srv"], by decide⟩ ∧
      resolveWithinBy Sample.host.realpath (join (lit "/srv/../srv/") Sample.one)
        (lit "/srv/../srv/") = .ok (join (lit "/srv") Sample.one) := by
  obtain ⟨hcomponents, hjob⟩ := containment ⟨[lit "srv", lit "0a"], by decide⟩
    ⟨[lit "srv"], by decide⟩ Sample.host (lit "/srv/../srv/") _ Sample.one
  exact ⟨hcomponents.mpr fun h => (by cases h),
    (hjob (Sample.newJob _ rfl (by decide))).mpr (by decide)⟩

/-- The path `/srv` is below `/`, and `/` is a root. -/
theorem root_contains_nothing : ¬ (∀ c r, ComponentWise c r) ∧
    ¬ ∀ host root resolved id, NewJob host root resolved id →
      resolveWithinBy host.realpath (join root id) root = .ok (join resolved id) := by
  constructor
  · intro h
    have := (h ⟨[lit "srv"], by decide⟩ ⟨[], by decide⟩).mpr List.nil_prefix
    exact absurd this (by decide)
  · intro h
    have := h _ _ _ _ (Sample.newJob [cp '/'] rfl (by decide))
    cases this

end Music3
