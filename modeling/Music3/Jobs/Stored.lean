import Music3.Jobs.Survival

/-!
# Success means a stored artifact

`Artifacts cfg root P s`: in the state `s`, each succeeded job has its artifact under the root
(`StoredArtifact`), no cancelled job has a directory, no later step by `P` changes a file of a
succeeded job, and a second write to its id fails and changes nothing.

It holds in every run that submits fresh ids and has no `Overflow` (`success_stored`). An overflow
leaves a running job with a directory, and a cancel makes it a cancelled one (`cancel_leaves`).

The tree changes only by `write_artifact`, which makes the directory of its job and nothing else
(`Move.fs`); `Disk` is the invariant that ties the records to the tree.
-/

namespace Music3

open Py Posix StateExcept Fs Runner

/-- The artifact of a succeeded job: the directory, the audio of the record, and a sidecar that
says what `sidecarFacts` lists, also when it is read back. -/
structure StoredArtifact (P : Platform) (fs : Fs) (r : JobRecord) (audio : Bytes)
    (facts : WavFacts) (sidecar : Dict) (data : Bytes) : Prop where
  dir : (fs.lookup fs.root r.id).bind fs.kind? = some .dir
  isAudio : r.audio = some audio
  audioFile : held fs r.id audioName = some audio
  sidecarFile : held fs r.id sidecarName = some data
  measured : measureWav P audio = .ok facts
  encoded : encodeSidecar P sidecar = .ok data
  tells : ∀ p ∈ sidecarFacts r facts, (Json.obj sidecar).at? p.1 = some p.2
  read : ∃ v, P.load data = .ok v ∧ v.at? [lit "job_id"] = some (.str r.id) ∧
    v.at? [lit "trace_id"] = some (.str r.id) ∧
    ∀ p ∈ sidecarFacts r facts, v.at? p.1 = some p.2.reread

def HasArtifact (P : Platform) (fs : Fs) (r : JobRecord) : Prop :=
  ∃ audio facts sidecar data, StoredArtifact P fs r audio facts sidecar data

/-- No entry of the root is a directory with this name. -/
def NoDirectory (fs : Fs) (id : JobId) : Prop :=
  (fs.lookup fs.root id).bind fs.kind? ≠ some .dir

/-- The job ids are new, and not entries of the root. -/
def FreshSubmits {G : Type} (s : Runner G) : Action G → Prop
  | .submit _ _ id => s.fs.lookup s.fs.root id = none
  | _ => True

/-- The records and the tree agree (module doc). -/
structure Artifacts {G : Type} [ReadinessGate G] (cfg : Config) (root : Str)
    (P : Runner G → Action G → Prop) (s : Runner G) : Prop where
  stored : ∀ id r, s.store.job? id = some r → r.status = .succeeded →
    r.id = id ∧ HasArtifact cfg.platform s.fs r
  cancelled : ∀ id r, s.store.job? id = some r → r.status = .cancelled → NoDirectory s.fs id
  kept : ∀ id r s', s.store.job? id = some r → r.status = .succeeded →
    (runner cfg).Path P s s' →
      ∀ m data, held s.fs id m = some data → held s'.fs id m = some data
  again : ∀ id r record translated (faults : List (Option Nat)), s.store.job? id = some r →
    r.status = .succeeded → record.id = id → ∃ e sys,
      (writeArtifact cfg.platform record root translated cfg.env).run
        { fs := s.fs, turns := faults.map fun fault => { fault } } = .error e sys ∧ sys.fs = s.fs

/-- The records and the tree agree in every run of steps with `P`. -/
def SuccessStored {G : Type} [ReadinessGate G] (cfg : Config) (root : Str)
    (P : Runner G → Action G → Prop) : Prop :=
  ∀ s, (runner cfg).Reach P s → Artifacts cfg root P s

/-! ## The directory of a job -/

/-- The characters of an id are neither slashes nor surrogates. -/
theorem isIdChar_plain {c : CodePoint} (h : isIdChar c = true) : c ≠ cp '/' ∧ c.val < 0xD800 := by
  have hc : c.val < 128 ∧ c.val ≠ 47 := by
    simp only [isIdChar, isDigit, Bool.or_eq_true, Bool.and_eq_true, decide_eq_true_eq,
      Fin.le_def, Fin.ext_iff] at h
    change ((((65 ≤ c.val ∧ c.val ≤ 90) ∨ 97 ≤ c.val ∧ c.val ≤ 122) ∨ 48 ≤ c.val ∧ c.val ≤ 57) ∨
      c.val = 95) ∨ c.val = 45 at h
    omega
  refine ⟨fun e => hc.2 (by rw [e]; rfl), by omega⟩

theorem isIdChar_of_isJobId {id : Str} (h : isJobId id = true) :
    id ≠ [] ∧ ∀ c ∈ id, isIdChar c = true := by
  simp only [isJobId, Bool.and_eq_true, decide_eq_true_eq, List.all_eq_true] at h
  exact ⟨List.length_pos_iff.mp h.1.1, h.2⟩

theorem isName_of_isJobId {id : Str} (h : isJobId id = true) : IsName id :=
  ⟨(isIdChar_of_isJobId h).1, fun hm => (isIdChar_plain ((isIdChar_of_isJobId h).2 _ hm)).1 rfl⟩

theorem reread_of_isJobId {id : Str} (h : isJobId id = true) : (Json.str id).reread = .str id := by
  have hp : plain id := fun c hc => (isIdChar_plain ((isIdChar_of_isJobId h).2 c hc)).2
  rw [Json.reread, Json.sortKeys, Py.norm, (normStr_eq_plain hp).mpr rfl]

section
variable {P : Platform} {fs fs' : Fs} {record : JobRecord} {root dir : Str} {audio : Bytes}
  {facts : WavFacts} {q t : Option PyFloat} {translated : Dict} {env : Env}

/-- The directory that a write makes is the entry of the root with the job's id, unless that is a
symlink. -/
theorem Prepared.locate (hp : Prepared P fs record root dir audio facts q t)
    (hroot : fs.rootPath = root)
    (hs : ∀ i x, fs.lookup fs.root record.id = some i → fs.node? i ≠ some (.symlink x)) :
    fs.locate dir = some (fs.root, record.id) := by
  have hn := isName_of_isJobId hp.idOk
  have hd := hp.dirOk
  unfold resolveWithin at hd
  rw [← hroot, realpath_name hn hs] at hd
  split at hd
  · cases hd
  · simp only at hd
    split at hd <;> cases hd
    exact locate_name hn

variable (P record translated env) in
/-- What a write for a free id leaves behind: the tree as it was, or with the directory. -/
theorem writeArtifact_tree {s : Sys} (hs : s.fs = fs) (hq : Quiet s.turns)
    (hroot : fs.rootPath = root) (hfree : fs.lookup fs.root record.id = none) :
    (∀ e u, (writeArtifact P record root translated env).run s = .error e u →
      u.fs = fs ∧ e ≠ .recursion ∨ ∃ F, fs.Grown fs.root record.id F u.fs) ∧
    ∀ dir u, (writeArtifact P record root translated env).run s = .ok dir u →
      ∃ audio facts q t data, Prepared P fs record root dir audio facts q t ∧
        encodeSidecar P (sidecarOf record (deploymentFactsFromEnv env) facts translated q t) =
          .ok data ∧ fs.Grown fs.root record.id (artifactFiles audio data) u.fs := by
  have hends := writeArtifact_ends P record root translated env hs hq
  -- the directory of a write that passes its checks
  have hdir : ∀ {dir audio sidecar d n}, prepareArtifact P fs record root translated env =
      .ok (dir, audio, sidecar) → fs.Vacant dir d n → d = fs.root ∧ n = record.id := by
    intro dir audio sidecar d n hprep hv
    obtain ⟨facts, q, t, hp, -⟩ := prepareArtifact_ok.mp hprep
    have hl := hp.locate hroot fun i x hi => by rw [hfree] at hi; cases hi
    rw [hv.at_] at hl
    cases hl
    exact ⟨rfl, rfl⟩
  constructor
  · intro e u hrun
    rw [hrun] at hends
    cases hends with
    | refused _ _ hprep hfs =>
      refine .inl ⟨hfs, ?_⟩
      rintro rfl
      exact absurd (prepareArtifact_error hprep) (by decide)
    | blocked _ _ _ _ _ _ _ he hfs => exact .inl ⟨hfs, by rintro rfl; cases he⟩
    | interrupted _ _ _ _ _ _ _ F hprep hv _ _ _ hg
    | unencodable _ _ _ _ _ _ _ F hprep hv _ _ hg =>
      obtain ⟨rfl, rfl⟩ := hdir hprep hv
      exact .inr ⟨F, hg⟩
  · intro dir u hrun
    rw [hrun] at hends
    cases hends with
    | stored _ _ audio sidecar d n data hprep hv _ henc hg =>
      obtain ⟨rfl, rfl⟩ := hdir hprep hv
      obtain ⟨facts, q, t, hp, rfl⟩ := prepareArtifact_ok.mp hprep
      exact ⟨audio, facts, q, t, data, hp, henc, hg⟩

/-- A second write to an id fails, and changes nothing. -/
theorem writeArtifact_again {s : Sys} (hs : s.fs = fs) (hq : Quiet s.turns)
    (hroot : fs.rootPath = root)
    (hdir : (fs.lookup fs.root record.id).bind fs.kind? = some .dir) :
    ∃ e u, (writeArtifact P record root translated env).run s = .error e u ∧ u.fs = fs := by
  obtain ⟨i, hi, hk⟩ := Option.bind_eq_some_iff.mp hdir
  have hends := writeArtifact_ends P record root translated env hs hq
  have hv : ∀ {dir audio sidecar d n}, prepareArtifact P fs record root translated env =
      .ok (dir, audio, sidecar) → ¬ fs.Vacant dir d n := by
    intro dir audio sidecar d n hprep hv
    obtain ⟨facts, q, t, hp, -⟩ := prepareArtifact_ok.mp hprep
    have hl := hp.locate hroot fun j x hj e => by
      rw [hi] at hj
      cases hj
      rw [kind?, e] at hk
      cases hk
    rw [hv.at_] at hl
    cases hl
    have := hv.free
    rw [hi] at this
    cases this
  cases hrun : (writeArtifact P record root translated env).run s with
  | ok dir u =>
    rw [hrun] at hends
    cases hends with
    | stored _ _ _ _ _ _ _ hprep hvac _ _ _ => exact absurd hvac (hv hprep)
  | error e u =>
    rw [hrun] at hends
    refine ⟨e, u, rfl, ?_⟩
    cases hends with
    | refused _ _ _ hfs | blocked _ _ _ _ _ _ _ _ hfs => exact hfs
    | interrupted _ _ _ _ _ _ _ _ hprep hvac _ _ _ _
    | unencodable _ _ _ _ _ _ _ _ hprep hvac _ _ _ => exact absurd hvac (hv hprep)

/-! ## The artifact -/

theorem held_of_grown {F : Name → Option Bytes} {id : JobId} (h : fs.Grown fs.root id F fs')
    (m : Name) : held fs' id m = F m := by
  rw [held, h.root, h.lookup_new]
  exact h.fileAt m

/-- Files that are there stay there. -/
theorem held_mono (h : Extends fs fs') {id : JobId} {m : Name} {data : Bytes}
    (hm : held fs id m = some data) : held fs' id m = some data := by
  obtain ⟨i, hi, hm⟩ := Option.bind_eq_some_iff.mp hm
  obtain ⟨j, hj, hm⟩ := Option.bind_eq_some_iff.mp hm
  rw [held, h.root, h.lookup _ _ _ hi, Option.bind_some, fileAt, h.lookup _ _ _ hj]
  exact h.file _ _ hm

theorem isDir_mono (h : Extends fs fs') {id : JobId}
    (hd : (fs.lookup fs.root id).bind fs.kind? = some .dir) :
    (fs'.lookup fs'.root id).bind fs'.kind? = some .dir := by
  obtain ⟨i, hi, hk⟩ := Option.bind_eq_some_iff.mp hd
  rw [h.root, h.lookup _ _ _ hi]
  exact h.kind _ _ hk

theorem HasArtifact.mono (h : Extends fs fs') (ha : HasArtifact P fs record) :
    HasArtifact P fs' record := by
  obtain ⟨audio, facts, sidecar, data, ha⟩ := ha
  exact ⟨audio, facts, sidecar, data, isDir_mono h ha.dir, ha.isAudio, held_mono h ha.audioFile,
    held_mono h ha.sidecarFile, ha.measured, ha.encoded, ha.tells, ha.read⟩

/-- The artifact that a write has stored. -/
theorem hasArtifact_of_write {data : Bytes} (hp : Prepared P fs record root dir audio facts q t)
    (henc : encodeSidecar P (sidecarOf record (deploymentFactsFromEnv env) facts translated q t) =
      .ok data) (hg : fs.Grown fs.root record.id (artifactFiles audio data) fs') :
    HasArtifact P fs' record := by
  generalize hdoc : sidecarOf record (deploymentFactsFromEnv env) facts translated q t = doc at henc
  have hfacts : ∀ p ∈ sidecarFacts record facts,
      (Json.obj doc).Sound p.1 ∧ (Json.obj doc).at? p.1 = some p.2 := hdoc ▸ sidecarOf_at?
  have hread : ∀ p ∈ sidecarFacts record facts,
      (Json.obj doc).reread.at? p.1 = some p.2.reread := by
    intro p hp
    obtain ⟨hsound, hat⟩ := hfacts p hp
    rw [Json.at?_reread hsound, hat]
    rfl
  have hid := reread_of_isJobId hp.idOk
  refine ⟨audio, facts, _, data, ?_, ?_, ?_, ?_, hp.measured, henc, fun p hp => (hfacts p hp).2, _,
    encodeSidecar_load henc, ?_, ?_, hread⟩
  · rw [hg.root]
    exact hg.isDir
  · have hne := hp.audio_ne
    have ha := hp.isAudio
    cases hrec : record.audio with
    | none => rw [hrec] at ha; exact absurd ha hne
    | some b => rw [ha, hrec]; rfl
  · rw [held_of_grown hg, artifactFiles, Function.update_of_ne (by decide), Function.update_self]
  · rw [held_of_grown hg, artifactFiles, Function.update_self]
  · exact hid ▸ hread ([lit "job_id"], .str record.id) (by simp [sidecarFacts])
  · exact hid ▸ hread ([lit "trace_id"], .str record.id) (by simp [sidecarFacts])

end

/-! ## The tree along a run -/

/-- What ties the records to the tree: a job that has not ended, or is cancelled, has no entry
there, and a succeeded one has its artifact. -/
structure Disk (P : Platform) (root : Str) (st : JobStore) (fs : Fs) : Prop where
  rootPath : fs.rootPath = root
  free : ∀ id r, st.job? id = some r → r.status ≠ .failed → r.status ≠ .succeeded →
    fs.lookup fs.root id = none
  stored : ∀ id r, st.job? id = some r → r.status = .succeeded → HasArtifact P fs r

section
variable {P : Platform} {root : Str} {st : JobStore} {fs fs' : Fs} {job : JobId} {r r' : JobRecord}

theorem Disk.enqueue (h : Disk P root st fs) (hf : fs.lookup fs.root job = none)
    (submission : Submission) (now : Str) : Disk P root (st.enqueued job submission now) fs := by
  refine ⟨h.rootPath, fun id x hx h₁ h₂ => ?_, fun id x hx hst => ?_⟩ <;>
    rw [JobStore.job?_enqueued] at hx <;> split at hx
  · rename_i e; exact e ▸ hf
  · exact h.free id x hx h₁ h₂
  · cases hx; cases hst
  · exact h.stored id x hx hst

/-- A transition that leaves the tree as it is. -/
theorem Disk.advance (h : Disk P root st fs) (hr : st.job? job = some r)
    (ht : r.status.terminal = false) (hn : r'.status ≠ .succeeded) (data : Dict) :
    Disk P root (st.advance job r' data) fs := by
  have hfree : fs.lookup fs.root job = none := by
    refine h.free job r hr ?_ ?_ <;> intro e <;> rw [e] at ht <;> cases ht
  refine ⟨h.rootPath, fun id x hx h₁ h₂ => ?_, fun id x hx hst => ?_⟩ <;>
    rw [JobStore.job?_advance] at hx <;> split at hx
  · rename_i e; exact e ▸ hfree
  · exact h.free id x hx h₁ h₂
  · cases hx; exact absurd hst hn
  · exact h.stored id x hx hst

/-- The end of a job's write. -/
theorem Disk.write (h : Disk P root st fs)
    (hfs : fs' = fs ∨ ∃ F, fs.Grown fs.root job F fs')
    (hr' : r'.status = .failed ∨ r'.status = .succeeded ∧ HasArtifact P fs' r') (data : Dict) :
    Disk P root (st.advance job r' data) fs' := by
  have hext : Extends fs fs' := by
    rcases hfs with rfl | ⟨F, hg⟩
    · exact .refl _
    · exact hg.extends
  have hother : ∀ id, id ≠ job → fs'.lookup fs'.root id = fs.lookup fs.root id := by
    intro id hid
    rcases hfs with rfl | ⟨F, hg⟩
    · rfl
    · obtain ⟨dir, hd, -⟩ := hg.parent
      rw [hg.root, hg.lookup_old (lt_of_node? (dir?_eq_some.mp hd)) id (.inr hid)]
  refine ⟨hext.rootPath.trans h.rootPath, fun id x hx h₁ h₂ => ?_, fun id x hx hst => ?_⟩ <;>
    rw [JobStore.job?_advance] at hx <;> split at hx
  · cases hx
    rcases hr' with e | ⟨e, -⟩
    · exact absurd e h₁
    · exact absurd e h₂
  · rename_i e
    rw [hother id (Ne.symm e)]
    exact h.free id x hx h₁ h₂
  · cases hx
    rcases hr' with e | ⟨-, ha⟩
    · rw [e] at hst; cases hst
    · exact ha
  · exact (h.stored id x hx hst).mono hext

end

section
variable {G : Type} {cfg : Config} {root : Str} {s s' : Runner G} {job : JobId} {r : JobRecord}
  {request : EngineRequest} {result : EngineResult} {now later : Str} {faults : List (Option Nat)}

/-- The tree after the end of an engine call. -/
theorem Persist.tree (h : Persist cfg s job r request result now later faults s')
    (hroot : cfg.artifactsRoot = some root) (hfs : s.fs.rootPath = root) (hid : r.id = job)
    (hfree : s.fs.lookup s.fs.root job = none) :
    s'.fs = s.fs ∨ ∃ F, s.fs.Grown s.fs.root job F s'.fs := by
  have hw := writeArtifact_tree cfg.platform (r.succeeded result now) (buildBody request) cfg.env
    (s := { fs := s.fs, turns := faults.map fun fault => { fault } }) rfl (quiet_faults faults) hfs
    (by rw [← hid] at hfree; exact hfree)
  rw [← hid]
  cases h with
  | noRoot hn => rw [hroot] at hn; cases hn
  | stored _ _ _ h hrun =>
    rw [hroot] at h; cases h
    obtain ⟨_, _, _, _, _, -, -, hg⟩ := hw.2 _ _ hrun
    exact .inr ⟨_, hg⟩
  | writeFailed _ _ _ h hrun _ | died _ _ h hrun =>
    rw [hroot] at h; cases h
    exact (hw.1 _ _ hrun).imp_left And.left

/-- The end of an engine call keeps the records and the tree together, unless it kills the
worker. -/
theorem Persist.disk (h : Persist cfg s job r request result now later faults s')
    (hd : Disk cfg.platform root s.store s.fs) (hroot : cfg.artifactsRoot = some root)
    (hr : s.store.job? job = some r) (hst : r.status = .running) (hid : r.id = job)
    (halive : ∀ e, s'.worker ≠ .died job e) : Disk cfg.platform root s'.store s'.fs := by
  have hfree : s.fs.lookup s.fs.root job = none := hd.free job r hr (by rw [hst]; nofun) (by
    rw [hst]; nofun)
  have htree := h.tree hroot hd.rootPath hid hfree
  cases h with
  | noRoot hn => rw [hroot] at hn; cases hn
  | stored _ _ _ h hrun =>
    rw [hroot] at h; cases h
    rw [← hid] at hfree
    obtain ⟨_, _, _, _, _, hp, henc, hg⟩ := (writeArtifact_tree _ (r.succeeded result now) _ _
      rfl (quiet_faults faults) hd.rootPath hfree).2 _ _ hrun
    exact hd.write htree (.inr ⟨rfl, hasArtifact_of_write hp henc hg⟩) []
  | writeFailed _ _ _ _ _ _ => exact hd.write htree (.inl rfl) _
  | died _ _ _ _ => exact absurd rfl (halive _)

variable [ReadinessGate G]

/-- A move changes the tree by a write of a job that has no entry there. -/
theorem Move.tree {a : Action G} (hm : Move cfg s a s') (hs : s.Ok)
    (hroot : cfg.artifactsRoot = some root) (hd : Disk cfg.platform root s.store s.fs) :
    s'.fs = s.fs ∨ ∃ job F, s.fs.Grown s.fs.root job F s'.fs := by
  cases hm with
  | resumeResult job _ _ _ _ _ _ _ r _ hw hcall _ _ hr hst hp =>
    have hfree : s.fs.lookup s.fs.root job = none := hd.free job r hr (by rw [hst]; nofun) (by
      rw [hst]; nofun)
    exact (hp.tree hroot hd.rootPath (hs.books.store.id job r hr) hfree).imp_right fun h => ⟨job, h⟩
  | _ => exact .inl rfl

theorem Move.extends {a : Action G} (hm : Move cfg s a s') (hs : s.Ok)
    (hroot : cfg.artifactsRoot = some root) (hd : Disk cfg.platform root s.store s.fs) :
    Extends s.fs s'.fs := by
  rcases hm.tree hs hroot hd with e | ⟨job, F, hg⟩
  · rw [e]; exact .refl _
  · exact hg.extends

/-- A move that is no overflow keeps the records and the tree together. -/
theorem Move.disk {a : Action G} (hm : Move cfg s a s') (hs : s.Ok)
    (hroot : cfg.artifactsRoot = some root) (hfresh : FreshSubmits s a) (ho : ¬ Overflow cfg s a)
    (hd : Disk cfg.platform root s.store s.fs) : Disk cfg.platform root s'.store s'.fs := by
  cases hm with
  | submit submission now job _ => exact hd.enqueue hfresh submission now
  | cancel job now r hr ht => exact hd.advance hr ht (by intro e; cases e) []
  | readyFail job state now r _ _ _ hr hst _ =>
    exact hd.advance hr (by rw [hst]; rfl) (by intro e; cases e) _
  | begin job now r _ _ _ hr hst => exact hd.advance hr (by rw [hst]; rfl) (by intro e; cases e) []
  | resumeFail job _ _ _ message now _ _ r _ _ _ _ hr hst =>
    exact hd.advance hr (by rw [hst]; rfl) (by intro e; cases e) _
  | resumeResult job task request outcome result now later faults r s' hw hcall hc haw hr hst hp =>
    have hm : Move cfg s (.resume now later faults) s' :=
      .resumeResult job task request outcome result now later faults r s' hw hcall hc haw hr hst hp
    refine hp.disk (s := s.release) hd hroot hr hst (hs.books.store.id job r hr) fun e he => ho ?_
    exact hm.overflow (fun j e' h => by rw [hw] at h; cases h) he
  | _ => exact hd

variable {P : Runner G → Action G → Prop}

/-- The condition on a run (module doc). -/
def Clean (cfg : Config) (s : Runner G) (a : Action G) : Prop :=
  FreshSubmits s a ∧ ¬ Overflow cfg s a

theorem reach_disk (hroot : cfg.artifactsRoot = some root) (hP : ∀ s a, P s a → Clean cfg s a)
    (h : (runner cfg).Reach P s) : Disk cfg.platform root s.store s.fs := by
  obtain ⟨s₀, h₀, hp⟩ := h
  refine hp.preserves_reach (I := fun s => Disk cfg.platform root s.store s.fs)
    (fun s a s' hr hi ha hst => (reach_move hr hst).disk (reach_ok hr) hroot (hP s a ha).1
      (hP s a ha).2 hi) (.init h₀) ?_
  obtain ⟨limit, store, gate, fs, hn, hfs, rfl⟩ := h₀
  unfold JobStore.new at hn
  split at hn <;> cases hn
  exact ⟨hfs root hroot, fun _ _ hr => (by cases hr), fun _ _ hr => (by cases hr)⟩

/-- Along a run, entries and files are only added. -/
theorem path_extends (hroot : cfg.artifactsRoot = some root) (hP : ∀ s a, P s a → Clean cfg s a)
    (h : (runner cfg).Reach P s) (hp : (runner cfg).Path P s s') : Extends s.fs s'.fs :=
  hp.preserves_reach (I := fun t => Extends s.fs t.fs)
    (fun _ _ _ hr hi _ hst => hi.trans
      ((reach_move hr hst).extends (reach_ok hr) hroot (reach_disk hroot hP hr))) h (.refl _)

/-- What an overflow leaves: a running job with a directory. -/
theorem Move.overflow_leaves {a : Action G} (hm : Move cfg s a s') (hs : s.Ok)
    (hroot : cfg.artifactsRoot = some root) (hd : Disk cfg.platform root s.store s.fs)
    (ho : Overflow cfg s a) (hreq : Requested cfg s)
    (hacc : ∀ id r, s.store.job? id = some r → r.submission.IntsOk) :
    ∃ job r, s'.store.job? job = some r ∧ r.status = .running ∧
      (s'.fs.lookup s'.fs.root job).bind s'.fs.kind? = some .dir := by
  obtain ⟨job, e, hw⟩ := hm.died ho hreq hacc
  cases a with
  | resume now later faults =>
    obtain ⟨_, _, _, _, _, _, hworker, -⟩ := ho
    cases hm with
    | resumeResult job' _ _ _ result _ _ _ r _ hw' hcall _ _ hr hst hp =>
      have hid := hs.books.store.id job' r hr
      have hfree : s.fs.lookup s.fs.root job' = none := hd.free job' r hr (by rw [hst]; nofun) (by
        rw [hst]; nofun)
      cases hp with
      | died _ sys h hrun =>
        rw [hroot] at h; cases h
        have htree := (writeArtifact_tree _ (r.succeeded result now) _ _ rfl (quiet_faults faults)
          hd.rootPath (by rw [← hid] at hfree; exact hfree)).1 _ _ hrun
        obtain ⟨F, hg⟩ := htree.resolve_left fun h => h.2 rfl
        refine ⟨job', r, hr, hst, ?_⟩
        have := hg.isDir
        rw [← hg.root] at this
        exact hid ▸ this
      | noRoot _ | stored _ _ _ _ _ | writeFailed _ _ _ _ _ _ => cases hw
    | resumeDrop _ _ _ _ _ _ _ _ _ _ | resumeStopped _ _ _ _ _ _ _ _ _ _ _
    | resumeFail _ _ _ _ _ _ _ _ _ _ _ _ _ _ _ => cases hw
  | _ => exact ho.elim

variable (cfg) in
/-- A cancel of a running job with a directory. -/
theorem Runner.Ok.cancel_leaves (hs : s.Ok) {job : JobId} {r : JobRecord} (now : Str)
    (hr : s.store.job? job = some r) (hst : r.status = .running)
    (hdir : (s.fs.lookup s.fs.root job).bind s.fs.kind? = some .dir) :
    ∃ s', s.step cfg (.cancel job now) = some s' ∧
      s'.store.job? job = some (r.cancelled now) ∧ ¬ NoDirectory s'.fs job := by
  refine ⟨(s.abort job).advance job (r.cancelled now) [], ?_, ?_, fun h => h hdir⟩
  · show some (stateAfter (Music3.cancel job now) s) = _
    rw [stateAfter, run_cancel now hs hr (by rw [hst]; rfl)]
  · exact (JobStore.job?_advance _ _ _).trans (if_pos rfl)

end

/-! ## The result -/

/-- The records and the tree agree exactly in the runs without an overflow. -/
theorem success_stored {G : Type} [ReadinessGate G] {cfg : Config} {root : Str}
    (h : cfg.artifactsRoot = some root) :
    SuccessStored (G := G) cfg root (Clean cfg) ∧
    ∀ (s : Runner G) a s',
      (runner cfg).Reach (fun s a => Clean cfg s a ∧ AcceptedSubmits cfg s a) s →
      (runner cfg).step s a = some s' → Overflow cfg s a → ∃ job, ∀ now, ∃ s'' r,
        (runner cfg).step s' (.cancel job now) = some s'' ∧ s''.store.job? job = some r ∧
          r.status = .cancelled ∧ ¬ NoDirectory s''.fs job := by
  constructor
  · intro s hreach
    have hd := reach_disk h (fun _ _ hc => hc) hreach
    refine ⟨fun id r hr hst => ⟨(reach_ok hreach).books.store.id id r hr, hd.stored id r hr hst⟩,
      fun id r hr hst => ?_, fun id r s' _ _ hp m data hm =>
        held_mono (path_extends h (fun _ _ hc => hc) hreach hp) hm,
      fun id r record translated faults hr hst hid => ?_⟩
    · rw [NoDirectory, hd.free id r hr (by rw [hst]; nofun) (by rw [hst]; nofun)]
      nofun
    · obtain ⟨_, _, _, _, ha⟩ := hd.stored id r hr hst
      refine writeArtifact_again rfl (quiet_faults faults) hd.rootPath ?_
      have hdir := ha.dir
      rwa [(reach_ok hreach).books.store.id id r hr, ← hid] at hdir
  · intro s a s' hreach hst ho
    have hd := reach_disk h (fun _ _ hc => hc.1) hreach
    obtain ⟨job, r, hr, hrun, hdir⟩ := (reach_move hreach hst).overflow_leaves (reach_ok hreach) h hd
      ho (reach_requested hreach) fun id r hr =>
        (reach_accepted (hreach.mono fun _ _ hc => hc.2) id r hr).intsOk
    refine ⟨job, fun now => ?_⟩
    have hok := reach_ok (hreach.always.step trivial hst)
    obtain ⟨s'', hst', hr', hnd⟩ := hok.cancel_leaves cfg now hr hrun hdir
    exact ⟨s'', _, hst', hr', rfl, hnd⟩

namespace Sample

/-- A new id, and no cloud request. -/
def freshNative (s : Runner Readiness) : Action Readiness → Bool
  | .submit _ _ id => (s.fs.lookup s.fs.root id).isNone
  | a => native s a

theorem clean_of_freshNative (s : Runner Readiness) (a : Action Readiness)
    (h : freshNative s a = true) :
    Clean (config (some root)) s a := by
  cases a with
  | submit submission now job => exact ⟨Option.isNone_iff_eq_none.mp h, id⟩
  | _ => exact ⟨trivial, no_overflow_of_native (some root) s _ h⟩

end Sample

set_option maxRecDepth 16000 in
theorem success_stored_one_job : ∃ s r, (runner (Sample.config (some Sample.root))).runIf
    Sample.freshNative Sample.initial Sample.storedJob = some s ∧
      s.store.job? Sample.one = some r ∧ r.status = .succeeded ∧
      HasArtifact Sample.platform s.fs r := by
  have h : ((runner (Sample.config (some Sample.root))).runIf Sample.freshNative Sample.initial
      Sample.storedJob).map (fun s => (s.store.job? Sample.one).map JobRecord.status) =
        some (some .succeeded) := by rfl
  obtain ⟨s, hs, hj⟩ := Option.map_eq_some_iff.mp h
  obtain ⟨r, hr, hst⟩ := Option.map_eq_some_iff.mp hj
  have hroot : (Sample.config (some Sample.root)).artifactsRoot = some Sample.root := rfl
  have hreach : (runner (Sample.config (some Sample.root))).Reach
      (Clean (Sample.config (some Sample.root))) s :=
    ⟨_, Sample.init_initial fun _ => Option.some.inj,
      Lts.path_of_runIf Sample.clean_of_freshNative hs⟩
  exact ⟨s, r, hs, hr, hst, (((success_stored hroot).1 s hreach).stored Sample.one r hr hst).2⟩

namespace Sample

/-- The run of `deepJob` submits a fresh id, and has no overflow yet. -/
theorem AtDeepResult.reach_clean {s : Runner Readiness} (h : AtDeepResult s) :
    (runner (config (some root))).Reach (fun s a =>
      Clean (config (some root)) s a ∧ AcceptedSubmits (config (some root)) s a) s := by
  obtain ⟨s₁, h₁, h₂⟩ := Option.bind_eq_some_iff.mp h.run
  refine ⟨initial, init_initial fun _ => Option.some.inj, (Lts.Path.single ?_ h₁).trans
    (Lts.path_of_run_forall ?_ h₂)⟩
  · exact ⟨⟨rfl, id⟩, accepted_deep (by decide)⟩
  · simp only [List.forall_mem_cons, List.not_mem_nil, false_implies, implies_true, and_true]
    exact ⟨fun _ => ⟨⟨trivial, id⟩, trivial⟩, fun _ => ⟨⟨trivial, id⟩, trivial⟩,
      fun _ => ⟨⟨trivial, id⟩, trivial⟩, fun _ => ⟨⟨trivial, id⟩, trivial⟩⟩

end Sample

/-- Not every run keeps the records and the tree together. -/
theorem cancelled_leaves : ¬ SuccessStored (Sample.config (some Sample.root)) Sample.root
    (fun (s : Runner Sample.Readiness) a =>
      FreshSubmits s a ∧ AcceptedSubmits (Sample.config (some Sample.root)) s a) := by
  intro h
  obtain ⟨s, hs⟩ := Sample.exists_atDeepResult
  have hreach := hs.reach_clean
  have hd := reach_disk rfl (fun _ _ hc => hc.1) hreach
  obtain ⟨s', hst⟩ : ∃ s', (runner (Sample.config (some Sample.root))).step s
      (.resume Sample.late Sample.late []) = some s' := by
    have : s.GoesOn (Sample.config (some Sample.root)) := (reach_ok hreach).goesOn
    unfold GoesOn at this
    rw [hs.worker] at this
    exact this _ hs.call _ _ _
  obtain ⟨job, r, hr, hrun, hdir⟩ := (reach_move hreach hst).overflow_leaves (reach_ok hreach) rfl hd
    hs.overflow (reach_requested hreach) fun id r hr => (reach_accepted hs.reach id r hr).intsOk
  have hok := reach_ok (hreach.always.step trivial hst)
  obtain ⟨s'', hst', hr', hnd⟩ :=
    hok.cancel_leaves (Sample.config (some Sample.root)) Sample.late hr hrun hdir
  have hpath : (runner (Sample.config (some Sample.root))).Path (fun s a => FreshSubmits s a ∧
      AcceptedSubmits (Sample.config (some Sample.root)) s a) s s'' :=
    .step (.cancel job Sample.late) (.single (a := .resume Sample.late Sample.late [])
      ⟨trivial, trivial⟩ hst) ⟨trivial, trivial⟩ hst'
  have hreach' := (hreach.mono fun _ _ hc => ⟨hc.1.1, hc.2⟩).path hpath
  exact hnd ((h s'' hreach').cancelled job _ hr' rfl)

end Music3
