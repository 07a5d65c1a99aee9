import Music3.Jobs.ArtifactFiles
import Music3.Jobs.Stored
import Music3.Py.Same
import Music3.Routes.Submit

/-!
# Sidecars as JSON

`RealJson`: the bytes of a sidecar are a text of RFC 8259, and read back they are the value that
`build_sidecar` has made, with the request as it was received.

`sidecar_real_json`: the sidecar of an accepted submission is so iff the submission is `Recordable`.
`json.loads` takes `NaN` and `Infinity`, and reads a number out of range as infinite, and
`json.dumps` writes them under the key that they came with.

`ServerSide` is what is known of the values that the service itself records.
-/

namespace Music3

open Py Posix StateExcept Json

/-- What the service itself records: finite times, and texts without split pairs. -/
structure ServerSide (P : Platform) (env : Env) (record : JobRecord) (model : Str) : Prop where
  quotient : ∀ n m, n < 2 ^ 32 → 0 < m → (P.trueDiv n m).isFinite = true
  interval : ∀ start stop x, P.isoDelta start stop = .ok x → x.isFinite = true
  generation : ∀ x, record.generationSeconds = some x → x.isFinite = true
  digest : ∀ b, Whole (P.sha256 b)
  environ : ∀ k v, env k = some v → Whole v
  model : Whole model
  submittedAt : Whole record.submittedAt
  recorded : ∀ s, some s ∈ [record.startedAt, record.endedAt, record.engine, record.model,
    record.contentType] → Whole s

/-- What the text of a submission keeps. -/
structure Recordable (submission : Submission) : Prop where
  input : Whole submission.input
  instructions : Whole submission.instructions
  finite : ∀ cloud, submission.cloud = some cloud → (Json.obj cloud).Finite
  cloud : ∀ cloud, submission.cloud = some cloud → ∀ s ∈ (Json.obj cloud).strings, Whole s

/-- A file `sidecar.json` of a write that has returned `dir`, and the value it was made from. -/
structure StoredSidecar (P : Platform) (fs fs' : Fs) (record : JobRecord) (translated : Dict)
    (env : Env) (dir : Str) (sidecar : Dict) (data : Bytes) : Prop where
  built : ∃ facts, measureWav P (record.audio.getD []) = .ok facts ∧
    buildSidecar P record (deploymentFactsFromEnv env) facts translated = .ok sidecar
  file : ∃ d n, fs.locate dir = some (d, n) ∧
    (fs'.lookup d n).bind (fs'.fileAt · sidecarName) = some data

/-- What the bytes of a sidecar are (module doc). -/
structure RealJson (P : Platform) (submission : Submission) (sidecar : Dict) (data : Bytes) :
    Prop where
  text : ∃ text, decodeUtf8 data = some text ∧ Rfc8259.IsText text
  same : ∃ v, P.load data = .ok v ∧ v.Same (.obj sidecar)
  received : ∀ v declared chunks body r, P.load data = .ok v →
    readJsonBody P declared chunks = .ok (.obj body) → translate P (.obj body) = .ok r →
    submission = r.submission → ∃ cloud, v.at? [lit "request", lit "cloud"] = some cloud ∧
      cloud.Same (.obj (recordedCloud body))

section
variable {P : Platform} {record : JobRecord} {deployment : DeploymentFacts} {facts : WavFacts}
  {request : EngineRequest} {q t : Option PyFloat}

theorem whole_lit {s : String} (h : s.toList.all (fun c => c.toNat < 0xD800) = true) :
    Whole (lit s) := whole_of_plain (plain_lit h)

theorem finite_jsonFloat? {x : Option PyFloat} :
    (jsonFloat? x).Finite ↔ ∀ y, x = some y → y.isFinite = true := by
  cases x <;> simp [jsonFloat?, Json.Finite]

theorem whole_jsonStr? {s : Option Str} :
    (∀ x ∈ (jsonStr? s).strings, Whole x) ↔ ∀ x, s = some x → Whole x := by
  cases s <;> simp [jsonStr?, Json.strings]

theorem strings_jsonFloat? (x : Option PyFloat) : (jsonFloat? x).strings = [] := by
  cases x <;> rfl

theorem finite_jsonStr? (s : Option Str) : (jsonStr? s).Finite := by cases s <;> trivial

theorem finite_sidecarOf (hd : facts.durationSeconds.isFinite = true)
    (hg : ∀ x, record.generationSeconds = some x → x.isFinite = true)
    (hq : ∀ x, q = some x → x.isFinite = true) (ht : ∀ x, t = some x → x.isFinite = true) :
    (Json.obj (sidecarOf record deployment facts (buildBody request) q t)).Finite ↔
      ∀ cloud, record.submission.cloud = some cloud → (Json.obj cloud).Finite := by
  have hg := finite_jsonFloat?.mpr hg
  have hq := finite_jsonFloat?.mpr hq
  have ht := finite_jsonFloat?.mpr ht
  cases hc : record.submission.cloud with
  | none =>
    simp [sidecarOf, sidecarRequest, hc, Json.Finite, FiniteFields, finite_jsonStr?, hg, hq, ht, hd,
      buildBody]
  | some cloud =>
    simp [sidecarOf, sidecarRequest, hc, Json.Finite, FiniteFields, finite_jsonStr?, hg, hq, ht, hd,
      buildBody]

/-- The strings that the service records. -/
structure WholeSide (record : JobRecord) (deployment : DeploymentFacts) (facts : WavFacts)
    (request : EngineRequest) : Prop where
  id : Whole record.id
  version : Whole deployment.version
  imageDigest : ∀ s, deployment.imageDigest = some s → Whole s
  modelPath : ∀ s, deployment.modelPath = some s → Whole s
  contentHash : Whole facts.contentHash
  model : Whole request.model
  submittedAt : Whole record.submittedAt
  recorded : ∀ s, some s ∈ [record.startedAt, record.endedAt, record.engine, record.model,
    record.contentType] → Whole s

theorem whole_sidecarOf (h : WholeSide record deployment facts request)
    (hi : request.input = record.submission.input)
    (hn : request.instructions = record.submission.instructions) :
    (∀ s ∈ (Json.obj (sidecarOf record deployment facts (buildBody request) q t)).strings,
      Whole s) ↔
      Whole record.submission.input ∧ Whole record.submission.instructions ∧
        ∀ cloud, record.submission.cloud = some cloud →
          ∀ s ∈ (Json.obj cloud).strings, Whole s := by
  have hopt : ∀ {s}, s ∈ [record.startedAt, record.endedAt, record.engine, record.model,
      record.contentType] → ∀ x ∈ (jsonStr? s).strings, Whole x := by
    intro s hs
    refine whole_jsonStr?.mpr fun x hx => ?_
    subst hx
    exact h.recorded x hs
  have h₁ := hopt (s := record.startedAt) (by simp)
  have h₂ := hopt (s := record.endedAt) (by simp)
  have h₃ := hopt (s := record.engine) (by simp)
  have h₄ := hopt (s := record.model) (by simp)
  have h₅ := hopt (s := record.contentType) (by simp)
  have h₆ := whole_jsonStr?.mpr h.imageDigest
  have h₇ := whole_jsonStr?.mpr h.modelPath
  have hbody : (∀ s ∈ stringsFields (buildBody request), Whole s) ↔
      Whole record.submission.input ∧ Whole record.submission.instructions := by
    simp (disch := decide) only [buildBody, Json.strings, stringsFields, List.forall_mem_cons,
      List.forall_mem_append, List.append_nil, List.not_mem_nil, IsEmpty.forall_iff, implies_true,
      whole_lit, h.model, hi, hn, responseFormat, true_and, and_true]
  have hrequest : (∀ s ∈ stringsFields (sidecarRequest record.submission (buildBody request)),
      Whole s) ↔ Whole record.submission.input ∧ Whole record.submission.instructions ∧
        ∀ cloud, record.submission.cloud = some cloud →
          ∀ s ∈ (Json.obj cloud).strings, Whole s := by
    generalize buildBody request = body at hbody
    unfold sidecarRequest
    cases hc : record.submission.cloud with
    | none =>
      simp (disch := decide) only [List.append_nil, Json.strings, stringsFields,
        List.forall_mem_cons, List.forall_mem_append, List.nil_append, List.not_mem_nil,
        IsEmpty.forall_iff, implies_true, whole_lit, hbody, true_and, and_true, reduceCtorEq]
      tauto
    | some cloud =>
      simp (disch := decide) only [List.cons_append, List.nil_append, List.append_nil,
        Json.strings, stringsFields, List.forall_mem_cons, List.forall_mem_append, whole_lit, hbody,
        true_and, Option.some.injEq, forall_eq']
      tauto
  unfold sidecarOf
  generalize sidecarRequest record.submission (buildBody request) = object at hrequest
  simp (disch := decide) only [Json.strings, stringsFields, List.forall_mem_cons,
    List.forall_mem_append, List.append_nil, List.nil_append, List.not_mem_nil, IsEmpty.forall_iff,
    implies_true, whole_lit, strings_jsonFloat?, h.id, h.version, h.contentHash, h.submittedAt,
    eq_true h₁, eq_true h₂, eq_true h₃, eq_true h₄, eq_true h₅, eq_true h₆, eq_true h₇,
    sidecarVersion, hrequest, true_and, and_true]

theorem wf_jsonStr? (s : Option Str) : (jsonStr? s).WF := by cases s <;> trivial
theorem wf_jsonFloat? (x : Option PyFloat) : (jsonFloat? x).WF := by cases x <;> trivial

theorem wf_buildBody : (Json.obj (buildBody request)).WF :=
  ⟨.of_keys [lit "model", lit "input", lit "instructions", lit "response_format", lit "seed",
    lit "max_new_tokens", lit "stream"] rfl (by decide),
    trivial, trivial, trivial, trivial, trivial, trivial, trivial, trivial⟩

theorem wf_sidecarRequest {submission : Submission} {body : Dict} (hb : (Json.obj body).WF)
    (hc : ∀ cloud, submission.cloud = some cloud → (Json.obj cloud).WF) :
    (Json.obj (sidecarRequest submission body)).WF := by
  unfold sidecarRequest
  cases h : submission.cloud with
  | none =>
    exact ⟨.of_keys [lit "input", lit "instructions", lit "seed", lit "max_new_tokens",
      lit "translated"] rfl (by decide), trivial, trivial, trivial, trivial, hb, trivial⟩
  | some cloud =>
    exact ⟨.of_keys [lit "input", lit "instructions", lit "seed", lit "max_new_tokens",
      lit "translated", lit "cloud"] rfl (by decide), trivial, trivial, trivial, trivial, hb,
      hc cloud h, trivial⟩

theorem wf_sidecarOf {body : Dict} (hr : (Json.obj (sidecarRequest record.submission body)).WF) :
    (Json.obj (sidecarOf record deployment facts body q t)).WF := by
  have engine : ∀ {a b : Json}, a.WF → b.WF → (Json.obj [(lit "name", a),
      (lit "version", .str deployment.version), (lit "image_digest", b)]).WF := fun ha hb =>
    ⟨.of_keys [lit "name", lit "version", lit "image_digest"] rfl (by decide), ha, trivial, hb,
      trivial⟩
  have model : ∀ {a b : Json}, a.WF → b.WF → (Json.obj [(lit "id", a), (lit "path", b)]).WF :=
    fun ha hb => ⟨.of_keys [lit "id", lit "path"] rfl (by decide), ha, hb, trivial⟩
  refine ⟨sidecarOf_ok, trivial, trivial, trivial, engine (wf_jsonStr? _) (wf_jsonStr? _),
    model (wf_jsonStr? _) (wf_jsonStr? _), hr, ⟨?_, ?_⟩, ⟨?_, ?_⟩, trivial⟩
  · exact .of_keys [lit "submitted_at", lit "started_at", lit "ended_at",
      lit "generation_seconds", lit "queue_seconds", lit "total_seconds"] rfl (by decide)
  · exact ⟨trivial, wf_jsonStr? _, wf_jsonStr? _, wf_jsonFloat? _, wf_jsonFloat? _,
      wf_jsonFloat? _, trivial⟩
  · exact .of_keys [lit "sample_rate", lit "channels", lit "duration_seconds", lit "byte_size",
      lit "content_hash", lit "content_type"] rfl (by decide)
  · exact ⟨trivial, trivial, trivial, trivial, trivial, wf_jsonStr? _, trivial⟩

/-- The request that an accepted submission records is a `dict`. -/
theorem Accepted.wf_cloud {submission : Submission} (h : Accepted P submission) (cloud : Dict)
    (hc : submission.cloud = some cloud) : (Json.obj cloud).WF := by
  cases h with
  | native payload => cases hc
  | cloud declared chunks v r hbody ht =>
    obtain ⟨b, hb⟩ := readJsonBody_load hbody
    have hv := loadsBytes_induct closed_wf hb
    obtain ⟨body, rfl, htr⟩ := translate_ok ht
    cases hc
    rw [htr.cloud]
    refine ⟨recordedCloud_ok, wfFields_iff.mpr fun p hp => ?_⟩
    exact wf_of_get? hv.2 (mem_recordedCloud hp)

/-! ## The text -/

theorem encodeSidecar_text {sidecar : Dict} {data : Bytes}
    (h : encodeSidecar P sidecar = .ok data) :
    (∃ text, decodeUtf8 data = some text ∧ Rfc8259.IsText text) ↔ (Json.obj sidecar).Finite := by
  unfold encodeSidecar at h
  split at h
  · cases h
  rename_i text ht
  split at h
  · rename_i hb
    cases h
    have hascii := ascii_dumps ht
    have hdecode : decodeUtf8 data = some text := by
      have := encodeUtf8_ascii hascii
      rw [hb] at this
      cases this
      exact decodeUtf8_ascii hascii
    have htext : text =
        render P.floats ⟨some 2, true, P.dumpsLimit⟩ 0 (Json.obj sidecar).sortKeys := by
      have hi := intsOk_of_dumps ht
      rw [Platform.dumpsPretty, dumps_of_intsOk hi] at ht
      split at ht
      · cases ht; rfl
      · cases ht
    have hfinite : Rfc8259.IsText text ↔ (Json.obj sidecar).Finite := by
      rw [htext, Rfc8259.isText_render, finite_sortKeys]
    constructor
    · rintro ⟨text', ht', h⟩
      rw [hdecode] at ht'
      cases ht'
      exact hfinite.mp h
    · exact fun h => ⟨text, hdecode, hfinite.mpr h⟩
  · cases h

theorem finite_deltaSeconds {start stop : Option Str} (h : deltaSeconds P start stop = .ok q)
    (hi : ∀ start stop x, P.isoDelta start stop = .ok x → x.isFinite = true) :
    ∀ x, q = some x → x.isFinite = true := by
  unfold deltaSeconds at h
  split at h
  · split at h
    · rename_i hx
      cases h
      intro x h
      cases h
      exact hi _ _ _ hx
    · cases h
  · cases h
    rintro _ ⟨⟩

theorem finite_measureWav {audio : Bytes} (h : measureWav P audio = .ok facts)
    (hq : ∀ n m, n < 2 ^ 32 → 0 < m → (P.trueDiv n m).isFinite = true) :
    facts.durationSeconds.isFinite = true := by
  unfold measureWav at h
  split at h
  · cases h
  rename_i header _
  cases h
  show (if header.framerate ≠ 0 then _ else _ : PyFloat).isFinite = true
  split
  · rename_i hne
    have hpos : header.framerate.toNat ≠ 0 := fun h => hne (UInt32.toNat_inj.mp h)
    exact hq _ _ header.nframes.toNat_lt (Nat.pos_of_ne_zero hpos)
  · decide

theorem contentHash_measureWav {audio : Bytes} (h : measureWav P audio = .ok facts) :
    facts.contentHash = P.sha256 audio := by
  unfold measureWav at h
  split at h <;> cases h
  rfl

theorem whole_nonEmpty {env : Env} (h : ∀ k v, env k = some v → Whole v) {k s : Str}
    (hs : env.nonEmpty k = some s) : Whole s := h k s (Option.filter_eq_some_iff.mp hs).1

theorem ServerSide.whole {env : Env} (h : ServerSide P env record request.model) {audio : Bytes}
    (hid : isJobId record.id = true) (hm : measureWav P audio = .ok facts) :
    WholeSide record (deploymentFactsFromEnv env) facts request where
  id := whole_of_plain fun c hc => (isIdChar_plain ((isIdChar_of_isJobId hid).2 c hc)).2
  version := by
    show Whole ((env.nonEmpty (lit "MUSIC3_ENGINE_VERSION")).getD (lit "unpinned-dev"))
    cases hv : env.nonEmpty (lit "MUSIC3_ENGINE_VERSION") with
    | none => exact whole_lit (by decide)
    | some v => exact whole_nonEmpty h.environ hv
  imageDigest _ hs := whole_nonEmpty h.environ hs
  modelPath _ hs := whole_nonEmpty h.environ hs
  contentHash := contentHash_measureWav hm ▸ h.digest audio
  model := h.model
  submittedAt := h.submittedAt
  recorded := h.recorded

/-- The recorded request, read back. -/
theorem reread_cloud {cloud : Dict} (hc : record.submission.cloud = some cloud) :
    (Json.obj (sidecarOf record deployment facts (buildBody request) q t)).reread.at?
      [lit "request", lit "cloud"] = some (Json.obj cloud).reread := by
  have hobj : Assoc.keys (sidecarRequest record.submission (buildBody request)) =
      [lit "input", lit "instructions", lit "seed", lit "max_new_tokens", lit "translated",
        lit "cloud"] := by
    unfold sidecarRequest
    rw [hc]
    rfl
  have hat : (Json.obj (sidecarOf record deployment facts (buildBody request) q t)).at?
      [lit "request", lit "cloud"] = some (.obj cloud) := by
    show (Dict.get? (sidecarRequest record.submission (buildBody request)) (lit "cloud")).bind
      some = _
    unfold sidecarRequest
    rw [hc]
    rfl
  rw [Json.at?_reread (sound_two sidecarOf_ok (plain_lit rfl) rfl (.of_keys _ hobj (by decide))
    (plain_lit rfl)), hat]
  rfl

/-- A text of a sidecar is `RealJson` iff the submission is `Recordable`. -/
theorem realJson_iff {env : Env} {audio data : Bytes} (hacc : Accepted P record.submission)
    (hs : ServerSide P env record request.model) (hid : isJobId record.id = true)
    (hm : measureWav P audio = .ok facts)
    (hq : deltaSeconds P (some record.submittedAt) record.startedAt = .ok q)
    (ht : deltaSeconds P (some record.submittedAt) record.endedAt = .ok t)
    (hi : request.input = record.submission.input)
    (hn : request.instructions = record.submission.instructions)
    (henc : encodeSidecar P (sidecarOf record (deploymentFactsFromEnv env) facts (buildBody request)
      q t) = .ok data) :
    RealJson P record.submission
        (sidecarOf record (deploymentFactsFromEnv env) facts (buildBody request) q t) data ↔
      Recordable record.submission := by
  have hload := encodeSidecar_load henc
  have hfinite := @finite_sidecarOf record (deploymentFactsFromEnv env) facts request q t
    (finite_measureWav hm hs.quotient) hs.generation (finite_deltaSeconds hq hs.interval)
    (finite_deltaSeconds ht hs.interval)
  have hwhole := whole_sidecarOf (q := q) (t := t) (hs.whole hid hm) hi hn
  constructor
  · intro h
    obtain ⟨v, hv, hsame⟩ := h.same
    rw [hload] at hv
    cases hv
    obtain ⟨h₁, h₂, h₃⟩ := hwhole.mp hsame.reread_whole
    exact ⟨h₁, h₂, hfinite.mp ((encodeSidecar_text henc).mp h.text), h₃⟩
  · intro h
    have hf := hfinite.mpr h.finite
    have hwf : (Json.obj (sidecarOf record (deploymentFactsFromEnv env) facts (buildBody request)
        q t)).WF := wf_sidecarOf (wf_sidecarRequest wf_buildBody hacc.wf_cloud)
    refine ⟨(encodeSidecar_text henc).mpr hf, ⟨_, hload, same_reread hwf hf
      (hwhole.mpr ⟨h.input, h.instructions, h.cloud⟩)⟩, ?_⟩
    intro v declared chunks body r hv _ htr hsub
    rw [hload] at hv
    cases hv
    have hc : record.submission.cloud = some r.cloud := by rw [hsub]; rfl
    obtain ⟨body', hbody, htranslated⟩ := translate_ok htr
    cases hbody
    rw [reread_cloud hc, ← htranslated.cloud]
    exact ⟨_, rfl, same_reread (hacc.wf_cloud _ hc) (h.finite _ hc) (h.cloud _ hc)⟩

end

/-! ## The result -/

/-- Every sidecar that a configuration writes is real JSON. -/
def SidecarsReal (cfg : Config) : Prop :=
  ∀ (fs : Fs) (root dir : Str) (record : JobRecord) (faults : List (Option Nat)) (s : Sys),
    Accepted cfg.platform record.submission → ServerSide cfg.platform cfg.env record cfg.model →
    (writeArtifact cfg.platform record root (buildBody (engineRequest cfg record.submission))
      cfg.env).run { fs, turns := faults.map fun fault => { fault } } = .ok dir s →
    ∃ sidecar data, StoredSidecar cfg.platform fs s.fs record
        (buildBody (engineRequest cfg record.submission)) cfg.env dir sidecar data ∧
      RealJson cfg.platform record.submission sidecar data

section
variable {cfg : Config} {fs fs' : Fs} {root dir : Str} {record : JobRecord}
  {faults : List (Option Nat)} {s : Sys}

/-- A write that returns has stored one text of one value. -/
theorem StoredSidecar.unique {P : Platform} {translated : Dict} {env : Env} {v w : Dict}
    {data data' : Bytes} (h : StoredSidecar P fs fs' record translated env dir v data)
    (h' : StoredSidecar P fs fs' record translated env dir w data') : v = w ∧ data = data' := by
  obtain ⟨⟨facts, hm, hb⟩, d, n, hl, hf⟩ := h
  obtain ⟨⟨facts', hm', hb'⟩, d', n', hl', hf'⟩ := h'
  cases hm.symm.trans hm'
  cases hl.symm.trans hl'
  exact ⟨Except.ok.inj (hb.symm.trans hb'), Option.some.inj (hf.symm.trans hf')⟩

/-- What a write that returns has stored. -/
theorem storedSidecar_of_run (hacc : Accepted cfg.platform record.submission)
    (hs : ServerSide cfg.platform cfg.env record cfg.model)
    (hrun : (writeArtifact cfg.platform record root (buildBody (engineRequest cfg record.submission))
      cfg.env).run { fs, turns := faults.map fun fault => { fault } } = .ok dir s) :
    ∃ sidecar data, StoredSidecar cfg.platform fs s.fs record
        (buildBody (engineRequest cfg record.submission)) cfg.env dir sidecar data ∧
      (RealJson cfg.platform record.submission sidecar data ↔ Recordable record.submission) := by
  have hends := writeArtifact_ends cfg.platform record root
    (buildBody (engineRequest cfg record.submission)) cfg.env
    (s := { fs, turns := faults.map fun fault => { fault } }) rfl (quiet_faults faults)
  rw [hrun] at hends
  cases hends with
  | stored _ _ audio sidecar d n data hprep hv _ henc hg =>
    obtain ⟨facts, q, t, hp, rfl⟩ := prepareArtifact_ok.mp hprep
    refine ⟨_, data, ⟨⟨facts, hp.isAudio ▸ hp.measured, ?_⟩, d, n, hv.at_, ?_⟩,
      realJson_iff hacc hs hp.idOk hp.measured hp.queue hp.total rfl rfl henc⟩
    · simp only [buildSidecar, hp.queue, hp.total, bind, Except.bind, pure, Except.pure]
    · rw [hg.lookup_new, Option.bind_some, hg.fileAt]
      exact Function.update_self ..

/-- A sidecar is real JSON that reads back exactly for the recordable submissions. -/
theorem sidecar_real_json (hacc : Accepted cfg.platform record.submission)
    (hs : ServerSide cfg.platform cfg.env record cfg.model)
    (hrun : (writeArtifact cfg.platform record root (buildBody (engineRequest cfg record.submission))
      cfg.env).run { fs, turns := faults.map fun fault => { fault } } = .ok dir s) :
    (∃ sidecar data, StoredSidecar cfg.platform fs s.fs record
        (buildBody (engineRequest cfg record.submission)) cfg.env dir sidecar data) ∧
    ∀ sidecar data, StoredSidecar cfg.platform fs s.fs record
        (buildBody (engineRequest cfg record.submission)) cfg.env dir sidecar data →
      (RealJson cfg.platform record.submission sidecar data ↔ Recordable record.submission) := by
  obtain ⟨sidecar, data, hstored, hiff⟩ := storedSidecar_of_run hacc hs hrun
  refine ⟨⟨sidecar, data, hstored⟩, fun sidecar' data' hstored' => ?_⟩
  obtain ⟨rfl, rfl⟩ := hstored.unique hstored'
  exact hiff

end

namespace Sample

/-- The record of a job that has succeeded with this submission. -/
def recordOf (submission : Submission) : JobRecord :=
  JobRecord.succeeded { deepRecord with submission } result late

theorem whole_early : Whole early := by
  unfold early
  exact whole_lit (by decide)

theorem whole_late : Whole late := by
  unfold late
  exact whole_lit (by decide)

theorem whole_model : Whole model := by
  unfold model
  exact whole_lit (by decide)

theorem finite_oneAndHalf : oneAndHalf.isFinite = true := by decide

theorem serverSide (submission : Submission) :
    ServerSide platform (fun _ => none) (recordOf submission) model where
  quotient _ _ _ _ := finite_oneAndHalf
  interval start stop x h := by
    simp only [platform] at h
    split at h <;> cases h
    exact finite_oneAndHalf
  generation x h := by
    have h : some oneAndHalf = some x := h
    exact Option.some.inj h ▸ finite_oneAndHalf
  digest b := by
    simp only [platform]
    split
    · exact whole_lit (by decide)
    · exact whole_lit (s := "") rfl
  environ _ _ h := by cases h
  model := whole_model
  submittedAt := whole_early
  recorded s hs := by
    simp only [recordOf, JobRecord.succeeded, deepRecord, result, List.mem_cons, Option.some.injEq,
      List.not_mem_nil, or_false] at hs
    rcases hs with rfl | rfl | rfl | rfl | rfl
    · exact whole_late
    · exact whole_late
    · exact whole_lit (by decide)
    · exact whole_model
    · exact whole_lit (by decide)

/-- A request of the native route. -/
def payload : SubmitRequest where
  input := lit "[Verse]"
  instructions := lit "warm"
  maxNewTokens := 250
  input_ne := by decide
  instructions_ne := by decide
  seed_nonneg := by decide
  seed_text := by decide
  one_le := by decide
  le_ceiling := by decide

/-- A cloud request with a NaN under a key that nothing reads. -/
def nanBody : Dict := [
  (lit "model", .str (lit "music-3.0")),
  (lit "prompt", .str (lit "warm")),
  (lit "lyrics", .str (lit "[Verse]")),
  (lit "output_format", .str (lit "url")),
  (lit "audio_setting", .obj [(lit "x", .float .nan)])]

def nanRequest : LocalRequest where
  input := lit "[Verse]"
  instructions := lit "warm"
  seed := 0
  maxNewTokens := 9000
  outputFormat := .url
  plan := ⟨.wav, 32000, 2, none⟩
  cloud := nanBody

theorem accepted_nan : Accepted platform nanRequest.submission := by
  have hd : dumps floats compact (.obj nanBody) = .ok (render floats compact 0 (.obj nanBody)) := by
    rw [dumps_of_intsOk (by decide), if_pos (by decide)]
    rfl
  have hb := encodeUtf8_ascii (ascii_dumps hd)
  generalize hbytes : (render floats compact 0 (.obj nanBody)).map (fun c => c.val.toUInt8) = b at hb
  have hl : b.length = 114 := by rw [← hbytes, List.length_map]; rfl
  exact .cloud none [b] _ _ (readJsonBody_dumps hd hb (by decide) (by decide) (by
    rintro rfl; cases hl) (by rw [hl]; decide)) (by rfl)

end Sample

set_option maxRecDepth 16000 in
theorem sidecar_real_json_native : ∃ dir s, (writeArtifact Sample.platform
      (Sample.recordOf Sample.payload.submission) Sample.root (buildBody (engineRequest
        (Sample.config (some Sample.root)) Sample.payload.submission)) fun _ => none).run
      { fs := Sample.fs, turns := [] } = .ok dir s ∧
    (∃ sidecar data, StoredSidecar Sample.platform Sample.fs s.fs
        (Sample.recordOf Sample.payload.submission) (buildBody (engineRequest
          (Sample.config (some Sample.root)) Sample.payload.submission)) (fun _ => none) dir sidecar
          data) ∧
    ∀ sidecar data, StoredSidecar Sample.platform Sample.fs s.fs
        (Sample.recordOf Sample.payload.submission) (buildBody (engineRequest
          (Sample.config (some Sample.root)) Sample.payload.submission)) (fun _ => none) dir sidecar
          data →
      (RealJson Sample.platform Sample.payload.submission sidecar data ↔
        Recordable Sample.payload.submission) := by
  obtain ⟨dir, s, hrun⟩ : ∃ dir s, (writeArtifact Sample.platform
      (Sample.recordOf Sample.payload.submission) Sample.root (buildBody (engineRequest
        (Sample.config (some Sample.root)) Sample.payload.submission)) fun _ => none).run
      { fs := Sample.fs, turns := [] } = .ok dir s := ⟨_, _, rfl⟩
  exact ⟨dir, s, hrun, @sidecar_real_json (Sample.config (some Sample.root)) _ _ _ _ [] _
    (.native Sample.payload) (Sample.serverSide _) hrun⟩

set_option maxRecDepth 16000 in
/-- A `NaN` that a client sends is a `NaN` of the sidecar. -/
theorem sidecar_with_nan : ¬ SidecarsReal (Sample.config (some Sample.root)) := by
  intro h
  obtain ⟨dir, s, hrun⟩ : ∃ dir s, (writeArtifact (Sample.config (some Sample.root)).platform
      (Sample.recordOf Sample.nanRequest.submission) Sample.root (buildBody (engineRequest
        (Sample.config (some Sample.root)) (Sample.recordOf Sample.nanRequest.submission).submission))
      (Sample.config (some Sample.root)).env).run { fs := Sample.fs, turns := [] } = .ok dir s :=
    ⟨_, _, rfl⟩
  have hs := Sample.serverSide Sample.nanRequest.submission
  obtain ⟨sidecar, data, hstored, hreal⟩ :=
      h _ _ _ (Sample.recordOf Sample.nanRequest.submission) []
    s Sample.accepted_nan hs hrun
  obtain ⟨sidecar', data', hstored', hiff⟩ := @storedSidecar_of_run _ _ _ _
    (Sample.recordOf Sample.nanRequest.submission) [] _ Sample.accepted_nan hs hrun
  obtain ⟨rfl, rfl⟩ := hstored'.unique hstored
  obtain ⟨-, -, -, -, ⟨hnan, -⟩, -⟩ : (Json.obj Sample.nanBody).Finite :=
    (hiff.mp hreal).finite _ rfl
  cases hnan

end Music3
