import Music3.Jobs.ArtifactWrite
import Music3.Py.Paths

/-!
# The sidecar

* `prepareArtifact_ok`: what the checks before a write have established, and the sidecar that they
  have built.
* `depth_sidecarOf`, `intsOk_sidecarOf`: when the encoder admits a sidecar. Only the recorded cloud
  request can nest deeper than three.
* `encodeSidecar_load`: the bytes of a sidecar are read back as the sidecar's `reread`.
* `sidecarFacts`: what a sidecar says of its job, as paths and values; `sidecarOf_at?`.
-/

namespace Music3

open Py Posix StateExcept Json

section
variable {P : Platform} {record : JobRecord} {deployment : DeploymentFacts} {facts : WavFacts}
  {translated sidecar : Dict} {q t : Option PyFloat}

theorem buildSidecar_ok (h : buildSidecar P record deployment facts translated = .ok sidecar) :
    ∃ q t, deltaSeconds P (some record.submittedAt) record.startedAt = .ok q ∧
      deltaSeconds P (some record.submittedAt) record.endedAt = .ok t ∧
      sidecar = sidecarOf record deployment facts translated q t := by
  obtain ⟨q, hq, h⟩ := ok_of_bind h
  obtain ⟨t, ht, h⟩ := ok_of_bind h
  cases h
  exact ⟨q, t, hq, ht, rfl⟩

/-- The checks of `write_artifact` before its first call. -/
structure Prepared (P : Platform) (fs : Fs) (record : JobRecord) (root dir : Str) (audio : Bytes)
    (facts : WavFacts) (q t : Option PyFloat) : Prop where
  isAudio : audio = record.audio.getD []
  audio_ne : audio ≠ []
  idOk : isJobId record.id = true
  dirOk : resolveWithin fs (Fs.join root record.id) root = .ok dir
  measured : measureWav P audio = .ok facts
  queue : deltaSeconds P (some record.submittedAt) record.startedAt = .ok q
  total : deltaSeconds P (some record.submittedAt) record.endedAt = .ok t

theorem prepareArtifact_ok {fs : Fs} {root dir : Str} {audio : Bytes} {env : Env} :
    prepareArtifact P fs record root translated env = .ok (dir, audio, sidecar) ↔
      ∃ facts q t, Prepared P fs record root dir audio facts q t ∧
        sidecar = sidecarOf record (deploymentFactsFromEnv env) facts translated q t := by
  constructor
  · intro h
    unfold prepareArtifact at h
    simp only at h
    split at h
    · cases h
    rename_i hne
    obtain ⟨jobId, hid, h⟩ := ok_of_bind h
    obtain ⟨jobDir, hdir, h⟩ := ok_of_bind h
    obtain ⟨facts, hfacts, h⟩ := ok_of_bind h
    obtain ⟨doc, hdoc, h⟩ := ok_of_bind h
    cases h
    unfold validateJobId at hid
    split at hid <;> cases hid
    rename_i hid
    obtain ⟨q, t, hq, ht, rfl⟩ := buildSidecar_ok hdoc
    exact ⟨facts, q, t, ⟨rfl, hne, hid, hdir, hfacts, hq, ht⟩, rfl⟩
  · rintro ⟨facts, q, t, ⟨rfl, hne, hid, hdir, hfacts, hq, ht⟩, rfl⟩
    unfold prepareArtifact
    simp only [hne, ↓reduceIte, validateJobId, hid, bind, Except.bind, hdir, hfacts, buildSidecar,
      hq, ht, pure, Except.pure]

/-! ## When the encoder admits it -/

/-- How deep a recorded cloud request nests. -/
def cloudDepth (submission : Submission) : Nat :=
  match submission.cloud with
  | some cloud => (Json.obj cloud).depth
  | none => 0

theorem depth_jsonStr? (s : Option Str) : (jsonStr? s).depth = 0 := by cases s <;> rfl
theorem depth_jsonFloat? (x : Option PyFloat) : (jsonFloat? x).depth = 0 := by cases x <;> rfl

/-- A sidecar nests three deep, or as deep as the recorded request in it. -/
theorem depth_sidecarOf (request : EngineRequest) :
    (Json.obj (sidecarOf record deployment facts (buildBody request) q t)).depth =
      max 3 (cloudDepth record.submission + 2) := by
  unfold cloudDepth
  cases hc : record.submission.cloud with
  | none =>
    simp [sidecarOf, sidecarRequest, hc, Json.depth, depthFields, depth_jsonStr?,
      depth_jsonFloat?, buildBody]
  | some cloud =>
    simp [sidecarOf, sidecarRequest, hc, Json.depth, depthFields, depth_jsonStr?,
      depth_jsonFloat?, buildBody]

theorem intsOk_jsonStr? (s : Option Str) : intsOk (jsonStr? s) = true := by cases s <;> rfl
theorem intsOk_jsonFloat? (x : Option PyFloat) : intsOk (jsonFloat? x) = true := by cases x <;> rfl

/-- Every `int` of a submission has a text. -/
structure Submission.IntsOk (submission : Submission) : Prop where
  seed : intsOk (.int submission.seed) = true
  maxNewTokens : intsOk (.int submission.maxNewTokens) = true
  cloud : ∀ cloud, submission.cloud = some cloud → intsOk (.obj cloud) = true

theorem measureWav_lt {audio : Bytes} (h : measureWav P audio = .ok facts) :
    facts.sampleRate < 2 ^ 64 ∧ facts.channels < 2 ^ 64 ∧ facts.byteSize = audio.length := by
  unfold measureWav at h
  split at h
  · cases h
  · rename_i header _
    cases h
    have h₁ := header.framerate.toNat_lt
    have h₂ := header.nchannels.toNat_lt
    exact ⟨show header.framerate.toNat < _ by omega, show header.nchannels.toNat < _ by omega, rfl⟩

theorem intsOk_sidecarOf {audio : Bytes} {request : EngineRequest} (h : record.submission.IntsOk)
    (hs : intsOk (.int request.seed) = true) (hm : intsOk (.int request.maxNewTokens) = true)
    (hf : measureWav P audio = .ok facts) (ha : audio.length < 2 ^ 63) :
    intsOk (.obj (sidecarOf record deployment facts (buildBody request) q t)) = true := by
  obtain ⟨h₁, h₂, h₃⟩ := measureWav_lt hf
  have hr := intsOk_of_lt h₁
  have hc := intsOk_of_lt h₂
  have hb := intsOk_of_lt (n := facts.byteSize) (by omega)
  have hbody : intsOk (.obj (buildBody request)) = true := by
    simp only [buildBody, intsOk, intsOkFields] at hs hm ⊢
    simp only [hs, hm, Bool.and_self]
  have hreq : intsOk (.obj (sidecarRequest record.submission (buildBody request))) = true := by
    unfold sidecarRequest
    rw [intsOk, intsOkFields_iff, List.forall_mem_append, ← intsOkFields_iff, ← intsOkFields_iff]
    constructor
    · simp only [intsOkFields, h.seed, h.maxNewTokens, hbody]
      rfl
    · cases hcl : record.submission.cloud with
      | none => rfl
      | some cloud => simp only [intsOkFields, h.cloud cloud hcl, Bool.and_self]
  unfold sidecarOf
  generalize sidecarRequest record.submission (buildBody request) = request at hreq ⊢
  rw [intsOk] at hreq ⊢
  simp only [intsOk, intsOkFields, intsOk_jsonStr?, intsOk_jsonFloat?] at hr hc hb ⊢
  simp only [hr, hc, hb, hreq, Bool.and_self]

/-! ## Reading it back -/

/-- What a sidecar says of its job and of the measured audio. -/
def sidecarFacts (r : JobRecord) (facts : WavFacts) : List (List Str × Json) := [
  ([lit "job_id"], .str r.id),
  ([lit "trace_id"], .str r.id),
  ([lit "output", lit "sample_rate"], .int facts.sampleRate),
  ([lit "output", lit "channels"], .int facts.channels),
  ([lit "output", lit "byte_size"], .int facts.byteSize),
  ([lit "output", lit "content_hash"], .str facts.contentHash),
  ([lit "timings", lit "submitted_at"], .str r.submittedAt),
  ([lit "timings", lit "started_at"], jsonStr? r.startedAt),
  ([lit "timings", lit "ended_at"], jsonStr? r.endedAt),
  ([lit "timings", lit "generation_seconds"], jsonFloat? r.generationSeconds),
  ([lit "engine", lit "name"], jsonStr? r.engine),
  ([lit "model", lit "id"], jsonStr? r.model)]

theorem sidecarOf_ok : Dict.Ok (sidecarOf record deployment facts translated q t) :=
  .of_keys [lit "sidecar_version", lit "job_id", lit "trace_id", lit "engine", lit "model",
    lit "request", lit "timings", lit "output"] rfl (by decide)

theorem sidecarOf_at? : ∀ p ∈ sidecarFacts record facts,
    (Json.obj (sidecarOf record deployment facts translated q t)).Sound p.1 ∧
      (Json.obj (sidecarOf record deployment facts translated q t)).at? p.1 = some p.2 := by
  have hok : Dict.Ok (sidecarOf record deployment facts translated q t) := sidecarOf_ok
  have output : ∀ k, plain k → (Json.obj (sidecarOf record deployment facts translated q t)).Sound
      [lit "output", k] := fun k hk => sound_two hok (plain_lit rfl) rfl
    (.of_keys [lit "sample_rate", lit "channels", lit "duration_seconds", lit "byte_size",
      lit "content_hash", lit "content_type"] rfl (by decide)) hk
  have timings : ∀ k, plain k → (Json.obj (sidecarOf record deployment facts translated q t)).Sound
      [lit "timings", k] := fun k hk => sound_two hok (plain_lit rfl) rfl
    (.of_keys [lit "submitted_at", lit "started_at", lit "ended_at", lit "generation_seconds",
      lit "queue_seconds", lit "total_seconds"] rfl (by decide)) hk
  have engine : (Json.obj (sidecarOf record deployment facts translated q t)).Sound
      [lit "engine", lit "name"] := sound_two hok (plain_lit rfl) rfl
    (.of_keys [lit "name", lit "version", lit "image_digest"] rfl (by decide)) (plain_lit rfl)
  have model : (Json.obj (sidecarOf record deployment facts translated q t)).Sound
      [lit "model", lit "id"] := sound_two hok (plain_lit rfl) rfl
    (.of_keys [lit "id", lit "path"] rfl (by decide)) (plain_lit rfl)
  simp only [sidecarFacts, List.forall_mem_cons, List.not_mem_nil, false_implies, implies_true,
    and_true]
  exact ⟨⟨sound_one hok (plain_lit rfl), rfl⟩, ⟨sound_one hok (plain_lit rfl), rfl⟩,
    ⟨output _ (plain_lit rfl), rfl⟩, ⟨output _ (plain_lit rfl), rfl⟩,
    ⟨output _ (plain_lit rfl), rfl⟩, ⟨output _ (plain_lit rfl), rfl⟩,
    ⟨timings _ (plain_lit rfl), rfl⟩, ⟨timings _ (plain_lit rfl), rfl⟩,
    ⟨timings _ (plain_lit rfl), rfl⟩, ⟨timings _ (plain_lit rfl), rfl⟩,
    ⟨engine, rfl⟩, ⟨model, rfl⟩⟩

theorem encodeSidecar_recursion (h : encodeSidecar P sidecar = .error .recursion) :
    P.dumpsLimit < (Json.obj sidecar).depth := by
  unfold encodeSidecar at h
  split at h
  · rename_i e he
    cases e with
    | recursion => exact depth_of_dumps_recursion he
    | value => cases h
  · split at h <;> cases h

/-- The encoder raises `RecursionError` for a sidecar that nests too deep. -/
theorem encodeSidecar_deep (hi : intsOk (.obj sidecar) = true)
    (hd : P.dumpsLimit < (Json.obj sidecar).depth) :
    encodeSidecar P sidecar = .error .recursion := by
  have hdump : P.dumpsPretty (.obj sidecar) = .error .recursion := by
    rw [Platform.dumpsPretty, dumps_of_intsOk hi, if_neg (Nat.not_le.mpr hd)]
  rw [encodeSidecar, hdump]
  rfl

/-- The bytes of a sidecar, read back. -/
theorem encodeSidecar_load {data : Bytes} (h : encodeSidecar P sidecar = .ok data) :
    P.load data = .ok (reread (.obj sidecar)) := by
  unfold encodeSidecar at h
  split at h
  · cases h
  rename_i text ht
  have hi := intsOk_of_dumps ht
  have hd : (Json.obj sidecar).depth ≤ P.loadsLimit := by
    have hlt := P.dumps_lt_loads
    have := dumps_of_intsOk (F := P.floats) (o := ⟨some 2, true, P.dumpsLimit⟩) hi
    rw [Platform.dumpsPretty, this] at ht
    split at ht
    · rename_i hle
      exact Nat.le_trans hle (Nat.le_of_lt hlt)
    · cases ht
  split at h
  · rename_i b hb
    cases h
    exact loadsBytes_dumps ht hb hd hi
  · cases h

end

end Music3
