import Mathlib.Data.List.Sort
import Music3.Jobs.Store
import Music3.Lib.StateExcept

/-!
# Artifact storage

The functions of `jobs/artifacts.py`: the gates on ids and paths, the measurement and the sidecar,
the write protocol, the serving side (`openMember`) and the listing (`scanListing`).

File-system calls run in `FsM`, which raises `Exc`. `call` raises the `OSError` of a system call;
`exceptIf` is an `except` clause, `finallyClose` a `finally: os.close(fd)`. `os.path.realpath`
raises nothing and reads links only, so it takes no turn of its own.
-/

namespace Music3

open Py Posix StateExcept

abbrev FsM := EStateM Exc Sys

/-- A system call, raising `OSError`. -/
def call {α : Type} (m : SysM α) : FsM α := m.adaptExcept Exc.os

/-- `try: m` with `finally: os.close(fd)`. -/
def finallyClose {α : Type} (fd : Fd) (m : FsM α) : FsM α := do
  let a ← tryCatch m fun e => do
    call (close fd)
    throw e
  call (close fd)
  pure a

/-! ## Gates -/

def isIdChar (c : CodePoint) : Bool :=
  (cp 'A' ≤ c && c ≤ cp 'Z') || (cp 'a' ≤ c && c ≤ cp 'z') || isDigit c || c = cp '_' || c = cp '-'

/-- `_JOB_ID`: `[A-Za-z0-9_-]{1,128}`, anchored at both ends. -/
def isJobId (s : Str) : Bool := 1 ≤ s.length && s.length ≤ 128 && s.all isIdChar

/-- `validate_job_id`. -/
def validateJobId (jobId : Str) : Except Exc Str :=
  if isJobId jobId then .ok jobId else .error (.jobId jobId)

/-- `is_within`. -/
def isWithin (candidateReal rootReal : Str) : Bool :=
  candidateReal = rootReal || (rootReal ++ [cp '/']).isPrefixOf candidateReal

def isAlpha (c : CodePoint) : Bool :=
  (cp 'A' ≤ c && c ≤ cp 'Z') || (cp 'a' ≤ c && c ≤ cp 'z')

/-- `_URL_SCHEME`: a letter, characters of a scheme, and `://`. -/
def hasUrlScheme : Str → Bool
  | [] => false
  | c :: r => isAlpha c && (lit "://").isPrefixOf (r.dropWhile fun c =>
      isAlpha c || isDigit c || c = cp '+' || c = cp '.' || c = cp '-')

/-- `resolve_within`. -/
def resolveWithin (fs : Fs) (candidate root : Str) : Except Exc Str :=
  if point 0 ∈ candidate ∨ hasUrlScheme candidate then .error (.untrustedPath candidate root)
  else
    let candidateReal := fs.realpath candidate
    if isWithin candidateReal (fs.realpath root) then .ok candidateReal
    else .error (.untrustedPath candidate root)

/-! ## Measurement and sidecar -/

/-- `WavFacts`. -/
structure WavFacts where
  sampleRate : Nat
  channels : Nat
  durationSeconds : PyFloat
  byteSize : Nat
  contentHash : Str

/-- `DeploymentFacts`: the values of `deployment_facts_from_env`. -/
structure DeploymentFacts where
  version : Str
  imageDigest : Option Str
  modelPath : Option Str

/-- `os.environ`. -/
abbrev Env := Str → Option Str

/-- `env.get(k) or None`. -/
def Env.nonEmpty (env : Env) (k : Str) : Option Str := (env k).filter fun v => v ≠ []

/-- `deployment_facts_from_env`. -/
def deploymentFactsFromEnv (env : Env) : DeploymentFacts where
  version := (env.nonEmpty (lit "MUSIC3_ENGINE_VERSION")).getD (lit "unpinned-dev")
  imageDigest := env.nonEmpty (lit "MUSIC3_IMAGE_DIGEST")
  modelPath := env.nonEmpty (lit "MUSIC3_MODEL_PATH")

def jsonStr? : Option Str → Json
  | some s => .str s
  | none => .null

def jsonFloat? : Option PyFloat → Json
  | some x => .float x
  | none => .null

def sidecarVersion : Str := lit "1"
def audioName : Str := lit "audio.wav"
def sidecarName : Str := lit "sidecar.json"

section
variable (P : Platform)

/-- `measure_wav`. -/
def measureWav (audio : Bytes) : Except Exc WavFacts :=
  match P.waveOpen audio with
  | .error message => .error (.wave (lit "not a parseable WAV: " ++ message))
  | .ok h => .ok {
      sampleRate := h.framerate.toNat
      channels := h.nchannels.toNat
      durationSeconds := if h.framerate ≠ 0 then P.trueDiv h.nframes.toNat h.framerate.toNat
        else ⟨0⟩
      byteSize := audio.length
      contentHash := P.sha256 audio }

/-- `_delta_seconds`. -/
def deltaSeconds (start end' : Option Str) : Except Exc (Option PyFloat) :=
  match start.filter fun s => s ≠ [], end'.filter fun s => s ≠ [] with
  | some s, some e =>
    match P.isoDelta s e with
    | .ok x => .ok (some x)
    | .error message => .error (.value message)
  | _, _ => .ok none

/-- The `request` object of the sidecar. -/
def sidecarRequest (submission : Submission) (translated : Dict) : Dict :=
  [(lit "input", .str submission.input),
    (lit "instructions", .str submission.instructions),
    (lit "seed", .int submission.seed),
    (lit "max_new_tokens", .int submission.maxNewTokens),
    (lit "translated", .obj translated)] ++
  match submission.cloud with
  | some cloud => [(lit "cloud", .obj cloud)]
  | none => []

/-- The sidecar, given its two intervals. -/
def sidecarOf (record : JobRecord) (deployment : DeploymentFacts) (facts : WavFacts)
    (translated : Dict) (queueSeconds totalSeconds : Option PyFloat) : Dict := [
  (lit "sidecar_version", .str sidecarVersion),
  (lit "job_id", .str record.id),
  (lit "trace_id", .str record.id),
  (lit "engine", .obj [
    (lit "name", jsonStr? record.engine),
    (lit "version", .str deployment.version),
    (lit "image_digest", jsonStr? deployment.imageDigest)]),
  (lit "model", .obj [
    (lit "id", jsonStr? record.model),
    (lit "path", jsonStr? deployment.modelPath)]),
  (lit "request", .obj (sidecarRequest record.submission translated)),
  (lit "timings", .obj [
    (lit "submitted_at", .str record.submittedAt),
    (lit "started_at", jsonStr? record.startedAt),
    (lit "ended_at", jsonStr? record.endedAt),
    (lit "generation_seconds", jsonFloat? record.generationSeconds),
    (lit "queue_seconds", jsonFloat? queueSeconds),
    (lit "total_seconds", jsonFloat? totalSeconds)]),
  (lit "output", .obj [
    (lit "sample_rate", .int facts.sampleRate),
    (lit "channels", .int facts.channels),
    (lit "duration_seconds", .float facts.durationSeconds),
    (lit "byte_size", .int facts.byteSize),
    (lit "content_hash", .str facts.contentHash),
    (lit "content_type", jsonStr? record.contentType)])]

/-- `build_sidecar`. -/
def buildSidecar (record : JobRecord) (deployment : DeploymentFacts) (facts : WavFacts)
    (translated : Dict) : Except Exc Dict := do
  let queueSeconds ← deltaSeconds P (some record.submittedAt) record.startedAt
  let totalSeconds ← deltaSeconds P (some record.submittedAt) record.endedAt
  return sidecarOf record deployment facts translated queueSeconds totalSeconds

/-! ## The write protocol -/

/-- `json.dumps(sidecar, indent=2, sort_keys=True).encode()`. -/
def encodeSidecar (sidecar : Dict) : Except Exc Bytes :=
  match P.dumpsPretty (.obj sidecar) with
  | .error e => .error (.ofJson e)
  | .ok text =>
    match encodeUtf8 text with
    | some b => .ok b
    | none => .error (.value (lit "surrogates not allowed"))

/-- `_atomic_write_bytes`. -/
def atomicWriteBytes (jobDir name : Str) (data : Bytes) : FsM Unit := do
  let tmp := Fs.join jobDir (name ++ lit ".tmp")
  let final := Fs.join jobDir name
  let handle ← call (openTrunc tmp)
  call (write handle data)
  call sync  -- flush
  call sync  -- fsync
  call sync  -- close
  call (replace tmp final)

/-- `_fsync_dir`: open and fsync. -/
def fsyncDir : FsM Unit := do
  call sync
  call sync

/-- The checks of `write_artifact` before its first call: the job directory, the audio and the
sidecar. -/
def prepareArtifact (fs : Fs) (record : JobRecord) (root : Str) (translated : Dict) (env : Env) :
    Except Exc (Str × Bytes × Dict) := do
  let audio := record.audio.getD []
  if audio = [] then throw (.value (lit "no audio to write"))
  let jobId ← validateJobId record.id
  let jobDir ← resolveWithin fs (Fs.join root jobId) root
  let facts ← measureWav P audio
  let sidecar ← buildSidecar P record (deploymentFactsFromEnv env) facts translated
  return (jobDir, audio, sidecar)

/-- `write_artifact`. -/
def writeArtifact (record : JobRecord) (root : Str) (translated : Dict) (env : Env) :
    FsM Str := do
  let (jobDir, audio, sidecar) ← ofExcept
    (prepareArtifact P (← get).fs record root translated env)
  call (mkdir jobDir)
  atomicWriteBytes jobDir audioName audio
  let data ← ofExcept (encodeSidecar P sidecar)
  atomicWriteBytes jobDir sidecarName data
  fsyncDir
  return jobDir

end

/-! ## Serving -/

/-- `_open_job_dir_fd`. -/
def openJobDirFd (root jobId : Str) : FsM (Option Fd) := do
  let jobId ← ofExcept (validateJobId jobId)
  let rootFd ← exceptIf Exc.isOSError (some <$> call (openRoot root)) (pure none)
  match rootFd with
  | none => return none
  | some rootFd =>
    finallyClose rootFd <|
      exceptIf Exc.isOSError (some <$> call (openAt rootFd jobId true)) (pure none)

/-- `_open_regular_member_fd`. -/
def openRegularMemberFd (jobDirFd : Fd) (name : Str) : FsM (Option (Fd × Nat)) := do
  let fd ← exceptIf Exc.isOSError (some <$> call (openAt jobDirFd name false)) (pure none)
  match fd with
  | none => return none
  | some fd =>
    exceptIf Exc.isOSError
      (do
        let info ← call (fstat fd)
        if info.kind ≠ .file then
          call (close fd)
          return none
        return some (fd, info.size))
      (do
        call (close fd)
        return none)

/-- `os.close(opened[0])` of an opened member, if there is one. -/
def closeMember : Option (Fd × Nat) → FsM Unit
  | some (fd, _) => call (close fd)
  | none => pure ()

/-- `open_member`. -/
def openMember (root jobId name : Str) : FsM (Option (Fd × Nat)) := do
  if name ≠ audioName ∧ name ≠ sidecarName then return none
  match ← openJobDirFd root jobId with
  | none => return none
  | some jobFd =>
    finallyClose jobFd do
      let audio ← openRegularMemberFd jobFd audioName
      let sidecar ← openRegularMemberFd jobFd sidecarName
      if audio.isNone ∨ sidecar.isNone then
        closeMember audio
        closeMember sidecar
        return none
      let (wanted, other) := if name = audioName then (audio, sidecar) else (sidecar, audio)
      closeMember other
      return wanted

/-! ## Listing -/

/-- The name of a value's type. -/
def typeName : Json → Str
  | .null => lit "NoneType"
  | .bool _ => lit "bool"
  | .int _ => lit "int"
  | .float _ => lit "float"
  | .str _ => lit "str"
  | .arr _ => lit "list"
  | .obj _ => lit "dict"

/-- `v.get`, of a value that has none. -/
def Exc.noGet (v : Json) : Exc :=
  .noAttribute (lit "'" ++ typeName v ++ lit "' object has no attribute 'get'")

/-- The keys that a listing shows of a sidecar. -/
def summaryKeys : List Str := [lit "engine", lit "model", lit "output", lit "timings"]

/-- `{key: sidecar.get(key) for key in …}`. -/
def summaryOf : Json → Except Exc Dict
  | .obj sidecar => .ok (summaryKeys.map fun key => (key, Dict.get sidecar key))
  | v => .error (.noGet v)

/-- The exception of `json.load`. -/
def Exc.ofLoad : JsonError → Exc
  | .recursion => .recursion
  | .value => .value (lit "not JSON")

section
variable (P : Platform)

/-- `_listing_summary`. -/
def listingSummary (fd : Fd) : FsM Dict := do
  let sidecar ← exceptIf (fun e => e.isOSError || e.isValueError)
    (some <$> finallyClose fd do
      let b ← call (readAll fd)
      ofExcept ((P.load b).mapError Exc.ofLoad))
    (pure none)
  match sidecar with
  | none => return []
  | some sidecar => ofExcept (summaryOf sidecar)

/-- An entry of the listing. -/
structure ListingEntry where
  jobId : Str
  audioUrl : Str
  sidecarUrl : Str
  mtime : Rat
  summary : Dict

/-- The entry of a job directory, or `none` if its pair is not complete. -/
def listingEntry (root : Str) (mtime : Rat) (jobId : Str) : FsM (Option ListingEntry) := do
  match ← openMember root jobId sidecarName with
  | none => return none
  | some (fd, _) =>
    let summary ← listingSummary P fd
    let base := lit "/artifacts/" ++ jobId ++ lit "/"
    return some ⟨jobId, base ++ audioName, base ++ sidecarName, mtime, summary⟩

/-- The directories of the root with a valid id, and their modification times. -/
def scanCandidates : List DirEntry → FsM (List (Rat × Str))
  | [] => return []
  | entry :: entries => do
    if entry.kind ≠ .dir ∨ !isJobId entry.name then scanCandidates entries
    else
      let mtime ← call (entryMtime entry.name)
      return (mtime, entry.name) :: (← scanCandidates entries)

/-- `candidates.sort(key=lambda item: item[0], reverse=True)`, which is stable. -/
def newestFirst (candidates : List (Rat × Str)) : List (Rat × Str) :=
  candidates.insertionSort fun a b => b.1 ≤ a.1

/-- The entries of the complete candidates, in order. -/
def listEntries (root : Str) : List (Rat × Str) → FsM (List ListingEntry)
  | [] => return []
  | (mtime, jobId) :: candidates => do
    let entry ← listingEntry P root mtime jobId
    return entry.toList ++ (← listEntries root candidates)

/-- `scan_listing`. -/
def scanListing (root : Str) : FsM (List ListingEntry) := do
  let entries ← exceptIf
    (fun | .os .noent | .os .notdir => true | _ => false)
    (some <$> call (scandir root)) (pure none)
  match entries with
  | none => return []
  | some entries =>
    let candidates ← scanCandidates entries
    listEntries P root (newestFirst candidates)

end

end Music3
