import Music3.Compat.Minimax
import Music3.Jobs.Artifacts
import Music3.Py.Hex
import Music3.Routes.Dispatch
import Music3.Transcode.Measure

/-!
# Delivering the audio of a cloud request

`routes/music.py` after the job has succeeded: the end of `music_generation` (`deliver`), and the
route of the `url` form (`musicResult`), with their streams `_hex_body` and `_file_body`.

The state is the system of the artifacts, with its open descriptors, and the temp files that exist
(`Desk`). `asyncio.to_thread` runs the same code elsewhere, and the delivery slot only delays it.
An `HTTPException` is an exception of the route that FastAPI answers.
-/

namespace Music3

open Py Posix StateExcept

/-- The artifacts, and the temp files, the newest first. -/
structure Desk where
  sys : Sys
  temps : List Str := []

abbrev MusicM := EStateM PostExc Desk

/-- File calls on the artifacts. -/
def onSys {α : Type} (m : FsM α) : MusicM α := fun d =>
  match m.run d.sys with
  | .ok a s => .ok a { d with sys := s }
  | .error e s => .error (.exc e) { d with sys := s }

/-- `_safe_unlink`. `os.unlink` is taken to succeed: after an `OSError`, which the source suppresses, the
file stays. -/
def safeUnlink (tmp : Str) : MusicM Unit := modify fun d => { d with temps := d.temps.erase tmp }

/-- `try: m` with `finally: os.close(fd)`. -/
def closing {α : Type} (fd : Fd) (m : MusicM α) : MusicM α := do
  let a ← tryCatch m fun e => do
    onSys (call (close fd))
    throw e
  onSys (call (close fd))
  pure a

/-! ## Responses -/

mutual
/-- `JSONResponse` renders the value: every `int` has a text, every float is finite
(`allow_nan=False`), and every string has UTF-8 bytes. -/
def renders : Json → Bool
  | .int n => intsOk (.int n)
  | .float x => x.isFinite
  | .str s => (encodeUtf8 s).isSome
  | .arr xs => rendersList xs
  | .obj kvs => rendersFields kvs
  | _ => true
def rendersList : List Json → Bool
  | [] => true
  | x :: xs => renders x && rendersList xs
def rendersFields : List (Str × Json) → Bool
  | [] => true
  | (k, x) :: kvs => (encodeUtf8 k).isSome && renders x && rendersFields kvs
end

/-- How a delivery is answered: with a JSON body, with the envelope around the hex digits of a temp
file, or with a temp file of a media type and a length. -/
inductive Answer where
  | json (r : Response)
  | hex (tmp : Str) (body : Except Exc (List Bytes))
  | file (tmp : Str) (mediaType : Str) (length : Int)

/-- `JSONResponse(v, status_code=status)`. -/
def jsonResponse (status : Nat) (v : Json) : Except PostExc Answer :=
  if renders v then .ok (.json ⟨status, v⟩)
  else .error (.exc (.value (lit "not JSON compliant")))

/-- `_local_failure`. -/
def localFailureAnswer (traceId message : Str) : Except PostExc Answer :=
  jsonResponse 503 (errorEnvelope localFailure message (some traceId))

/-- `HTTPException(status_code=404, detail="not found")`. -/
def notFound : PostExc := .http 404 (lit "not found")

/-- `s.rstrip("/")`. -/
def rstripSlash (s : Str) : Str := (s.reverse.dropWhile fun c => c = cp '/').reverse

/-- `_result_url`. The base URL is made of latin-1 text. -/
def resultUrl (baseUrl : Bytes) (traceId : Str) : Str :=
  rstripSlash (baseUrl.map fun b => point b.toNat) ++ lit "/v1/music_generation/result/" ++ traceId

/-- `media_type` of a plan. -/
def TranscodePlan.mediaType (plan : TranscodePlan) : Str :=
  match plan.container with
  | .mp3 => lit "audio/mpeg"
  | .wav => lit "audio/wav"
  | .pcm => lit "application/octet-stream"

/-! ## Streams -/

def audioPlaceholder : Str := lit "S4HEXAUDIOPLACEHOLDER"
def chunkBytes : Nat := 65536

/-- The blocks of `handle.read(_CHUNK)` until one is empty. -/
def readBlocks (content : Bytes) : List Bytes :=
  if content = [] then [] else content.take chunkBytes :: readBlocks (content.drop chunkBytes)
termination_by content.length
decreasing_by
  have := List.length_pos_iff.mpr ‹content ≠ []›
  simp only [List.length_drop, chunkBytes]
  omega

section
variable (P : Platform)

/-- `json.dumps(v)`, of a value that nests little. -/
def Platform.dumps (v : Json) : Except JsonError Str :=
    Py.dumps P.floats ⟨none, false, P.dumpsLimit⟩ v

/-- `s.encode()`. -/
def encodeText (s : Str) : Except Exc Bytes :=
  match encodeUtf8 s with
  | some b => .ok b
  | none => .error (.value (lit "surrogates not allowed"))

/-- `prefix, suffix` of `_hex_body`: the text of `template`, split at the placeholder. -/
def hexTemplate (traceId : Str) (info : Dict) : Except Exc (Str × Str) := do
  let text ← (P.dumps (responseEnvelope traceId audioPlaceholder 2 info)).mapError Exc.ofJson
  match splitText audioPlaceholder [] text with
  | [start, stop] => return (start, stop)
  | parts => throw (.value (if parts.length < 2 then lit "not enough values to unpack"
      else lit "too many values to unpack"))

/-- `_hex_body`, of a temp file that is read in these blocks. -/
def hexBody (traceId : Str) (info : Dict) (blocks : List Bytes) : Except Exc (List Bytes) := do
  let (start, stop) ← hexTemplate P traceId info
  let start ← encodeText start
  let stop ← encodeText stop
  return start :: (blocks.map hexlify ++ [stop])

/-- `_file_body`, of a temp file that is read in these blocks. -/
def fileBody (blocks : List Bytes) : List Bytes := blocks

/-! ## The routes -/

/-- `_open_or_none`. -/
def openOrNone (root jobId name : Str) : FsM (Option (Fd × Nat)) :=
  exceptIf (fun | .jobId _ => true | _ => false) (openMember root jobId name) (pure none)

/-- `tempfile.mkstemp`, whose descriptor is closed at once. -/
def mkstemp (t : Tools) : MusicM Str :=
  match t.mkstemp with
  | .ok tmp => do
    modify fun d => { d with temps := tmp :: d.temps }
    pure tmp
  | .error e => throw (.exc (.os e))

/-- `_transcode_to_temp`. -/
def transcodeToTemp (t : Tools) (fd : Fd) : MusicM Str :=
  closing fd do
    let tmp ← mkstemp t
    tryCatch (ofExcept (transcode t)) fun e => do
      safeUnlink tmp
      throw e
    pure tmp

variable (N : Numbers P)

/-- The `try` of `music_generation` once it has a temp file, which its handler removes: the
`extra_info`, or `none` for a failure that is handled. -/
def measureTemp (t : Tools) (plan : TranscodePlan) (tmp : Str) : MusicM (Option (Str × Dict)) :=
  exceptIf PostExc.isPostFailure
    ((fun facts => some (tmp, extraInfo facts)) <$> ofExcept (measure P N t plan))
    (do
      safeUnlink tmp
      return none)

/-- The `try` of `music_generation`. -/
def postProcess (t : Tools) (plan : TranscodePlan) (fd : Fd) : MusicM (Option (Str × Dict)) :=
  exceptIf PostExc.isPostFailure (transcodeToTemp t fd >>= measureTemp P N t plan) (pure none)

/-- `music_generation` when its job has succeeded. -/
def deliver (root : Option Str) (baseUrl : Bytes) (r : LocalRequest) (t : Tools) (traceId : Str) :
    MusicM Answer := do
  match root with
  | none => ofExcept (localFailureAnswer traceId (lit "artifacts directory is not configured"))
  | some root =>
    match ← onSys (openOrNone root traceId audioName) with
    | none => ofExcept (localFailureAnswer traceId (lit "generated artifact not found on disk"))
    | some (fd, _) =>
      match ← postProcess P N t r.plan fd with
      | none => ofExcept (localFailureAnswer traceId (lit "audio post-processing failed"))
      | some (tmp, info) =>
        match r.outputFormat with
        | .url => do
          safeUnlink tmp
          ofExcept (jsonResponse 200 (responseEnvelope traceId (resultUrl baseUrl traceId) 2 info))
        | .hex => return .hex tmp (hexBody P traceId info (readBlocks t.output))

/-- The `cloud` object of the `request` of a sidecar, or another value if there is none. -/
def cloudOf (sidecar : Dict) : Json :=
  match Dict.get sidecar (lit "request") with
  | .obj request => Dict.get request (lit "cloud")
  | _ => .null

/-- `_recorded_audio_setting`. -/
def recordedAudioSetting (root traceId : Str) : MusicM Json := do
  match ← onSys (openOrNone root traceId sidecarName) with
  | none => throw notFound
  | some (fd, _) =>
    let sidecar ← exceptIf
      (fun | .exc e => e.isOSError || e.isValueError | _ => false)
      (onSys (finallyClose fd do
        let b ← call (readAll fd)
        ofExcept ((P.load b).mapError Exc.ofLoad)))
      (throw notFound)
    let sidecar ← ofExcept (getter sidecar)
    match cloudOf sidecar with
    | .obj cloud => return Dict.get cloud (lit "audio_setting")
    | _ => throw notFound

/-- `music_result`. -/
def musicResult (root : Option Str) (t : Tools) (traceId : Str) : MusicM Answer := do
  match root with
  | none => throw notFound
  | some root =>
    let setting ← recordedAudioSetting P root traceId
    match resolveTranscode P setting with
    | .error (.compat _) =>
      ofExcept (localFailureAnswer traceId (lit "recorded delivery settings are invalid"))
    | .error (.raised e) => throw (.exc (.ofJson e))
    | .ok plan =>
      match ← onSys (openOrNone root traceId audioName) with
      | none => throw notFound
      | some (fd, _) =>
        let made ← exceptIf PostExc.isPostFailure (some <$> transcodeToTemp t fd) (pure none)
        match made with
        | none => ofExcept (localFailureAnswer traceId (lit "delivery transcode failed"))
        | some tmp => do
          let length ← ofExcept t.size
          return .file tmp plan.mediaType length

end

end Music3
