import Music3.Transcode.Ffmpeg

/-!
# The translation of cloud requests

`compat/minimax.py`: `translate` with its refusals in order, and the response envelope.
-/

namespace Music3

open Py StateExcept

def modelId : Str := lit "music-3.0"
def maxPromptChars : Nat := 2000
def maxLyricsChars : Nat := 3500
def defaultSeed : Int := 0
def defaultMaxNewTokens : Int := 9000
def maxNewTokensCeiling : Int := 9000
def framesPerSecond : Nat := 25
def bytesPerSample : Int := 2
def hexMaxBodyBytes : Int := 200 * 1024 * 1024

/-- `_RECORDED_CLOUD_FIELDS`. -/
def recordedCloudFields : List Str := [
  lit "model", lit "prompt", lit "lyrics", lit "stream", lit "lyrics_optimizer",
  lit "is_instrumental", lit "output_format", lit "seed", lit "max_new_tokens",
  lit "audio_setting"]

inductive OutputFormat where
  | hex | url
  deriving DecidableEq

/-- `LocalRequest`. -/
structure LocalRequest where
  input : Str
  instructions : Str
  seed : Int
  maxNewTokens : Int
  outputFormat : OutputFormat
  plan : TranscodePlan
  cloud : Dict

/-- A flag that must not be truthy. -/
def refuseFlag (body : Dict) (flag : Str) : Except EdgeError Unit :=
  if (Dict.get body flag).truthy then
    .error (.compat (refuse (some flag) (flag ++ lit " is not supported by the local engine")))
  else .ok ()

/-- A field of the cover flow, which must be absent. -/
def refuseCover (body : Dict) (cover : Str) : Except EdgeError Unit :=
  if Dict.has body cover then
    .error (.compat
      (refuse (some cover) (cover ++ lit " (cover flow) is not supported by the local engine")))
  else .ok ()

/-- A required text of at most `max` characters. -/
def requireText (body : Dict) (field : Str) (max : Nat) : Except EdgeError Str :=
  match Dict.get body field with
  | .str s => if 1 ≤ s.length ∧ s.length ≤ max then .ok s else .error refusal
  | _ => .error refusal
where
  refusal : EdgeError := .compat (refuse (some field)
    (field ++ lit " must be a string of 1-" ++ natText max ++ lit " characters"))

/-- `_validate_int`. -/
def validateInt (body : Dict) (name : Str) (default low : Int) (high : Option Int) :
    Except EdgeError Int :=
  match Dict.getD body name (.int default) with
  | .int n => if n < low ∨ high.any (· < n) then .error refusal else .ok n
  | _ => .error refusal
where
  refusal : EdgeError := .compat (refuse (some name) (name ++ lit " must be an integer " ++
    match high with
    | some high => intText low ++ lit ".." ++ intText high
    | none => lit ">= " ++ intText low))

/-- The `output_format` of a request. -/
def outputFormatOf (body : Dict) : Except EdgeError OutputFormat :=
  match Dict.getD body (lit "output_format") (.str (lit "hex")) with
  | .str s =>
    if s = lit "hex" then .ok .hex else if s = lit "url" then .ok .url else .error refusal
  | _ => .error refusal
where
  refusal : EdgeError := .compat
    (refuse (some (lit "output_format")) (lit "output_format must be 'hex' or 'url'"))

section
variable (P : Platform)

/-- `estimate_hex_bytes`. -/
def estimateHexBytes (maxNewTokens : Int) (plan : TranscodePlan) : Int :=
  let duration := P.trueDiv maxNewTokens.toNat framesPerSecond
  let audioBytes := match plan.container, plan.bitrate with
    | .mp3, some bitrate => P.mul (P.trueDiv bitrate.toNat 8) duration
    | _, _ => P.mul (P.mul (P.mul duration (P.ofInt plan.sampleRate)) (P.ofInt plan.channels))
        (P.ofInt bytesPerSample)
  P.truncate (P.mul audioBytes (P.ofInt 2))

/-- The pre-dispatch ceiling of a `hex` body. The estimate is a short `int`; the ceiling is the
caller's. -/
def checkHexCeiling (outputFormat : OutputFormat) (maxNewTokens : Int) (plan : TranscodePlan)
    (hexCeilingBytes : Int) : Except EdgeError Unit :=
  let estimate := estimateHexBytes P maxNewTokens plan
  if outputFormat = .hex ∧ hexCeilingBytes < estimate then
    .error (refuseShowing (lit "output_format") (intStr hexCeilingBytes) fun ceiling =>
      lit "hex body ~" ++ intText estimate ++ lit " bytes exceeds the " ++ ceiling ++
        lit "-byte ceiling; use output_format 'url'")
  else .ok ()

/-- The known fields of a request, as received. -/
def recordedCloud (body : Dict) : Dict :=
  recordedCloudFields.filterMap fun key => (Dict.get? body key).map (key, ·)

/-- The model allow-list of one. -/
def checkModel (body : Dict) : Except EdgeError Unit :=
  match Dict.get body (lit "model") with
  | .str s => if s = modelId then .ok () else .error (refusal (.str s))
  | v => .error (refusal v)
where
  refusal (v : Json) : EdgeError := refuseShowing (lit "model") (P.repr v) fun text =>
    lit "model must be " ++ P.reprText (.str modelId) ++ lit "; got " ++ text

/-- `translate` of a mapping. -/
def translateBody (body : Dict) (hexCeilingBytes : Int) : Except EdgeError LocalRequest := do
  checkModel P body
  refuseFlag body (lit "stream")
  refuseFlag body (lit "lyrics_optimizer")
  refuseFlag body (lit "is_instrumental")
  refuseCover body (lit "cover_feature_id")
  refuseCover body (lit "audio_url")
  refuseCover body (lit "audio_base64")
  let prompt ← requireText body (lit "prompt") maxPromptChars
  let lyrics ← requireText body (lit "lyrics") maxLyricsChars
  let outputFormat ← outputFormatOf body
  let seed ← validateInt body (lit "seed") defaultSeed 0 none
  let maxNewTokens ← validateInt body (lit "max_new_tokens") defaultMaxNewTokens 1
    (some maxNewTokensCeiling)
  let plan ← resolveTranscode P (Dict.get body (lit "audio_setting"))
  checkHexCeiling P outputFormat maxNewTokens plan hexCeilingBytes
  return {
    input := lyrics
    instructions := prompt
    seed
    maxNewTokens
    outputFormat
    plan
    cloud := recordedCloud body }

/-- `translate`. -/
def translate (body : Json) (hexCeilingBytes : Int := hexMaxBodyBytes) :
    Except EdgeError LocalRequest :=
  match body with
  | .obj body => translateBody P body hexCeilingBytes
  | _ => .error (.compat (refuse none (lit "request body must be a JSON object")))

end

/-! ## What an accepted request is -/

section
variable {P : Platform} {body : Dict} {r : LocalRequest}

/-- What the checks of `translate` have established. -/
structure Translated (P : Platform) (body : Dict) (r : LocalRequest) : Prop where
  prompt : requireText body (lit "prompt") maxPromptChars = .ok r.instructions
  lyrics : requireText body (lit "lyrics") maxLyricsChars = .ok r.input
  seed : validateInt body (lit "seed") defaultSeed 0 none = .ok r.seed
  maxNewTokens : validateInt body (lit "max_new_tokens") defaultMaxNewTokens 1
    (some maxNewTokensCeiling) = .ok r.maxNewTokens
  plan : resolveTranscode P (Dict.get body (lit "audio_setting")) = .ok r.plan
  cloud : r.cloud = recordedCloud body

theorem translateBody_ok {hexCeilingBytes : Int}
    (h : translateBody P body hexCeilingBytes = .ok r) : Translated P body r := by
  obtain ⟨_, -, h⟩ := ok_of_bind h
  obtain ⟨_, -, h⟩ := ok_of_bind h
  obtain ⟨_, -, h⟩ := ok_of_bind h
  obtain ⟨_, -, h⟩ := ok_of_bind h
  obtain ⟨_, -, h⟩ := ok_of_bind h
  obtain ⟨_, -, h⟩ := ok_of_bind h
  obtain ⟨_, -, h⟩ := ok_of_bind h
  obtain ⟨prompt, hprompt, h⟩ := ok_of_bind h
  obtain ⟨lyrics, hlyrics, h⟩ := ok_of_bind h
  obtain ⟨outputFormat, -, h⟩ := ok_of_bind h
  obtain ⟨seed, hseed, h⟩ := ok_of_bind h
  obtain ⟨maxNewTokens, hmax, h⟩ := ok_of_bind h
  obtain ⟨plan, hplan, h⟩ := ok_of_bind h
  obtain ⟨_, -, h⟩ := ok_of_bind h
  cases h
  exact ⟨hprompt, hlyrics, hseed, hmax, hplan, rfl⟩

theorem translate_ok {v : Json} {hexCeilingBytes : Int}
    (h : translate P v hexCeilingBytes = .ok r) :
    ∃ body, v = .obj body ∧ Translated P body r := by
  unfold translate at h
  split at h
  · exact ⟨_, rfl, translateBody_ok h⟩
  · cases h

/-- An accepted integer is the default, or the field of the body. -/
theorem validateInt_ok {name : Str} {default low n : Int} {high : Option Int}
    (h : validateInt body name default low high = .ok n) :
    (n = default ∨ Dict.get? body name = some (.int n)) ∧ low ≤ n ∧ ∀ m, high = some m → n ≤ m := by
  unfold validateInt at h
  split at h
  · rename_i m hm
    split at h
    · cases h
    rename_i hr
    cases h
    rw [not_or, Int.not_lt] at hr
    refine ⟨?_, hr.1, fun m hm => ?_⟩
    · unfold Dict.getD at hm
      cases hg : Dict.get? body name with
      | none => rw [hg] at hm; cases hm; exact .inl rfl
      | some v => rw [hg] at hm; cases hm; exact .inr rfl
    · rw [hm] at hr
      simpa using hr.2
  · cases h

theorem get?_recordedCloud_eq (k : Str) : Dict.get? (recordedCloud body) k =
    if k ∈ recordedCloudFields then Dict.get? body k else none := by
  have general : ∀ ks : List Str, Dict.get? (ks.filterMap fun key =>
      (Dict.get? body key).map (key, ·)) k = if k ∈ ks then Dict.get? body k else none := by
    intro ks
    induction ks with
    | nil => rfl
    | cons j ks ih =>
      rw [List.filterMap_cons]
      cases hj : Dict.get? body j with
      | none =>
        simp only [Option.map_none, ih, List.mem_cons]
        by_cases e : k = j
        · subst e; simp [hj]
        · simp [e]
      | some v =>
        simp only [Option.map_some, Dict.get?_cons, ih, List.mem_cons]
        by_cases e : j = k
        · subst e; simp [hj]
        · simp [e, Ne.symm e]
  exact general recordedCloudFields

theorem get?_recordedCloud {k : Str} (hk : k ∈ recordedCloudFields) :
    Dict.get? (recordedCloud body) k = Dict.get? body k :=
  (get?_recordedCloud_eq k).trans (if_pos hk)

theorem mem_recordedCloud {p : Str × Json} (h : p ∈ recordedCloud body) :
    Dict.get? body p.1 = some p.2 := by
  obtain ⟨k, -, hk⟩ := List.mem_filterMap.mp h
  obtain ⟨v, hv, rfl⟩ := Option.map_eq_some_iff.mp hk
  exact hv

theorem keys_recordedCloud : (Assoc.keys (recordedCloud body)).Sublist recordedCloudFields := by
  unfold recordedCloud
  generalize recordedCloudFields = ks
  induction ks with
  | nil => exact List.Sublist.slnil
  | cons j ks ih =>
    rw [List.filterMap_cons]
    cases Dict.get? body j with
    | none => exact ih.cons j
    | some v => exact ih.cons_cons j

theorem recordedCloud_ok : Dict.Ok (recordedCloud body) := keys_recordedCloud.nodup (by decide)

end

/-- `response_envelope`. -/
def responseEnvelope (traceId audio : Str) (status : Int) (extraInfo : Dict) : Json := .obj [
  (lit "data", .obj [(lit "audio", .str audio), (lit "status", .int status)]),
  (lit "trace_id", .str traceId),
  (lit "extra_info", .obj extraInfo),
  (lit "analysis_info", .null),
  (lit "base_resp", baseResp success (lit "success"))]

end Music3
