import Music3.Routes.Delivery
import Music3.Routes.Result

/-!
# The two deliveries of a cloud request agree

The `hex` form is transcoded with the plan of the request, and the `url` form with the plan that
`music_result` resolves from the sidecar. `recorded_plan`: these are the same plan.
`hex_url_agree` adds that the two streams deliver the same bytes of a file.
-/

namespace Music3

open Py Json Posix StateExcept

section
variable {P : Platform} {record : JobRecord} {deployment : DeploymentFacts} {facts : WavFacts}
  {translated cloud sidecar : Dict} {data : Bytes}

/-- The recorded request in the sidecar. -/
theorem sidecar_cloud (hc : record.submission.cloud = some cloud)
    (hs : buildSidecar P record deployment facts translated = .ok sidecar) :
    (Json.obj sidecar).Sound [lit "request", lit "cloud"] ∧
      (Json.obj sidecar).at? [lit "request", lit "cloud"] = some (.obj cloud) := by
  obtain ⟨q, t, -, -, rfl⟩ := buildSidecar_ok hs
  have hreq : sidecarRequest record.submission translated =
      [(lit "input", .str record.submission.input),
        (lit "instructions", .str record.submission.instructions),
        (lit "seed", .int record.submission.seed),
        (lit "max_new_tokens", .int record.submission.maxNewTokens),
        (lit "translated", .obj translated), (lit "cloud", .obj cloud)] := by
    rw [sidecarRequest, hc]
    rfl
  constructor
  · refine sound_two sidecarOf_ok (plain_lit rfl) rfl ?_ (plain_lit rfl)
    rw [hreq]
    exact .of_keys [lit "input", lit "instructions", lit "seed", lit "max_new_tokens",
      lit "translated", lit "cloud"] rfl (by decide)
  · show (Dict.get? (sidecarRequest record.submission translated) _).bind (fun x => x.at? []) = _
    rw [hreq]
    rfl

/-- The plan that is resolved from the stored sidecar is the plan of the request. -/
theorem recorded_plan {body : Json} {hexCeilingBytes : Int} {r : LocalRequest} (hwf : body.WF)
    (htr : translate P body hexCeilingBytes = .ok r) (hc : record.submission.cloud = some r.cloud)
    (hs : buildSidecar P record deployment facts translated = .ok sidecar)
    (he : encodeSidecar P sidecar = .ok data) :
    ∃ setting, settingRead P data = .ok setting ∧ resolveTranscode P setting = .ok r.plan := by
  obtain ⟨fields, rfl, htrans⟩ := translate_ok htr
  obtain ⟨hsound, hat⟩ := sidecar_cloud hc hs
  have hload := encodeSidecar_load he
  have hread := at?_reread hsound
  rw [hat] at hread
  have hcok : Dict.Ok r.cloud := htrans.cloud ▸ recordedCloud_ok
  obtain ⟨cloud', hcloud', hget⟩ := get?_reread hcok
  have hcases := settingRead_cases P data
  generalize settingRead P data = x at hcases ⊢
  cases hcases with
  | noJson hl => cases hload.symm.trans hl
  | noCloud kvs hl hno =>
    cases hload.symm.trans hl
    exact absurd (hread.trans (congrArg some hcloud')) (hno cloud')
  | raised e hu => exact absurd (.inr ⟨_, hload⟩) hu
  | recorded kvs cloud hl hcl =>
    rw [hload, Except.ok.injEq] at hl
    rw [← hl, hread, Option.map_some, hcloud'] at hcl
    cases hcl
    have hkey : plain (lit "audio_setting") := plain_lit rfl
    have hsetting : Dict.get cloud' (lit "audio_setting") =
        (Dict.get fields (lit "audio_setting")).reread := by
      unfold Dict.get
      rw [hget _ hkey, htrans.cloud, get?_recordedCloud (by decide)]
      cases Dict.get? fields (lit "audio_setting") <;> rfl
    have hwf' : (Dict.get fields (lit "audio_setting")).WF := by
      unfold Dict.get
      cases hg : Dict.get? fields (lit "audio_setting") with
      | none => trivial
      | some v => exact wf_of_get? hwf.2 hg
    refine ⟨_, rfl, ?_⟩
    rw [hsetting]
    exact resolveTranscode_reread hwf' htrans.plan

end

/-- The plan of the `url` form is the plan of the request, and the chunks of the `hex` form are the
envelope with the digits of the file that the `url` form streams, whatever the blocks. -/
theorem hex_url_agree {P : Platform} {body : Json} {hexCeilingBytes : Int} {r : LocalRequest}
    (hwf : body.WF) (htr : translate P body hexCeilingBytes = .ok r) :
    (∀ record deployment facts translated sidecar data root traceId d,
      record.submission.cloud = some r.cloud →
      buildSidecar P record deployment facts translated = .ok sidecar →
      encodeSidecar P sidecar = .ok data → d.sys.turns = [] →
      Servable root d.sys.fs traceId → d.sys.fs.held traceId sidecarName = some data →
      ∃ setting d', (recordedAudioSetting P root traceId).run d = .ok setting d' ∧
        resolveTranscode P setting = .ok r.plan) ∧
    ∀ traceId facts (blocks : List Bytes), IsHex traceId →
      (hexBody P traceId (extraInfo facts) blocks).map List.flatten =
        ((P.dumps (responseEnvelope traceId (hexText blocks.flatten) 2 (extraInfo facts))).mapError
          Exc.ofJson).bind encodeText ∧
      ∀ chunks, hexBody P traceId (extraInfo facts) blocks = .ok chunks →
        ∃ v audio, P.load chunks.flatten = .ok v ∧
          v.at? [lit "data", lit "audio"] = some (.str audio) ∧
          unhexlify audio = some (fileBody blocks).flatten := by
  refine ⟨fun record deployment facts translated sidecar data root traceId d hc hs he hstill hserv
    hheld => ?_, fun traceId facts blocks hid => ⟨hexBody_flatten hid facts blocks, fun chunks h =>
      hexBody_decodes hid h⟩⟩
  obtain ⟨setting, hread, hplan⟩ := recorded_plan hwf htr hc hs he
  obtain ⟨d', -, -, hrun⟩ := recordedAudioSetting_still (P := P) hstill hserv hheld
  rw [hread] at hrun
  exact ⟨setting, d', hrun, hplan⟩

namespace Sample

/-- An `mp3` of another rate than the engine's. -/
def mp3Setting : Dict := [
  (lit "format", .str (lit "mp3")),
  (lit "sample_rate", .int 44100),
  (lit "bitrate", .int 128000)]

def mp3Body : Dict := hexBody ++ [(lit "audio_setting", .obj mp3Setting)]

def mp3Request : LocalRequest :=
  ⟨lit "[Verse]", lit "warm", 0, 9000, .hex, ⟨.mp3, 44100, 2, some 128000⟩, mp3Body⟩

def cloudRecord : JobRecord :=
  ⟨lit "0a", mp3Request.submission, .succeeded, early, some late, some late, none, none, some wav,
    none, none, none⟩

end Sample

set_option maxRecDepth 16000 in
/-- A request with an `audio_setting`, and three bytes in two blocks. -/
theorem hex_url_agree_mp3 : (∃ data setting d',
      (recordedAudioSetting Sample.platform (lit "/artifacts") (lit "0a")).run
        ⟨Sample.withSidecar data, []⟩ = .ok setting d' ∧
      resolveTranscode Sample.platform setting = .ok ⟨.mp3, 44100, 2, some 128000⟩) ∧
    ∃ chunks, hexBody Sample.platform (lit "0a") (extraInfo ⟨⟨0⟩, 44100, 2, 128000, 3⟩)
        [[82, 73], [70]] = .ok chunks ∧
      ∃ v audio, Sample.platform.load chunks.flatten = .ok v ∧
        v.at? [lit "data", lit "audio"] = some (.str audio) ∧
        unhexlify audio = some [82, 73, 70] := by
  have hwf : (Json.obj Sample.mp3Body).WF :=
    ⟨.of_keys [lit "model", lit "prompt", lit "lyrics", lit "audio_setting"] rfl (by decide),
      trivial, trivial, trivial,
      ⟨.of_keys [lit "format", lit "sample_rate", lit "bitrate"] rfl (by decide),
        trivial, trivial, trivial, trivial⟩, trivial⟩
  have htr : translate Sample.platform (.obj Sample.mp3Body) = .ok Sample.mp3Request := rfl
  have hagree := hex_url_agree hwf htr
  have hid : IsHex (lit "0a") := isHex_of_all rfl
  obtain ⟨sidecar, data, hs, he⟩ : ∃ sidecar data, buildSidecar Sample.platform Sample.cloudRecord
      (deploymentFactsFromEnv fun _ => none) ⟨2, 1, ⟨0⟩, 47, []⟩ [] = .ok sidecar ∧
        encodeSidecar Sample.platform sidecar = .ok data := ⟨_, _, rfl, rfl⟩
  obtain ⟨setting, d', hrun, hplan⟩ := hagree.1 Sample.cloudRecord _ _ _ sidecar data
    (lit "/artifacts") (lit "0a") ⟨Sample.withSidecar data, []⟩ rfl hs he rfl ⟨rfl, rfl, rfl⟩ rfl
  obtain ⟨chunks, hchunks⟩ : ∃ chunks, hexBody Sample.platform (lit "0a")
      (extraInfo ⟨⟨0⟩, 44100, 2, 128000, 3⟩) [[82, 73], [70]] = .ok chunks :=
    ⟨_, hexBody_ok hid rfl _⟩
  exact ⟨⟨data, setting, d', hrun, hplan⟩, chunks, hchunks,
    (hagree.2 _ _ [[82, 73], [70]] hid).2 chunks hchunks⟩

end Music3
