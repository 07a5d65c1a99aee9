import Music3.Py.Paths
import Music3.Routes.Music

/-!
# The stream of the `hex` form

`_hex_body` renders the envelope around a placeholder, and streams the digits of the file in its
place.

* `hexBody_ok`, `hexBody_error`: what it streams, and that it fails as `json.dumps` does.
* `hexBody_flatten`: its chunks together are the envelope with all the digits, rendered at once.
* `hexBody_decodes`: `data.audio` of what is streamed are the digits of the file.
-/

namespace Music3

open Py Json StateExcept

/-- The text of an envelope before its audio. -/
def envelopeStart : Str := lit "\x7b\"data\": \x7b\"audio\": \""

/-- The bytes of an ASCII text. -/
def asciiBytes (s : Str) : Bytes := s.map fun c => c.val.toUInt8

section
variable (P : Platform) (traceId : Str) (info : Dict)

/-- The text of an envelope after its audio. -/
def envelopeStop : Str :=
  lit "\", \"status\": 2\x7d" ++ (renderMembers P.floats ⟨none, false, P.dumpsLimit⟩ 1 [
    (lit "trace_id", .str traceId),
    (lit "extra_info", .obj info),
    (lit "analysis_info", .null),
    (lit "base_resp", baseResp success (lit "success"))] ++ [cp '}'])

theorem render_envelope (audio : Str) :
    render P.floats ⟨none, false, P.dumpsLimit⟩ 0 (responseEnvelope traceId audio 2 info) =
      envelopeStart ++ (audio.flatMap escape ++ envelopeStop P traceId info) := by
  have hdata : render P.floats ⟨none, false, P.dumpsLimit⟩ 1
      (.obj [(lit "audio", .str audio), (lit "status", .int 2)]) =
      lit "\x7b\"audio\": \"" ++ (audio.flatMap escape ++ lit "\", \"status\": 2\x7d") := by
    rw [render, render, show quote audio = cp '"' :: (audio.flatMap escape ++ [cp '"']) from rfl]
    simp only [newline, List.nil_append, List.cons_append, List.append_assoc]
    rfl
  unfold responseEnvelope
  rw [render, hdata]
  simp only [newline, List.nil_append, List.append_assoc]
  rfl

end

section
variable {P : Platform} {traceId audio : Str} {facts : AudioFacts}

theorem depth_envelope :
    (responseEnvelope traceId audio 2 (extraInfo facts)).depth ≤ P.dumpsLimit := by
  have h : (responseEnvelope traceId audio 2 (extraInfo facts)).depth = 2 := rfl
  have := P.three_le_dumps
  omega

theorem intsOk_envelope (info : Dict) :
    intsOk (responseEnvelope traceId audio 2 info) = intsOk (.obj info) := by
  have h₀ : intsOk (.int success) = true := intsOk_of_lt (n := 0) (by decide)
  have h₂ : intsOk (.int 2) = true := intsOk_of_lt (n := 2) (by decide)
  simp only [responseEnvelope, baseResp, intsOk, intsOkFields] at h₀ h₂ ⊢
  simp only [h₀, h₂, Bool.and_true, Bool.true_and]

variable (P traceId) in
/-- The text of an envelope. -/
theorem dumps_envelope (hi : intsOk (.obj (extraInfo facts)) = true) (ha : Literal audio) :
    P.dumps (responseEnvelope traceId audio 2 (extraInfo facts)) =
      .ok (envelopeStart ++ (audio ++ envelopeStop P traceId (extraInfo facts))) := by
  unfold Platform.dumps
  rw [dumps_of_intsOk ((intsOk_envelope _).trans hi), if_pos depth_envelope]
  show Except.ok (render _ _ 0 (responseEnvelope _ _ _ _)) = _
  rw [render_envelope, ha]

theorem dumps_envelope_error (hi : intsOk (.obj (extraInfo facts)) = false) :
    P.dumps (responseEnvelope traceId audio 2 (extraInfo facts)) = .error .value :=
  dumps_of_not_intsOk ((intsOk_envelope _).trans hi) depth_envelope

variable (P facts) in
/-- The first letter of the placeholder is nowhere else in the envelope. -/
theorem envelope_not_mem (hid : IsHex traceId) :
    cp 'S' ∉ envelopeStart ∧ cp 'S' ∉ envelopeStop P traceId (extraInfo facts) := by
  have h : ∀ c ∈ envelopeStart ++ ([].flatMap escape ++
      envelopeStop P traceId (extraInfo facts)), c ≠ cp 'S' := by
    have htext : ∀ c ∈ textChars, c ≠ cp 'S' := by
      rintro c hc rfl
      exact absurd hc (by decide)
    rw [← render_envelope]
    refine render_chars _ _ htext _ _ fun s hs => not_mem_quote ?_
    have hstrings : (responseEnvelope traceId [] 2 (extraInfo facts)).strings =
        [lit "data", lit "audio", [], lit "status", lit "trace_id", traceId, lit "extra_info",
          lit "music_duration", lit "music_sample_rate", lit "music_channel", lit "bitrate",
          lit "music_size", lit "analysis_info", lit "base_resp", lit "status_code",
          lit "status_msg", lit "success"] := rfl
    rw [hstrings] at hs
    simp only [List.mem_cons, List.not_mem_nil, or_false] at hs
    rcases hs with rfl | rfl | rfl | rfl | rfl | rfl | rfl | rfl | rfl | rfl | rfl | rfl | rfl |
      rfl | rfl | rfl | rfl
    case inr.inr.inr.inr.inr.inl => exact hid.not_mem
    all_goals decide
  exact ⟨fun hm => h _ (List.mem_append_left _ hm) rfl,
    fun hm => h _ (List.mem_append_right _ (List.mem_append_right _ hm)) rfl⟩

theorem encodeText_ascii {s : Str} (h : Ascii s) : encodeText s = .ok (asciiBytes s) := by
  rw [encodeText, encodeUtf8_ascii h]
  rfl

/-- The placeholder splits the envelope in two. -/
theorem split_envelope (hid : IsHex traceId) (facts : AudioFacts) :
    splitText audioPlaceholder [] (envelopeStart ++ (audioPlaceholder ++
      envelopeStop P traceId (extraInfo facts))) =
        [envelopeStart, envelopeStop P traceId (extraInfo facts)] := by
  obtain ⟨hstart, hstop⟩ := envelope_not_mem P facts hid
  exact splitText_once hstart hstop

variable (P traceId) in
/-- Both parts are ASCII. -/
theorem ascii_parts (hi : intsOk (.obj (extraInfo facts)) = true) :
    Ascii envelopeStart ∧ Ascii (envelopeStop P traceId (extraInfo facts)) := by
  have hlit : Literal audioPlaceholder := rfl
  have hascii := List.forall_mem_append.mp (ascii_dumps (dumps_envelope P traceId hi hlit))
  exact ⟨hascii.1, (List.forall_mem_append.mp hascii.2).2⟩

theorem hexTemplate_ok (hid : IsHex traceId) (hi : intsOk (.obj (extraInfo facts)) = true) :
    hexTemplate P traceId (extraInfo facts) =
      .ok (envelopeStart, envelopeStop P traceId (extraInfo facts)) := by
  have hlit : Literal audioPlaceholder := rfl
  unfold hexTemplate
  rw [dumps_envelope P traceId hi hlit]
  simp only [Except.mapError, bind, Except.bind, split_envelope hid]
  rfl

theorem hexTemplate_error (hi : intsOk (.obj (extraInfo facts)) = false) :
    hexTemplate P traceId (extraInfo facts) = .error (.ofJson .value) := by
  unfold hexTemplate
  rw [dumps_envelope_error hi]
  rfl

/-- What `_hex_body` streams. -/
theorem hexBody_ok (hid : IsHex traceId) (hi : intsOk (.obj (extraInfo facts)) = true)
    (blocks : List Bytes) : hexBody P traceId (extraInfo facts) blocks =
      .ok (asciiBytes envelopeStart ::
        (blocks.map hexlify ++ [asciiBytes (envelopeStop P traceId (extraInfo facts))])) := by
  obtain ⟨hstart, hstop⟩ := ascii_parts P traceId hi
  unfold hexBody
  rw [hexTemplate_ok hid hi]
  simp only [bind, Except.bind, encodeText_ascii hstart, encodeText_ascii hstop]
  rfl

theorem hexBody_error (hi : intsOk (.obj (extraInfo facts)) = false) (blocks : List Bytes) :
    hexBody P traceId (extraInfo facts) blocks = .error (.ofJson .value) := by
  unfold hexBody
  rw [hexTemplate_error hi]
  rfl

/-- The blocks that are read of a file together are the file. -/
theorem readBlocks_flatten (content : Bytes) : (readBlocks content).flatten = content := by
  fun_induction readBlocks content with
  | case1 => rfl
  | case2 content h ih => rw [List.flatten_cons, ih, List.take_append_drop]

/-- The chunks of `_hex_body`, whatever the blocks, are the envelope with the digits of the whole
file. -/
theorem hexBody_flatten (hid : IsHex traceId) (facts : AudioFacts) (blocks : List Bytes) :
    (hexBody P traceId (extraInfo facts) blocks).map List.flatten =
      ((P.dumps (responseEnvelope traceId (hexText blocks.flatten) 2 (extraInfo facts))).mapError
        Exc.ofJson).bind encodeText := by
  cases hi : intsOk (.obj (extraInfo facts)) with
  | false =>
    rw [hexBody_error hi, dumps_envelope_error hi]
    rfl
  | true =>
    have hdump := dumps_envelope P traceId hi
      (isHex_hexText blocks.flatten).literal
    have hascii := ascii_dumps hdump
    rw [hexBody_ok hid hi, hdump]
    show Except.ok (List.flatten _) = encodeText _
    rw [encodeText_ascii hascii, List.flatten_cons, List.flatten_append, hexlify_flatten]
    unfold asciiBytes hexlify
    rw [List.map_append, List.map_append, List.flatten_singleton]

/-- `data.audio` of a streamed envelope, decoded. -/
theorem hexBody_decodes (hid : IsHex traceId) {blocks chunks : List Bytes}
    (h : hexBody P traceId (extraInfo facts) blocks = .ok chunks) :
    ∃ v audio, P.load chunks.flatten = .ok v ∧
      v.at? [lit "data", lit "audio"] = some (.str audio) ∧
      unhexlify audio = some blocks.flatten := by
  have hflat := hexBody_flatten (P := P) hid facts blocks
  rw [h] at hflat
  cases hdump : P.dumps (responseEnvelope traceId (hexText blocks.flatten) 2 (extraInfo facts)) with
  | error e => rw [hdump] at hflat; cases hflat
  | ok text =>
    rw [hdump] at hflat
    have hascii := ascii_dumps hdump
    have hb : encodeUtf8 text = some chunks.flatten := by
      have he : Except.ok chunks.flatten = encodeText text := hflat
      rw [encodeText_ascii hascii] at he
      rw [Except.ok.inj he]
      exact encodeUtf8_ascii hascii
    have hload := loadsBytes_dumps hdump hb
      (depth_envelope.trans (Nat.le_of_lt P.dumps_lt_loads)) (intsOk_of_dumps hdump)
    refine ⟨_, hexText blocks.flatten, hload, ?_, unhexlify_hexText _⟩
    have hplain : plain (hexText blocks.flatten) := fun c hc =>
      Nat.lt_trans ((isHex_hexText blocks.flatten).ascii c hc).2 (by decide)
    have hsound : (responseEnvelope traceId (hexText blocks.flatten) 2 (extraInfo facts)).Sound
        [lit "data", lit "audio"] :=
      sound_two (.of_keys [lit "data", lit "trace_id", lit "extra_info", lit "analysis_info",
        lit "base_resp"] rfl (by decide)) (plain_lit rfl) rfl
        (.of_keys [lit "audio", lit "status"] rfl (by decide)) (plain_lit rfl)
    refine (at?_norm hsound).trans ?_
    show some (Json.str (normStr _)) = _
    rw [(normStr_eq_plain hplain).mpr rfl]

end

end Music3
