import Music3.Routes.Desk
import Music3.Routes.HexBody

/-!
# Post-processing failures

How `music_generation` answers for a job that has succeeded, for every outcome of ffmpeg and
ffprobe.

* `DeliverEnds`: its ways out; `deliver_ends`.
* `Writable`: the measured values can be written in the answer. Nothing between ffprobe's text and
  the answer looks at an `int` that is too long for a text, nor at a duration that is not finite.
* `post_processing_handled`: `measure` raises nothing but `TranscodeError` and `OSError`, and every
  failure is the reserved one and leaves no temp file, if and only if ffprobe's output is readable
  and its values are writable.
-/

namespace Music3

open Py Posix StateExcept

/-- Another text is plain. -/
theorem encodeUtf8_plain {s : Str} (h : plain s) : (encodeUtf8 s).isSome = true := by
  induction s with
  | nil => rfl
  | cons c s ih =>
    have hc := h c List.mem_cons_self
    obtain ⟨b, hb⟩ := Option.isSome_iff_exists.mp (ih fun x hx => h x (List.mem_cons_of_mem _ hx))
    have hs : isSurrogate c.val = false := by
      unfold isSurrogate
      simp only [Bool.and_eq_false_iff, decide_eq_false_iff_not]
      omega
    have hpoint : ∃ a, encodePoint c = some a := by
      unfold encodePoint
      simp only [hs]
      split
      · exact ⟨_, rfl⟩
      split
      · exact ⟨_, rfl⟩
      · simp only [Bool.false_eq_true, ↓reduceIte]
        split <;> exact ⟨_, rfl⟩
    obtain ⟨a, ha⟩ := hpoint
    rw [encodeUtf8, ha, hb]
    rfl

theorem plain_of_ascii {s : Str} (h : Ascii s) : plain s := fun c hc =>
  Nat.lt_trans (h c hc).2 (by decide)

theorem plain_resultUrl {baseUrl : Bytes} {traceId : Str} (hid : IsHex traceId) :
    plain (resultUrl baseUrl traceId) := by
  intro c hc
  rcases List.mem_append.mp hc with hc | hc
  · rcases List.mem_append.mp hc with hc | hc
    · have hm := (List.dropWhile_sublist _).subset (List.mem_reverse.mp hc)
      obtain ⟨b, -, rfl⟩ := List.mem_map.mp (List.mem_reverse.mp hm)
      have hb := b.toNat_lt
      rw [point_val (by omega)]
      omega
    · exact plain_lit rfl c hc
  · exact plain_of_ascii hid.ascii c hc

section
variable {P : Platform} {traceId : Str} {facts : AudioFacts}

/-- The measured values can be written: each `int` has a text, and for `url`, whose JSON admits no
other float, the duration is finite. -/
structure Writable (outputFormat : OutputFormat) (facts : AudioFacts) : Prop where
  sampleRate : intsOk (.int facts.sampleRate) = true
  channels : intsOk (.int facts.channels) = true
  bitrate : intsOk (.int facts.bitrate) = true
  size : intsOk (.int facts.size) = true
  duration : outputFormat = .url → facts.durationSeconds.isFinite = true

theorem intsOk_extraInfo : intsOk (.obj (extraInfo facts)) = true ↔
    intsOk (.int facts.sampleRate) = true ∧ intsOk (.int facts.channels) = true ∧
      intsOk (.int facts.bitrate) = true ∧ intsOk (.int facts.size) = true := by
  simp only [extraInfo, intsOk, intsOkFields, Bool.and_eq_true, and_true, true_and]

theorem renders_envelope {audio : Str} (hid : IsHex traceId) (ha : plain audio) :
    renders (responseEnvelope traceId audio 2 (extraInfo facts)) = true ↔ Writable .url facts := by
  have h₀ : intsOk (.int success) = true := intsOk_of_lt (n := 0) (by decide)
  have h₂ : intsOk (.int 2) = true := intsOk_of_lt (n := 2) (by decide)
  simp +decide only [responseEnvelope, extraInfo, baseResp, renders, rendersFields,
    Bool.and_eq_true, h₀, h₂, encodeUtf8_plain ha, encodeUtf8_plain (plain_of_ascii hid.ascii),
    true_and, and_true]
  constructor
  · rintro ⟨hd, hr, hc, hb, hs⟩
    exact ⟨hr, hc, hb, hs, fun _ => hd⟩
  · intro h
    exact ⟨h.duration rfl, h.sampleRate, h.channels, h.bitrate, h.size⟩

end

section
variable {traceId audio : Str} {facts : AudioFacts}

theorem jsonResponse_ok (hid : IsHex traceId) (ha : plain audio) (h : Writable .url facts) :
    jsonResponse 200 (responseEnvelope traceId audio 2 (extraInfo facts)) =
      .ok (.json ⟨200, responseEnvelope traceId audio 2 (extraInfo facts)⟩) :=
  if_pos ((renders_envelope hid ha).mpr h)

variable (audio) in
theorem jsonResponse_error (hid : IsHex traceId) (ha : plain audio) (h : ¬ Writable .url facts) :
    ∃ e, jsonResponse 200 (responseEnvelope traceId audio 2 (extraInfo facts)) = .error e :=
  ⟨_, if_neg (mt (renders_envelope hid ha).mp h)⟩

theorem writable_hex : Writable .hex facts ↔ intsOk (.obj (extraInfo facts)) = true := by
  rw [intsOk_extraInfo]
  exact ⟨fun h => ⟨h.sampleRate, h.channels, h.bitrate, h.size⟩,
    fun ⟨hr, hc, hb, hs⟩ => ⟨hr, hc, hb, hs, by intro e; cases e⟩⟩

end

/-! ## The ways out -/

/-- `open_member` gives the audio. -/
def Opens (root : Option Str) (traceId : Str) (s : Sys) : Prop :=
  ∃ path p u, root = some path ∧ (openMember path traceId audioName).run s = .ok (some p) u

/-- How `music_generation` ends for a job that has succeeded. -/
inductive DeliverEnds (P : Platform) (N : Numbers P) (root : Option Str) (baseUrl : Bytes)
    (r : LocalRequest) (t : Tools) (traceId : Str) (d : Desk) :
    EStateM.Result PostExc Desk Answer → Prop
  | unopened (message : Str) (d' : Desk) : ¬ Opens root traceId d.sys → d'.temps = d.temps →
      DeliverEnds P N root baseUrl r t traceId d
        (.ok (.json ⟨503, errorEnvelope 5000 message (some traceId)⟩) d')
  | failed (message : Str) (d' : Desk) :
      (∀ tmp facts, t.made = .ok tmp → measure P N t r.plan ≠ .ok facts) → d'.temps = d.temps →
      DeliverEnds P N root baseUrl r t traceId d
        (.ok (.json ⟨503, errorEnvelope 5000 message (some traceId)⟩) d')
  | raised (e : PostExc) (d' : Desk) : measure P N t r.plan = .error e → e.isPostFailure = false →
      DeliverEnds P N root baseUrl r t traceId d (.error e d')
  | url (tmp : Str) (facts : AudioFacts) (d' : Desk) : Opens root traceId d.sys →
      t.made = .ok tmp → measure P N t r.plan = .ok facts → r.outputFormat = .url →
      d'.temps = d.temps →
      DeliverEnds P N root baseUrl r t traceId d (endsAs (jsonResponse 200
        (responseEnvelope traceId (resultUrl baseUrl traceId) 2 (extraInfo facts))) d')
  | hex (tmp : Str) (facts : AudioFacts) (d' : Desk) : Opens root traceId d.sys →
      t.made = .ok tmp → measure P N t r.plan = .ok facts → r.outputFormat = .hex →
      d'.temps = tmp :: d.temps →
      DeliverEnds P N root baseUrl r t traceId d
        (.ok (.hex tmp (hexBody P traceId (extraInfo facts) (readBlocks t.output))) d')

section
variable {P : Platform} {N : Numbers P} {root : Option Str} {baseUrl : Bytes} {r : LocalRequest}
  {t : Tools} {traceId : Str}

variable (P N root baseUrl r t) in
theorem deliver_ends (hid : IsHex traceId) (d : Desk) :
    DeliverEnds P N root baseUrl r t traceId d ((deliver P N root baseUrl r t traceId).run d) := by
  unfold deliver
  cases root with
  | none =>
    rw [run_ofExcept_ok (localFailureAnswer_ok hid.ascii (ascii_lit (by decide)))]
    exact .unopened _ d (fun ⟨_, _, _, h, _⟩ => by cases h) rfl
  | some root =>
    obtain ⟨o, u, hopen, -, hvalid, hcrafted⟩ := openOrNone_runs root traceId (.inl rfl) d.sys
    simp only
    rw [run_seq_ok (run_onSys_ok hopen)]
    cases o with
    | none =>
      simp only
      rw [run_ofExcept_ok (localFailureAnswer_ok hid.ascii (ascii_lit (by decide)))]
      refine .unopened _ _ (fun ⟨_, p, v, h, hrun⟩ => ?_) rfl
      cases h
      cases hjob : isJobId traceId with
      | true =>
        rw [hvalid hjob] at hrun
        cases hrun
      | false =>
        rw [openMember_crafted root (.inl rfl) hjob] at hrun
        cases hrun
    | some p =>
      obtain ⟨fd, size⟩ := p
      have hpost := postProcess_ends N t r.plan fd ⟨u, d.temps⟩
      simp only
      rw [EStateM.run_bind]
      generalize (postProcess P N t r.plan fd).run ⟨u, d.temps⟩ = x at hpost ⊢
      cases hpost with
      | failed s hno =>
        simp only
        rw [run_ofExcept_ok (localFailureAnswer_ok hid.ascii (ascii_lit (by decide)))]
        exact .failed _ _ hno rfl
      | raised tmp e s hmade hm he => exact .raised e _ hm he
      | measured tmp facts s hmade hm =>
        have hjob : isJobId traceId = true := by
          cases hjob : isJobId traceId with
          | true => rfl
          | false => cases hcrafted hjob
        have hopens : Opens (some root) traceId d.sys := ⟨root, _, u, rfl, hvalid hjob⟩
        simp only
        cases hf : r.outputFormat with
        | hex => exact .hex tmp facts _ hopens hmade hm hf rfl
        | url =>
          have hend := @DeliverEnds.url P N (some root) baseUrl r t traceId d tmp facts
            ⟨s, (tmp :: d.temps).erase tmp⟩ hopens hmade hm hf (List.erase_cons_head ..)
          simp only
          rw [run_seq_ok (run_safeUnlink _ _)]
          generalize jsonResponse 200 (responseEnvelope traceId (resultUrl baseUrl traceId) 2
            (extraInfo facts)) = y at hend ⊢
          cases y <;> exact hend

end

/-! ## What should happen -/

/-- An answer: the reserved failure, or the 200 envelope. Unless the temp file is streamed, there is
none left. -/
inductive PostAnswered (P : Platform) (baseUrl : Bytes) (r : LocalRequest) (t : Tools)
    (traceId : Str)
    (temps : List Str) : EStateM.Result PostExc Desk Answer → Prop
  | failed (message : Str) (d' : Desk) : d'.temps = temps →
      PostAnswered P baseUrl r t traceId temps
        (.ok (.json ⟨503, errorEnvelope 5000 message (some traceId)⟩) d')
  | url (facts : AudioFacts) (d' : Desk) : r.outputFormat = .url → d'.temps = temps →
      PostAnswered P baseUrl r t traceId temps (.ok (.json ⟨200,
        responseEnvelope traceId (resultUrl baseUrl traceId) 2 (extraInfo facts)⟩) d')
  | hex (tmp : Str) (facts : AudioFacts) (chunks : List Bytes) (d' : Desk) :
      r.outputFormat = .hex → d'.temps = tmp :: temps →
      hexBody P traceId (extraInfo facts) (readBlocks t.output) = .ok chunks →
      PostAnswered P baseUrl r t traceId temps (.ok (.hex tmp (.ok chunks)) d')

/-- Every failure of the post-processing is the reserved local failure. -/
structure PostHandled (P : Platform) (N : Numbers P) (root : Option Str) (baseUrl : Bytes)
    (r : LocalRequest) (t : Tools) (traceId : Str) (d : Desk) : Prop where
  measured : ∀ e, measure P N t r.plan = .error e → e.isPostFailure = true
  answered : PostAnswered P baseUrl r t traceId d.temps
    ((deliver P N root baseUrl r t traceId).run d)
  closed : ∀ a d', (deliver P N root baseUrl r t traceId).run d = .ok a d' →
    ClosedOnce d.sys d'.sys []

/-- What ffprobe writes can be read where it is read, and its values can be written where they are
answered. -/
structure ProbeHandled (P : Platform) (N : Numbers P) (root : Option Str) (r : LocalRequest)
    (t : Tools) (traceId : Str) (s : Sys) : Prop where
  readable : t.stat = none → r.plan.container ≠ .pcm → ∀ out err, t.ffprobe = .exited 0 out err →
    ProbeReadable P N r.plan out
  writable : Opens root traceId s → ∀ tmp, t.made = .ok tmp → t.stat = none →
    r.plan.container ≠ .pcm → ∀ out err info, t.ffprobe = .exited 0 out err →
    P.load (orBraces out) = .ok info → ∀ rate channels duration bitrate,
    Readable P N r.plan info rate channels duration bitrate →
    Writable r.outputFormat (factsOf t.output.length rate channels duration bitrate)

section
variable {P : Platform} {N : Numbers P} {r : LocalRequest} {t : Tools} {facts : AudioFacts}

/-- The facts of a headerless file can be written. -/
theorem pcm_writable {v : Json} {plan : TranscodePlan} {size : Nat} (outputFormat : OutputFormat)
    (hplan : resolveTranscode P v = .ok plan) (hsize : size < 2 ^ 63) (N : Numbers P) :
    Writable outputFormat (pcmFacts P plan size) := by
  obtain ⟨hrate, hchannels⟩ := resolveTranscode_native hplan
  have hints : intsOk (.int plan.sampleRate) = true ∧
      intsOk (.int (plan.sampleRate * plan.channels * 16)) = true ∧
      plan.sampleRate * plan.channels * pcmBytesPerSample ≠ 0 ∧
      (plan.sampleRate * plan.channels * pcmBytesPerSample).toNat ≠ 0 := by
    rw [hchannels]
    simp only [sampleRateEnum, List.mem_cons, List.not_mem_nil, or_false] at hrate
    rcases hrate with h | h | h | h <;> rw [h]
    · exact ⟨intsOk_of_lt (n := 16000) (by decide), intsOk_of_lt (n := 512000) (by decide),
        by decide, by decide⟩
    · exact ⟨intsOk_of_lt (n := 24000) (by decide), intsOk_of_lt (n := 768000) (by decide),
        by decide, by decide⟩
    · exact ⟨intsOk_of_lt (n := 32000) (by decide), intsOk_of_lt (n := 1024000) (by decide),
        by decide, by decide⟩
    · exact ⟨intsOk_of_lt (n := 44100) (by decide), intsOk_of_lt (n := 1411200) (by decide),
        by decide, by decide⟩
  obtain ⟨hr, hb, hne, hne'⟩ := hints
  refine ⟨hr, ?_, hb, intsOk_of_lt (by omega), fun _ => ?_⟩
  · show intsOk (.int plan.channels) = true
    rw [hchannels]
    exact intsOk_of_lt (n := 2) (by decide)
  · show (if _ then _ else _ : PyFloat).isFinite = true
    rw [if_pos hne]
    exact N.trueDiv_finite _ _ hsize hne'

/-- What `measure` returns for JSON that is readable. -/
theorem measure_probed {plan : TranscodePlan} {out : Bytes} {err : Str} {info : Json}
    (hs : t.stat = none) (hp : plan.container ≠ .pcm) (hr : t.ffprobe = .exited 0 out err)
    (hl : P.load (orBraces out) = .ok info) :
    measure P N t plan = probedFacts P N plan t.output.length info := by
  have hprobe : ffprobe P t = .ok info := by
    unfold ffprobe
    rw [hr]
    simp only [ne_eq, not_true_eq_false, ↓reduceIte, hl]
  unfold measure Tools.size
  simp only [hs, hp, hprobe, bind, Except.bind, ↓reduceIte]

end

section
variable {P : Platform} {N : Numbers P} {root : Option Str} {baseUrl : Bytes} {r : LocalRequest}
  {t : Tools} {traceId : Str} {body : Json} {hexCeilingBytes : Int} {d : Desk}

/-- The facts of a delivery that reaches its answer can be written, if its probe is handled. -/
theorem ProbeHandled.facts (h : ProbeHandled P N root r t traceId d.sys)
    (htr : translate P body hexCeilingBytes = .ok r) (ho : Opens root traceId d.sys) {tmp : Str}
    (hmade : t.made = .ok tmp) {facts : AudioFacts} (hm : measure P N t r.plan = .ok facts) :
    Writable r.outputFormat facts := by
  obtain ⟨body, -, hbody⟩ := translate_ok htr
  have hends := measure_ends (P := P) (N := N) t r.plan
  rw [hm] at hends
  generalize hx : Except.ok facts = x at hends
  cases hends with
  | handled | tooDeep => cases hx
  | pcm hs hp =>
    cases hx
    exact pcm_writable _ hbody.plan t.output_lt N
  | probed out err info hs hp hr hl =>
    obtain ⟨rate, channels, duration, bitrate, hread, rfl⟩ := probedFacts_ok.mp hx.symm
    exact h.writable ho tmp hmade hs hp out err info hr hl rate channels duration bitrate hread

/-- Post-processing failures are the reserved local failure exactly where ffprobe's output is
handled. -/
theorem post_processing_handled (hid : IsHex traceId)
    (htr : translate P body hexCeilingBytes = .ok r) :
    PostHandled P N root baseUrl r t traceId d ↔ ProbeHandled P N root r t traceId d.sys := by
  have hends := deliver_ends P N root baseUrl r t hid d
  have hclosed := (deliver_hands traceId N root baseUrl r t d d rfl).1
  generalize hrun : (deliver P N root baseUrl r t traceId).run d = x at hends hclosed
  constructor
  · intro h
    refine ⟨measure_iff.mp h.measured, fun ho tmp hmade hs hp out err info hr hl rate channels
      duration bitrate hread => ?_⟩
    have hm : measure P N t r.plan =
        .ok (factsOf t.output.length rate channels duration bitrate) := by
      rw [measure_probed hs hp hr hl]
      exact probedFacts_ok.mpr ⟨rate, channels, duration, bitrate, hread, rfl⟩
    have hans := h.answered
    rw [hrun] at hans
    cases hends with
    | unopened message d' hno => exact absurd ho hno
    | failed message d' hno => exact absurd hm (hno tmp _ hmade)
    | raised e d' he => cases hm.symm.trans he
    | url tmp facts d' _ _ hm' hf =>
      cases hm.symm.trans hm'
      rw [hf]
      by_contra hw
      obtain ⟨e, he⟩ := jsonResponse_error (resultUrl baseUrl traceId) hid
        (plain_resultUrl hid) hw
      rw [he] at hans
      cases hans
    | hex tmp facts d' _ _ hm' hf =>
      cases hm.symm.trans hm'
      rw [hf, writable_hex]
      by_contra hw
      rw [hexBody_error (Bool.not_eq_true _ ▸ hw)] at hans
      cases hans
  · intro h
    refine ⟨measure_iff.mpr h.readable, ?_, ?_⟩
    · rw [hrun]
      cases hends with
      | unopened message d' _ htemps => exact .failed message d' htemps
      | failed message d' _ htemps => exact .failed message d' htemps
      | raised e d' hm he =>
        exact absurd (measure_iff.mpr h.readable e hm) (by rw [he]; exact nofun)
      | url tmp facts d' ho hmade hm hf htemps =>
        have hw := h.facts htr ho hmade hm
        rw [jsonResponse_ok hid (plain_resultUrl hid) (hf ▸ hw)]
        exact .url facts d' hf htemps
      | hex tmp facts d' ho hmade hm hf htemps =>
        have hw := h.facts htr ho hmade hm
        have hbody := hexBody_ok (P := P) hid (writable_hex.mp (hf ▸ hw)) (readBlocks t.output)
        rw [hbody]
        exact .hex tmp facts _ d' hf htemps hbody
    · rw [hrun]
      exact fun a d' ha => (hclosed a d' ha).closedOnce

end

namespace Sample

/-- Conversions that read no text. -/
def numbers : Numbers platform where
  intOf _ := none
  floatOf _ := none
  trueDiv_finite _ _ _ _ := show oneAndHalf.isFinite = true by decide

/-- What `hexBody` is translated to. -/
def hexRequest : LocalRequest :=
  ⟨lit "[Verse]", lit "warm", 0, 9000, .hex, ⟨.wav, 32000, 2, none⟩, hexBody⟩

/-- An artifact, and no temp file. -/
def desk : Desk := ⟨withSidecar [], []⟩

end Sample

/-- An ffprobe that tells nothing: the facts are those of the plan. -/
theorem post_processing_handled_empty :
    PostHandled Sample.platform Sample.numbers (some (lit "/artifacts")) [] Sample.hexRequest
      (Sample.tools [123, 125]) (lit "0a") Sample.desk := by
  have hid : IsHex (lit "0a") := isHex_of_all rfl
  have htr : translate Sample.platform (.obj Sample.hexBody) = .ok Sample.hexRequest := rfl
  have hload : Sample.platform.load (orBraces [123, 125]) = .ok (.obj []) := rfl
  refine (post_processing_handled hid htr).mpr ⟨fun _ _ out err hout => ?_,
    fun _ _ _ _ _ out err info hout hl rate channels duration bitrate hread => ?_⟩
  · cases hout
    exact .inr ⟨.obj [], 32000, 2, ⟨0⟩, 0, hload, [], [], [], rfl, rfl, ⟨.inl rfl, nofun⟩,
      .int 32000, .int 2, .float ⟨0⟩, .int 0⟩
  · cases hout
    cases hload.symm.trans hl
    obtain ⟨kvs, streams, fmt, hkvs, hfmt, hstreams, hrate, hchannels, hduration, hbitrate⟩ := hread
    cases hkvs
    cases hfmt
    obtain ⟨hs | ⟨-, hs | hs⟩, -⟩ := hstreams <;> cases hs
    cases hrate
    cases hchannels
    cases hduration
    cases hbitrate
    exact ⟨intsOk_of_lt (n := 32000) (by decide), intsOk_of_lt (n := 2) (by decide),
      intsOk_of_lt (n := 1024000) (by decide), intsOk_of_lt (n := 4) (by decide), fun _ => rfl⟩

/-- An ffprobe that writes a list raises `AttributeError`, and the temp file stays. -/
theorem post_processing_raises :
    (¬ ∀ stdout, PostHandled Sample.platform Sample.numbers (some (lit "/artifacts")) []
      Sample.hexRequest (Sample.tools stdout) (lit "0a") Sample.desk) ∧
    ∃ e d', (deliver Sample.platform Sample.numbers (some (lit "/artifacts")) [] Sample.hexRequest
      (Sample.tools [91, 93]) (lit "0a")).run Sample.desk = .error (.exc (.noAttribute e)) d' ∧
        d'.temps = [lit "/tmp/s4_deliver_0.wav"] := by
  have hrun : ∃ e d', (deliver Sample.platform Sample.numbers (some (lit "/artifacts")) []
      Sample.hexRequest (Sample.tools [91, 93]) (lit "0a")).run Sample.desk =
        .error (.exc (.noAttribute e)) d' ∧ d'.temps = [lit "/tmp/s4_deliver_0.wav"] :=
    ⟨_, _, rfl, rfl⟩
  refine ⟨fun h => ?_, hrun⟩
  obtain ⟨e, d', hrun, -⟩ := hrun
  have hans := (h [91, 93]).answered
  rw [hrun] at hans
  cases hans

end Music3
