import Music3.Jobs.Artifacts
import Music3.Transcode.Ffmpeg

/-!
# Running ffmpeg and ffprobe

The Actions of `transcode/ffmpeg.py`: `transcode`, `_ffprobe` and `measure`. What the two programs
do is an input (`Tools`), and so are `int(s)` and `float(s)` of a text (`Numbers`).

`measure` reads ffprobe's JSON with fallbacks and conversions that raise whatever Python raises on
odd values. `Readable` tells, from the JSON, when they raise nothing; `measure_iff`: that is exactly
when `measure` returns, or raises what its callers handle.
-/

namespace Music3

open Py Posix StateExcept

/-- The exceptions of a delivery: those of the file calls, `TranscodeError`, `TypeError`,
`OverflowError` and `HTTPException`. -/
inductive PostExc where
  | exc (e : Exc)
  | transcode (message : Str)
  | type
  | overflow
  | http (status : Nat) (detail : Str)

/-- `except (TranscodeError, OSError)`. -/
def PostExc.isPostFailure : PostExc → Bool
  | transcode _ => true
  | exc e => e.isOSError
  | _ => false

/-- How `subprocess.run` of a program ends: it cannot be started, or it exits, with what it has
written. The error output is decoded with `errors="replace"`. -/
inductive ToolRun where
  | failed (e : Errno)
  | exited (code : Int) (stdout : Bytes) (stderr : Str)

/-- What the outside does in one delivery: the path of the temp file, the seek in the input, the two
programs, what the temp file holds after the first one, and whether it can be stat'ed. -/
structure Tools where
  mkstemp : Except Errno Str
  lseek : Option Errno
  ffmpeg : ToolRun
  output : Bytes
  output_lt : output.length < 2 ^ 63
  stat : Option Errno
  ffprobe : ToolRun

/-- `int(s)` and `float(s)` of a text, `none` for `ValueError`; and a quotient of two integers is
finite. -/
structure Numbers (P : Platform) where
  intOf : Str → Option Int
  floatOf : Str → Option PyFloat
  trueDiv_finite : ∀ n m, n < 2 ^ 63 → m ≠ 0 → (P.trueDiv n m).isFinite = true

/-- `transcode`, but for the arguments of the program. -/
def transcode (t : Tools) : Except PostExc Unit :=
  match t.lseek with
  | some e => .error (.exc (.os e))
  | none =>
    match t.ffmpeg with
    | .failed e =>
      .error (if e = .noent then .transcode (lit "ffmpeg not found") else .exc (.os e))
    | .exited code _ stderr =>
      if code ≠ 0 then
        .error (.transcode (lit "ffmpeg exited " ++ intText code ++ lit ": " ++ stderr.take 500))
      else .ok ()

/-- `os.stat(out_path).st_size`. -/
def Tools.size (t : Tools) : Except PostExc Int :=
  match t.stat with
  | some e => .error (.exc (.os e))
  | none => .ok t.output.length

/-- `_BYTES_PER_SAMPLE` of the samples in a headerless file. -/
def pcmBytesPerSample : Int := 2

/-! ## Reading values -/

/-- `v.get`, which only a `dict` has. -/
def getter : Json → Except PostExc Dict
  | .obj kvs => .ok kvs
  | v => .error (.exc (.noGet v))

/-- The items of `for s in v`. -/
def itemsOf : Json → Except PostExc (List Json)
  | .arr xs => .ok xs
  | .obj kvs => .ok (kvs.map fun p => .str p.1)
  | .str s => .ok (s.map fun c => .str [c])
  | _ => .error .type

/-- `a or b`. -/
def orElse (a b : Json) : Json := if a.truthy then a else b

/-- `v == "audio"`. -/
def isAudioType : Json → Bool
  | .str s => s = lit "audio"
  | _ => false

/-- `next((s for s in streams if s.get("codec_type") == "audio"), {})`. -/
def firstAudio : List Json → Except PostExc Dict
  | [] => return []
  | v :: vs => do
    let s ← getter v
    if isAudioType (Dict.get s (lit "codec_type")) then return s
    firstAudio vs

/-- `float(n)` rounds to a float, and does not overflow. -/
def fitsFloat (n : Int) : Bool := n.natAbs < 2 ^ 1024 - 2 ^ 970

section
variable (P : Platform) (N : Numbers P)

/-- `int(v)`. -/
def pyInt : Json → Except PostExc Int
  | .bool b => .ok (if b then 1 else 0)
  | .int n => .ok n
  | .float x =>
    if x.isFinite then .ok (P.truncate x)
    else if x = .inf ∨ x = .negInf then .error .overflow
    else .error (.exc (.value (lit "cannot convert float NaN to integer")))
  | .str s =>
    match N.intOf s with
    | some n => .ok n
    | none => .error (.exc (.value (lit "invalid literal for int() with base 10: " ++
        P.reprText (.str s))))
  | _ => .error .type

/-- `float(v)`. -/
def pyFloat : Json → Except PostExc PyFloat
  | .bool b => .ok (P.ofInt (if b then 1 else 0))
  | .int n => if fitsFloat n then .ok (P.ofInt n) else .error .overflow
  | .float x => .ok x
  | .str s =>
    match N.floatOf s with
    | some x => .ok x
    | none => .error (.exc (.value (lit "could not convert string to float: " ++
        P.reprText (.str s))))
  | _ => .error .type

/-- `proc.stdout or b"{}"`. -/
def orBraces (stdout : Bytes) : Bytes := if stdout = [] then [123, 125] else stdout

/-- `_ffprobe`. -/
def ffprobe (t : Tools) : Except PostExc Json :=
  match t.ffprobe with
  | .failed e =>
    .error (if e = .noent then .transcode (lit "ffprobe not found") else .exc (.os e))
  | .exited code stdout _ =>
    if code ≠ 0 then .error (.transcode (lit "ffprobe exited " ++ intText code))
    else
      match P.load (orBraces stdout) with
      | .ok info => .ok info
      | .error .value => .error (.transcode (lit "ffprobe emitted unparseable JSON: " ++
          (Exc.ofLoad .value).text P))
      | .error .recursion => .error (.exc .recursion)

/-- The facts of a headerless file. -/
def pcmFacts (plan : TranscodePlan) (size : Int) : AudioFacts :=
  let frameBytes := plan.sampleRate * plan.channels * pcmBytesPerSample
  { durationSeconds := if frameBytes ≠ 0 then P.trueDiv size.toNat frameBytes.toNat else ⟨0⟩
    sampleRate := plan.sampleRate
    channels := plan.channels
    bitrate := plan.sampleRate * plan.channels * 16
    size }

/-- The facts that `measure` reads from ffprobe's JSON. -/
def probedFacts (plan : TranscodePlan) (size : Int) (info : Json) : Except PostExc AudioFacts := do
  let info ← getter info
  let streams ← itemsOf (Dict.getD info (lit "streams") (.arr []))
  let stream ← firstAudio streams
  let sampleRate ← pyInt P N (orElse (Dict.get stream (lit "sample_rate")) (.int plan.sampleRate))
  let channels ← pyInt P N (orElse (Dict.get stream (lit "channels")) (.int plan.channels))
  let fmt ← getter (Dict.getD info (lit "format") (.obj []))
  let durationSeconds ← pyFloat P N (orElse (orElse (Dict.get fmt (lit "duration"))
    (Dict.get stream (lit "duration"))) (.float ⟨0⟩))
  let bitrate ← pyInt P N (orElse (orElse (Dict.get fmt (lit "bit_rate"))
    (Dict.get stream (lit "bit_rate"))) (.int 0))
  return {
    durationSeconds
    sampleRate
    channels
    bitrate := if bitrate ≠ 0 then bitrate else sampleRate * channels * 16
    size }

/-- `measure`. -/
def measure (t : Tools) (plan : TranscodePlan) : Except PostExc AudioFacts := do
  let size ← t.size
  if plan.container = .pcm then return pcmFacts P plan size
  let info ← ffprobe P t
  probedFacts P N plan size info

/-! ## What can be read -/

/-- `int(v)` is `n`. -/
inductive IntFrom : Json → Int → Prop
  | bool (b : Bool) : IntFrom (.bool b) (if b then 1 else 0)
  | int (n : Int) : IntFrom (.int n) n
  | float (x : PyFloat) : x.isFinite = true → IntFrom (.float x) (P.truncate x)
  | str (s : Str) (n : Int) : N.intOf s = some n → IntFrom (.str s) n

/-- `float(v)` is `x`. -/
inductive FloatFrom : Json → PyFloat → Prop
  | bool (b : Bool) : FloatFrom (.bool b) (P.ofInt (if b then 1 else 0))
  | int (n : Int) : fitsFloat n = true → FloatFrom (.int n) (P.ofInt n)
  | float (x : PyFloat) : FloatFrom (.float x) x
  | str (s : Str) (x : PyFloat) : N.floatOf s = some x → FloatFrom (.str s) x

/-- An audio stream. -/
def isAudioStream : Json → Bool
  | .obj s => isAudioType (Dict.get s (lit "codec_type"))
  | _ => false

/-- The first audio stream, or `{}`. -/
def audioStream (streams : List Json) : Dict :=
  ((streams.find? isAudioStream).bind Json.asDict).getD []

/-- The streams of ffprobe's JSON: a list with nothing but objects before its first audio stream, or
something empty. -/
def Streams (v : Json) (streams : List Json) : Prop :=
  (v = .arr streams ∨ streams = [] ∧ (v = .obj [] ∨ v = .str [])) ∧
    ∀ x ∈ streams.takeWhile fun x => !isAudioStream x, ∃ s, x = .obj s

/-- The rate, the channels, the duration and the bit rate can be read from ffprobe's JSON: it is an
object, and so is its `format`, its streams are `Streams`, and the fields that are there (those
that are not null, empty or zero) are numbers for `int()` and `float()`. -/
def Readable (plan : TranscodePlan) (info : Json) (rate channels : Int) (duration : PyFloat)
    (bitrate : Int) : Prop :=
  ∃ kvs streams fmt, info = .obj kvs ∧ Dict.getD kvs (lit "format") (.obj []) = .obj fmt ∧
    Streams (Dict.getD kvs (lit "streams") (.arr [])) streams ∧
    IntFrom P N (orElse (Dict.get (audioStream streams) (lit "sample_rate"))
      (.int plan.sampleRate)) rate ∧
    IntFrom P N (orElse (Dict.get (audioStream streams) (lit "channels"))
      (.int plan.channels)) channels ∧
    FloatFrom P N (orElse (orElse (Dict.get fmt (lit "duration"))
      (Dict.get (audioStream streams) (lit "duration"))) (.float ⟨0⟩)) duration ∧
    IntFrom P N (orElse (orElse (Dict.get fmt (lit "bit_rate"))
      (Dict.get (audioStream streams) (lit "bit_rate"))) (.int 0)) bitrate

/-- The facts of a file whose values have been read. -/
def factsOf (size rate channels : Int) (duration : PyFloat) (bitrate : Int) : AudioFacts where
  durationSeconds := duration
  sampleRate := rate
  channels
  bitrate := if bitrate ≠ 0 then bitrate else rate * channels * 16
  size

end

section
variable {P : Platform} {N : Numbers P} {v : Json} {e : PostExc}

theorem pyInt_ok {n : Int} : pyInt P N v = .ok n ↔ IntFrom P N v n := by
  constructor
  · intro h
    cases v with
    | null | arr _ | obj _ => cases h
    | bool b => cases h; exact .bool b
    | int n => cases h; exact .int n
    | float x =>
      rw [pyInt] at h
      split at h
      · rename_i hx; cases h; exact .float x hx
      · split at h <;> cases h
    | str s =>
      rw [pyInt] at h
      split at h
      · rename_i hn; cases h; exact .str s _ hn
      · cases h
  · rintro (b | n | ⟨x, hx⟩ | ⟨s, n, hs⟩)
    · rfl
    · rfl
    · rw [pyInt, if_pos hx]
    · rw [pyInt, hs]

theorem pyInt_error (h : pyInt P N v = .error e) : e.isPostFailure = false := by
  cases v with
  | null | arr _ | obj _ => cases h; rfl
  | bool b | int n => cases h
  | float x =>
    rw [pyInt] at h
    split at h
    · cases h
    · split at h <;> cases h <;> rfl
  | str s =>
    rw [pyInt] at h
    split at h <;> cases h
    rfl

theorem pyFloat_ok {x : PyFloat} : pyFloat P N v = .ok x ↔ FloatFrom P N v x := by
  constructor
  · intro h
    cases v with
    | null | arr _ | obj _ => cases h
    | bool b => cases h; exact .bool b
    | int n =>
      rw [pyFloat] at h
      split at h
      · rename_i hn; cases h; exact .int n hn
      · cases h
    | float x => cases h; exact .float x
    | str s =>
      rw [pyFloat] at h
      split at h
      · rename_i hx; cases h; exact .str s _ hx
      · cases h
  · rintro (b | ⟨n, hn⟩ | x | ⟨s, x, hs⟩)
    · rfl
    · rw [pyFloat, if_pos hn]
    · rfl
    · rw [pyFloat, hs]

theorem pyFloat_error (h : pyFloat P N v = .error e) : e.isPostFailure = false := by
  cases v with
  | null | arr _ | obj _ => cases h; rfl
  | bool b | float x => cases h
  | int n =>
    rw [pyFloat] at h
    split at h <;> cases h
    rfl
  | str s =>
    rw [pyFloat] at h
    split at h <;> cases h
    rfl

theorem getter_ok {kvs : Dict} : getter v = .ok kvs ↔ v = .obj kvs := by
  constructor
  · intro h
    cases v <;> cases h
    rfl
  · rintro rfl
    rfl

theorem getter_error (h : getter v = .error e) : e.isPostFailure = false := by
  cases v <;> cases h <;> rfl

theorem itemsOf_error (h : itemsOf v = .error e) : e.isPostFailure = false := by
  cases v <;> cases h <;> rfl

theorem firstAudio_error {vs : List Json} (h : firstAudio vs = .error e) :
    e.isPostFailure = false := by
  induction vs with
  | nil => cases h
  | cons v vs ih =>
    rcases error_of_bind h with h | ⟨s, -, h⟩
    · exact getter_error h
    · split at h
      · cases h
      · exact ih h

theorem firstAudio_obj (s : Dict) (vs : List Json) : firstAudio (.obj s :: vs) =
    if isAudioStream (.obj s) then .ok s else firstAudio vs := rfl

/-- The search reads objects only, and finds the audio stream. -/
theorem firstAudio_ok {vs : List Json} {s : Dict} : firstAudio vs = .ok s ↔
    s = audioStream vs ∧ ∀ x ∈ vs.takeWhile fun x => !isAudioStream x, ∃ s, x = .obj s := by
  induction vs with
  | nil => exact ⟨fun h => (by cases h; exact ⟨rfl, nofun⟩), fun h => by rw [h.1]; rfl⟩
  | cons v vs ih =>
    unfold audioStream at ih ⊢
    cases hv : isAudioStream v with
    | true =>
      obtain ⟨kvs, rfl⟩ : ∃ kvs, v = .obj kvs := by
        cases v <;> first | exact ⟨_, rfl⟩ | cases hv
      rw [firstAudio_obj, if_pos hv, List.find?_cons_of_pos hv,
        List.takeWhile_cons_of_neg (by rw [hv]; decide)]
      refine ⟨fun h => (by cases h; exact ⟨rfl, nofun⟩), fun h => ?_⟩
      rw [h.1]
      rfl
    | false =>
      rw [List.find?_cons_of_neg (by rw [hv]; decide), List.takeWhile_cons_of_pos (by rw [hv]; rfl),
        List.forall_mem_cons]
      have hcons : firstAudio (v :: vs) = .ok s ↔ (∃ s, v = .obj s) ∧ firstAudio vs = .ok s := by
        constructor
        · intro h
          obtain ⟨kvs, hk, -⟩ := ok_of_bind h
          cases getter_ok.mp hk
          rw [firstAudio_obj, if_neg (by rw [hv]; decide)] at h
          exact ⟨⟨kvs, rfl⟩, h⟩
        · rintro ⟨⟨kvs, rfl⟩, h⟩
          rw [firstAudio_obj, if_neg (by rw [hv]; decide), h]
      rw [hcons, ih]
      exact ⟨fun ⟨h, hs, hvs⟩ => ⟨hs, h, hvs⟩, fun ⟨hs, h, hvs⟩ => ⟨h, hs, hvs⟩⟩

/-! ## `measure` -/

section
variable {plan : TranscodePlan} {size : Int} {info : Json}

/-- The streams that the search reads, if it raises nothing. -/
theorem streams_iff {s : Dict} : (∃ streams, itemsOf v = .ok streams ∧ firstAudio streams = .ok s) ↔
    ∃ streams, Streams v streams ∧ s = audioStream streams := by
  constructor
  · rintro ⟨streams, hitems, hfirst⟩
    obtain ⟨rfl, hall⟩ := firstAudio_ok.mp hfirst
    -- the items of a text or of an object are texts
    have htexts : (∀ x ∈ streams, ∃ t, x = .str t) → streams = [] := by
      intro htext
      cases streams with
      | nil => rfl
      | cons x xs =>
        obtain ⟨t, rfl⟩ := htext x List.mem_cons_self
        obtain ⟨s, hs⟩ := hall (.str t) (by
          rw [List.takeWhile_cons_of_pos rfl]
          exact List.mem_cons_self)
        cases hs
    refine ⟨streams, ⟨?_, hall⟩, rfl⟩
    cases v with
    | arr xs => cases hitems; exact .inl rfl
    | obj kvs =>
      cases hitems
      have hnil := htexts fun x hx => by
        obtain ⟨p, -, rfl⟩ := List.mem_map.mp hx
        exact ⟨_, rfl⟩
      exact .inr ⟨hnil, .inl (congrArg _ (List.map_eq_nil_iff.mp hnil))⟩
    | str t =>
      cases hitems
      have hnil := htexts fun x hx => by
        obtain ⟨c, -, rfl⟩ := List.mem_map.mp hx
        exact ⟨_, rfl⟩
      exact .inr ⟨hnil, .inr (congrArg _ (List.map_eq_nil_iff.mp hnil))⟩
    | _ => cases hitems
  · rintro ⟨streams, ⟨hv, hall⟩, rfl⟩
    refine ⟨streams, ?_, firstAudio_ok.mpr ⟨rfl, hall⟩⟩
    rcases hv with rfl | ⟨rfl, rfl | rfl⟩ <;> rfl

theorem probedFacts_ok {facts : AudioFacts} : probedFacts P N plan size info = .ok facts ↔
    ∃ rate channels duration bitrate, Readable P N plan info rate channels duration bitrate ∧
      facts = factsOf size rate channels duration bitrate := by
  constructor
  · intro h
    obtain ⟨kvs, hinfo, h⟩ := ok_of_bind h
    obtain ⟨streams, hitems, h⟩ := ok_of_bind h
    obtain ⟨s, hfirst, h⟩ := ok_of_bind h
    obtain ⟨rate, hrate, h⟩ := ok_of_bind h
    obtain ⟨channels, hchannels, h⟩ := ok_of_bind h
    obtain ⟨fmt, hfmt, h⟩ := ok_of_bind h
    obtain ⟨duration, hduration, h⟩ := ok_of_bind h
    obtain ⟨bitrate, hbitrate, h⟩ := ok_of_bind h
    cases h
    obtain ⟨streams', hstreams, rfl⟩ := streams_iff.mp ⟨streams, hitems, hfirst⟩
    exact ⟨rate, channels, duration, bitrate, ⟨kvs, streams', fmt, getter_ok.mp hinfo,
      getter_ok.mp hfmt, hstreams, pyInt_ok.mp hrate, pyInt_ok.mp hchannels,
      pyFloat_ok.mp hduration, pyInt_ok.mp hbitrate⟩, rfl⟩
  · rintro ⟨rate, channels, duration, bitrate, ⟨kvs, streams, fmt, rfl, hfmt, hstreams, hrate,
      hchannels, hduration, hbitrate⟩, rfl⟩
    obtain ⟨items, hitems, hfirst⟩ := streams_iff.mpr ⟨streams, hstreams, rfl⟩
    unfold probedFacts
    simp only [getter, hitems, hfirst, pyInt_ok.mpr hrate, pyInt_ok.mpr hchannels, hfmt,
      pyFloat_ok.mpr hduration, pyInt_ok.mpr hbitrate, bind, Except.bind, pure, Except.pure]
    rfl

theorem probedFacts_error (h : probedFacts P N plan size info = .error e) :
    e.isPostFailure = false := by
  rcases error_of_bind h with h | ⟨_, -, h⟩
  · exact getter_error h
  rcases error_of_bind h with h | ⟨_, -, h⟩
  · exact itemsOf_error h
  rcases error_of_bind h with h | ⟨_, -, h⟩
  · exact firstAudio_error h
  rcases error_of_bind h with h | ⟨_, -, h⟩
  · exact pyInt_error h
  rcases error_of_bind h with h | ⟨_, -, h⟩
  · exact pyInt_error h
  rcases error_of_bind h with h | ⟨_, -, h⟩
  · exact getter_error h
  rcases error_of_bind h with h | ⟨_, -, h⟩
  · exact pyFloat_error h
  rcases error_of_bind h with h | ⟨_, -, h⟩
  · exact pyInt_error h
  · cases h

variable (P N) in
/-- How `measure` ends. -/
inductive MeasureEnds (t : Tools) (plan : TranscodePlan) : Except PostExc AudioFacts → Prop
  | handled (e : PostExc) : e.isPostFailure = true →
      (t.stat = none → plan.container ≠ .pcm → ∀ out err, t.ffprobe = .exited 0 out err →
        P.load (orBraces out) = .error .value) → MeasureEnds t plan (.error e)
  | pcm : t.stat = none → plan.container = .pcm →
      MeasureEnds t plan (.ok (pcmFacts P plan t.output.length))
  | probed (out : Bytes) (err : Str) (info : Json) : t.stat = none → plan.container ≠ .pcm →
      t.ffprobe = .exited 0 out err → P.load (orBraces out) = .ok info →
      MeasureEnds t plan (probedFacts P N plan t.output.length info)
  | tooDeep (out : Bytes) (err : Str) : t.stat = none → plan.container ≠ .pcm →
      t.ffprobe = .exited 0 out err → P.load (orBraces out) = .error .recursion →
      MeasureEnds t plan (.error (.exc .recursion))

theorem measure_ends (t : Tools) (plan : TranscodePlan) :
    MeasureEnds P N t plan (measure P N t plan) := by
  unfold measure Tools.size
  cases hstat : t.stat with
  | some e => exact .handled _ rfl fun h => by rw [hstat] at h; cases h
  | none =>
    by_cases hpcm : plan.container = .pcm
    · have := MeasureEnds.pcm (P := P) (N := N) hstat hpcm
      simpa only [hpcm, bind, Except.bind, pure, Except.pure, if_true] using this
    have hprobe : MeasureEnds P N t plan ((ffprobe P t).bind fun info =>
        probedFacts P N plan t.output.length info) := by
      unfold ffprobe
      cases hrun : t.ffprobe with
      | failed e =>
        refine .handled _ ?_ fun _ _ out err h => by rw [hrun] at h; cases h
        split <;> rfl
      | exited code out err =>
        by_cases hcode : code = 0
        · subst hcode
          simp only [ne_eq, not_true_eq_false, ↓reduceIte]
          cases hload : P.load (orBraces out) with
          | ok info => exact .probed out err info hstat hpcm hrun hload
          | error je =>
            cases je with
            | recursion => exact .tooDeep out err hstat hpcm hrun hload
            | value =>
              refine .handled _ rfl fun _ _ out' err' h => ?_
              rw [hrun] at h
              cases h
              exact hload
        · simp only [ne_eq, hcode, not_false_eq_true, ↓reduceIte]
          refine .handled _ rfl fun _ _ out' err' h => ?_
          rw [hrun] at h
          cases h
          exact absurd rfl hcode
    simpa only [hpcm, bind, Except.bind, if_false] using hprobe

variable (P N) in
/-- What ffprobe has written is no JSON, or JSON that can be read. -/
def ProbeReadable (plan : TranscodePlan) (stdout : Bytes) : Prop :=
  P.load (orBraces stdout) = .error .value ∨ ∃ info rate channels duration bitrate,
    P.load (orBraces stdout) = .ok info ∧ Readable P N plan info rate channels duration bitrate

/-- `measure` returns, or raises what its callers handle, if and only if ffprobe's output can be
read, where it is asked for. -/
theorem measure_iff {t : Tools} {plan : TranscodePlan} :
    (∀ e, measure P N t plan = .error e → e.isPostFailure = true) ↔
      (t.stat = none → plan.container ≠ .pcm → ∀ out err, t.ffprobe = .exited 0 out err →
        ProbeReadable P N plan out) := by
  have hends := measure_ends (P := P) (N := N) t plan
  generalize measure P N t plan = r at hends
  cases hends with
  | handled e he h =>
    exact ⟨fun _ hs hp out err hr => .inl (h hs hp out err hr),
      fun _ e' h' => by cases h'; exact he⟩
  | pcm _ hp => exact ⟨fun _ _ h => absurd hp h, fun _ e h => by cases h⟩
  | tooDeep out err hs hp hr hload =>
    refine ⟨fun h => ?_, fun h => ?_⟩
    · exact absurd (h _ rfl) nofun
    · rcases h hs hp out err hr with h | ⟨_, _, _, _, _, h, -⟩ <;> rw [hload] at h <;> cases h
  | probed out err info hs hp hr hload =>
    cases hfacts : probedFacts P N plan t.output.length info with
    | ok facts =>
      obtain ⟨r, c, d, b, hread, -⟩ := probedFacts_ok.mp hfacts
      refine ⟨fun _ _ _ out' err' hr' => ?_, fun _ e h => by cases h⟩
      rw [hr] at hr'
      cases hr'
      exact .inr ⟨info, r, c, d, b, hload, hread⟩
    | error e =>
      have he := probedFacts_error hfacts
      refine ⟨fun h => ?_, fun h => ?_⟩
      · rw [h e rfl] at he
        cases he
      · rcases h hs hp out err hr with h | ⟨info', r, c, d, b, h, hread⟩
        · rw [hload] at h
          cases h
        · rw [hload] at h
          cases h
          rw [probedFacts_ok.mpr ⟨r, c, d, b, hread, rfl⟩] at hfacts
          cases hfacts

end

end

end Music3
