import Music3.Jobs.RealJson
import Music3.Page.Form

/-!
# The form, filled in again

`rerunFromSidecar`: what the page makes of a stored sidecar.

`rerun_round_trip`: a form goes to the server as a body, is recorded in the sidecar of its job, and
comes back from there; the form that is filled in has the same body, byte for byte. Its length is
whole seconds, so the rounding to seconds changes no length that a form can have sent.
-/

namespace Music3

open Py Posix StateExcept Rounding

/-! ## What a browser makes of JSON -/

/-- A number of JavaScript. -/
inductive JsNumber where
  | finite (q : ℚ)
  | infinite (negative : Bool)
  | nan

/-- What the page takes from the browser: `Response.json`, which reads each JSON text as
`json.loads` does, and `String` and `Number`, built-ins of the language. An `int` is the number nearest
to it. That `String` raises an exception, for an object whose `toString` is no function, is not
covered. -/
structure Browser (P : Platform) where
  json : Bytes → Option Json
  text : Json → Str
  number : Json → JsNumber
  json_text : ∀ b t v, decodeUtf8 b = some t → Rfc8259.IsText t → P.load b = .ok v → json b = some v
  text_whole : ∀ v, Whole (text v)
  text_str : ∀ s, Whole s → text (.str s) = s
  text_int : ∀ n v : Nat, toNumber n = some v → text (.int n) = numberText v
  number_int : ∀ n : Nat, n < 2 ^ 53 → number (.int n) = .finite n

/-- `!v`, negated. -/
def jsTruthy : Json → Bool
  | .arr _ | .obj _ => true
  | v => v.truthy

/-- `v.k`; a `null` and what is missing are `none`. -/
def property (v : Json) (k : Str) : Option Json :=
  match v.at? [k] with
  | some .null => none
  | x => x

/-! ## Line breaks -/

theorem normalizeNewlines_pair (t : Str) :
    normalizeNewlines (cp '\r' :: cp '\n' :: t) = cp '\n' :: normalizeNewlines t := by
  rw [normalizeNewlines, if_pos rfl, if_pos rfl]

theorem normalizeNewlines_cons {c : CodePoint} {t : Str}
    (h : ¬ (c = cp '\r' ∧ t.head? = some (cp '\n'))) :
    normalizeNewlines (c :: t) = (if c = cp '\r' then cp '\n' else c) :: normalizeNewlines t := by
  cases t with
  | nil => rfl
  | cons d t =>
    rw [normalizeNewlines]
    by_cases hc : c = cp '\r'
    · have hd : d ≠ cp '\n' := fun e => h ⟨hc, congrArg some e⟩
      rw [if_pos hc, if_pos hc, if_neg hd]
    · rw [if_neg hc, if_neg hc]

/-- A text, from its end, with its line breaks. -/
theorem newlines_induct {motive : Str → Prop} (nil : motive [])
    (pair : ∀ t, motive t → motive (cp '\r' :: cp '\n' :: t))
    (cons : ∀ c t, ¬ (c = cp '\r' ∧ t.head? = some (cp '\n')) → motive t → motive (c :: t)) (s : Str) :
    motive s := by
  induction s using normalizeNewlines.induct with
  | case1 => exact nil
  | case2 c => exact cons c [] (by simp) nil
  | case3 t ih => exact pair t ih
  | case4 d t hd ih => exact cons _ _ (fun h => hd (Option.some.inj h.2)) ih
  | case5 c d t hc ih => exact cons _ _ (fun h => hc h.1) ih

theorem normalizeNewlines_lines (s : Str) : cp '\r' ∉ normalizeNewlines s := by
  induction s using newlines_induct with
  | nil => exact List.not_mem_nil
  | pair t ih =>
    rw [normalizeNewlines_pair, List.mem_cons, not_or]
    exact ⟨by decide, ih⟩
  | cons c t h ih =>
    rw [normalizeNewlines_cons h, List.mem_cons, not_or]
    refine ⟨?_, ih⟩
    split
    · decide
    · rename_i hc
      exact fun e => hc e.symm

theorem normalizeNewlines_self {s : Str} (h : cp '\r' ∉ s) : normalizeNewlines s = s := by
  induction s with
  | nil => rfl
  | cons c t ih =>
    rw [List.mem_cons, not_or] at h
    have hc : c ≠ cp '\r' := fun e => h.1 e.symm
    rw [normalizeNewlines_cons fun h => hc h.1, if_neg hc, ih h.2]

/-- A line break takes no part in a surrogate pair. -/
theorem whole_cons_of {c : CodePoint} {t u : Str} (h : Whole (c :: t)) (hu : Whole u)
    (hhead : ∀ d, u.head? = some d → isLow d.val = true → t.head? = some d) : Whole (c :: u) := by
  cases u with
  | nil => exact whole_singleton c
  | cons d u =>
    refine whole_cons_cons.mpr ⟨fun hpair => ?_, hu⟩
    obtain ⟨t, rfl⟩ : ∃ t', t = d :: t' := by
      have := hhead d rfl hpair.2
      cases t with
      | nil => cases this
      | cons e t => exact ⟨t, by rw [Option.some.inj this]⟩
    exact (whole_cons_cons.mp h).1 hpair

theorem whole_tail {c : CodePoint} {t : Str} (h : Whole (c :: t)) : Whole t := by
  cases t with
  | nil => exact whole_nil
  | cons d t => exact (whole_cons_cons.mp h).2

theorem normalizeNewlines_head (s : Str) (d : CodePoint)
    (h : (normalizeNewlines s).head? = some d) : d = cp '\n' ∨ s.head? = some d := by
  induction s using newlines_induct with
  | nil => cases h
  | pair t _ =>
    rw [normalizeNewlines_pair] at h
    exact .inl (Option.some.inj h).symm
  | cons c t hc _ =>
    rw [normalizeNewlines_cons hc] at h
    split at h
    · exact .inl (Option.some.inj h).symm
    · exact .inr h

theorem whole_normalizeNewlines {s : Str} (h : Whole s) : Whole (normalizeNewlines s) := by
  have hbreak (t : Str) (ht : Whole t) : Whole (cp '\n' :: t) := by
    cases t with
    | nil => exact whole_singleton _
    | cons d t =>
      refine whole_cons_cons.mpr ⟨fun hpair => ?_, ht⟩
      exact absurd hpair.1 (by decide)
  induction s using newlines_induct with
  | nil => exact whole_nil
  | pair t ih =>
    rw [normalizeNewlines_pair]
    exact hbreak _ (ih (whole_tail (whole_tail h)))
  | cons c t hc ih =>
    have ih := ih (whole_tail h)
    rw [normalizeNewlines_cons hc]
    split
    · exact hbreak _ ih
    · refine whole_cons_of h ih fun d hd hlow => ?_
      obtain rfl | hd := normalizeNewlines_head t d hd
      · exact absurd hlow (by decide)
      · exact hd

/-- `field.value = s`, of a textarea. -/
def TextArea.set (s : Str) (h : Whole s) : TextArea where
  value := normalizeNewlines s
  whole := whole_normalizeNewlines h
  lines := normalizeNewlines_lines s

/-- The length that is put into the form, of a number of frames. -/
def rerunSeconds : JsNumber → Str
  | .finite frames =>
    natText (min Form.secondsMax (max Form.secondsMin
      ⌊frames / Form.framesPerSecond + 1 / 2⌋)).toNat
  | .infinite negative => natText (if negative then Form.secondsMin else Form.secondsMax).toNat
  | .nan => lit "NaN"

/-- `rerunFromSidecar`, after its await: the form, or the text of the row's error. `sc` is what
`fetchSidecar` has given, if it has not failed. -/
def rerunFromSidecar {P : Platform} (B : Browser P) (sc : Option Json) : Except Str Form :=
  match (sc.filter jsTruthy).bind fun sc => ((sc.at? [lit "request"]).filter jsTruthy) with
  | none => .error (lit "cannot re-run: sidecar unavailable")
  | some r =>
    let value (k : Str) (default : Json) := (property r k).getD default
    .ok {
      input := .set _ (B.text_whole (value (lit "input") (.str [])))
      instructions := .set _ (B.text_whole (value (lit "instructions") (.str [])))
      seed := .set (B.text (value (lit "seed") (.str (lit "0"))))
      maxSeconds := .set (rerunSeconds (B.number (value (lit "max_new_tokens") (.int 7500)))) }

/-! ## A recorded request -/

/-- What the page reads of a request that has been recorded. -/
def requestFacts (submission : Submission) : List (Str × Json) := [
  (lit "input", .str submission.input),
  (lit "instructions", .str submission.instructions),
  (lit "seed", .int submission.seed),
  (lit "max_new_tokens", .int submission.maxNewTokens)]

/-- A sidecar that tells the submission. -/
def Tells (v : Json) (submission : Submission) : Prop :=
  ∀ p ∈ requestFacts submission, v.at? [lit "request", p.1] = some p.2

theorem at?_two (v : Json) (j k : Str) :
    v.at? [j, k] = (v.at? [j]).bind fun w => w.at? [k] := by
  cases v with
  | obj kvs => cases h : Dict.get? kvs j <;> simp [Json.at?, h]
  | _ => rfl

theorem jsTruthy_of_at? {v x : Json} {k : Str} (h : v.at? [k] = some x) : jsTruthy v = true := by
  cases v with
  | obj kvs => rfl
  | _ => cases h

theorem property_eq {v x : Json} {k : Str} (h : v.at? [k] = some x) (hx : x ≠ .null) :
    property v k = some x := by
  rw [property, h]
  split
  · rename_i e
    exact absurd (Option.some.inj e) hx
  · rfl

theorem TextArea.set_eq {s t : Str} (h : s = t) (hs : Whole s) (ht : Whole t) :
    TextArea.set s hs = TextArea.set t ht := by
  subst h
  rfl

/-- A textarea is set to what it shows. -/
theorem TextArea.set_value (a : TextArea) (h : Whole a.value) : TextArea.set a.value h = a := by
  have := normalizeNewlines_self a.lines
  cases a
  simp only [TextArea.set, this]

/-- The form that a recorded request fills in. -/
theorem rerun_recorded {P : Platform} (B : Browser P) {v : Json} {submission : Submission}
    (h : Tells v submission) (hi : Whole submission.input) (hn : Whole submission.instructions)
    {seed frames n : Nat} (hseed : submission.seed = n) (hnumber : toNumber n = some seed)
    (hframes : submission.maxNewTokens = frames) (hlt : frames < 2 ^ 53) :
    rerunFromSidecar B (some v) = .ok {
      input := .set submission.input hi
      instructions := .set submission.instructions hn
      seed := .set (numberText seed)
      maxSeconds := .set (rerunSeconds (.finite frames)) } := by
  simp only [Tells, requestFacts, List.forall_mem_cons, List.not_mem_nil, false_implies,
    implies_true, and_true, at?_two] at h
  obtain ⟨hinput, hinstructions, hs, hm⟩ := h
  obtain ⟨r, hr, hinput⟩ := Option.bind_eq_some_iff.mp hinput
  rw [hr, Option.bind_some] at hinstructions hs hm
  have hrequest : ((some v).filter jsTruthy).bind
      (fun sc => (sc.at? [lit "request"]).filter jsTruthy) = some r := by
    rw [Option.filter_some, if_pos (jsTruthy_of_at? hr), Option.bind_some, hr, Option.filter_some,
      if_pos (jsTruthy_of_at? hinput)]
  simp only [rerunFromSidecar, hrequest, property_eq hinput (by simp),
    property_eq hinstructions (by simp), property_eq hs (by simp), property_eq hm (by simp),
    Option.getD_some, Except.ok.injEq, Form.mk.injEq]
  rw [hseed, hframes, B.text_int n seed hnumber, B.number_int frames hlt]
  exact ⟨TextArea.set_eq (B.text_str _ hi) _ _, TextArea.set_eq (B.text_str _ hn) _ _, rfl, rfl⟩

/-! ## The way back into the form -/

theorem isFloatingPoint_digits {s : Str} (h : ∀ c ∈ s, isDigit c = true) (hne : s ≠ []) :
    isFloatingPoint s = true := by
  simp [isFloatingPoint, scanSign_digits h, spanDigits_all h, scanFrac, scanExp, hne]

theorem NumberField.set_digits {s : Str} (h : ∀ c ∈ s, isDigit c = true) (hne : s ≠ []) :
    (NumberField.set s).value = s := by
  rw [NumberField.set, dif_pos (isFloatingPoint_digits h hne)]

theorem validateSeconds_natText {k : Nat} (h : 10 ≤ k) (h' : k ≤ 360) :
    validateSeconds (natText k) = .ok k := by
  have hround : round 52 k = k := round_of_lt (by omega)
  have hparse : parseWholeNumber (natText k) = some (.ofNat k) := by
    refine parseWholeNumber_digits (natText_digits k) (natText_ne_nil k) ?_
    rw [natOf_natText, toNumber, hround, if_pos (by omega)]
  have hrange : Form.secondsMin ≤ Int.ofNat k ∧ Int.ofNat k ≤ Form.secondsMax := by
    simp only [Form.secondsMin, Form.secondsMax, Int.ofNat_eq_natCast]
    omega
  simp only [validateSeconds, hparse]
  rw [if_pos hrange]
  rfl

/-- The frames of whole seconds give these seconds. -/
theorem rerunSeconds_whole {k : Nat} (h : 10 ≤ k) (h' : k ≤ 360) :
    rerunSeconds (.finite (25 * k : Nat)) = natText k := by
  have hfloor : ⌊((25 * k : Nat) : ℚ) / (Form.framesPerSecond : ℚ) + 1 / 2⌋ = k := by
    have hq : ((25 * k : Nat) : ℚ) / (Form.framesPerSecond : ℚ) = (k : ℤ) := by
      rw [Form.framesPerSecond]
      push_cast
      ring
    rw [hq, Int.floor_intCast_add]
    norm_num
  rw [rerunSeconds, hfloor, Form.secondsMin, Form.secondsMax]
  congr 1
  omega

/-- A form whose seed and length are those of a form that has been submitted, with its texts. -/
theorem Form.Submitted.again {f f' : Form} {seed k : Nat} (h : f.Submitted seed k)
    (hlt : (shortest 52 seed).1 < 10 ^ 21) (hi : f'.input = f.input)
    (hn : f'.instructions = f.instructions) (hs : f'.seed.value = numberText seed)
    (hm : f'.maxSeconds.value = natText k) : f'.Submitted seed k where
  input := hi ▸ h.input
  instructions := hn ▸ h.instructions
  seed := hs ▸ rerun_same h.seed hlt
  seconds := by
    obtain ⟨-, h10, h360⟩ := validateSeconds_ok h.seconds
    rw [hm, validateSeconds_natText (by omega) (by omega)]
  short := by rw [hi, hn]; exact h.short

/-- The form that the record of a form fills in. -/
theorem Form.Submitted.rerun {P : Platform} (B : Browser P) {f : Form} {seed k : Nat} {v : Json}
    (h : f.Submitted seed k) (hlt : (shortest 52 seed).1 < 10 ^ 21)
    (htells : Tells v (f.submission seed)) : ∃ f', rerunFromSidecar B (some v) = .ok f' ∧
      f'.input = f.input ∧ f'.instructions = f.instructions ∧ f'.Submitted seed k := by
  obtain ⟨hd, h10, h360⟩ := validateSeconds_ok h.seconds
  have hround := validateSeed_round h.seed
  have hframes : (f.submission seed).maxNewTokens = (25 * k : Nat) := by
    change 25 * denoted f.maxSeconds.value = _
    rw [hd]
    push_cast
    rfl
  have hnumber : toNumber (shortest 52 seed).1 = some seed := by
    have hback := (shortest_closest hround).back
    have hle := hback ▸ round_le_two_mul 52 (shortest 52 seed).1
    rw [toNumber, hback, if_pos (by omega)]
  have hrerun := rerun_recorded B htells f.input.whole f.instructions.whole rfl hnumber hframes
    (by omega)
  obtain ⟨hdigits, hne, -⟩ := numberText_plain hround hlt
  have hi := f.input.set_value f.input.whole
  have hn := f.instructions.set_value f.instructions.whole
  refine ⟨_, hrerun, hi, hn, h.again hlt hi hn (NumberField.set_digits hdigits hne) ?_⟩
  rw [rerunSeconds_whole (by omega) (by omega)]
  exact NumberField.set_digits (natText_digits k) (natText_ne_nil k)

section
variable {cfg : Config} {fs fs' : Fs} {dir : Str} {record : JobRecord} {sidecar : Dict}
  {data : Bytes} {translated : Dict}

/-- A stored sidecar that is real JSON tells the browser the submission. -/
theorem StoredSidecar.tells {P : Platform} {env : Env} (B : Browser P)
    (h : StoredSidecar P fs fs' record translated env dir sidecar data)
    (hreal : RealJson P record.submission sidecar data) (hacc : Accepted P record.submission)
    (ht : (Json.obj translated).WF) : ∃ v, B.json data = some v ∧ Tells v record.submission := by
  obtain ⟨v, hload, hsame⟩ := hreal.same
  obtain ⟨text, hdecode, htext⟩ := hreal.text
  refine ⟨v, B.json_text data text v hdecode htext hload, fun p hp => ?_⟩
  obtain ⟨⟨facts, -, hbuilt⟩, -⟩ := h
  obtain ⟨q, -, hbuilt⟩ := ok_of_bind hbuilt
  obtain ⟨t, -, hbuilt⟩ := ok_of_bind hbuilt
  obtain rfl := Except.ok.inj hbuilt
  have hkeys : ∀ k ∈ [lit "request", p.1], plain k := by
    simp only [requestFacts, List.mem_cons, List.not_mem_nil, or_false] at hp
    rcases hp with rfl | rfl | rfl | rfl <;>
      exact List.forall_mem_cons.mpr ⟨plain_lit rfl, List.forall_mem_singleton.mpr (plain_lit rfl)⟩
  have hat := hsame.at? (loadsBytes_induct closed_wf hload)
    (wf_sidecarOf (wf_sidecarRequest ht hacc.wf_cloud)) hkeys
  have hsidecar : (Json.obj (sidecarOf record (deploymentFactsFromEnv env) facts translated q t)).at?
      [lit "request", p.1] = some p.2 := by
    simp only [requestFacts, List.mem_cons, List.not_mem_nil, or_false] at hp
    rcases hp with rfl | rfl | rfl | rfl <;> rfl
  rw [hsidecar] at hat
  obtain ⟨x, hx, hsort⟩ := Option.map_eq_some_iff.mp hat
  rw [hx]
  simp only [requestFacts, List.mem_cons, List.not_mem_nil, or_false] at hp
  rcases hp with rfl | rfl | rfl | rfl <;> cases x <;> simp_all [Json.sortKeys]

end

/-- A form that has been submitted and recorded is filled in again from its sidecar with the same
texts and the same body. -/
theorem rerun_round_trip (cfg : Config) (M : SubmitModel cfg.platform) (B : Browser cfg.platform) (f : Form)
    (ms : List (Str × JsValue)) (body : Bytes) (record : JobRecord) (fs : Fs) (root dir : Str)
    (faults : List (Option Nat)) (s : Sys) (h : f.body? = .ok ms)
    (hbody : encodeUtf8 (stringify ms) = some body)
    (hsubmitted : submitJob M body = some record.submission)
    (hs : ServerSide cfg.platform cfg.env record cfg.model)
    (hrun : (writeArtifact cfg.platform record root (buildBody (engineRequest cfg record.submission))
      cfg.env).run { fs, turns := faults.map fun fault => { fault } } = .ok dir s) :
    ∃ sidecar data v f', StoredSidecar cfg.platform fs s.fs record
        (buildBody (engineRequest cfg record.submission)) cfg.env dir sidecar data ∧
      B.json data = some v ∧ rerunFromSidecar B (some v) = .ok f' ∧
      f'.input = f.input ∧ f'.instructions = f.instructions ∧ f'.body? = .ok ms := by
  obtain ⟨seed, seconds, hf, rfl⟩ := Form.body?_ok.mp h
  -- the submission is the form's
  obtain ⟨⟨-, -, hlt⟩, hrecord⟩ := (hf.accepted M hbody).mp hsubmitted
  have hinput : record.submission.input = f.input.value := by rw [hrecord]; rfl
  have hinstructions : record.submission.instructions = f.instructions.value := by
    rw [hrecord]; rfl
  have hcloud : record.submission.cloud = none := by rw [hrecord]; rfl
  have hacc : Accepted cfg.platform record.submission := hrecord ▸ .native (hf.payload hlt)
  -- its sidecar tells it
  obtain ⟨sidecar, data, hstored, hiff⟩ := storedSidecar_of_run hacc hs hrun
  have hreal := hiff.mpr {
    input := hinput ▸ f.input.whole
    instructions := hinstructions ▸ f.instructions.whole
    finite := fun cloud hc => by rw [hcloud] at hc; cases hc
    cloud := fun cloud hc => by rw [hcloud] at hc; cases hc }
  obtain ⟨v, hjson, htells⟩ := hstored.tells B hreal hacc wf_buildBody
  -- and fills in the form
  obtain ⟨-, h10, -⟩ := validateSeconds_ok hf.seconds
  obtain ⟨k, rfl⟩ : ∃ k : Nat, seconds = k := ⟨seconds.toNat, by omega⟩
  rw [hrecord] at htells
  obtain ⟨f', hrerun, hi, hn, hf'⟩ := hf.rerun B hlt htells
  refine ⟨sidecar, data, v, f', hstored, hjson, hrerun, hi, hn, Form.body?_ok.mpr ⟨seed, k, hf', ?_⟩⟩
  simp only [Form.members, hi, hn]

namespace Sample

theorem whole_normStr (s : Str) : Whole (normStr s) := by
  induction s using normStr.induct with
  | case1 => exact whole_nil
  | case2 c => exact whole_singleton c
  | case3 h l t hp ih =>
    -- a point that two surrogates make is none
    rw [Bool.and_eq_true] at hp
    rw [normStr, if_pos (by simpa using hp)]
    cases hn : normStr t with
    | nil => exact whole_singleton _
    | cons d u =>
      refine whole_cons_cons.mpr ⟨fun hpair => ?_, hn ▸ ih⟩
      have hhigh := hpair.1
      simp only [isHigh, isLow, Bool.and_eq_true, decide_eq_true_eq] at hp hhigh
      unfold joinPair at hhigh
      rw [point_val (by omega)] at hhigh
      omega
  | case4 h l t hp ih =>
    rw [normStr, if_neg hp]
    cases hn : normStr (l :: t) with
    | nil => exact whole_singleton _
    | cons d u =>
      refine whole_cons_cons.mpr ⟨fun hpair => ?_, hn ▸ ih⟩
      cases t with
      | nil =>
        rw [normStr] at hn
        obtain rfl := (List.cons.inj hn).1
        exact hp (by simpa using hpair)
      | cons m t =>
        rw [normStr] at hn
        split at hn
        · rename_i hlm
          obtain rfl := (List.cons.inj hn).1
          have hlow := hpair.2
          simp only [isHigh, isLow, Bool.and_eq_true, decide_eq_true_eq] at hlm hlow
          unfold joinPair at hlow
          rw [point_val (by omega)] at hlow
          omega
        · obtain rfl := (List.cons.inj hn).1
          exact hp (by simpa using hpair)

/-- What a browser shows of a JSON value. -/
def shown : Json → Str
  | .str s => normStr s
  | .int (.ofNat n) => ((toNumber n).map numberText).getD (lit "Infinity")
  | _ => []

def browser : Browser platform where
  json b := (platform.load b).toOption
  text := shown
  number
    | .int n => .finite n
    | _ => .nan
  json_text _ _ _ _ _ h := by rw [h]; rfl
  text_whole v := by
    unfold shown
    split
    · exact whole_normStr _
    · cases toNumber _ with
      | none => exact whole_of_plain (plain_lit rfl)
      | some v => exact whole_of_plain (plain_numberText v)
    · exact whole_nil
  text_str s h := normStr_of_whole h
  text_int n v h := by simp [shown, h]
  number_int _ _ := rfl

/-- What the form is submitted as. -/
def formSubmission : Submission where
  input := lit "[Verse]"
  instructions := lit "warm"
  seed := 42
  maxNewTokens := 750

end Sample

set_option maxRecDepth 16000 in
/-- The form with the seed 42 comes back. -/
theorem rerun_round_trip_sample : ∃ (dir : Str) (s : Sys) (sidecar : Dict) (data : Bytes) (v : Json)
    (f' : Form),
    StoredSidecar Sample.platform Sample.fs s.fs (Sample.recordOf Sample.formSubmission)
      (buildBody (engineRequest (Sample.config (some Sample.root)) Sample.formSubmission))
      (fun _ => none) dir sidecar data ∧
    Sample.browser.json data = some v ∧ rerunFromSidecar Sample.browser (some v) = .ok f' ∧
      f'.input = Sample.form.input ∧ f'.instructions = Sample.form.instructions ∧
      f'.body? = .ok (Sample.form.members 42 30) := by
  have hshort := (shortest_small (n := 42) (by decide)).2
  obtain ⟨body, hbody, -⟩ := Sample.submitted_form.load Sample.platform
  have hsub : submitJob Sample.submitModel body =
      some (Sample.recordOf Sample.formSubmission).submission := by
    refine (Sample.submitted_form.accepted Sample.submitModel hbody).mpr
      ⟨⟨scalar_of_plain (plain_lit rfl), scalar_of_plain (plain_lit rfl), by rw [hshort]; decide⟩, ?_⟩
    simp only [Form.submission, hshort]
    rfl
  obtain ⟨dir, s, hrun⟩ : ∃ dir s, (writeArtifact Sample.platform
      (Sample.recordOf Sample.formSubmission) Sample.root (buildBody (engineRequest
        (Sample.config (some Sample.root)) Sample.formSubmission)) fun _ => none).run
      { fs := Sample.fs, turns := [] } = .ok dir s := ⟨_, _, rfl⟩
  obtain ⟨sidecar, data, v, f', h⟩ := rerun_round_trip (Sample.config (some Sample.root))
    Sample.submitModel Sample.browser Sample.form _ body (Sample.recordOf Sample.formSubmission)
    Sample.fs Sample.root dir [] s (Form.body?_ok.mpr ⟨42, 30, Sample.submitted_form, rfl⟩)
    hbody hsub (Sample.serverSide _) hrun
  exact ⟨dir, s, sidecar, data, v, f', h⟩

end Music3
