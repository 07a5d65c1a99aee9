import Mathlib.Algebra.Order.Floor.Ring
import Mathlib.Data.Rat.Floor
import Music3.Page.Stringify
import Music3.Routes.Submit

/-!
# The form

What `submit()` makes of the form: the problems for which it refuses to send anything, or the body of
its POST /jobs; and what `submit_job` makes of that body.

`form_submitted`: the server reads from the body the texts and the frames that the form shows, and the
seed as the decimal that the page writes. It accepts them, unless one of the texts has a surrogate
without its other half, which is no `str` for `SubmitRequest`, or the seed is `10 ^ 21` or more: it is
then written with an exponent, and read as a `float` that is too large for an `int`.
-/

namespace Music3

open Py Rounding

/-! ## Fields -/

/-- The value that a textarea shows for a text: each line break is one `\n`. -/
def normalizeNewlines : Str → Str
  | [] => []
  | [c] => [if c = cp '\r' then cp '\n' else c]
  | c :: d :: t =>
    if c = cp '\r' then
      if d = cp '\n' then cp '\n' :: normalizeNewlines t else cp '\n' :: normalizeNewlines (d :: t)
    else c :: normalizeNewlines (d :: t)

/-- The value of a textarea: a string of the page, without `\r`. -/
structure TextArea where
  value : Str
  whole : Whole value
  lines : cp '\r' ∉ value

/-- A valid floating-point number of HTML. -/
def isFloatingPoint (s : Str) : Bool :=
  let i := spanDigits (scanSign s).2
  let f := scanFrac i.2
  let e := scanExp f.2
  (i.1 ≠ [] ∨ f.1 ≠ []) ∧ e.2 = []

/-- The value of an `<input type="number">`. -/
structure NumberField where
  value : Str
  valid : value = [] ∨ isFloatingPoint value = true

/-- `field.value = s`. -/
def NumberField.set (s : Str) : NumberField :=
  if h : isFloatingPoint s = true then ⟨s, .inr h⟩ else ⟨[], .inl rfl⟩

/-- The fields of the form that `submit()` reads. -/
structure Form where
  input : TextArea
  instructions : TextArea
  seed : NumberField
  maxSeconds : NumberField

/-! ## The checks of `submit()` -/

namespace Form

def charsPerToken : Nat := 4
def tokenLimit : Nat := 5000
def frameMin : Int := 1
def frameMax : Int := 9000
def secondsMin : Int := 10
def secondsMax : Int := 360
def framesPerSecond : Nat := 25

end Form

/-- `s.length`: the UTF-16 units of a string. -/
def jsLength (s : Str) : Nat := (s.map fun c => if c.val < 0x10000 then 1 else 2).sum

/-- `estimateTokens`: a quotient, rounded up. -/
def estimateTokens (input instructions : Str) : Nat :=
  (jsLength input + jsLength instructions + (Form.charsPerToken - 1)) / Form.charsPerToken

def isOverTokenLimit (est : Nat) : Bool := Form.tokenLimit < est

/-- `validateSeconds`. -/
def validateSeconds (raw : Str) : Except Str Int :=
  let refused := lit "maximum length must be a whole number of seconds in 10..360 (got \"" ++ raw ++
    lit "\")"
  match parseWholeNumber raw with
  | some n => if Form.secondsMin ≤ n ∧ n ≤ Form.secondsMax then .ok n else .error refused
  | none => .error refused

/-- `secondsToFrames`. -/
def secondsToFrames (seconds : ℚ) : Int :=
  min Form.frameMax (max Form.frameMin ⌈seconds * Form.framesPerSecond⌉)

namespace Form

/-- The message of a check that has failed. -/
def problem {α : Type} : Except Str α → List Str
  | .ok _ => []
  | .error message => [message]

/-- `problems`, in the order of the checks. -/
def problems (f : Form) : List Str :=
  let est := estimateTokens f.input.value f.instructions.value
  (if trim f.input.value = [] then [lit "input (lyrics) is required"] else []) ++
  (if trim f.instructions.value = [] then [lit "instructions (caption) is required"] else []) ++
  problem (validateSeed f.seed.value) ++ problem (validateSeconds f.maxSeconds.value) ++
  (if isOverTokenLimit est then
    [lit "prompt over the 5,000-token limit: ~" ++ natText est ++
      lit " estimated tokens — refused before submission"]
  else [])

/-- `body`, of a seed and a length that have been accepted. -/
def members (f : Form) (seed : Nat) (seconds : Int) : List (Str × JsValue) := [
  (lit "input", .text f.input.value),
  (lit "instructions", .text f.instructions.value),
  (lit "seed", .whole seed),
  (lit "max_new_tokens", .whole (secondsToFrames seconds).toNat)]

/-- `submit()` up to its request: the text of the error line, or the body. -/
def body? (f : Form) : Except Str (List (Str × JsValue)) :=
  match f.problems, validateSeed f.seed.value, validateSeconds f.maxSeconds.value with
  | [], .ok seed, .ok seconds => .ok (f.members seed seconds)
  | problems, _, _ => .error (List.intercalate (lit " · ") problems)

end Form

/-! ## `POST /jobs` -/

/-- The object that `SubmitRequest` declares. -/
def submitFields (input instructions : Str) (seed : Json) (maxNewTokens : Int) : Dict := [
  (lit "input", .str input),
  (lit "instructions", .str instructions),
  (lit "seed", seed),
  (lit "max_new_tokens", .int maxNewTokens)]

/-- The validation of a body against `SubmitRequest`, which takes an object with the declared fields
for what it says, and no string with a surrogate. -/
structure SubmitModel (P : Platform) where
  validate : Json → Option SubmitRequest
  declared : ∀ p : SubmitRequest, Scalar p.input → Scalar p.instructions →
    validate (.obj (submitFields p.input p.instructions (.int p.seed) p.maxNewTokens)) = some p
  scalar : ∀ input instructions seed maxNewTokens p,
    validate (.obj (submitFields input instructions (.int seed) maxNewTokens)) = some p →
      Scalar input ∧ Scalar instructions
  /-- A `float` is an `int` only if 64 bits hold it. -/
  large : ∀ input instructions t maxNewTokens, IsFloatToken t → 10 ^ 21 ≤ numberValue t →
    validate (.obj (submitFields input instructions (.float (P.floats.ofText t)) maxNewTokens)) =
      none

/-- The submission of `POST /jobs`, unless the body is refused. -/
def submitJob {P : Platform} (M : SubmitModel P) (body : Bytes) : Option Submission :=
  match P.load body with
  | .ok v => (M.validate v).map SubmitRequest.submission
  | .error _ => none

/-- What the form submits, with the seed as the page writes it. -/
def Form.submission (f : Form) (seed : Nat) : Submission where
  input := f.input.value
  instructions := f.instructions.value
  seed := (shortest 52 seed).1
  maxNewTokens := 25 * denoted f.maxSeconds.value

/-! ## What the checks have established -/

theorem parseWholeNumber_ok {raw : Str} {n : Int} (h : parseWholeNumber raw = some n) :
    ∃ m : Nat, denoted raw = m ∧ n = round 52 m ∨ denoted raw = -m ∧ n = -(round 52 m : Int) := by
  unfold parseWholeNumber toNumber at h
  unfold denoted
  simp only at h ⊢
  split at h
  · obtain ⟨v, hv, rfl⟩ := Option.map_eq_some_iff.mp h
    split at hv
    · obtain rfl := Option.some.inj hv
      refine ⟨natOf (scanSign (trim raw)).2, ?_⟩
      by_cases hs : (scanSign (trim raw)).1 = []
      · exact .inl ⟨by rw [if_pos hs], by rw [if_pos hs]⟩
      · exact .inr ⟨by rw [if_neg hs], by rw [if_neg hs]⟩
    · cases hv
  · cases h

/-- A length is accepted as the whole number that it is. -/
theorem validateSeconds_ok {raw : Str} {n : Int} (h : validateSeconds raw = .ok n) :
    denoted raw = n ∧ 10 ≤ n ∧ n ≤ 360 := by
  unfold validateSeconds at h
  simp only at h
  split at h
  · rename_i n' hn
    split at h
    · rename_i hrange
      cases h
      simp only [Form.secondsMin, Form.secondsMax] at hrange
      obtain ⟨m, ⟨hd, hm⟩ | ⟨-, hm⟩⟩ := parseWholeNumber_ok hn
      · have hle := le_two_mul_round 52 m
        have hround : round 52 m = m := round_of_lt (by omega)
        exact ⟨by rw [hd, hm, hround], hrange⟩
      · omega
    · cases h
  · cases h

/-- The frames of an accepted length are exact. -/
theorem secondsToFrames_eq {n : Int} (h : 10 ≤ n) (h' : n ≤ 360) : secondsToFrames n = 25 * n := by
  have hceil : ⌈(n : ℚ) * (Form.framesPerSecond : ℚ)⌉ = n * 25 := by
    have : (n : ℚ) * (Form.framesPerSecond : ℚ) = ((n * 25 : Int) : ℚ) := by
      push_cast [Form.framesPerSecond]
      rfl
    rw [this, Int.ceil_intCast]
  rw [secondsToFrames, hceil, Form.frameMax, Form.frameMin]
  omega

/-- What a form that is submitted has passed. -/
structure Form.Submitted (f : Form) (seed : Nat) (seconds : Int) : Prop where
  input : trim f.input.value ≠ []
  instructions : trim f.instructions.value ≠ []
  seed : validateSeed f.seed.value = .ok seed
  seconds : validateSeconds f.maxSeconds.value = .ok seconds
  short : isOverTokenLimit (estimateTokens f.input.value f.instructions.value) = false

theorem Form.body?_ok {f : Form} {ms : List (Str × JsValue)} :
    f.body? = .ok ms ↔ ∃ seed seconds, f.Submitted seed seconds ∧ ms = f.members seed seconds := by
  constructor
  · intro h
    unfold body? at h
    split at h
    · rename_i seed seconds hproblems hseed hseconds
      cases h
      simp only [problems, List.append_eq_nil_iff, ite_eq_right_iff, List.cons_ne_nil, imp_false,
        Bool.not_eq_true] at hproblems
      obtain ⟨⟨⟨⟨hi, hn⟩, -⟩, -⟩, hshort⟩ := hproblems
      exact ⟨seed, seconds, ⟨hi, hn, hseed, hseconds, hshort⟩, rfl⟩
    · cases h
  · rintro ⟨seed, seconds, ⟨hi, hn, hseed, hseconds, hshort⟩, rfl⟩
    have hproblems : f.problems = [] := by
      simp [problems, hi, hn, hseed, hseconds, hshort, problem]
    simp only [body?, hproblems, hseed, hseconds]

/-! ## What the server makes of it -/

theorem shortest_small {n : Nat} (h : n < 2 ^ 53) : round 52 n = n ∧ (shortest 52 n).1 = n := by
  have hround : round 52 n = n := round_of_lt h
  refine ⟨hround, ?_⟩
  have := shortest_round_iff.mpr (Shortest.of_lt h)
  rwa [hround] at this

/-- The seed is written without an exponent. -/
theorem shortest_lt {v : Nat} (hv : round 52 v = v) : (shortest 52 v).1 < 10 ^ 21 ↔ v < 10 ^ 21 := by
  have hback := (shortest_closest hv).back
  have hround : round 52 (10 ^ 21) = 10 ^ 21 := by decide +kernel
  constructor
  · intro hlt
    have hle : v ≤ 10 ^ 21 := hround ▸ hback ▸ round_mono hlt.le
    refine lt_of_le_of_ne hle ?_
    rintro rfl
    have hself : (shortest 52 (10 ^ 21)).1 = 10 ^ 21 := by decide +kernel
    omega
  · intro hlt
    by_contra hge
    have := round_mono (p := 52) (Nat.not_lt.mp hge)
    omega

section
variable {f : Form} {seed : Nat} {seconds : Int}

theorem validateSeed_round {raw : Str} {v : Nat} (h : validateSeed raw = .ok v) :
    round 52 v = v := by
  obtain ⟨n, -, rfl⟩ := validateSeed_ok h
  exact round_round 52 n

theorem Form.Submitted.frames (h : f.Submitted seed seconds) :
    (secondsToFrames seconds).toNat < 2 ^ 53 ∧
      ((secondsToFrames seconds).toNat : Int) = 25 * denoted f.maxSeconds.value ∧
      1 ≤ 25 * denoted f.maxSeconds.value ∧ 25 * denoted f.maxSeconds.value ≤ 9000 := by
  obtain ⟨hd, h10, h360⟩ := validateSeconds_ok h.seconds
  rw [secondsToFrames_eq h10 h360, hd]
  omega

theorem Form.Submitted.double (h : f.Submitted seed seconds) :
    ∀ p ∈ f.members seed seconds, p.2.Double := by
  have hframes : (JsValue.whole (secondsToFrames seconds).toNat).Double :=
    (shortest_small h.frames.1).1
  simp only [Form.members, List.forall_mem_cons, List.not_mem_nil, false_implies, implies_true,
    and_true]
  exact ⟨trivial, trivial, validateSeed_round h.seed, hframes⟩

/-- What `json.loads` makes of the body. -/
theorem Form.Submitted.json (h : f.Submitted seed seconds) (F : FloatText) :
    jsonMembers F [] (f.members seed seconds) = submitFields f.input.value f.instructions.value
      ((JsValue.whole seed).json F) (25 * denoted f.maxSeconds.value) := by
  obtain ⟨hlt, hframes, -⟩ := h.frames
  have hshort := (shortest_small hlt).2
  have hwhole : (JsValue.whole (secondsToFrames seconds).toNat).json F =
      .int (25 * denoted f.maxSeconds.value) := by
    rw [JsValue.json, if_pos (by rw [hshort]; omega), hshort, hframes]
  have hinput := normStr_of_whole f.input.whole
  have hinstructions := normStr_of_whole f.instructions.whole
  simp only [jsonMembers, Form.members, List.foldl_cons, List.foldl_nil, hwhole]
  rw [JsValue.json, JsValue.json, hinput, hinstructions]
  rfl

/-- The `SubmitRequest` that the body of a form is. -/
def Form.Submitted.payload (h : f.Submitted seed seconds) (hlt : (shortest 52 seed).1 < 10 ^ 21) :
    SubmitRequest where
  input := f.input.value
  instructions := f.instructions.value
  seed := (shortest 52 seed).1
  maxNewTokens := 25 * denoted f.maxSeconds.value
  input_ne := fun e => h.input (by rw [e]; rfl)
  instructions_ne := fun e => h.instructions (by rw [e]; rfl)
  seed_nonneg := Int.natCast_nonneg _
  seed_text := by
    have := natText_length_le (k := 21) (by decide) hlt
    rw [intsOk, Int.natAbs_natCast]
    exact decide_eq_true (Nat.le_trans this (by decide))
  one_le := h.frames.2.2.1
  le_ceiling := h.frames.2.2.2

/-- The bytes of the body, and what `json.loads` makes of them. -/
theorem Form.Submitted.load (h : f.Submitted seed seconds) (P : Platform) :
    ∃ body, encodeUtf8 (stringify (f.members seed seconds)) = some body ∧
      P.load body = .ok (.obj (submitFields f.input.value f.instructions.value
        ((JsValue.whole seed).json P.floats) (25 * denoted f.maxSeconds.value))) := by
  have hlimit : 1 ≤ P.loadsLimit := Nat.one_le_of_lt P.dumps_lt_loads
  have hne : f.members seed seconds ≠ [] := List.cons_ne_nil _ _
  obtain ⟨body, hbody, hload⟩ := load_stringify (F := P.floats) hne h.double hlimit
  rw [h.json] at hload
  exact ⟨body, hbody, hload⟩

/-- A seed that is sent with an exponent is refused. -/
theorem Form.Submitted.refused (h : f.Submitted seed seconds) {P : Platform} (M : SubmitModel P)
    (hge : 10 ^ 21 ≤ (shortest 52 seed).1) :
    M.validate (.obj (submitFields f.input.value f.instructions.value
      ((JsValue.whole seed).json P.floats) (25 * denoted f.maxSeconds.value))) = none := by
  have hround := validateSeed_round h.seed
  rw [JsValue.json, if_neg (Nat.not_lt.mpr hge)]
  refine M.large _ _ _ _ (.inl (numberText_floatBody hround hge)) ?_
  rw [numberValue_numberText hround]
  exact_mod_cast hge

/-- The submission is the form's, and there is one only if its texts are made of characters and its
seed is short. -/
theorem Form.Submitted.accepted (h : f.Submitted seed seconds) {P : Platform} (M : SubmitModel P)
    {body : Bytes} (hbody : encodeUtf8 (stringify (f.members seed seconds)) = some body)
    {submission : Submission} : submitJob M body = some submission ↔
      (Scalar f.input.value ∧ Scalar f.instructions.value ∧ (shortest 52 seed).1 < 10 ^ 21) ∧
        submission = f.submission seed := by
  obtain ⟨body', hbody', hload⟩ := h.load P
  obtain rfl := Option.some.inj (hbody.symm.trans hbody')
  simp only [submitJob, hload]
  rcases Nat.lt_or_ge (shortest 52 seed).1 (10 ^ 21) with hlt | hge
  · have hint : (JsValue.whole seed).json P.floats = .int (shortest 52 seed).1 := by
      rw [JsValue.json, if_pos hlt]
    have hdeclared (hi : Scalar f.input.value) (hn : Scalar f.instructions.value) :=
      M.declared (h.payload hlt) hi hn
    rw [hint]
    constructor
    · intro hsome
      obtain ⟨p, hp, hsub⟩ := Option.map_eq_some_iff.mp hsome
      obtain ⟨hi, hn⟩ := M.scalar _ _ _ _ p hp
      obtain rfl := Option.some.inj (hp.symm.trans (hdeclared hi hn))
      exact ⟨⟨hi, hn, hlt⟩, hsub.symm⟩
    · rintro ⟨⟨hi, hn, -⟩, rfl⟩
      exact congrArg (Option.map SubmitRequest.submission) (hdeclared hi hn)
  · rw [h.refused M hge]
    constructor
    · intro hsome
      cases hsome
    · rintro ⟨⟨-, -, hlt⟩, -⟩
      omega

end

/-- A form that is submitted: its body has bytes, which the server accepts as the submission that the
form shows, if its texts are made of characters and its seed is below `10 ^ 21`, and otherwise
refuses. The seed is the decimal that the page writes of the double nearest to the one that was typed,
which is the one that was typed, below `2 ^ 53`. -/
theorem form_submitted (P : Platform) (M : SubmitModel P) (f : Form) (ms : List (Str × JsValue))
    (h : f.body? = .ok ms) :
    ∃ body v, encodeUtf8 (stringify ms) = some body ∧ validateSeed f.seed.value = .ok v ∧
      v = round 52 (denoted f.seed.value).toNat ∧
      (Scalar f.input.value ∧ Scalar f.instructions.value ∧ v < 10 ^ 21 →
        submitJob M body = some {
          input := f.input.value
          instructions := f.instructions.value
          seed := (shortest 52 v).1
          maxNewTokens := 25 * denoted f.maxSeconds.value }) ∧
      (¬ (Scalar f.input.value ∧ Scalar f.instructions.value ∧ v < 10 ^ 21) →
        submitJob M body = none) ∧
      (denoted f.seed.value < 2 ^ 53 → ((shortest 52 v).1 : Int) = denoted f.seed.value) := by
  obtain ⟨seed, seconds, hs, rfl⟩ := Form.body?_ok.mp h
  obtain ⟨body, hbody, -⟩ := hs.load P
  have hshort := shortest_lt (validateSeed_round hs.seed)
  obtain ⟨n, hn, hround⟩ := validateSeed_ok hs.seed
  refine ⟨body, seed, hbody, hs.seed, by rw [hn]; exact hround, fun hsend => ?_, fun hsend => ?_,
    fun hsmall => ?_⟩
  · rw [← hshort] at hsend
    exact (hs.accepted M hbody).mpr ⟨hsend, rfl⟩
  · rw [← hshort] at hsend
    exact Option.eq_none_iff_forall_ne_some.mpr fun _ hsome =>
      hsend ((hs.accepted M hbody).mp hsome).1
  · subst hround
    rw [hn] at hsmall ⊢
    exact_mod_cast shortest_round_iff.mpr (Shortest.of_lt (by exact_mod_cast hsmall))

namespace Sample

/-- A validation of the declared fields in their order. -/
def validateFields : Json → Option SubmitRequest
  | .obj [(a, .str input), (b, .str instructions), (c, .int seed), (d, .int maxNewTokens)] =>
    if h : [a, b, c, d] = [lit "input", lit "instructions", lit "seed", lit "max_new_tokens"] ∧
        (Scalar input ∧ Scalar instructions) ∧ (input ≠ [] ∧ instructions ≠ []) ∧
        (0 ≤ seed ∧ intsOk (.int seed) = true) ∧
        1 ≤ maxNewTokens ∧ maxNewTokens ≤ Sglang.maxNewTokensCeiling then
      some ⟨input, instructions, seed, maxNewTokens, h.2.2.1.1, h.2.2.1.2, h.2.2.2.1.1,
        h.2.2.2.1.2, h.2.2.2.2.1, h.2.2.2.2.2⟩
    else none
  | _ => none

def submitModel : SubmitModel platform where
  validate := validateFields
  declared p hi hn := by
    simp only [submitFields, validateFields]
    rw [dif_pos ⟨trivial, ⟨hi, hn⟩, ⟨p.input_ne, p.instructions_ne⟩, ⟨p.seed_nonneg, p.seed_text⟩,
      p.one_le, p.le_ceiling⟩]
  scalar input instructions seed maxNewTokens p hp := by
    simp only [submitFields, validateFields] at hp
    split at hp
    · rename_i h
      exact h.2.1
    · cases hp
  large _ _ _ _ _ _ := rfl

/-- A form with the seed 42 and a length of 30 seconds. -/
def form : Form where
  input := ⟨lit "[Verse]", whole_of_plain (plain_lit rfl), by decide⟩
  instructions := ⟨lit "warm", whole_of_plain (plain_lit rfl), by decide⟩
  seed := ⟨lit "42", .inr rfl⟩
  maxSeconds := ⟨lit "30", .inr rfl⟩

theorem submitted_form : form.Submitted 42 30 where
  input := by decide
  instructions := by decide
  seed := by decide +kernel
  seconds := by decide +kernel
  short := by decide

end Sample

/-- The form's 30 seconds are 750 frames for the server. -/
theorem form_submitted_sample : ∃ body,
    encodeUtf8 (stringify (Sample.form.members 42 30)) = some body ∧
    submitJob Sample.submitModel body = some {
      input := lit "[Verse]"
      instructions := lit "warm"
      seed := 42
      maxNewTokens := 750 } := by
  have hseed : validateSeed Sample.form.seed.value = .ok 42 := Sample.submitted_form.seed
  have hshort := (shortest_small (n := 42) (by decide)).2
  obtain ⟨body, v, hbody, hv, -, hsub, -⟩ := form_submitted Sample.platform Sample.submitModel
    Sample.form _ (Form.body?_ok.mpr ⟨42, 30, Sample.submitted_form, rfl⟩)
  rw [hseed, Except.ok.injEq] at hv
  subst hv
  refine ⟨body, hbody, (hsub ⟨scalar_of_plain (plain_lit rfl), scalar_of_plain (plain_lit rfl),
    by decide⟩).trans ?_⟩
  rw [hshort]
  rfl

end Music3
