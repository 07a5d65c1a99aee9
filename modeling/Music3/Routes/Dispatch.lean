import Music3.Compat.Grammar
import Music3.Routes.Submit

/-!
# What `music_generation` does before it waits

`dispatchRequest` is the route up to the call of `runner.submit`. `answerBody` is its answer as a
function of the bytes of the body alone, and `dispatchRequest_error` and `dispatchRequest_ok` relate
the two: only the header check and the size of the body come before it.

`music_generation_answers`: which requests get one of the shaped answers. Two kinds do not: a body
that nests deeper than the decoder admits (`RecursionError` is no `ValueError`), and a
`Content-Length` that `isdigit()` lets pass and `int()` refuses.
-/

namespace Music3

open Py StateExcept

/-- A response with a JSON body. -/
structure Response where
  status : Nat
  body : Json

/-- `_refused`. -/
def refused (e : CompatError) : Response := ⟨400, errorEnvelope e.code e.message none⟩

inductive Handled where
  | answered (r : Response)
  | awaiting
  | raised (e : JsonError)

/-- The submissions of a request, and how it goes on. -/
structure Dispatch where
  submitted : List Submission
  handled : Handled

/-- The route after its `try` statement. -/
def dispatchLocal : Except EdgeError LocalRequest → Dispatch
  | .ok r => ⟨[r.submission], .awaiting⟩
  | .error (.compat e) => ⟨[], .answered (refused e)⟩
  | .error (.raised e) => ⟨[], .raised e⟩

section
variable (P : Platform)

/-- `music_generation` up to `runner.submit`. -/
def dispatchRequest (declared : Option Bytes) (chunks : List Bytes) : Dispatch :=
  dispatchLocal do
    let body ← readJsonBody P declared chunks
    translate P body

/-- The answer to a body that has been read. -/
def answerBody (body : Bytes) : Dispatch := dispatchLocal do
  let v ← parseBody P body
  translate P v

/-- One of the shaped answers to the body `body`: a refusal without a submission, or the one
submission that `translate` makes. -/
def Shaped (body : Bytes) (d : Dispatch) : Prop :=
  (∃ message, d = ⟨[], .answered ⟨400, errorEnvelope 2013 message none⟩⟩) ∨
  ∃ v r, P.load (orNull body) = .ok v ∧ translate P v = .ok r ∧
    d = ⟨[r.submission], .awaiting⟩

end

/-- The declared length is over the limit. -/
def Over (declared : Option Bytes) : Prop :=
  ∃ value n, declared = some value ∧ isdigit value = true ∧ intOf value = .ok n ∧
    maxRequestBodyBytes < n

/-- `int()` refuses the declared length, which `isdigit()` lets pass. -/
def Unconvertible (declared : Option Bytes) : Prop :=
  ∃ value e, declared = some value ∧ isdigit value = true ∧ intOf value = .error e

/-! ## The body before it is parsed -/

/-- The loop depends on the bytes, not on how they come in chunks. -/
theorem readChunks_eq (chunks : List Bytes) {acc : Bytes}
    (hacc : acc.length ≤ maxRequestBodyBytes) :
    readChunks acc chunks = if maxRequestBodyBytes < (acc ++ chunks.flatten).length
      then .error overLimit else .ok (acc ++ chunks.flatten) := by
  induction chunks generalizing acc with
  | nil => rw [List.flatten_nil, List.append_nil, if_neg (Nat.not_lt.mpr hacc), readChunks]
  | cons chunk chunks ih =>
    rw [readChunks, List.flatten_cons, ← List.append_assoc]
    split
    · rename_i h
      rw [if_pos]
      simp only [List.length_append]
      omega
    · rename_i h
      exact ih (by rw [List.length_append]; omega)

/-- What the loop has buffered. -/
theorem readChunks_le {chunks : List Bytes} {held : Bytes} (h : readChunks [] chunks = .ok held) :
    held.length ≤ maxRequestBodyBytes := by
  rw [readChunks_eq chunks (Nat.zero_le _), List.nil_append] at h
  split at h
  · cases h
  · rename_i hle
    cases h
    exact Nat.not_lt.mp hle

theorem checkDeclared_cases (declared : Option Bytes) :
    (Over declared ∧ ¬ Unconvertible declared ∧ checkDeclared declared = .error overLimit) ∨
    (Unconvertible declared ∧ ∃ e, checkDeclared declared = .error (.raised e)) ∨
    (¬ Over declared ∧ ¬ Unconvertible declared ∧ checkDeclared declared = .ok ()) := by
  cases declared with
  | none =>
    refine .inr (.inr ⟨?_, ?_, rfl⟩)
    · rintro ⟨_, _, e, _⟩; cases e
    · rintro ⟨_, _, e, _⟩; cases e
  | some value =>
    simp only [checkDeclared]
    split
    swap
    · rename_i hd
      refine .inr (.inr ⟨?_, ?_, rfl⟩)
      · rintro ⟨_, _, e, h, _⟩; cases e; exact hd h
      · rintro ⟨_, _, e, h, _⟩; cases e; exact hd h
    rename_i hd
    split
    · rename_i e he
      exact .inr (.inl ⟨⟨value, e, rfl, hd, he⟩, e, rfl⟩)
    rename_i n hn
    have hconv : ¬ Unconvertible (some value) := by
      rintro ⟨_, _, e, -, h⟩
      cases e
      cases hn.symm.trans h
    split
    · rename_i hlt
      exact .inl ⟨⟨value, n, rfl, hd, hn, hlt⟩, hconv, rfl⟩
    · rename_i hle
      refine .inr (.inr ⟨?_, hconv, rfl⟩)
      rintro ⟨_, m, e, -, hm, hlt⟩
      cases e
      cases hn.symm.trans hm
      exact hle hlt

section
variable {P : Platform} {declared : Option Bytes} {chunks : List Bytes}

theorem dispatchRequest_error {e : EdgeError} (h : checkDeclared declared = .error e) :
    dispatchRequest P declared chunks = dispatchLocal (.error e) := by
  unfold dispatchRequest readJsonBody
  rw [h]
  rfl

/-- Past the header check, the request depends on the bytes of its body. -/
theorem dispatchRequest_ok (h : checkDeclared declared = .ok ()) :
    dispatchRequest P declared chunks = if maxRequestBodyBytes < chunks.flatten.length
      then dispatchLocal (.error overLimit) else answerBody P chunks.flatten := by
  unfold dispatchRequest readJsonBody answerBody
  rw [h, readChunks_eq chunks (Nat.zero_le _), List.nil_append]
  split <;> rfl

variable (P) in
theorem shaped_refuse (body message : _) :
    Shaped P body (dispatchLocal (.error (.compat (refuse none message)))) := .inl ⟨message, rfl⟩

variable (P) in
theorem shaped_raised (body : Bytes) (e : JsonError) :
    ¬ Shaped P body (dispatchLocal (.error (.raised e))) := by
  rintro (⟨_, h⟩ | ⟨_, _, _, _, h⟩) <;> cases h

variable (P) in
/-- A body gets a shaped answer unless the decoder raises `RecursionError`. -/
theorem shaped_answerBody (body : Bytes) :
    Shaped P body (answerBody P body) ↔ P.load (orNull body) ≠ .error .recursion := by
  unfold answerBody parseBody
  cases hl : P.load (orNull body) with
  | error e =>
    cases e with
    | recursion => exact ⟨fun h => absurd h (shaped_raised P body _), fun h => absurd rfl h⟩
    | value => exact ⟨fun _ => (by intro e; cases e), fun _ => shaped_refuse P body _⟩
  | ok v =>
    refine ⟨fun _ => (by intro e; cases e), fun _ => ?_⟩
    show Shaped P body (dispatchLocal (translate P v))
    cases ht : translate P v with
    | ok r => exact .inr ⟨v, r, hl, ht, rfl⟩
    | error e =>
      cases e with
      | compat e =>
        refine .inl ⟨e.message, ?_⟩
        rw [← (translate_refused ht).1]
        rfl
      | raised e => exact absurd (load_showable hl (by decide)) (translate_raised ht)

end

/-- Which requests get a shaped answer: those whose declared length `int()` reads, and whose body is
over the limit or nests no deeper than the decoder admits. The answer depends on the bytes of the
body and on whether the declared length is over the limit; a body over the limit is refused, and
when a chunk comes in, what the loop has buffered before it is within the limit. -/
theorem music_generation_answers (P : Platform) (declared : Option Bytes) (chunks : List Bytes) :
    (Shaped P chunks.flatten (dispatchRequest P declared chunks) ↔
      ¬ Unconvertible declared ∧ (Over declared ∨ maxRequestBodyBytes < chunks.flatten.length ∨
        P.load (orNull chunks.flatten) ≠ .error .recursion)) ∧
    (∀ declared' chunks', chunks'.flatten = chunks.flatten → (Over declared' ↔ Over declared) →
      ¬ Unconvertible declared → ¬ Unconvertible declared' →
      dispatchRequest P declared' chunks' = dispatchRequest P declared chunks) ∧
    (maxRequestBodyBytes < chunks.flatten.length → ¬ Unconvertible declared →
      ∃ message, dispatchRequest P declared chunks =
        ⟨[], .answered ⟨400, errorEnvelope 2013 message none⟩⟩) ∧
    (∀ before chunk after held, chunks = before ++ chunk :: after →
      readChunks [] before = .ok held →
      (held ++ chunk).length ≤ maxRequestBodyBytes + chunk.length) := by
  refine ⟨?_, fun declared' chunks' hc ho hu hu' => ?_, fun hlt hu => ?_,
    fun before chunk after held _ h => ?_⟩
  · rcases checkDeclared_cases declared with ⟨ho, hu, h⟩ | ⟨hu, e, h⟩ | ⟨ho, hu, h⟩
    · rw [dispatchRequest_error h]
      exact ⟨fun _ => ⟨hu, .inl ho⟩, fun _ => shaped_refuse P _ _⟩
    · rw [dispatchRequest_error h]
      exact ⟨fun hs => absurd hs (shaped_raised P _ e), fun hs => absurd hu hs.1⟩
    · rw [dispatchRequest_ok h]
      split
      · rename_i hlt
        exact ⟨fun _ => ⟨hu, .inr (.inl hlt)⟩, fun _ => shaped_refuse P _ _⟩
      · rename_i hle
        rw [shaped_answerBody]
        refine ⟨fun hl => ⟨hu, .inr (.inr hl)⟩, fun ⟨_, hs⟩ => ?_⟩
        exact hs.resolve_left ho |>.resolve_left hle
  · rcases checkDeclared_cases declared with ⟨o, -, h⟩ | ⟨u, -⟩ | ⟨o, -, h⟩
    · rcases checkDeclared_cases declared' with ⟨-, -, h'⟩ | ⟨u, -⟩ | ⟨o', -⟩
      · rw [dispatchRequest_error h, dispatchRequest_error h']
      · exact absurd u hu'
      · exact absurd (ho.mpr o) o'
    · exact absurd u hu
    · rcases checkDeclared_cases declared' with ⟨o', -⟩ | ⟨u, -⟩ | ⟨-, -, h'⟩
      · exact absurd (ho.mp o') o
      · exact absurd u hu'
      · rw [dispatchRequest_ok h, dispatchRequest_ok h', hc]
  · rcases checkDeclared_cases declared with ⟨-, -, h⟩ | ⟨u, -⟩ | ⟨-, -, h⟩
    · exact ⟨_, dispatchRequest_error h⟩
    · exact absurd u hu
    · exact ⟨_, (dispatchRequest_ok h).trans (if_pos hlt)⟩
  · have := readChunks_le h
    rw [List.length_append]
    omega

/-! ## A body that nests too deep -/

theorem value_brackets (F : FloatText) {d n k : Nat} (hd : d < n) (hk : 2 * d < k) :
    value F k d (List.replicate n (cp '[')) = .error .recursion := by
  induction d generalizing n k with
  | zero =>
    obtain ⟨n, rfl⟩ := Nat.exists_eq_succ_of_ne_zero (Nat.ne_of_gt hd)
    obtain ⟨k, rfl⟩ := Nat.exists_eq_succ_of_ne_zero (Nat.ne_of_gt hk)
    rfl
  | succ d ih =>
    obtain ⟨n, rfl⟩ : ∃ m, n = m + 2 := ⟨n - 2, by omega⟩
    obtain ⟨k, rfl⟩ : ∃ j, k = j + 2 := ⟨k - 2, by omega⟩
    have h : value F (k + 2) (d + 1) (List.replicate (n + 2) (cp '[')) =
        elems F (k + 1) d [] (List.replicate (n + 1) (cp '[')) := rfl
    rw [h, elems, ih (by omega) (by omega)]

theorem load_brackets (P : Platform) {n : Nat} (h : P.loadsLimit < n) :
    P.load (List.replicate n 91) = .error .recursion := by
  have hs : ∀ c ∈ List.replicate n (cp '['), isAscii c := by
    intro c hc
    rw [List.eq_of_mem_replicate hc]
    exact ⟨by decide, by decide⟩
  have hb := encodeUtf8_ascii hs
  rw [List.map_replicate] at hb
  have hskip : skip (List.replicate n (cp '[')) = List.replicate n (cp '[') := by
    cases n <;> rfl
  unfold Platform.load loadsBytes
  rw [show List.replicate n (91 : UInt8) = List.replicate n (cp '[').val.toUInt8 from rfl,
    decode_encodeUtf8 hs hb]
  simp only [loads]
  rw [hskip, value_brackets P.floats h (by rw [List.length_replicate]; omega)]

/-- The body `[[[…`, of 200000 bytes: no shaped answer. -/
theorem deep_body_escapes : ¬ Shaped Sample.platform [List.replicate 200000 91].flatten
    (dispatchRequest Sample.platform none [List.replicate 200000 91]) := by
  rw [dispatchRequest_ok rfl, List.flatten_singleton, List.length_replicate, if_neg (by decide),
    shaped_answerBody, orNull, if_neg (by rw [List.replicate_succ]; exact List.cons_ne_nil _ _)]
  exact not_not_intro (load_brackets _ (by decide))

end Music3
