import Music3.Compat.Minimax
import Music3.Jobs.Sidecar
import Music3.Py.Header
import Music3.Py.LoadsOk

/-!
# What the routes submit

`SubmitRequest` is the body of `POST /jobs`, with the constraints that its fields declare, and
`readJsonBody` the body of `POST /v1/music_generation`. `Accepted P submission`: one of the two
routes accepts a body and submits `submission`.

`Accepted.intsOk`: every `int` of an accepted submission has a text.
-/

namespace Music3

open Py StateExcept

/-- `SubmitRequest`. Both parsers refuse an `int` that is too long for a text. -/
structure SubmitRequest where
  input : Str
  instructions : Str
  seed : Int := 0
  maxNewTokens : Int
  input_ne : input ≠ []
  instructions_ne : instructions ≠ []
  seed_nonneg : 0 ≤ seed
  seed_text : intsOk (.int seed) = true
  one_le : 1 ≤ maxNewTokens
  le_ceiling : maxNewTokens ≤ Sglang.maxNewTokensCeiling

/-- What `submit_job` submits. -/
def SubmitRequest.submission (payload : SubmitRequest) : Submission where
  input := payload.input
  instructions := payload.instructions
  seed := payload.seed
  maxNewTokens := payload.maxNewTokens

/-- What `music_generation` submits. -/
def LocalRequest.submission (r : LocalRequest) : Submission where
  input := r.input
  instructions := r.instructions
  seed := r.seed
  maxNewTokens := r.maxNewTokens
  cloud := some r.cloud

/-! ## The body of a cloud request -/

def maxRequestBodyBytes : Nat := 1 * 1024 * 1024

def overLimit : EdgeError :=
  .compat (refuse none (lit "request body exceeds " ++ natText maxRequestBodyBytes ++ lit " bytes"))

/-- The check of the `Content-Length` header, where there is one. -/
def checkDeclared : Option Bytes → Except EdgeError Unit
  | none => .ok ()
  | some declared =>
    if isdigit declared then
      match intOf declared with
      | .error e => .error (.raised e)
      | .ok n => if maxRequestBodyBytes < n then .error overLimit else .ok ()
    else .ok ()

/-- The chunks of the stream after the bytes `acc`, up to the limit. -/
def readChunks (acc : Bytes) : List Bytes → Except EdgeError Bytes
  | [] => .ok acc
  | chunk :: chunks =>
    if maxRequestBodyBytes < acc.length + chunk.length then .error overLimit
    else readChunks (acc ++ chunk) chunks

/-- `body or b"null"`. -/
def orNull (body : Bytes) : Bytes := if body = [] then [110, 117, 108, 108] else body

/-- The `try` statement around `json.loads`. -/
def parseBody (P : Platform) (body : Bytes) : Except EdgeError Json :=
  match P.load (orNull body) with
  | .ok v => .ok v
  | .error .recursion => .error (.raised .recursion)
  | .error .value => .error (.compat (refuse none (lit "request body must be valid JSON")))

/-- `_read_json_body`. -/
def readJsonBody (P : Platform) (declared : Option Bytes) (chunks : List Bytes) :
    Except EdgeError Json := do
  checkDeclared declared
  let body ← readChunks [] chunks
  parseBody P body

/-- A submission that one of the routes makes from a body that it accepts. -/
inductive Accepted (P : Platform) : Submission → Prop
  | native (payload : SubmitRequest) : Accepted P payload.submission
  | cloud (declared : Option Bytes) (chunks : List Bytes) (body : Json) (r : LocalRequest) :
      readJsonBody P declared chunks = .ok body → translate P body = .ok r →
      Accepted P r.submission

theorem intsOk_ceiling {n : Int} (h : 1 ≤ n) (h' : n ≤ 9000) : intsOk (.int n) = true := by
  have e : n = (n.toNat : Int) := by omega
  rw [e]
  exact intsOk_of_lt (by omega)

theorem readJsonBody_load {P : Platform} {declared : Option Bytes} {chunks : List Bytes} {v : Json}
    (h : readJsonBody P declared chunks = .ok v) : ∃ b, P.load b = .ok v := by
  obtain ⟨_, -, h⟩ := ok_of_bind h
  obtain ⟨body, -, h⟩ := ok_of_bind h
  unfold parseBody at h
  split at h
  · rename_i hl; cases h; exact ⟨_, hl⟩
  · cases h
  · cases h

/-- A body that `json.dumps` has written. -/
theorem readJsonBody_dumps {P : Platform} {o : DumpOpts} {v : Json} {text : Str} {b : Bytes}
    (hd : dumps P.floats o v = .ok text) (hb : encodeUtf8 text = some b)
    (hv : v.depth ≤ P.loadsLimit)
    (hi : intsOk v = true) (hne : b ≠ []) (hle : b.length ≤ maxRequestBodyBytes) :
    readJsonBody P none [b] = .ok (Py.norm (if o.sortKeys then v.sortKeys else v)) := by
  have hload : P.load b = _ := loadsBytes_dumps hd hb hv hi
  have hle : ¬ maxRequestBodyBytes < ([] : Bytes).length + b.length := by
    rw [List.length_nil]
    omega
  simp only [readJsonBody, checkDeclared, readChunks, parseBody, orNull, ↓reduceIte, hle,
    List.nil_append, hne, hload, bind, Except.bind]

theorem Accepted.intsOk {P : Platform} {submission : Submission} (h : Accepted P submission) :
    submission.IntsOk := by
  cases h with
  | native payload =>
    exact ⟨payload.seed_text, intsOk_ceiling payload.one_le payload.le_ceiling, nofun⟩
  | cloud declared chunks v r hbody ht =>
    obtain ⟨b, hb⟩ := readJsonBody_load hbody
    have hv := loadsBytes_induct closed_intsOk hb
    obtain ⟨body, rfl, htr⟩ := translate_ok ht
    have hv : ∀ {k x}, Dict.get? body k = some x → Py.intsOk x = true := fun {k x} hx => by
      have hok := intsOkFields_iff.mp (show intsOkFields body = true from hv)
      exact hok (k, x) (Assoc.mem_of_get? hx)
    obtain ⟨hs, -, -⟩ := validateInt_ok htr.seed
    obtain ⟨-, hm1, hm⟩ := validateInt_ok htr.maxNewTokens
    refine ⟨?_, intsOk_ceiling hm1 (hm _ rfl), fun cloud hc => ?_⟩
    · rcases hs with hs | hs
      · show Py.intsOk (.int r.seed) = true
        rw [hs]
        rfl
      · exact hv hs
    · cases hc
      rw [htr.cloud, Py.intsOk, intsOkFields_iff]
      exact fun p hp => hv (mem_recordedCloud hp)

namespace Sample

/-- `[[…[]…]]`. -/
def nest : Nat → Json
  | 0 => .arr []
  | n + 1 => .arr [nest n]

/-- A cloud request with a value that nests `n + 1` deep under a key that nothing reads. -/
def deepBody (n : Nat) : Dict := [
  (lit "model", .str (lit "music-3.0")),
  (lit "prompt", .str (lit "warm")),
  (lit "lyrics", .str (lit "[Verse]")),
  (lit "output_format", .str (lit "url")),
  (lit "audio_setting", .obj [(lit "x", nest n)])]

def deepRequest (n : Nat) : LocalRequest where
  input := lit "[Verse]"
  instructions := lit "warm"
  seed := 0
  maxNewTokens := 9000
  outputFormat := .url
  plan := ⟨.wav, 32000, 2, none⟩
  cloud := deepBody n

theorem translate_deep (n : Nat) :
    translate platform (.obj (deepBody n)) = .ok (deepRequest n) := rfl

theorem depth_nest (n : Nat) : (nest n).depth = n + 1 := by
  induction n with
  | zero => rfl
  | succ n ih => rw [nest, Json.depth, Json.depthList, ih]; rfl

theorem norm_nest (n : Nat) : Py.norm (nest n) = nest n := by
  induction n with
  | zero => rfl
  | succ n ih => rw [nest, Py.norm, normList, ih]; rfl

theorem intsOk_nest (n : Nat) : intsOk (nest n) = true := by
  induction n with
  | zero => rfl
  | succ n ih => rw [nest, intsOk, intsOkList, ih]; rfl

/-- The options of a text without line breaks. -/
def compact : DumpOpts := ⟨none, false, 9990⟩

def deepText (n : Nat) : Str := render floats compact 0 (.obj (deepBody n))

theorem length_render_nest (n lvl : Nat) :
    (render floats compact lvl (nest n)).length = 2 * n + 2 := by
  induction n generalizing lvl with
  | zero => rfl
  | succ n ih =>
    have h : render floats compact lvl (nest (n + 1)) =
        cp '[' :: (render floats compact (lvl + 1) (nest n) ++ [cp ']']) := rfl
    rw [h, List.length_cons, List.length_append, ih, List.length_singleton]
    omega

/-- The text before the nested value. -/
def deepPrefix : Str :=
  lit "\x7b\"model\": \"music-3.0\", \"prompt\": \"warm\", \"lyrics\": \"[Verse]\", " ++
    lit "\"output_format\": \"url\", \"audio_setting\": \x7b\"x\": "

theorem length_deepText (n : Nat) : (deepText n).length = 2 * n + 113 := by
  have h : deepText n =
      deepPrefix ++ (render floats compact 2 (nest n) ++ [cp '\x7d'] ++ [] ++ [cp '\x7d']) := rfl
  have hp : deepPrefix.length = 109 := rfl
  simp only [h, List.length_append, length_render_nest, hp, List.length_singleton, List.length_nil]
  omega

theorem norm_deepBody (n : Nat) : Py.norm (.obj (deepBody n)) = .obj (deepBody n) := by
  have h : Py.norm (.obj (deepBody n)) = .obj [
      (lit "model", .str (lit "music-3.0")), (lit "prompt", .str (lit "warm")),
      (lit "lyrics", .str (lit "[Verse]")), (lit "output_format", .str (lit "url")),
      (lit "audio_setting", .obj [(lit "x", Py.norm (nest n))])] := rfl
  rw [h, norm_nest]
  rfl

theorem intsOk_deepBody (n : Nat) : intsOk (.obj (deepBody n)) = true := by
  have h : intsOk (.obj (deepBody n)) = (intsOk (nest n) && true && true) := by
    simp only [deepBody, intsOk, intsOkFields, Bool.true_and]
  rw [h, intsOk_nest]
  rfl

theorem depth_deepBody (n : Nat) : (Json.obj (deepBody n)).depth = n + 3 := by
  simp [deepBody, Json.depth, Json.depthFields, depth_nest]

/-- The request is accepted as long as the decoder admits its depth. -/
theorem accepted_deep {n : Nat} (h : n + 3 ≤ 9990) :
    Accepted platform (deepRequest n).submission := by
  have hd : dumps floats compact (.obj (deepBody n)) = .ok (deepText n) := by
    rw [dumps_of_intsOk (intsOk_deepBody n), if_pos (by rw [depth_deepBody]; exact h)]
    rfl
  have hb := encodeUtf8_ascii (ascii_dumps hd)
  generalize hbytes : (deepText n).map (fun c => c.val.toUInt8) = b at hb
  have hl : b.length = 2 * n + 113 := by rw [← hbytes, List.length_map, length_deepText]
  have hread : readJsonBody platform none [b] = .ok (Py.norm (.obj (deepBody n))) := by
    refine readJsonBody_dumps (P := platform) hd hb (by rw [depth_deepBody]; exact h)
      (intsOk_deepBody n) ?_ ?_
    · rintro rfl
      simp at hl
    · rw [hl]
      unfold maxRequestBodyBytes
      omega
  rw [norm_deepBody] at hread
  exact .cloud none [b] _ _ hread (translate_deep n)

end Sample

end Music3
