import Music3.Posix.Calls
import Music3.Py.RoundTrip

/-!
# Exceptions, and what the code uses of Python's library

`Exc` are the exceptions that the modelled code raises or lets pass, with the class tests that its
`except` clauses make (`isOSError`, `isValueError`, `isWaveError`).

`Platform` is what the code calls of CPython and its library without defining it: the `wave`
parser, `hashlib.sha256`, `datetime.fromisoformat` with a subtraction, the arithmetic of `float`,
the text of an `OSError`, `repr`, and the encoder and decoder of the `json` module. These three
have a recursion limit; the decoder is the one in C and admits deeper values than the encoder in
Python that `indent` selects. `repr` is in C too and takes no more of the stack for a value than the
decoder that built it. What is proved holds for every such platform.
-/

namespace Music3

open Py Posix

abbrev JobId := Str

/-- `JobStatus`. -/
inductive JobStatus where
  | queued | running | succeeded | failed | cancelled
  deriving DecidableEq

namespace JobStatus

def value : JobStatus → Str
  | queued => lit "queued"
  | running => lit "running"
  | succeeded => lit "succeeded"
  | failed => lit "failed"
  | cancelled => lit "cancelled"

/-- `status in _TERMINAL`. -/
def terminal : JobStatus → Bool
  | succeeded | failed | cancelled => true
  | queued | running => false

end JobStatus

/-- The exceptions of the modelled code. -/
inductive Exc where
  | os (e : Errno)
  | value (message : Str)
  /-- `JobIdError(ValueError)`. -/
  | jobId (jobId : Str)
  /-- `UntrustedPathError(ValueError)`. -/
  | untrustedPath (candidate root : Str)
  | wave (message : Str)
  | recursion
  | noAttribute (message : Str)
  | engine (message : Str)
  | jobNotFound (jobId : JobId)
  | jobTransition (fromStatus toStatus : JobStatus)
  /-- `asyncio.CancelledError`. -/
  | cancelled

namespace Exc

def isOSError : Exc → Bool
  | os _ => true
  | _ => false

def isValueError : Exc → Bool
  | value _ | jobId _ | untrustedPath _ _ => true
  | _ => false

def isWaveError : Exc → Bool
  | wave _ => true
  | _ => false

end Exc

/-- The header that `wave.open` reads: the fields of the `fmt ` chunk and the frames of the `data`
chunk. -/
structure WavHeader where
  framerate : UInt32
  nchannels : UInt16
  nframes : UInt32

/-- Python's library (module doc). -/
structure Platform where
  floats : FloatText
  /-- The deepest value that `json.dumps(…, indent=2)` encodes, taken as one number: in CPython 3.12
  it is one less for a value whose deepest leaf is a `float`. -/
  dumpsLimit : Nat
  /-- The deepest value that `json.loads` decodes. -/
  loadsLimit : Nat
  /-- The deepest value that `repr` writes. -/
  reprLimit : Nat
  three_le_dumps : 3 ≤ dumpsLimit
  dumps_lt_loads : dumpsLimit < loadsLimit
  loads_le_repr : loadsLimit ≤ reprLimit
  /-- `str(exc)` of an `OSError`. -/
  osText : Errno → Str
  /-- `repr(v)`, of a value that has one. -/
  reprText : Json → Str
  /-- `hashlib.sha256(b).hexdigest()`. -/
  sha256 : Bytes → Str
  /-- `wave.open(io.BytesIO(b), "rb")`, or the text of the exception that it raises. -/
  waveOpen : Bytes → Except Str WavHeader
  /-- `n / m` of two integers, `m ≠ 0`. -/
  trueDiv : Nat → Nat → PyFloat
  /-- `x * y`. -/
  mul : PyFloat → PyFloat → PyFloat
  /-- `float(n)`. -/
  ofInt : Int → PyFloat
  /-- `int(x)` of a finite float. -/
  truncate : PyFloat → Int
  /-- `(fromisoformat(end) - fromisoformat(start)).total_seconds()`, or the text of the
  `ValueError`. -/
  isoDelta : Str → Str → Except Str PyFloat

/-- `str(exc)`. -/
def Exc.text (P : Platform) : Exc → Str
  | os e => P.osText e
  | value message | wave message | noAttribute message | engine message => message
  | .jobId id => lit "invalid job id: " ++ P.reprText (.str id)
  | untrustedPath candidate root =>
    lit "path " ++ P.reprText (.str candidate) ++ lit " is outside the artifacts root " ++
      P.reprText (.str root)
  | recursion => lit "maximum recursion depth exceeded"
  | .jobNotFound id => id
  | jobTransition a b => lit "illegal transition " ++ a.value ++ lit " -> " ++ b.value
  | cancelled => []

namespace Platform

variable (P : Platform)

/-- `json.dumps(v, indent=2, sort_keys=True)`. -/
def dumpsPretty (v : Json) : Except JsonError Str := dumps P.floats ⟨some 2, true, P.dumpsLimit⟩ v

/-- `repr(v)`. It fails as the encoder does: on a value that nests too deep, and on an `int` that is
too long for a text. -/
def repr (v : Json) : Except JsonError Str :=
  match fault P.reprLimit v with
  | some e => .error e
  | none => .ok (P.reprText v)

/-- `json.load(handle)` of a file with the content `b`. -/
def load (b : Bytes) : Except JsonError Json := loadsBytes P.floats P.loadsLimit b

end Platform

namespace Platform

variable {P : Platform}

theorem repr_ok {v : Json} (hv : intsOk v = true) (hd : v.depth ≤ P.reprLimit) :
    P.repr v = .ok (P.reprText v) := by
  unfold repr
  rw [fault_of_intsOk _ v hv, if_pos hd]

end Platform

/-- The exception of `json.dumps`: a `RecursionError`, or the `ValueError` of an `int` that is too
long for a text. -/
def Exc.ofJson : JsonError → Exc
  | .recursion => .recursion
  | .value => .value (lit "Exceeds the limit (4300 digits) for integer string conversion")

/-! ## A platform for sample runs -/

namespace Sample

/-- `1.5`. -/
def oneAndHalf : PyFloat := ⟨0x3FF8000000000000#64⟩

/-- The text of `1.5`, and of any other float one with its bits in decimal. -/
def floatRepr (x : PyFloat) : Str :=
  if x = oneAndHalf then lit "1.5" else natText x.bits.toNat ++ lit "e+0"

def floatOfText (s : Str) : PyFloat :=
  if s = lit "1.5" then oneAndHalf else ⟨BitVec.ofNat 64 (natOf (s.takeWhile isDigit))⟩

theorem floatRepr_token (x : PyFloat) : IsFloatToken (floatRepr x) := by
  have digit : ∀ c, isDigit c = true → ∀ d ∈ [c], isDigit d = true := by
    intro c hc d hd
    rwa [List.mem_singleton.mp hd]
  unfold floatRepr
  refine .inl ?_
  split
  · exact ⟨lit "1", lit ".5", [], rfl, .inr ⟨cp '1', [], rfl, by decide, by decide, by simp⟩,
      .inr ⟨[cp '5'], rfl, by decide, digit _ rfl⟩, .inl rfl, .inl (by decide)⟩
  · exact ⟨natText x.bits.toNat, [], lit "e+0", by simp, natText_isIntBody _, .inl rfl,
      .inr ⟨cp '+', [cp '0'], rfl, .inl rfl, by decide, digit _ rfl⟩, .inr (by decide)⟩

theorem floatOfText_repr (x : PyFloat) : floatOfText (floatRepr x) = x := by
  unfold floatRepr
  split
  · rename_i h; rw [h]; rfl
  · have he : (natText x.bits.toNat ++ lit "e+0").getLast? = some (cp '0') := by
      rw [List.getLast?_append]; rfl
    have hne : natText x.bits.toNat ++ lit "e+0" ≠ lit "1.5" := by
      intro h
      rw [h] at he
      exact absurd he (by decide)
    have htake : (natText x.bits.toNat ++ lit "e+0").takeWhile isDigit = natText x.bits.toNat := by
      rw [List.takeWhile_append_of_pos (natText_digits _)]
      exact List.append_nil _
    rw [floatOfText, if_neg hne, htake, natOf_natText, BitVec.ofNat_toNat, BitVec.setWidth_eq]

def floats : FloatText := ⟨floatRepr, floatOfText, fun x _ => floatRepr_token x,
  fun x _ => floatOfText_repr x⟩

/-- Three frames at two a second, of one channel. -/
def wav : Bytes := [82, 73, 70, 70, 39, 0, 0, 0, 87, 65, 86, 69, 102, 109, 116, 32, 16, 0, 0, 0, 1,
  0, 1, 0, 2, 0, 0, 0, 2, 0, 0, 0, 1, 0, 8, 0, 100, 97, 116, 97, 3, 0, 0, 0, 128, 129, 130]

/-- Two instants. -/
def early : Str := lit "2026-01-01T00:00:00+00:00"
def late : Str := lit "2026-01-01T00:00:01.500000+00:00"

/-- What the library answers on the values of the sample runs. -/
def platform : Platform where
  floats := floats
  dumpsLimit := 990
  loadsLimit := 9990
  reprLimit := 9990
  three_le_dumps := by decide
  dumps_lt_loads := by decide
  loads_le_repr := by decide
  osText _ := lit "[Errno 5] Input/output error"
  reprText
    | .str s => cp '\'' :: s ++ [cp '\'']
    | _ => []
  sha256 b := if b = wav then
      lit "3a09a5cae83e81b1ddef5b6b8d70f08c2edefdc49aa46cac140ba1aa203a3f44"
    else []
  waveOpen b := if b = wav then .ok ⟨2, 1, 3⟩ else .error (lit "file does not start with RIFF id")
  trueDiv _ _ := oneAndHalf
  mul _ _ := oneAndHalf
  ofInt _ := oneAndHalf
  truncate _ := 1
  isoDelta s e := if s = early ∧ e = late then .ok oneAndHalf
    else .error (lit "Invalid isoformat string")

end Sample

end Music3
