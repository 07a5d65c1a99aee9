import Music3.Platform

/-!
# The engine's request and result

`build_body` and the records of `engines/sglang/client.py`. The HTTP call itself is not modelled:
a call of `generate` ends with an `EngineResult`, an `EngineError` or a `CancelledError`
(`Outcome`), and each of these can be any one.
-/

namespace Music3

open Py

/-- `EngineRequest`. -/
structure EngineRequest where
  model : Str
  input : Str
  instructions : Str
  seed : Int
  maxNewTokens : Int

/-- `EngineResult`. A `bytes` object has at most `sys.maxsize` bytes. -/
structure EngineResult where
  audio : Bytes
  contentType : Str
  engine : Str
  model : Str
  generationSeconds : PyFloat
  audio_lt : audio.length < 2 ^ 63

/-- How a call of `generate` ends. -/
inductive Outcome where
  | result (r : EngineResult)
  | error (message : Str)
  | cancelled

def responseFormat : Str := lit "wav"

namespace Sglang

def maxNewTokensCeiling : Int := 9000

end Sglang

/-- `build_body`. -/
def buildBody (request : EngineRequest) : Dict := [
  (lit "model", .str request.model),
  (lit "input", .str request.input),
  (lit "instructions", .str request.instructions),
  (lit "response_format", .str responseFormat),
  (lit "seed", .int request.seed),
  (lit "max_new_tokens", .int request.maxNewTokens),
  (lit "stream", .bool false)]

end Music3
