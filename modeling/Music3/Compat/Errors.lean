import Music3.Lib.StateExcept
import Music3.Platform

/-!
# Refusals of the cloud edge, and its envelopes

`compat/errors.py`: `CompatError` and the `base_resp` object.

A refusal that shows a value fails with another exception where `repr` does: the second case of
`EdgeError`.
-/

namespace Music3

open Py

def success : Int := 0
def invalidParams : Int := 2013
def localFailure : Int := 5000

/-- `CompatError`. -/
structure CompatError where
  code : Int
  field : Option Str
  message : Str

/-- `_refuse`. -/
def refuse (field : Option Str) (message : Str) : CompatError := ⟨invalidParams, field, message⟩

/-- How the code of the edge fails: with a refusal, or with another exception. -/
inductive EdgeError where
  | compat (e : CompatError)
  | raised (e : JsonError)

/-- The refusal of `field` with a message that shows a value with the text `text`. -/
def refuseShowing (field : Str) (text : Except JsonError Str) (message : Str → Str) : EdgeError :=
  match text with
  | .ok t => .compat (refuse (some field) (message t))
  | .error e => .raised e

/-- `base_resp`. -/
def baseResp (code : Int) (msg : Str) : Json :=
  .obj [(lit "status_code", .int code), (lit "status_msg", .str msg)]

/-- `error_envelope`. -/
def errorEnvelope (code : Int) (msg : Str) (traceId : Option Str) : Json := .obj [
  (lit "data", .null),
  (lit "trace_id", (traceId.map Json.str).getD .null),
  (lit "extra_info", .null),
  (lit "analysis_info", .null),
  (lit "base_resp", baseResp code msg)]

end Music3
