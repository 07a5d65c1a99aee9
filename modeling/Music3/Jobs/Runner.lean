import Music3.Jobs.ArtifactWrite
import Music3.Lib.Lts

/-!
# The single-slot runner

`JobRunner` of `jobs/runner.py`, with its store and the file tree that it writes to, as a labelled
system. An action is the code between two awaits, or something that the environment does: an
answer of `ensure_ready()`, the end of an engine call, a change of the readiness gate. Every
`await` ends an action, also one that would not suspend.

* `Worker` is the await that the worker coroutine is suspended on. `step` resumes it with what it
  waits for: `dequeue`, `readyReturns`, `resume` (the engine call has ended).
* `stop` is `Task.cancel()` of the worker. On an engine call that has not ended it is forwarded to
  that call and marks nothing else. Anywhere else it marks the worker (`mustCancel`), which is
  then resumed with a `CancelledError` (`teardown`, `resume`).
* A cancelled engine call ends when `generate` ends (`engineEnds`), in any of its three ways.
* `settle` is the body of `_loop` around a part of `_process`.

`trace` records what the runner has done, in order; no code reads it.
-/

namespace Music3

open Py Posix StateExcept

/-- `ReadinessState`. -/
inductive ReadinessState where
  | ready | warming | unavailable
  deriving DecidableEq

def ReadinessState.value : ReadinessState → Str
  | ready => lit "ready"
  | warming => lit "warming"
  | unavailable => lit "unavailable"

/-- `ReadinessGate`: entering and leaving a lease, and the last cause. -/
class ReadinessGate (G : Type) where
  leaseEnter : G → G
  leaseExit : G → G
  lastCause : G → Str

/-- What the runner is made with. -/
structure Config where
  model : Str
  artifactsRoot : Option Str
  env : Env
  platform : Platform

/-- An engine call's state. `cancelRequested` is `Task.cancel()` on a call that has not ended. -/
inductive CallState where
  | live (cancelRequested : Bool)
  | done (outcome : Outcome)

/-- A task of `engine.generate(request)`. -/
structure EngineCall where
  job : JobId
  request : EngineRequest
  state : CallState

/-- The await that the worker is suspended on. -/
inductive Worker where
  | unstarted
  | atQueue
  | atReady (job : JobId)
  | atEngine (job : JobId) (task : Nat) (request : EngineRequest)
  /-- Ended by `CancelledError`, on a job or at the queue. -/
  | stopped (job : Option JobId)
  /-- Ended by another exception. -/
  | died (job : JobId) (exc : Exc)

/-- The job that the worker has taken and not finished. -/
def Worker.job? : Worker → Option JobId
  | unstarted | atQueue => none
  | atReady job | atEngine job _ _ | died job _ => some job
  | stopped job => job

/-- What the runner has done. -/
inductive Obs where
  | submitted (job : JobId)
  | dequeued (job : JobId)
  | readyCalled (job : JobId)
  | readyReturned (job : JobId) (state : ReadinessState)
  | engineStarted (job : JobId)
  | event (job : JobId) (e : JobEvent)
  | writeCalled (job : JobId)
  | transitionNet (job : JobId)
  | processed (job : JobId)

/-- `JobRunner` (module doc). -/
structure Runner (G : Type) where
  store : JobStore
  queue : List JobId := []
  cancelled : List JobId := []
  current : Option JobId := none
  currentTask : Option Nat := none
  worker : Worker := .unstarted
  mustCancel : Bool := false
  calls : List EngineCall := []
  gate : G
  fs : Fs
  stopRequested : Bool := false
  trace : List Obs := []

/-- Code of the runner. What it has changed stays changed when it raises. -/
abbrev RunnerM (G : Type) := EStateM Exc (Runner G)

/-- What the code between two awaits ends with: an await, or the return of `_process`. -/
inductive Next where
  | ready
  | engine (task : Nat) (request : EngineRequest)
  | returned

section
variable {G : Type}

def observe (o : Obs) : RunnerM G Unit := modify fun s => { s with trace := s.trace ++ [o] }

/-- `self._store.get(job_id)`. -/
def getJob (job : JobId) : RunnerM G JobRecord := do ofExcept ((← get).store.get job)

/-- `self._store.update(job_id, fn)`. -/
def updateJob (job : JobId) (fn : JobRecord → Except Exc JobRecord) : RunnerM G JobRecord := do
  let (record, store) ← ofExcept ((← get).store.update job fn)
  modify fun s => { s with store }
  return record

/-- `self._store.append_event(job_id, type, data)`. -/
def appendEvent (job : JobId) (type : Str) (data : Dict) : RunnerM G Unit := do
  let (e, store) ← ofExcept ((← get).store.appendEvent job type data)
  modify fun s => { s with store }
  observe (.event job e)

/-- `submit`, with the id that the store makes. -/
def submit (submission : Submission) (now : Str) (jobId : JobId) : RunnerM G JobRecord := do
  let (record, store) := (← get).store.create submission now jobId
  modify fun s => { s with store }
  observe (.submitted jobId)
  appendEvent record.id JobStatus.queued.value []
  modify fun s => { s with queue := s.queue ++ [record.id] }
  return record

/-- `Task.cancel()` on an engine call: it marks a live call, and does nothing to one that has
ended. -/
def CallState.cancel : CallState → CallState
  | live _ => live true
  | done outcome => done outcome

def EngineCall.cancel (c : EngineCall) : EngineCall := { c with state := c.state.cancel }

def cancelCall (task : Nat) : RunnerM G Unit :=
  modify fun s => { s with calls := s.calls.modify task EngineCall.cancel }

/-- `cancel`. -/
def cancel (jobId : JobId) (now : Str) : RunnerM G JobRecord := do
  let record ← getJob jobId
  if record.status.terminal then throw (.jobTransition record.status .cancelled)
  modify fun s => { s with cancelled := s.cancelled ++ [jobId] }
  let s ← get
  match s.currentTask with
  | some task =>
    if record.status = .running ∧ s.current = some jobId then cancelCall task
  | none => pure ()
  let updated ← updateJob jobId (toCancelled now)
  appendEvent jobId JobStatus.cancelled.value []
  return updated

/-- `_ensure_cancelled`. -/
def ensureCancelled (jobId : JobId) (now : Str) : RunnerM G Unit := do
  let record ← getJob jobId
  if !record.status.terminal then
    let _ ← updateJob jobId (toCancelled now)
    appendEvent jobId JobStatus.cancelled.value []

/-- `to_failed` and its event, with an error message. -/
def failJob (jobId : JobId) (message now : Str) : RunnerM G Unit := do
  let _ ← updateJob jobId (toFailed message now)
  appendEvent jobId JobStatus.failed.value [(lit "error", .str message)]

/-- `_process` up to the call of `ensure_ready()`. -/
def processDequeued (jobId : JobId) (now : Str) : RunnerM G Next := do
  if jobId ∈ (← get).cancelled then
    ensureCancelled jobId now
    return .returned
  observe (.readyCalled jobId)
  return .ready

section
variable [ReadinessGate G] (cfg : Config)

/-- The request of a submission. -/
def engineRequest (submission : Submission) : EngineRequest where
  model := cfg.model
  input := submission.input
  instructions := submission.instructions
  seed := submission.seed
  maxNewTokens := submission.maxNewTokens

/-- The error of a job whose engine is not ready. -/
def notReadyMessage (state : ReadinessState) (cause : Str) : Str :=
  lit "engine not ready: " ++ state.value ++
    if cause = [] then [] else lit " (" ++ cause ++ lit ")"

/-- `_process` from the return of `ensure_ready()` to the await of the engine call. -/
def processReady (jobId : JobId) (state : ReadinessState) (now : Str) : RunnerM G Next := do
  if jobId ∈ (← get).cancelled then
    ensureCancelled jobId now
    return .returned
  if state ≠ .ready then
    let message := notReadyMessage state (ReadinessGate.lastCause (← get).gate)
    failJob jobId message now
    return .returned
  let _ ← updateJob jobId (toRunning now)
  appendEvent jobId JobStatus.running.value []
  let submission := (← getJob jobId).submission
  let request := engineRequest cfg submission
  let task := (← get).calls.length
  modify fun s => { s with
    current := some jobId
    currentTask := some task
    calls := s.calls ++ [⟨jobId, request, .live false⟩] }
  observe (.engineStarted jobId)
  modify fun s => { s with gate := ReadinessGate.leaseEnter s.gate }
  return .engine task request

/-- `artifacts.write_artifact`, on the runner's file tree. `faults` are the faults of its calls, in
order; nobody else changes the tree. -/
def callWriteArtifact (record : JobRecord) (root : Str) (translated : Dict)
    (faults : List (Option Nat)) : RunnerM G Unit := do
  observe (.writeCalled record.id)
  let sys : Sys := { fs := (← get).fs, turns := faults.map fun fault => { fault } }
  match (writeArtifact cfg.platform record root translated cfg.env).run sys with
  | .ok _ sys => modify fun s => { s with fs := sys.fs }
  | .error e sys =>
    modify fun s => { s with fs := sys.fs }
    throw e

/-- `_persist_and_succeed`. `now` and `later` are the two instants that it reads. -/
def persistAndSucceed (jobId : JobId) (result : EngineResult) (request : EngineRequest)
    (now later : Str) (faults : List (Option Nat)) : RunnerM G Unit := do
  match cfg.artifactsRoot with
  | some root => do
    let succeeded ← ofExcept (toSucceeded result now (← getJob jobId))
    let translated := buildBody request
    let failure ← tryCatch
      (do
        callWriteArtifact cfg succeeded root translated faults
        return none)
      fun e => if isWriteFailure e then return some e else throw e
    match failure with
    | some e => failJob jobId (lit "artifact write failed: " ++ e.text cfg.platform) later
    | none => do
      let _ ← updateJob jobId (toSucceeded result now)
      appendEvent jobId JobStatus.succeeded.value []
  | none => do
    let _ ← updateJob jobId (toSucceeded result now)
    appendEvent jobId JobStatus.succeeded.value []

/-- `finally: self._current = None; self._current_task = None`. -/
def clearCurrent : RunnerM G Unit :=
  modify fun s => { s with current := none, currentTask := none }

/-- The clauses of `_process` around the await of the engine call: `except CancelledError`,
`except EngineError` and `else`. -/
def handleOutcome (jobId : JobId) (task : Nat) (request : EngineRequest) (outcome : Outcome)
    (now later : Str) (faults : List (Option Nat)) : RunnerM G Unit := do
  match outcome with
  | .cancelled =>
    if jobId ∈ (← get).cancelled then ensureCancelled jobId now
    else
      cancelCall task
      throw .cancelled
  | .error message =>
    if jobId ∈ (← get).cancelled then ensureCancelled jobId now
    else failJob jobId message now
  | .result result =>
    if jobId ∈ (← get).cancelled then ensureCancelled jobId now
    else persistAndSucceed cfg jobId result request now later faults

/-- `_process` from the await of the engine call to its end. `outcome` is how the await ends. -/
def processOutcome (jobId : JobId) (task : Nat) (request : EngineRequest) (outcome : Outcome)
    (now later : Str) (faults : List (Option Nat)) : RunnerM G Next := do
  modify fun s => { s with gate := ReadinessGate.leaseExit s.gate }
  tryCatch (handleOutcome cfg jobId task request outcome now later faults) fun e => do
    clearCurrent
    throw e
  clearCurrent
  return .returned

end

/-! ## The loop and its environment -/

/-- What the runner has done, and one thing more. -/
def Runner.note (s : Runner G) (o : Obs) : Runner G := { s with trace := s.trace ++ [o] }

/-- The job is done: `task_done()`, and `_loop` is back at the queue. -/
def Runner.finish (s : Runner G) (jobId : JobId) : Runner G :=
  { s.note (.processed jobId) with worker := .atQueue }

/-- `_loop` around a part of `_process`. -/
def settle (jobId : JobId) (m : RunnerM G Next) (s : Runner G) : Runner G :=
  match m.run s with
  | .ok .ready s => { s with worker := .atReady jobId }
  | .ok (.engine task request) s => { s with worker := .atEngine jobId task request }
  | .ok .returned s => s.finish jobId
  | .error (.jobTransition _ _) s =>
    (s.note (.transitionNet jobId)).finish jobId
  | .error .cancelled s => { s with worker := .stopped (some jobId), mustCancel := false }
  | .error e s => { s with worker := .died jobId e }

/-- The actions of the runner and of its environment. -/
inductive Action (G : Type) where
  | start
  | stop
  | submit (submission : Submission) (now : Str) (jobId : JobId)
  | cancel (jobId : JobId) (now : Str)
  | dequeue (now : Str)
  | readyReturns (state : ReadinessState) (now : Str)
  | engineEnds (task : Nat) (outcome : Outcome)
  | resume (now later : Str) (faults : List (Option Nat))
  /-- The `CancelledError` of `stop` at the queue or in `ensure_ready()`. -/
  | teardown
  | gate (g : G)

/-- The state after code that may raise: a caller's exception is the caller's. -/
def stateAfter {α : Type} (m : RunnerM G α) (s : Runner G) : Runner G :=
  match m.run s with
  | .ok _ s => s
  | .error _ s => s

/-- `self._worker.cancel()`. A task that has ended ignores it. -/
def Runner.stop (s : Runner G) : Option (Runner G) :=
  match s.worker with
  | .unstarted | .stopped _ | .died _ _ => none
  | .atQueue | .atReady _ => some { s with stopRequested := true, mustCancel := true }
  | .atEngine _ task _ =>
    match s.calls[task]? with
    | some ⟨_, _, .live _⟩ =>
      some { s with stopRequested := true, calls := s.calls.modify task EngineCall.cancel }
    | _ => some { s with stopRequested := true, mustCancel := true }

/-- The outcome of the await of an engine call that has ended: `CancelledError` if the worker is
marked. -/
def Runner.awaited (s : Runner G) (outcome : Outcome) : Outcome :=
  if s.mustCancel then .cancelled else outcome

variable [ReadinessGate G]

/-- One action (module doc). -/
def Runner.step (cfg : Config) (s : Runner G) : Action G → Option (Runner G)
  | .start =>
    match s.worker with
    | .unstarted => some { s with worker := .atQueue }
    | _ => none
  | .stop => s.stop
  | .submit submission now jobId =>
    if (s.store.job? jobId).isSome then none
    else some (stateAfter (submit submission now jobId) s)
  | .cancel jobId now => some (stateAfter (Music3.cancel jobId now) s)
  | .dequeue now =>
    match s.worker, s.mustCancel, s.queue with
    | .atQueue, false, jobId :: queue =>
      some (settle jobId (processDequeued jobId now)
        ({ s with queue }.note (.dequeued jobId)))
    | _, _, _ => none
  | .readyReturns state now =>
    match s.worker, s.mustCancel with
    | .atReady jobId, false =>
      some (settle jobId (processReady cfg jobId state now)
        (s.note (.readyReturned jobId state)))
    | _, _ => none
  | .engineEnds task outcome =>
    match s.calls[task]? with
    | some ⟨job, request, .live _⟩ =>
      some { s with calls := s.calls.set task ⟨job, request, .done outcome⟩ }
    | _ => none
  | .resume now later faults =>
    match s.worker with
    | .atEngine jobId task request =>
      match s.calls[task]? with
      | some ⟨_, _, .done outcome⟩ =>
        some (settle jobId
          (processOutcome cfg jobId task request (s.awaited outcome) now later faults)
          { s with mustCancel := false })
      | _ => none
    | _ => none
  | .teardown =>
    match s.worker, s.mustCancel with
    | .atQueue, true => some { s with worker := .stopped none, mustCancel := false }
    | .atReady jobId, true => some { s with worker := .stopped (some jobId), mustCancel := false }
    | _, _ => none
  | .gate g => some { s with gate := g }

/-- The runner as a labelled system: it starts with an empty store, and with the file tree of the
configured root. -/
def runner (cfg : Config) : Lts (Runner G) (Action G) where
  init s := ∃ limit store gate fs, JobStore.new limit = .ok store ∧
    (∀ root, cfg.artifactsRoot = some root → fs.rootPath = root) ∧ s = { store, gate, fs }
  step := Runner.step cfg

end

/-! ## A runner for sample runs -/

namespace Sample

/-- A gate that counts its leases. -/
structure Readiness where
  cause : Str := []
  leases : Nat := 0

instance : ReadinessGate Readiness where
  leaseEnter g := { g with leases := g.leases + 1 }
  leaseExit g := { g with leases := g.leases - 1 }
  lastCause g := g.cause

def model : Str := lit "MiniMaxAI/MiniMax-Music3"
def root : Str := lit "/artifacts"

def config (artifactsRoot : Option Str) : Config :=
  { model, artifactsRoot, env := fun _ => none, platform }

/-- An empty root. -/
def fs : Fs := ⟨[.dir .empty], 0, root, root, id⟩

def initial : Runner Readiness := { store := ⟨[], [], [], 1000, by decide⟩, gate := {}, fs }

theorem init_initial {artifactsRoot : Option Str} (h : ∀ r, artifactsRoot = some r → root = r) :
    (runner (config artifactsRoot)).init initial := ⟨1000, _, _, fs, rfl, h, rfl⟩

def submission : Submission :=
  { input := lit "[Verse]", instructions := lit "warm", seed := 0, maxNewTokens := 250 }

def result : EngineResult where
  audio := wav
  contentType := lit "audio/wav"
  engine := lit "sglang"
  model := model
  generationSeconds := oneAndHalf
  audio_lt := by decide

/-- Two ids. -/
def one : JobId := lit "0a"
def two : JobId := lit "0b"

/-- A sample run without a root. -/
theorem reach {as : List (Action Readiness)} {s : Runner Readiness}
    (h : (runner (config none)).run initial as = some s) :
    (runner (config none)).Reach Lts.always s :=
  ⟨initial, init_initial nofun, Lts.path_of_run h⟩

end Sample

end Music3
