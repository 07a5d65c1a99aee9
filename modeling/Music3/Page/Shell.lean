import Music3.Jobs.Runner

/-!
# The page

The action shell of `app.js` as a labelled system: the user's actions, the answers to the requests
that the page has sent, the events of the job that it watches and the ticks of its health timer, in
any order. Each action runs one handler, or what is left of an `async` one, up to its next await.

Of the elements it has the two buttons and the status region. `posts`, `polls` and `cancels` are
the requests in flight. What only the result and the artifact list show is left out.
-/

namespace Music3

open Py

/-- `deriveStatus`'s result. -/
structure DerivedStatus where
  kind : Str
  label : Str
  canCancel : Bool

/-- `TERMINAL.has`. -/
def isTerminal (status : JobStatus) : Bool :=
  status = .succeeded ∨ status = .failed ∨ status = .cancelled

/-- `deriveStatus`. -/
def deriveStatus (jobStatus : Option JobStatus) (engineState : Option ReadinessState) :
    DerivedStatus :=
  match jobStatus with
  | none => ⟨lit "idle", lit "Idle — nothing submitted yet.", false⟩
  | some .running => ⟨lit "generating", lit "Generating…", true⟩
  | some .queued =>
    match engineState with
    | some .warming =>
      ⟨lit "warming", lit "Warming up the GPU… (typically 71–87 s)", true⟩
    | some .unavailable => ⟨lit "unavailable", lit "Engine unavailable", true⟩
    | _ => ⟨lit "queued", lit "Queued — waiting for the engine slot", true⟩
  | some .succeeded => ⟨lit "succeeded", lit "Succeeded", false⟩
  | some .failed => ⟨lit "failed", lit "Failed", false⟩
  | some .cancelled => ⟨lit "cancelled", lit "Cancelled", false⟩

/-- `state.job`. -/
structure PageJob where
  id : JobId
  status : JobStatus
  error : Option Str := none

/-- Where a run of `cancel()` for a job waits: for the answer to its POST, or, after a 409, for the
job view. -/
inductive CancelStage where
  | posted
  | viewing
  deriving DecidableEq

/-- The page (module doc). -/
structure Page where
  job : Option PageJob := none
  /-- `state.engine`: its state and the cause. -/
  engine : Option (ReadinessState × Str) := none
  eventSource : Option JobId := none
  healthTimer : Bool := false
  generateDisabled : Bool := false
  cancelShown : Bool := false
  cancelDisabled : Bool := false
  /-- The status region: its text, its `data-state` and the cause below it. -/
  statusText : Str := []
  statusState : Str := []
  statusCause : Str := []
  posts : Nat := 0
  polls : Nat := 0
  cancels : List (JobId × CancelStage) := []

namespace Page

/-- The text below the status. -/
def cause (s : Page) (kind : Str) : Str :=
  let cause :=
    match s.engine with
    | some (_, cause) => if kind = lit "warming" ∨ kind = lit "unavailable" then cause else []
    | none => []
  match s.job with
  | some ⟨_, _, some error⟩ => if kind = lit "failed" ∧ error ≠ [] then error else cause
  | _ => cause

/-- `renderStatus`. -/
def renderStatus (s : Page) : Page :=
  let derived := deriveStatus (s.job.map PageJob.status) (s.engine.map Prod.fst)
  { s with
    statusText := derived.label
    statusState := derived.kind
    statusCause := s.cause derived.kind
    cancelShown := derived.canCancel
    generateDisabled := derived.canCancel }

/-- `stopWatching`. -/
def stopWatching (s : Page) : Page := { s with eventSource := none, healthTimer := false }

/-- `pollHealth` up to its await. -/
def pollHealth (s : Page) : Page := { s with polls := s.polls + 1 }

/-- `startWatching`. -/
def startWatching (s : Page) (id : JobId) : Page :=
  { (pollHealth { s.stopWatching with eventSource := some id }) with healthTimer := true }

/-- `state.job.status = status`, if the page's job is still `id`. -/
def setStatus (s : Page) (id : JobId) (status : JobStatus) : Page :=
  match s.job with
  | some job => if job.id = id then { s with job := some { job with status } } else s
  | none => s

/-- `submit`, up to its await. `valid` is what the guards find in the form. -/
def submit (s : Page) (valid : Bool) : Page :=
  if valid then { s with generateDisabled := true, posts := s.posts + 1 } else s

/-- `submit` after its POST has been accepted. -/
def accepted (s : Page) (id : JobId) (status : JobStatus) : Page :=
  (renderStatus { s with posts := s.posts - 1, job := some ⟨id, status, none⟩, engine := none })
    |>.startWatching id

/-- `submit` after its POST has been refused or has failed. -/
def refused (s : Page) : Page := { s with posts := s.posts - 1, generateDisabled := false }

/-- `cancel`, up to its await. -/
def cancel (s : Page) : Page :=
  match s.job with
  | some job => { s with
      statusText := lit "Cancelling…"
      statusState := lit "cancelling"
      cancelDisabled := true
      cancels := s.cancels ++ [(job.id, .posted)] }
  | none => s

/-- `cancel` after its last answer: the status that it tells, if any, and the `finally` block up to
`renderStatus()`. After a 409 the source takes the status of the job view whatever it is; the view of
a job has one. -/
def cancelled (s : Page) (i : Nat) (id : JobId) (status : Option JobStatus) : Page :=
  let s := { s with cancels := s.cancels.eraseIdx i, cancelDisabled := false }
  match status with
  | some status => s.setStatus id status
  | none => s

/-- The page's job is in flight: it can be cancelled. -/
def inFlight (s : Page) : Bool :=
  (deriveStatus (s.job.map PageJob.status) (s.engine.map Prod.fst)).canCancel

end Page

/-- What can happen to the page. -/
inductive PageAction where
  /-- A click on Generate. -/
  | clickGenerate (valid : Bool)
  /-- Ctrl+Enter or Cmd+Enter in a textarea. -/
  | ctrlEnter (valid : Bool)
  | clickCancel
  | postAccepted (id : JobId) (status : JobStatus)
  | postRefused
  | healthAnswered (engine : ReadinessState) (cause : Str)
  /-- Any other end of a poll: another status code, or an exception. -/
  | healthFailed
  | healthTick
  /-- An event of the job that the page watches, with the error in its data. -/
  | jobEvent (type : JobStatus) (error : Option Str)
  /-- The end of the `i`th run of `cancel()`; without a status for any other answer. -/
  | cancelAnswered (i : Nat) (status : Option JobStatus)
  /-- The answer 409, after which the job view is fetched. -/
  | cancelConflict (i : Nat)

namespace Page

/-- `onJobEvent` up to `renderStatus()`. -/
def onJobEvent (s : Page) (id : JobId) (type : JobStatus) (error : Option Str) : Option Page :=
  match s.job with
  | some job =>
    if job.id = id then
      let error :=
        if type = .failed then some ((error.filter (· ≠ [])).getD (lit "generation failed"))
        else job.error
      some { s with job := some { job with status := type, error } }
    else none
  | none => none

/-- The page that an answer or an event renders, before `renderStatus()`; `none` if it renders
none. -/
def rendered? (s : Page) : PageAction → Option Page
  | .healthAnswered engine cause =>
    if 0 < s.polls then some { s with polls := s.polls - 1, engine := some (engine, cause) }
    else none
  | .jobEvent type error =>
    match s.eventSource with
    | some id => s.onJobEvent id type error
    | none => none
  | .cancelAnswered i status =>
    match s.cancels[i]? with
    | some (id, _) => some (s.cancelled i id status)
    | none => none
  | _ => none

/-- One action (module doc). -/
def step (s : Page) : PageAction → Option Page
  | .clickGenerate valid => if s.generateDisabled then none else some (s.submit valid)
  | .ctrlEnter valid => some (if s.generateDisabled then s else s.submit valid)
  | .clickCancel => if s.cancelShown ∧ ¬ s.cancelDisabled then some s.cancel else none
  | .postAccepted id status => if 0 < s.posts then some (s.accepted id status) else none
  | .postRefused => if 0 < s.posts then some s.refused else none
  | .healthAnswered engine cause => (s.rendered? (.healthAnswered engine cause)).map renderStatus
  | .healthFailed => if 0 < s.polls then some { s with polls := s.polls - 1 } else none
  | .healthTick => if s.healthTimer then some s.pollHealth else none
  | .jobEvent type error =>
    match s.eventSource with
    | some _ =>
      match s.rendered? (.jobEvent type error) with
      | some s => some (if isTerminal type then s.renderStatus.stopWatching else s.renderStatus)
      | none => some s
    | none => none
  | .cancelAnswered i status => (s.rendered? (.cancelAnswered i status)).map renderStatus
  | .cancelConflict i =>
    match s.cancels[i]? with
    | some (id, .posted) => some { s with cancels := s.cancels.set i (id, .viewing) }
    | _ => none

end Page

/-- The page as a labelled system, from the end of `main()`. -/
def page : Lts Page PageAction where
  init s := s = (Page.renderStatus {}).pollHealth
  step := Page.step

end Music3
