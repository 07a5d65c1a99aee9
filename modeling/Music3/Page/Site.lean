import Music3.Page.Shell
import Music3.Routes.Events

/-!
# A page and its server

`site cfg` is the runner and one page of it, with what is on its way between the two: the answers to
the page's POST /jobs, the requests of its runs of `cancel()`, and the event stream of the job that
it watches, which its `EventSource` follows (a `Listener`). A request is handled at one point, and
its answer arrives at a later one or never. The runner has other clients too: it may take any step
of its own.
-/

namespace Music3

open Py

/-! ## Events -/

/-- The types that `startWatching` listens to. -/
def watchedTypes : List JobStatus := [.queued, .running, .succeeded, .failed, .cancelled]

/-- `parseData(ev).error`, if it is a text. -/
def JobEvent.error? (e : JobEvent) : Option Str :=
  match e.data.get? (lit "error") with
  | some (.str error) => some error
  | _ => none

/-- What a frame does to the page: nothing, if it is a comment or of another type. -/
def Frame.pageAction? (frame : Frame) : Option PageAction := do
  let e ← frame.event?
  let type ← watchedTypes.find? fun type => type.value = e.type
  return .jobEvent type e.error?

/-! ## The site -/

/-- How far the request of a `cancel()` is. -/
inductive Reply where
  /-- The POST has not been handled. -/
  | waiting
  /-- It has been answered with 409. -/
  | conflict
  /-- The 409 has arrived, and the GET of the job view has not been handled. -/
  | viewing
  /-- The last answer, with the status that the page reads from it. -/
  | told (status : Option JobStatus)

/-- See the module doc. -/
structure Site (G : Type) where
  runner : Runner G
  page : Page
  listener : Listener := {}
  /-- The answers to POST /jobs: the id and the status of each job view. -/
  posted : List (JobId × JobStatus) := []
  /-- A request for each run of `cancel()`, in the order of `Page.cancels`. -/
  requests : List (JobId × Reply) := []

/-- What can happen. -/
inductive SiteAction (G : Type) where
  | server (a : Action G)
  /-- An action that involves no job (`PageAction.isLocal`). -/
  | page (a : PageAction)
  | clickCancel
  | postHandled (submission : Submission) (now : Str) (id : JobId)
  | postAnswered (id : JobId)
  /-- The job of a POST has been made, but its answer is lost. -/
  | postLost (id : JobId)
  | postRefused
  | cancelHandled (i : Nat) (now : Str)
  | viewHandled (i : Nat)
  | cancelAnswered (i : Nat)
  | cancelLost (i : Nat)
  | listen (a : Listen)

/-- A click or a key that sends at most a POST /jobs, or the health poll. -/
def PageAction.isLocal : PageAction → Bool
  | clickGenerate _ | ctrlEnter _ | healthAnswered _ _ | healthFailed | healthTick => true
  | clickCancel | postAccepted _ _ | postRefused | jobEvent _ _ | cancelAnswered _ _
  | cancelConflict _ => false

section
variable {G : Type}

/-- `cancel_job`: the runner, and the answer. -/
def cancelJob (id : JobId) (now : Str) (s : Runner G) : Reply × Runner G :=
  match (cancel id now).run s with
  | .ok record s => (.told (some record.status), s)
  | .error (.jobTransition _ _) s => (.conflict, s)
  | .error _ s => (.told none, s)

namespace Site

/-- What the page handles when the client takes a step. -/
def arriving (s : Site G) : Listen → Option PageAction
  | .deliver => s.listener.inFlight.head?.bind Frame.pageAction?
  | _ => none

/-- The page after it. -/
def hear (s : Site G) (a : Listen) : Option Page :=
  match s.arriving a with
  | some action => s.page.step action
  | none => some s.page

variable [ReadinessGate G] (cfg : Config)

/-- One step. The ids that the store makes are new. -/
def step (s : Site G) : SiteAction G → Option (Site G)
  | .server a => (s.runner.step cfg a).map fun runner => { s with runner }
  | .page a => if a.isLocal then (s.page.step a).map fun page => { s with page } else none
  | .clickCancel => (s.page.step .clickCancel).map fun page => { s with
      page
      requests := s.requests ++ (s.page.job.map fun job => (job.id, Reply.waiting)).toList }
  | .postHandled submission now id =>
    if s.posted.length < s.page.posts ∧ s.runner.store.job? id = none then
      match (submit submission now id).run s.runner with
      | .ok record runner => some { s with
          runner, posted := Assoc.set s.posted record.id record.status }
      | .error _ _ => none
    else none
  | .postAnswered id =>
    match Assoc.get? s.posted id with
    | some status => (s.page.step (.postAccepted id status)).map fun page => { s with
        page, posted := Assoc.erase s.posted id, listener := {} }
    | none => none
  | .postLost id =>
    match Assoc.get? s.posted id with
    | some _ => (s.page.step .postRefused).map fun page => { s with
        page, posted := Assoc.erase s.posted id }
    | none => none
  | .postRefused =>
    if s.posted.length < s.page.posts then
      (s.page.step .postRefused).map fun page => { s with page }
    else none
  | .cancelHandled i now =>
    match s.requests[i]? with
    | some (id, .waiting) =>
      let (reply, runner) := cancelJob id now s.runner
      some { s with runner, requests := s.requests.set i (id, reply) }
    | _ => none
  | .viewHandled i =>
    match s.requests[i]? with
    | some (id, .viewing) =>
      match s.runner.store.get id with
      | .ok record => some { s with
          requests := s.requests.set i (id, .told (some record.status)) }
      | .error _ => none
    | _ => none
  | .cancelAnswered i =>
    match s.requests[i]? with
    | some (id, .conflict) => (s.page.step (.cancelConflict i)).map fun page => { s with
        page, requests := s.requests.set i (id, .viewing) }
    | some (_, .told status) => (s.page.step (.cancelAnswered i status)).map fun page => { s with
        page, requests := s.requests.eraseIdx i }
    | _ => none
  | .cancelLost i => (s.page.step (.cancelAnswered i none)).map fun page => { s with
      page, requests := s.requests.eraseIdx i }
  | .listen a =>
    match s.page.eventSource with
    | some id => do
      let listener ← s.listener.step s.runner.store id a
      let page ← s.hear a
      return { s with page, listener }
    | none => none

end Site

/-- The site as a labelled system: a runner that has just been made, and a page at the end of its
`main()`. -/
def site [ReadinessGate G] (cfg : Config) : Lts (Site G) (SiteAction G) where
  init s := (runner cfg).init s.runner ∧ page.init s.page ∧
    s = { runner := s.runner, page := s.page }
  step := Site.step cfg

end

end Music3
