import Music3.Lifecycle.IdleDown

/-!
# The container controller

`DockerController`: one request to the daemon for each verb, whose outcome is any failure of the
transport, or any response. `reprOf` is `repr(exc)` of the `ValueError` that `response.json()`
raises for a body.

* `statusAction`, `App.statusEnds`: what the end of `status()` is for the code that waits for it. An
  exception that is no `ControllerError` ends the drive with the worker in it, or the idle loop.
* `docker_status_safe`: for which answers this cannot happen.
-/

namespace Music3

open Py Readiness

/-- The outcome of a request: an `httpx.HTTPError`, or a response. -/
inductive HttpOutcome where
  | failed (repr : Str)
  | response (statusCode : Nat) (content : Bytes)

/-- The exceptions of the controller. `ControllerUnavailable` is a `ControllerError`. -/
inductive ControllerExc where
  | controllerError (message : Str)
  | controllerUnavailable (message : Str)
  | other (e : Exc)

/-- `except ControllerError`, with the text of the exception. -/
def ControllerExc.controllerError? : ControllerExc → Option Str
  | controllerError message => some message
  | controllerUnavailable message => some message
  | other _ => none

/-- `parse_container_state`, of any value. -/
def parseContainerState : Json → Except Exc ContainerState
  | .obj inspect =>
    match Dict.get inspect (lit "State") with
    | .obj state =>
      match Dict.get state (lit "Running") with
      | .bool true => .ok .running
      | _ => .ok .stopped
    | _ => .ok .stopped
  | v => .error (.noGet v)

namespace DockerController

variable (P : Platform) (reprOf : Bytes → Str)

/-- `status`. -/
def status : HttpOutcome → Except ControllerExc ContainerState
  | .failed repr => .error (.controllerUnavailable (lit "docker inspect failed: " ++ repr))
  | .response code content =>
    if code = 404 then .ok .absent
    else if code / 100 ≠ 2 then
      .error (.controllerUnavailable (lit "docker inspect returned status " ++ natText code))
    else
      match P.load content with
      | .error .value => .error (.controllerUnavailable
          (lit "docker inspect returned a non-JSON body: " ++ reprOf content))
      | .error .recursion => .error (.other .recursion)
      | .ok body => (parseContainerState body).mapError .other

/-- `start`. -/
def start : HttpOutcome → Except ControllerExc Unit
  | .failed repr => .error (.controllerUnavailable
      (lit "docker POST /containers/minimax-music3-sglang/start failed: " ++ repr))
  | .response code _ =>
    if code = 204 ∨ code = 304 then .ok ()
    else if code = 404 then .error (.controllerError
      (lit "container 'minimax-music3-sglang' is not defined (404); refusing to create it"))
    else .error (.controllerUnavailable (lit "docker start returned status " ++ natText code))

/-- `stop`. -/
def stop : HttpOutcome → Except ControllerExc Unit
  | .failed repr => .error (.controllerUnavailable
      (lit "docker POST /containers/minimax-music3-sglang/stop failed: " ++ repr))
  | .response code _ =>
    if code = 204 ∨ code = 304 ∨ code = 404 then .ok ()
    else .error (.controllerUnavailable (lit "docker stop returned status " ++ natText code))

end DockerController

/-! ## The code that waits for it -/

/-- The action with which the code goes on that waits for `status()`. An exception that its
`except ControllerError` does not take ends it. -/
def statusAction (h : Holder) (result : Except ControllerExc ContainerState) : ReadyAction :=
  match h, result with
  | .caller c, .ok container => .statusReturns c (.ok container)
  | .caller c, .error e =>
    match e.controllerError? with
    | some message => .statusReturns c (.error message)
    | none => .abort c
  | .idle, .ok container => .idleStatus (.ok container)
  | .idle, .error e =>
    match e.controllerError? with
    | some message => .idleStatus (.error message)
    | none => .idleCancelled

namespace App

variable (cfg : Config) (lc : Lifecycle)

/-- The app after the `status()` that the worker waits for. An exception that ends the drive is one
of `_process`. -/
def statusEnds (s : App) (result : Except ControllerExc ContainerState) (now : Str) : Option App :=
  match result with
  | .error (.other e) =>
    (Readiness.step lc s.gate (statusAction (.caller workerCall) result)).map fun gate =>
      match s.worker with
      | .atReady job => settle job (throw e) { s with gate }
      | _ => { s with gate }
  | result => App.step cfg lc s (.readiness (statusAction (.caller workerCall) result) now)

end App

/-! ## Its failures -/

/-- The body of a 2xx response tells that the container runs. -/
def AnsweredRunning (P : Platform) (o : HttpOutcome) : Prop :=
  ∃ code content inspect state, o = .response code content ∧ code / 100 = 2 ∧
    P.load content = .ok (.obj inspect) ∧ Dict.get inspect (lit "State") = .obj state ∧
    Dict.get state (lit "Running") = .bool true

/-- The call `c` has returned `UNAVAILABLE`, with a cause. -/
def GivesUp (c : Nat) (s : Readiness) : Prop :=
  s.calls c = some (.returned .unavailable) ∧ s.lastCause ≠ []

section
variable (P : Platform) (reprOf : Bytes → Str) (o : HttpOutcome)

/-- What `status()` makes of an outcome, and the code that waits for it (module doc). -/
structure StatusSafe : Prop where
  family : ∀ e, DockerController.status P reprOf o = .error e → e.controllerError? ≠ none
  running : DockerController.status P reprOf o = .ok .running → AnsweredRunning P o
  /-- `_drive_readiness` goes on, and takes every controller failure. -/
  drive : ∀ lc s c deadline, s.calls c = some (.status deadline) →
    ∃ s', Readiness.step lc s (statusAction (.caller c) (DockerController.status P reprOf o)) =
      some s' ∧ s'.calls c ≠ none ∧
      ∀ e, DockerController.status P reprOf o = .error e → GivesUp c s'
  start : ∀ post e lc s c deadline, DockerController.start post = .error e →
    s.calls c = some (.starting deadline) → ∃ message s', e.controllerError? = some message ∧
      Readiness.step lc s (.startReturns c (.error message)) = some s' ∧ GivesUp c s'
  worker : ∀ cfg lc (s : App) deadline now, (app cfg lc).Reach Lts.always s →
    s.worker.awaitsReady = true → s.gate.calls workerCall = some (.status deadline) →
    s.mustCancel = false →
    ∃ s', App.statusEnds cfg lc s (DockerController.status P reprOf o) now = some s' ∧
      ∀ job e, s'.worker ≠ .died job e
  idle : ∀ lc s, s.idleTask = .status →
    ∃ s', Readiness.step lc s (statusAction .idle (DockerController.status P reprOf o)) = some s' ∧
      s'.idleTask ≠ .ended

/-- The body of a 2xx response is an object, or no JSON. -/
def InspectHandled : Prop :=
  ∀ code content, o = .response code content → code / 100 = 2 →
    P.load content = .error .value ∨ ∃ inspect, P.load content = .ok (.obj inspect)

end

/-! ## What `status()` returns -/

theorem parseContainerState_obj (inspect : Dict) :
    ∃ container, parseContainerState (.obj inspect) = .ok container := by
  unfold parseContainerState
  dsimp only
  split
  · split
    · exact ⟨_, rfl⟩
    · exact ⟨_, rfl⟩
  · exact ⟨_, rfl⟩

theorem parseContainerState_running {v : Json} (h : parseContainerState v = .ok .running) :
    ∃ inspect state, v = .obj inspect ∧ Dict.get inspect (lit "State") = .obj state ∧
      Dict.get state (lit "Running") = .bool true := by
  cases v with
  | obj inspect =>
    simp only [parseContainerState] at h
    split at h
    · rename_i state hs
      split at h
      · exact ⟨inspect, state, rfl, hs, ‹_›⟩
      · cases h
    · cases h
  | _ => cases h

theorem parseContainerState_error {v : Json} (h : ∀ inspect, v ≠ .obj inspect) :
    ∃ e, parseContainerState v = .error e := by
  cases v with
  | obj inspect => exact absurd rfl (h inspect)
  | _ => exact ⟨_, rfl⟩

section
variable {P : Platform} {reprOf : Bytes → Str} {o : HttpOutcome}

theorem status_running (h : DockerController.status P reprOf o = .ok .running) :
    AnsweredRunning P o := by
  cases o with
  | failed repr => cases h
  | response code content =>
    simp only [DockerController.status] at h
    split at h
    · cases h
    · split at h
      · cases h
      · rename_i hcode
        split at h
        · cases h
        · cases h
        · rename_i body hl
          cases hp : parseContainerState body with
          | error e => rw [hp] at h; cases h
          | ok container =>
            rw [hp] at h
            cases h
            obtain ⟨inspect, state, rfl, hs, hr⟩ := parseContainerState_running hp
            exact ⟨code, content, inspect, state, rfl, not_not.mp hcode, hl, hs, hr⟩

/-- A handled body is a state, or a `ControllerUnavailable`. -/
theorem status_family (h : InspectHandled P o) {e : ControllerExc}
    (he : DockerController.status P reprOf o = .error e) : ∃ m, e.controllerError? = some m := by
  cases o with
  | failed repr => cases he; exact ⟨_, rfl⟩
  | response code content =>
    simp only [DockerController.status] at he
    split at he
    · cases he
    · split at he
      · cases he; exact ⟨_, rfl⟩
      · rename_i hcode
        rcases h code content rfl (not_not.mp hcode) with hl | ⟨inspect, hl⟩
        · rw [hl] at he; cases he; exact ⟨_, rfl⟩
        · obtain ⟨container, hp⟩ := parseContainerState_obj inspect
          rw [hl] at he
          dsimp only at he
          rw [hp] at he
          cases he

/-- An answer of another kind is an exception of another family. -/
theorem inspectHandled_of_family
    (h : ∀ e, DockerController.status P reprOf o = .error e → e.controllerError? ≠ none) :
    InspectHandled P o := by
  rintro code content rfl hcode
  have hne : code ≠ 404 := by omega
  have other : ∀ e, DockerController.status P reprOf (.response code content) ≠
      .error (.other e) := fun e he => h _ he rfl
  simp only [DockerController.status, if_neg hne, hcode, ne_eq, not_true_eq_false, if_false]
    at other
  cases hl : P.load content with
  | error e =>
    cases e with
    | value => exact .inl rfl
    | recursion => rw [hl] at other; exact absurd rfl (other _)
  | ok v =>
    refine .inr (by_contra fun hn => ?_)
    obtain ⟨e, he⟩ := parseContainerState_error (v := v) fun inspect hv => hn ⟨inspect, by rw [hv]⟩
    rw [hl] at other
    dsimp only at other
    rw [he] at other
    exact other e rfl

/-! ## The code that waits for it -/

/-- In the family of `except ControllerError` the code that waits goes on. -/
theorem statusAction_handled {result : Except ControllerExc ContainerState}
    (h : ∀ e, result = .error e → ∃ m, e.controllerError? = some m) :
    ∃ handled : Except Str ContainerState,
      (∀ c, statusAction (.caller c) result = .statusReturns c handled) ∧
      statusAction .idle result = .idleStatus handled ∧
      ∀ e, result = .error e → ∃ m, handled = .error m := by
  cases result with
  | ok container => exact ⟨.ok container, fun _ => rfl, rfl, fun e he => by cases he⟩
  | error e =>
    obtain ⟨m, hm⟩ := h e rfl
    refine ⟨.error m, fun c => ?_, ?_, fun _ _ => ⟨m, rfl⟩⟩
    · simp only [statusAction, hm]
    · simp only [statusAction, hm]

theorem controllerCause_ne_nil (exc : Str) : controllerCause exc ≠ [] :=
  List.append_ne_nil_of_left_ne_nil (by decide) exc

namespace Readiness

variable {lc : Lifecycle} {s : Readiness} {c : Nat}

theorem decide_calls (state : ReadinessState) :
    (s.decide c state).calls c = some (.returned state) := by
  unfold decide
  exact Function.update_self ..

/-- After a failure of the controller. -/
theorem givesUp (s : Readiness) (c : Nat) (exc : Str) :
    GivesUp c ({ s with lastCause := controllerCause exc }.decide c .unavailable) :=
  ⟨decide_calls _, controllerCause_ne_nil exc⟩

theorem afterStatus_calls (deadline : ℚ) (result : Except Str ContainerState) :
    (s.afterStatus c deadline result).calls c ≠ none := by
  unfold afterStatus
  dsimp only
  split
  · rw [decide_calls]; exact Option.some_ne_none _
  · rw [decide_calls]; exact Option.some_ne_none _
  · simp [await]
  · simp [await]

theorem maybeIdleDown_goes (result : Except Str ContainerState) :
    (s.maybeIdleDown lc result).idleTask ≠ .ended := by
  unfold maybeIdleDown
  cases result with
  | error e => exact IdleTask.noConfusion
  | ok container =>
    dsimp only
    split
    · exact IdleTask.noConfusion
    · exact IdleTask.noConfusion

end Readiness

/-- What `start()` raises is a `ControllerError`. -/
theorem start_family {post : HttpOutcome} {e : ControllerExc}
    (he : DockerController.start post = .error e) : ∃ m, e.controllerError? = some m := by
  cases post with
  | failed repr => cases he; exact ⟨_, rfl⟩
  | response code content =>
    simp only [DockerController.start] at he
    split at he
    · cases he
    · split at he
      · cases he; exact ⟨_, rfl⟩
      · cases he; exact ⟨_, rfl⟩

/-- An end of `status()` that the drive handles is an action of the app. -/
theorem statusEnds_handled {cfg : Config} {lc : Lifecycle} {s : App} {now : Str}
    {result : Except ControllerExc ContainerState}
    (h : ∀ e, result = .error e → ∃ m, e.controllerError? = some m) :
    App.statusEnds cfg lc s result now =
      App.step cfg lc s (.readiness (statusAction (.caller workerCall) result) now) := by
  unfold App.statusEnds
  split
  · rename_i e
    obtain ⟨m, hm⟩ := h _ rfl
    cases hm
  · rfl

/-- The return of `ensure_ready()` does not end the worker. -/
theorem readyReturns_lives {cfg : Config} {s s' : App} {state : ReadinessState} {now : Str}
    (hok : s.Ok) (h : Runner.step cfg s (.readyReturns state now) = some s') (job : JobId)
    (e : Exc) : s'.worker ≠ .died job e := by
  have hm := hok.move cfg h
  cases hm with
  | readyDrop _ _ _ _ _ _ | readyFail _ _ _ _ _ _ _ _ _ _ | begin _ _ _ _ _ _ _ _ =>
    exact Worker.noConfusion

/-- The worker lives on when its call of the gate does. -/
theorem gateStep_lives (cfg : Config) (now : Str) {lc : Lifecycle} {s : App} {a : ReadyAction}
    {gate : Readiness} (hok : s.Ok) (hw : s.worker.awaitsReady = true) (hm : s.mustCancel = false)
    (hg : Readiness.step lc s.gate a = some gate) :
    ∃ s', App.gateStep cfg lc s a now = some s' ∧ ∀ job e, s'.worker ≠ .died job e := by
  have hok' : Runner.Ok { s with gate } := ⟨hok.books, hok.tasks⟩
  simp only [App.gateStep, hg, Option.bind_some]
  split
  · rename_i job state hwork _
    have hstep : ∃ t, Runner.step cfg { s with gate } (.readyReturns state now) = some t := by
      simp only [Runner.step, hwork, hm]
      exact ⟨_, rfl⟩
    obtain ⟨t, ht⟩ := hstep
    exact ⟨t, ht, readyReturns_lives hok' ht⟩
  · refine ⟨_, rfl, fun job e h => ?_⟩
    rw [show s.worker = .died job e from h] at hw
    cases hw

/-! ## The result -/

theorem docker_status_safe (P : Platform) (reprOf : Bytes → Str) (o : HttpOutcome) :
    StatusSafe P reprOf o ↔ InspectHandled P o := by
  refine ⟨fun h => inspectHandled_of_family h.family, fun h => ?_⟩
  have hfam : ∀ e, DockerController.status P reprOf o = .error e →
      ∃ m, e.controllerError? = some m := fun e => status_family h
  obtain ⟨handled, hcaller, hidle, herr⟩ := statusAction_handled hfam
  constructor
  case family =>
    intro e he hn
    obtain ⟨m, hm⟩ := hfam e he
    cases hn.symm.trans hm
  case running => exact status_running
  case drive =>
    intro lc s c deadline hc
    refine ⟨s.afterStatus c deadline handled, ?_, Readiness.afterStatus_calls _ _, fun e he => ?_⟩
    · simp only [hcaller, Readiness.step, hc]
    · obtain ⟨m, rfl⟩ := herr e he
      exact Readiness.givesUp _ c m
  case start =>
    intro post e lc s c deadline he hc
    obtain ⟨m, hm⟩ := start_family he
    refine ⟨m, s.afterStart c deadline (.error m), hm, ?_, Readiness.givesUp _ c m⟩
    simp only [Readiness.step, hc]
  case worker =>
    intro cfg lc s deadline now hs hw hc hmc
    have hok := (App.inv_reach hs).ok
    have hg : Readiness.step lc s.gate (.statusReturns workerCall handled) =
        some (s.gate.afterStatus workerCall deadline handled) := by
      simp only [Readiness.step, hc]
    obtain ⟨s', hs', hlive⟩ := gateStep_lives cfg now hok hw hmc hg
    refine ⟨s', ?_, hlive⟩
    rw [statusEnds_handled hfam, hcaller]
    simp only [App.step]
    rw [if_pos ⟨rfl, fun _ => hmc⟩]
    exact hs'
  case idle =>
    intro lc s hi
    refine ⟨s.maybeIdleDown lc handled, ?_, Readiness.maybeIdleDown_goes _⟩
    simp only [hidle, Readiness.step, hi]

end

namespace Sample

/-- A 2xx answer with the body `[]`. -/
def listAnswer : HttpOutcome := .response 200 [91, 93]

def noGet : Exc := .noGet (.arr [])

theorem status_listAnswer :
    DockerController.status platform (fun _ => []) listAnswer = .error (.other noGet) := rfl

/-- A job, whose worker waits for `status()`. -/
def coldJob : List AppAction :=
  [.runner .start 0 late, .runner (.submit submission early one) 0 late,
    .runner (.dequeue late) 0 late, .readiness (.acquire workerCall 0) late,
    .readiness (.probeReturns workerCall .unreachable) late]

end Sample

/-- The worker dies of it, with a job in hand. -/
theorem docker_status_leaks :
    (∃ s s', (Music3.app (Sample.config none) Sample.lifecycle).run Sample.app Sample.coldJob =
        some s ∧
      App.statusEnds (Sample.config none) Sample.lifecycle s
        (DockerController.status Sample.platform (fun _ => []) Sample.listAnswer) Sample.late = some s' ∧
      s'.worker = .died Sample.one Sample.noGet) ∧
    ¬ ∀ P reprOf o, StatusSafe P reprOf o :=
  ⟨⟨_, _, rfl, rfl, rfl⟩, fun h => (h Sample.platform (fun _ => []) Sample.listAnswer).family _
    Sample.status_listAnswer rfl⟩

end Music3
