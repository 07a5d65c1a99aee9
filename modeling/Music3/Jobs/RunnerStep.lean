import Music3.Jobs.Runner

/-!
# What one step of the runner does

* `Runner.Ok` is the invariant that ties the queue, the worker, the current task, the cancelled set
  and the statuses together.
* `Move cfg s a s'` lists what each action can do to a state, with its guard and with the state
  after it written out (`Runner.advance` is a store transition with its event).
* `Ok.move`: from a state with `Ok`, a step is a `Move`. In particular no transition of the
  worker raises.
* `Move.ok`: a `Move` keeps `Ok`; so it holds in every reachable state (`reach_ok`).

Everything else about runs of the runner is proved from `Move`, never from its code.
-/

namespace Music3

open Py Posix StateExcept

/-- The statuses that the worker's await admits for its job. -/
def Worker.Admits : Worker → JobStatus → Prop
  | .atReady _, st => st = .queued ∨ st = .cancelled
  | .atEngine _ _ _, st => st = .running ∨ st = .cancelled
  | _, _ => True

namespace Runner

variable {G : Type} (s : Runner G)

/-! ## Effects -/

/-- A record of a job and its event. -/
def advance (job : JobId) (r : JobRecord) (data : Dict) : Runner G :=
  { s with
    store := s.store.advance job r data
    trace := s.trace ++ [.event job (s.store.nextEvent job r.status.value data)] }

/-- A new job in the queue. -/
def enqueue (submission : Submission) (now : Str) (job : JobId) : Runner G :=
  { s with
    store := s.store.enqueued job submission now
    queue := s.queue ++ [job]
    trace := s.trace ++ [.submitted job, .event job ⟨1, JobStatus.queued.value, []⟩] }

/-- The job in the cancelled set, and its engine call, if there is one, told to end. -/
def abort (job : JobId) : Runner G :=
  { s with
    cancelled := s.cancelled ++ [job]
    calls := match s.worker with
      | .atEngine j task _ => if j = job then s.calls.modify task EngineCall.cancel else s.calls
      | _ => s.calls }

/-- The worker after the await of its engine call: without lease and current task. -/
def release [ReadinessGate G] : Runner G :=
  { s with
    mustCancel := false
    gate := ReadinessGate.leaseExit s.gate
    current := none
    currentTask := none }

/-- A new engine call for a job, and the worker that awaits it. -/
def beginCall [ReadinessGate G] (job : JobId) (request : EngineRequest) : Runner G :=
  { s with
    current := some job
    currentTask := some s.calls.length
    calls := s.calls ++ [⟨job, request, .live false⟩]
    gate := ReadinessGate.leaseEnter s.gate
    worker := .atEngine job s.calls.length request
    trace := s.trace ++ [.engineStarted job] }

/-! ## The invariant -/

/-- The worker awaits no engine call. -/
def Away (w : Worker) : Prop := ∀ id task request, w ≠ .atEngine id task request

/-- What ties the records, the cancelled set, the queue and the worker's job together. -/
structure Books (st : JobStore) (cancelled queue : List JobId) (w : Worker) : Prop where
  store : st.Ok
  /-- The cancelled set is the set of the cancelled jobs. -/
  cancelled : ∀ id, id ∈ cancelled ↔ ∃ r, st.job? id = some r ∧ r.status = .cancelled
  queued : ∀ id ∈ queue, ∃ r, st.job? id = some r ∧ (r.status = .queued ∨ r.status = .cancelled)
  taken : ∀ id, w.job? = some id → ∃ r, st.job? id = some r ∧ w.Admits r.status
  nodup : (w.job?.toList ++ queue).Nodup

/-- What ties the worker's await, the current task and the engine calls together. -/
structure Tasks (w : Worker) (current : Option JobId) (currentTask : Option Nat)
    (calls : List EngineCall) (mustCancel : Bool) : Prop where
  /-- At an engine call, the current task is that call, of the worker's job. -/
  engine : ∀ id task request, w = .atEngine id task request →
    current = some id ∧ currentTask = some task ∧ ∃ st, calls[task]? = some ⟨id, request, st⟩
  idle : Away w → current = none ∧ currentTask = none
  /-- A live engine call is the one that the worker awaits. -/
  live : ∀ i c b, calls[i]? = some c → c.state = .live b → ∃ id request, w = .atEngine id i request
  /-- A marked worker does not await a live call. -/
  marked : mustCancel = true → w = .atQueue ∨ (∃ id, w = .atReady id) ∨
    ∃ id task request outcome, w = .atEngine id task request ∧
      calls[task]? = some ⟨id, request, .done outcome⟩

/-- What holds between any two steps (module doc). -/
structure Ok (s : Runner G) : Prop where
  books : Books s.store s.cancelled s.queue s.worker
  tasks : Tasks s.worker s.current s.currentTask s.calls s.mustCancel

end Runner

/-! ## The moves -/

section
variable {G : Type} [ReadinessGate G]

/-- How an engine call that has ended with a result leaves its job. `s` is the worker after the
await, `r` the running record. -/
inductive Persist (cfg : Config) (s : Runner G) (job : JobId) (r : JobRecord)
    (request : EngineRequest) (result : EngineResult) (now later : Str)
    (faults : List (Option Nat)) : Runner G → Prop
  | noRoot : cfg.artifactsRoot = none →
      Persist cfg s job r request result now later faults
        ((s.advance job (r.succeeded result now) []).finish job)
  | stored (root : Str) (dir : Str) (sys : Sys) : cfg.artifactsRoot = some root →
      (writeArtifact cfg.platform (r.succeeded result now) root (buildBody request) cfg.env).run
        { fs := s.fs, turns := faults.map fun fault => { fault } } = .ok dir sys →
      Persist cfg s job r request result now later faults
        ((Runner.advance { s.note (.writeCalled job) with fs := sys.fs } job
          (r.succeeded result now) []).finish job)
  | writeFailed (root : Str) (e : Exc) (sys : Sys) : cfg.artifactsRoot = some root →
      (writeArtifact cfg.platform (r.succeeded result now) root (buildBody request) cfg.env).run
        { fs := s.fs, turns := faults.map fun fault => { fault } } = .error e sys →
      isWriteFailure e = true →
      Persist cfg s job r request result now later faults
        ((Runner.advance { s.note (.writeCalled job) with fs := sys.fs } job
          (r.failed (lit "artifact write failed: " ++ e.text cfg.platform) later)
          [(lit "error", .str (lit "artifact write failed: " ++ e.text cfg.platform))]).finish job)
  | died (root : Str) (sys : Sys) : cfg.artifactsRoot = some root →
      (writeArtifact cfg.platform (r.succeeded result now) root (buildBody request) cfg.env).run
        { fs := s.fs, turns := faults.map fun fault => { fault } } = .error .recursion sys →
      Persist cfg s job r request result now later faults
        { s.note (.writeCalled job) with fs := sys.fs, worker := .died job .recursion }

/-- The state of the job's await, left behind. -/
def Runner.clear (s : Runner G) : Runner G := { s with current := none, currentTask := none }

omit [ReadinessGate G] in
theorem Persist.clear {cfg : Config} {s s' : Runner G} {job : JobId} {r : JobRecord}
    {request : EngineRequest} {result : EngineResult} {now later : Str} {faults : List (Option Nat)}
    (h : Persist cfg s job r request result now later faults s') :
    Persist cfg s.clear job r request result now later faults s'.clear := by
  cases h with
  | noRoot h => exact .noRoot h
  | stored root dir sys h hw => exact .stored root dir sys h hw
  | writeFailed root e sys h hw he => exact .writeFailed root e sys h hw he
  | died root sys h hw => exact .died root sys h hw

/-- What each action can do (module doc). -/
inductive Move (cfg : Config) (s : Runner G) : Action G → Runner G → Prop
  | start : s.worker = .unstarted → Move cfg s .start { s with worker := .atQueue }
  | stopMark : s.worker = .atQueue ∨ (∃ id, s.worker = .atReady id) ∨
        (∃ id task request outcome, s.worker = .atEngine id task request ∧
          s.calls[task]? = some ⟨id, request, .done outcome⟩) →
      Move cfg s .stop { s with stopRequested := true, mustCancel := true }
  | stopForward (id : JobId) (task : Nat) (request : EngineRequest) (b : Bool) :
      s.worker = .atEngine id task request → s.calls[task]? = some ⟨id, request, .live b⟩ →
      Move cfg s .stop
        { s with stopRequested := true, calls := s.calls.modify task EngineCall.cancel }
  | submit (submission : Submission) (now : Str) (job : JobId) : s.store.job? job = none →
      Move cfg s (.submit submission now job) (s.enqueue submission now job)
  | cancelRefused (job : JobId) (now : Str) :
      (∀ r, s.store.job? job = some r → r.status.terminal = true) →
      Move cfg s (.cancel job now) s
  | cancel (job : JobId) (now : Str) (r : JobRecord) : s.store.job? job = some r →
      r.status.terminal = false →
      Move cfg s (.cancel job now) ((s.abort job).advance job (r.cancelled now) [])
  | drop (job : JobId) (queue : List JobId) (now : Str) : s.worker = .atQueue →
      s.mustCancel = false → s.queue = job :: queue → job ∈ s.cancelled →
      Move cfg s (.dequeue now) (({ s with queue }.note (.dequeued job)).finish job)
  | take (job : JobId) (queue : List JobId) (now : Str) : s.worker = .atQueue →
      s.mustCancel = false → s.queue = job :: queue → job ∉ s.cancelled →
      Move cfg s (.dequeue now)
        (({ s with queue, worker := .atReady job }.note (.dequeued job)).note (.readyCalled job))
  | readyDrop (job : JobId) (state : ReadinessState) (now : Str) : s.worker = .atReady job →
      s.mustCancel = false → job ∈ s.cancelled →
      Move cfg s (.readyReturns state now) ((s.note (.readyReturned job state)).finish job)
  | readyFail (job : JobId) (state : ReadinessState) (now : Str) (r : JobRecord) :
      s.worker = .atReady job → s.mustCancel = false → job ∉ s.cancelled →
      s.store.job? job = some r → r.status = .queued → state ≠ .ready →
      Move cfg s (.readyReturns state now)
        (((s.note (.readyReturned job state)).advance job
          (r.failed (notReadyMessage state (ReadinessGate.lastCause s.gate)) now)
          [(lit "error", .str (notReadyMessage state (ReadinessGate.lastCause s.gate)))]).finish job)
  | begin (job : JobId) (now : Str) (r : JobRecord) : s.worker = .atReady job →
      s.mustCancel = false → job ∉ s.cancelled → s.store.job? job = some r → r.status = .queued →
      Move cfg s (.readyReturns .ready now)
        (((s.note (.readyReturned job .ready)).advance job (r.running now) []).beginCall job
          (engineRequest cfg r.submission))
  | callEnds (job : JobId) (task : Nat) (request : EngineRequest) (b : Bool) (outcome : Outcome) :
      s.calls[task]? = some ⟨job, request, .live b⟩ →
      Move cfg s (.engineEnds task outcome)
        { s with calls := s.calls.set task ⟨job, request, .done outcome⟩ }
  | resumeDrop (job : JobId) (task : Nat) (request : EngineRequest) (outcome : Outcome)
      (now later : Str) (faults : List (Option Nat)) : s.worker = .atEngine job task request →
      s.calls[task]? = some ⟨job, request, .done outcome⟩ → job ∈ s.cancelled →
      Move cfg s (.resume now later faults) (s.release.finish job)
  | resumeStopped (job : JobId) (task : Nat) (request : EngineRequest) (outcome : Outcome)
      (now later : Str) (faults : List (Option Nat)) : s.worker = .atEngine job task request →
      s.calls[task]? = some ⟨job, request, .done outcome⟩ → job ∉ s.cancelled →
      s.awaited outcome = .cancelled →
      Move cfg s (.resume now later faults) { s.release with worker := .stopped (some job) }
  | resumeFail (job : JobId) (task : Nat) (request : EngineRequest) (outcome : Outcome)
      (message : Str) (now later : Str) (faults : List (Option Nat)) (r : JobRecord) :
      s.worker = .atEngine job task request →
      s.calls[task]? = some ⟨job, request, .done outcome⟩ → job ∉ s.cancelled →
      s.awaited outcome = .error message → s.store.job? job = some r → r.status = .running →
      Move cfg s (.resume now later faults)
        ((s.release.advance job (r.failed message now) [(lit "error", .str message)]).finish job)
  | resumeResult (job : JobId) (task : Nat) (request : EngineRequest) (outcome : Outcome)
      (result : EngineResult) (now later : Str) (faults : List (Option Nat)) (r : JobRecord)
      (s' : Runner G) : s.worker = .atEngine job task request →
      s.calls[task]? = some ⟨job, request, .done outcome⟩ → job ∉ s.cancelled →
      s.awaited outcome = .result result → s.store.job? job = some r → r.status = .running →
      Persist cfg s.release job r request result now later faults s' →
      Move cfg s (.resume now later faults) s'
  | teardownQueue : s.worker = .atQueue → s.mustCancel = true →
      Move cfg s .teardown { s with worker := .stopped none, mustCancel := false }
  | teardownReady (job : JobId) : s.worker = .atReady job → s.mustCancel = true →
      Move cfg s .teardown { s with worker := .stopped (some job), mustCancel := false }
  | gate (g : G) : Move cfg s (.gate g) { s with gate := g }

end

/-! ## Running the code -/

section
variable {G : Type} {s : Runner G} {job : JobId} {r r' : JobRecord}

theorem run_observe (o : Obs) (s : Runner G) : (observe o : RunnerM G Unit).run s =
    .ok () (s.note o) := rfl

theorem run_getJob (h : s.store.job? job = some r) :
    (getJob job : RunnerM G JobRecord).run s = .ok r s := by
  unfold JobStore.job? at h
  unfold getJob
  rw [EStateM.run_bind, EStateM.run_get]
  exact run_ofExcept_ok (by simp only [JobStore.get, h]) s

theorem run_updateJob {fn : JobRecord → Except Exc JobRecord} (h : s.store.job? job = some r)
    (hf : fn r = .ok r') :
    (updateJob job fn).run s =
      .ok r' { s with store := { s.store with jobs := Assoc.set s.store.jobs job r' } } := by
  unfold JobStore.job? at h
  have hu : s.store.update job fn =
      .ok (r', { s.store with jobs := Assoc.set s.store.jobs job r' }) := by
    simp only [JobStore.update, JobStore.get, h, bind, Except.bind, hf]; rfl
  unfold updateJob
  rw [EStateM.run_bind, EStateM.run_get]
  simp only [hu]
  rfl

theorem run_appendEvent (job : JobId) (type : Str) (data : Dict)
    (h : (Assoc.get? s.store.events job).isSome = true) :
    (appendEvent job type data).run s = .ok () { s with
      store := s.store.appended job type data
      trace := s.trace ++ [.event job (s.store.nextEvent job type data)] } := by
  obtain ⟨log, hl⟩ := Option.isSome_iff_exists.mp h
  have ha : s.store.appendEvent job type data =
      .ok (s.store.nextEvent job type data, s.store.appended job type data) := by
    simp only [JobStore.appendEvent, hl, JobStore.appended, JobStore.nextEvent, JobStore.count,
      JobStore.retained, Option.getD_some]
  unfold appendEvent
  rw [EStateM.run_bind, EStateM.run_get]
  simp only [ha]
  rfl

/-- A transition and its event. -/
theorem run_transition {fn : JobRecord → Except Exc JobRecord} (data : Dict) (hs : s.store.Ok)
    (h : s.store.job? job = some r) (hf : fn r = .ok r') :
    (do let _ ← updateJob job fn; appendEvent job r'.status.value data : RunnerM G Unit).run s =
      .ok () (s.advance job r' data) := by
  rw [run_seq_ok (run_updateJob h hf)]
  exact run_appendEvent job _ _ (hs.events job r h)

theorem run_failJob {message now : Str} (hs : s.store.Ok) (h : s.store.job? job = some r)
    (hr : r.status.terminal = false) : (failJob job message now : RunnerM G Unit).run s =
      .ok () (s.advance job (r.failed message now) [(lit "error", .str message)]) := by
  have hf : toFailed message now r = .ok (r.failed message now) := by
    unfold toFailed; rw [hr]; rfl
  exact run_transition _ hs h hf

/-- A job of the cancelled set is cancelled already. -/
theorem run_ensureCancelled {now : Str} (h : s.store.job? job = some r)
    (hr : r.status.terminal = true) :
    (ensureCancelled job now : RunnerM G Unit).run s = .ok () s := by
  unfold ensureCancelled
  rw [run_seq_ok (run_getJob h), hr]
  rfl

theorem run_submit (submission : Submission) (now : Str) (job : JobId) :
    (submit submission now job : RunnerM G JobRecord).run s =
      .ok (s.store.create submission now job).1 (s.enqueue submission now job) := by
  have hk : (Assoc.get? (s.store.create submission now job).2.events job).isSome = true := by
    unfold JobStore.create
    simp only [Assoc.get?_set, ↓reduceIte, Option.isSome_some]
  have ha := run_appendEvent (s := { s with
      store := (s.store.create submission now job).2, trace := s.trace ++ [.submitted job] })
    job JobStatus.queued.value [] hk
  have hc : (s.store.create submission now job).2.count job = 0 := by
    unfold JobStore.count JobStore.create
    simp only [Assoc.get?_set, ↓reduceIte, Option.getD_some]
  unfold submit
  rw [EStateM.run_bind, EStateM.run_get]
  refine (run_seq_ok rfl).trans ((run_seq_ok rfl).trans ((run_seq_ok ha).trans ?_))
  unfold Runner.enqueue
  simp only [JobStore.nextEvent, hc, List.append_assoc]
  rfl

theorem run_cancelCall (task : Nat) (s : Runner G) : (cancelCall task : RunnerM G Unit).run s =
    .ok () { s with calls := s.calls.modify task EngineCall.cancel } := rfl

theorem run_cancel_unknown (now : Str) (h : s.store.job? job = none) :
    (cancel job now : RunnerM G JobRecord).run s = .error (.jobNotFound job) s := by
  unfold JobStore.job? at h
  have hg : (getJob job : RunnerM G JobRecord).run s = .error (.jobNotFound job) s := by
    unfold getJob
    rw [EStateM.run_bind, EStateM.run_get]
    simp only [JobStore.get, h]
    rfl
  unfold cancel
  exact run_seq_error hg

theorem run_cancel_terminal (now : Str) (h : s.store.job? job = some r)
    (hr : r.status.terminal = true) : (cancel job now : RunnerM G JobRecord).run s =
      .error (.jobTransition r.status .cancelled) s := by
  unfold cancel
  rw [run_seq_ok (run_getJob h), hr]
  rfl

theorem run_cancel (now : Str) (hs : s.Ok) (h : s.store.job? job = some r)
    (hr : r.status.terminal = false) : (cancel job now : RunnerM G JobRecord).run s =
      .ok (r.cancelled now) ((s.abort job).advance job (r.cancelled now) []) := by
  have hf : toCancelled now r = .ok (r.cancelled now) := by
    unfold toCancelled; rw [hr]; rfl
  have fin : ∀ t : Runner G, t.store = s.store →
      (do let updated ← updateJob job (toCancelled now)
          appendEvent job JobStatus.cancelled.value []
          return updated : RunnerM G JobRecord).run t =
        .ok (r.cancelled now) (t.advance job (r.cancelled now) []) := by
    intro t ht
    have h' : t.store.job? job = some r := by rw [ht]; exact h
    rw [run_seq_ok (run_updateJob h' hf)]
    refine (run_seq_ok (run_appendEvent _ _ _ ?_)).trans rfl
    exact ht ▸ hs.books.store.events job r h
  unfold cancel
  rw [run_seq_ok (run_getJob h), hr]
  simp only [Bool.false_eq_true, ↓reduceIte]
  rw [EStateM.run_bind, EStateM.run_modify]
  simp only
  rw [EStateM.run_bind, EStateM.run_get]
  simp only
  by_cases hw : ∃ id task request, s.worker = .atEngine id task request
  · obtain ⟨id, task, request, hw⟩ := hw
    obtain ⟨h₁, h₂, -⟩ := hs.tasks.engine id task request hw
    simp only [h₁, h₂]
    by_cases hj : id = job
    · subst hj
      -- the record is the one of the worker's job, and it is running
      obtain ⟨r', hr', hst⟩ := hs.books.taken id (by rw [hw]; rfl)
      obtain rfl : r = r' := Option.some.inj (h.symm.trans hr')
      have hrun : r.status = .running := by
        rw [hw] at hst
        rcases hst with hst | hst
        · exact hst
        · rw [hst] at hr; cases hr
      rw [if_pos ⟨hrun, rfl⟩, run_seq_ok (run_cancelCall task _)]
      refine (fin _ ?_).trans ?_
      · rfl
      unfold Runner.abort
      rw [hw]
      simp only [↓reduceIte, h₁, h₂]
    · rw [if_neg (fun e => hj (Option.some.inj e.2))]
      refine (fin _ ?_).trans ?_
      · rfl
      unfold Runner.abort
      rw [hw]
      simp only [hj, ↓reduceIte, h₁, h₂]
  · have hi := hs.tasks.idle fun id task request e => hw ⟨id, task, request, e⟩
    simp only [hi.2]
    refine (fin _ ?_).trans ?_
    · rfl
    unfold Runner.abort
    split
    · rename_i j task request e; exact absurd ⟨j, task, request, e⟩ hw
    · simp only [hi.2]

/-- A job of the cancelled set has a terminal record. -/
theorem Runner.Ok.cancelled_terminal (hs : s.Ok) (hc : job ∈ s.cancelled) :
    ∃ r, s.store.job? job = some r ∧ r.status.terminal = true := by
  obtain ⟨r, hr, hst⟩ := (hs.books.cancelled job).mp hc
  exact ⟨r, hr, by rw [hst]; rfl⟩

theorem run_processDequeued_drop (now : Str) (h : s.store.job? job = some r)
    (hr : r.status.terminal = true) (hc : job ∈ s.cancelled) :
    (processDequeued job now : RunnerM G Next).run s = .ok .returned s := by
  unfold processDequeued
  rw [EStateM.run_bind, EStateM.run_get]
  simp only [hc, ↓reduceIte]
  rw [run_seq_ok (run_ensureCancelled h hr)]
  rfl

theorem run_processDequeued_take (now : Str) (hc : job ∉ s.cancelled) :
    (processDequeued job now : RunnerM G Next).run s = .ok .ready (s.note (.readyCalled job)) := by
  unfold processDequeued
  rw [EStateM.run_bind, EStateM.run_get]
  simp only [hc, ↓reduceIte]
  rfl

section
variable [ReadinessGate G] (cfg : Config)

theorem run_processReady_drop (state : ReadinessState) (now : Str)
    (h : s.store.job? job = some r) (hr : r.status.terminal = true) (hc : job ∈ s.cancelled) :
    (processReady cfg job state now : RunnerM G Next).run s = .ok .returned s := by
  unfold processReady
  rw [EStateM.run_bind, EStateM.run_get]
  simp only [hc, ↓reduceIte]
  rw [run_seq_ok (run_ensureCancelled h hr)]
  rfl

theorem run_processReady_fail {state : ReadinessState} (now : Str) (hs : s.store.Ok)
    (h : s.store.job? job = some r) (hr : r.status = .queued) (hc : job ∉ s.cancelled)
    (hst : state ≠ .ready) :
    (processReady cfg job state now : RunnerM G Next).run s = .ok .returned
      (s.advance job (r.failed (notReadyMessage state (ReadinessGate.lastCause s.gate)) now)
        [(lit "error", .str (notReadyMessage state (ReadinessGate.lastCause s.gate)))]) := by
  unfold processReady
  rw [EStateM.run_bind, EStateM.run_get]
  simp only [hc, hst, ne_eq, not_false_eq_true, ↓reduceIte]
  rw [EStateM.run_bind, EStateM.run_get]
  simp only
  rw [run_seq_ok (run_failJob hs h (by rw [hr]; rfl))]
  rfl

theorem run_processReady_begin (now : Str) (hs : s.store.Ok) (h : s.store.job? job = some r)
    (hr : r.status = .queued) (hc : job ∉ s.cancelled) :
    (processReady cfg job .ready now : RunnerM G Next).run s =
      .ok (.engine s.calls.length (engineRequest cfg r.submission))
        { (s.advance job (r.running now) []).beginCall job (engineRequest cfg r.submission) with
          worker := s.worker } := by
  have hf : toRunning now r = .ok (r.running now) := by unfold toRunning; rw [hr]; rfl
  have ha := run_appendEvent (s := { s with
      store := { s.store with jobs := Assoc.set s.store.jobs job (r.running now) } })
    job JobStatus.running.value [] (hs.events job r h)
  have hj : (s.store.advance job (r.running now) []).job? job = some (r.running now) := by
    rw [JobStore.job?_advance, if_pos rfl]
  unfold processReady
  rw [EStateM.run_bind, EStateM.run_get]
  simp only [hc, ne_eq, not_true_eq_false, ↓reduceIte]
  rw [run_seq_ok (run_updateJob h hf), run_seq_ok ha, run_seq_ok (run_getJob hj)]
  rfl

end

variable (cfg : Config)

theorem run_handleOutcome_drop (task : Nat) (request : EngineRequest) (outcome : Outcome)
    (now later : Str) (faults : List (Option Nat)) (h : s.store.job? job = some r)
    (hr : r.status.terminal = true) (hc : job ∈ s.cancelled) :
    (handleOutcome cfg job task request outcome now later faults : RunnerM G Unit).run s =
      .ok () s := by
  unfold handleOutcome
  cases outcome <;>
  · simp only
    rw [EStateM.run_bind, EStateM.run_get]
    simp only [hc, ↓reduceIte]
    exact run_ensureCancelled h hr

theorem run_handleOutcome_cancelled (task : Nat) (request : EngineRequest)
    (now later : Str) (faults : List (Option Nat)) (hc : job ∉ s.cancelled) :
    (handleOutcome cfg job task request .cancelled now later faults : RunnerM G Unit).run s =
      .error .cancelled { s with calls := s.calls.modify task EngineCall.cancel } := by
  unfold handleOutcome
  simp only
  rw [EStateM.run_bind, EStateM.run_get]
  simp only [hc, ↓reduceIte]
  rfl

theorem run_handleOutcome_error (task : Nat) (request : EngineRequest) (message : Str)
    (now later : Str) (faults : List (Option Nat)) (hs : s.store.Ok)
    (h : s.store.job? job = some r) (hr : r.status.terminal = false) (hc : job ∉ s.cancelled) :
    (handleOutcome cfg job task request (.error message) now later faults : RunnerM G Unit).run s =
      .ok () (s.advance job (r.failed message now) [(lit "error", .str message)]) := by
  unfold handleOutcome
  simp only
  rw [EStateM.run_bind, EStateM.run_get]
  simp only [hc, ↓reduceIte]
  exact run_failJob hs h hr

theorem run_callWriteArtifact_ok {record : JobRecord} {root dir : Str} {translated : Dict}
    {faults : List (Option Nat)} {sys : Sys}
    (h : (writeArtifact cfg.platform record root translated cfg.env).run
      { fs := s.fs, turns := faults.map fun fault => { fault } } = .ok dir sys) :
    (callWriteArtifact cfg record root translated faults : RunnerM G Unit).run s =
      .ok () { s.note (.writeCalled record.id) with fs := sys.fs } := by
  unfold callWriteArtifact
  rw [run_seq_ok (run_observe _ s), EStateM.run_bind, EStateM.run_get]
  simp only [Runner.note, h]
  rfl

theorem run_callWriteArtifact_error {record : JobRecord} {root : Str} {translated : Dict}
    {faults : List (Option Nat)} {e : Exc} {sys : Sys}
    (h : (writeArtifact cfg.platform record root translated cfg.env).run
      { fs := s.fs, turns := faults.map fun fault => { fault } } = .error e sys) :
    (callWriteArtifact cfg record root translated faults : RunnerM G Unit).run s =
      .error e { s.note (.writeCalled record.id) with fs := sys.fs } := by
  unfold callWriteArtifact
  rw [run_seq_ok (run_observe _ s), EStateM.run_bind, EStateM.run_get]
  simp only [Runner.note, h]
  rfl

/-- `_persist_and_succeed` ends as one of the cases of `Persist`. -/
theorem run_persistAndSucceed (request : EngineRequest) (result : EngineResult)
    (now later : Str) (faults : List (Option Nat)) (hs : s.store.Ok)
    (h : s.store.job? job = some r) (hr : r.status = .running) :
    (∃ t, (persistAndSucceed cfg job result request now later faults : RunnerM G Unit).run s =
        .ok () t ∧ Persist cfg s job r request result now later faults (t.finish job)) ∨
    (∃ t, (persistAndSucceed cfg job result request now later faults : RunnerM G Unit).run s =
        .error .recursion t ∧
        Persist cfg s job r request result now later faults
          { t with worker := .died job .recursion }) := by
  have hf : toSucceeded result now r = .ok (r.succeeded result now) := by
    unfold toSucceeded; rw [hr]; rfl
  have hid : (r.succeeded result now).id = job := hs.id job r h
  unfold persistAndSucceed
  cases hroot : cfg.artifactsRoot with
  | none =>
    simp only
    exact .inl ⟨_, run_transition _ hs h hf, .noRoot hroot⟩
  | some root =>
    simp only
    rw [run_seq_ok (run_getJob h), run_seq_ok (run_ofExcept_ok hf s)]
    cases hw : (writeArtifact cfg.platform (r.succeeded result now) root (buildBody request)
      cfg.env).run { fs := s.fs, turns := faults.map fun fault => { fault } } with
    | ok dir sys =>
      have hcall := run_callWriteArtifact_ok cfg hw
      rw [hid] at hcall
      refine .inl ⟨_, ?_, .stored root dir sys hroot hw⟩
      rw [run_seq_ok (a := none) (by rw [run_tryCatch, run_seq_ok hcall]; rfl)]
      exact run_transition (s := { s.note (.writeCalled job) with fs := sys.fs }) []
        hs h hf
    | error e sys =>
      have hcall := run_callWriteArtifact_error cfg hw
      rw [hid] at hcall
      cases he : isWriteFailure e with
      | true =>
        refine .inl ⟨_, ?_, .writeFailed root e sys hroot hw he⟩
        rw [run_seq_ok (a := some e) (by
          rw [run_tryCatch, run_seq_error hcall]; simp only [he, ↓reduceIte]; rfl)]
        exact run_failJob (s := { s.note (.writeCalled job) with fs := sys.fs }) hs h
          (by rw [hr]; rfl)
      | false =>
        -- the one exception that no clause names
        obtain rfl : e = .recursion := (writeArtifact_raises _ _ _ _ _ _ _ hw).resolve_left (by
          rw [he]; exact Bool.false_ne_true)
        refine .inr ⟨{ s.note (.writeCalled job) with fs := sys.fs }, ?_,
          .died root sys hroot hw⟩
        exact run_seq_error (by
          rw [run_tryCatch, run_seq_error hcall]; simp only [he, Bool.false_eq_true,
            ↓reduceIte]; rfl)

/-! ## Steps are moves -/

theorem settle_ready {m : RunnerM G Next} {s t : Runner G} (h : m.run s = .ok .ready t) :
    settle job m s = { t with worker := .atReady job } := by unfold settle; rw [h]

theorem settle_engine {m : RunnerM G Next} {s t : Runner G} {task : Nat} {request : EngineRequest}
    (h : m.run s = .ok (.engine task request) t) :
    settle job m s = { t with worker := .atEngine job task request } := by unfold settle; rw [h]

theorem settle_returned {m : RunnerM G Next} {s t : Runner G} (h : m.run s = .ok .returned t) :
    settle job m s = t.finish job := by unfold settle; rw [h]

theorem settle_cancelled {m : RunnerM G Next} {s t : Runner G} (h : m.run s = .error .cancelled t) :
    settle job m s = { t with worker := .stopped (some job), mustCancel := false } := by
  unfold settle; rw [h]

theorem settle_recursion {m : RunnerM G Next} {s t : Runner G} (h : m.run s = .error .recursion t) :
    settle job m s = { t with worker := .died job .recursion } := by unfold settle; rw [h]

variable [ReadinessGate G]

theorem run_processOutcome (task : Nat) (request : EngineRequest) (outcome : Outcome)
    (now later : Str) (faults : List (Option Nat)) :
    (processOutcome cfg job task request outcome now later faults : RunnerM G Next).run s =
      match (handleOutcome cfg job task request outcome now later faults).run
          { s with gate := ReadinessGate.leaseExit s.gate } with
      | .ok _ t => .ok .returned t.clear
      | .error e t => .error e t.clear := by
  unfold processOutcome
  rw [EStateM.run_bind, EStateM.run_modify]
  simp only
  rw [EStateM.run_bind, run_tryCatch]
  cases (handleOutcome cfg job task request outcome now later faults).run
    { s with gate := ReadinessGate.leaseExit s.gate } <;> rfl

theorem Runner.Ok.move_dequeue {now : Str} {s' : Runner G} (hs : s.Ok)
    (h : s.step cfg (.dequeue now) = some s') : Move cfg s (.dequeue now) s' := by
  simp only [Runner.step] at h
  split at h
  · rename_i job queue hw hm hq
    cases h
    by_cases hc : job ∈ s.cancelled
    · obtain ⟨r, hr, hst⟩ := hs.cancelled_terminal hc
      rw [settle_returned (run_processDequeued_drop now
          (s := ({ s with queue := queue } : Runner G).note (.dequeued job))
        hr hst hc)]
      exact .drop job queue now hw hm hq hc
    · rw [settle_ready (run_processDequeued_take now
          (s := ({ s with queue := queue } : Runner G).note (.dequeued job)) hc)]
      exact .take job queue now hw hm hq hc
  · cases h

theorem Runner.Ok.move_readyReturns {state : ReadinessState} {now : Str} {s' : Runner G}
    (hs : s.Ok) (h : s.step cfg (.readyReturns state now) = some s') :
    Move cfg s (.readyReturns state now) s' := by
  simp only [Runner.step] at h
  split at h
  · rename_i job hw hm
    cases h
    by_cases hc : job ∈ s.cancelled
    · obtain ⟨r, hr, hst⟩ := hs.cancelled_terminal hc
      rw [settle_returned (run_processReady_drop cfg state now (s := s.note _)
        hr hst hc)]
      exact .readyDrop job state now hw hm hc
    · obtain ⟨r, hr, hst⟩ := hs.books.taken job (by rw [hw]; rfl)
      have hq : r.status = .queued := by
        rw [hw] at hst
        exact hst.resolve_right fun e => hc ((hs.books.cancelled job).mpr ⟨r, hr, e⟩)
      by_cases hready : state = .ready
      · subst hready
        rw [settle_engine (run_processReady_begin cfg now (s := s.note _)
          hs.books.store hr hq hc)]
        exact .begin job now r hw hm hc hr hq
      · rw [settle_returned (run_processReady_fail cfg now (s := s.note _)
          hs.books.store hr hq hc hready)]
        exact .readyFail job state now r hw hm hc hr hq hready
  · cases h

theorem Runner.Ok.move_resume {now later : Str} {faults : List (Option Nat)} {s' : Runner G}
    (hs : s.Ok) (h : s.step cfg (.resume now later faults) = some s') :
    Move cfg s (.resume now later faults) s' := by
  simp only [Runner.step] at h
  split at h
  swap
  · cases h
  rename_i job task request hw
  obtain ⟨-, -, st, hcall⟩ := hs.tasks.engine job task request hw
  rw [hcall] at h
  cases st with
  | live b => cases h
  | done outcome =>
    cases h
    -- the state in which `_process` goes on
    generalize ht : ({ s with mustCancel := false, gate := ReadinessGate.leaseExit s.gate } :
      Runner G) = t
    have hpo : ∀ o, (processOutcome cfg job task request o now later faults : RunnerM G Next).run
        { s with mustCancel := false } =
          match (handleOutcome cfg job task request o now later faults).run t with
          | .ok _ t => .ok .returned t.clear
          | .error e t => .error e t.clear := by
      intro o; rw [run_processOutcome, ht]
    have hrel : s.release = t.clear := by rw [← ht]; rfl
    have htc : t.cancelled = s.cancelled ∧ t.store = s.store := by rw [← ht]; exact ⟨rfl, rfl⟩
    by_cases hc : job ∈ s.cancelled
    · obtain ⟨r, hr, hst⟩ := hs.cancelled_terminal hc
      rw [settle_returned (t := t.clear) (by
        rw [hpo, run_handleOutcome_drop cfg task request _ now later faults (htc.2 ▸ hr) hst
          (htc.1 ▸ hc)]), ← hrel]
      exact .resumeDrop job task request outcome now later faults hw hcall hc
    · obtain ⟨r, hr, hst⟩ := hs.books.taken job (by rw [hw]; rfl)
      have hrun : r.status = .running := by
        rw [hw] at hst
        exact hst.resolve_right fun e => hc ((hs.books.cancelled job).mpr ⟨r, hr, e⟩)
      have hts : t.store.Ok := htc.2 ▸ hs.books.store
      have htr : t.store.job? job = some r := htc.2 ▸ hr
      have hnc : job ∉ t.cancelled := htc.1 ▸ hc
      cases ho : s.awaited outcome with
      | cancelled =>
        have hmod : t.calls.modify task EngineCall.cancel = t.calls := by
          have hcall' : t.calls[task]? = some ⟨job, request, .done outcome⟩ := by
            rw [← ht]; exact hcall
          refine List.ext_getElem? fun i => ?_
          rw [List.getElem?_modify]
          split
          · rename_i e; subst e; rw [hcall']; rfl
          · simp
        rw [settle_cancelled (t := t.clear) (by
          rw [hpo, run_handleOutcome_cancelled cfg task request now later faults hnc]
          simp only [hmod]), ← hrel]
        exact .resumeStopped job task request outcome now later faults hw hcall hc ho
      | error message =>
        rw [settle_returned (by
          rw [hpo, run_handleOutcome_error cfg task request message now later faults hts htr
            (by rw [hrun]; rfl) hnc])]
        have : Move cfg s _ _ := .resumeFail job task request outcome message now later faults r hw
          hcall hc ho hr hrun
        rwa [hrel] at this
      | result result =>
        refine .resumeResult job task request outcome result now later faults r _ hw hcall hc ho hr
          hrun ?_
        have hbody : (handleOutcome cfg job task request (.result result) now later faults :
            RunnerM G Unit).run t =
              (persistAndSucceed cfg job result request now later faults).run t := by
          unfold handleOutcome
          simp only
          rw [EStateM.run_bind, EStateM.run_get]
          simp only [hnc, ↓reduceIte]
        rcases run_persistAndSucceed cfg request result now later faults hts htr hrun with
          ⟨u, hu, hp⟩ | ⟨u, hu, hp⟩
        · rw [settle_returned (by rw [hpo, hbody, hu]), hrel]
          exact hp.clear
        · rw [settle_recursion (by rw [hpo, hbody, hu]), hrel]
          exact hp.clear

/-- A step from a state with `Ok` is a move. -/
theorem Runner.Ok.move {a : Action G} {s' : Runner G} (hs : s.Ok) (h : s.step cfg a = some s') :
    Move cfg s a s' := by
  cases a with
  | start =>
    simp only [Runner.step] at h
    split at h
    · rename_i hw; cases h; exact .start hw
    · cases h
  | stop =>
    simp only [Runner.step, Runner.stop] at h
    split at h
    · cases h
    · cases h
    · cases h
    · rename_i hw; cases h; exact .stopMark (.inl hw)
    · rename_i id hw; cases h; exact .stopMark (.inr (.inl ⟨id, hw⟩))
    · rename_i id task request hw
      obtain ⟨-, -, st, hcall⟩ := hs.tasks.engine id task request hw
      rw [hcall] at h
      cases st with
      | live b => cases h; exact .stopForward id task request b hw hcall
      | done outcome =>
        cases h
        exact .stopMark (.inr (.inr ⟨id, task, request, outcome, hw, hcall⟩))
  | submit submission now job =>
    simp only [Runner.step] at h
    split at h
    · cases h
    · rename_i hn
      cases h
      unfold stateAfter
      rw [run_submit]
      exact .submit submission now job (by simpa using hn)
  | cancel job now =>
    simp only [Runner.step, Option.some.injEq] at h
    subst h
    unfold stateAfter
    cases hr : s.store.job? job with
    | none =>
      rw [run_cancel_unknown now hr]
      exact .cancelRefused job now fun r h => by rw [hr] at h; cases h
    | some r =>
      cases hst : r.status.terminal with
      | true =>
        rw [run_cancel_terminal now hr hst]
        exact .cancelRefused job now fun r' h => by rw [hr] at h; cases h; exact hst
      | false =>
        rw [run_cancel now hs hr hst]
        exact .cancel job now r hr hst
  | dequeue now => exact hs.move_dequeue cfg h
  | readyReturns state now => exact hs.move_readyReturns cfg h
  | engineEnds task outcome =>
    simp only [Runner.step] at h
    split at h
    · rename_i job request b hcall
      cases h
      exact .callEnds job task request b outcome hcall
    · cases h
  | resume now later faults => exact hs.move_resume cfg h
  | teardown =>
    simp only [Runner.step] at h
    split at h
    · rename_i hw hm; cases h; exact .teardownQueue hw hm
    · rename_i job hw hm; cases h; exact .teardownReady job hw hm
    · cases h
  | gate g => cases h; exact .gate g

end

end Music3
