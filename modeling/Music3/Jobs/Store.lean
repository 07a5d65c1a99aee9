import Music3.Engines.Client
import Music3.Lib.BoundedLog

/-!
# Job records and the job store

The transitions `to_*` are functions of the record and of an instant that is passed in; each one
raises `JobTransitionError` from an illegal status. `JobStore` maps each id to its record, its
retained events and the number of its last event. The event log limit is at least one, as the
constructor checks (`JobStore.new`).
-/

namespace Music3

open Py

/-- `Submission`. -/
structure Submission where
  input : Str
  instructions : Str
  seed : Int
  maxNewTokens : Int
  cloud : Option Dict := none

/-- `JobRecord`. -/
structure JobRecord where
  id : JobId
  submission : Submission
  status : JobStatus
  submittedAt : Str
  startedAt : Option Str := none
  endedAt : Option Str := none
  engine : Option Str := none
  model : Option Str := none
  audio : Option Bytes := none
  contentType : Option Str := none
  generationSeconds : Option PyFloat := none
  error : Option Str := none

namespace JobRecord

variable (job : JobRecord)

def running (now : Str) : JobRecord := { job with status := .running, startedAt := some now }

def succeeded (result : EngineResult) (now : Str) : JobRecord :=
  { job with
    status := .succeeded
    endedAt := some now
    engine := some result.engine
    model := some result.model
    audio := some result.audio
    contentType := some result.contentType
    generationSeconds := some result.generationSeconds }

def failed (error now : Str) : JobRecord :=
  { job with status := .failed, endedAt := some now, error := some error }

def cancelled (now : Str) : JobRecord := { job with status := .cancelled, endedAt := some now }

end JobRecord

/-- `to_running`. -/
def toRunning (now : Str) (job : JobRecord) : Except Exc JobRecord :=
  if job.status ≠ .queued then .error (.jobTransition job.status .running)
  else .ok (job.running now)

/-- `to_succeeded`. -/
def toSucceeded (result : EngineResult) (now : Str) (job : JobRecord) : Except Exc JobRecord :=
  if job.status ≠ .running then .error (.jobTransition job.status .succeeded)
  else .ok (job.succeeded result now)

/-- `to_failed`. -/
def toFailed (error now : Str) (job : JobRecord) : Except Exc JobRecord :=
  if job.status.terminal then .error (.jobTransition job.status .failed)
  else .ok (job.failed error now)

/-- `to_cancelled`. -/
def toCancelled (now : Str) (job : JobRecord) : Except Exc JobRecord :=
  if job.status.terminal then .error (.jobTransition job.status .cancelled)
  else .ok (job.cancelled now)

/-- A legal transition of a record: one that a `to_*` function makes. -/
inductive Transition (job : JobRecord) : JobRecord → Prop
  | running (now : Str) : job.status = .queued → Transition job (job.running now)
  | succeeded (result : EngineResult) (now : Str) : job.status = .running →
      Transition job (job.succeeded result now)
  | failed (error now : Str) : job.status.terminal = false → Transition job (job.failed error now)
  | cancelled (now : Str) : job.status.terminal = false → Transition job (job.cancelled now)

/-- `JobEvent`. -/
structure JobEvent where
  id : Nat
  type : Str
  data : Dict

/-- `JobStore`. -/
structure JobStore where
  jobs : List (JobId × JobRecord)
  events : List (JobId × List JobEvent)
  seq : List (JobId × Nat)
  eventLogLimit : Nat
  one_le : 1 ≤ eventLogLimit

namespace JobStore

/-- `JobStore(event_log_limit)`. -/
def new (eventLogLimit : Int) : Except Exc JobStore :=
  if h : eventLogLimit < 1 then
    .error (.value (lit "event_log_limit must be >= 1; got " ++ intText eventLogLimit))
  else .ok ⟨[], [], [], eventLogLimit.toNat, by omega⟩

/-- `create`, with the id that `uuid.uuid4().hex` makes. -/
def create (st : JobStore) (submission : Submission) (now : Str) (jobId : JobId) :
    JobRecord × JobStore :=
  let record : JobRecord := { id := jobId, submission, status := .queued, submittedAt := now }
  (record, { st with
    jobs := Assoc.set st.jobs jobId record
    events := Assoc.set st.events jobId []
    seq := Assoc.set st.seq jobId 0 })

/-- `get`. -/
def get (st : JobStore) (jobId : JobId) : Except Exc JobRecord :=
  match Assoc.get? st.jobs jobId with
  | some record => .ok record
  | none => .error (.jobNotFound jobId)

/-- `update`. -/
def update (st : JobStore) (jobId : JobId) (fn : JobRecord → Except Exc JobRecord) :
    Except Exc (JobRecord × JobStore) := do
  let updated ← fn (← st.get jobId)
  return (updated, { st with jobs := Assoc.set st.jobs jobId updated })

/-- `append_event`. The sequence numbers have the keys of the events. -/
def appendEvent (st : JobStore) (jobId : JobId) (type : Str) (data : Dict) :
    Except Exc (JobEvent × JobStore) :=
  match Assoc.get? st.events jobId with
  | none => .error (.jobNotFound jobId)
  | some log =>
    let n := (Assoc.get? st.seq jobId).getD 0 + 1
    let event : JobEvent := ⟨n, type, data⟩
    .ok (event, { st with
      seq := Assoc.set st.seq jobId n
      events := Assoc.set st.events jobId (BoundedLog.push st.eventLogLimit log event) })

/-- `log`. -/
def log (st : JobStore) (jobId : JobId) : Except Exc (List JobEvent) :=
  match Assoc.get? st.events jobId with
  | some log => .ok log
  | none => .error (.jobNotFound jobId)

/-! ## Specification -/

variable (st : JobStore) (jobId : JobId)

/-- The record of a job. -/
def job? : Option JobRecord := Assoc.get? st.jobs jobId

/-- The retained events of a job. -/
def retained : List JobEvent := (Assoc.get? st.events jobId).getD []

/-- The number of events that a job has had. -/
def count : Nat := (Assoc.get? st.seq jobId).getD 0

/-- The event that is appended next. -/
def nextEvent (type : Str) (data : Dict) : JobEvent := ⟨st.count jobId + 1, type, data⟩

/-- The store with one more event of a job. -/
def appended (type : Str) (data : Dict) : JobStore :=
  { st with
    seq := Assoc.set st.seq jobId (st.count jobId + 1)
    events := Assoc.set st.events jobId (BoundedLog.push st.eventLogLimit (st.retained jobId)
      (st.nextEvent jobId type data)) }

/-- The store with the record `r` of a job and one more event: what the runner's pairs of an
`update` and an `append_event` do. -/
def advance (r : JobRecord) (data : Dict) : JobStore :=
  { st.appended jobId r.status.value data with jobs := Assoc.set st.jobs jobId r }

/-- The store with a new job and its first event: what `submit` does. -/
def enqueued (submission : Submission) (now : Str) : JobStore :=
  (st.create submission now jobId).2.appended jobId JobStatus.queued.value []

/-- Records carry their id, and every job has a log. -/
structure Ok : Prop where
  id : ∀ id r, st.job? id = some r → r.id = id
  events : ∀ id r, st.job? id = some r → (Assoc.get? st.events id).isSome = true

variable {st jobId}

theorem job?_advance (r : JobRecord) (data : Dict) (j : JobId) :
    (st.advance jobId r data).job? j = if jobId = j then some r else st.job? j :=
  Assoc.get?_set _ _ _ _

theorem retained_appended (type : Str) (data : Dict) (j : JobId) :
    (st.appended jobId type data).retained j =
      if jobId = j then BoundedLog.push st.eventLogLimit (st.retained jobId)
        (st.nextEvent jobId type data)
      else st.retained j := by
  unfold retained appended
  simp only [Assoc.get?_set]
  split <;> rfl

theorem count_appended (type : Str) (data : Dict) (j : JobId) :
    (st.appended jobId type data).count j = if jobId = j then st.count jobId + 1 else st.count j := by
  unfold count appended
  simp only [Assoc.get?_set]
  split <;> rfl

theorem retained_advance (r : JobRecord) (data : Dict) (j : JobId) :
    (st.advance jobId r data).retained j =
      if jobId = j then BoundedLog.push st.eventLogLimit (st.retained jobId)
        (st.nextEvent jobId r.status.value data)
      else st.retained j := retained_appended r.status.value data j

theorem count_advance (r : JobRecord) (data : Dict) (j : JobId) :
    (st.advance jobId r data).count j = if jobId = j then st.count jobId + 1 else st.count j :=
  count_appended r.status.value data j

theorem job?_enqueued (submission : Submission) (now : Str) (j : JobId) :
    (st.enqueued jobId submission now).job? j =
      if jobId = j then some (st.create submission now jobId).1 else st.job? j :=
  Assoc.get?_set _ _ _ _

theorem retained_enqueued (submission : Submission) (now : Str) (j : JobId) :
    (st.enqueued jobId submission now).retained j =
      if jobId = j then [⟨1, JobStatus.queued.value, []⟩] else st.retained j := by
  have hc : (st.create submission now jobId).2.count jobId = 0 := by
    unfold count create
    simp only [Assoc.get?_set, ↓reduceIte, Option.getD_some]
  have hr : ∀ j, (st.create submission now jobId).2.retained j =
      if jobId = j then [] else st.retained j := by
    intro j
    unfold retained create
    simp only [Assoc.get?_set]
    split <;> rfl
  have hl := st.one_le
  unfold enqueued
  rw [retained_appended, hr, hr]
  split
  · unfold nextEvent BoundedLog.push
    rw [hc, if_pos rfl, List.nil_append, List.length_singleton]
    simp only [create, show 1 - st.eventLogLimit = 0 by omega, List.drop_zero]
  · rfl

theorem count_enqueued (submission : Submission) (now : Str) (j : JobId) :
    (st.enqueued jobId submission now).count j = if jobId = j then 1 else st.count j := by
  have hc : ∀ j, (st.create submission now jobId).2.count j =
      if jobId = j then 0 else st.count j := by
    intro j
    unfold count create
    simp only [Assoc.get?_set]
    split <;> rfl
  unfold enqueued
  rw [count_appended, hc, hc]
  split <;> simp

theorem log_advance {j : JobId} (h : jobId ≠ j) (r : JobRecord) (data : Dict) :
    (st.advance jobId r data).log j = st.log j := by
  unfold log advance appended
  simp only [Assoc.get?_set, h, ↓reduceIte]

theorem log_enqueued {j : JobId} (h : jobId ≠ j) (submission : Submission) (now : Str) :
    (st.enqueued jobId submission now).log j = st.log j := by
  unfold log enqueued appended create
  simp only [Assoc.get?_set, h, ↓reduceIte]

theorem events_appended (type : Str) (data : Dict) (j : JobId) :
    (Assoc.get? (st.appended jobId type data).events j).isSome =
      (decide (jobId = j) || (Assoc.get? st.events j).isSome) := by
  unfold appended
  simp only [Assoc.get?_set]
  split <;> simp_all

theorem Ok.advance (h : st.Ok) {r : JobRecord} (hr : r.id = jobId) (data : Dict) :
    (st.advance jobId r data).Ok := by
  refine ⟨fun j x hx => ?_, fun j x hx => ?_⟩ <;> rw [job?_advance] at hx
  · split at hx
    · rename_i e; cases hx; exact hr.trans e
    · exact h.id j x hx
  · refine (events_appended r.status.value data j).trans ?_
    split at hx
    · rename_i e; rw [decide_eq_true e, Bool.true_or]
    · rw [h.events j x hx, Bool.or_true]

theorem Ok.enqueued (h : st.Ok) (submission : Submission) (now : Str) :
    (st.enqueued jobId submission now).Ok := by
  refine ⟨fun j x hx => ?_, fun j x hx => ?_⟩ <;> rw [job?_enqueued] at hx
  · split at hx
    · rename_i e; cases hx; exact e
    · exact h.id j x hx
  · refine (events_appended _ _ j).trans ?_
    split at hx
    · rename_i e; rw [decide_eq_true e, Bool.true_or]
    · rename_i e
      unfold create
      simp only [Assoc.get?_set, e, ↓reduceIte, h.events j x hx, Bool.or_true]

end JobStore

/-- A transition keeps the id, the submission and the submission time. -/
theorem Transition.keeps {r r' : JobRecord} (h : Transition r r') :
    r'.id = r.id ∧ r'.submission = r.submission ∧ r'.submittedAt = r.submittedAt := by
  cases h <;> exact ⟨rfl, rfl, rfl⟩

theorem Transition.not_terminal {r r' : JobRecord} (h : Transition r r') :
    r.status.terminal = false := by
  cases h with
  | running _ h | succeeded _ _ h => rw [h]; rfl
  | failed _ _ h | cancelled _ h => exact h

end Music3
