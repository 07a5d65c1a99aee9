import Music3.Jobs.Encode
import Music3.Jobs.Story
import Music3.Routes.Submit

/-!
# The worker survives its jobs

`Survives cfg s`: the worker has not died, each job is in the queue, in the worker's hands or
terminal, and the worker goes on whenever its await ends (`GoesOn`).

It is not so for every run (`worker_dies`): the sidecar of a cloud job holds the request as
received, and `json.dumps(…, indent=2)` raises `RecursionError` for values that `json.loads` has
read without one; no clause of `_process` or `_loop` names it. `Overflow` is the step at which this
happens: `worker_survives` says that the worker survives every run without one, and none with one.
-/

namespace Music3

open Py Posix StateExcept Runner

namespace Runner

variable {G : Type}

/-- A job is in the queue, in the worker's hands, or terminal. -/
def Ended (s : Runner G) : Prop :=
  ∀ id r, s.store.job? id = some r →
    id ∈ s.queue ∨ s.worker.job? = some id ∨ r.status.terminal = true

/-- The end of the worker's await is followed by a step, at the queue by one with its head. -/
def GoesOn [ReadinessGate G] (cfg : Config) (s : Runner G) : Prop :=
  match s.worker with
  | .atQueue => s.mustCancel = false → ∀ job queue, s.queue = job :: queue → ∀ now,
    ∃ s', s.step cfg (.dequeue now) = some s' ∧ s'.queue = queue
  | .atReady _ => s.mustCancel = false → ∀ state now,
    ∃ s', s.step cfg (.readyReturns state now) = some s'
  | .atEngine job task request => ∀ outcome, s.calls[task]? = some ⟨job, request, .done outcome⟩ →
    ∀ now later faults, ∃ s', s.step cfg (.resume now later faults) = some s'
  | _ => True

end Runner

/-- The worker survives (module doc). -/
structure Survives {G : Type} [ReadinessGate G] (cfg : Config) (s : Runner G) : Prop where
  alive : ∀ job e, s.worker ≠ .died job e
  ended : s.Ended
  goesOn : s.GoesOn cfg

/-- The worker survives every run of steps with `P`. -/
def WorkerSurvives {G : Type} [ReadinessGate G] (cfg : Config) (P : Runner G → Action G → Prop) :
    Prop := ∀ s, (runner cfg).Reach P s → Survives cfg s

/-- What is submitted is accepted by a route. -/
def AcceptedSubmits {G : Type} (cfg : Config) (_ : Runner G) : Action G → Prop
  | .submit submission _ _ => Accepted cfg.platform submission
  | _ => True

/-- A step that writes the artifact of a job whose recorded request nests too deep for the
encoder, and gets as far as encoding it. -/
def Overflow {G : Type} (cfg : Config) (s : Runner G) : Action G → Prop
  | .resume now _ faults => ∃ job task request result r root,
    s.worker = .atEngine job task request ∧
    s.calls[task]? = some ⟨job, request, .done (.result result)⟩ ∧ s.mustCancel = false ∧
    job ∉ s.cancelled ∧ s.store.job? job = some r ∧ cfg.artifactsRoot = some root ∧
    Encodes cfg.platform s.fs (r.succeeded result now) root faults ∧
    cfg.platform.dumpsLimit < cloudDepth r.submission + 2
  | _ => False

/-! ## Jobs that have ended -/

section
variable {G : Type} {s s' : Runner G} {job : JobId} {r : JobRecord}

theorem Runner.Ended.advance (h : Ended s) (data : Dict)
    (hj : s.worker.job? = some job ∨ r.status.terminal = true) : Ended (s.advance job r data) := by
  intro id x hx
  rw [Runner.advance, JobStore.job?_advance] at hx
  split at hx
  · rename_i e
    cases hx
    exact .inr (e ▸ hj)
  · exact h id x hx

theorem Runner.Ended.finish (h : Ended s) (hw : s.worker.job? = some job)
    (ht : ∀ r, s.store.job? job = some r → r.status.terminal = true) : Ended (s.finish job) := by
  intro id x hx
  rcases h id x hx with hq | hj | hterm
  · exact .inl hq
  · rw [hw] at hj
    cases hj
    exact .inr (.inr (ht x hx))
  · exact .inr (.inr hterm)

/-- The worker makes a transition of its job and leaves it. -/
theorem Runner.Ended.advance_finish (h : Ended s) (hw : s.worker.job? = some job)
    (hr : r.status.terminal = true) (data : Dict) : Ended ((s.advance job r data).finish job) := by
  refine (h.advance data (.inl hw)).finish hw fun x hx => ?_
  rw [Runner.advance, JobStore.job?_advance, if_pos rfl] at hx
  cases hx
  exact hr

theorem Runner.Ok.ended_cancelled (hs : s.Ok) (hc : job ∈ s.cancelled) {x : JobRecord}
    (hx : s.store.job? job = some x) : x.status.terminal = true := by
  obtain ⟨r, hr, hst⟩ := (hs.books.cancelled job).mp hc
  rw [hr] at hx
  cases hx
  rw [hst]
  rfl

variable [ReadinessGate G] {cfg : Config}

omit [ReadinessGate G] in
theorem Persist.ended {request : EngineRequest} {result : EngineResult} {now later : Str}
    {faults : List (Option Nat)} (h : Ended s) (hw : s.worker.job? = some job)
    (hp : Persist cfg s job r request result now later faults s') : Ended s' := by
  cases hp with
  | noRoot _ => exact h.advance_finish hw rfl []
  | stored root dir sys _ _ =>
    have h' : Ended { s.note (.writeCalled job) with fs := sys.fs } := h
    exact h'.advance_finish hw rfl []
  | writeFailed root e sys _ _ _ =>
    have h' : Ended { s.note (.writeCalled job) with fs := sys.fs } := h
    exact h'.advance_finish hw rfl _
  | died root sys _ _ =>
    intro id x hx
    have := h id x hx
    rw [hw] at this
    exact this

/-- A move keeps it that each job is in the queue, in the worker's hands or terminal. -/
theorem Move.ended {a : Action G} (hm : Move cfg s a s') (hs : s.Ok) (h : Ended s) : Ended s' := by
  have same : ∀ {t : Runner G}, t.store = s.store → t.queue = s.queue →
      t.worker.job? = s.worker.job? → Ended t := by
    intro t hst hq hw id x hx
    rw [hq, hw]
    exact h id x (hst ▸ hx)
  cases hm with
  | start hw => exact same rfl rfl (by rw [hw]; rfl)
  | submit submission now job hn =>
    intro id x hx
    rw [Runner.enqueue, JobStore.job?_enqueued] at hx
    split at hx
    · rename_i e
      exact .inl (e ▸ List.mem_append_right _ (List.mem_singleton.mpr rfl))
    · exact (h id x hx).imp_left (List.mem_append_left _)
  | cancel job now r hr hst =>
    have h' : Ended (s.abort job) := h
    exact h'.advance [] (.inr rfl)
  | drop job queue now hw hm hq hc =>
    intro id x hx
    have h' := h id x hx
    rw [hq, hw] at h'
    rcases h' with h' | h' | h'
    · rcases List.mem_cons.mp h' with rfl | h'
      · exact .inr (.inr (hs.ended_cancelled hc hx))
      · exact .inl h'
    · cases h'
    · exact .inr (.inr h')
  | take job queue now hw hm hq hc =>
    intro id x hx
    have h' := h id x hx
    rw [hq, hw] at h'
    rcases h' with h' | h' | h'
    · rcases List.mem_cons.mp h' with rfl | h'
      · exact .inr (.inl rfl)
      · exact .inl h'
    · cases h'
    · exact .inr (.inr h')
  | readyDrop job state now hw hm hc =>
    have h' : Ended (s.note (.readyReturned job state)) := h
    exact h'.finish (show s.worker.job? = _ by rw [hw]; rfl) fun x hx => hs.ended_cancelled hc hx
  | readyFail job state now r hw hm hc hr hst hn =>
    have h' : Ended (s.note (.readyReturned job state)) := h
    exact h'.advance_finish (show s.worker.job? = _ by rw [hw]; rfl) rfl _
  | begin job now r hw hm hc hr hst =>
    have h' : Ended (s.note (.readyReturned job .ready)) := h
    have hj : s.worker.job? = some job := by rw [hw]; rfl
    intro id x hx
    have := h'.advance (r := r.running now) [] (.inl hj) id x hx
    rw [show ((s.note (.readyReturned job .ready)).advance job (r.running now) []).worker.job? =
      some job from hj] at this
    exact this
  | resumeDrop job task request outcome now later faults hw hcall hc =>
    have h' : Ended s.release := h
    exact h'.finish (show s.worker.job? = _ by rw [hw]; rfl) fun x hx => hs.ended_cancelled hc hx
  | resumeStopped job task request outcome now later faults hw hcall hc ho =>
    exact same rfl rfl (by rw [hw]; rfl)
  | resumeFail job task request outcome message now later faults r hw hcall hc ho hr hst =>
    have h' : Ended s.release := h
    exact h'.advance_finish (show s.worker.job? = _ by rw [hw]; rfl) rfl _
  | resumeResult job task request outcome result now later faults r s' hw hcall hc ho hr hst hp =>
    have h' : Ended s.release := h
    exact hp.ended h' (show s.worker.job? = _ by rw [hw]; rfl)
  | teardownQueue hw hm => exact same rfl rfl (by rw [hw]; rfl)
  | teardownReady job hw hm => exact same rfl rfl (by rw [hw]; rfl)
  | stopMark _ | stopForward _ _ _ _ _ _ | cancelRefused _ _ _ | callEnds _ _ _ _ _ _ | gate _ =>
    exact same rfl rfl rfl

variable {P : Runner G → Action G → Prop}

theorem reach_ended (h : (runner cfg).Reach P s) : Ended s := by
  obtain ⟨s₀, h₀, hp⟩ := h
  refine hp.preserves_reach (fun s a s' hr hi _ hst => (reach_move hr hst).ended (reach_ok hr) hi)
    (.init h₀) fun id r hr => ?_
  obtain ⟨limit, store, gate, fs, hn, -, rfl⟩ := h₀
  unfold JobStore.new at hn
  split at hn <;> cases hn
  cases hr

/-! ## Going on -/

/-- The end of an await is followed by a step. -/
theorem Runner.Ok.goesOn (hs : s.Ok) : s.GoesOn cfg := by
  unfold GoesOn
  cases hw : s.worker with
  | atQueue =>
    intro hm job queue hq now
    obtain ⟨s', hst⟩ : ∃ s', s.step cfg (.dequeue now) = some s' := by
      simp only [Runner.step, hw, hm, hq]
      exact ⟨_, rfl⟩
    refine ⟨s', hst, ?_⟩
    cases hs.move cfg hst with
    | drop _ _ _ _ _ hq' _ | take _ _ _ _ _ hq' _ => rw [hq] at hq'; cases hq'; rfl
  | atReady job =>
    intro hm state now
    simp only [Runner.step, hw, hm]
    exact ⟨_, rfl⟩
  | atEngine job task request =>
    intro outcome hc now later faults
    simp only [Runner.step, hw, hc]
    exact ⟨_, rfl⟩
  | _ => trivial

/-! ## Dying -/

/-- The request of the worker's engine call is its submission's. -/
def Runner.Requested (cfg : Config) (s : Runner G) : Prop :=
  ∀ job task request, s.worker = .atEngine job task request →
    ∃ r, s.store.job? job = some r ∧ request = engineRequest cfg r.submission

omit [ReadinessGate G] in
theorem Runner.Requested.of_away (hw : Away s.worker) : Requested cfg s :=
  fun job task request e => absurd e (hw job task request)

omit [ReadinessGate G] in
theorem Persist.away {request : EngineRequest} {result : EngineResult} {now later : Str}
    {faults : List (Option Nat)} (hp : Persist cfg s job r request result now later faults s') :
    Away s'.worker := by
  cases hp with
  | noRoot _ | stored _ _ _ _ _ | writeFailed _ _ _ _ _ _ => exact away_atQueue
  | died _ _ _ _ => exact away_died _ _

theorem Move.requested {a : Action G} (hm : Move cfg s a s') (h : Requested cfg s) :
    Requested cfg s' := by
  -- the job's record keeps its submission
  have kept : s'.worker = s.worker → Requested cfg s' := by
    intro hw job task request e
    obtain ⟨r, hr, hreq⟩ := h job task request (hw ▸ e)
    obtain ⟨r', hr', -, hsub, -, -⟩ := hm.storeStep.kept job r hr
    exact ⟨r', hr', by rw [hsub, hreq]⟩
  cases hm with
  | begin id now r hw _ _ hr _ =>
    intro job task request e
    cases e
    exact ⟨r.running now, (JobStore.job?_advance _ _ _).trans (if_pos rfl), rfl⟩
  | start _ | drop _ _ _ _ _ _ _ | readyDrop _ _ _ _ _ _ | readyFail _ _ _ _ _ _ _ _ _ _
  | resumeDrop _ _ _ _ _ _ _ _ _ _ | resumeFail _ _ _ _ _ _ _ _ _ _ _ _ _ _ _ =>
    exact .of_away away_atQueue
  | take _ _ _ _ _ _ _ => exact .of_away (away_atReady _)
  | resumeStopped _ _ _ _ _ _ _ _ _ _ _ | teardownQueue _ _ | teardownReady _ _ _ =>
    exact .of_away (away_stopped _)
  | resumeResult _ _ _ _ _ _ _ _ _ _ _ _ _ _ _ _ hp => exact .of_away hp.away
  | stopMark _ | stopForward _ _ _ _ _ _ | submit _ _ _ _ | cancelRefused _ _ _ | cancel _ _ _ _ _
  | callEnds _ _ _ _ _ _ | gate _ => exact kept rfl

theorem reach_requested (h : (runner cfg).Reach P s) : Requested cfg s := by
  obtain ⟨s₀, h₀, hp⟩ := h
  refine hp.preserves_reach (fun s a s' hr hi _ hst => (reach_move hr hst).requested hi) (.init h₀) ?_
  obtain ⟨_, _, _, _, -, -, rfl⟩ := h₀
  exact .of_away away_unstarted

theorem job?_advance_none {st : JobStore} {id : JobId} {x : JobRecord} {data : Dict}
    (hr : st.job? job = some x) (hn : st.job? id = none) :
    (st.advance job r data).job? id = none := by
  rw [JobStore.job?_advance, if_neg, hn]
  rintro rfl
  rw [hr] at hn
  cases hn

omit [ReadinessGate G] in
theorem Persist.job?_none {request : EngineRequest} {result : EngineResult} {now later : Str}
    {faults : List (Option Nat)} {id : JobId} (hr : s.store.job? job = some r)
    (hp : Persist cfg s job r request result now later faults s') (hn : s.store.job? id = none) :
    s'.store.job? id = none := by
  cases hp with
  | noRoot _ | stored _ _ _ _ _ | writeFailed _ _ _ _ _ _ => exact job?_advance_none hr hn
  | died _ _ _ _ => exact hn

/-- A new record is a submitted one. -/
theorem Move.new_job {a : Action G} (hm : Move cfg s a s') {id : JobId} {x : JobRecord}
    (hn : s.store.job? id = none) (hx : s'.store.job? id = some x) :
    ∃ submission now, a = .submit submission now id ∧ x.submission = submission := by
  have none_of : s'.store.job? id = none → ∃ submission now, a = .submit submission now id ∧
      x.submission = submission := fun h => by rw [h] at hx; cases hx
  cases hm with
  | submit submission now job _ =>
    rw [Runner.enqueue, JobStore.job?_enqueued] at hx
    split at hx
    · rename_i e
      cases hx
      exact ⟨submission, now, by rw [e], rfl⟩
    · rw [hn] at hx; cases hx
  | cancel _ _ _ hr _ | readyFail _ _ _ _ _ _ _ hr _ _ | begin _ _ _ _ _ _ hr _
  | resumeFail _ _ _ _ _ _ _ _ _ _ _ _ _ hr _ => exact none_of (job?_advance_none hr hn)
  | resumeResult _ _ _ _ _ _ _ _ _ _ _ _ _ _ hr _ hp =>
    exact none_of (hp.job?_none (s := s.release) hr hn)
  | _ => exact none_of hn

/-- The submissions of an accepting run. -/
theorem reach_accepted (h : (runner cfg).Reach (AcceptedSubmits cfg) s) :
    ∀ id r, s.store.job? id = some r → Accepted cfg.platform r.submission := by
  obtain ⟨s₀, h₀, hp⟩ := h
  refine hp.preserves_reach
    (I := fun s => ∀ id r, s.store.job? id = some r → Accepted cfg.platform r.submission)
    (fun s a s' hr hi ha hst id r hx => ?_) (.init h₀) fun id r hr => ?_
  · have hm := reach_move hr hst
    cases hj : s.store.job? id with
    | some r₀ =>
      obtain ⟨r', hr', -, hsub, -, -⟩ := hm.storeStep.kept id r₀ hj
      rw [hx] at hr'
      cases hr'
      rw [hsub]
      exact hi id r₀ hj
    | none =>
      obtain ⟨submission, now, rfl, hsub⟩ := hm.new_job hj hx
      rw [hsub]
      exact ha
  · obtain ⟨limit, store, gate, fs, hn, -, rfl⟩ := h₀
    unfold JobStore.new at hn
    split at hn <;> cases hn
    cases hr

/-- A step that kills the worker is an overflow. -/
theorem Move.overflow {a : Action G} (hm : Move cfg s a s') (hw : ∀ job e, s.worker ≠ .died job e)
    {job : JobId} {e : Exc} (hd : s'.worker = .died job e) : Overflow cfg s a := by
  cases hm with
  | resumeResult id task request outcome result now later faults r s' hw hcall hc ho hr hst hp =>
    have hmark : s.mustCancel = false ∧ outcome = .result result := by
      unfold Runner.awaited at ho
      split at ho
      · cases ho
      · rename_i hm; exact ⟨by simpa using hm, ho⟩
    obtain ⟨hmark, rfl⟩ := hmark
    cases hp with
    | died root sys hroot hwrite =>
      obtain ⟨henc, hdeep⟩ := write_recursion hwrite
      exact ⟨id, task, request, result, r, root, hw, hcall, hmark, hc, hr, hroot, henc, hdeep⟩
    | noRoot _ | stored _ _ _ _ _ | writeFailed _ _ _ _ _ _ => cases hd
  | start _ | drop _ _ _ _ _ _ _ | take _ _ _ _ _ _ _ | readyDrop _ _ _ _ _ _
  | readyFail _ _ _ _ _ _ _ _ _ _ | begin _ _ _ _ _ _ _ _ | resumeDrop _ _ _ _ _ _ _ _ _ _
  | resumeStopped _ _ _ _ _ _ _ _ _ _ _ | resumeFail _ _ _ _ _ _ _ _ _ _ _ _ _ _ _
  | teardownQueue _ _ | teardownReady _ _ _ => cases hd
  | stopMark _ | stopForward _ _ _ _ _ _ | submit _ _ _ _ | cancelRefused _ _ _ | cancel _ _ _ _ _
  | callEnds _ _ _ _ _ _ | gate _ => exact absurd hd (hw job e)

/-- An overflow kills the worker. -/
theorem Move.died {a : Action G} (hm : Move cfg s a s') (ho : Overflow cfg s a)
    (hreq : Requested cfg s) (hacc : ∀ id r, s.store.job? id = some r → r.submission.IntsOk) :
    ∃ job e, s'.worker = .died job e := by
  cases a with
  | resume now later faults =>
    obtain ⟨job, task, request, result, r, root, hw, hcall, hmark, hc, hr, hroot, henc, hdeep⟩ := ho
    obtain ⟨x, hx, rfl⟩ := hreq job task request hw
    rw [hr] at hx
    cases hx
    have hi := hacc job r hr
    have hwrite : ∃ sys, (writeArtifact cfg.platform (r.succeeded result now) root
        (buildBody (engineRequest cfg r.submission)) cfg.env).run
          { fs := s.fs, turns := faults.map fun fault => { fault } } = .error .recursion sys := by
      refine (write_recursion_iff ?_ ?_ ?_ ?_).mpr ⟨henc, hdeep⟩
      · exact hi
      · exact hi.seed
      · exact hi.maxNewTokens
      · exact result.audio_lt
    obtain ⟨sys, hwrite⟩ := hwrite
    have haw : s.awaited (.result result) = .result result := by
      rw [Runner.awaited, hmark]
      rfl
    cases hm with
    | resumeDrop _ _ _ _ _ _ _ hw' _ hc' => rw [hw] at hw'; cases hw'; exact absurd hc' hc
    | resumeStopped _ _ _ _ _ _ _ hw' hcall' _ ho =>
      rw [hw] at hw'; cases hw'
      rw [hcall] at hcall'; cases hcall'
      rw [haw] at ho; cases ho
    | resumeFail _ _ _ _ _ _ _ _ _ hw' hcall' _ ho _ _ =>
      rw [hw] at hw'; cases hw'
      rw [hcall] at hcall'; cases hcall'
      rw [haw] at ho; cases ho
    | resumeResult _ _ _ _ _ _ _ _ _ _ hw' hcall' _ ho hr' _ hp =>
      rw [hw] at hw'; cases hw'
      rw [hcall] at hcall'; cases hcall'
      rw [haw] at ho; cases ho
      rw [hr] at hr'; cases hr'
      cases hp with
      | noRoot h => rw [hroot] at h; cases h
      | stored root' dir sys' h hw' =>
        rw [hroot] at h; cases h
        rw [show s.release.fs = s.fs from rfl, hwrite] at hw'; cases hw'
      | writeFailed root' e sys' h hw' he =>
        rw [hroot] at h; cases h
        rw [show s.release.fs = s.fs from rfl, hwrite] at hw'; cases hw'
        cases he
      | died root' sys' _ _ => exact ⟨job, .recursion, rfl⟩
  | _ => exact ho.elim

end

/-! ## The result -/

/-- The worker survives exactly the runs without an overflow. -/
theorem worker_survives {G : Type} [ReadinessGate G] (cfg : Config) :
    WorkerSurvives (G := G) cfg (fun s a => ¬ Overflow cfg s a) ∧
    ∀ (s : Runner G) a s', (runner cfg).Reach (AcceptedSubmits cfg) s →
      (runner cfg).step s a = some s' → Overflow cfg s a → ¬ Survives cfg s' := by
  constructor
  · intro s h
    refine ⟨?_, reach_ended h, (reach_ok h).goesOn⟩
    obtain ⟨s₀, h₀, hp⟩ := h
    refine hp.preserves_reach (I := fun s => ∀ job e, s.worker ≠ .died job e)
      (fun s a s' hr hi ho hst job e hd => ho ((reach_move hr hst).overflow hi hd)) (.init h₀) ?_
    obtain ⟨_, _, _, _, -, -, rfl⟩ := h₀
    exact fun job e hd => by cases hd
  · intro s a s' h hst ho hs
    obtain ⟨job, e, hd⟩ := (reach_move h hst).died ho (reach_requested h)
      fun id r hr => (reach_accepted h id r hr).intsOk
    exact hs.alive job e hd

namespace Sample

/-- No cloud request is recorded when an artifact is written. -/
def native (s : Runner Readiness) : Action Readiness → Bool
  | .resume _ _ _ => s.store.jobs.all fun p => p.2.submission.cloud.isNone
  | _ => true

theorem no_overflow_of_native (artifactsRoot : Option Str) (s : Runner Readiness)
    (a : Action Readiness) (h : native s a = true) : ¬ Overflow (config artifactsRoot) s a := by
  intro ho
  cases a with
  | resume now later faults =>
    obtain ⟨job, _, _, _, r, _, -, -, -, -, hr, -, -, hdeep⟩ := ho
    have hnone := List.all_eq_true.mp h (job, r) (Assoc.mem_of_get? hr)
    have hd : cloudDepth r.submission = 0 := by
      rw [cloudDepth, Option.isNone_iff_eq_none.mp hnone]
    rw [hd] at hdeep
    exact absurd (show 990 < 0 + 2 from hdeep) (by decide)
  | _ => exact ho

/-- A job whose artifact is stored. -/
def storedJob : List (Action Readiness) := [.submit submission early one, .start, .dequeue early,
  .readyReturns .ready late, .engineEnds 0 (.result result), .resume late late []]

end Sample

set_option maxRecDepth 16000 in
theorem worker_survives_stored : ∃ s, (runner (Sample.config (some Sample.root))).runIf
    Sample.native Sample.initial Sample.storedJob = some s ∧
      (s.store.job? Sample.one).map JobRecord.status = some .succeeded ∧
      Survives (Sample.config (some Sample.root)) s := by
  have h : ((runner (Sample.config (some Sample.root))).runIf Sample.native Sample.initial
      Sample.storedJob).map (fun s => (s.store.job? Sample.one).map JobRecord.status) =
        some (some .succeeded) := by rfl
  obtain ⟨s, hs, hj⟩ := Option.map_eq_some_iff.mp h
  refine ⟨s, hs, hj, (worker_survives (Sample.config (some Sample.root))).1 s ?_⟩
  exact ⟨_, Sample.init_initial fun r hr => Option.some.inj hr,
    Lts.path_of_runIf (Sample.no_overflow_of_native _) hs⟩

namespace Sample

/-- A cloud job whose request nests too deep for the encoder. -/
def deepSubmission : Submission := (deepRequest 1000).submission

/-- Up to the end of its engine call. -/
def deepJob : List (Action Readiness) := [.submit deepSubmission early one, .start, .dequeue early,
  .readyReturns .ready late, .engineEnds 0 (.result result)]

/-- The job's record then. -/
def deepRecord : JobRecord where
  id := one
  submission := deepSubmission
  status := .running
  submittedAt := early
  startedAt := some late

theorem accepted_deepJob : ∀ a ∈ deepJob, ∀ s, AcceptedSubmits (config (some root)) s a := by
  simp only [deepJob, List.forall_mem_cons, List.not_mem_nil, false_implies, implies_true, and_true]
  exact ⟨fun _ => accepted_deep (by decide), fun _ => trivial, fun _ => trivial, fun _ => trivial,
    fun _ => trivial⟩

/-- The state at the end of the engine call. -/
structure AtDeepResult (s : Runner Readiness) : Prop where
  run : (runner (config (some root))).run initial deepJob = some s
  worker : s.worker = .atEngine one 0 (engineRequest (config (some root)) deepSubmission)
  call : s.calls[0]? =
    some ⟨one, engineRequest (config (some root)) deepSubmission, .done (.result result)⟩
  unmarked : s.mustCancel = false
  uncancelled : s.cancelled = []
  job : s.store.job? one = some deepRecord
  fs : s.fs = Sample.fs

theorem exists_atDeepResult : ∃ s, AtDeepResult s := by
  have h : ((runner (config (some root))).run initial deepJob).map
      (fun s => (s.worker, s.calls[0]?, s.mustCancel, s.cancelled, s.store.job? one, s.fs)) =
    some (.atEngine one 0 (engineRequest (config (some root)) deepSubmission),
      some ⟨one, engineRequest (config (some root)) deepSubmission, .done (.result result)⟩, false,
      [], some deepRecord, Sample.fs) := rfl
  obtain ⟨s, hs, hj⟩ := Option.map_eq_some_iff.mp h
  simp only [Prod.mk.injEq] at hj
  obtain ⟨hw, hc, hm, hn, hr, hf⟩ := hj
  exact ⟨s, hs, hw, hc, hm, hn, hr, hf⟩

theorem AtDeepResult.reach {s : Runner Readiness} (h : AtDeepResult s) :
    (runner (config (some root))).Reach (AcceptedSubmits (config (some root))) s :=
  ⟨initial, init_initial fun _ => Option.some.inj, Lts.path_of_run_forall accepted_deepJob h.run⟩

/-- The write of the artifact gets as far as the encoder. -/
theorem encodes_deep : Encodes platform Sample.fs (deepRecord.succeeded result late) root [] :=
  ⟨⟨lit "/artifacts/0a", wav, _, some oneAndHalf, some oneAndHalf, 0, one,
    ⟨rfl, by decide, by decide, rfl, rfl, rfl, rfl⟩, ⟨rfl, rfl, rfl⟩⟩, fun _ h => by cases h⟩

theorem AtDeepResult.overflow {s : Runner Readiness} (h : AtDeepResult s) :
    Overflow (config (some root)) s (.resume late late []) := by
  refine ⟨one, 0, _, result, deepRecord, root, h.worker, h.call, h.unmarked, ?_, h.job, rfl, ?_, ?_⟩
  · rw [h.uncancelled]; exact List.not_mem_nil
  · rw [h.fs]; exact encodes_deep
  · have hd : cloudDepth deepRecord.submission = 1003 := depth_deepBody 1000
    rw [hd]
    decide

end Sample

/-- Not every run leaves the worker alive. -/
theorem worker_dies : ¬ WorkerSurvives (Sample.config (some Sample.root))
    (AcceptedSubmits (Sample.config (some Sample.root)) :
      Runner Sample.Readiness → Action Sample.Readiness → Prop) := by
  intro h
  obtain ⟨s, hs⟩ := Sample.exists_atDeepResult
  obtain ⟨s', hst⟩ : ∃ s', (runner (Sample.config (some Sample.root))).step s
      (.resume Sample.late Sample.late []) = some s' := by
    have := (h s hs.reach).goesOn
    unfold GoesOn at this
    rw [hs.worker] at this
    exact this _ hs.call _ _ _
  obtain ⟨job, e, hd⟩ := (reach_move hs.reach hst).died hs.overflow (reach_requested hs.reach)
    fun id r hr => (reach_accepted hs.reach id r hr).intsOk
  exact (h s' (hs.reach.step (a := .resume Sample.late Sample.late []) trivial hst)).alive job e hd

end Music3
