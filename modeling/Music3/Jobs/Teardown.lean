import Music3.Jobs.RunnerInv

/-!
# Stopping the worker

`StopFinal cfg P`: in every run whose steps satisfy `P`, once `stop` has requested the cancellation
of the worker, the worker dequeues nothing and starts no engine call (`NoMoreWork`), and the await
that it is suspended on is its last (`WillEnd`).

It is not so for every run (`stop_swallowed`): `_process` takes any `CancelledError` at the engine
call of a job in the cancelled set for the abort of that call, and goes back to the queue.
It is so for the runs of `StopClean` steps (`stop_final`), in which `stop` does not meet such a
job, and no job is cancelled at its engine call after `stop`; an engine call that `stop` has told to
end ends cancelled. `Stopping` is the invariant.
-/

namespace Music3

open Py Runner

namespace Runner

variable {G : Type}

/-- The worker has done nothing since `s`, except to end. -/
structure NoMoreWork (s t : Runner G) : Prop where
  worker : t.worker = s.worker ∨ t.worker = .stopped s.worker.job?
  trace : ∃ new, t.trace = s.trace ++ new ∧
    ∀ job, Obs.dequeued job ∉ new ∧ Obs.engineStarted job ∉ new

/-- The worker ends when its await does: at once at the queue and in `ensure_ready()`, and at the
engine call when that call has ended. -/
def WillEnd [ReadinessGate G] (cfg : Config) (s : Runner G) : Prop :=
  match s.worker with
  | .atQueue | .atReady _ =>
    ∃ s', s.step cfg .teardown = some s' ∧ s'.worker = .stopped s.worker.job?
  | .atEngine job task request => ∀ outcome, s.calls[task]? = some ⟨job, request, .done outcome⟩ →
    ∀ now later faults, ∃ s', s.step cfg (.resume now later faults) = some s' ∧
      s'.worker = .stopped (some job)
  | .stopped _ => True
  | .unstarted | .died _ _ => False

/-- A worker that is about to receive a `CancelledError` that `_process` does not take. -/
def Leaving (mustCancel : Bool) (cancelled : List JobId) (calls : List EngineCall) :
    Worker → Prop
  | .atQueue | .atReady _ => mustCancel = true
  | .atEngine job task request => job ∉ cancelled ∧
    (mustCancel = true ∨ calls[task]? = some ⟨job, request, .live true⟩ ∨
      calls[task]? = some ⟨job, request, .done .cancelled⟩)
  | .stopped _ => True
  | .unstarted | .died _ _ => False

/-- The runner's worker is leaving. -/
def Stopping (s : Runner G) : Prop := Leaving s.mustCancel s.cancelled s.calls s.worker

end Runner

/-- `stop` ends the worker for good in every run of steps with `P`. -/
def StopFinal {G : Type} [ReadinessGate G] (cfg : Config) (P : Runner G → Action G → Prop) : Prop :=
  ∀ s, (runner cfg).Reach P s → s.stopRequested = true → WillEnd cfg s ∧
    ∀ t, (runner cfg).Path P s t → NoMoreWork s t

/-- `stop` does not meet a cancelled job at its engine call, and no job is cancelled there after
`stop`. An engine call that `stop` has told to end ends cancelled. -/
def StopClean {G : Type} (s : Runner G) : Action G → Prop
  | .stop => ∀ job task request, s.worker = .atEngine job task request → job ∉ s.cancelled
  | .cancel job _ => s.stopRequested = true → ∀ task request, s.worker ≠ .atEngine job task request
  | .engineEnds task outcome => s.stopRequested = true →
    (∃ job request, s.calls[task]? = some ⟨job, request, .live true⟩) → outcome = .cancelled
  | _ => True

section
variable {G : Type} {s s' t : Runner G}

theorem Runner.NoMoreWork.refl (s : Runner G) : NoMoreWork s s :=
  ⟨.inl rfl, [], (List.append_nil _).symm, fun _ => ⟨List.not_mem_nil, List.not_mem_nil⟩⟩

theorem Runner.NoMoreWork.trans (h : NoMoreWork s s') (h' : NoMoreWork s' t) : NoMoreWork s t := by
  obtain ⟨hw, new, ht, hn⟩ := h
  obtain ⟨hw', new', ht', hn'⟩ := h'
  refine ⟨?_, new ++ new', by rw [ht', ht, List.append_assoc], fun job => ?_⟩
  · rcases hw' with hw' | hw' <;> rcases hw with hw | hw <;> rw [hw] at hw'
    · exact .inl hw'
    · exact .inr hw'
    · exact .inr hw'
    · exact .inr hw'
  · simp only [List.mem_append, not_or]
    exact ⟨⟨(hn job).1, (hn' job).1⟩, ⟨(hn job).2, (hn' job).2⟩⟩

/-- A stopping worker's await of an ended call gives `CancelledError`. -/
theorem Runner.Stopping.awaited (h : Stopping s) {job : JobId} {task : Nat}
    {request : EngineRequest} {outcome : Outcome} (hw : s.worker = .atEngine job task request)
    (hc : s.calls[task]? = some ⟨job, request, .done outcome⟩) :
    job ∉ s.cancelled ∧ s.awaited outcome = .cancelled := by
  unfold Stopping at h
  rw [hw] at h
  obtain ⟨hn, h | h | h⟩ := h
  · exact ⟨hn, by rw [Runner.awaited, if_pos h]⟩
  · rw [hc] at h; cases h
  · rw [hc] at h
    cases h
    exact ⟨hn, by rw [Runner.awaited]; split <;> rfl⟩

variable [ReadinessGate G] {cfg : Config}

/-- A stopping worker keeps stopping, and does nothing else. -/
theorem Move.stopping {a : Action G} (hm : Move cfg s a s') (ha : StopClean s a)
    (hreq : s.stopRequested = true) (h : Stopping s) : Stopping s' ∧ NoMoreWork s s' := by
  have same : ∀ {t : Runner G}, t.worker = s.worker → t.trace = s.trace → NoMoreWork s t :=
    fun hw ht => ⟨.inl hw, [], by rw [ht, List.append_nil], fun _ => by simp⟩
  have hs := h
  unfold Stopping at hs
  cases hm with
  | start hw => rw [hw] at hs; exact hs.elim
  | stopMark hw =>
    refine ⟨?_, same rfl rfl⟩
    show Leaving true s.cancelled s.calls s.worker
    rcases hw with hw | ⟨id, hw⟩ | ⟨id, task, request, o, hw, hc⟩
    · rw [hw]; rfl
    · rw [hw]; rfl
    · rw [hw] at hs ⊢
      exact ⟨hs.1, .inl rfl⟩
  | stopForward id task request b hw hc =>
    refine ⟨?_, same rfl rfl⟩
    show Leaving s.mustCancel s.cancelled _ s.worker
    rw [hw] at hs ⊢
    refine ⟨hs.1, .inr (.inl ?_)⟩
    rw [List.getElem?_modify, hc]
    simp [EngineCall.cancel, CallState.cancel]
  | submit submission now job hn =>
    exact ⟨h, .inl rfl, _, rfl, fun job => by simp⟩
  | cancelRefused job now hr => exact ⟨h, .refl s⟩
  | cancel job now r hr hst =>
    refine ⟨?_, .inl rfl, _, rfl, fun job => by simp⟩
    show Leaving s.mustCancel (s.cancelled ++ [job]) (s.abort job).calls s.worker
    cases hw : s.worker with
    | atEngine id task request =>
      rw [hw] at hs
      have hne : id ≠ job := fun e => ha hreq task request (e ▸ hw)
      have hcalls : (s.abort job).calls = s.calls := by simp only [abort, hw, if_neg hne]
      rw [hcalls]
      exact ⟨by simp [hs.1, hne], hs.2⟩
    | _ => rw [hw] at hs; exact hs
  | drop job queue now hw hm hq hc => rw [hw, hm] at hs; cases hs
  | take job queue now hw hm hq hc => rw [hw, hm] at hs; cases hs
  | readyDrop job state now hw hm hc => rw [hw, hm] at hs; cases hs
  | readyFail job state now r hw hm hc hr hst hn =>
    rw [hw, hm] at hs; cases hs
  | begin job now r hw hm hc hr hst => rw [hw, hm] at hs; cases hs
  | callEnds job task request b outcome hc =>
    refine ⟨?_, same rfl rfl⟩
    show Leaving s.mustCancel s.cancelled _ s.worker
    cases hw : s.worker with
    | atEngine id task' request' =>
      rw [hw] at hs
      refine ⟨hs.1, hs.2.imp_right fun hcall => ?_⟩
      by_cases e : task = task'
      · -- the call that the worker awaits
        subst e
        rw [hc] at hcall
        rcases hcall with hcall | hcall <;> cases hcall
        obtain rfl := ha hreq ⟨job, request, hc⟩
        exact .inr (by rw [List.getElem?_set, if_pos rfl,
          if_pos (List.getElem?_eq_some_iff.mp hc).1])
      · rwa [List.getElem?_set, if_neg e]
    | _ => rw [hw] at hs; exact hs
  | resumeDrop job task request outcome now later faults hw hcall hc =>
    exact absurd hc (h.awaited hw hcall).1
  | resumeStopped job task request outcome now later faults hw hcall hc ho =>
    exact ⟨trivial, .inr (by rw [hw]; rfl), [], (List.append_nil _).symm, fun _ => by simp⟩
  | resumeFail job task request outcome message now later faults r hw hcall hc ho hr hst =>
    rw [(h.awaited hw hcall).2] at ho; cases ho
  | resumeResult job task request outcome result now later faults r s' hw hcall hc ho hr hst hp =>
    rw [(h.awaited hw hcall).2] at ho; cases ho
  | teardownQueue hw hm =>
    exact ⟨trivial, .inr (by rw [hw]; rfl), [], (List.append_nil _).symm, fun _ => by simp⟩
  | teardownReady job hw hm =>
    exact ⟨trivial, .inr (by rw [hw]; rfl), [], (List.append_nil _).symm, fun _ => by simp⟩
  | gate g => exact ⟨h, same rfl rfl⟩

/-- A clean `stop` makes the worker leave. -/
theorem Move.stop_stopping (hm : Move cfg s .stop s') (ha : StopClean s .stop) : Stopping s' := by
  cases hm with
  | stopMark hw =>
    show Leaving true s.cancelled s.calls s.worker
    rcases hw with hw | ⟨id, hw⟩ | ⟨id, task, request, o, hw, hc⟩
    · rw [hw]; rfl
    · rw [hw]; rfl
    · rw [hw]
      exact ⟨ha id task request hw, .inl rfl⟩
  | stopForward id task request b hw hc =>
    show Leaving s.mustCancel s.cancelled _ s.worker
    rw [hw]
    refine ⟨ha id task request hw, .inr (.inl ?_)⟩
    rw [List.getElem?_modify, hc]
    simp [EngineCall.cancel, CallState.cancel]

theorem Move.stopRequested {a : Action G} (hm : Move cfg s a s') :
    s'.stopRequested = s.stopRequested ∨ a = .stop ∧ s'.stopRequested = true := by
  cases hm with
  | stopMark _ | stopForward _ _ _ _ _ _ => exact .inr ⟨rfl, rfl⟩
  | resumeResult _ _ _ _ _ _ _ _ _ _ _ _ _ _ _ _ hp => cases hp <;> exact .inl rfl
  | _ => exact .inl rfl

variable {P : Runner G → Action G → Prop}

theorem reach_stopping (h : (runner cfg).Reach StopClean s) (hreq : s.stopRequested = true) :
    Stopping s := by
  obtain ⟨s₀, h₀, hp⟩ := h
  refine hp.preserves_reach (I := fun s => s.stopRequested = true → Stopping s)
    (fun s a s' hr hi ha hst hreq => ?_) (.init h₀) (fun hreq => ?_) hreq
  · have hm := reach_move hr hst
    rcases hm.stopRequested with e | ⟨rfl, -⟩
    · rw [e] at hreq
      exact (hm.stopping ha hreq (hi hreq)).1
    · exact hm.stop_stopping ha
  · obtain ⟨_, _, _, _, -, -, rfl⟩ := h₀
    cases hreq

/-- The await of a leaving worker is its last. -/
theorem Runner.Stopping.willEnd (h : Stopping s) (hs : s.Ok) : WillEnd cfg s := by
  have hl := h
  unfold Stopping at hl
  unfold WillEnd
  cases hw : s.worker with
  | atQueue =>
    rw [hw] at hl
    exact ⟨{ s with worker := .stopped none, mustCancel := false },
      by simp only [Runner.step, hw, show s.mustCancel = true from hl], rfl⟩
  | atReady job =>
    rw [hw] at hl
    exact ⟨{ s with worker := .stopped (some job), mustCancel := false },
      by simp only [Runner.step, hw, show s.mustCancel = true from hl], rfl⟩
  | atEngine job task request =>
    intro outcome hc now later faults
    obtain ⟨s', hst⟩ : ∃ s', s.step cfg (.resume now later faults) = some s' := by
      simp only [Runner.step, hw, hc]
      exact ⟨_, rfl⟩
    refine ⟨s', hst, ?_⟩
    obtain ⟨hn, ha⟩ := h.awaited hw hc
    -- of the ends of an engine call, only the one by `CancelledError` is left
    cases hs.move cfg hst with
    | resumeStopped job' _ _ _ _ _ _ hw' _ _ _ => rw [hw] at hw'; cases hw'; rfl
    | resumeDrop _ _ _ _ _ _ _ hw' _ hc' => rw [hw] at hw'; cases hw'; exact absurd hc' hn
    | resumeFail _ _ _ _ _ _ _ _ _ hw' hc' _ ha' _ _ =>
      rw [hw] at hw'; cases hw'
      rw [hc] at hc'; cases hc'
      rw [ha] at ha'; cases ha'
    | resumeResult _ _ _ _ _ _ _ _ _ _ hw' hc' _ ha' _ _ _ =>
      rw [hw] at hw'; cases hw'
      rw [hc] at hc'; cases hc'
      rw [ha] at ha'; cases ha'
  | stopped job => trivial
  | unstarted => rw [hw] at hl; exact hl
  | died job e => rw [hw] at hl; exact hl

end

/-- After `stop` the worker takes no more work, in every run of clean steps. -/
theorem stop_final {G : Type} [ReadinessGate G] (cfg : Config) :
    StopFinal (G := G) cfg StopClean := by
  intro s h hreq
  refine ⟨(reach_stopping h hreq).willEnd (reach_ok h), fun t hp => ?_⟩
  have := hp.preserves_reach
    (I := fun t => t.stopRequested = true ∧ Stopping t ∧ NoMoreWork s t)
    (fun t a t' hr hi ha hst => ?_) h ⟨hreq, reach_stopping h hreq, .refl s⟩
  · exact this.2.2
  · obtain ⟨hreq', hstop, hno⟩ := hi
    have hm := reach_move hr hst
    obtain ⟨hstop', hno'⟩ := hm.stopping ha hreq' hstop
    refine ⟨?_, hstop', hno.trans hno'⟩
    rcases hm.stopRequested with e | ⟨-, e⟩
    · exact e.trans hreq'
    · exact e

namespace Sample

/-- Enough for a clean step. -/
def clean (s : Runner Readiness) : Action Readiness → Bool
  | .stop => s.cancelled.isEmpty
  | .cancel _ _ => !s.stopRequested
  | .engineEnds _ .cancelled => true
  | .engineEnds _ _ => !s.stopRequested
  | _ => true

theorem stopClean_of_clean (s : Runner Readiness) (a : Action Readiness) (h : clean s a = true) :
    StopClean s a := by
  cases a with
  | stop => intro job _ _ _; rw [List.isEmpty_iff.mp h]; exact List.not_mem_nil
  | cancel job now => intro hreq; rw [clean, hreq] at h; cases h
  | engineEnds task outcome =>
    intro hreq _
    cases outcome with
    | cancelled => rfl
    | result _ | error _ => simp [clean, hreq] at h
  | _ => trivial

/-- `stop` at the engine call of a job, and the end of that call. -/
def stopAtEngine : List (Action Readiness) := [.submit submission early one,
  .submit submission early two, .start, .dequeue late, .readyReturns .ready late, .stop]

def unwind : List (Action Readiness) := [.engineEnds 0 .cancelled, .resume late late []]

end Sample

theorem stop_final_at_engine : ∃ s t, (runner (Sample.config none)).runIf Sample.clean
      Sample.initial Sample.stopAtEngine = some s ∧
    (runner (Sample.config none)).runIf Sample.clean s Sample.unwind = some t ∧
    t.queue = [Sample.two] ∧ WillEnd (Sample.config none) s ∧ NoMoreWork s t := by
  have hrun : ((runner (Sample.config none)).runIf Sample.clean Sample.initial
      Sample.stopAtEngine).map (fun s => (s.stopRequested,
        ((runner (Sample.config none)).runIf Sample.clean s Sample.unwind).map Runner.queue)) =
      some (true, some [Sample.two]) := rfl
  obtain ⟨s, hs, hj⟩ := Option.map_eq_some_iff.mp hrun
  simp only [Prod.mk.injEq] at hj
  obtain ⟨hreq, ht⟩ := hj
  obtain ⟨t, ht, hq⟩ := Option.map_eq_some_iff.mp ht
  have hr : (runner (Sample.config none)).Reach StopClean s :=
    ⟨_, Sample.init_initial nofun, Lts.path_of_runIf Sample.stopClean_of_clean hs⟩
  obtain ⟨hend, hno⟩ := stop_final (Sample.config none) s hr hreq
  exact ⟨s, t, hs, ht, hq, hend, hno t (Lts.path_of_runIf Sample.stopClean_of_clean ht)⟩

namespace Sample

/-- `stop` while the engine call of a cancelled job unwinds. -/
def stopDuringAbort : List (Action Readiness) := [.submit submission early one,
  .submit submission early two, .start, .dequeue late, .readyReturns .ready late, .cancel one late,
  .stop]

/-- The abort ends the call, and the worker goes on to the second job. -/
def nextJob : List (Action Readiness) := [.engineEnds 0 .cancelled, .resume late late [],
  .dequeue late, .readyReturns .ready late]

end Sample

/-- Not every `stop` ends the worker: it goes on to another job. -/
theorem stop_swallowed : ¬ StopFinal (Sample.config none)
    (Lts.always : Runner Sample.Readiness → Action Sample.Readiness → Prop) := by
  intro h
  have hrun : ((runner (Sample.config none)).run Sample.initial Sample.stopDuringAbort).map
      (fun s => (s.stopRequested, s.worker.job?,
        ((runner (Sample.config none)).run s Sample.nextJob).map fun t => t.worker.job?)) =
      some (true, some Sample.one, some (some Sample.two)) := rfl
  obtain ⟨s, hs, hj⟩ := Option.map_eq_some_iff.mp hrun
  simp only [Prod.mk.injEq] at hj
  obtain ⟨hreq, hjob, ht⟩ := hj
  obtain ⟨t, ht, hjob'⟩ := Option.map_eq_some_iff.mp ht
  have hw := ((h s (Sample.reach hs) hreq).2 t (Lts.path_of_run ht)).worker
  -- the worker has another job now
  have hone : t.worker.job? = some Sample.one := by
    rcases hw with hw | hw <;> rw [hw]
    · exact hjob
    · rw [hjob]; rfl
  rw [hjob'] at hone
  exact absurd hone (by decide)

end Music3
