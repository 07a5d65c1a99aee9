import Music3.Jobs.Story

/-!
# Cancel is final

What the worker does for a job (an event, an engine call, a write; `Obs.actsOn`) it does for a
job that is not terminal (`Move.work`), and a terminal record stays as it is (`Kept`). So after a
cancel nothing happens to the job, wherever the worker was. `cancel_final` puts this together with
the outcomes of `cancel` itself, and with the net of `_loop`, which catches nothing.
-/

namespace Music3

open Py StateExcept Runner

/-- The job that an observation does something for. -/
def Obs.actsOn : Obs → Option JobId
  | event job _ | engineStarted job | writeCalled job => some job
  | submitted _ | dequeued _ | readyCalled _ | readyReturned _ _ | transitionNet _ | processed _ =>
    none

namespace Runner

variable {G : Type}

/-- Nothing has happened to the job `id` since: what was done was done for others. -/
def Leaves (id : JobId) (s s' : Runner G) : Prop :=
  ∃ new, s'.trace = s.trace ++ new ∧ ∀ o ∈ new, o.actsOn ≠ some id

/-- A job that the store does not know, or that is not terminal. -/
def Active (s : Runner G) (id : JobId) : Prop :=
  ∀ r, s.store.job? id = some r → r.status.terminal = false

/-- The observations of a step: what they do is for active jobs, and the net catches nothing. -/
structure Works (s s' : Runner G) (new : List Obs) : Prop where
  trace : s'.trace = s.trace ++ new
  active : ∀ o ∈ new, ∀ id, o.actsOn = some id → s.Active id
  net : ∀ job, Obs.transitionNet job ∉ new

theorem Leaves.refl (id : JobId) (s : Runner G) : Leaves id s s :=
  ⟨[], by rw [List.append_nil], fun o h => by cases h⟩

theorem Leaves.trans {id : JobId} {s t u : Runner G} (h : Leaves id s t) (h' : Leaves id t u) :
    Leaves id s u := by
  obtain ⟨new, ht, hn⟩ := h
  obtain ⟨new', ht', hn'⟩ := h'
  refine ⟨new ++ new', by rw [ht', ht, List.append_assoc], fun o ho => ?_⟩
  rcases List.mem_append.mp ho with ho | ho
  · exact hn o ho
  · exact hn' o ho

theorem Active.of_job {s : Runner G} {id : JobId} {r : JobRecord} (h : s.store.job? id = some r)
    (hr : r.status.terminal = false) : s.Active id := fun x hx => by
  obtain rfl : r = x := Option.some.inj (h.symm.trans hx)
  exact hr

end Runner

section
variable {G : Type} {s s' : Runner G}

/-- The observations `new` act on no job but the active `job`. -/
theorem Runner.Works.of_job {t : Runner G} {job : JobId} {new : List Obs}
    (ht : t.trace = s.trace ++ new)
    (ha : s.Active job) (hn : ∀ o ∈ new, o.actsOn = none ∨ o.actsOn = some job)
    (hnet : ∀ id, Obs.transitionNet id ∉ new) : Works s t new := by
  refine ⟨ht, fun o ho id hid => ?_, hnet⟩
  rcases hn o ho with h | h <;> rw [h] at hid <;> cases hid
  exact ha

theorem Runner.Works.of_none {new : List Obs} (ht : s'.trace = s.trace ++ new)
    (hn : ∀ o ∈ new, o.actsOn = none) (hnet : ∀ id, Obs.transitionNet id ∉ new) :
    Works s s' new :=
  ⟨ht, fun o ho id hid => (by rw [hn o ho] at hid; cases hid), hnet⟩

variable [ReadinessGate G] {cfg : Config}

omit [ReadinessGate G] in
theorem Persist.work {job : JobId} {r : JobRecord} {request : EngineRequest}
    {result : EngineResult} {now later : Str} {faults : List (Option Nat)}
    (hr : s.store.job? job = some r) (hst : r.status = .running)
    (h : Persist cfg s job r request result now later faults s') : ∃ new, Works s s' new := by
  have ha : s.Active job := .of_job hr (by rw [hst]; rfl)
  cases h with
  | noRoot _ =>
    exact ⟨[.event job _, .processed job], .of_job (by simp [finish, note, Runner.advance]; rfl) ha
      (by simp [Obs.actsOn]) (by simp)⟩
  | stored root dir sys _ _ =>
    exact ⟨[.writeCalled job, .event job _, .processed job],
      .of_job (by simp [finish, note, Runner.advance]; rfl) ha (by simp [Obs.actsOn]) (by simp)⟩
  | writeFailed root e sys _ _ _ =>
    exact ⟨[.writeCalled job, .event job _, .processed job],
      .of_job (by simp [finish, note, Runner.advance]; rfl) ha (by simp [Obs.actsOn]) (by simp)⟩
  | died root sys _ _ =>
    exact ⟨[.writeCalled job], .of_job rfl ha (by simp [Obs.actsOn]) (by simp)⟩

/-- What a move does, it does for active jobs. -/
theorem Move.work {a : Action G} (h : Move cfg s a s') : ∃ new, Works s s' new := by
  cases h with
  | start _ | stopMark _ | stopForward _ _ _ _ _ _ | cancelRefused _ _ _ | teardownQueue _ _
  | teardownReady _ _ _ | gate _ | callEnds _ _ _ _ _ _ | resumeStopped _ _ _ _ _ _ _ _ _ _ _ =>
    exact ⟨[], .of_none (List.append_nil _).symm (by simp) (by simp)⟩
  | submit submission now job hn =>
    exact ⟨_, .of_job (t := s.enqueue submission now job) rfl
      (fun r hr => by rw [hn] at hr; cases hr) (by simp [Obs.actsOn]) (by simp)⟩
  | cancel job now r hr hst =>
    exact ⟨_, .of_job (t := (s.abort job).advance job (r.cancelled now) []) rfl (.of_job hr hst)
      (by simp [Obs.actsOn]) (by simp)⟩
  | drop job queue now _ _ _ _ =>
    exact ⟨[.dequeued job, .processed job], .of_none (by simp [finish, note]) (by simp [Obs.actsOn])
      (by simp)⟩
  | take job queue now _ _ _ _ =>
    exact ⟨[.dequeued job, .readyCalled job], .of_none (by simp [note]) (by simp [Obs.actsOn])
      (by simp)⟩
  | readyDrop job state now _ _ _ =>
    exact ⟨[.readyReturned job state, .processed job], .of_none (by simp [finish, note])
      (by simp [Obs.actsOn]) (by simp)⟩
  | readyFail job state now r _ _ _ hr hst _ =>
    exact ⟨[.readyReturned job state, .event job _, .processed job],
      .of_job (by simp [finish, note, Runner.advance]; rfl) (.of_job hr (by rw [hst]; rfl))
        (by simp [Obs.actsOn]) (by simp)⟩
  | begin job now r _ _ _ hr hst =>
    exact ⟨[.readyReturned job .ready, .event job _, .engineStarted job],
      .of_job (by simp [note, Runner.advance, beginCall]; rfl) (.of_job hr (by rw [hst]; rfl))
        (by simp [Obs.actsOn]) (by simp)⟩
  | resumeDrop job task request outcome now later faults _ _ _ =>
    exact ⟨[.processed job], .of_none rfl (by simp [Obs.actsOn]) (by simp)⟩
  | resumeFail job task request outcome message now later faults r _ _ _ _ hr hst =>
    exact ⟨[.event job _, .processed job],
      .of_job (by simp [finish, note, Runner.advance, release]; rfl)
        (.of_job hr (by rw [hst]; rfl)) (by simp [Obs.actsOn]) (by simp)⟩
  | resumeResult job task request outcome result now later faults r s' _ _ _ _ hr hst hp =>
    obtain ⟨new, hw⟩ := hp.work (s := s.release) hr hst
    exact ⟨new, hw.trace, hw.active, hw.net⟩

variable {P : Runner G → Action G → Prop}

/-- The net of `_loop` has caught nothing. -/
theorem reach_no_net (h : (runner cfg).Reach P s) (job : JobId) :
    Obs.transitionNet job ∉ s.trace := by
  obtain ⟨s₀, h₀, hp⟩ := h
  refine hp.preserves_reach (I := fun s => Obs.transitionNet job ∉ s.trace)
    (fun s a s' hr hn _ hst => ?_) (.init h₀) ?_
  · obtain ⟨new, hw⟩ := (reach_move hr hst).work
    rw [hw.trace, List.mem_append, not_or]
    exact ⟨hn, hw.net job⟩
  · obtain ⟨_, _, _, _, -, -, rfl⟩ := h₀
    exact List.not_mem_nil

/-- Nothing happens to a terminal job. -/
theorem path_leaves (h : (runner cfg).Reach P s) (hp : (runner cfg).Path P s s') {id : JobId}
    {r : JobRecord} (hr : s.store.job? id = some r) (ht : r.status.terminal = true) :
    s'.store.job? id = some r ∧ Leaves id s s' := by
  refine hp.preserves_reach (I := fun t => t.store.job? id = some r ∧ Leaves id s t)
    (fun t a t' hrt hi _ hst => ?_) h ⟨hr, .refl id s⟩
  obtain ⟨hrt', hl⟩ := hi
  have hm := reach_move hrt hst
  obtain ⟨r', hr', -, -, -, hterm⟩ := hm.storeStep.kept id r hrt'
  obtain ⟨new, hw⟩ := hm.work
  refine ⟨(hterm ht).1 ▸ hr', hl.trans ⟨new, hw.trace, fun o ho e => ?_⟩⟩
  have := hw.active o ho id e r hrt'
  rw [ht] at this
  cases this

end

/-! ## The result -/

/-- How `cancel` of the job `id` ends, and what holds ever after. -/
structure CancelFinal {G : Type} [ReadinessGate G] (cfg : Config) (s : Runner G) (id : JobId)
    (now : Str) : Prop where
  unknown : (cancel id now).run s = .error (.jobNotFound id) s ↔ s.store.job? id = none
  terminal : (∃ st, (cancel id now).run s = .error (.jobTransition st .cancelled) s) ↔
    ∃ r, s.store.job? id = some r ∧ r.status.terminal = true
  /-- A `cancel` that raises does it for one of these reasons, and changes nothing. -/
  refused : ∀ e t, (cancel id now).run s = .error e t → t = s ∧
    (e = .jobNotFound id ∨ ∃ st, e = .jobTransition st .cancelled)
  returned : ∀ r t, (cancel id now).run s = .ok r t →
    r.status = .cancelled ∧ t.store.job? id = some r
  /-- The job stays as it is: no engine call, no write and no event. -/
  final : ∀ r t u, (cancel id now).run s = .ok r t → (runner cfg).Path Lts.always t u →
    u.store.job? id = some r ∧ u.store.log id = t.store.log id ∧ Leaves id t u

/-- `cancel` in every reachable state, and the net of `_loop`, which has caught nothing. -/
theorem cancel_final {G : Type} [ReadinessGate G] {cfg : Config} {s : Runner G}
    (h : (runner cfg).Reach Lts.always s) :
    (∀ id now, CancelFinal cfg s id now) ∧ ∀ job, Obs.transitionNet job ∉ s.trace := by
  have hs := reach_ok h
  refine ⟨fun id now => ?_, reach_no_net h⟩
  cases hr : s.store.job? id with
  | none =>
    have hrun := run_cancel_unknown now hr
    refine ⟨by simp [hrun, hr], by simp [hrun, hr], fun e t e' => ?_, fun r t e' => ?_,
      fun r t u e' => ?_⟩ <;> rw [hrun] at e' <;> cases e'
    exact ⟨rfl, .inl rfl⟩
  | some r =>
    cases hst : r.status.terminal with
    | true =>
      have hrun := run_cancel_terminal now hr hst
      refine ⟨by simp [hrun, hr], by simp [hrun, hr, hst], fun e t e' => ?_, fun r t e' => ?_,
        fun r t u e' => ?_⟩ <;> rw [hrun] at e' <;> cases e'
      exact ⟨rfl, .inr ⟨_, rfl⟩⟩
    | false =>
      have hrun := run_cancel now hs hr hst
      refine ⟨by simp [hrun, hr], by simp [hrun, hr, hst], fun e t e' => ?_, fun r' t e' => ?_,
        fun r' t u e' hp => ?_⟩ <;> rw [hrun] at e' <;> cases e'
      · exact ⟨rfl, (JobStore.job?_advance _ _ _).trans (if_pos rfl)⟩
      · -- the state after the call is the state after a step
        have hstep : (runner cfg).step s (.cancel id now) =
            some ((s.abort id).advance id (r.cancelled now) []) := by
          show some (stateAfter (cancel id now) s) = _
          rw [stateAfter, hrun]
        have hreach := h.step trivial hstep
        have hjob : ((s.abort id).advance id (r.cancelled now) []).store.job? id =
            some (r.cancelled now) := (JobStore.job?_advance _ _ _).trans (if_pos rfl)
        obtain ⟨r', hr', -, -, -, hterm⟩ := path_kept hreach hp id _ hjob
        obtain ⟨rfl, -, hlog⟩ := hterm rfl
        exact ⟨hr', hlog, (path_leaves hreach hp hjob rfl).2⟩

namespace Sample

/-- The second job is cancelled in the queue, the first one while its engine call runs. -/
def twoCancels : List (Action Readiness) := [.submit submission early one,
  .submit submission early two, .start, .cancel two late, .dequeue late, .readyReturns .ready late]

end Sample

theorem cancel_final_running : ∃ s, (runner (Sample.config none)).run Sample.initial
    Sample.twoCancels = some s ∧ (s.store.job? Sample.one).map JobRecord.status = some .running ∧
      CancelFinal (Sample.config none) s Sample.one Sample.late := by
  have h : ((runner (Sample.config none)).run Sample.initial Sample.twoCancels).map
      (fun s => (s.store.job? Sample.one).map JobRecord.status) = some (some .running) := rfl
  obtain ⟨s, hs, hj⟩ := Option.map_eq_some_iff.mp h
  exact ⟨s, hs, hj, (cancel_final (Sample.reach hs)).1 Sample.one Sample.late⟩

end Music3
