import Music3.Lifecycle.SingleFlight

/-!
# What passive health tells

`last_known()` and `last_cause()`, which `GET /health` reports without probing, against the
decisions that `ensure_ready()` has made (`lastDecision`, `ReadyStands`).

Each action does one of five things to them (`Effect`): nothing, a stop, an answer from the cache,
a decision that is `READY`, and one that is not. The last one sets the cause and leaves the cache
as it is, so a `READY` cached earlier is still reported (`stale_report`).
-/

namespace Music3

open Py History

/-- The decision that an event completes. -/
def ReadyObs.decision? : ReadyObs → Option ReadinessState
  | returned _ state _ => some state
  | _ => none

/-- The most recently completed decision. -/
def lastDecision (h : List ReadyObs) : Option ReadinessState :=
  (h.filterMap ReadyObs.decision?).getLast?

/-- It was `READY`, and no stop has been issued since. -/
def ReadyStands : List ReadyObs → Prop :=
  Since (fun _ e => e.decision? = some .ready) fun e => e.decision? = none ∧ e.isStop = false

@[simp]
theorem lastDecision_concat (h : List ReadyObs) (e : ReadyObs) :
    lastDecision (h ++ [e]) = e.decision?.or (lastDecision h) := by
  cases he : e.decision? <;> simp [lastDecision, List.filterMap_append, he]

@[simp]
theorem readyStands_concat (h : List ReadyObs) (e : ReadyObs) :
    ReadyStands (h ++ [e]) ↔
      e.decision? = some .ready ∨ (ReadyStands h ∧ e.decision? = none ∧ e.isStop = false) :=
  since_concat

theorem ReadyStands.lastDecision {h : List ReadyObs} (hs : ReadyStands h) :
    lastDecision h = some .ready := by
  induction h using List.reverseRecOn with
  | nil => exact absurd hs not_since_nil
  | append_singleton h e ih =>
    rw [readyStands_concat] at hs
    rw [lastDecision_concat]
    rcases hs with he | ⟨hs, he, -⟩
    · rw [he]
      rfl
    · rw [he]
      exact ih hs

namespace Readiness

/-- Passive health tells the last observation. -/
structure Tells (s : Readiness) : Prop where
  known : s.lastKnown = .ready ↔ ReadyStands s.trace
  cause : s.lastCause = [] ↔ lastDecision s.trace = none ∨ lastDecision s.trace = some .ready

/-- A drive is in progress. -/
def Driving (s : Readiness) : Prop := ∃ c, s.InProgress (.caller c)

variable {cfg : Lifecycle} {s s' : Readiness} {c : Nat} {call call' : EnsureReady} {a : ReadyAction}

/-- From now on the cache is not fresh. -/
def Stale (cfg : Lifecycle) (s : Readiness) : Prop :=
  ∀ t, s.clock ≤ t → s.freshReady cfg t = none

/-- With a controller, the action ends a drive that has not found the engine ready. -/
def EndsNotReady (s : Readiness) : ReadyAction → Prop
  | .probeReturns c outcome =>
    outcome ≠ .modelsAvailable ∧
      ∃ deadline, s.calls c = some (.polling deadline) ∧ deadline ≤ s.clock
  | .statusReturns _ result => result = .ok .absent ∨ ∃ exc, result = .error exc
  | .startReturns _ result => ∃ exc, result = .error exc
  | _ => False

/-- What an action does to the report (module doc). -/
inductive Effect (cfg : Lifecycle) (s : Readiness) (a : ReadyAction) (s' : Readiness) : Prop
  | none (clock : s.clock ≤ s'.clock) (cached : s'.cached = s.cached)
      (cause : s'.lastCause = s.lastCause) (decision : lastDecision s'.trace = lastDecision s.trace)
      (stands : ReadyStands s'.trace ↔ ReadyStands s.trace)
      (driving : s'.Driving → s.Driving ∨ s'.Stale cfg) (h : ¬ s.EndsNotReady a)
  | stop (cached : s'.cached = Option.none) (cause : s'.lastCause = s.lastCause)
      (decision : lastDecision s'.trace = lastDecision s.trace) (stands : ¬ ReadyStands s'.trace)
      (h : ¬ s.EndsNotReady a)
  | answer (clock : s.clock ≤ s'.clock) (fresh : ¬ s.Stale cfg) (cached : s'.cached = s.cached)
      (cause : s'.lastCause = s.lastCause) (decision : lastDecision s'.trace = some .ready)
      (stands : ReadyStands s'.trace) (driving : s'.Driving → s.Driving) (h : ¬ s.EndsNotReady a)
  | ready (cached : s'.cached ≠ Option.none) (cause : s'.lastCause = [])
      (decision : lastDecision s'.trace = some .ready)
      (stands : ReadyStands s'.trace) (driving : ¬ s'.Driving) (h : ¬ s.EndsNotReady a)
  | notReady (clock : s.clock ≤ s'.clock) (cached : s'.cached = s.cached)
      (cause : s'.lastCause ≠ []) (state : ReadinessState) (hs : state ≠ .ready)
      (decision : lastDecision s'.trace = some state) (stands : ¬ ReadyStands s'.trace)
      (driving : s.Driving) (h : s.EndsNotReady a)

/-! ## The five effects -/

theorem Stale.none (hc : s.cached = Option.none) : s.Stale cfg := by
  intro t _
  rw [freshReady, hc]

theorem Stale.mono (h : s.Stale cfg) (hc : s'.cached = s.cached) (hclock : s.clock ≤ s'.clock) :
    s'.Stale cfg := by
  intro t ht
  have := h t (hclock.trans ht)
  rwa [freshReady, hc]

/-- A cache that is not fresh does not become fresh. -/
theorem Stale.of_freshReady (h : s.freshReady cfg s.clock = Option.none) : s.Stale cfg := by
  intro t ht
  refine Option.eq_none_iff_forall_ne_some.mpr fun state hf => ?_
  obtain ⟨t₀, hc, hr, hlt⟩ := freshReady_eq_some.mp hf
  have : s.freshReady cfg s.clock = some state :=
    freshReady_eq_some.mpr ⟨t₀, hc, hr, lt_of_le_of_lt (by gcongr) hlt⟩
  rw [h] at this
  cases this

theorem driving_update (s₀ : Readiness) {x : Option EnsureReady}
    (h : Driving { s₀ with calls := Function.update s.calls c x })
    (hx : ∀ call, x = some call → call.driving = true → s.Driving) : s.Driving := by
  obtain ⟨c', call', hc', hd⟩ := h
  by_cases hcc : c' = c
  · subst hcc
    exact hx call' (by simpa using hc') hd
  · exact ⟨c', call', by simpa [hcc] using hc', hd⟩

theorem lastDecision_returns (s : Readiness) (c : Nat) (state : ReadinessState) :
    lastDecision (s.returns c state).trace = some state := lastDecision_concat _ _

theorem readyStands_returns (s : Readiness) (c : Nat) (state : ReadinessState) :
    ReadyStands (s.returns c state).trace ↔ state = .ready := by
  refine (readyStands_concat _ _).trans ?_
  simp [ReadyObs.decision?]

theorem Effect.decideNotReady {lastCause : Str} {state : ReadinessState} (hs : state ≠ .ready)
    (hl : lastCause ≠ []) (hd : s.Driving) (he : s.EndsNotReady a) {s₀ : Readiness}
    (hclock : s.clock ≤ s₀.clock) (hcached : s₀.cached = s.cached) :
    Effect cfg s a ({ s₀ with lastCause }.decide c state) := by
  simp only [decide, if_neg hs]
  exact .notReady hclock hcached hl state hs (lastDecision_returns _ _ _)
    (mt (readyStands_returns _ _ _).mp hs) hd he

theorem Effect.decideReady {s₀ : Readiness} (h : ¬ s.EndsNotReady a)
    (hi : Inv cfg (s₀.decide c .ready)) : Effect cfg s a (s₀.decide c .ready) := by
  have hn := (hi.free rfl).1
  simp only [decide, if_true] at hn ⊢
  exact .ready (fun h => by cases h) rfl (lastDecision_returns _ _ _)
    ((readyStands_returns _ _ _).mpr rfl) (fun hd => by obtain ⟨c, hd⟩ := hd; exact hn _ hd) h

/-- What an action does to the report that leaves the decisions alone. -/
theorem Effect.quiet (es : List ReadyObs) (clock : s.clock ≤ s'.clock)
    (cached : s'.cached = s.cached) (cause : s'.lastCause = s.lastCause)
    (trace : s'.trace = s.trace ++ es)
    (hes : ∀ e ∈ es, e.decision? = Option.none ∧ e.isStop = false)
    (driving : s'.Driving → s.Driving ∨ s'.Stale cfg) (h : ¬ s.EndsNotReady a) :
    Effect cfg s a s' := by
  have : lastDecision s'.trace = lastDecision s.trace ∧
      (ReadyStands s'.trace ↔ ReadyStands s.trace) := by
    rw [trace]
    clear trace
    induction es using List.reverseRecOn with
    | nil => simp
    | append_singleton es e ih =>
      obtain ⟨hd, hs⟩ := hes e (by simp)
      obtain ⟨ihd, ihs⟩ := ih fun x hx => hes x (by simp [hx])
      simp [← List.append_assoc, hd, hs, ihd, ihs]
  exact .none clock cached cause this.1 this.2 driving h

theorem effect_ensureReady {later : ℚ} (hl : s.clock ≤ later) :
    Effect cfg s (.call c later) (s.ensureReady cfg c later) := by
  have hcalls : Readiness.calls (armIdle cfg { s with lastActivity := s.clock, clock := later }) =
      s.calls := armIdle_calls
  simp only [ensureReady]
  split
  · rename_i state h
    obtain ⟨t, hcache, hr, ht⟩ := freshReady_eq_some.mp h
    rw [note, armIdle_cached] at hcache
    subst hr
    have hf : s.freshReady cfg later = some .ready := freshReady_eq_some.mpr ⟨t, hcache, rfl, ht⟩
    refine .answer ?_ (fun hs => ?_) ?_ ?_ (lastDecision_returns _ _ _)
      ((readyStands_returns _ _ _).mpr rfl) ?_ (by simp [EndsNotReady])
    · simpa [returns, await, note] using hl
    · cases hf.symm.trans (hs later hl)
    · simp [returns, await, note]
    · simp [returns, await, note]
    · intro hd
      simp only [returns, await, note, hcalls] at hd
      exact driving_update { s with calls := s.calls } hd fun _ h hd => by
        cases h; cases hd
  · refine .quiet [.called c] ?_ ?_ ?_ ?_ (by simp [ReadyObs.decision?, ReadyObs.isStop])
      (fun hd => .inl ?_) (by simp [EndsNotReady])
    · simpa [await, note] using hl
    · simp [await, note]
    · simp [await, note]
    · simp [await, note]
    · simp only [await, note, hcalls] at hd
      exact driving_update { s with calls := s.calls } hd fun _ h hd => by
        cases h; cases hd

theorem effect_driveReadiness (hl : s.lock = Option.none) (hi : Inv cfg s) {later : ℚ}
    (hn : s.clock ≤ later) : Effect cfg s (.acquire c later) (s.driveReadiness cfg c later) := by
  have hfree : ¬ s.Driving := fun ⟨c, hd⟩ => (hi.free hl).1 (.caller c) hd
  simp only [driveReadiness]
  split
  · rename_i state h
    obtain ⟨t, hcache, hr, ht⟩ := freshReady_eq_some.mp h
    subst hr
    have hf : s.freshReady cfg s.clock = some .ready :=
      freshReady_eq_some.mpr ⟨t, hcache, rfl, ht⟩
    refine .answer (le_refl _) (fun hs => ?_) rfl rfl (lastDecision_returns _ _ _)
      ((readyStands_returns _ _ _).mpr rfl) (fun hd => ?_) (by simp [EndsNotReady])
    · cases hf.symm.trans (hs _ (le_refl _))
    · exact driving_update s hd fun _ h hd => by cases h; cases hd
  · rename_i h
    have hs : s.Stale cfg := Stale.of_freshReady h
    exact .quiet [.acquired (.caller c)] hn rfl rfl rfl
      (by simp [ReadyObs.decision?, ReadyObs.isStop]) (fun _ => .inr (hs.mono rfl hn))
      (by simp [EndsNotReady])

theorem effect_afterProbe (hctl : cfg.controller = true) {deadline : ℚ} {outcome : ProbeOutcome}
    (hc : s.calls c = some (.probing deadline))
    (hi : Inv cfg (s.afterProbe cfg c deadline outcome)) :
    Effect cfg s (.probeReturns c outcome) (s.afterProbe cfg c deadline outcome) := by
  have he : ¬ s.EndsNotReady (.probeReturns c outcome) := by
    rintro ⟨-, _, h, -⟩
    cases hc.symm.trans h
  simp only [afterProbe] at hi ⊢
  split
  · rename_i h
    have hr := h.resolve_right (by simp [hctl])
    rw [if_pos h, hr] at hi
    rw [hr]
    exact .decideReady he hi
  · exact .quiet [.probed c outcome s.clock] (le_refl _) rfl rfl rfl
      (by simp [ReadyObs.decision?, ReadyObs.isStop]) (fun _ => .inl ⟨c, _, hc, rfl⟩) he

theorem effect_afterPoll {deadline : ℚ} {outcome : ProbeOutcome}
    (hc : s.calls c = some (.polling deadline))
    (hi : Inv cfg (s.afterPoll cfg c deadline outcome)) :
    Effect cfg s (.probeReturns c outcome) (s.afterPoll cfg c deadline outcome) := by
  simp only [afterPoll] at hi ⊢
  split
  · rename_i h
    rw [if_pos h, h] at hi
    rw [h]
    exact .decideReady (fun he => he.1 (classifyReadiness_eq_ready.mp h)) hi
  rename_i h
  have hm : outcome ≠ .modelsAvailable := fun ho => h (classifyReadiness_eq_ready.mpr ho)
  split
  · rename_i hd
    have he : s.EndsNotReady (.probeReturns c outcome) := ⟨hm, deadline, hc, hd⟩
    exact .decideNotReady h (by simp [timeoutCause, lit]) ⟨c, _, hc, rfl⟩ he (le_refl _) rfl
  · rename_i hd
    refine .quiet [.probed c outcome s.clock] (le_refl _) rfl rfl rfl
      (by simp [ReadyObs.decision?, ReadyObs.isStop]) (fun _ => .inl ⟨c, _, hc, rfl⟩) ?_
    rintro ⟨-, _, hc', hd'⟩
    cases hc.symm.trans hc'
    exact hd hd'

theorem effect_afterStatus {deadline : ℚ} {result : Except Str ContainerState}
    (hc : s.calls c = some (.status deadline)) :
    Effect cfg s (.statusReturns c result) (s.afterStatus c deadline result) := by
  have hd : s.Driving := ⟨c, _, hc, rfl⟩
  simp only [afterStatus]
  split
  · rename_i exc
    have he : s.EndsNotReady (.statusReturns c (.error exc)) := .inr ⟨exc, rfl⟩
    exact .decideNotReady (by decide) (by simp [controllerCause, lit]) hd he (le_refl _) rfl
  · have he : s.EndsNotReady (.statusReturns c (.ok .absent)) := .inl rfl
    exact .decideNotReady (by decide) (by simp [absentCause, lit]) hd he (le_refl _) rfl
  · exact .quiet [.statusRead (.caller c) (.ok .stopped), .startIssued c] (le_refl _) rfl
      rfl (by simp [await, note]) (by simp [ReadyObs.decision?, ReadyObs.isStop]) (fun _ => .inl hd)
      (by simp [EndsNotReady])
  · exact .quiet [.statusRead (.caller c) (.ok .running)] (le_refl _) rfl
      rfl rfl (by simp [ReadyObs.decision?, ReadyObs.isStop]) (fun _ => .inl hd)
      (by simp [EndsNotReady])

theorem effect_afterStart {deadline : ℚ} {result : Except Str Unit}
    (hc : s.calls c = some (.starting deadline)) :
    Effect cfg s (.startReturns c result) (s.afterStart c deadline result) := by
  have hd : s.Driving := ⟨c, _, hc, rfl⟩
  simp only [afterStart]
  split
  · rename_i exc
    have he : s.EndsNotReady (.startReturns c (.error exc)) := ⟨exc, rfl⟩
    exact .decideNotReady (by decide) (by simp [controllerCause, lit]) hd he (le_refl _) rfl
  · exact .quiet [.startEnded c (.ok ())] (le_refl _) rfl
      rfl rfl (by simp [ReadyObs.decision?, ReadyObs.isStop]) (fun _ => .inl hd)
      (by simp [EndsNotReady])

theorem effect_maybeIdleDown {result : Except Str ContainerState} :
    Effect cfg s (.idleStatus result) (s.maybeIdleDown cfg result) := by
  have quiet : Effect cfg s (.idleStatus result)
      (Readiness.idleReturns cfg (s.note (.statusRead .idle result))) :=
    .quiet [.statusRead .idle result, .released .idle] (le_refl _) rfl rfl
      (by simp [idleReturns, release, note]) (by simp [ReadyObs.decision?, ReadyObs.isStop]) .inl
      (by simp [EndsNotReady])
  simp only [maybeIdleDown]
  split
  · exact quiet
  split
  · refine .stop rfl rfl ?_ (fun h => ?_) (by simp [EndsNotReady])
    · exact (lastDecision_concat _ _).trans (lastDecision_concat _ _)
    · rcases (readyStands_concat _ _).mp h with h | ⟨-, -, h⟩ <;> cases h
  · exact quiet

/-- Each action has one of the five effects. -/
theorem Step.effect (hctl : cfg.controller = true) (hi : Inv cfg s) (h : Step cfg s a s') :
    Effect cfg s a s' := by
  have hi' := hi.step h
  cases h with
  | call _ hl => exact effect_ensureReady hl
  | acquire _ hlock hl => exact effect_driveReadiness hlock hi hl
  | firstProbe hc => exact effect_afterProbe hctl hc hi'
  | poll hc => exact effect_afterPoll hc hi'
  | statusReturns hc => exact effect_afterStatus hc
  | startReturns hc => exact effect_afterStart hc
  | idleStatus _ => exact effect_maybeIdleDown
  | tick hc => exact .quiet [] hc rfl rfl (by simp) (by simp) .inl (by simp [EndsNotReady])
  | wake hc =>
    exact .quiet [] (le_refl _) rfl rfl (by simp [await]) (by simp)
      (fun _ => .inl ⟨_, _, hc, rfl⟩) (by simp [EndsNotReady])
  | abortWaiting hc =>
    exact .quiet [.aborted _] (le_refl _) rfl rfl rfl
      (by simp [ReadyObs.decision?, ReadyObs.isStop])
      (fun hd => .inl (driving_update s hd fun _ h => by cases h)) (by simp [EndsNotReady])
  | @abortDrive c _ hc hd =>
    exact .quiet [.released (.caller c), .aborted c] (le_refl _) rfl rfl
      (by simp [release, leave, note]) (by simp [ReadyObs.decision?, ReadyObs.isStop])
      (fun _ => .inl ⟨_, _, hc, hd⟩) (by simp [EndsNotReady])
  | idleAcquire _ _ =>
    exact .quiet [.acquired .idle] (le_refl _) rfl rfl rfl
      (by simp [ReadyObs.decision?, ReadyObs.isStop]) .inl (by simp [EndsNotReady])
  | @idleStop result _ =>
    exact .quiet [.stopEnded result, .released .idle] (le_refl _) rfl rfl
      (by simp [idleReturns, release, note]) (by simp [ReadyObs.decision?, ReadyObs.isStop]) .inl
      (by simp [EndsNotReady])
  | idleCancelledHolding _ =>
    exact .quiet [.released .idle] (le_refl _) rfl rfl rfl
      (by simp [ReadyObs.decision?, ReadyObs.isStop]) .inl (by simp [EndsNotReady])
  | idleWake _ _ =>
    simp only [idleLoop]
    split <;> exact .quiet [] (le_refl _) rfl rfl (by simp) (by simp) .inl
      (by simp [EndsNotReady])
  | startIdleMonitor =>
    refine .quiet [] (by simp) (by simp) (by simp) (by simp) (by simp) (fun hd => .inl ?_)
      (by simp [EndsNotReady])
    simpa [Driving, InProgress] using hd
  | leaseEnter | leaseExit _ | idleCancelled _ _ | idleClosed _ =>
    exact .quiet [] (le_refl _) rfl rfl (List.append_nil _).symm (by simp) .inl
      (by simp [EndsNotReady])

/-! ## Runs -/

/-- Along every run: while a drive is in progress, or the cause is not empty, the cache is not
fresh; and the cause tells the last decision. -/
structure Reports (cfg : Lifecycle) (s : Readiness) : Prop where
  driving : s.Driving → s.Stale cfg
  stale : s.lastCause ≠ [] → s.Stale cfg
  cause : s.lastCause = [] ↔ lastDecision s.trace = none ∨ lastDecision s.trace = some .ready

theorem Reports.effect (h : s.Reports cfg) (he : Effect cfg s a s') : s'.Reports cfg := by
  cases he with
  | none clock cached cause decision stands driving _ =>
    refine ⟨fun hd => ?_, fun hl => ?_, ?_⟩
    · exact (driving hd).elim (fun hd => (h.driving hd).mono cached clock) id
    · exact (h.stale (cause ▸ hl)).mono cached clock
    · rw [cause, decision]
      exact h.cause
  | stop cached cause decision _ _ =>
    refine ⟨fun _ => .none cached, fun _ => .none cached, ?_⟩
    rw [cause, decision]
    exact h.cause
  | answer _ fresh _ cause decision _ driving _ =>
    have hl : s.lastCause = [] := by
      by_contra hl
      exact fresh (h.stale hl)
    refine ⟨fun hd => absurd (h.driving (driving hd)) fresh, fun hl' => ?_, ?_⟩
    · exact absurd (cause.trans hl) hl'
    · exact iff_of_true (cause.trans hl) (.inr decision)
  | ready _ cause decision _ driving _ =>
    exact ⟨fun hd => absurd hd driving, fun hl => absurd cause hl,
      iff_of_true cause (.inr decision)⟩
  | notReady clock cached cause state hs decision _ driving _ =>
    have hstale := (h.driving driving).mono cached clock
    refine ⟨fun _ => hstale, fun _ => hstale, iff_of_false cause ?_⟩
    rw [decision]
    simpa using hs

/-- No drive ends without having found the engine ready while the cache holds an earlier `READY`. -/
def Unshadowed (s : Readiness) (a : ReadyAction) : Prop := s.EndsNotReady a → s.cached = none

theorem stands_effect (h : s.cached ≠ none ↔ ReadyStands s.trace) (hu : s.Unshadowed a)
    (he : Effect cfg s a s') : s'.cached ≠ none ↔ ReadyStands s'.trace := by
  cases he with
  | none _ cached _ _ stands _ _ => rwa [cached, stands]
  | stop cached _ _ stands _ => exact iff_of_false (absurd cached) stands
  | answer _ fresh cached _ _ stands _ _ =>
    refine iff_of_true (fun hc => fresh (.none ?_)) stands
    rw [← cached, hc]
  | ready cached _ _ stands _ _ => exact iff_of_true cached stands
  | notReady _ cached _ _ _ _ stands _ h => exact iff_of_false (absurd (cached.trans (hu h))) stands

theorem Inv.lastKnown_eq_ready (hi : Inv cfg s) : s.lastKnown = .ready ↔ s.cached ≠ none := by
  unfold lastKnown
  cases hc : s.cached with
  | none => simp
  | some entry => exact iff_of_true (hi.cached _ _ hc).1 (by simp)

theorem reports_reach {P : Readiness → ReadyAction → Prop} (hctl : cfg.controller = true)
    (h : (readiness cfg).Reach P s) : s.Reports cfg := by
  have := h.invariant (I := fun s => Inv cfg s ∧ s.Reports cfg) ?_ ?_
  · exact this.2
  · intro s hs
    refine ⟨inv_init hs, ?_⟩
    obtain ⟨t, rfl⟩ := hs
    exact ⟨fun _ => .none rfl, fun _ => .none rfl, iff_of_true rfl (.inl rfl)⟩
  · intro s a s' hi _ hst
    have hstep := step_inv hst
    exact ⟨hi.1.step hstep, hi.2.effect (hstep.effect hctl hi.1)⟩

theorem stands_reach (hctl : cfg.controller = true) (h : (readiness cfg).Reach Unshadowed s) :
    s.cached ≠ none ↔ ReadyStands s.trace := by
  have := h.invariant (I := fun s => Inv cfg s ∧ (s.cached ≠ none ↔ ReadyStands s.trace)) ?_ ?_
  · exact this.2
  · intro s hs
    refine ⟨inv_init hs, ?_⟩
    obtain ⟨t, rfl⟩ := hs
    exact iff_of_false (absurd rfl) not_since_nil
  · intro s a s' hi hu hst
    have hstep := step_inv hst
    exact ⟨hi.1.step hstep, stands_effect hi.2 hu (hstep.effect hctl hi.1)⟩

/-- A drive that ends without having found the engine ready, and an earlier `READY` that is still
reported. -/
theorem Inv.stale_report (hi : Inv cfg s) (hctl : cfg.controller = true) (hu : ¬ s.Unshadowed a)
    (h : Step cfg s a s') : ¬ s'.Tells := by
  obtain ⟨he, hc⟩ := Classical.not_imp.mp hu
  intro ht
  have hi' := hi.step h
  cases h.effect hctl hi with
  | notReady _ cached _ _ _ _ stands _ _ =>
    exact stands (ht.known.mp (hi'.lastKnown_eq_ready.mpr fun h => hc (cached ▸ h)))
  | none _ _ _ _ _ _ h | stop _ _ _ _ h | answer _ _ _ _ _ _ _ h | ready _ _ _ _ _ h =>
    exact h he

end Readiness

/-- In every run whose steps are `Unshadowed`, passive health tells the last observation; each step
that is not makes it tell another one; and the cause is right along every run. -/
theorem health_tells (cfg : Lifecycle) (hctl : cfg.controller = true) (s : Readiness) :
    ((readiness cfg).Reach Readiness.Unshadowed s → s.Tells) ∧
    ((readiness cfg).Reach Lts.always s → ∀ a s', ¬ s.Unshadowed a →
      (readiness cfg).step s a = some s' → ¬ s'.Tells) ∧
    ((readiness cfg).Reach Lts.always s →
      (s.lastCause = [] ↔ lastDecision s.trace = none ∨ lastDecision s.trace = some .ready)) := by
  refine ⟨fun h => ⟨?_, (Readiness.reports_reach hctl h).cause⟩, fun h a s' hu hst => ?_,
    fun h => (Readiness.reports_reach hctl h).cause⟩
  · exact (Readiness.inv_reach h).lastKnown_eq_ready.trans (Readiness.stands_reach hctl h)
  · exact (Readiness.inv_reach h).stale_report hctl hu (Readiness.step_inv hst)

namespace Sample

/-- A call that finds the engine serving. -/
def servingCall : List ReadyAction :=
  [.call 0 0, .acquire 0 0, .probeReturns 0 .modelsAvailable]

/-- Later the engine is gone, and so is the controller. -/
def unavailableCall : List ReadyAction :=
  [.tick 10, .call 1 10, .acquire 1 10, .probeReturns 1 .unreachable, .statusReturns 1 (.error [])]

theorem serving_run : ((readiness lifecycle).run cold servingCall).map Readiness.lastKnown =
    some .ready := rfl

theorem unavailable_run :
    (((readiness lifecycle).run cold (servingCall ++ unavailableCall)).map fun s =>
      (s.lastKnown, lastDecision s.trace)) = some (.ready, some .unavailable) := by decide +kernel

end Sample

theorem health_tells_serving : ∃ s : Readiness, s.lastKnown = .ready ∧ s.Tells := by
  obtain ⟨s, hrun, hs⟩ := Option.map_eq_some_iff.mp Sample.serving_run
  refine ⟨s, hs, (health_tells Sample.lifecycle rfl s).1 ?_⟩
  refine (Lts.Reach.init Sample.cold_init).path (Lts.path_of_run_forall (fun a ha s he => ?_) hrun)
  simp only [Sample.servingCall, List.mem_cons, List.not_mem_nil, or_false] at ha
  rcases ha with rfl | rfl | rfl
  · cases he
  · cases he
  · exact absurd rfl he.1

/-- `READY`, and ten seconds later `UNAVAILABLE`: health still tells `READY`. -/
theorem ready_survives : ∃ s, (readiness Sample.lifecycle).Reach Lts.always s ∧ ¬ s.Tells := by
  obtain ⟨s, hrun, hs⟩ := Option.map_eq_some_iff.mp Sample.unavailable_run
  obtain ⟨hk, hd⟩ := Prod.ext_iff.mp hs
  refine ⟨s, (Lts.Reach.init Sample.cold_init).path (Lts.path_of_run hrun), fun ht => ?_⟩
  cases hd.symm.trans (ht.known.mp hk).lastDecision

end Music3
