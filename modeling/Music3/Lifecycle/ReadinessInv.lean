import Music3.Lifecycle.Readiness

/-!
# What the readiness lock protects

`Lawful cfg before e`: what holds of the history `before` when `e` happens. A start comes from a
call that has seen its probe fail and then the container stopped (`ColdStart`); a stop from the
idle loop, after an idle interval (`IdleDown`); `READY` is returned on a probe (`Backed`).

`Readiness.Inv` is the invariant: the lock is held by who is at work under it, the cache stands on
a probe with no stop since, each holder's own history is at the point where its await is, and every
event so far has been lawful. Each of the small operations that the code is made of keeps it, then
each function, then each action (`Inv.step`, `inv_reach`).
-/

namespace Music3

open Py History

/-! ## Histories of events -/

/-- Neither an event of the lock nor a start or a stop: what may happen in one hold of it. -/
def ReadyObs.quiet : ReadyObs → Bool
  | called _ | probed _ _ _ | statusRead _ _ | returned _ _ _ | aborted _ => true
  | acquired _ | released _ | startIssued _ | startEnded _ _ | stopIssued _ | stopEnded _ => false

/-- `controller.stop()` has been issued. -/
def ReadyObs.isStop : ReadyObs → Bool
  | stopIssued _ => true
  | _ => false

/-- `h` has taken the lock, and it has not changed hands since. -/
def Taken (h : Holder) : List ReadyObs → Prop :=
  Since (fun _ e => e = .acquired h) fun e => e.quiet = true

/-- Then the first probe of the call has not been answered with models. -/
def NotServing (c : Nat) : List ReadyObs → Prop :=
  Since (fun before e => (∃ outcome t, e = .probed c outcome t ∧ outcome ≠ .modelsAvailable) ∧
    Taken (.caller c) before) fun e => e.quiet = true

/-- Then the container has been read as stopped. -/
def ColdStart (c : Nat) : List ReadyObs → Prop :=
  Since (fun before e => e = .statusRead (.caller c) (.ok .stopped) ∧ NotServing c before)
    fun e => e.quiet = true

/-- In one hold of the lock the idle loop has read the container as running. -/
def SeenRunning : List ReadyObs → Prop :=
  Since (fun before e => e = .statusRead .idle (.ok .running) ∧ Taken .idle before)
    fun e => e.quiet = true

/-- The engine has been idle for the interval. -/
def IdleDown (cfg : Lifecycle) (idleFor : ℚ) (before : List ReadyObs) : Prop :=
  0 < cfg.idleInterval ∧ cfg.idleInterval ≤ idleFor ∧ SeenRunning before

/-- A probe has been answered with models, at `t`, and nothing stopped since. -/
def Answered (t : ℚ) : List ReadyObs → Prop :=
  Since (fun _ e => ∃ c, e = .probed c .modelsAvailable t) fun e => e.isStop = false

/-- `READY` at `t` stands on a probe: one of the call `c` itself, or one recorded less than
`cache_seconds` earlier. -/
def Backed (cfg : Lifecycle) (c : Nat) (t : ℚ) (before : List ReadyObs) : Prop :=
  Since (fun _ e => ∃ t₀, e = .probed c .modelsAvailable t₀)
    (fun e => e.isStop = false ∧ e ≠ .called c) before ∨
  ∃ t₀, t₀ ≤ t ∧ t - t₀ < cfg.cacheSeconds ∧ Answered t₀ before

/-- What holds when an event happens (module doc). -/
def Lawful (cfg : Lifecycle) (before : List ReadyObs) : ReadyObs → Prop
  | .startIssued c => ColdStart c before
  | .stopIssued idleFor => IdleDown cfg idleFor before
  | .returned c .ready t => Backed cfg c t before
  | _ => True

/-! ## The invariant -/

namespace Readiness

/-- A drive, or the body of `_maybe_idle_down`, is in progress. -/
def InProgress (s : Readiness) : Holder → Prop
  | .caller c => ∃ call, s.calls c = some call ∧ call.driving = true
  | .idle => s.idleTask.holding = true

/-- What a call at an await has seen, as far as a start depends on it. -/
def Seen (c : Nat) (before : List ReadyObs) : EnsureReady → Prop
  | .probing _ => Taken (.caller c) before
  | .status _ => NotServing c before
  | _ => True

/-- The invariant (module doc). -/
structure Inv (cfg : Lifecycle) (s : Readiness) : Prop where
  lock : ∀ h, s.lock = some h ↔ s.InProgress h
  cached : ∀ state t, s.cached = some (state, t) → state = .ready ∧ t ≤ s.clock ∧ Answered t s.trace
  seen : ∀ c call, s.calls c = some call → Seen c s.trace call
  armed : s.idleTask ≠ .unarmed → 0 < cfg.idleInterval
  idle : s.idleTask = .status → Taken .idle s.trace
  lawful : Each (Lawful cfg) s.trace

variable {cfg : Lifecycle} {s s' : Readiness} {c : Nat} {call call' : EnsureReady} {o : ReadyObs}

/-- At most one drive or idle-down is in progress. -/
theorem Inv.exclusive (hi : Inv cfg s) (h h' : Holder) (hh : s.InProgress h)
    (hh' : s.InProgress h') : h = h' :=
  Option.some.inj (((hi.lock h).mpr hh).symm.trans ((hi.lock h').mpr hh'))

/-- While `c` drives, every other call waits for the lock and the idle loop is out of it. -/
theorem Inv.alone (hi : Inv cfg s) (hc : s.calls c = some call) (hd : call.driving = true) :
    (∀ c' call', s.calls c' = some call' → call'.driving = true → c' = c) ∧
      s.idleTask.holding = false := by
  have hp : s.InProgress (.caller c) := ⟨call, hc, hd⟩
  constructor
  · intro c' call' hc' hd'
    exact Holder.caller.inj (hi.exclusive _ _ ⟨call', hc', hd'⟩ hp)
  · refine Bool.eq_false_iff.mpr fun hidle => ?_
    cases hi.exclusive .idle _ hidle hp

/-- Nobody is at a point that its own history matters to. -/
def Unwatched (s : Readiness) : Prop :=
  (∀ c call before, s.calls c = some call → Seen c before call) ∧ s.idleTask ≠ .status

/-- A free lock. -/
theorem Inv.free (hi : Inv cfg s) (hl : s.lock = none) :
    (∀ h, ¬ s.InProgress h) ∧ s.Unwatched := by
  have hn : ∀ h, ¬ s.InProgress h := by
    intro h hp
    rw [(hi.lock h).mpr hp] at hl
    cases hl
  refine ⟨hn, fun c call before hc => ?_, fun hidle => hn .idle (by rw [InProgress, hidle]; rfl)⟩
  cases call with
  | waiting | returned _ => trivial
  | _ => exact absurd ⟨_, hc, rfl⟩ (hn (.caller c))

/-- What the calls have seen, after one of them has gone on. -/
theorem Inv.seen_update (hi : Inv cfg s) {call : Option EnsureReady}
    (h : ∀ call', call = some call' → Seen c s.trace call') (c' : Nat) (call' : EnsureReady)
    (hc : Function.update s.calls c call c' = some call') : Seen c' s.trace call' := by
  by_cases hcc : c' = c
  · subst hcc
    exact h call' (by rwa [Function.update_self] at hc)
  · rw [Function.update_of_ne hcc] at hc
    exact hi.seen c' call' hc

/-! ## The small operations -/

/-- An event that is quiet, or that nobody's history is broken by. -/
theorem Inv.note (hi : Inv cfg s) (hq : o.quiet = true ∨ s.Unwatched)
    (hs : o.isStop = true → s.cached = none) (hl : Lawful cfg s.trace o) : Inv cfg (s.note o) where
  lock := hi.lock
  cached state t hc := by
    obtain ⟨hr, ht, hb⟩ := hi.cached state t hc
    refine ⟨hr, ht, since_concat.mpr (.inr ⟨hb, Bool.eq_false_iff.mpr fun h => ?_⟩)⟩
    cases (hs h).symm.trans hc
  seen c call hc := by
    rcases hq with hq | hq
    · have := hi.seen c call hc
      cases call with
      | probing _ | status _ => exact since_concat.mpr (.inr ⟨this, hq⟩)
      | _ => trivial
    · exact hq.1 c call _ hc
  armed := hi.armed
  idle hidle := by
    rcases hq with hq | hq
    · exact since_concat.mpr (.inr ⟨hi.idle hidle, hq⟩)
    · exact absurd hidle hq.2
  lawful := each_concat.mpr ⟨hi.lawful, hl⟩

/-- A call goes from one await under the lock to the next, or waits as before. -/
theorem Inv.await (hi : Inv cfg s) (call' : EnsureReady) (hc : s.calls c = some call)
    (hd : call.driving = true) (hd' : call'.driving = true) (hs : Seen c s.trace call') :
    Inv cfg (s.await c call') where
  lock h := by
    rw [show (s.await c call').lock = s.lock from rfl, hi.lock]
    cases h with
    | idle => rfl
    | caller c' =>
      by_cases h : c' = c
      · subst h
        simp [InProgress, Readiness.await, hc, hd, hd']
      · simp [InProgress, Readiness.await, h]
  cached := hi.cached
  seen := hi.seen_update fun call h => by cases h; exact hs
  armed := hi.armed
  idle := hi.idle
  lawful := hi.lawful

/-- A call takes the free lock. -/
theorem Inv.take (hi : Inv cfg s) (hl : s.lock = none) (hd : call.driving = true)
    (hs : Seen c s.trace call) :
    Inv cfg ({ s with lock := some (.caller c) }.await c call) where
  lock h := by
    have hn := (hi.free hl).1
    cases h with
    | idle => exact iff_of_false (fun h => by cases h) (hn .idle)
    | caller c' =>
      by_cases h : c' = c
      · subst h
        simp [InProgress, Readiness.await, hd]
      · refine iff_of_false (fun he => h (Holder.caller.inj (Option.some.inj he)).symm) ?_
        rintro ⟨call', hc', hd'⟩
        exact hn (.caller c') ⟨call', by simpa [Readiness.await, h] using hc', hd'⟩
  cached := hi.cached
  seen := hi.seen_update fun call h => by cases h; exact hs
  armed := hi.armed
  idle := hi.idle
  lawful := hi.lawful

/-- A call ends, or begins to wait, that is not under the lock. -/
theorem Inv.outside (hi : Inv cfg s) (hc : ∀ call, s.calls c = some call → call.driving = false)
    (call : Option EnsureReady) (hw : ∀ call', call = some call' → call'.driving = false) :
    Inv cfg { s with calls := Function.update s.calls c call } where
  lock h := by
    rw [show Readiness.lock { s with calls := Function.update s.calls c call } = s.lock from rfl,
      hi.lock]
    cases h with
    | idle => rfl
    | caller c' =>
      by_cases h : c' = c
      · subst h
        refine iff_of_false ?_ ?_
        · rintro ⟨call', hc', hd⟩
          cases (hc call' hc').symm.trans hd
        · rintro ⟨call', hc', hd⟩
          cases (hw call' (by simpa using hc')).symm.trans hd
      · simp [InProgress, h]
  cached := hi.cached
  seen := hi.seen_update fun call' h => by
    have := hw call' h
    cases call' with
    | waiting | returned _ => trivial
    | _ => cases this
  armed := hi.armed
  idle := hi.idle
  lawful := hi.lawful

/-- The lock is given back by who is at work under it no more. -/
theorem Inv.release (hn : ∀ h, ¬ s.InProgress h)
    (cached : ∀ state t, s.cached = some (state, t) →
      state = .ready ∧ t ≤ s.clock ∧ Answered t s.trace)
    (armed : s.idleTask ≠ .unarmed → 0 < cfg.idleInterval)
    (lawful : Each (Lawful cfg) s.trace) (h : Holder) : Inv cfg (s.release h) where
  lock h := by
    cases h with
    | idle => exact iff_of_false (fun h => by cases h) (hn .idle)
    | caller c => exact iff_of_false (fun h => by cases h) (hn (.caller c))
  cached state t hc := by
    obtain ⟨hr, ht, hb⟩ := cached state t hc
    exact ⟨hr, ht, since_concat.mpr (.inr ⟨hb, rfl⟩)⟩
  seen c call hc := by
    cases call with
    | waiting | returned _ => trivial
    | _ => exact absurd ⟨_, hc, rfl⟩ (hn (.caller c))
  armed := armed
  idle h := absurd (show s.idleTask.holding = true by rw [show s.idleTask = .status from h]; rfl)
    (hn .idle)
  lawful := each_concat.mpr ⟨lawful, trivial⟩

/-- A call ends that drives. -/
theorem Inv.drop (hi : Inv cfg s) (hc : s.calls c = some call) (hd : call.driving = true)
    (call' : Option EnsureReady) (hw : ∀ call, call' = some call → call.driving = false) :
    Inv cfg (Readiness.release { s with calls := Function.update s.calls c call' } (.caller c)) := by
  obtain ⟨hcalls, hidle⟩ := hi.alone hc hd
  refine Inv.release (s := { s with calls := Function.update s.calls c call' }) (fun h => ?_)
    hi.cached hi.armed hi.lawful _
  cases h with
  | idle => exact Bool.eq_false_iff.mp hidle
  | caller c' =>
    rintro ⟨call₁, hc', hd'⟩
    by_cases h : c' = c
    · subst h
      cases (hw call₁ (by simpa using hc')).symm.trans hd'
    · exact h (hcalls c' call₁ (by simpa [h] using hc') hd')

/-- The idle loop goes on, in the lock or out of it as before. -/
theorem Inv.idleTo (hi : Inv cfg s) (task : IdleTask) (hh : task.holding = s.idleTask.holding)
    (ha : task ≠ .unarmed → 0 < cfg.idleInterval) (ht : task ≠ .status) :
    Inv cfg { s with idleTask := task } where
  lock h := by
    cases h with
    | idle => exact (hi.lock .idle).trans (by simp only [InProgress, hh])
    | caller c => exact hi.lock (.caller c)
  cached := hi.cached
  seen := hi.seen
  armed := ha
  idle h := absurd h ht
  lawful := hi.lawful

/-- The idle loop leaves the lock. -/
theorem Inv.idleDrop (hi : Inv cfg s) {task : IdleTask} (hh : s.idleTask.holding = true)
    (ht : task.holding = false) (ha : task ≠ .unarmed → 0 < cfg.idleInterval) :
    Inv cfg ({ s with idleTask := task }.release .idle) := by
  refine Inv.release (s := { s with idleTask := task }) (fun h => ?_) hi.cached ha hi.lawful _
  cases h with
  | idle => exact Bool.eq_false_iff.mp ht
  | caller c => intro hc; cases hi.exclusive (.caller c) .idle hc hh

/-- What is neither the lock nor the idle task may change, with a cache that stands on a probe. -/
theorem Inv.recache (hi : Inv cfg s) (clock lastActivity : ℚ) (leases : Int) (lastCause : Str)
    {cached : Option (ReadinessState × ℚ)}
    (hc : ∀ state t, cached = some (state, t) → state = .ready ∧ t ≤ clock ∧ Answered t s.trace) :
    Inv cfg { s with clock, lastActivity, leases, lastCause, cached } where
  lock h := by
    cases h with
    | idle => exact hi.lock .idle
    | caller c => exact hi.lock (.caller c)
  cached := hc
  seen := hi.seen
  armed := hi.armed
  idle := hi.idle
  lawful := hi.lawful

/-- Leases, the time of the last activity and the cause are not part of it, and the clock goes
on. -/
theorem Inv.frame (hi : Inv cfg s) (clock lastActivity : ℚ) (leases : Int) (lastCause : Str)
    (hc : s.clock ≤ clock) : Inv cfg { s with clock, lastActivity, leases, lastCause } := by
  refine hi.recache clock lastActivity leases lastCause fun state t h => ?_
  obtain ⟨hr, ht, hb⟩ := hi.cached state t h
  exact ⟨hr, ht.trans hc, hb⟩

/-- `READY` is cached on a probe that has just been answered. -/
theorem Inv.cache (hi : Inv cfg s) (hb : Answered s.clock s.trace) (lastActivity : ℚ)
    (lastCause : Str) :
    Inv cfg { s with cached := some (.ready, s.clock), lastActivity, lastCause } := by
  refine hi.recache s.clock lastActivity s.leases lastCause fun state t h => ?_
  cases h
  exact ⟨rfl, le_refl _, hb⟩

/-- The cache is cleared. -/
theorem Inv.uncache (hi : Inv cfg s) : Inv cfg { s with cached := none } :=
  hi.recache s.clock s.lastActivity s.leases s.lastCause fun _ _ h => by cases h

/-! ## The functions -/

theorem freshReady_eq_some {now : ℚ} {state : ReadinessState} :
    s.freshReady cfg now = some state ↔
      ∃ t, s.cached = some (state, t) ∧ state = .ready ∧ now - t < cfg.cacheSeconds := by
  unfold freshReady
  cases hc : s.cached with
  | none => simp
  | some entry =>
    obtain ⟨cached, t⟩ := entry
    simp only [Option.ite_none_right_eq_some, Option.some.injEq, Prod.mk.injEq]
    constructor
    · rintro ⟨⟨hr, ht⟩, rfl⟩
      exact ⟨t, ⟨rfl, rfl⟩, hr, ht⟩
    · rintro ⟨_, ⟨rfl, rfl⟩, hr, ht⟩
      exact ⟨⟨hr, ht⟩, rfl⟩

/-- A fresh cache stands on a probe. -/
theorem Inv.fresh (hi : Inv cfg s) {now : ℚ} {state : ReadinessState} (hn : s.clock ≤ now)
    (h : s.freshReady cfg now = some state) :
    ∃ t, t ≤ now ∧ now - t < cfg.cacheSeconds ∧ Answered t s.trace := by
  obtain ⟨t, hc, -, ht⟩ := freshReady_eq_some.mp h
  obtain ⟨-, hle, hb⟩ := hi.cached _ _ hc
  exact ⟨t, hle.trans hn, ht, hb⟩

theorem lawful_returned {before : List ReadyObs} {state : ReadinessState} {t : ℚ}
    (h : state = .ready → Backed cfg c t before) : Lawful cfg before (.returned c state t) := by
  cases state with
  | ready => exact h rfl
  | _ => trivial

/-- A call returns that is not under the lock. -/
theorem Inv.returns (hi : Inv cfg s) (hc : ∀ call, s.calls c = some call → call.driving = false)
    {state : ReadinessState} (hb : state = .ready → Backed cfg c s.clock s.trace) :
    Inv cfg (s.returns c state) :=
  Inv.note (hi.outside hc (some (.returned state)) fun _ h => by cases h; rfl) (.inl rfl)
    (fun h => by cases h) (lawful_returned hb)

theorem Inv.armIdle (hi : Inv cfg s) : Inv cfg (s.armIdle cfg) := by
  unfold Readiness.armIdle
  split
  · rename_i h
    exact hi.idleTo _ (by rw [h.2.1]; rfl) (fun _ => h.2.2) (by decide)
  · exact hi

theorem Inv.ensureReady (hi : Inv cfg s)
    (hc : ∀ call, s.calls c = some call → call.over = true) {later : ℚ}
    (hl : s.clock ≤ later) : Inv cfg (s.ensureReady cfg c later) := by
  have ha : Inv cfg (Readiness.armIdle cfg { s with lastActivity := s.clock, clock := later }) :=
    (hi.frame later s.clock s.leases s.lastCause hl).armIdle
  have hn := ha.note (o := .called c) (.inl rfl) (fun h => by cases h) trivial
  have hclock : Readiness.clock (Readiness.armIdle cfg
      { s with lastActivity := s.clock, clock := later }) = later := armIdle_clock
  have hcall : ∀ call, Readiness.calls (Readiness.armIdle cfg
      { s with lastActivity := s.clock, clock := later }) c = some call →
      call.driving = false := by
    intro call h
    rw [armIdle_calls] at h
    have := hc call h
    cases call with
    | returned _ => rfl
    | _ => cases this
  simp only [Readiness.ensureReady]
  split
  · rename_i state h
    refine hn.returns hcall fun _ => .inr ?_
    have := hn.fresh (le_of_eq hclock) h
    rwa [show Readiness.clock (Readiness.note _ _) = later from hclock]
  · exact hn.outside hcall (some .waiting) fun _ h => by cases h; rfl

theorem Inv.driveReadiness (hi : Inv cfg s) (hc : s.calls c = some .waiting) (hl : s.lock = none)
    {later : ℚ} (hn : s.clock ≤ later) : Inv cfg (s.driveReadiness cfg c later) := by
  obtain ⟨hn', hu⟩ := hi.free hl
  have ha := hi.note (o := .acquired (.caller c)) (.inr hu) (fun h => by cases h) trivial
  simp only [Readiness.driveReadiness]
  split
  · rename_i state h
    have hr : Inv cfg ((s.note (.acquired (.caller c))).release (.caller c)) :=
      Inv.release (s := s.note (.acquired (.caller c)))
        (fun h => by cases h with | idle => exact hn' .idle | caller c => exact hn' (.caller c))
        ha.cached ha.armed ha.lawful _
    exact hr.returns (fun call h => by cases hc.symm.trans h; rfl) fun _ =>
      .inr (hr.fresh (le_refl _) h)
  · have hf := ha.frame later s.lastActivity s.leases s.lastCause hn
    exact hf.take hl rfl (since_concat.mpr (.inl rfl))

/-- A drive ends. -/
theorem Inv.decide (hi : Inv cfg s) (hc : s.calls c = some call) (hd : call.driving = true)
    {state : ReadinessState}
    (hp : state = .ready → ∃ past, s.trace = past ++ [.probed c .modelsAvailable s.clock]) :
    Inv cfg (s.decide c state) := by
  simp only [Readiness.decide]
  split
  · rename_i h
    subst h
    obtain ⟨past, hp⟩ := hp rfl
    have hs : Answered s.clock s.trace := by
      rw [hp]
      exact since_concat.mpr (.inl ⟨c, rfl⟩)
    have hcache := hi.cache hs s.clock []
    refine (hcache.drop hc hd (some (.returned .ready)) fun _ h => by cases h; rfl).note (.inl rfl)
      (fun h => by cases h) (.inl ?_)
    show Since _ _ (s.trace ++ [.released (.caller c)])
    rw [hp]
    refine since_concat.mpr (.inr ⟨since_concat.mpr (.inl ⟨s.clock, rfl⟩), rfl, ?_⟩)
    intro h
    cases h
  · rename_i h
    exact (hi.drop hc hd (some (.returned state)) fun _ h => by cases h; rfl).note (.inl rfl)
      (fun h => by cases h) (lawful_returned fun hr => absurd hr h)

/-- A drive ends with a cause. -/
theorem Inv.decideCause (hi : Inv cfg s) (hc : s.calls c = some call) (hd : call.driving = true)
    {state : ReadinessState} (hs : state ≠ .ready) (lastCause : Str) :
    Inv cfg ({ s with lastCause }.decide c state) :=
  (hi.frame s.clock s.lastActivity s.leases lastCause (le_refl _)).decide hc hd fun h => absurd h hs

theorem classifyReadiness_eq_ready {outcome : ProbeOutcome} :
    classifyReadiness outcome = .ready ↔ outcome = .modelsAvailable := by
  cases outcome <;> simp [classifyReadiness]

/-- A probe answers. -/
theorem Inv.probed (hi : Inv cfg s) (c : Nat) (outcome : ProbeOutcome) :
    Inv cfg (s.note (.probed c outcome s.clock)) :=
  hi.note (.inl rfl) (fun h => by cases h) trivial

/-- A drive ends with what its probe has answered. -/
theorem Inv.decideProbe (hi : Inv cfg s) (hc : s.calls c = some call) (hd : call.driving = true)
    (outcome : ProbeOutcome) :
    Inv cfg ((s.note (.probed c outcome s.clock)).decide c (classifyReadiness outcome)) :=
  (hi.probed c outcome).decide hc hd fun h =>
    ⟨s.trace, by rw [classifyReadiness_eq_ready.mp h]; rfl⟩

theorem Inv.afterProbe (hi : Inv cfg s) {deadline : ℚ}
    (hc : s.calls c = some (.probing deadline)) (outcome : ProbeOutcome) :
    Inv cfg (s.afterProbe cfg c deadline outcome) := by
  simp only [Readiness.afterProbe]
  split
  · exact hi.decideProbe hc rfl outcome
  · rename_i h
    refine (hi.probed c outcome).await _ hc rfl rfl (since_concat.mpr (.inl ⟨?_, hi.seen c _ hc⟩))
    exact ⟨outcome, s.clock, rfl, fun ho => h (.inl (classifyReadiness_eq_ready.mpr ho))⟩

theorem Inv.afterPoll (hi : Inv cfg s) {deadline : ℚ}
    (hc : s.calls c = some (.polling deadline)) (outcome : ProbeOutcome) :
    Inv cfg (s.afterPoll cfg c deadline outcome) := by
  simp only [Readiness.afterPoll]
  split
  · exact hi.decideProbe hc rfl outcome
  rename_i h
  split
  · exact (hi.probed c outcome).decideCause hc rfl h _
  · exact (hi.probed c outcome).await _ hc rfl rfl trivial

/-- Nobody is watched while a call drives that is not. -/
theorem Inv.unwatched (hi : Inv cfg s) (hc : s.calls c = some call) (hd : call.driving = true)
    (hs : ∀ before, Seen c before call) : s.Unwatched := by
  obtain ⟨hcalls, hidle⟩ := hi.alone hc hd
  refine ⟨fun c' call' before hc' => ?_, fun h => by rw [h] at hidle; cases hidle⟩
  by_cases hd' : call'.driving = true
  · obtain rfl := hcalls c' call' hc' hd'
    cases hc.symm.trans hc'
    exact hs before
  · cases call' with
    | waiting | returned _ => trivial
    | _ => exact absurd rfl hd'

theorem Inv.afterStatus (hi : Inv cfg s) {deadline : ℚ}
    (hc : s.calls c = some (.status deadline)) (result : Except Str ContainerState) :
    Inv cfg (s.afterStatus c deadline result) := by
  have hn := hi.note (o := .statusRead (.caller c) result) (.inl rfl) (fun h => by cases h) trivial
  simp only [Readiness.afterStatus]
  split
  · exact hn.decideCause hc rfl (by decide) _
  · exact hn.decideCause hc rfl (by decide) _
  · -- the call is past `status()` when its start is issued
    have ha := hn.await (.starting deadline) hc rfl rfl trivial
    have hcall : Readiness.calls (Readiness.await (s.note (.statusRead (.caller c) (.ok .stopped)))
        c (.starting deadline)) c = some (.starting deadline) := Function.update_self ..
    exact ha.note (.inr (ha.unwatched hcall rfl fun _ => trivial)) (fun h => by cases h)
      (since_concat.mpr (.inl ⟨rfl, hi.seen c _ hc⟩))
  · exact hn.await _ hc rfl rfl trivial

theorem Inv.afterStart (hi : Inv cfg s) {deadline : ℚ}
    (hc : s.calls c = some (.starting deadline)) (result : Except Str Unit) :
    Inv cfg (s.afterStart c deadline result) := by
  have hn := hi.note (o := .startEnded c result) (.inr (hi.unwatched hc rfl fun _ => trivial))
    (fun h => by cases h) trivial
  simp only [Readiness.afterStart]
  split
  · exact hn.decideCause hc rfl (by decide) _
  · exact hn.await _ hc rfl rfl trivial

theorem Inv.unwatchedIdle (hi : Inv cfg s) (hh : s.idleTask = .stopping) : s.Unwatched := by
  refine ⟨fun c call before hc => ?_, fun h => by rw [hh] at h; cases h⟩
  have hd : call.driving ≠ true := fun hd => by
    cases hi.exclusive (.caller c) .idle ⟨call, hc, hd⟩ (by rw [InProgress, hh]; rfl)
  cases call with
  | waiting | returned _ => trivial
  | _ => exact absurd rfl hd

/-- The idle loop takes the free lock. -/
theorem Inv.idleTake (hi : Inv cfg s) (hw : s.idleTask = .waiting) (hl : s.lock = none) :
    Inv cfg ({ s with lock := some .idle, idleTask := .status }.note (.acquired .idle)) where
  lock h := by
    cases h with
    | idle => exact iff_of_true rfl rfl
    | caller c =>
      exact iff_of_false (fun h => by cases h) fun hp => (hi.free hl).1 (.caller c) hp
  cached state t hc := by
    obtain ⟨hr, ht, hb⟩ := hi.cached state t hc
    exact ⟨hr, ht, since_concat.mpr (.inr ⟨hb, rfl⟩)⟩
  seen c call hc := (hi.free hl).2.1 c call _ hc
  armed _ := hi.armed (by rw [hw]; decide)
  idle _ := since_concat.mpr (.inl rfl)
  lawful := each_concat.mpr ⟨hi.lawful, trivial⟩

theorem Inv.idleLoop (hi : Inv cfg s) (hh : s.idleTask.holding = false)
    (ha : s.idleTask ≠ .unarmed) : Inv cfg (s.idleLoop cfg) := by
  simp only [Readiness.idleLoop]
  split
  · exact hi.idleTo _ hh.symm (fun _ => hi.armed ha) (by decide)
  · exact hi.idleTo _ hh.symm (fun _ => hi.armed ha) (fun h => by cases h)

theorem Inv.idleReturns (hi : Inv cfg s) (hh : s.idleTask.holding = true) :
    Inv cfg (s.idleReturns cfg) :=
  hi.idleDrop hh rfl fun _ => hi.armed fun h => by rw [h] at hh; cases hh

theorem Inv.maybeIdleDown (hi : Inv cfg s) (hs : s.idleTask = .status)
    (result : Except Str ContainerState) : Inv cfg (s.maybeIdleDown cfg result) := by
  have hn := hi.note (o := .statusRead .idle result) (.inl rfl) (fun h => by cases h) trivial
  have hh : s.idleTask.holding = true := by rw [hs]; rfl
  have ha : 0 < cfg.idleInterval := hi.armed (by rw [hs]; exact fun h => by cases h)
  simp only [Readiness.maybeIdleDown]
  split
  · exact hn.idleReturns hh
  rename_i container
  split
  · rename_i hdown
    simp only [shouldIdleDown, decide_eq_true_eq] at hdown
    obtain ⟨-, hidle, hrun⟩ := hdown
    -- the loop is past `status()`, and the cache cleared, when the stop is issued
    have hu := hn.uncache.idleTo .stopping hh.symm (fun _ => ha) (by decide)
    refine hu.note (.inr (hu.unwatchedIdle rfl)) (fun _ => rfl) ⟨ha, hidle, ?_⟩
    exact since_concat.mpr (.inl ⟨by rw [hrun], hi.idle hs⟩)
  · exact hn.idleReturns hh

/-! ## The actions -/

/-- Every action keeps the invariant. -/
theorem Inv.step {a : ReadyAction} (hi : Inv cfg s) (h : Step cfg s a s') : Inv cfg s' := by
  have frame : ∀ {clock lastActivity : ℚ} {leases : Int}, s.clock ≤ clock →
      Inv cfg { s with clock, lastActivity, leases } := fun hc => hi.frame _ _ _ _ hc
  have armed : s.idleTask ≠ .unarmed → 0 < cfg.idleInterval := hi.armed
  cases h with
  | tick hc => exact frame hc
  | call hc hl => exact hi.ensureReady hc hl
  | acquire hc hlock hl => exact hi.driveReadiness hc hlock hl
  | firstProbe hc => exact hi.afterProbe hc _
  | poll hc => exact hi.afterPoll hc _
  | statusReturns hc => exact hi.afterStatus hc _
  | startReturns hc => exact hi.afterStart hc _
  | wake hc => exact hi.await _ hc rfl rfl trivial
  | abortWaiting hc =>
    refine (hi.outside (fun call h => ?_) none fun _ h => by cases h).note (.inl rfl)
      (fun h => by cases h) trivial
    cases hc.symm.trans h
    rfl
  | abortDrive hc hd =>
    exact (hi.drop hc hd none fun _ h => by cases h).note (.inl rfl) (fun h => by cases h) trivial
  | leaseEnter => exact frame (le_refl _)
  | leaseExit _ => exact frame (le_refl _)
  | startIdleMonitor => exact hi.armIdle
  | idleWake hh ha => exact hi.idleLoop hh ha
  | idleAcquire hw hl => exact hi.idleTake hw hl
  | idleStatus hs => exact hi.maybeIdleDown hs _
  | idleStop hs =>
    refine Inv.idleReturns (hi.note (.inr (hi.unwatchedIdle hs)) (fun h => by cases h) trivial) ?_
    show s.idleTask.holding = true
    rw [hs]
    rfl
  | idleCancelledHolding hh =>
    exact hi.idleDrop hh rfl fun _ => armed fun h => by rw [h] at hh; cases hh
  | idleCancelled hh ha => exact hi.idleTo _ hh.symm (fun _ => armed ha) (by decide)
  | idleClosed he => exact hi.idleTo _ (by rw [he]; rfl) (fun h => absurd rfl h) (by decide)

theorem inv_init (h : (readiness cfg).init s) : Inv cfg s := by
  obtain ⟨t, rfl⟩ := h
  exact
    { lock := fun h => by cases h <;> simp [InProgress, IdleTask.holding]
      cached := fun _ _ h => by cases h
      seen := fun _ _ h => by cases h
      armed := fun h => absurd rfl h
      idle := fun h => by cases h
      lawful := each_nil }

theorem inv_reach {P : Readiness → ReadyAction → Prop} (h : (readiness cfg).Reach P s) :
    Inv cfg s :=
  h.invariant (fun _ => inv_init) fun _ _ _ hi _ hst => hi.step (step_inv hst)

end Readiness

end Music3
