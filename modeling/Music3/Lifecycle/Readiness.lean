import Mathlib.Algebra.Order.Field.Rat
import Mathlib.Logic.Function.Basic
import Music3.Jobs.Runner
import Music3.Lib.History

/-!
# The readiness decision and the lifecycle of the engine

`Readiness` of `lifecycle/readiness.py` as a labelled system: any number of calls of
`ensure_ready()`, the idle loop, leases, and a clock that does not go back. An action is the code
between two awaits; its arguments are the answer that the await ends with and the readings of the
clock. The first reading in an action is `clock`, which `tick` moves at any time; an action that
reads it twice carries the second reading.

* `EnsureReady` is the await that a call is suspended on; `IdleTask` the one of the idle loop.
* `abort` ends a call's await with an exception that no clause of it takes (`CancelledError`);
  `idleCancelled` and `idleClosed` are the two halves of `aclose()`.
* A sleep ends at any time, and the lock is given to any of those that wait for it.

`trace` records what has been done, in order; no code reads it. Times are rational numbers.
-/

namespace Music3

open Py

/-- The result of a single readiness probe. -/
inductive ProbeOutcome where
  | modelsAvailable | loading | unreachable
  deriving DecidableEq

/-- The three container states the controller reports. -/
inductive ContainerState where
  | running | stopped | absent
  deriving DecidableEq

/-- `classify_readiness`. -/
def classifyReadiness : ProbeOutcome → ReadinessState
  | .modelsAvailable => .ready
  | .loading => .warming
  | .unreachable => .unavailable

/-- `should_idle_down`. -/
def shouldIdleDown (leases : Int) (idleFor idleInterval : ℚ) (running : Bool) : Bool :=
  leases = 0 ∧ idleInterval ≤ idleFor ∧ running

/-- `_next_idle_sleep`. -/
def nextIdleSleep (idleFor idleInterval pollSeconds : ℚ) : ℚ :=
  max pollSeconds (idleInterval - idleFor)

/-- The timings that a `Readiness` is made with, and whether it has a controller. -/
structure Lifecycle where
  cacheSeconds : ℚ
  readinessTimeout : ℚ
  idleInterval : ℚ
  pollSeconds : ℚ
  controller : Bool

/-- Who holds the lock: a call of `ensure_ready()`, or the idle loop. -/
inductive Holder where
  | caller (c : Nat)
  | idle
  deriving DecidableEq

/-- The await that a call of `ensure_ready()` is suspended on: the lock, and then, with its
deadline, the first probe, `status()`, `start()`, a probe of `_poll_until_ready` and its sleep. Or
the call is over, with what it has returned. -/
inductive EnsureReady where
  | waiting
  | probing (deadline : ℚ)
  | status (deadline : ℚ)
  | starting (deadline : ℚ)
  | polling (deadline : ℚ)
  | sleeping (deadline : ℚ)
  | returned (state : ReadinessState)

/-- The call is in `_drive_readiness`, which it runs under the lock. -/
def EnsureReady.driving : EnsureReady → Bool
  | waiting | returned _ => false
  | _ => true

/-- The call has returned. -/
def EnsureReady.over : EnsureReady → Bool
  | returned _ => true
  | _ => false

/-- `_idle_task`: `None`, or the await that the idle loop is suspended on. -/
inductive IdleTask where
  | unarmed
  /-- Created; its first turn is the head of the loop. -/
  | created
  | sleeping (seconds : ℚ)
  | waiting
  | status
  | stopping
  /-- Cancelled, and `aclose()` has not cleared it. -/
  | ended
  deriving DecidableEq

/-- The idle loop is in the body of `_maybe_idle_down`, under the lock. -/
def IdleTask.holding : IdleTask → Bool
  | status | stopping => true
  | _ => false

/-- What has been done. -/
inductive ReadyObs where
  | called (c : Nat)
  | acquired (h : Holder)
  | released (h : Holder)
  /-- A probe has answered, at an instant of the clock. -/
  | probed (c : Nat) (outcome : ProbeOutcome) (instant : ℚ)
  | statusRead (h : Holder) (result : Except Str ContainerState)
  | startIssued (c : Nat)
  | startEnded (c : Nat) (result : Except Str Unit)
  /-- `controller.stop()` after an idle time. -/
  | stopIssued (idleFor : ℚ)
  | stopEnded (result : Except Str Unit)
  /-- A call has returned a decision, made at an instant of the clock. -/
  | returned (c : Nat) (state : ReadinessState) (instant : ℚ)
  | aborted (c : Nat)

/-- `Readiness` (module doc). -/
structure Readiness where
  clock : ℚ
  lock : Option Holder := none
  cached : Option (ReadinessState × ℚ) := none
  leases : Int := 0
  lastActivity : ℚ
  idleTask : IdleTask := .unarmed
  lastCause : Str := []
  calls : Nat → Option EnsureReady := fun _ => none
  trace : List ReadyObs := []

/-! ## The causes -/

/-- `f"{x:.0f}"`: rounded to an integer, half to even, with the sign of `x`. -/
def fixed0 (x : ℚ) : Str :=
  let n := x.num.natAbs / x.den
  let r := x.num.natAbs % x.den
  let rounded := if 2 * r < x.den ∨ (2 * r = x.den ∧ n % 2 = 0) then n else n + 1
  if x < 0 then cp '-' :: natText rounded else natText rounded

def absentCause : Str := lit "engine container is absent (not defined by compose); cannot start"

def controllerCause (exc : Str) : Str := lit "lifecycle controller unavailable: " ++ exc

def timeoutCause (readinessTimeout : ℚ) (state : ReadinessState) : Str :=
  lit "engine did not become ready within " ++ fixed0 readinessTimeout ++ lit "s (last state=" ++
    state.value ++ lit ")"

namespace Readiness

/-! ## The code between two awaits -/

/-- What has been done, and one thing more. -/
def note (s : Readiness) (o : ReadyObs) : Readiness := { s with trace := s.trace ++ [o] }

/-- The call `c` goes on to an await. -/
def await (s : Readiness) (c : Nat) (call : EnsureReady) : Readiness :=
  { s with calls := Function.update s.calls c (some call) }

/-- The call `c` ends without returning. -/
def leave (s : Readiness) (c : Nat) : Readiness :=
  { s with calls := Function.update s.calls c none }

/-- The lock is given back. -/
def release (s : Readiness) (h : Holder) : Readiness :=
  { s with lock := none }.note (.released h)

/-- The call `c` returns. -/
def returns (s : Readiness) (c : Nat) (state : ReadinessState) : Readiness :=
  (s.await c (.returned state)).note (.returned c state s.clock)

/-- `last_known`. -/
def lastKnown (s : Readiness) : ReadinessState :=
  match s.cached with
  | some (state, _) => state
  | none => .warming

section
variable (cfg : Lifecycle)

/-- `_fresh_ready`, with the clock that it reads. -/
def freshReady (s : Readiness) (now : ℚ) : Option ReadinessState :=
  match s.cached with
  | some (state, since) =>
    if state = .ready ∧ now - since < cfg.cacheSeconds then some state else none
  | none => none

/-- `_arm_idle`. -/
def armIdle (s : Readiness) : Readiness :=
  if cfg.controller ∧ s.idleTask = .unarmed ∧ 0 < cfg.idleInterval then
    { s with idleTask := .created }
  else s

section
variable {cfg : Lifecycle} {s : Readiness}

@[simp] theorem armIdle_clock : (s.armIdle cfg).clock = s.clock := by unfold armIdle; split <;> rfl
@[simp] theorem armIdle_cached : (s.armIdle cfg).cached = s.cached := by
  unfold armIdle; split <;> rfl
@[simp] theorem armIdle_lastCause : (s.armIdle cfg).lastCause = s.lastCause := by
  unfold armIdle; split <;> rfl
@[simp] theorem armIdle_calls : (s.armIdle cfg).calls = s.calls := by unfold armIdle; split <;> rfl
@[simp] theorem armIdle_trace : (s.armIdle cfg).trace = s.trace := by unfold armIdle; split <;> rfl

end

/-- `ensure_ready` up to the lock. `later` is the clock that `_fresh_ready` reads. -/
def ensureReady (s : Readiness) (c : Nat) (later : ℚ) : Readiness :=
  let s := (armIdle cfg { s with lastActivity := s.clock, clock := later }).note (.called c)
  match s.freshReady cfg later with
  | some state => s.returns c state
  | none => s.await c .waiting

/-- `ensure_ready` from the lock to the first probe. `later` is the clock that the deadline is
computed from. -/
def driveReadiness (s : Readiness) (c : Nat) (later : ℚ) : Readiness :=
  let s := { s with lock := some (.caller c) }.note (.acquired (.caller c))
  match s.freshReady cfg s.clock with
  | some state => (s.release (.caller c)).returns c state
  | none => { s with clock := later }.await c (.probing (later + cfg.readinessTimeout))

/-- `ensure_ready` after `_drive_readiness` has returned. -/
def decide (s : Readiness) (c : Nat) (state : ReadinessState) : Readiness :=
  let s := if state = .ready then
      { s with cached := some (state, s.clock), lastActivity := s.clock, lastCause := [] }
    else s
  (s.release (.caller c)).returns c state

/-- `_drive_readiness` after its probe. -/
def afterProbe (s : Readiness) (c : Nat) (deadline : ℚ) (outcome : ProbeOutcome) : Readiness :=
  let s := s.note (.probed c outcome s.clock)
  let state := classifyReadiness outcome
  if state = .ready ∨ cfg.controller = false then s.decide c state
  else s.await c (.status deadline)

/-- `_drive_readiness` after `status()`. -/
def afterStatus (s : Readiness) (c : Nat) (deadline : ℚ) (result : Except Str ContainerState) :
    Readiness :=
  let s := s.note (.statusRead (.caller c) result)
  match result with
  | .error exc => { s with lastCause := controllerCause exc }.decide c .unavailable
  | .ok .absent => { s with lastCause := absentCause }.decide c .unavailable
  | .ok .stopped => (s.note (.startIssued c)).await c (.starting deadline)
  | .ok .running => s.await c (.polling deadline)

/-- `_drive_readiness` after `start()`. -/
def afterStart (s : Readiness) (c : Nat) (deadline : ℚ) (result : Except Str Unit) : Readiness :=
  let s := s.note (.startEnded c result)
  match result with
  | .error exc => { s with lastCause := controllerCause exc }.decide c .unavailable
  | .ok () => s.await c (.polling deadline)

/-- `_poll_until_ready` after a probe. -/
def afterPoll (s : Readiness) (c : Nat) (deadline : ℚ) (outcome : ProbeOutcome) : Readiness :=
  let s := s.note (.probed c outcome s.clock)
  let state := classifyReadiness outcome
  if state = .ready then s.decide c state
  else if deadline ≤ s.clock then
    { s with lastCause := timeoutCause cfg.readinessTimeout state }.decide c state
  else s.await c (.sleeping deadline)

/-- The head of `_idle_loop`. -/
def idleLoop (s : Readiness) : Readiness :=
  let idleFor := s.clock - s.lastActivity
  if s.leases = 0 ∧ cfg.idleInterval ≤ idleFor then { s with idleTask := .waiting }
  else { s with idleTask := .sleeping (nextIdleSleep idleFor cfg.idleInterval cfg.pollSeconds) }

/-- `_maybe_idle_down` returns to the loop. -/
def idleReturns (s : Readiness) : Readiness :=
  { s with idleTask := .sleeping cfg.idleInterval }.release .idle

/-- `_maybe_idle_down` after `status()`. -/
def maybeIdleDown (s : Readiness) (result : Except Str ContainerState) : Readiness :=
  let s := s.note (.statusRead .idle result)
  match result with
  | .error _ => s.idleReturns cfg
  | .ok container =>
    let idleFor := s.clock - s.lastActivity
    if shouldIdleDown s.leases idleFor cfg.idleInterval (container = .running) then
      { s with cached := none, idleTask := .stopping }.note (.stopIssued idleFor)
    else s.idleReturns cfg

end

end Readiness

/-- The actions of the calls, the idle loop, the leases and the clock. -/
inductive ReadyAction where
  | tick (t : ℚ)
  | call (c : Nat) (later : ℚ)
  | acquire (c : Nat) (later : ℚ)
  | probeReturns (c : Nat) (outcome : ProbeOutcome)
  | statusReturns (c : Nat) (result : Except Str ContainerState)
  | startReturns (c : Nat) (result : Except Str Unit)
  | wake (c : Nat)
  | abort (c : Nat)
  | leaseEnter
  | leaseExit
  | startIdleMonitor
  | idleWake
  | idleAcquire
  | idleStatus (result : Except Str ContainerState)
  | idleStop (result : Except Str Unit)
  | idleCancelled
  | idleClosed

instance : ReadinessGate Readiness where
  leaseEnter s := { s with leases := s.leases + 1 }
  leaseExit s := { s with leases := s.leases - 1, lastActivity := s.clock }
  lastCause s := s.lastCause

namespace Readiness

/-- One action (module doc). -/
def step (cfg : Lifecycle) (s : Readiness) : ReadyAction → Option Readiness
  | .tick t => if s.clock ≤ t then some { s with clock := t } else none
  | .call c later =>
    match s.calls c with
    | none | some (.returned _) =>
      if s.clock ≤ later then some (s.ensureReady cfg c later) else none
    | _ => none
  | .acquire c later =>
    match s.calls c, s.lock with
    | some .waiting, none => if s.clock ≤ later then some (s.driveReadiness cfg c later) else none
    | _, _ => none
  | .probeReturns c outcome =>
    match s.calls c with
    | some (.probing deadline) => some (s.afterProbe cfg c deadline outcome)
    | some (.polling deadline) => some (s.afterPoll cfg c deadline outcome)
    | _ => none
  | .statusReturns c result =>
    match s.calls c with
    | some (.status deadline) => some (s.afterStatus c deadline result)
    | _ => none
  | .startReturns c result =>
    match s.calls c with
    | some (.starting deadline) => some (s.afterStart c deadline result)
    | _ => none
  | .wake c =>
    match s.calls c with
    | some (.sleeping deadline) => some (s.await c (.polling deadline))
    | _ => none
  | .abort c =>
    match s.calls c with
    | none | some (.returned _) => none
    | some .waiting => some ((s.leave c).note (.aborted c))
    | some _ => some (((s.leave c).release (.caller c)).note (.aborted c))
  | .leaseEnter => some (ReadinessGate.leaseEnter s)
  | .leaseExit => if 0 < s.leases then some (ReadinessGate.leaseExit s) else none
  | .startIdleMonitor => some (s.armIdle cfg)
  | .idleWake =>
    match s.idleTask with
    | .created | .sleeping _ => some (s.idleLoop cfg)
    | _ => none
  | .idleAcquire =>
    match s.idleTask, s.lock with
    | .waiting, none => some ({ s with lock := some .idle, idleTask := .status }.note (.acquired .idle))
    | _, _ => none
  | .idleStatus result =>
    match s.idleTask with
    | .status => some (s.maybeIdleDown cfg result)
    | _ => none
  | .idleStop result =>
    match s.idleTask with
    | .stopping => some ((s.note (.stopEnded result)).idleReturns cfg)
    | _ => none
  | .idleCancelled =>
    match s.idleTask with
    | .unarmed | .ended => none
    | .status | .stopping => some ({ s with idleTask := .ended }.release .idle)
    | _ => some { s with idleTask := .ended }
  | .idleClosed =>
    match s.idleTask with
    | .ended => some { s with idleTask := .unarmed }
    | _ => none

/-- What an action does, with the await that it resumes. -/
inductive Step (cfg : Lifecycle) (s : Readiness) : ReadyAction → Readiness → Prop
  | tick {t : ℚ} : s.clock ≤ t → Step cfg s (.tick t) { s with clock := t }
  | call {c : Nat} {later : ℚ} : (∀ call, s.calls c = some call → call.over = true) →
      s.clock ≤ later →
      Step cfg s (.call c later) (s.ensureReady cfg c later)
  | acquire {c : Nat} {later : ℚ} : s.calls c = some .waiting → s.lock = none → s.clock ≤ later →
      Step cfg s (.acquire c later) (s.driveReadiness cfg c later)
  | firstProbe {c : Nat} {deadline : ℚ} {outcome : ProbeOutcome} :
      s.calls c = some (.probing deadline) →
      Step cfg s (.probeReturns c outcome) (s.afterProbe cfg c deadline outcome)
  | poll {c : Nat} {deadline : ℚ} {outcome : ProbeOutcome} :
      s.calls c = some (.polling deadline) →
      Step cfg s (.probeReturns c outcome) (s.afterPoll cfg c deadline outcome)
  | statusReturns {c : Nat} {deadline : ℚ} {result : Except Str ContainerState} :
      s.calls c = some (.status deadline) →
      Step cfg s (.statusReturns c result) (s.afterStatus c deadline result)
  | startReturns {c : Nat} {deadline : ℚ} {result : Except Str Unit} :
      s.calls c = some (.starting deadline) →
      Step cfg s (.startReturns c result) (s.afterStart c deadline result)
  | wake {c : Nat} {deadline : ℚ} : s.calls c = some (.sleeping deadline) →
      Step cfg s (.wake c) (s.await c (.polling deadline))
  | abortWaiting {c : Nat} : s.calls c = some .waiting →
      Step cfg s (.abort c) ((s.leave c).note (.aborted c))
  | abortDrive {c : Nat} {call : EnsureReady} : s.calls c = some call → call.driving = true →
      Step cfg s (.abort c) (((s.leave c).release (.caller c)).note (.aborted c))
  | leaseEnter : Step cfg s .leaseEnter (ReadinessGate.leaseEnter s)
  | leaseExit : 0 < s.leases → Step cfg s .leaseExit (ReadinessGate.leaseExit s)
  | startIdleMonitor : Step cfg s .startIdleMonitor (s.armIdle cfg)
  | idleWake : s.idleTask.holding = false → s.idleTask ≠ .unarmed →
      Step cfg s .idleWake (s.idleLoop cfg)
  | idleAcquire : s.idleTask = .waiting → s.lock = none →
      Step cfg s .idleAcquire
        ({ s with lock := some .idle, idleTask := .status }.note (.acquired .idle))
  | idleStatus {result : Except Str ContainerState} : s.idleTask = .status →
      Step cfg s (.idleStatus result) (s.maybeIdleDown cfg result)
  | idleStop {result : Except Str Unit} : s.idleTask = .stopping →
      Step cfg s (.idleStop result) ((s.note (.stopEnded result)).idleReturns cfg)
  | idleCancelledHolding : s.idleTask.holding = true →
      Step cfg s .idleCancelled ({ s with idleTask := .ended }.release .idle)
  | idleCancelled : s.idleTask.holding = false → s.idleTask ≠ .unarmed →
      Step cfg s .idleCancelled { s with idleTask := .ended }
  | idleClosed : s.idleTask = .ended → Step cfg s .idleClosed { s with idleTask := .unarmed }

theorem step_inv {cfg : Lifecycle} {s s' : Readiness} {a : ReadyAction}
    (h : s.step cfg a = some s') : Step cfg s a s' := by
  cases a with
  | tick t =>
    simp only [step, Option.ite_none_right_eq_some, Option.some.injEq] at h
    obtain ⟨hc, rfl⟩ := h
    exact .tick hc
  | call c later =>
    simp only [step] at h
    split at h
    · rename_i hc
      rw [Option.ite_none_right_eq_some, Option.some.injEq] at h
      obtain ⟨hl, rfl⟩ := h
      exact .call (fun call h => by cases hc.symm.trans h) hl
    · rename_i hc
      rw [Option.ite_none_right_eq_some, Option.some.injEq] at h
      obtain ⟨hl, rfl⟩ := h
      exact .call (fun call h => by cases hc.symm.trans h; rfl) hl
    · cases h
  | acquire c later =>
    simp only [step] at h
    split at h
    · rename_i hc hlock
      rw [Option.ite_none_right_eq_some, Option.some.injEq] at h
      obtain ⟨hl, rfl⟩ := h
      exact .acquire hc hlock hl
    · cases h
  | probeReturns c outcome =>
    simp only [step] at h
    split at h
    · cases h; exact .firstProbe ‹_›
    · cases h; exact .poll ‹_›
    · cases h
  | statusReturns c result =>
    simp only [step] at h
    split at h
    · cases h; exact .statusReturns ‹_›
    · cases h
  | startReturns c result =>
    simp only [step] at h
    split at h
    · cases h; exact .startReturns ‹_›
    · cases h
  | wake c =>
    simp only [step] at h
    split at h
    · cases h; exact .wake ‹_›
    · cases h
  | abort c =>
    simp only [step] at h
    split at h
    · cases h
    · cases h
    · cases h; exact .abortWaiting ‹_›
    · rename_i call hr hw hc
      cases h
      refine .abortDrive hc ?_
      cases call with
      | waiting => exact absurd rfl hw
      | returned state => exact absurd rfl (hr state)
      | _ => rfl
  | leaseEnter => cases h; exact .leaseEnter
  | leaseExit =>
    simp only [step, Option.ite_none_right_eq_some, Option.some.injEq] at h
    obtain ⟨hl, rfl⟩ := h
    exact .leaseExit hl
  | startIdleMonitor => cases h; exact .startIdleMonitor
  | idleWake =>
    simp only [step] at h
    split at h
    · rename_i ht; cases h; exact .idleWake (by rw [ht]; rfl) (by rw [ht]; decide)
    · rename_i ht; cases h; exact .idleWake (by rw [ht]; rfl) (by rw [ht]; intro e; cases e)
    · cases h
  | idleAcquire =>
    simp only [step] at h
    split at h
    · cases h; exact .idleAcquire ‹_› ‹_›
    · cases h
  | idleStatus result =>
    simp only [step] at h
    split at h
    · cases h; exact .idleStatus ‹_›
    · cases h
  | idleStop result =>
    simp only [step] at h
    split at h
    · cases h; exact .idleStop ‹_›
    · cases h
  | idleCancelled =>
    cases ht : s.idleTask with
    | unarmed | ended => simp [step, ht] at h
    | status | stopping =>
      simp only [step, ht, Option.some.injEq] at h
      subst h
      exact .idleCancelledHolding (by rw [ht]; rfl)
    | created | sleeping _ | waiting =>
      simp only [step, ht, Option.some.injEq] at h
      subst h
      exact .idleCancelled (by rw [ht]; rfl) (by rw [ht]; intro e; cases e)
  | idleClosed =>
    simp only [step] at h
    split at h
    · cases h; exact .idleClosed ‹_›
    · cases h

end Readiness

/-- `Readiness` as a labelled system. -/
def readiness (cfg : Lifecycle) : Lts Readiness ReadyAction where
  init s := ∃ t, s = { clock := t, lastActivity := t }
  step := Readiness.step cfg

end Music3
