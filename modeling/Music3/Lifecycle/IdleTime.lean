import Mathlib.Tactic.Linarith
import Music3.Lifecycle.SingleFlight

/-!
# How long an engine runs that nobody uses

A `Vigil` is a stopwatch on the idle loop: when its await began, when it was last hindered (there
was no loop, or a call held the lock), and what `_maybe_idle_down` last found, and when. No code
reads it.

* `Prompt B S`: the clock does not pass the instant at which the loop's await ends at the latest
  (`due`). A sleep takes its seconds and at most `B` more, a free lock is given within `B`, and the
  controller answers within `S`.
* `Turn` is what the loop does at the end of an await, `Lull` what happens elsewhere.
* `Watched` is the invariant of a prompt run: the loop's await began at most `slack` after `mark`,
  which is when the engine could be stopped, or when the loop last looked.
* `idle_engine_seen`: an engine that has been idle for longer has been looked at since, and has not
  been spared: it was not running, could not be read, or `stop()` was called. A `stop()` that raises
  may leave it running, until the loop looks again.
-/

namespace Music3

open Py

/-- What `_maybe_idle_down` has found and done. -/
inductive IdleVerdict where
  | unread (exc : Str)
  | down (container : ContainerState)
  /-- Running, and left so. -/
  | spared
  /-- Running, and `stop()` is awaited. -/
  | stopIssued
  /-- `stop()` has returned, or has raised. -/
  | stopEnded (result : Except Str Unit)

/-- A stopwatch on the idle loop (module doc). -/
structure Vigil where
  since : ℚ
  hindered : ℚ
  looked : ℚ
  verdict : Option IdleVerdict := none

/-- There is an idle loop, and it has not been cancelled. -/
def IdleTask.alive : IdleTask → Bool
  | unarmed | ended => false
  | _ => true

/-- The loop is at its head after the await: its first turn, or a sleep. -/
def IdleTask.rests : IdleTask → Bool
  | created | sleeping _ => true
  | _ => false

/-- The seconds that the loop sleeps: `asyncio.sleep` takes a negative number as none. -/
def IdleTask.seconds : IdleTask → ℚ
  | sleeping seconds => max seconds 0
  | _ => 0

/-- A call of `ensure_ready()` holds the lock. -/
def Holder.isCaller : Holder → Bool
  | caller _ => true
  | idle => false

/-- The end of an await of the idle loop. -/
def ReadyAction.turns : ReadyAction → Bool
  | idleWake | idleAcquire | idleStatus _ | idleStop _ => true
  | _ => false

/-- The later reading of the clock that an action carries. -/
def ReadyAction.reading? : ReadyAction → Option ℚ
  | tick t | call _ t | acquire _ t => some t
  | _ => none

/-- What `_maybe_idle_down` makes of `status()`, with the await that the loop goes on to. -/
def IdleVerdict.of (result : Except Str ContainerState) (task : IdleTask) : IdleVerdict :=
  match result with
  | .error exc => .unread exc
  | .ok .running => if task = .stopping then .stopIssued else .spared
  | .ok container => .down container

/-- The stopwatch after an action. -/
def Vigil.watch (w : Vigil) (s : Readiness) (a : ReadyAction) (s' : Readiness) : Vigil where
  since := if a.turns ∨ s.idleTask = .unarmed then s'.clock else w.since
  hindered :=
    if s.idleTask.alive = false ∨ s'.lock.any Holder.isCaller then s'.clock else w.hindered
  looked := match a with
    | .idleStatus _ => s'.clock
    | _ => w.looked
  verdict := match a with
    | .idleStatus result => some (.of result s'.idleTask)
    | .idleStop result => some (.stopEnded result)
    | _ => w.verdict

/-- When the loop's await ends at the latest. -/
def Vigil.limit (B S : ℚ) (s : Readiness) (w : Vigil) : ℚ :=
  match s.idleTask with
  | .waiting => max w.since w.hindered + B
  | .status | .stopping => w.since + S
  | task => w.since + task.seconds + B

/-- `limit`, where there is an await that ends: a lock that is held may be so for any time. -/
def Vigil.due (B S : ℚ) (s : Readiness) (w : Vigil) : Option ℚ :=
  if s.idleTask.alive ∧ (s.idleTask = .waiting → s.lock = none) then some (w.limit B S s) else none

/-- A `Readiness`, from the start, with a stopwatch on its idle loop. -/
def idleWatch (cfg : Lifecycle) : Lts (Readiness × Vigil) ReadyAction where
  init x := ∃ t, x = ({ clock := t, lastActivity := t }, { since := t, hindered := t, looked := t })
  step x a := (Readiness.step cfg x.1 a).map fun s => (s, x.2.watch x.1 a s)

/-- The clock does not pass the end of the loop's await. -/
def Prompt (B S : ℚ) (x : Readiness × Vigil) (a : ReadyAction) : Prop :=
  ∀ t ∈ a.reading?, ∀ due ∈ x.2.due B S x.1, t ≤ due

/-- Whatever the await of the loop ends with, the loop goes on; with the lock, when it is free. -/
def IdleGoesOn (cfg : Lifecycle) (s : Readiness) : Prop :=
  match s.idleTask with
  | .created | .sleeping _ => ∃ s', Readiness.step cfg s .idleWake = some s'
  | .waiting => s.lock = none → ∃ s', Readiness.step cfg s .idleAcquire = some s'
  | .status => ∀ result, ∃ s', Readiness.step cfg s (.idleStatus result) = some s'
  | .stopping => ∀ result, ∃ s', Readiness.step cfg s (.idleStop result) = some s'
  | .unarmed | .ended => False

/-- The instant from which the loop may stop the engine: it has been idle for the interval, and
the loop is not hindered. -/
def Vigil.ripe (cfg : Lifecycle) (s : Readiness) (w : Vigil) : ℚ :=
  max (s.lastActivity + cfg.idleInterval) w.hindered

/-- The longest sleep of the loop. -/
def longestSleep (cfg : Lifecycle) : ℚ := max cfg.idleInterval cfg.pollSeconds

/-! ## What an action does to the loop -/

namespace Readiness

/-- What happens elsewhere: time passes, and there may be activity. -/
structure Lull (s : Readiness) (a : ReadyAction) (s' : Readiness) : Prop where
  turns : a.turns = false
  clock : s.clock ≤ s'.clock
  reading : s'.clock = s.clock ∨
    (a.reading? = some s'.clock ∧ (s'.lock = s.lock ∨ s'.lock.any Holder.isCaller = true))
  activity : s'.lastActivity = s.lastActivity ∨ s.clock ≤ s'.lastActivity
  recent : s.lastActivity ≤ s.clock → s'.lastActivity ≤ s'.clock
  leases : 0 ≤ s.leases →
    0 ≤ s'.leases ∧ (s'.leases = 0 → s.leases = 0 ∨ s.clock ≤ s'.lastActivity)

/-- What the loop does at the end of an await, and `aclose()`. -/
inductive Turn (cfg : Lifecycle) (s : Readiness) : ReadyAction → IdleTask → Prop
  | ripe : s.idleTask.rests = true → s.leases = 0 →
      cfg.idleInterval ≤ s.clock - s.lastActivity → Turn cfg s .idleWake .waiting
  | early : s.idleTask.rests = true →
      ¬ (s.leases = 0 ∧ cfg.idleInterval ≤ s.clock - s.lastActivity) →
      Turn cfg s .idleWake
        (.sleeping (nextIdleSleep (s.clock - s.lastActivity) cfg.idleInterval cfg.pollSeconds))
  | acquire : s.idleTask = .waiting → Turn cfg s .idleAcquire .status
  | stop {result : Except Str ContainerState} : Turn cfg s (.idleStatus result) .stopping
  | leave {result : Except Str ContainerState} :
      (result = .ok .running → s.leases = 0 → s.clock - s.lastActivity < cfg.idleInterval) →
      Turn cfg s (.idleStatus result) (.sleeping cfg.idleInterval)
  | stopped {result : Except Str Unit} : s.idleTask = .stopping →
      Turn cfg s (.idleStop result) (.sleeping cfg.idleInterval)
  | cancelled : Turn cfg s .idleCancelled .ended
  | closed : Turn cfg s .idleClosed .unarmed

variable {cfg : Lifecycle} {s s₀ s' : Readiness} {a : ReadyAction} {c : Nat}

/-- An instant. -/
theorem Lull.now (ha : a.turns = false) (hc : s'.clock = s.clock)
    (hact : s'.lastActivity = s.lastActivity ∨ s'.lastActivity = s.clock)
    (hl : s'.leases = s.leases) : Lull s a s' where
  turns := ha
  clock := le_of_eq hc.symm
  reading := .inl hc
  activity := hact.imp_right fun h => le_of_eq h.symm
  recent h := by
    rw [hc]
    rcases hact with hact | hact
    · exact hact ▸ h
    · exact le_of_eq hact
  leases h := ⟨hl ▸ h, fun h => .inl (hl ▸ h)⟩

variable (cfg s) in
theorem armIdle_idleTask : (s.armIdle cfg).idleTask = s.idleTask ∨
    (s.idleTask = .unarmed ∧ (s.armIdle cfg).idleTask = .created) := by
  unfold armIdle
  split
  · rename_i h
    exact .inr ⟨h.2.1, rfl⟩
  · exact .inl rfl

variable (cfg s) in
theorem armIdle_rest : (s.armIdle cfg).lastActivity = s.lastActivity ∧
    (s.armIdle cfg).leases = s.leases ∧ (s.armIdle cfg).lock = s.lock := by
  unfold armIdle
  split
  · exact ⟨rfl, rfl, rfl⟩
  · exact ⟨rfl, rfl, rfl⟩

/-- What `_drive_readiness` and its callers leave alone. -/
theorem decide_rest (s : Readiness) (c : Nat) (state : ReadinessState) :
    (s.decide c state).idleTask = s.idleTask ∧ (s.decide c state).clock = s.clock ∧
      ((s.decide c state).lastActivity = s.lastActivity ∨
        (s.decide c state).lastActivity = s.clock) ∧
      (s.decide c state).leases = s.leases := by
  unfold decide
  dsimp only
  split
  · exact ⟨rfl, rfl, .inr rfl, rfl⟩
  · exact ⟨rfl, rfl, .inl rfl, rfl⟩

/-- A call is resumed, and the loop stays where it is. -/
def Resumes (s : Readiness) (a : ReadyAction) (s' : Readiness) : Prop :=
  s'.idleTask = s.idleTask ∧ Lull s a s'

theorem resumes_decide (state : ReadinessState) (ha : a.turns = false)
    (hi : s₀.idleTask = s.idleTask) (hc : s₀.clock = s.clock)
    (hact : s₀.lastActivity = s.lastActivity) (hl : s₀.leases = s.leases) :
    Resumes s a (s₀.decide c state) := by
  obtain ⟨hi', hc', hact', hl'⟩ := decide_rest s₀ c state
  rw [hact, hc] at hact'
  exact ⟨hi'.trans hi, .now ha (hc'.trans hc) hact' (hl'.trans hl)⟩

theorem resumes_await (call : EnsureReady) (ha : a.turns = false)
    (hi : s₀.idleTask = s.idleTask) (hc : s₀.clock = s.clock)
    (hact : s₀.lastActivity = s.lastActivity) (hl : s₀.leases = s.leases) :
    Resumes s a (s₀.await c call) :=
  ⟨hi, .now ha hc (.inl hact) hl⟩

theorem lull_ensureReady {later : ℚ} (hl : s.clock ≤ later) :
    Lull s (.call c later) (s.ensureReady cfg c later) := by
  obtain ⟨hact, hle, hlock⟩ := armIdle_rest cfg { s with lastActivity := s.clock, clock := later }
  have hclock : Readiness.clock (armIdle cfg { s with lastActivity := s.clock, clock := later }) =
      later := armIdle_clock
  have : ∀ s', s'.clock = later → s'.lastActivity = s.clock → s'.leases = s.leases →
      s'.lock = s.lock → Lull s (.call c later) s' := fun s' h₁ h₂ h₃ h₄ => {
    turns := rfl
    clock := h₁ ▸ hl
    reading := .inr ⟨congrArg some h₁.symm, .inl h₄⟩
    activity := .inr (le_of_eq h₂.symm)
    recent := fun _ => by rw [h₁, h₂]; exact hl
    leases := fun h => ⟨h₃ ▸ h, fun h => .inl (h₃ ▸ h)⟩ }
  simp only [ensureReady]
  split
  · exact this _ hclock hact hle hlock
  · exact this _ hclock hact hle hlock

theorem idleTask_ensureReady {later : ℚ} : (s.ensureReady cfg c later).idleTask = s.idleTask ∨
    (s.idleTask = .unarmed ∧ (s.ensureReady cfg c later).idleTask = .created) := by
  simp only [ensureReady]
  split
  · exact armIdle_idleTask cfg { s with lastActivity := s.clock, clock := later }
  · exact armIdle_idleTask cfg { s with lastActivity := s.clock, clock := later }

theorem resumes_driveReadiness {later : ℚ} (hl : s.clock ≤ later) :
    Resumes s (.acquire c later) (s.driveReadiness cfg c later) := by
  simp only [driveReadiness]
  split
  · exact ⟨rfl, .now rfl rfl (.inl rfl) rfl⟩
  · exact ⟨rfl, rfl, hl, .inr ⟨rfl, .inr rfl⟩, .inl rfl, fun h => h.trans hl,
      fun h => ⟨h, .inl⟩⟩

theorem resumes_afterProbe {deadline : ℚ} {outcome : ProbeOutcome} :
    Resumes s (.probeReturns c outcome) (s.afterProbe cfg c deadline outcome) := by
  unfold afterProbe
  dsimp only
  split
  · exact resumes_decide _ rfl rfl rfl rfl rfl
  · exact resumes_await _ rfl rfl rfl rfl rfl

theorem resumes_afterPoll {deadline : ℚ} {outcome : ProbeOutcome} :
    Resumes s (.probeReturns c outcome) (s.afterPoll cfg c deadline outcome) := by
  unfold afterPoll
  dsimp only
  split
  · exact resumes_decide _ rfl rfl rfl rfl rfl
  split
  · exact resumes_decide _ rfl rfl rfl rfl rfl
  · exact resumes_await _ rfl rfl rfl rfl rfl

theorem resumes_afterStatus {deadline : ℚ} {result : Except Str ContainerState} :
    Resumes s (.statusReturns c result) (s.afterStatus c deadline result) := by
  unfold afterStatus
  dsimp only
  split
  · exact resumes_decide _ rfl rfl rfl rfl rfl
  · exact resumes_decide _ rfl rfl rfl rfl rfl
  · exact resumes_await _ rfl rfl rfl rfl rfl
  · exact resumes_await _ rfl rfl rfl rfl rfl

theorem resumes_afterStart {deadline : ℚ} {result : Except Str Unit} :
    Resumes s (.startReturns c result) (s.afterStart c deadline result) := by
  unfold afterStart
  dsimp only
  split
  · exact resumes_decide _ rfl rfl rfl rfl rfl
  · exact resumes_await _ rfl rfl rfl rfl rfl

theorem lull_leaseEnter : Lull s .leaseEnter (ReadinessGate.leaseEnter s) := by
  refine ⟨rfl, le_refl _, .inl rfl, .inl rfl, id, fun h => ⟨?_, fun h' => ?_⟩⟩
  · show 0 ≤ s.leases + 1
    omega
  · have : s.leases + 1 = 0 := h'
    omega

theorem lull_leaseExit (h : 0 < s.leases) : Lull s .leaseExit (ReadinessGate.leaseExit s) := by
  refine ⟨rfl, le_refl _, .inl rfl, .inr (le_refl _), fun _ => le_refl _,
    fun _ => ⟨?_, fun _ => .inr (le_refl _)⟩⟩
  show 0 ≤ s.leases - 1
  omega

/-- The loop goes on to its next await. -/
def TurnsTo (cfg : Lifecycle) (s : Readiness) (a : ReadyAction) (s' : Readiness) : Prop :=
  Turn cfg s a s'.idleTask ∧ s'.clock = s.clock ∧ s'.lastActivity = s.lastActivity ∧
    s'.leases = s.leases

theorem turnsTo_idleLoop (hrests : s.idleTask.rests = true) :
    TurnsTo cfg s .idleWake (s.idleLoop cfg) := by
  unfold idleLoop
  dsimp only
  split
  · exact ⟨.ripe hrests (And.left ‹_›) (And.right ‹_›), rfl, rfl, rfl⟩
  · exact ⟨.early hrests ‹_›, rfl, rfl, rfl⟩

theorem turnsTo_maybeIdleDown {result : Except Str ContainerState} :
    TurnsTo cfg s (.idleStatus result) (s.maybeIdleDown cfg result) := by
  unfold maybeIdleDown
  dsimp only
  split
  · exact ⟨.leave (fun e => by cases e), rfl, rfl, rfl⟩
  split
  · exact ⟨.stop, rfl, rfl, rfl⟩
  · rename_i hspared
    refine ⟨.leave fun e hl => ?_, rfl, rfl, rfl⟩
    cases e
    simpa [shouldIdleDown, note, hl] using hspared

/-- What an action does to the loop. -/
theorem step_idle (h : s.step cfg a = some s') :
    Resumes s a s' ∨
    (s.idleTask = .unarmed ∧ s'.idleTask = .created ∧ Lull s a s') ∨
    TurnsTo cfg s a s' := by
  by_cases ha : a = .idleWake
  · subst ha
    have hrests : s.idleTask.rests = true := by
      revert h
      cases ht : s.idleTask <;> simp [step, ht, IdleTask.rests]
    have hs : s' = s.idleLoop cfg := by
      cases step_inv h
      rfl
    exact .inr (.inr (hs ▸ turnsTo_idleLoop hrests))
  · cases step_inv h with
    | tick ht =>
      exact .inl ⟨rfl, rfl, ht, .inr ⟨rfl, .inl rfl⟩, .inl rfl, fun h => h.trans ht,
        fun h => ⟨h, .inl⟩⟩
    | call _ hl =>
      rcases idleTask_ensureReady with hi | ⟨hu, hi⟩
      · exact .inl ⟨hi, lull_ensureReady hl⟩
      · exact .inr (.inl ⟨hu, hi, lull_ensureReady hl⟩)
    | acquire _ _ hl => exact .inl (resumes_driveReadiness hl)
    | firstProbe _ => exact .inl resumes_afterProbe
    | poll _ => exact .inl resumes_afterPoll
    | statusReturns _ => exact .inl resumes_afterStatus
    | startReturns _ => exact .inl resumes_afterStart
    | wake _ => exact .inl (resumes_await _ rfl rfl rfl rfl rfl)
    | abortWaiting _ | abortDrive _ _ => exact .inl ⟨rfl, .now rfl rfl (.inl rfl) rfl⟩
    | leaseEnter => exact .inl ⟨rfl, lull_leaseEnter⟩
    | leaseExit hl => exact .inl ⟨rfl, lull_leaseExit hl⟩
    | startIdleMonitor =>
      obtain ⟨hact, hle, -⟩ := armIdle_rest cfg s
      have hlull : Lull s .startIdleMonitor (s.armIdle cfg) :=
        .now rfl armIdle_clock (.inl hact) hle
      rcases armIdle_idleTask cfg s with hi | ⟨hu, hi⟩
      · exact .inl ⟨hi, hlull⟩
      · exact .inr (.inl ⟨hu, hi, hlull⟩)
    | idleWake _ _ => exact absurd rfl ha
    | idleAcquire hw _ => exact .inr (.inr ⟨.acquire hw, rfl, rfl, rfl⟩)
    | idleStatus _ => exact .inr (.inr turnsTo_maybeIdleDown)
    | idleStop hw => exact .inr (.inr ⟨.stopped hw, rfl, rfl, rfl⟩)
    | idleCancelledHolding _ | idleCancelled _ _ => exact .inr (.inr ⟨.cancelled, rfl, rfl, rfl⟩)
    | idleClosed _ => exact .inr (.inr ⟨.closed, rfl, rfl, rfl⟩)

end Readiness

/-! ## A prompt run -/

/-- When the engine could be stopped, or when the loop last looked. -/
def Vigil.mark (cfg : Lifecycle) (s : Readiness) (w : Vigil) : ℚ := max (w.ripe cfg s) w.looked

/-- How long after `mark` an await of the loop has begun, and slept, at most. -/
def slack (cfg : Lifecycle) (B S : ℚ) : IdleTask → ℚ
  | .sleeping _ => longestSleep cfg + S
  | .waiting => longestSleep cfg + S + B
  | .status => longestSleep cfg + S + 2 * B
  | _ => 0

/-- What holds of any run: the stopwatch is not ahead of the clock, an engine that has been spared was
in use, and a `stop()` that has not ended is awaited, unless the loop has been cancelled at it. -/
structure Watching (cfg : Lifecycle) (s : Readiness) (w : Vigil) : Prop where
  inv : Readiness.Inv cfg s
  leases : 0 ≤ s.leases
  activity : s.lastActivity ≤ s.clock
  since : w.since ≤ s.clock
  hindered : w.hindered ≤ s.clock
  looked : w.looked ≤ s.clock
  unseen : w.verdict = none → w.looked ≤ w.hindered
  seen : w.verdict ≠ none → 0 < cfg.idleInterval
  spared : w.verdict = some .spared →
    s.leases ≠ 0 ∨ w.looked < s.lastActivity + cfg.idleInterval
  issued : w.verdict = some .stopIssued →
    s.idleTask = .stopping ∨ s.idleTask.alive = false ∨ w.looked ≤ w.hindered

/-- Where the loop is in a prompt run (module doc). -/
structure OnTime (cfg : Lifecycle) (B S : ℚ) (s : Readiness) (w : Vigil) : Prop where
  limit : s.clock ≤ w.limit B S s
  sleep : s.idleTask.seconds ≤ longestSleep cfg
  began : s.leases = 0 → w.since + s.idleTask.seconds ≤ w.mark cfg s + slack cfg B S s.idleTask
  created : s.idleTask = .created → w.since ≤ w.hindered
  stopping : s.idleTask = .stopping → w.since ≤ w.looked

/-- The invariant of a prompt run (module doc). -/
structure Watched (cfg : Lifecycle) (B S : ℚ) (x : Readiness × Vigil) : Prop where
  watching : Watching cfg x.1 x.2
  onTime : x.1.idleTask.alive = true → OnTime cfg B S x.1 x.2

section
variable {cfg : Lifecycle} {B S : ℚ} {s s' : Readiness} {w : Vigil} {a : ReadyAction}

variable (w s s') in
theorem Vigil.watch_quiet (h : a.turns = false) :
    (w.watch s a s').looked = w.looked ∧ (w.watch s a s').verdict = w.verdict := by
  cases a with
  | idleWake | idleAcquire | idleStatus _ | idleStop _ => cases h
  | _ => exact ⟨rfl, rfl⟩

theorem Vigil.watch_hindered (hw : w.hindered ≤ s.clock) (hc : s.clock ≤ s'.clock) :
    w.hindered ≤ (w.watch s a s').hindered ∧ (w.watch s a s').hindered ≤ s'.clock := by
  simp only [Vigil.watch]
  split
  · exact ⟨hw.trans hc, le_refl _⟩
  · exact ⟨le_refl _, hw.trans hc⟩

theorem Vigil.watch_since (hw : w.since ≤ s.clock) (hc : s.clock ≤ s'.clock) :
    (w.watch s a s').since ≤ s'.clock := by
  simp only [Vigil.watch]
  split
  · exact le_refl _
  · exact hw.trans hc

variable (s' w a) in
/-- Without a loop, `hindered` is the clock. -/
theorem Vigil.watch_unarmed (h : s.idleTask = .unarmed) :
    (w.watch s a s').since = s'.clock ∧ (w.watch s a s').hindered = s'.clock := by
  simp [Vigil.watch, h, IdleTask.alive]

theorem Vigil.watch_turns (h : a.turns = true) : (w.watch s a s').since = s'.clock := by
  simp [Vigil.watch, h]

theorem Vigil.watch_lull (h : a.turns = false) (ha : s.idleTask.alive = true) :
    (w.watch s a s').since = w.since := by
  have : s.idleTask ≠ .unarmed := fun e => by rw [e] at ha; cases ha
  simp [Vigil.watch, h, this]

theorem Readiness.Lull.activity_le (h : s.Lull a s') (hw : s.lastActivity ≤ s.clock) :
    s.lastActivity ≤ s'.lastActivity := by
  rcases h.activity with hact | hact
  · exact le_of_eq hact.symm
  · exact hw.trans hact

theorem IdleVerdict.of_spared {result : Except Str ContainerState} {task : IdleTask}
    (h : IdleVerdict.of result task = .spared) : result = .ok .running ∧ task ≠ .stopping := by
  revert h
  unfold IdleVerdict.of
  split
  · intro h; cases h
  · split
    · intro h; cases h
    · exact fun _ => ⟨rfl, ‹_›⟩
  · intro h; cases h

theorem IdleVerdict.of_stopIssued {result : Except Str ContainerState} {task : IdleTask}
    (h : IdleVerdict.of result task = .stopIssued) : task = .stopping := by
  revert h
  unfold IdleVerdict.of
  split
  · intro h; cases h
  · split
    · exact fun _ => ‹_›
    · intro h; cases h
  · intro h; cases h

/-- A `stop()` that the loop awaits is awaited still. -/
theorem Watching.issued_lull (hi : Watching cfg s w) (h : s.Lull a s')
    (ht : s'.idleTask = s.idleTask ∨ s.idleTask = .unarmed) (hv : w.verdict = some .stopIssued) :
    s'.idleTask = .stopping ∨ s'.idleTask.alive = false ∨
      (w.watch s a s').looked ≤ (w.watch s a s').hindered := by
  obtain ⟨hlooked, -⟩ := Vigil.watch_quiet s s' w h.turns
  obtain ⟨hle, -⟩ := Vigil.watch_hindered (a := a) hi.hindered h.clock
  rcases ht with ht | hu
  · rw [ht, hlooked]
    exact (hi.issued hv).imp_right (.imp_right fun hl => hl.trans hle)
  · -- the loop has been cancelled at it, and there has been none since
    rw [hlooked, (Vigil.watch_unarmed s' w a hu).2]
    exact .inr (.inr (hi.looked.trans h.clock))

theorem Watching.lull (hi : Watching cfg s w) (hinv : Readiness.Inv cfg s') (h : s.Lull a s')
    (ht : s'.idleTask = s.idleTask ∨ s.idleTask = .unarmed) : Watching cfg s' (w.watch s a s') := by
  obtain ⟨hlooked, hverdict⟩ := Vigil.watch_quiet s s' w h.turns
  obtain ⟨hle, hhind⟩ := Vigil.watch_hindered (a := a) hi.hindered h.clock
  obtain ⟨hnn, hzero⟩ := h.leases hi.leases
  refine ⟨hinv, hnn, h.recent hi.activity, Vigil.watch_since hi.since h.clock, hhind, ?_, ?_, ?_, ?_,
    by rw [hverdict]; exact hi.issued_lull h ht⟩
  · rw [hlooked]
    exact hi.looked.trans h.clock
  · rw [hlooked, hverdict]
    exact fun hv => (hi.unseen hv).trans hle
  · rw [hverdict]
    exact hi.seen
  · rw [hverdict, hlooked]
    intro hv
    have hact := h.activity_le hi.activity
    have hpos := hi.seen (by rw [hv]; simp)
    by_cases hl : s'.leases = 0
    · right
      rcases hzero hl with hl | hrecent
      · have := (hi.spared hv).resolve_left (fun hn => hn hl)
        linarith
      · -- there has been activity since the loop looked
        have := hi.looked
        linarith
    · exact .inl hl

/-- What the loop has found stays as it is, where it neither looks nor has waited for `stop()`. -/
theorem Watching.kept (hi : Watching cfg s w) (hinv : Readiness.Inv cfg s')
    (h : Readiness.TurnsTo cfg s a s') (hlooked : (w.watch s a s').looked = w.looked)
    (hverdict : (w.watch s a s').verdict = w.verdict)
    (hstop : s.idleTask = .stopping → s'.idleTask.alive = false)
    (hdead : s.idleTask.alive = false → s'.idleTask.alive = false) :
    Watching cfg s' (w.watch s a s') := by
  obtain ⟨-, hc, hact, hl⟩ := h
  obtain ⟨hle, hhind⟩ := Vigil.watch_hindered (a := a) hi.hindered (le_of_eq hc.symm)
  refine ⟨hinv, hl ▸ hi.leases, ?_, Vigil.watch_since hi.since (le_of_eq hc.symm), hhind, ?_, ?_, ?_,
    ?_, fun hv => ?_⟩
  · rw [hact, hc]
    exact hi.activity
  · rw [hlooked, hc]
    exact hi.looked
  · rw [hlooked, hverdict]
    exact fun hv => (hi.unseen hv).trans hle
  · rw [hverdict]
    exact hi.seen
  · rw [hverdict, hlooked, hl, hact]
    exact hi.spared
  · rw [hverdict] at hv
    rw [hlooked]
    rcases hi.issued hv with ht | ht | ht
    · exact .inr (.inl (hstop ht))
    · exact .inr (.inl (hdead ht))
    · exact .inr (.inr (ht.trans hle))

/-- The loop has looked, or `stop()` has ended. -/
theorem Watching.found (hi : Watching cfg s w) (hinv : Readiness.Inv cfg s')
    (h : Readiness.TurnsTo cfg s a s') (harmed : s'.idleTask ≠ .unarmed)
    (hlooked : (w.watch s a s').looked ≤ s'.clock) (hverdict : (w.watch s a s').verdict ≠ none)
    (hspared : (w.watch s a s').verdict = some .spared →
      s'.leases ≠ 0 ∨ (w.watch s a s').looked < s'.lastActivity + cfg.idleInterval)
    (hissued : (w.watch s a s').verdict = some .stopIssued → s'.idleTask = .stopping) :
    Watching cfg s' (w.watch s a s') := by
  obtain ⟨-, hc, hact, hl⟩ := h
  obtain ⟨-, hhind⟩ := Vigil.watch_hindered (a := a) hi.hindered (le_of_eq hc.symm)
  refine ⟨hinv, hl ▸ hi.leases, ?_, Vigil.watch_since hi.since (le_of_eq hc.symm), hhind, hlooked,
    fun hv => absurd hv hverdict, fun _ => hinv.armed harmed, hspared, fun hv => .inl (hissued hv)⟩
  rw [hact, hc]
  exact hi.activity

/-- An engine that has been spared was in use. -/
theorem Readiness.TurnsTo.spared {result : Except Str ContainerState}
    (h : Readiness.TurnsTo cfg s (.idleStatus result) s')
    (hv : IdleVerdict.of result s'.idleTask = .spared) :
    s'.leases ≠ 0 ∨ s'.clock < s'.lastActivity + cfg.idleInterval := by
  obtain ⟨hturn, hc, hact, hl⟩ := h
  obtain ⟨hrun, hne⟩ := IdleVerdict.of_spared hv
  generalize s'.idleTask = task at hturn hne
  cases hturn with
  | stop => exact absurd rfl hne
  | leave hspared =>
    by_cases hzero : s'.leases = 0
    · have := hspared hrun (hl ▸ hzero)
      right
      rw [hc, hact]
      linarith
    · exact .inl hzero

theorem Watching.turn (hi : Watching cfg s w) (hinv : Readiness.Inv cfg s')
    (h : Readiness.TurnsTo cfg s a s') : Watching cfg s' (w.watch s a s') := by
  have hturn := h.1
  generalize htask : s'.idleTask = task at hturn
  have harmed : task ≠ .unarmed → s'.idleTask ≠ .unarmed := fun hne e => hne (htask.symm.trans e)
  cases hturn with
  | ripe hrests | early hrests =>
    refine hi.kept hinv h rfl rfl (fun e => ?_) (fun e => ?_)
    · rw [e] at hrests
      cases hrests
    · cases ht : s.idleTask <;> simp [ht, IdleTask.rests, IdleTask.alive] at hrests e
  | acquire hw =>
    refine hi.kept hinv h rfl rfl (fun e => ?_) (fun e => ?_)
    · cases hw.symm.trans e
    · rw [hw] at e
      cases e
  | stop | leave _ =>
    exact hi.found hinv h (harmed (by simp)) (le_refl _) (by simp [Vigil.watch])
      (fun hv => h.spared (Option.some.inj hv))
      (fun hv => IdleVerdict.of_stopIssued (Option.some.inj hv))
  | stopped _ =>
    exact hi.found hinv h (harmed (by simp)) (h.2.1.symm ▸ hi.looked) (by simp [Vigil.watch])
      (fun hv => by cases hv) (fun hv => by cases hv)
  | cancelled | closed =>
    have hdead : s'.idleTask.alive = false := htask ▸ rfl
    exact hi.kept hinv h rfl rfl (fun _ => hdead) (fun _ => hdead)

/-! ### The time of an await -/

theorem IdleTask.seconds_nonneg (task : IdleTask) : 0 ≤ task.seconds := by
  unfold IdleTask.seconds
  split
  · exact le_max_right _ _
  · exact le_refl _

theorem IdleTask.seconds_le_slack (hB : 0 ≤ B) (hS : 0 ≤ S) {task : IdleTask}
    (h : task.seconds ≤ longestSleep cfg) : task.seconds ≤ slack cfg B S task := by
  cases task with
  | sleeping seconds => exact h.trans (le_add_of_nonneg_right hS)
  | unarmed | created | stopping | ended => exact le_refl _
  | waiting | status =>
    have : 0 ≤ longestSleep cfg := h
    simp only [IdleTask.seconds, slack]
    linarith

variable (B) in
theorem IdleTask.rests_slack (hS : 0 ≤ S) (hl : 0 ≤ longestSleep cfg) {task : IdleTask}
    (h : task.rests = true) : slack cfg B S task ≤ longestSleep cfg + S ∧ task.alive = true := by
  cases task with
  | created => exact ⟨add_nonneg hl hS, rfl⟩
  | sleeping seconds => exact ⟨le_refl _, rfl⟩
  | _ => cases h

variable (cfg s w) in
theorem Vigil.le_mark : s.lastActivity + cfg.idleInterval ≤ w.mark cfg s ∧
    w.hindered ≤ w.mark cfg s ∧ w.looked ≤ w.mark cfg s :=
  ⟨(le_max_left _ _).trans (le_max_left _ _), (le_max_right _ _).trans (le_max_left _ _),
    le_max_right _ _⟩

theorem Vigil.mark_mono {w' : Vigil} (h₁ : s.lastActivity ≤ s'.lastActivity)
    (h₂ : w.hindered ≤ w'.hindered) (h₃ : w.looked ≤ w'.looked) :
    w.mark cfg s ≤ w'.mark cfg s' :=
  max_le_max (max_le_max (by linarith) h₂) h₃

theorem Vigil.limit_mono {w' : Vigil} (ht : s'.idleTask = s.idleTask) (hs : w'.since = w.since)
    (hh : w.hindered ≤ w'.hindered) : w.limit B S s ≤ w'.limit B S s' := by
  unfold Vigil.limit
  rw [ht, hs]
  split
  · exact add_le_add (max_le_max (le_refl _) hh) (le_refl _)
  · exact le_refl _
  · exact le_refl _
  · exact le_refl _

/-- An await that begins now. -/
theorem Vigil.le_limit (hB : 0 ≤ B) (hS : 0 ≤ S) (h : w.since = s.clock) :
    s.clock ≤ w.limit B S s := by
  unfold Vigil.limit
  rw [← h]
  split
  · have := le_max_left w.since w.hindered
    linarith
  · linarith
  · linarith
  · have := s.idleTask.seconds_nonneg
    linarith

/-- The lock is free, or a call holds it, while the loop waits for it. -/
theorem Watching.lock_waiting (hi : Watching cfg s w) (h : s.idleTask = .waiting)
    (hn : ¬ s.lock.any Holder.isCaller = true) : s.lock = none := by
  cases hl : s.lock with
  | none => rfl
  | some holder =>
    cases holder with
    | caller c => simp [hl, Holder.isCaller] at hn
    | idle =>
      have hp := (hi.inv.lock .idle).mp hl
      rw [Readiness.InProgress, h] at hp
      cases hp

/-- The clock does not pass the limit. -/
theorem OnTime.limit_lull (hi : Watching cfg s w) (ho : OnTime cfg B S s w)
    (halive : s.idleTask.alive = true) (hB : 0 ≤ B) (h : s.Lull a s')
    (ht : s'.idleTask = s.idleTask) (hp : Prompt B S (s, w) a) :
    s'.clock ≤ (w.watch s a s').limit B S s' := by
  obtain ⟨hle, -⟩ := Vigil.watch_hindered (a := a) hi.hindered h.clock
  have hmono := Vigil.limit_mono (B := B) (S := S) ht (Vigil.watch_lull h.turns halive) hle
  rcases h.reading with hc | ⟨hr, hlock⟩
  · rw [hc]
    exact ho.limit.trans hmono
  · by_cases hheld : s'.lock.any Holder.isCaller = true ∧ s.idleTask = .waiting
    · -- a call holds the lock that the loop waits for
      have hh : (w.watch s a s').hindered = s'.clock := by simp [Vigil.watch, hheld.1]
      have := le_max_right (w.watch s a s').since (w.watch s a s').hindered
      rw [Vigil.limit, ht, hheld.2]
      dsimp only
      linarith
    · have hdue : w.due B S s = some (w.limit B S s) := by
        refine if_pos ⟨halive, fun hw => ?_⟩
        refine hi.lock_waiting hw fun hcaller => hheld ⟨?_, hw⟩
        rcases hlock with hlock | hlock
        · rw [hlock]
          exact hcaller
        · exact hlock
      exact (hp _ hr _ hdue).trans hmono

theorem OnTime.lull (hi : Watching cfg s w) (ho : OnTime cfg B S s w)
    (halive : s.idleTask.alive = true) (hB : 0 ≤ B) (hS : 0 ≤ S) (h : s.Lull a s')
    (ht : s'.idleTask = s.idleTask) (hp : Prompt B S (s, w) a) :
    OnTime cfg B S s' (w.watch s a s') := by
  obtain ⟨hle, -⟩ := Vigil.watch_hindered (a := a) hi.hindered h.clock
  obtain ⟨hlooked, -⟩ := Vigil.watch_quiet s s' w h.turns
  have hsince : (w.watch s a s').since = w.since := Vigil.watch_lull h.turns halive
  refine ⟨ho.limit_lull hi halive hB h ht hp, ht ▸ ho.sleep, fun hl => ?_, fun hc => ?_,
    fun hs => ?_⟩
  · rw [hsince, ht]
    rcases (h.leases hi.leases).2 hl with hzero | hrecent
    · have hmono : w.mark cfg s ≤ (w.watch s a s').mark cfg s' :=
        Vigil.mark_mono (h.activity_le hi.activity) hle (le_of_eq hlooked.symm)
      have := ho.began hzero
      linarith
    · -- the last lease has been left, or a call has been made, since the await began
      have hslack := IdleTask.seconds_le_slack hB hS ho.sleep
      have hmark := (Vigil.le_mark cfg s' (w.watch s a s')).1
      have hpos := hi.inv.armed fun e => by rw [e] at halive; cases halive
      have := hi.since
      linarith
  · rw [hsince]
    exact (ho.created (ht ▸ hc)).trans hle
  · rw [hsince, hlooked]
    exact ho.stopping (ht ▸ hs)

theorem OnTime.armed (hinv : Readiness.Inv cfg s') (hB : 0 ≤ B) (hS : 0 ≤ S)
    (hu : s.idleTask = .unarmed) (hc : s'.idleTask = .created) :
    OnTime cfg B S s' (w.watch s a s') := by
  obtain ⟨hsince, hhind⟩ := Vigil.watch_unarmed s' w a hu
  have hpos : 0 < cfg.idleInterval := hinv.armed fun e => by cases hc.symm.trans e
  refine ⟨Vigil.le_limit hB hS hsince, ?_, fun _ => ?_, fun _ => ?_, fun hs => ?_⟩
  · rw [hc]
    exact hpos.le.trans (le_max_left _ _)
  · have := (Vigil.le_mark cfg s' (w.watch s a s')).2.1
    rw [hhind] at this
    rw [hsince, hc]
    simpa [IdleTask.seconds, slack] using this
  · rw [hsince, hhind]
  · cases hc.symm.trans hs

/-- The loop at its head, before it may stop the engine. -/
theorem nextIdleSleep_le {idleFor : ℚ} (hi : 0 < cfg.idleInterval) (h : 0 ≤ idleFor) :
    max (nextIdleSleep idleFor cfg.idleInterval cfg.pollSeconds) 0 ≤ longestSleep cfg := by
  have h₁ : cfg.idleInterval ≤ longestSleep cfg := le_max_left _ _
  have h₂ : cfg.pollSeconds ≤ longestSleep cfg := le_max_right _ _
  refine max_le (max_le h₂ ?_) ?_
  · linarith
  · linarith

theorem Readiness.Turn.seconds_le {task : IdleTask} (h : Readiness.Turn cfg s a task)
    (hpos : 0 < cfg.idleInterval) (hact : s.lastActivity ≤ s.clock) :
    task.seconds ≤ longestSleep cfg := by
  have hlong : cfg.idleInterval ≤ longestSleep cfg := le_max_left _ _
  cases h with
  | early _ _ => exact nextIdleSleep_le hpos (sub_nonneg.mpr hact)
  | leave _ | stopped _ => exact max_le hlong (hpos.le.trans hlong)
  | ripe _ _ _ | acquire _ | stop | cancelled | closed => exact hpos.le.trans hlong

/-- At its head the loop sleeps for `seconds`. -/
theorem Vigil.limit_rests (h : s.idleTask.rests = true) :
    w.limit B S s = w.since + s.idleTask.seconds + B := by
  unfold Vigil.limit
  cases ht : s.idleTask with
  | created | sleeping _ => rfl
  | _ => simp [ht, IdleTask.rests] at h

/-- A lock that the loop waits for is given in time. -/
theorem OnTime.waiting_le (ho : OnTime cfg B S s w) (hw : s.idleTask = .waiting)
    (hl : s.leases = 0) (hB : 0 ≤ B) (hS : 0 ≤ S) (hlong : 0 ≤ longestSleep cfg) :
    s.clock ≤ w.mark cfg s + (longestSleep cfg + S + B) + B := by
  obtain ⟨-, hhind, -⟩ := Vigil.le_mark cfg s w
  have hlim := ho.limit
  have hbegan := ho.began hl
  simp only [Vigil.limit, hw] at hlim
  simp only [hw, IdleTask.seconds, slack] at hbegan
  have hmax : max w.since w.hindered ≤ w.mark cfg s + (longestSleep cfg + S + B) := by
    refine max_le ?_ ?_
    · linarith
    · linarith
  linarith

/-- What the loop's next await is begun with. -/
theorem OnTime.began_turn (hi : Watching cfg s w)
    (ho : s.idleTask.alive = true → OnTime cfg B S s w) (hB : 0 ≤ B) (hS : 0 ≤ S)
    (hpos : 0 < cfg.idleInterval) (h : Readiness.TurnsTo cfg s a s')
    (halive : s'.idleTask.alive = true) (hzero : s.leases = 0) :
    s.clock + s'.idleTask.seconds ≤ (w.watch s a s').mark cfg s' + slack cfg B S s'.idleTask := by
  obtain ⟨hturn, hc, hact, -⟩ := h
  obtain ⟨hle, -⟩ := Vigil.watch_hindered (a := a) hi.hindered (le_of_eq hc.symm)
  have hlong : cfg.idleInterval ≤ longestSleep cfg := le_max_left _ _
  obtain ⟨hmact, -, hmlooked⟩ := Vigil.le_mark cfg s' (w.watch s a s')
  have hmono : (w.watch s a s').looked = w.looked →
      w.mark cfg s ≤ (w.watch s a s').mark cfg s' :=
    fun e => Vigil.mark_mono (le_of_eq hact.symm) hle (le_of_eq e.symm)
  generalize s'.idleTask = task at hturn halive
  cases hturn with
  | ripe hrests _ _ =>
    -- the loop has slept
    obtain ⟨hslack, halive'⟩ := IdleTask.rests_slack B hS (hpos.le.trans hlong) hrests
    have hbegan := (ho halive').began hzero
    have hlim := (ho halive').limit
    rw [Vigil.limit_rests hrests] at hlim
    have hm := hmono rfl
    simp only [IdleTask.seconds, slack]
    linarith
  | early _ hearly =>
    -- no lease is held, so the engine has been in use since the interval began
    have hlt : s.clock - s.lastActivity < cfg.idleInterval :=
      not_le.mp fun hge => hearly ⟨hzero, hge⟩
    have hsleep := nextIdleSleep_le hpos (sub_nonneg.mpr hi.activity)
    simp only [IdleTask.seconds, slack]
    linarith
  | acquire hw =>
    have hgiven := (ho (by rw [hw]; rfl)).waiting_le hw hzero hB hS (hpos.le.trans hlong)
    have hm := hmono rfl
    simp only [IdleTask.seconds, slack]
    linarith
  | stop =>
    have : s'.clock ≤ (w.watch s (.idleStatus _) s').mark cfg s' := hmlooked
    simp only [IdleTask.seconds, slack]
    linarith
  | leave _ =>
    have : s'.clock ≤ (w.watch s (.idleStatus _) s').mark cfg s' := hmlooked
    simp only [IdleTask.seconds, slack, max_eq_left hpos.le]
    linarith
  | stopped hw =>
    -- the loop looked when it began to wait for `stop()`
    have halive' : s.idleTask.alive = true := by rw [hw]; rfl
    have hlim := (ho halive').limit
    have hstop := (ho halive').stopping hw
    have hm := hmono rfl
    obtain ⟨-, -, hlooked⟩ := Vigil.le_mark cfg s w
    simp only [Vigil.limit, hw] at hlim
    simp only [IdleTask.seconds, slack, max_eq_left hpos.le]
    linarith
  | cancelled | closed => cases halive

theorem OnTime.turn (hi : Watching cfg s w)
    (ho : s.idleTask.alive = true → OnTime cfg B S s w) (hB : 0 ≤ B) (hS : 0 ≤ S)
    (hinv : Readiness.Inv cfg s') (h : Readiness.TurnsTo cfg s a s')
    (halive : s'.idleTask.alive = true) : OnTime cfg B S s' (w.watch s a s') := by
  have hpos : 0 < cfg.idleInterval := hinv.armed fun e => by rw [e] at halive; cases halive
  have hturns : a.turns = true := by
    have hturn := h.1
    generalize s'.idleTask = task at hturn halive
    cases hturn with
    | cancelled | closed => cases halive
    | _ => rfl
  have hsince : (w.watch s a s').since = s'.clock := Vigil.watch_turns hturns
  refine ⟨Vigil.le_limit hB hS hsince, h.1.seconds_le hpos hi.activity, fun hl => ?_, fun e => ?_,
    fun e => ?_⟩
  · rw [hsince, h.2.1]
    exact began_turn hi ho hB hS hpos h halive (h.2.2.2 ▸ hl)
  · -- only `start_idle_monitor()` creates a loop
    have hturn := h.1
    rw [e] at hturn
    cases hturn
  · have hturn := h.1
    rw [e] at hturn
    cases hturn
    exact le_of_eq hsince

theorem watched_reach (hB : 0 ≤ B) (hS : 0 ≤ S) {x : Readiness × Vigil}
    (h : (idleWatch cfg).Reach (Prompt B S) x) : Watched cfg B S x := by
  refine h.invariant (fun x hx => ?_) fun x a x' hi hp hst => ?_
  · obtain ⟨t, rfl⟩ := hx
    exact ⟨⟨Readiness.inv_reach (.init (P := Lts.always) ⟨t, rfl⟩), le_refl _, le_refl _,
      le_refl _, le_refl _, le_refl _, fun _ => le_refl _, fun h => absurd rfl h,
      fun h => (by cases h), fun h => (by cases h)⟩, fun h => (by cases h)⟩
  · obtain ⟨s, w⟩ := x
    obtain ⟨s', hs, rfl⟩ := Option.map_eq_some_iff.mp hst
    obtain ⟨hi, ho⟩ := hi
    have hinv : Readiness.Inv cfg s' := hi.inv.step (Readiness.step_inv hs)
    obtain ⟨ht, hlull⟩ | ⟨hu, hc, hlull⟩ | hturn := Readiness.step_idle hs
    · refine ⟨hi.lull hinv hlull (.inl ht), fun halive => ?_⟩
      have halive' : s.idleTask.alive = true := (congrArg IdleTask.alive ht).symm.trans halive
      exact (ho halive').lull hi halive' hB hS hlull ht hp
    · exact ⟨hi.lull hinv hlull (.inr hu), fun _ => .armed hinv hB hS hu hc⟩
    · exact ⟨hi.turn hinv hturn, fun halive => .turn hi ho hB hS hinv hturn halive⟩

/-- In time, an await of the loop ends at most so long after `mark`. -/
theorem OnTime.clock_le (hi : Watching cfg s w) (ho : OnTime cfg B S s w)
    (halive : s.idleTask.alive = true) (hl : s.leases = 0) (hB : 0 ≤ B) (hS : 0 ≤ S) :
    s.clock ≤ w.mark cfg s + (longestSleep cfg + 2 * B + 2 * S) := by
  have hpos : 0 < cfg.idleInterval := hi.inv.armed fun e => by rw [e] at halive; cases halive
  have hlong : cfg.idleInterval ≤ longestSleep cfg := le_max_left _ _
  have hlim := ho.limit
  have hbegan := ho.began hl
  unfold Vigil.limit at hlim
  cases ht : s.idleTask with
  | unarmed | ended => rw [ht] at halive; cases halive
  | waiting =>
    have := ho.waiting_le ht hl hB hS (hpos.le.trans hlong)
    linarith
  | created | sleeping _ | status | stopping =>
    simp only [ht, slack] at hlim hbegan
    simp only [IdleTask.seconds] at hlim hbegan
    linarith

theorem IdleGoesOn.of_alive (h : s.idleTask.alive = true) : IdleGoesOn cfg s := by
  unfold IdleGoesOn
  cases ht : s.idleTask with
  | unarmed | ended => rw [ht] at h; cases h
  | created | sleeping _ => simp [Readiness.step, ht]
  | waiting =>
    intro hl
    simp [Readiness.step, ht, hl]
  | status | stopping =>
    intro result
    simp [Readiness.step, ht]

end

/-! ## The result -/

theorem idle_engine_seen (cfg : Lifecycle) (B S : ℚ) (hB : 0 ≤ B) (hS : 0 ≤ S) (s : Readiness)
    (w : Vigil) (h : (idleWatch cfg).Reach (Prompt B S) (s, w))
    (halive : s.idleTask.alive = true) :
    IdleGoesOn cfg s ∧ (∀ due ∈ w.due B S s, s.clock ≤ due) ∧
    (s.leases = 0 → w.ripe cfg s + (longestSleep cfg + 2 * B + 2 * S) < s.clock →
      ∃ verdict, w.verdict = some verdict ∧ verdict ≠ .spared ∧
        (verdict = .stopIssued → s.idleTask = .stopping) ∧ w.ripe cfg s < w.looked ∧
        s.clock ≤ w.looked + (longestSleep cfg + 2 * B + 2 * S)) := by
  obtain ⟨hi, ho⟩ := watched_reach hB hS h
  refine ⟨.of_alive halive, fun due hdue => ?_, fun hl hlate => ?_⟩
  · obtain ⟨-, hdue⟩ := Option.ite_none_right_eq_some.mp hdue
    exact Option.some.inj hdue ▸ (ho halive).limit
  · have hle := (ho halive).clock_le hi halive hl hB hS
    have hmark : w.mark cfg s = w.looked := by
      refine max_eq_right (not_lt.mp fun hlt => ?_)
      rw [Vigil.mark, max_eq_left hlt.le] at hle
      linarith
    rw [hmark] at hle
    have hripe : w.ripe cfg s < w.looked := by linarith
    have hact : s.lastActivity + cfg.idleInterval ≤ w.ripe cfg s := le_max_left _ _
    have hhind : w.hindered ≤ w.ripe cfg s := le_max_right _ _
    cases hv : w.verdict with
    | none =>
      have := hi.unseen hv
      linarith
    | some verdict =>
      refine ⟨verdict, rfl, fun e => ?_, fun e => ?_, hripe, hle⟩
      · subst e
        have := (hi.spared hv).resolve_left (fun hn => hn hl)
        linarith
      · subst e
        refine (hi.issued hv).resolve_right fun hn => hn.elim (fun hdead => ?_) fun hlh => ?_
        · rw [halive] at hdead
          cases hdead
        · linarith

namespace Sample

def idlePrompt (x : Music3.Readiness × Vigil) (a : ReadyAction) : Bool :=
  a.reading?.all fun t => (x.2.due 1 1 x.1).all fun due => t ≤ due

theorem idlePrompt_sound (x : Music3.Readiness × Vigil) (a : ReadyAction) (h : idlePrompt x a = true) :
    Prompt 1 1 x a := by
  intro t ht due hdue
  rw [Option.mem_def] at ht hdue
  simpa [idlePrompt, ht, hdue] using h

def watched : Music3.Readiness × Vigil := (cold, { since := 0, hindered := 0, looked := 0 })

theorem watched_init : (idleWatch lifecycle).init watched := ⟨0, rfl⟩

/-- Nobody uses the engine: it is stopped after ten minutes, and found stopped ten minutes later. -/
def unused : List ReadyAction :=
  [.startIdleMonitor, .idleWake, .tick 600, .idleWake, .idleAcquire, .idleStatus (.ok .running),
    .idleStop (.ok ()), .tick 1200, .idleWake, .idleAcquire, .tick 1201, .idleStatus (.ok .stopped),
    .tick 1300]

theorem unused_run : ((idleWatch lifecycle).runIf idlePrompt watched unused).map
    (fun x => (x.1.idleTask, x.1.leases, x.1.clock, x.2.ripe lifecycle x.1, x.2.looked)) =
      some (.sleeping 600, 0, 1300, 600, 1201) := by decide +kernel

end Sample

theorem idle_engine_seen_unused : ∃ (s : Readiness) (w : Vigil), s.clock = 1300 ∧ w.looked = 1201 ∧
    s.clock ≤ w.looked + 604 ∧ ∃ verdict, w.verdict = some verdict ∧ verdict ≠ .spared := by
  obtain ⟨⟨s, w⟩, hrun, hx⟩ := Option.map_eq_some_iff.mp Sample.unused_run
  simp only [Prod.mk.injEq] at hx
  obtain ⟨htask, hl, hclock, hripe, hlooked⟩ := hx
  have hlong : longestSleep Sample.lifecycle + 2 * 1 + 2 * 1 = 604 := by decide +kernel
  have h := idle_engine_seen Sample.lifecycle 1 1 (by decide) (by decide) s w
    ((Lts.Reach.init Sample.watched_init).path (Lts.path_of_runIf Sample.idlePrompt_sound hrun))
    (by rw [htask]; rfl)
  obtain ⟨verdict, hv, hne, -, -, hle⟩ := h.2.2 hl (by rw [hripe, hclock, hlong]; decide +kernel)
  exact ⟨s, w, hclock, hlooked, hlong ▸ hle, verdict, hv, hne⟩

end Music3
