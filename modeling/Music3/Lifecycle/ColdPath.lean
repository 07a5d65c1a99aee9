import Mathlib.Data.Rat.Floor
import Mathlib.Tactic.Linarith
import Music3.Lifecycle.Controller

/-!
# The time that a cold path takes

One call in `_drive_readiness`, among everything else that happens to a `Readiness`. A `Drive` is a
stopwatch on the call: when its deadline was fixed, when its await began, the probes that it has
made, the outcome of the last one and what its last await has ended with. No code reads it.

* `Drives` is what the code of the call does between two of its awaits, at an instant.
* `Paced p`: a sleep takes at least `p`. `Timely P S p`: it takes `p`, a probe at most `P` and a
  call of the controller at most `S`.
* `Course` is the invariant of a paced drive, `Punctual` the one of a timely drive.
* `cold_path_bounded`: how many probes a drive makes, why it returns what it returns, and when.
-/

namespace Music3

open Py

/-- A stopwatch on a drive (module doc). -/
structure Drive where
  began : ℚ
  since : ℚ
  probes : Nat := 1
  outcome : Option ProbeOutcome := none
  /-- The awaits that have ended. -/
  resumed : Nat := 0
  last : Option ReadyAction := none

/-- The await is a probe. -/
def EnsureReady.asks : EnsureReady → Bool
  | probing _ | polling _ => true
  | _ => false

/-- What a probe has answered. -/
def ReadyAction.outcome? : ReadyAction → Option ProbeOutcome
  | probeReturns _ outcome => some outcome
  | _ => none

/-- The call goes on at `now`, from the end `a` of its await to the await `call`. -/
def Drive.goesOn (d : Drive) (now : ℚ) (a : ReadyAction) (call : EnsureReady) : Drive where
  began := d.began
  since := now
  probes := if call.asks then d.probes + 1 else d.probes
  outcome := a.outcome?.or d.outcome
  resumed := d.resumed + 1
  last := some a

/-- The stopwatch after an action. -/
def Drive.watch (d : Drive) (c : Nat) (a : ReadyAction) (s' : Readiness) : Drive :=
  match s'.calls c with
  | some call => if a.resumed? = some c then d.goesOn s'.clock a call else d
  | none => d

/-- The call `c` is in `_drive_readiness`. -/
def InDrive (c : Nat) (s : Readiness) : Prop := ∃ call, s.calls c = some call ∧ call.driving = true

instance (c : Nat) (s : Readiness) : Decidable (InDrive c s) :=
  decidable_of_iff ((s.calls c).any EnsureReady.driving = true) (Option.any_eq_true _ _)

/-- The drive of the call `c`, from the lock to its end. -/
def coldPath (cfg : Lifecycle) (c : Nat) : Lts (Readiness × Drive) ReadyAction where
  init x := ∃ s t₀, Readiness.step cfg s (.acquire c t₀) = some x.1 ∧
    x.1.calls c = some (.probing (t₀ + cfg.readinessTimeout)) ∧
    x.2 = { began := t₀, since := t₀ }
  step x a :=
    if InDrive c x.1 then
      (Readiness.step cfg x.1 a).map fun s => (s, x.2.watch c a s)
    else none

/-- A sleep takes at least `p`. -/
def Paced (p : ℚ) (c : Nat) (x : Readiness × Drive) (a : ReadyAction) : Prop :=
  a = .wake c → p ≤ x.1.clock - x.2.since

/-- A sleep takes `p`, a probe at most `P`, a call of the controller at most `S`. -/
def Timely (P S p : ℚ) (c : Nat) (x : Readiness × Drive) : ReadyAction → Prop
  | .wake c' => c' = c → x.1.clock - x.2.since = p
  | .probeReturns c' _ => c' = c → x.1.clock - x.2.since ≤ P
  | .statusReturns c' _ | .startReturns c' _ => c' = c → x.1.clock - x.2.since ≤ S
  | _ => True

/-- Whatever the await of the call ends with, the call goes on. -/
def KeepsGoing (cfg : Lifecycle) (c : Nat) (s : Readiness) : Prop :=
  match s.calls c with
  | some (.probing _) | some (.polling _) =>
    ∀ outcome, ∃ s', Readiness.step cfg s (.probeReturns c outcome) = some s'
  | some (.status _) => ∀ result, ∃ s', Readiness.step cfg s (.statusReturns c result) = some s'
  | some (.starting _) => ∀ result, ∃ s', Readiness.step cfg s (.startReturns c result) = some s'
  | some (.sleeping _) => ∃ s', Readiness.step cfg s (.wake c) = some s'
  | _ => False

/-- Why a drive has given up: the container is absent, the controller has failed, or the deadline
has come. -/
def GivenUp (cfg : Lifecycle) (c : Nat) (d : Drive) : Prop :=
  d.last = some (.statusReturns c (.ok .absent)) ∨
  (∃ exc, d.last = some (.statusReturns c (.error exc)) ∨
    d.last = some (.startReturns c (.error exc))) ∨
  d.began + cfg.readinessTimeout ≤ d.since

/-! ## Between two awaits -/

/-- What the code does at `now` at the end of an await (module doc). -/
inductive Drives (c : Nat) (now : ℚ) : EnsureReady → ReadyAction → EnsureReady → Prop
  | serving {deadline : ℚ} :
      Drives c now (.probing deadline) (.probeReturns c .modelsAvailable) (.returned .ready)
  | cold {deadline : ℚ} {outcome : ProbeOutcome} : outcome ≠ .modelsAvailable →
      Drives c now (.probing deadline) (.probeReturns c outcome) (.status deadline)
  | absent {deadline : ℚ} :
      Drives c now (.status deadline) (.statusReturns c (.ok .absent)) (.returned .unavailable)
  | statusFails {deadline : ℚ} {exc : Str} :
      Drives c now (.status deadline) (.statusReturns c (.error exc)) (.returned .unavailable)
  | stopped {deadline : ℚ} :
      Drives c now (.status deadline) (.statusReturns c (.ok .stopped)) (.starting deadline)
  | running {deadline : ℚ} :
      Drives c now (.status deadline) (.statusReturns c (.ok .running)) (.polling deadline)
  | startFails {deadline : ℚ} {exc : Str} :
      Drives c now (.starting deadline) (.startReturns c (.error exc)) (.returned .unavailable)
  | started {deadline : ℚ} :
      Drives c now (.starting deadline) (.startReturns c (.ok ())) (.polling deadline)
  | up {deadline : ℚ} :
      Drives c now (.polling deadline) (.probeReturns c .modelsAvailable) (.returned .ready)
  | expired {deadline : ℚ} {outcome : ProbeOutcome} : outcome ≠ .modelsAvailable →
      deadline ≤ now → Drives c now (.polling deadline) (.probeReturns c outcome)
        (.returned (classifyReadiness outcome))
  | again {deadline : ℚ} {outcome : ProbeOutcome} : outcome ≠ .modelsAvailable →
      now < deadline →
      Drives c now (.polling deadline) (.probeReturns c outcome) (.sleeping deadline)
  | wake {deadline : ℚ} : Drives c now (.sleeping deadline) (.wake c) (.polling deadline)

namespace Readiness

variable {cfg : Lifecycle} {s s' : Readiness} {c : Nat} {call : EnsureReady} {a : ReadyAction}
  {deadline : ℚ} {outcome : ProbeOutcome}

/-- The call `c` goes on to an await, at an instant. -/
structure GoesTo (c : Nat) (s : Readiness) (now : ℚ) (call : EnsureReady) (s' : Readiness) :
    Prop where
  calls : s'.calls = Function.update s.calls c (some call)
  clock : s'.clock = now

theorem afterProbe_drives (hctl : cfg.controller = true) :
    ∃ call, GoesTo c s s.clock call (s.afterProbe cfg c deadline outcome) ∧
      Drives c s.clock (.probing deadline) (.probeReturns c outcome) call := by
  by_cases ho : outcome = .modelsAvailable
  · subst ho
    rw [afterProbe, if_pos (.inl rfl)]
    exact ⟨_, ⟨rfl, rfl⟩, .serving⟩
  · have hn : ¬ (classifyReadiness outcome = .ready ∨ cfg.controller = false) := by
      rw [classifyReadiness_eq_ready, hctl]
      simp [ho]
    rw [afterProbe, if_neg hn]
    exact ⟨_, ⟨rfl, rfl⟩, .cold ho⟩

theorem afterStatus_drives (result : Except Str ContainerState) :
    ∃ call, GoesTo c s s.clock call (s.afterStatus c deadline result) ∧
      Drives c s.clock (.status deadline) (.statusReturns c result) call := by
  match result with
  | .error exc => exact ⟨_, ⟨rfl, rfl⟩, .statusFails⟩
  | .ok .absent => exact ⟨_, ⟨rfl, rfl⟩, .absent⟩
  | .ok .stopped => exact ⟨_, ⟨rfl, rfl⟩, .stopped⟩
  | .ok .running => exact ⟨_, ⟨rfl, rfl⟩, .running⟩

theorem afterStart_drives (result : Except Str Unit) :
    ∃ call, GoesTo c s s.clock call (s.afterStart c deadline result) ∧
      Drives c s.clock (.starting deadline) (.startReturns c result) call := by
  match result with
  | .error exc => exact ⟨_, ⟨rfl, rfl⟩, .startFails⟩
  | .ok () => exact ⟨_, ⟨rfl, rfl⟩, .started⟩

variable (cfg) in
theorem afterPoll_drives :
    ∃ call, GoesTo c s s.clock call (s.afterPoll cfg c deadline outcome) ∧
      Drives c s.clock (.polling deadline) (.probeReturns c outcome) call := by
  by_cases ho : outcome = .modelsAvailable
  · subst ho
    exact ⟨_, ⟨rfl, rfl⟩, .up⟩
  · have hn : classifyReadiness outcome ≠ .ready := mt classifyReadiness_eq_ready.mp ho
    simp only [afterPoll, if_neg hn]
    by_cases hd : deadline ≤ s.clock
    · rw [if_pos (show deadline ≤ (s.note _).clock from hd)]
      refine ⟨_, ?_, .expired ho hd⟩
      cases outcome with
      | modelsAvailable => exact absurd rfl ho
      | _ => exact ⟨rfl, rfl⟩
    · rw [if_neg (show ¬ deadline ≤ (s.note _).clock from hd)]
      exact ⟨_, ⟨rfl, rfl⟩, .again ho (not_le.mp hd)⟩

variable (cfg) in
theorem ensureReady_calls {later : ℚ} :
    ∃ call, GoesTo c s later call (s.ensureReady cfg c later) := by
  simp only [ensureReady]
  split
  · exact ⟨_, congrArg (Function.update · c _) armIdle_calls, armIdle_clock⟩
  · exact ⟨_, congrArg (Function.update · c _) armIdle_calls, armIdle_clock⟩

variable (cfg) in
theorem driveReadiness_calls {later : ℚ} (hl : s.clock ≤ later) : ∃ now call,
    GoesTo c s now call (s.driveReadiness cfg c later) ∧ s.clock ≤ now := by
  simp only [driveReadiness]
  split
  · exact ⟨_, _, ⟨rfl, rfl⟩, le_refl _⟩
  · exact ⟨_, _, ⟨rfl, rfl⟩, hl⟩

theorem GoesTo.elsewhere {c' : Nat} {now : ℚ} (h : GoesTo c' s now call s') (hl : s.clock ≤ now)
    (hs : some c' ≠ some c) : s'.calls c = s.calls c ∧ s.clock ≤ s'.clock := by
  refine ⟨?_, h.clock ▸ hl⟩
  rw [h.calls, Function.update_of_ne fun e => hs (by rw [e])]

/-- What happens elsewhere leaves the call where it is, and the clock goes on. -/
theorem Step.elsewhere (hctl : cfg.controller = true) (h : Step cfg s a s')
    (hs : a.subject? ≠ some c) : s'.calls c = s.calls c ∧ s.clock ≤ s'.clock := by
  cases h with
  | tick ht => exact ⟨rfl, ht⟩
  | call _ hl =>
    obtain ⟨call, hg⟩ := ensureReady_calls cfg (s := s)
    exact hg.elsewhere hl hs
  | acquire _ _ hl =>
    obtain ⟨now, call, hg, hn⟩ := driveReadiness_calls cfg hl
    exact hg.elsewhere hn hs
  | firstProbe _ =>
    obtain ⟨call, hg, -⟩ := afterProbe_drives (s := s) hctl
    exact hg.elsewhere (le_refl _) hs
  | poll _ =>
    obtain ⟨call, hg, -⟩ := afterPoll_drives cfg (s := s)
    exact hg.elsewhere (le_refl _) hs
  | statusReturns _ =>
    obtain ⟨call, hg, -⟩ := afterStatus_drives (s := s) _
    exact hg.elsewhere (le_refl _) hs
  | startReturns _ =>
    obtain ⟨call, hg, -⟩ := afterStart_drives (s := s) _
    exact hg.elsewhere (le_refl _) hs
  | wake _ => exact GoesTo.elsewhere ⟨rfl, rfl⟩ (le_refl _) hs
  | abortWaiting _ | abortDrive _ _ =>
    exact ⟨Function.update_of_ne (fun e => hs (by rw [e]; rfl)) _ _, le_refl _⟩
  | startIdleMonitor => exact ⟨by rw [armIdle_calls], le_of_eq armIdle_clock.symm⟩
  | idleWake _ _ =>
    unfold idleLoop
    dsimp only
    split
    · exact ⟨rfl, le_refl _⟩
    · exact ⟨rfl, le_refl _⟩
  | idleStatus _ =>
    unfold maybeIdleDown
    dsimp only
    split
    · exact ⟨rfl, le_refl _⟩
    · split
      · exact ⟨rfl, le_refl _⟩
      · exact ⟨rfl, le_refl _⟩
  | _ => exact ⟨rfl, le_refl _⟩

/-- The first probe begins when the deadline has been fixed. -/
theorem Step.acquired {t₀ : ℚ} (h : Step cfg s (.acquire c t₀) s')
    (hc : s'.calls c = some (.probing deadline)) : t₀ ≤ s'.clock := by
  cases h with
  | acquire _ _ _ =>
    simp only [driveReadiness] at hc ⊢
    split at hc
    · cases (Function.update_self ..).symm.trans hc
    · exact le_refl _

/-- What an action does to a drive: it happens elsewhere, it ends the drive with an exception, or
the call goes on. -/
theorem Step.drive (hctl : cfg.controller = true) (h : Step cfg s a s')
    (hc : s.calls c = some call) (hd : call.driving = true) :
    (a.subject? ≠ some c ∧ s'.calls c = s.calls c ∧ s.clock ≤ s'.clock) ∨
    (a = .abort c ∧ s'.calls c = none) ∨
    ∃ call', a.resumed? = some c ∧ GoesTo c s s.clock call' s' ∧ Drives c s.clock call a call' := by
  by_cases hs : a.subject? = some c
  · right
    cases h with
    | call hn _ =>
      cases hs
      have := hn call hc
      cases call <;> simp [EnsureReady.driving, EnsureReady.over] at hd this
    | acquire hw _ _ => cases hs; cases hc.symm.trans hw; cases hd
    | abortWaiting hw => cases hs; cases hc.symm.trans hw; cases hd
    | abortDrive _ _ => cases hs; exact .inl ⟨rfl, Function.update_self ..⟩
    | firstProbe hw =>
      cases hs
      cases hc.symm.trans hw
      obtain ⟨call', hg, hdr⟩ := afterProbe_drives (s := s) hctl
      exact .inr ⟨call', rfl, hg, hdr⟩
    | poll hw =>
      cases hs
      cases hc.symm.trans hw
      obtain ⟨call', hg, hdr⟩ := afterPoll_drives cfg (s := s)
      exact .inr ⟨call', rfl, hg, hdr⟩
    | statusReturns hw =>
      cases hs
      cases hc.symm.trans hw
      obtain ⟨call', hg, hdr⟩ := afterStatus_drives (s := s) _
      exact .inr ⟨call', rfl, hg, hdr⟩
    | startReturns hw =>
      cases hs
      cases hc.symm.trans hw
      obtain ⟨call', hg, hdr⟩ := afterStart_drives (s := s) _
      exact .inr ⟨call', rfl, hg, hdr⟩
    | wake hw =>
      cases hs
      cases hc.symm.trans hw
      exact .inr ⟨_, rfl, ⟨rfl, rfl⟩, .wake⟩
    | _ => cases hs
  · exact .inl ⟨hs, h.elsewhere hctl hs⟩

end Readiness

section
variable {cfg : Lifecycle} {c : Nat} {x x' : Readiness × Drive} {a : ReadyAction}
  {call : EnsureReady}

theorem coldPath_step (hctl : cfg.controller = true)
    (h : (coldPath cfg c).step x a = some x') : ∃ call, x.1.calls c = some call ∧
    ((x'.1.calls c = some call ∧ x'.2 = x.2 ∧ x.1.clock ≤ x'.1.clock) ∨
      (x'.1.calls c = none ∧ x'.2 = x.2) ∨
      ∃ call', x'.1.calls c = some call' ∧ x'.1.clock = x.1.clock ∧
        x'.2 = x.2.goesOn x.1.clock a call' ∧ Drives c x.1.clock call a call') := by
  simp only [coldPath, Option.ite_none_right_eq_some] at h
  obtain ⟨⟨call, hc, hd⟩, h⟩ := h
  obtain ⟨s', hs, rfl⟩ := Option.map_eq_some_iff.mp h
  refine ⟨call, hc, ?_⟩
  obtain ⟨hsub, hc', hcl⟩ | ⟨rfl, hc'⟩ | ⟨call', hr, hg, hdr⟩ :=
    (Readiness.step_inv hs).drive hctl hc hd
  · refine .inl ⟨hc'.trans hc, ?_, hcl⟩
    have hr : a.resumed? ≠ some c := fun h => hsub (by cases a <;> first | exact h | cases h)
    rw [Drive.watch, hc', hc]
    exact if_neg hr
  · refine .inr (.inl ⟨hc', ?_⟩)
    rw [Drive.watch, hc']
  · have hcall : s'.calls c = some call' := by rw [hg.calls, Function.update_self]
    refine .inr (.inr ⟨call', hcall, hg.clock, ?_, hdr⟩)
    rw [Drive.watch, hcall, ← hg.clock]
    exact if_pos hr

/-! ## A paced drive -/

/-- The most probes that a drive makes. -/
def probesBound (cfg : Lifecycle) : Nat := ⌈cfg.readinessTimeout / cfg.pollSeconds⌉₊ + 2

/-- Where a paced drive is (module doc). -/
def Course (cfg : Lifecycle) (c : Nat) (d : Drive) : EnsureReady → Prop
  | .waiting => False
  | .probing deadline => deadline = d.began + cfg.readinessTimeout ∧ d.probes = 1 ∧ d.resumed = 0
  | .status deadline => deadline = d.began + cfg.readinessTimeout ∧ d.probes = 1 ∧ d.resumed = 1 ∧
      d.outcome ≠ some .modelsAvailable
  | .starting deadline => deadline = d.began + cfg.readinessTimeout ∧ d.probes = 1 ∧
      d.resumed = 2 ∧ d.outcome ≠ some .modelsAvailable
  | .polling deadline => deadline = d.began + cfg.readinessTimeout ∧ ∃ sleeps : Nat,
      d.probes = sleeps + 2 ∧ d.resumed ≤ 2 * sleeps + 3 ∧
      d.began + sleeps * cfg.pollSeconds ≤ d.since ∧
      (sleeps - 1 : ℚ) * cfg.pollSeconds < cfg.readinessTimeout
  | .sleeping deadline => deadline = d.began + cfg.readinessTimeout ∧ ∃ sleeps : Nat,
      d.probes = sleeps + 2 ∧ d.resumed ≤ 2 * sleeps + 4 ∧
      d.began + sleeps * cfg.pollSeconds ≤ d.since ∧ d.since < deadline
  | .returned state => d.probes ≤ probesBound cfg ∧ d.resumed ≤ 2 * d.probes + 1 ∧
      (state = .ready ↔ d.outcome = some .modelsAvailable) ∧ (state ≠ .ready → GivenUp cfg c d)

/-- As many sleeps as fit in the time make as many probes. -/
theorem sleeps_le (hp : 0 < cfg.pollSeconds) {sleeps : Nat}
    (h : (sleeps - 1 : ℚ) * cfg.pollSeconds < cfg.readinessTimeout) :
    sleeps + 2 ≤ probesBound cfg := by
  have hlt : (sleeps : ℚ) < ⌈cfg.readinessTimeout / cfg.pollSeconds⌉₊ + 1 := by
    have h₁ : (sleeps - 1 : ℚ) < cfg.readinessTimeout / cfg.pollSeconds := (lt_div_iff₀ hp).mpr h
    have h₂ := Nat.le_ceil (cfg.readinessTimeout / cfg.pollSeconds)
    linarith
  have : sleeps < ⌈cfg.readinessTimeout / cfg.pollSeconds⌉₊ + 1 := by exact_mod_cast hlt
  unfold probesBound
  omega

theorem Course.bound (hp : 0 < cfg.pollSeconds) {d : Drive} (h : Course cfg c d call) :
    d.probes ≤ probesBound cfg ∧ d.resumed ≤ 2 * probesBound cfg + 1 := by
  have two : 2 ≤ probesBound cfg := Nat.le_add_left ..
  cases call with
  | waiting => exact h.elim
  | probing _ => obtain ⟨-, h, h'⟩ := h; omega
  | status _ | starting _ => obtain ⟨-, h, h', -⟩ := h; omega
  | polling _ =>
    obtain ⟨-, sleeps, h, h', -, hlt⟩ := h
    have := sleeps_le hp hlt
    omega
  | sleeping _ =>
    obtain ⟨rfl, sleeps, h, h', hle, hlt⟩ := h
    have : (sleeps - 1 : ℚ) * cfg.pollSeconds < cfg.readinessTimeout := by linarith
    have := sleeps_le hp this
    omega
  | returned _ => obtain ⟨h, h', -⟩ := h; omega

/-- The invariant of a paced drive. -/
structure Coursing (cfg : Lifecycle) (c : Nat) (x : Readiness × Drive) : Prop where
  bound : x.2.probes ≤ probesBound cfg ∧ x.2.resumed ≤ 2 * probesBound cfg + 1
  course : ∀ call, x.1.calls c = some call → Course cfg c x.2 call
  began : x.2.began ≤ x.2.since
  since : ∀ call, x.1.calls c = some call → x.2.since ≤ x.1.clock

/-- The end of an await keeps a drive on its course. -/
theorem Course.goesOn (hT : 0 < cfg.readinessTimeout) (hp : 0 < cfg.pollSeconds) {d : Drive}
    {now : ℚ} {call' : EnsureReady} (h : Course cfg c d call) (hdr : Drives c now call a call')
    (hb : d.began ≤ d.since) (hn : d.since ≤ now)
    (hw : a = .wake c → cfg.pollSeconds ≤ now - d.since) :
    Course cfg c (d.goesOn now a call') call' := by
  have two : 2 ≤ probesBound cfg := Nat.le_add_left ..
  have hnow := hb.trans hn
  -- the first probe under `_poll_until_ready`
  have first : ∀ {deadline r}, deadline = d.began + cfg.readinessTimeout → d.probes = 1 →
      d.resumed = r → r ≤ 2 → Course cfg c (d.goesOn now a (.polling deadline)) (.polling deadline) :=
    fun hd h₁ h₂ h₃ => ⟨hd, 0, by simp [Drive.goesOn, EnsureReady.asks, h₁],
      by simp only [Drive.goesOn]; omega, by simpa [Drive.goesOn] using hnow,
      by push_cast; linarith⟩
  cases hdr with
  | serving =>
    obtain ⟨-, h₁, h₂⟩ := h
    refine ⟨?_, ?_, iff_of_true rfl rfl, fun h => absurd rfl h⟩
    all_goals simp only [Drive.goesOn, EnsureReady.asks]; simp; omega
  | cold ho =>
    obtain ⟨hd, h₁, h₂⟩ := h
    refine ⟨hd, h₁, by simp [Drive.goesOn, h₂], ?_⟩
    simpa [Drive.goesOn, ReadyAction.outcome?] using ho
  | absent =>
    obtain ⟨-, h₁, h₂, h₃⟩ := h
    refine ⟨?_, ?_, iff_of_false (by decide) h₃, fun _ => .inl rfl⟩
    all_goals simp only [Drive.goesOn, EnsureReady.asks]; simp; omega
  | statusFails =>
    obtain ⟨-, h₁, h₂, h₃⟩ := h
    refine ⟨?_, ?_, iff_of_false (by decide) h₃, fun _ => .inr (.inl ⟨_, .inl rfl⟩)⟩
    all_goals simp only [Drive.goesOn, EnsureReady.asks]; simp; omega
  | stopped =>
    obtain ⟨hd, h₁, h₂, h₃⟩ := h
    exact ⟨hd, h₁, by simp [Drive.goesOn, h₂], h₃⟩
  | running =>
    obtain ⟨hd, h₁, h₂, -⟩ := h
    exact first hd h₁ h₂ (by omega)
  | startFails =>
    obtain ⟨-, h₁, h₂, h₃⟩ := h
    refine ⟨?_, ?_, iff_of_false (by decide) h₃, fun _ => .inr (.inl ⟨_, .inr rfl⟩)⟩
    all_goals simp only [Drive.goesOn, EnsureReady.asks]; simp; omega
  | started =>
    obtain ⟨hd, h₁, h₂, -⟩ := h
    exact first hd h₁ h₂ (by omega)
  | up =>
    obtain ⟨-, sleeps, h₁, h₂, -, hlt⟩ := h
    have := sleeps_le hp hlt
    refine ⟨?_, ?_, iff_of_true rfl rfl, fun h => absurd rfl h⟩
    all_goals simp only [Drive.goesOn, EnsureReady.asks]; simp; omega
  | expired ho hle =>
    obtain ⟨hd, sleeps, h₁, h₂, -, hlt⟩ := h
    have := sleeps_le hp hlt
    refine ⟨?_, ?_, iff_of_false (mt Readiness.classifyReadiness_eq_ready.mp ho) ?_,
      fun _ => .inr (.inr ?_)⟩
    · simp only [Drive.goesOn, EnsureReady.asks]; simp; omega
    · simp only [Drive.goesOn, EnsureReady.asks]; simp; omega
    · simpa [Drive.goesOn, ReadyAction.outcome?] using ho
    · exact hd ▸ hle
  | again ho hlt' =>
    obtain ⟨hd, sleeps, h₁, h₂, hle, -⟩ := h
    exact ⟨hd, sleeps, h₁, by simp only [Drive.goesOn]; omega, hle.trans hn, hlt'⟩
  | wake =>
    obtain ⟨hd, sleeps, h₁, h₂, hle, hlt⟩ := h
    have := hw rfl
    refine ⟨hd, sleeps + 1, ?_, ?_, ?_, ?_⟩
    · simp [Drive.goesOn, EnsureReady.asks, h₁]
    · simp only [Drive.goesOn]; omega
    · simp only [Drive.goesOn]; push_cast; linarith
    · push_cast; linarith

theorem Coursing.step (hT : 0 < cfg.readinessTimeout) (hp : 0 < cfg.pollSeconds)
    (hctl : cfg.controller = true) (hi : Coursing cfg c x) (hpace : Paced cfg.pollSeconds c x a)
    (h : (coldPath cfg c).step x a = some x') : Coursing cfg c x' := by
  obtain ⟨call, hc, ⟨hc', hd, hcl⟩ | ⟨hc', hd⟩ | ⟨call', hc', hcl, hd, hdr⟩⟩ :=
    coldPath_step hctl h
  · refine ⟨by rw [hd]; exact hi.bound, fun call' h => ?_, by rw [hd]; exact hi.began,
      fun call' h => ?_⟩
    · cases hc'.symm.trans h
      rw [hd]
      exact hi.course _ hc
    · rw [hd]
      exact (hi.since _ hc).trans hcl
  · refine ⟨by rw [hd]; exact hi.bound, fun call' h => ?_, by rw [hd]; exact hi.began,
      fun call' h => ?_⟩
    · cases hc'.symm.trans h
    · cases hc'.symm.trans h
  · have hcourse : Course cfg c x'.2 call' := by
      rw [hd]
      exact (hi.course _ hc).goesOn hT hp hdr hi.began (hi.since _ hc) hpace
    refine ⟨hcourse.bound hp, fun call₂ h => ?_, ?_, fun call₂ h => ?_⟩
    · cases hc'.symm.trans h
      exact hcourse
    · rw [hd]
      exact hi.began.trans (hi.since _ hc)
    · rw [hd, hcl]
      exact le_refl _

theorem Coursing.init (h : (coldPath cfg c).init x) : Coursing cfg c x := by
  obtain ⟨s, t₀, hs, hc, hd⟩ := h
  have hclock : t₀ ≤ x.1.clock := (Readiness.step_inv hs).acquired hc
  have hcourse : Course cfg c x.2 (.probing (t₀ + cfg.readinessTimeout)) := by
    rw [hd]
    exact ⟨rfl, rfl, rfl⟩
  refine ⟨?_, fun call h => ?_, by rw [hd], fun call h => by rw [hd]; exact hclock⟩
  · rw [hd]
    exact ⟨Nat.le_add_left 1 _, Nat.zero_le _⟩
  · cases hc.symm.trans h
    exact hcourse

/-! ## A timely drive -/

/-- When a timely drive is where it is (module doc). -/
def Punctual (cfg : Lifecycle) (P S : ℚ) (d : Drive) : EnsureReady → Prop
  | .waiting => False
  | .probing _ => d.since ≤ d.began
  | .status _ => 0 ≤ P ∧ d.since ≤ d.began + P
  | .starting _ => 0 ≤ P ∧ d.since ≤ d.began + P + S
  | .polling _ => 0 ≤ P ∧ (d.since ≤ d.began + P + 2 * S ∨
      d.since ≤ d.began + cfg.readinessTimeout + cfg.pollSeconds)
  | .sleeping _ => 0 ≤ P ∧ d.since ≤ d.began + cfg.readinessTimeout
  | .returned _ => d.since ≤ max (d.began + 2 * P + 2 * S)
      (d.began + cfg.readinessTimeout + cfg.pollSeconds + P)

theorem Timely.paced {P S : ℚ} (h : Timely P S cfg.pollSeconds c x a) :
    Paced cfg.pollSeconds c x a := by
  rintro rfl
  exact le_of_eq (h rfl).symm

theorem Punctual.goesOn {P S : ℚ} (hT : 0 < cfg.readinessTimeout) (hp : 0 < cfg.pollSeconds)
    {call' : EnsureReady} (h : Punctual cfg P S x.2 call) (hcourse : Course cfg c x.2 call)
    (hdr : Drives c x.1.clock call a call')
    (hn : x.2.since ≤ x.1.clock) (ht : Timely P S cfg.pollSeconds c x a) :
    Punctual cfg P S (x.2.goesOn x.1.clock a call') call' := by
  cases hdr with
  | serving =>
    have := ht rfl
    exact le_max_of_le_right (by simp only [Punctual, Drive.goesOn] at h ⊢; linarith)
  | cold _ =>
    have := ht rfl
    simp only [Punctual, Drive.goesOn] at h ⊢
    constructor
    · linarith
    · linarith
  | absent | statusFails =>
    have := ht rfl
    obtain ⟨hP, h⟩ := h
    exact le_max_of_le_left (by simp only [Drive.goesOn]; linarith)
  | stopped =>
    have := ht rfl
    obtain ⟨hP, h⟩ := h
    exact ⟨hP, by simp only [Drive.goesOn]; linarith⟩
  | running =>
    have := ht rfl
    obtain ⟨hP, h⟩ := h
    exact ⟨hP, .inl (by simp only [Drive.goesOn]; linarith)⟩
  | startFails =>
    have := ht rfl
    obtain ⟨hP, h⟩ := h
    exact le_max_of_le_left (by simp only [Drive.goesOn]; linarith)
  | started =>
    have := ht rfl
    obtain ⟨hP, h⟩ := h
    exact ⟨hP, .inl (by simp only [Drive.goesOn]; linarith)⟩
  | up | expired _ _ =>
    have := ht rfl
    obtain ⟨hP, h | h⟩ := h
    · exact le_max_of_le_left (by simp only [Drive.goesOn]; linarith)
    · exact le_max_of_le_right (by simp only [Drive.goesOn]; linarith)
  | again _ hlt =>
    obtain ⟨rfl, -⟩ := hcourse
    exact ⟨h.1, hlt.le⟩
  | wake =>
    have := ht rfl
    obtain ⟨hP, h⟩ := h
    exact ⟨hP, .inr (by simp only [Drive.goesOn]; linarith)⟩

theorem punctual_step {P S : ℚ} (hT : 0 < cfg.readinessTimeout) (hp : 0 < cfg.pollSeconds)
    (hctl : cfg.controller = true) (hi : Coursing cfg c x)
    (hpu : ∀ call, x.1.calls c = some call → Punctual cfg P S x.2 call)
    (ht : Timely P S cfg.pollSeconds c x a) (h : (coldPath cfg c).step x a = some x')
    (call' : EnsureReady) (hcall : x'.1.calls c = some call') : Punctual cfg P S x'.2 call' := by
  obtain ⟨call, hc, ⟨hc', hd, -⟩ | ⟨hc', -⟩ | ⟨call₂, hc', -, hd, hdr⟩⟩ := coldPath_step hctl h
  · cases hc'.symm.trans hcall
    rw [hd]
    exact hpu _ hc
  · cases hc'.symm.trans hcall
  · cases hc'.symm.trans hcall
    rw [hd]
    exact (hpu _ hc).goesOn hT hp (hi.course _ hc) hdr (hi.since _ hc) ht

/-! ## Its end -/

theorem goesOn_of_inDrive {s : Readiness} (h : InDrive c s) : KeepsGoing cfg c s := by
  obtain ⟨call, hc, hd⟩ := h
  unfold KeepsGoing
  cases call with
  | waiting | returned _ => cases hd
  | _ => simp [hc, Readiness.step]

end

/-- A paced drive, and a timely one, at any point of it. -/
structure Bounded (cfg : Lifecycle) (c : Nat) : Prop where
  probes : ∀ x, (coldPath cfg c).Reach (Paced cfg.pollSeconds c) x →
    x.2.probes ≤ ⌈cfg.readinessTimeout / cfg.pollSeconds⌉₊ + 2
  /-- Its awaits are no more, and none of them is its last unless it returns. -/
  awaits : ∀ x, (coldPath cfg c).Reach (Paced cfg.pollSeconds c) x →
    x.2.resumed ≤ 2 * (⌈cfg.readinessTimeout / cfg.pollSeconds⌉₊ + 2) + 1 ∧
      (InDrive c x.1 → KeepsGoing cfg c x.1)
  ready : ∀ x state, (coldPath cfg c).Reach (Paced cfg.pollSeconds c) x →
    x.1.calls c = some (.returned state) → (state = .ready ↔ x.2.outcome = some .modelsAvailable)
  gaveUp : ∀ x state, (coldPath cfg c).Reach (Paced cfg.pollSeconds c) x →
    x.1.calls c = some (.returned state) → state ≠ .ready → GivenUp cfg c x.2
  returns : ∀ P S x state, (coldPath cfg c).Reach (Timely P S cfg.pollSeconds c) x →
    x.1.calls c = some (.returned state) →
    x.2.since ≤ max (x.2.began + 2 * P + 2 * S)
      (x.2.began + cfg.readinessTimeout + cfg.pollSeconds + P)

theorem cold_path_bounded (cfg : Lifecycle) (c : Nat) (hT : 0 < cfg.readinessTimeout)
    (hp : 0 < cfg.pollSeconds) (hctl : cfg.controller = true) : Bounded cfg c := by
  have hcoursing : ∀ x, (coldPath cfg c).Reach (Paced cfg.pollSeconds c) x → Coursing cfg c x :=
    fun x h => h.invariant (fun _ h => .init h) fun _ _ _ hi hpace hst =>
      hi.step hT hp hctl hpace hst
  constructor
  case probes => exact fun x h => (hcoursing x h).bound.1
  case awaits => exact fun x h => ⟨(hcoursing x h).bound.2, goesOn_of_inDrive⟩
  case ready => exact fun x state h hc => ((hcoursing x h).course _ hc).2.2.1
  case gaveUp => exact fun x state h hc => ((hcoursing x h).course _ hc).2.2.2
  case returns =>
    intro P S x state h hc
    have hi : Coursing cfg c x ∧
        ∀ call, x.1.calls c = some call → Punctual cfg P S x.2 call := by
      refine h.invariant (I := fun x => Coursing cfg c x ∧
          ∀ call, x.1.calls c = some call → Punctual cfg P S x.2 call)
        (fun x hx => ⟨.init hx, fun call hc => ?_⟩) fun x a x' hi ht hst =>
          ⟨hi.1.step hT hp hctl ht.paced hst, punctual_step hT hp hctl hi.1 hi.2 ht hst⟩
      obtain ⟨s, t₀, -, hc', hd⟩ := hx
      cases hc'.symm.trans hc
      rw [hd]
      exact le_refl _
    exact hi.2 _ hc

namespace Sample

def paced (x : Music3.Readiness × Drive) : ReadyAction → Bool
  | .wake _ => 3 ≤ x.1.clock - x.2.since
  | _ => true

theorem paced_sound (x : Music3.Readiness × Drive) (a : ReadyAction) (h : paced x a = true) :
    Paced 3 0 x a := by
  rintro rfl
  exact of_decide_eq_true h

/-- A call at its first probe. -/
def probing : Music3.Readiness := (cold.await 0 .waiting).driveReadiness lifecycle 0 0

theorem probing_init : (coldPath lifecycle 0).init (probing, { began := 0, since := 0 }) :=
  ⟨cold.await 0 .waiting, 0, rfl, rfl, rfl⟩

/-- The engine comes up three seconds after its start. -/
def comesUp : List ReadyAction :=
  [.probeReturns 0 .unreachable, .statusReturns 0 (.ok .stopped), .startReturns 0 (.ok ()),
    .probeReturns 0 .loading, .tick 3, .wake 0, .probeReturns 0 .modelsAvailable]

theorem comesUp_run : ((coldPath lifecycle 0).runIf paced (probing, { began := 0, since := 0 })
    comesUp).map (fun x => (x.2.probes, x.2.since)) = some (3, 3) := by decide +kernel

end Sample

theorem cold_path_bounded_sample : ∃ x : Readiness × Drive, x.2.probes = 3 ∧ x.2.since = 3 ∧
    x.2.probes ≤ ⌈(180 : ℚ) / 3⌉₊ + 2 ∧ x.2.resumed ≤ 2 * (⌈(180 : ℚ) / 3⌉₊ + 2) + 1 := by
  obtain ⟨x, hrun, hx⟩ := Option.map_eq_some_iff.mp Sample.comesUp_run
  obtain ⟨hprobes, hsince⟩ := Prod.ext_iff.mp hx
  have h := cold_path_bounded Sample.lifecycle 0 (by decide +kernel) (by decide +kernel) rfl
  have hr := (Lts.Reach.init Sample.probing_init).path
    (Lts.path_of_runIf Sample.paced_sound hrun)
  exact ⟨x, hprobes, hsince, h.probes x hr, (h.awaits x hr).1⟩

end Music3
