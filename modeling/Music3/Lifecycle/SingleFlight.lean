import Music3.Lifecycle.ReadinessInv

/-!
# Single-flight cold start, and what `READY` stands on

`single_flight`: along every run at most one call drives the engine or the idle loop is about to
stop it; a start follows a failed probe and a stopped container in one hold of the lock; after a
start that has succeeded there is no further one until a stop, if the container then keeps running
(`KeepsRunning`); and `READY` is returned on a probe that no stop has overtaken.

A start that fails leaves the container stopped, and the next call issues another
(`failed_start_is_retried`): nothing bounds the starts between two stops but their success.
-/

namespace Music3

open Py History

/-- A start has succeeded, and nothing has been stopped since. -/
def Started : List ReadyObs → Prop :=
  Since (fun _ e => ∃ c, e = .startEnded c (.ok ())) fun e => e.isStop = false

/-- A start that succeeds keeps the container running until the next stop. -/
def KeepsRunning : List ReadyObs → Prop :=
  Each fun before e => ∀ h state, e = .statusRead h (.ok state) → Started before →
    state = .running

/-- At most one start is issued between two stops. -/
def OneStart : List ReadyObs → Prop :=
  Each fun before e => ∀ c, e = .startIssued c →
    ¬ Since (fun _ e => ∃ c', e = .startIssued c') (fun e => e.isStop = false) before

/-- No start is issued between one that has succeeded and the next stop. -/
def OneSuccess : List ReadyObs → Prop :=
  Each fun before e => ∀ c, e = .startIssued c → ¬ Started before

/-- A start that has succeeded would have been seen by the status that a start follows. -/
theorem ColdStart.not_started {c : Nat} {trace before after : List ReadyObs}
    (hk : KeepsRunning trace)
    (ht : trace = before ++ after) (hc : ColdStart c before) : ¬ Started before := by
  intro hs
  have hm := hc.meet hs
    (fun b e h => by rintro ⟨c', rfl⟩; cases h.1)
    (fun b e h => by rintro ⟨c', rfl⟩; cases h)
  obtain ⟨b, e, a, rfl, ⟨⟨rfl, -⟩, hb, -⟩, -⟩ := hm
  cases hk b _ (a ++ after) (by rw [ht, List.append_assoc, List.cons_append]) _ _ rfl hb

theorem single_flight (cfg : Lifecycle) (s : Readiness) (h : (readiness cfg).Reach Lts.always s) :
    (∀ h h', s.InProgress h → s.InProgress h' → h = h') ∧
    Each (fun before e => ∀ c, e = .startIssued c → ColdStart c before) s.trace ∧
    (KeepsRunning s.trace → OneSuccess s.trace) ∧
    Each (fun before e => ∀ c t, e = .returned c .ready t → Backed cfg c t before) s.trace := by
  have hi := Readiness.inv_reach h
  have hcold : Each (fun before e => ∀ c, e = .startIssued c → ColdStart c before) s.trace :=
    hi.lawful.mono fun before e h c he => by subst he; exact h
  refine ⟨hi.exclusive, hcold, fun hk before e after ht c he => ?_,
    hi.lawful.mono fun before e h c t he => by subst he; exact h⟩
  exact (hcold before e after ht c he).not_started hk ht

/-! ## Sample runs -/

namespace Sample

def lifecycle : Lifecycle where
  cacheSeconds := 5
  readinessTimeout := 180
  idleInterval := 600
  pollSeconds := 3
  controller := true

def cold : Music3.Readiness := { clock := 0, lastActivity := 0 }

theorem cold_init : (readiness lifecycle).init cold := ⟨0, rfl⟩

/-- The call `c` finds the engine stopped and starts it. -/
def coldCall (c : Nat) (result : Except Str Unit) : List ReadyAction :=
  [.call c 0, .acquire c 0, .probeReturns c .unreachable, .statusReturns c (.ok .stopped),
    .startReturns c result]

/-- What a call has done that has not been able to start the engine. -/
def failedTrace (c : Nat) (exc : Str) : List ReadyObs :=
  [.called c, .acquired (.caller c), .probed c .unreachable 0,
    .statusRead (.caller c) (.ok .stopped), .startIssued c, .startEnded c (.error exc),
    .released (.caller c), .returned c .unavailable 0]

theorem failed_run : ((readiness lifecycle).run cold
    (coldCall 0 (.error []) ++ coldCall 1 (.error []))).map Readiness.trace =
      some (failedTrace 0 [] ++ failedTrace 1 []) := rfl

end Sample

/-- Two calls, each of which is refused its start, with no stop between them. -/
theorem failed_start_is_retried : ∃ s, (readiness Sample.lifecycle).Reach Lts.always s ∧
    KeepsRunning s.trace ∧ ¬ OneStart s.trace := by
  obtain ⟨s, hrun, ht⟩ := Option.map_eq_some_iff.mp Sample.failed_run
  refine ⟨s, (Lts.Reach.init Sample.cold_init).path (Lts.path_of_run hrun), ?_, fun ho => ?_⟩
  · -- no start has succeeded
    rintro before e after he h state - ⟨b, x, a, rfl, ⟨c, rfl⟩, -⟩
    have hx : ReadyObs.startEnded c (.ok ()) ∈ s.trace := by rw [he]; simp
    rw [ht] at hx
    simp [Sample.failedTrace] at hx
  · refine ho (Sample.failedTrace 0 [] ++ (Sample.failedTrace 1 []).take 4) (.startIssued 1)
      ((Sample.failedTrace 1 []).drop 5) ht 1 rfl ?_
    refine ⟨(Sample.failedTrace 0 []).take 4, .startIssued 0,
      (Sample.failedTrace 0 []).drop 5 ++ (Sample.failedTrace 1 []).take 4, rfl, ⟨0, rfl⟩, ?_⟩
    simp [Sample.failedTrace, ReadyObs.isStop]

namespace Sample

/-- A call that starts the engine. -/
def startedTrace : List ReadyObs :=
  [.called 0, .acquired (.caller 0), .probed 0 .unreachable 0,
    .statusRead (.caller 0) (.ok .stopped), .startIssued 0, .startEnded 0 (.ok ()),
    .probed 0 .modelsAvailable 0, .released (.caller 0), .returned 0 .ready 0]

theorem started_run : ((readiness lifecycle).run cold
    (coldCall 0 (.ok ()) ++ [.probeReturns 0 .modelsAvailable])).map Readiness.trace =
      some startedTrace := rfl

end Sample

theorem single_flight_cold_start : ∃ s : Readiness, s.trace = Sample.startedTrace ∧
    (KeepsRunning s.trace → OneSuccess s.trace) ∧
    Each (fun before e => ∀ c t, e = .returned c .ready t →
      Backed Sample.lifecycle c t before) s.trace := by
  obtain ⟨s, hrun, ht⟩ := Option.map_eq_some_iff.mp Sample.started_run
  have h := single_flight Sample.lifecycle s
    ((Lts.Reach.init Sample.cold_init).path (Lts.path_of_run hrun))
  exact ⟨s, ht, h.2.2⟩

end Music3
