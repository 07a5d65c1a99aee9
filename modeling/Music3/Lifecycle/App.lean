import Music3.Jobs.RunnerInv
import Music3.Lifecycle.ReadinessInv

/-!
# The worker and its readiness gate

The runner with a `Readiness` as its gate, as `create_app` wires them. The worker's `ensure_ready()`
is the call `workerCall` of the gate: it is made in the action in which `_process` reaches it, and
the action in which it returns goes on into `_process`, with no await between the two. The worker's
engine call is made under the gate's lease.

Other calls of `ensure_ready()` (`readiness (.call c _)` with another `c`) are allowed, in any
number.
-/

namespace Music3

open Py

/-- The call of `ensure_ready()` that the worker makes. -/
def workerCall : Nat := 0

/-- The worker waits for `ensure_ready()`. -/
def Worker.awaitsReady : Worker → Bool
  | atReady _ => true
  | _ => false

/-- The worker waits for its engine call. -/
def Worker.awaitsEngine : Worker → Bool
  | atEngine _ _ _ => true
  | _ => false

/-- An action of the runner alone: not the return of its gate, nor what happens inside the gate. -/
def Action.own {G : Type} : Action G → Bool
  | .readyReturns _ _ | .teardown | .gate _ => false
  | _ => true

/-- The call that an action resumes. -/
def ReadyAction.resumed? : ReadyAction → Option Nat
  | acquire c _ | probeReturns c _ | statusReturns c _ | startReturns c _ | wake c => some c
  | _ => none

/-- The call that an action is about. -/
def ReadyAction.subject? : ReadyAction → Option Nat
  | call c _ | abort c => some c
  | a => a.resumed?

/-- An action of the gate that the worker has no part in, or that resumes its call. -/
def ReadyAction.outer : ReadyAction → Bool
  | leaseEnter | leaseExit => false
  | call c _ | abort c => c ≠ workerCall
  | _ => true

/-- The runner with its gate (module doc). -/
abbrev App := Runner Readiness

inductive AppAction where
  /-- `later` and `now` are what the call of `ensure_ready()` reads and what `_process` reads after
  it, where the action comes to them. -/
  | runner (a : Action Readiness) (later : ℚ) (now : Str)
  | readiness (a : ReadyAction) (now : Str)
  /-- The `CancelledError` of `stop`, which also ends the call of `ensure_ready()`. -/
  | teardown

namespace App

variable (cfg : Config) (lc : Lifecycle)

/-- An action of the gate, and then of the worker if its call has returned. -/
def gateStep (s : App) (a : ReadyAction) (now : Str) : Option App :=
  (Readiness.step lc s.gate a).bind fun gate =>
    match s.worker, gate.calls workerCall with
    | .atReady _, some (.returned state) =>
      Runner.step cfg { s with gate } (.readyReturns state now)
    | _, _ => some { s with gate }

def step (s : App) : AppAction → Option App
  | .runner a later now =>
    if a.own then
      (Runner.step cfg s a).bind fun s' =>
        if s'.worker.awaitsReady ∧ ¬ s.worker.awaitsReady then
          gateStep cfg lc s' (.call workerCall later) now
        else some s'
    else none
  | .readiness a now =>
    if a.outer ∧ (a.resumed? = some workerCall → s.mustCancel = false) then
      gateStep cfg lc s a now
    else none
  | .teardown =>
    if s.worker.awaitsReady then
      (Readiness.step lc s.gate (.abort workerCall)).bind fun gate =>
        Runner.step cfg { s with gate } .teardown
    else Runner.step cfg s .teardown

/-- The leases that are held: the worker holds one while it waits for its engine call. -/
def leasesHeld (s : App) : Int := if s.worker.awaitsEngine then 1 else 0

end App

/-- The app as a labelled system. -/
def app (cfg : Config) (lc : Lifecycle) : Lts App AppAction where
  init s := (runner cfg).init s ∧ (readiness lc).init s.gate
  step := App.step cfg lc

end Music3
