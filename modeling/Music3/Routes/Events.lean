import Music3.Jobs.Story
import Music3.Lib.Follow
import Music3.Py.Header

/-!
# The event stream of a job, and a client that follows it

`Stream` is the generator `_event_stream` between two points where it waits: `resume` runs it to
the next one. Each time around its loop it takes a snapshot of the job's log (`eventsSince`) and
sends the events one by one; meanwhile the log may grow and drop events.

A `Listener` is one client of one job: it connects with the id of the last event that it has
received, is sent frames, and can be cut off at any time, with what is in flight lost.
`listening cfg job` is the runner together with such a client, in any interleaving.
-/

namespace Music3

open Py

/-! ## The stream -/

/-- `TERMINAL_EVENT_TYPES`. -/
def terminalEventTypes : List Str := [lit "succeeded", lit "failed", lit "cancelled"]

/-- `events_since`. -/
def eventsSince (log : List JobEvent) : Option Nat → List JobEvent
  | none => log
  | some lastId => log.filter fun event => lastId < event.id

/-- `_parse_last_event_id`. -/
def parseLastEventId : Option Bytes → Except JsonError (Option Nat)
  | none => .ok none
  | some raw => if isdigit raw then (intOf raw).map some else .ok none

/-- What a stream sends: `render_sse(event)`, or a comment line. -/
inductive Frame where
  | event (e : JobEvent)
  | heartbeat

def Frame.event? : Frame → Option JobEvent
  | event e => some e
  | heartbeat => none

/-- Where the generator waits: at the head of its loop (not yet started, or in the pause), after an
event with the rest of the snapshot, in `is_disconnected`, or after a heartbeat. -/
inductive Phase where
  | idle
  | sent (event : JobEvent) (rest : List JobEvent)
  | checking
  | beat
  | ended

/-- `_event_stream`. -/
structure Stream where
  lastId : Option Nat
  phase : Phase

namespace Stream

/-- The loop over the events of a snapshot. -/
def send (lastId : Option Nat) : List JobEvent → Option Frame × Stream
  | [] => (none, ⟨lastId, .checking⟩)
  | event :: rest => (some (.event event), ⟨some event.id, .sent event rest⟩)

/-- The generator up to the next point where it waits, with a frame if it sends one. `log` is what
`store.log` returns, `disconnected` what `is_disconnected` returns, and `due` whether a heartbeat
is due. -/
def resume (log : List JobEvent) (disconnected due : Bool) (s : Stream) :
    Option (Option Frame × Stream) :=
  match s.phase with
  | .idle => some (send s.lastId (eventsSince log s.lastId))
  | .sent event rest =>
    if terminalEventTypes.contains event.type then some (none, { s with phase := .ended })
    else some (send s.lastId rest)
  | .checking =>
    if disconnected then some (none, { s with phase := .ended })
    else if due then some (some .heartbeat, { s with phase := .beat })
    else some (none, { s with phase := .idle })
  | .beat => some (none, { s with phase := .idle })
  | .ended => none

/-- The events of the snapshot that are still to be sent. -/
def rest (s : Stream) : List JobEvent :=
  match s.phase with
  | .sent _ rest => rest
  | _ => []

end Stream

/-! ## The client -/

/-- A client of a job. -/
structure Listener where
  /-- The stream of the last connection. -/
  stream : Option Stream := none
  connected : Bool := false
  /-- What the stream has sent over this connection. -/
  sent : List Frame := []
  /-- What of this has not arrived. -/
  inFlight : List Frame := []
  /-- The events that have arrived, over all connections. -/
  received : List JobEvent := []

inductive Listen where
  | connect
  | disconnect
  | deliver
  /-- The server runs the generator, or what is left of it after the client is gone. -/
  | resume (disconnected due : Bool)

namespace Listener

/-- The header of a request: the id of the last event received, if there is one. -/
def header (l : Listener) : Option Bytes := l.received.getLast?.map fun e => decimal e.id

/-- The request `GET /jobs/{job_id}/events`: 404, or a fresh stream. -/
def connect (store : JobStore) (job : JobId) (l : Listener) : Listener :=
  match store.get job, parseLastEventId l.header with
  | .ok _, .ok lastId =>
    { l with stream := some ⟨lastId, .idle⟩, connected := true, sent := [], inFlight := [] }
  | _, _ => l

/-- A frame goes to the client if it is connected, and is lost otherwise. -/
def push (l : Listener) : Option Frame → Listener
  | none => l
  | some frame =>
    if l.connected then
      { l with sent := l.sent ++ [frame], inFlight := l.inFlight ++ [frame] }
    else l

/-- A step of the client of `job`, or of its stream. Only a client that is gone is seen to be. -/
def step (store : JobStore) (job : JobId) (l : Listener) : Listen → Option Listener
  | .connect => if l.connected then none else some (l.connect store job)
  | .disconnect => if l.connected then some { l with connected := false, inFlight := [] } else none
  | .deliver =>
    match l.inFlight with
    | [] => none
    | frame :: frames =>
      some { l with inFlight := frames, received := l.received ++ frame.event?.toList }
  | .resume disconnected due => do
    let stream ← l.stream
    if l.connected && disconnected then none
    else
      let log ← (store.log job).toOption
      let (frame, stream) ← stream.resume log disconnected due
      return { (l.push frame) with stream := some stream }

end Listener

/-- The runner, and a client that listens to `job`. -/
def listening {G : Type} [ReadinessGate G] (cfg : Config) (job : JobId) :
    Lts (Runner G × Listener) (Action G ⊕ Listen) where
  init s := (runner cfg).init s.1 ∧ s.2 = {}
  step s
    | .inl a => (s.1.step cfg a).map fun t => (t, s.2)
    | .inr a => (s.2.step s.1.store job a).map fun l => (s.1, l)

end Music3
