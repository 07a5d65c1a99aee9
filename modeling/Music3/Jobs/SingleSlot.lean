import Music3.Jobs.RunnerInv
import Music3.Lib.Fifo

/-!
# One slot, no lost and no doubled job

The runner is a `Server` (`Runner.server`): its queue is the line, the worker's job the slot, the
jobs that `_loop` has finished are served, and the engine calls are the started calls. Every move
of the runner is some moves of that server (`Move.server`), so it inherits the server's order of
arrival. Two more invariants are of the runner's own: `submit` is the only way into the line
(`Line`), and the engine is called only through the readiness gate (`Gated`).

`single_slot` is what follows for every reachable state.
-/

namespace Music3

open Py

namespace Obs

def submitted? : Obs → Option JobId
  | submitted job => some job
  | _ => none

def processed? : Obs → Option JobId
  | processed job => some job
  | _ => none

def started? : Obs → Option JobId
  | engineStarted job => some job
  | _ => none

end Obs

namespace Runner

variable {G : Type} (s : Runner G)

/-- The ids that `submit` has made, in order. -/
def submittedIds : List JobId := s.trace.filterMap Obs.submitted?

/-- The ids that `_loop` has finished, in order. -/
def processedIds : List JobId := s.trace.filterMap Obs.processed?

/-- The jobs of the engine calls that were started, in order. -/
def startedIds : List JobId := s.calls.map EngineCall.job

/-- The runner as a server (module doc). -/
def server : Server JobId where
  waiting := s.queue
  slot := s.worker.job?
  served := s.processedIds
  started := s.startedIds

/-- A trace in which the worker dequeued a job, then called `ensure_ready()` for it, and then got
`READY`. -/
def Cleared (job : JobId) (trace : List Obs) : Prop :=
  List.Sublist [.dequeued job, .readyCalled job, .readyReturned job .ready] trace

/-- Each start of an engine call has the readiness of its job before it. -/
def Gated (trace : List Obs) : Prop :=
  ∀ pre post job, trace = pre ++ .engineStarted job :: post → Cleared job pre

/-- The server is in order, the ids known to the store are the submitted ones, which are the
server's line, the engine calls are the ones in the trace, each of them gated, and a worker at
`ensure_ready()` has called it for its job and no engine yet. -/
structure Line (s : Runner G) : Prop where
  ok : s.server.Ok
  known : ∀ id, (s.store.job? id).isSome = true ↔ id ∈ s.submittedIds
  line : s.submittedIds = s.server.line
  started : s.startedIds = s.trace.filterMap Obs.started?
  ready : ∀ job, s.worker = .atReady job → job ∉ s.startedIds ∧
    List.Sublist [.dequeued job, .readyCalled job] s.trace
  gated : Gated s.trace

end Runner

open Runner

/-! ## The gate -/

theorem Runner.Gated.append {t new : List Obs} (h : Gated t)
    (hn : ∀ job, .engineStarted job ∉ new) : Gated (t ++ new) := by
  intro pre post job e
  rcases List.append_eq_append_iff.mp e with ⟨u, rfl, hu⟩ | ⟨u, rfl, hu⟩
  · -- the start would be among the new observations
    exact absurd (hu ▸ List.mem_append_right u List.mem_cons_self) (hn job)
  · cases u with
    | nil =>
      rw [List.nil_append] at hu
      exact absurd (hu ▸ List.mem_cons_self) (hn job)
    | cons o u =>
      obtain ⟨rfl, rfl⟩ : .engineStarted job = o ∧ post = u ++ new := by simpa using hu
      exact h pre u job rfl

theorem Runner.Gated.start {t : List Obs} {job : JobId} (h : Gated t) (hc : Cleared job t) :
    Gated (t ++ [.engineStarted job]) := by
  intro pre post id e
  rcases List.eq_nil_or_concat post with rfl | ⟨u, o, rfl⟩
  · obtain ⟨rfl, ho⟩ := List.append_inj' e rfl
    obtain rfl : job = id := by simpa using ho
    exact hc
  · rw [List.concat_eq_append, ← List.cons_append, ← List.append_assoc] at e
    exact h pre u id (List.append_inj' e rfl).1

/-! ## Rules for the line -/

/-- An observation that the server does not see. -/
def Obs.Quiet (o : Obs) : Prop :=
  o.submitted? = none ∧ o.processed? = none ∧ o.started? = none

section
variable {G : Type} {s s' : Runner G} {new : List Obs} {job : JobId}

theorem filterMap_quiet {f : Obs → Option JobId} (h : ∀ o ∈ new, f o = none) :
    new.filterMap f = [] := List.filterMap_eq_nil_iff.mpr h

theorem startedIds_cancel (calls : List EngineCall) (task : Nat) :
    (calls.modify task EngineCall.cancel).map EngineCall.job = calls.map EngineCall.job := by
  refine List.ext_getElem? fun i => ?_
  rw [List.getElem?_map, List.getElem?_modify, List.getElem?_map]
  split
  · rw [Option.map_eq_map, Option.map_map]; rfl
  · simp

theorem startedIds_ends {calls : List EngineCall} {task : Nat} {request : EngineRequest}
    {st st' : CallState} (h : calls[task]? = some ⟨job, request, st⟩) :
    (calls.set task ⟨job, request, st'⟩).map EngineCall.job = calls.map EngineCall.job := by
  refine List.ext_getElem? fun i => ?_
  rw [List.getElem?_map, List.getElem?_set, List.getElem?_map]
  split
  · rename_i e
    subst e
    rw [h, if_pos (List.getElem?_eq_some_iff.mp h).1]
    rfl
  · rfl

theorem isSome_advance {st : JobStore} {r r' : JobRecord} (h : st.job? job = some r) (data : Dict)
    (id : JobId) : ((st.advance job r' data).job? id).isSome = (st.job? id).isSome := by
  rw [JobStore.job?_advance]
  split
  · rename_i e; subst e; rw [h]; rfl
  · rfl

/-- A step that the server does not see. -/
theorem Runner.Line.quiet (h : Line s) (new : List Obs) (ht : s'.trace = s.trace ++ new)
    (hn : ∀ o ∈ new, o.Quiet) (hq : s'.queue = s.queue) (hj : s'.worker.job? = s.worker.job?)
    (hc : s'.startedIds = s.startedIds)
    (hk : ∀ id, (s'.store.job? id).isSome = (s.store.job? id).isSome)
    (hr : ∀ job, s'.worker = .atReady job → s.worker = .atReady job) : Line s' := by
  have hsub : s'.submittedIds = s.submittedIds := by
    unfold submittedIds
    rw [ht, List.filterMap_append, filterMap_quiet fun o ho => (hn o ho).1, List.append_nil]
  have hserver : s'.server = s.server := by
    have hp : s'.processedIds = s.processedIds := by
      unfold processedIds
      rw [ht, List.filterMap_append, filterMap_quiet fun o ho => (hn o ho).2.1, List.append_nil]
    unfold server
    rw [hq, hj, hp, hc]
  refine ⟨hserver ▸ h.ok, fun id => ?_, ?_, ?_, fun job e => ?_, ?_⟩
  · rw [hk, hsub]; exact h.known id
  · rw [hsub, hserver]; exact h.line
  · rw [hc, h.started, ht, List.filterMap_append, filterMap_quiet fun o ho => (hn o ho).2.2,
      List.append_nil]
  · obtain ⟨hns, hsl⟩ := h.ready job (hr job e)
    rw [hc, ht]
    exact ⟨hns, hsl.trans (List.sublist_append_left _ _)⟩
  · rw [ht]
    exact h.gated.append fun job hm => by cases (hn _ hm).2.2

/-- The worker's job is done. -/
theorem Runner.Line.leave (h : Line s) (hw : s.worker.job? = some job) : Line (s.finish job) := by
  have hserver : (s.finish job).server =
      { s.server with slot := none, served := s.server.served ++ [job] } := by
    simp [server, finish, note, processedIds, startedIds, Worker.job?, Obs.processed?]
  have hsub : (s.finish job).submittedIds = s.submittedIds := by
    simp [submittedIds, finish, note, Obs.submitted?]
  refine ⟨?_, fun id => ?_, ?_, ?_, fun job e => ?_, ?_⟩
  · rw [hserver]
    exact (Server.Step.leave job hw).ok h.ok
  · rw [hsub]; exact h.known id
  · rw [hsub, h.line, hserver, Server.line, Server.line]
    simp [server, hw]
  · show s.startedIds = (s.trace ++ [Obs.processed job]).filterMap Obs.started?
    rw [h.started]
    simp [Obs.started?]
  · cases e
  · exact h.gated.append fun id hm => by simp at hm

/-- The head of the queue goes to `ensure_ready()`. -/
theorem Runner.Line.take (h : Line s) {queue : List JobId} (hw : s.worker = .atQueue)
    (hq : s.queue = job :: queue) :
    Line (({ s with queue, worker := .atReady job }.note (.dequeued job)).note
      (.readyCalled job)) := by
  generalize ht : (({ s with queue, worker := .atReady job }.note (.dequeued job)).note
    (.readyCalled job)) = t
  have htrace : t.trace = s.trace ++ [.dequeued job, .readyCalled job] := by
    rw [← ht]; simp [note]
  have hserver : t.server = { s.server with waiting := queue, slot := some job } := by
    rw [← ht]
    simp [server, note, processedIds, startedIds, Worker.job?, Obs.processed?]
  have hsub : t.submittedIds = s.submittedIds := by
    simp [submittedIds, htrace, Obs.submitted?]
  have hstarted : t.startedIds = s.startedIds := by rw [← ht]; rfl
  have hslot : s.server.slot = none := by simp [server, hw, Worker.job?]
  have hstep : s.server.Step t.server := hserver ▸ .take job queue hslot hq
  refine ⟨hstep.ok h.ok, fun id => ?_, ?_, ?_, fun id e => ?_, ?_⟩
  · rw [hsub, ← ht]; exact h.known id
  · rw [hsub, h.line, hserver, Server.line, Server.line, hslot]
    simp [server, hq]
  · rw [hstarted, h.started, htrace]
    simp [Obs.started?]
  · obtain rfl : job = id := by rw [← ht] at e; simpa [note] using e
    refine ⟨fun hm => ?_, htrace ▸ List.sublist_append_right _ _⟩
    -- a started job has left the queue
    refine h.ok.waiting_not_taken (j := job) (by simp [server, hq]) (h.ok.started.subset ?_)
    rwa [hstarted] at hm
  · rw [htrace]
    exact h.gated.append fun id hm => by simp at hm

/-- The head of the queue was cancelled while it waited. -/
theorem Runner.Line.drop (h : Line s) {queue : List JobId} (hw : s.worker = .atQueue)
    (hq : s.queue = job :: queue) : Line (({ s with queue }.note (.dequeued job)).finish job) := by
  generalize ht : (({ s with queue }.note (.dequeued job)).finish job) = t
  have htrace : t.trace = s.trace ++ [.dequeued job, .processed job] := by
    rw [← ht]; simp [note, finish]
  have hserver : t.server =
      { s.server with waiting := queue, slot := none, served := s.server.served ++ [job] } := by
    rw [← ht]
    simp [server, note, finish, processedIds, startedIds, Worker.job?, Obs.processed?,
      List.filterMap_cons]
  have hsub : t.submittedIds = s.submittedIds := by
    simp [submittedIds, htrace, Obs.submitted?]
  have hslot : s.server.slot = none := by simp [server, hw, Worker.job?]
  have hsteps : s.server.Steps t.server := by
    rw [hserver]
    exact .tail (.single (.take job queue hslot hq)) (.leave job rfl)
  refine ⟨hsteps.ok h.ok, fun id => ?_, ?_, ?_, fun id e => ?_, ?_⟩
  · rw [hsub, ← ht]; exact h.known id
  · rw [hsub, h.line, hserver, Server.line, Server.line, hslot]
    simp [server, hq]
  · rw [htrace, List.filterMap_append, ← h.started, ← ht]
    simp [Obs.started?, startedIds, note, finish]
  · rw [← ht] at e; cases e
  · rw [htrace]
    exact h.gated.append fun id hm => by simp at hm

/-- A new job joins the line. -/
theorem Runner.Line.arrive (h : Line s) (hn : s.store.job? job = none) (submission : Submission)
    (now : Str) : Line (s.enqueue submission now job) := by
  have hsub : (s.enqueue submission now job).submittedIds = s.submittedIds ++ [job] := by
    simp [submittedIds, enqueue, Obs.submitted?]
  have hserver : (s.enqueue submission now job).server =
      { s.server with waiting := s.server.waiting ++ [job] } := by
    simp [server, enqueue, processedIds, startedIds, Obs.processed?]
  have hnew : job ∉ s.server.line := by
    rw [← h.line, ← h.known, hn]
    exact Bool.false_ne_true
  refine ⟨?_, fun id => ?_, ?_, ?_, fun id e => ?_, ?_⟩
  · rw [hserver]
    exact (Server.Step.arrive s.server job hnew).ok h.ok
  · show ((s.store.enqueued job submission now).job? id).isSome = true ↔ _
    rw [hsub, JobStore.job?_enqueued, List.mem_append, List.mem_singleton]
    split
    · rename_i e; simp [e]
    · rename_i e
      rw [h.known id]
      simp [Ne.symm e]
  · rw [hsub, h.line, hserver]
    simp [Server.line]
  · show s.startedIds = _
    rw [h.started]
    simp [enqueue, Obs.started?]
  · obtain ⟨hns, hsl⟩ := h.ready id e
    exact ⟨hns, hsl.trans (List.sublist_append_left _ _)⟩
  · exact h.gated.append fun id hm => by simp at hm

/-- The job of the worker starts its engine call after `READY`. -/
theorem Runner.Line.begin [ReadinessGate G] (h : Line s) {r r' : JobRecord}
    {request : EngineRequest} {data : Dict} (hw : s.worker = .atReady job)
    (hr : s.store.job? job = some r) :
    Line (((s.note (.readyReturned job .ready)).advance job r' data).beginCall job request) := by
  generalize ht : ((s.note (.readyReturned job .ready)).advance job r' data).beginCall job request =
    t
  obtain ⟨hns, hsl⟩ := h.ready job hw
  obtain ⟨e, htrace⟩ : ∃ e, t.trace =
      (s.trace ++ [.readyReturned job .ready]) ++ [.event job e] ++ [.engineStarted job] := by
    rw [← ht]; exact ⟨_, rfl⟩
  have hserver : t.server = { s.server with started := s.server.started ++ [job] } := by
    rw [← ht]
    simp [server, note, advance, beginCall, processedIds, startedIds, hw, Worker.job?,
      Obs.processed?]
  have hsub : t.submittedIds = s.submittedIds := by
    simp [submittedIds, htrace, Obs.submitted?]
  have hslot : s.server.slot = some job := by simp [server, hw, Worker.job?]
  have hstep : s.server.Step t.server := hserver ▸ .start job hslot hns
  refine ⟨hstep.ok h.ok, fun id => ?_, ?_, ?_, fun id e => ?_, ?_⟩
  · rw [hsub, ← h.known, ← ht]
    exact iff_of_eq (congrArg (· = true) (isSome_advance hr data id))
  · rw [hsub, h.line, hserver]; rfl
  · rw [htrace, show t.startedIds = s.startedIds ++ [job] from congrArg Server.started hserver,
      h.started]
    simp [Obs.started?, List.filterMap_cons]
  · rw [← ht] at e; cases e
  · rw [htrace]
    refine Gated.start ((h.gated.append fun id hm => ?_).append fun id hm => ?_)
      ((hsl.append (List.Sublist.refl [Obs.readyReturned job .ready])).trans
        (List.sublist_append_left _ _))
    · simp at hm
    · simp at hm

/-! ## Moves keep the line -/

theorem quiet_nil : ∀ o ∈ ([] : List Obs), o.Quiet := fun _ h => by cases h

theorem quiet_one {o : Obs} (h : o.Quiet) : ∀ x ∈ [o], x.Quiet := fun x hx => by
  rw [List.mem_singleton.mp hx]; exact h

/-- A transition that the store makes, and its event. -/
theorem Runner.Line.advance (h : Line s) {r r' : JobRecord} (hr : s.store.job? job = some r)
    (data : Dict) : Line (s.advance job r' data) :=
  h.quiet [_] rfl (quiet_one ⟨rfl, rfl, rfl⟩) rfl rfl rfl (isSome_advance hr data)
    fun _ e => e

theorem Runner.Line.note (h : Line s) {o : Obs} (ho : o.Quiet) : Line (s.note o) :=
  h.quiet [o] rfl (quiet_one ho) rfl rfl rfl (fun _ => rfl) fun _ e => e

/-- A change of what the line does not mention. -/
theorem Runner.Line.same (h : Line s) (ht : s'.trace = s.trace) (hq : s'.queue = s.queue)
    (hj : s'.worker.job? = s.worker.job?) (hc : s'.startedIds = s.startedIds)
    (hs : s'.store = s.store) (hr : ∀ job, s'.worker = .atReady job → s.worker = .atReady job) :
    Line s' :=
  h.quiet [] (by rw [ht, List.append_nil]) quiet_nil hq hj hc (fun _ => by rw [hs]) hr

theorem Runner.Line.release [ReadinessGate G] (h : Line s) : Line s.release :=
  h.same rfl rfl rfl rfl rfl fun _ e => e

theorem Runner.Line.abort (h : Line s) (job : JobId) : Line (s.abort job) := by
  refine h.same rfl rfl rfl ?_ rfl fun _ e => e
  unfold startedIds Runner.abort
  simp only
  split
  · split
    · exact startedIds_cancel _ _
    · rfl
  · rfl

variable [ReadinessGate G] {cfg : Config}

omit [ReadinessGate G] in
theorem Persist.line {r : JobRecord} {request : EngineRequest} {result : EngineResult}
    {now later : Str} {faults : List (Option Nat)} (h : Line s) (hw : s.worker.job? = some job)
    (hr : s.store.job? job = some r)
    (hp : Persist cfg s job r request result now later faults s') : Line s' := by
  have hwrite : ∀ fs, Line { s.note (.writeCalled job) with fs } := fun fs =>
    (h.note ⟨rfl, rfl, rfl⟩).same rfl rfl rfl rfl rfl fun _ e => e
  cases hp with
  | noRoot _ => exact (h.advance hr _).leave hw
  | stored root dir sys _ _ => exact ((hwrite sys.fs).advance hr _).leave hw
  | writeFailed root e sys _ _ _ => exact ((hwrite sys.fs).advance hr _).leave hw
  | died root sys _ _ =>
    exact (hwrite sys.fs).same rfl rfl hw.symm rfl rfl fun _ e => by cases e

/-- A move keeps the line. -/
theorem Move.line {a : Action G} (hm : Move cfg s a s') (h : Line s) : Line s' := by
  cases hm with
  | start hw => exact h.same rfl rfl (by rw [hw]; rfl) rfl rfl fun _ e => by cases e
  | stopMark hw => exact h.same rfl rfl rfl rfl rfl fun _ e => e
  | stopForward id task request b hw hc =>
    exact h.same rfl rfl rfl (startedIds_cancel _ _) rfl fun _ e => e
  | submit submission now job hn => exact h.arrive hn submission now
  | cancelRefused job now hr => exact h
  | cancel job now r hr hst => exact (h.abort job).advance hr _
  | drop job queue now hw hm hq hc => exact h.drop hw hq
  | take job queue now hw hm hq hc => exact h.take hw hq
  | readyDrop job state now hw hm hc =>
    exact (h.note ⟨rfl, rfl, rfl⟩).leave (by show s.worker.job? = _; rw [hw]; rfl)
  | readyFail job state now r hw hm hc hr hst hn =>
    exact ((h.note ⟨rfl, rfl, rfl⟩).advance hr _).leave (by show s.worker.job? = _; rw [hw]; rfl)
  | begin job now r hw hm hc hr hst => exact h.begin hw hr
  | callEnds job task request b outcome hc =>
    exact h.same rfl rfl rfl (startedIds_ends hc) rfl fun _ e => e
  | resumeDrop job task request outcome now later faults hw hcall hc =>
    exact h.release.leave (by show s.worker.job? = _; rw [hw]; rfl)
  | resumeStopped job task request outcome now later faults hw hcall hc ho =>
    exact h.release.same rfl rfl (by show _ = s.worker.job?; rw [hw]; rfl) rfl rfl
      fun _ e => by cases e
  | resumeFail job task request outcome message now later faults r hw hcall hc ho hr hst =>
    exact (h.release.advance hr _).leave (by show s.worker.job? = _; rw [hw]; rfl)
  | resumeResult job task request outcome result now later faults r s' hw hcall hc ho hr hst hp =>
    exact hp.line h.release (by show s.worker.job? = _; rw [hw]; rfl) hr
  | teardownQueue hw hm => exact h.same rfl rfl (by rw [hw]; rfl) rfl rfl fun _ e => by cases e
  | teardownReady job hw hm =>
    exact h.same rfl rfl (by rw [hw]; rfl) rfl rfl fun _ e => by cases e
  | gate g => exact h.same rfl rfl rfl rfl rfl fun _ e => e

theorem init_line (h : (runner cfg : Lts (Runner G) (Action G)).init s) : Line s := by
  obtain ⟨limit, store, gate, fs, hn, -, rfl⟩ := h
  unfold JobStore.new at hn
  split at hn
  · cases hn
  cases hn
  refine ⟨⟨List.nodup_nil, List.Sublist.refl _⟩, fun id => ?_, rfl, rfl, fun job e => ?_,
    fun pre post job e => ?_⟩
  · simp [JobStore.job?, submittedIds]
  · cases e
  · simp at e

variable {P : Runner G → Action G → Prop}

theorem reach_line (h : (runner cfg).Reach P s) : Line s := by
  obtain ⟨s₀, h₀, hp⟩ := h
  exact hp.preserves_reach (fun s a s' hr hl _ hst => (reach_move hr hst).line hl) (.init h₀)
    (init_line h₀)

end

/-! ## The result -/

/-- One slot, no lost and no doubled job. -/
structure SingleSlot {G : Type} (s : Runner G) : Prop where
  /-- A live engine call is the one that the worker awaits, of its current job. -/
  live : ∀ (i : Nat) (c : EngineCall) (b : Bool), s.calls[i]? = some c → c.state = .live b →
    s.worker = .atEngine c.job i c.request ∧ s.current = some c.job ∧ s.currentTask = some i
  one : ∀ (i j : Nat) (c c' : EngineCall) (b b' : Bool), s.calls[i]? = some c → c.state = .live b →
    s.calls[j]? = some c' →
    c'.state = .live b' → i = j
  /-- Processed, in the worker's hands and in the queue: the submitted ids, in order. -/
  places : s.processedIds ++ (s.worker.job?.toList ++ s.queue) = s.submittedIds
  once : ∀ id ∈ s.submittedIds,
    (s.processedIds ++ (s.worker.job?.toList ++ s.queue)).count id = 1
  /-- The engine calls, at most one for each job, start in the order of submission. -/
  calls : s.startedIds = s.trace.filterMap Obs.started?
  calls_nodup : s.startedIds.Nodup
  calls_ordered : List.Sublist s.startedIds s.submittedIds
  /-- Before the start of an engine call its job was dequeued, then `ensure_ready()` called for it,
  and then `READY` returned. -/
  gated : ∀ pre post job, s.trace = pre ++ .engineStarted job :: post → Cleared job pre

/-- Every reachable state, whatever the order of the actions. -/
theorem single_slot {G : Type} [ReadinessGate G] {cfg : Config} {s : Runner G}
    (h : (runner cfg).Reach Lts.always s) : SingleSlot s := by
  have hs := reach_ok h
  have hl := reach_line h
  have hlive : ∀ (i : Nat) (c : EngineCall) (b : Bool), s.calls[i]? = some c →
      c.state = .live b → s.worker = .atEngine c.job i c.request ∧ s.current = some c.job ∧
        s.currentTask = some i := by
    intro i c b hc hb
    obtain ⟨id, request, hw⟩ := hs.tasks.live i c b hc hb
    obtain ⟨hcur, htask, st, hcall⟩ := hs.tasks.engine id i request hw
    rw [hc] at hcall
    cases hcall
    exact ⟨hw, hcur, htask⟩
  refine ⟨hlive, fun i j c c' b b' hi hb hj hb' => ?_, hl.line.symm, fun id hid => ?_, hl.started,
    hl.ok.started_nodup, ?_, hl.gated⟩
  · have hi := (hlive i c b hi hb).2.2
    have hj := (hlive j c' b' hj hb').2.2
    exact Option.some.inj (hi.symm.trans hj)
  · rw [hl.line] at hid
    exact hl.ok.count_line hid
  · rw [hl.line]
    exact hl.ok.started_sublist_line

namespace Sample

/-- The first call fails; the second job gets the slot. -/
def twoJobs : List (Action Readiness) := [.submit submission early one,
  .submit submission early two,
  .start, .dequeue late, .readyReturns .ready late,
  .engineEnds 0 (.error (lit "engine unreachable")), .resume late late [], .dequeue late,
  .readyReturns .ready late]

end Sample

theorem single_slot_two_jobs : ∃ s, (runner (Sample.config none)).run Sample.initial
    Sample.twoJobs = some s ∧ s.startedIds = [Sample.one, Sample.two] ∧ SingleSlot s := by
  have h : ((runner (Sample.config none)).run Sample.initial Sample.twoJobs).map
      Runner.startedIds = some [Sample.one, Sample.two] := rfl
  obtain ⟨s, hs, hj⟩ := Option.map_eq_some_iff.mp h
  exact ⟨s, hs, hj, single_slot (Sample.reach hs)⟩

end Music3
