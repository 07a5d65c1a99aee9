import Music3.Jobs.RunnerInv

/-!
# Record and event log tell the same story

A job's `history` is every event ever appended for it, in order. Its statuses so far are a `Story`:
queued, perhaps running, and at most one terminal status, which is the last one. `RecordOk r l` ties
the fields of a record to its story `l`; a transition extends both (`RecordOk.advance`).

* `StoreStep s s'`: what a move does to the store and to the histories (`Move.storeStep`). It is
  nothing, one transition with its event, or a new job.
* `Told s id`: the log of a job is the newest part of its history, and the history tells the
  story of the record. Every step keeps it.
* `same_story` is the result; `Kept` is what no later step changes of a record.
-/

namespace Music3

open Py BoundedLog

/-- The statuses that a job has had, the present one last. -/
inductive Story : JobStatus → List JobStatus → Prop
  | queued : Story .queued [.queued]
  | running : Story .running [.queued, .running]
  | succeeded : Story .succeeded [.queued, .running, .succeeded]
  | failed : Story .failed [.queued, .running, .failed]
  | failedEarly : Story .failed [.queued, .failed]
  | cancelled : Story .cancelled [.queued, .running, .cancelled]
  | cancelledEarly : Story .cancelled [.queued, .cancelled]

/-- The fields of a record with the story `l` (module doc). -/
structure RecordOk (r : JobRecord) (l : List JobStatus) : Prop where
  story : Story r.status l
  ended : r.endedAt.isSome = true ↔ r.status.terminal = true
  started : r.startedAt.isSome = true ↔ .running ∈ l
  audio : r.audio.isSome = true ↔ r.status = .succeeded
  error : r.error.isSome = true ↔ r.status = .failed

theorem Story.getLast? {st : JobStatus} {l : List JobStatus} (h : Story st l) :
    l.getLast? = some st := by cases h <;> rfl

theorem Story.of_queued {l : List JobStatus} (h : Story .queued l) : l = [.queued] := by
  cases h; rfl

theorem Story.of_running {l : List JobStatus} (h : Story .running l) : l = [.queued, .running] := by
  cases h; rfl

theorem JobStatus.of_not_terminal {st : JobStatus} (h : st.terminal = false) :
    st = .queued ∨ st = .running := by
  cases st <;> first | exact .inl rfl | exact .inr rfl | cases h

/-- A transition extends the story. -/
theorem Story.advance {r r' : JobRecord} {l : List JobStatus} (h : Story r.status l)
    (ht : Transition r r') : Story r'.status (l ++ [r'.status]) := by
  cases ht with
  | running now hr => rw [hr] at h; rw [h.of_queued]; exact .running
  | succeeded result now hr => rw [hr] at h; rw [h.of_running]; exact .succeeded
  | failed error now hr =>
    rcases JobStatus.of_not_terminal hr with hr | hr <;> rw [hr] at h
    · rw [h.of_queued]; exact .failedEarly
    · rw [h.of_running]; exact .failed
  | cancelled now hr =>
    rcases JobStatus.of_not_terminal hr with hr | hr <;> rw [hr] at h
    · rw [h.of_queued]; exact .cancelledEarly
    · rw [h.of_running]; exact .cancelled

theorem RecordOk.advance {r r' : JobRecord} {l : List JobStatus} (h : RecordOk r l)
    (ht : Transition r r') : RecordOk r' (l ++ [r'.status]) := by
  have hs := h.story.advance ht
  obtain ⟨-, hended, hstarted, haudio, herror⟩ := h
  -- before the transition the job had no end, no audio and no error
  have hn := ht.not_terminal
  have ha : r.audio.isSome = false := by
    rw [Bool.eq_false_iff, ne_eq, haudio]; rintro e; rw [e] at hn; cases hn
  have he : r.error.isSome = false := by
    rw [Bool.eq_false_iff, ne_eq, herror]; rintro e; rw [e] at hn; cases hn
  have hend : r.endedAt.isSome = false := by rw [Bool.eq_false_iff, ne_eq, hended, hn]; simp
  cases ht with
  | running now hr =>
    exact ⟨hs, by simp [JobRecord.running, JobStatus.terminal, hend], by simp [JobRecord.running],
      by simp [JobRecord.running, ha], by simp [JobRecord.running, he]⟩
  | succeeded result now hr =>
    exact ⟨hs, by simp [JobRecord.succeeded, JobStatus.terminal],
      by simpa [JobRecord.succeeded] using hstarted,
      by simp [JobRecord.succeeded], by simp [JobRecord.succeeded, he]⟩
  | failed error now hr =>
    exact ⟨hs, by simp [JobRecord.failed, JobStatus.terminal],
      by simpa [JobRecord.failed] using hstarted,
      by simp [JobRecord.failed, ha], by simp [JobRecord.failed]⟩
  | cancelled now hr =>
    exact ⟨hs, by simp [JobRecord.cancelled, JobStatus.terminal],
      by simpa [JobRecord.cancelled] using hstarted,
      by simp [JobRecord.cancelled, ha], by simp [JobRecord.cancelled, he]⟩

/-! ## Histories -/

/-- The event of a job in an observation. -/
def Obs.event? (id : JobId) : Obs → Option JobEvent
  | event job e => if job = id then some e else none
  | _ => none

namespace Runner

variable {G : Type} (s : Runner G)

/-- Every event appended for a job. -/
def history (id : JobId) : List JobEvent := s.trace.filterMap (Obs.event? id)

/-- What holds of a job's history, its log and its record (module doc). -/
structure Told (id : JobId) : Prop where
  ids : (s.history id).map JobEvent.id = List.range' 1 (s.history id).length
  count : s.store.count id = (s.history id).length
  retained : s.store.retained id = newest s.store.eventLogLimit (s.history id)
  unknown : s.store.job? id = none → s.history id = []
  known : ∀ r, s.store.job? id = some r →
    ∃ l, (s.history id).map JobEvent.type = l.map JobStatus.value ∧ RecordOk r l

/-- What a move does to the store and to the histories. -/
inductive StoreStep (s s' : Runner G) : Prop
  | same : s'.store = s.store → (∀ id, s'.history id = s.history id) → StoreStep s s'
  | advance (job : JobId) (r r' : JobRecord) (data : Dict) : s.store.job? job = some r →
      Transition r r' → s'.store = s.store.advance job r' data →
      (∀ id, s'.history id =
        if job = id then s.history id ++ [s.store.nextEvent job r'.status.value data]
        else s.history id) → StoreStep s s'
  | enqueue (job : JobId) (submission : Submission) (now : Str) : s.store.job? job = none →
      s'.store = s.store.enqueued job submission now →
      (∀ id, s'.history id =
        if job = id then s.history id ++ [⟨1, JobStatus.queued.value, []⟩] else s.history id) →
      StoreStep s s'

end Runner

open Runner

section
variable {G : Type} {s s' : Runner G}

theorem history_append {t : Runner G} {new : List Obs} (h : t.trace = s.trace ++ new) (id : JobId) :
    t.history id = s.history id ++ new.filterMap (Obs.event? id) := by
  rw [history, h, List.filterMap_append]; rfl

/-- The step appends no events. -/
theorem Runner.StoreStep.of_silent (new : List Obs) (hs : s'.store = s.store)
    (h : s'.trace = s.trace ++ new) (hn : ∀ id, new.filterMap (Obs.event? id) = []) :
    StoreStep s s' :=
  .same hs fun id => by rw [history_append h, hn, List.append_nil]

/-- The step makes a transition, and appends its event and nothing else. -/
theorem Runner.StoreStep.of_advance {job : JobId} {r r' : JobRecord} {data : Dict}
    (pre post : List Obs) (hr : s.store.job? job = some r) (ht : Transition r r')
    (hs : s'.store = s.store.advance job r' data)
    (h : s'.trace = s.trace ++
      (pre ++ (.event job (s.store.nextEvent job r'.status.value data) :: post)))
    (hpre : ∀ id, pre.filterMap (Obs.event? id) = [])
    (hpost : ∀ id, post.filterMap (Obs.event? id) = []) : StoreStep s s' := by
  refine .advance job r r' data hr ht hs fun id => ?_
  rw [history_append h, List.filterMap_append, hpre, List.nil_append]
  by_cases e : job = id
  · rw [List.filterMap_cons_some (b := s.store.nextEvent job r'.status.value data)
      (by rw [Obs.event?, if_pos e]), hpost, if_pos e]
  · rw [List.filterMap_cons_none (by rw [Obs.event?, if_neg e]), hpost, if_neg e, List.append_nil]

variable [ReadinessGate G] {cfg : Config}

omit [ReadinessGate G] in
theorem Persist.storeStep {job : JobId} {r : JobRecord} {request : EngineRequest}
    {result : EngineResult} {now later : Str} {faults : List (Option Nat)}
    (hr : s.store.job? job = some r) (hst : r.status = .running)
    (h : Persist cfg s job r request result now later faults s') : StoreStep s s' := by
  have hf : r.status.terminal = false := by rw [hst]; rfl
  have silent : ∀ o ∈ [Obs.writeCalled job, .processed job],
      ∀ id, [o].filterMap (Obs.event? id) = [] := by simp [Obs.event?]
  cases h with
  | noRoot _ =>
    exact .of_advance [] [.processed job] hr (.succeeded result now hst) rfl
      (by simp [finish, note, advance]) (fun _ => rfl) (silent _ (by simp))
  | stored root dir sys _ _ =>
    exact .of_advance [.writeCalled job] [.processed job] hr
      (.succeeded result now hst) rfl (by simp [finish, note, advance]) (silent _ (by simp))
      (silent _ (by simp))
  | writeFailed root e sys _ _ _ =>
    exact .of_advance [.writeCalled job] [.processed job] hr
      (.failed _ later hf) rfl (by simp [finish, note, advance]) (silent _ (by simp))
      (silent _ (by simp))
  | died root sys _ _ =>
    exact .of_silent [.writeCalled job] rfl rfl (silent _ (by simp))

/-- What a move does to the store and to the histories. -/
theorem Move.storeStep {a : Action G} (h : Move cfg s a s') : StoreStep s s' := by
  have same : ∀ {t : Runner G}, t.store = s.store → t.trace = s.trace → StoreStep s t :=
    fun hs ht => .of_silent [] hs (by rw [ht, List.append_nil]) fun _ => rfl
  cases h with
  | start _ | stopMark _ | stopForward _ _ _ _ _ _ | cancelRefused _ _ _ | teardownQueue _ _
  | teardownReady _ _ _ | gate _ | callEnds _ _ _ _ _ _ | resumeStopped _ _ _ _ _ _ _ _ _ _ _ =>
    exact same rfl rfl
  | submit submission now job hn =>
    refine .enqueue job submission now hn rfl fun id => ?_
    rw [history_append (t := s.enqueue submission now job) rfl]
    by_cases e : job = id <;> simp [Obs.event?, e, List.filterMap_cons]
  | cancel job now r hr hst =>
    exact .of_advance [] [] hr (.cancelled now hst) rfl rfl (fun _ => rfl)
      fun _ => rfl
  | drop job queue now _ _ _ _ =>
    exact .of_silent [.dequeued job, .processed job] rfl (by simp [finish, note])
      fun _ => by simp [Obs.event?]
  | take job queue now _ _ _ _ =>
    exact .of_silent [.dequeued job, .readyCalled job] rfl (by simp [note])
      fun _ => by simp [Obs.event?]
  | readyDrop job state now _ _ _ =>
    exact .of_silent [.readyReturned job state, .processed job] rfl
      (by simp [finish, note]) fun _ => by simp [Obs.event?]
  | readyFail job state now r _ _ _ hr hst _ =>
    exact .of_advance [.readyReturned job state] [.processed job] hr
      (.failed _ now (by rw [hst]; rfl)) rfl (by simp [finish, note, advance])
      (fun _ => by simp [Obs.event?]) fun _ => by simp [Obs.event?]
  | begin job now r _ _ _ hr hst =>
    exact .of_advance [.readyReturned job .ready] [.engineStarted job] hr
      (.running now hst) rfl (by simp [note, advance, beginCall])
      (fun _ => by simp [Obs.event?]) fun _ => by simp [Obs.event?]
  | resumeDrop job task request outcome now later faults _ _ _ =>
    exact .of_silent [.processed job] rfl rfl fun _ => by simp [Obs.event?]
  | resumeFail job task request outcome message now later faults r _ _ _ _ hr hst =>
    exact .of_advance [] [.processed job] hr
      (.failed message now (by rw [hst]; rfl)) rfl (by simp [finish, note, advance, release])
      (fun _ => rfl) fun _ => by simp [Obs.event?]
  | resumeResult job task request outcome result now later faults r s' _ _ _ _ hr hst hp =>
    cases hp.storeStep (s := s.release) hr hst with
    | same hs hh => exact .same hs hh
    | advance job' r₁ r₂ data h₁ h₂ h₃ h₄ => exact .advance job' r₁ r₂ data h₁ h₂ h₃ h₄
    | enqueue job' submission now' h₁ h₂ h₃ => exact .enqueue job' submission now' h₁ h₂ h₃

/-! ## Steps keep the story -/

variable {P : Runner G → Action G → Prop}

omit [ReadinessGate G] in
/-- The history with one more event, which carries the next number. -/
theorem ids_append {l : List JobEvent} {e : JobEvent}
    (h : l.map JobEvent.id = List.range' 1 l.length) (he : e.id = l.length + 1) :
    (l ++ [e]).map JobEvent.id = List.range' 1 (l ++ [e]).length := by
  rw [List.map_append, h, List.length_append, List.length_singleton, List.range'_concat,
    List.map_singleton, he]
  simp [Nat.add_comm]

omit [ReadinessGate G] in
/-- A step that does not touch the job. -/
theorem Runner.Told.other {id : JobId} (ht : Told s id) (hh : s'.history id = s.history id)
    (hj : s'.store.job? id = s.store.job? id) (hc : s'.store.count id = s.store.count id)
    (hl : s'.store.retained id = s.store.retained id)
    (hlim : s'.store.eventLogLimit = s.store.eventLogLimit) : Told s' id :=
  ⟨by rw [hh]; exact ht.ids, by rw [hc, hh]; exact ht.count,
    by rw [hl, hlim, hh]; exact ht.retained, by rw [hj, hh]; exact ht.unknown,
    by rw [hj, hh]; exact ht.known⟩

omit [ReadinessGate G] in
theorem Runner.StoreStep.told (h : StoreStep s s') {id : JobId} (ht : Told s id) : Told s' id := by
  cases h with
  | same hs hh =>
    exact ht.other (hh id) (by rw [hs]) (by rw [hs]) (by rw [hs]) (by rw [hs])
  | advance job r r' data hr htr hs hh =>
    have hh := hh id
    by_cases e : job = id
    swap
    · rw [if_neg e] at hh
      exact ht.other hh (by rw [hs, JobStore.job?_advance, if_neg e])
        (by rw [hs, JobStore.count_advance, if_neg e])
        (by rw [hs, JobStore.retained_advance, if_neg e]) (by rw [hs]; rfl)
    subst e
    rw [if_pos rfl] at hh
    obtain ⟨l, hl, hok⟩ := ht.known r hr
    refine ⟨?_, ?_, ?_, fun hn => ?_, fun x hx => ?_⟩
    · rw [hh]
      exact ids_append ht.ids (congrArg (· + 1) ht.count)
    · rw [hh, List.length_append, ← ht.count, hs, JobStore.count_advance, if_pos rfl]
      rfl
    · rw [hh, hs, JobStore.retained_advance, if_pos rfl, ht.retained]
      exact push_newest
    · rw [hs, JobStore.job?_advance, if_pos rfl] at hn
      cases hn
    · rw [hs, JobStore.job?_advance, if_pos rfl] at hx
      cases hx
      refine ⟨l ++ [r'.status], ?_, hok.advance htr⟩
      rw [hh, List.map_append, List.map_append, hl]
      rfl
  | enqueue job submission now hn hs hh =>
    have hh := hh id
    by_cases e : job = id
    swap
    · rw [if_neg e] at hh
      exact ht.other hh (by rw [hs, JobStore.job?_enqueued, if_neg e])
        (by rw [hs, JobStore.count_enqueued, if_neg e])
        (by rw [hs, JobStore.retained_enqueued, if_neg e]) (by rw [hs]; rfl)
    subst e
    rw [if_pos rfl, ht.unknown hn, List.nil_append] at hh
    refine ⟨by rw [hh]; rfl, ?_, ?_, fun hn => ?_, fun x hx => ?_⟩
    · rw [hh, hs, JobStore.count_enqueued, if_pos rfl]; rfl
    · have hlim := s.store.one_le
      rw [hh, hs, JobStore.retained_enqueued, if_pos rfl]
      show _ = newest s.store.eventLogLimit _
      rw [newest, List.length_singleton, Nat.sub_eq_zero_of_le hlim, List.drop_zero]
    · rw [hs, JobStore.job?_enqueued, if_pos rfl] at hn
      cases hn
    · rw [hs, JobStore.job?_enqueued, if_pos rfl] at hx
      cases hx
      refine ⟨[.queued], by rw [hh]; rfl, .queued, ?_, ?_, ?_, ?_⟩ <;>
        simp [JobStore.create, JobStatus.terminal]

theorem init_told (h : (runner cfg : Lts (Runner G) (Action G)).init s) (id : JobId) :
    Told s id := by
  obtain ⟨limit, store, gate, fs, hn, -, rfl⟩ := h
  unfold JobStore.new at hn
  split at hn
  · cases hn
  cases hn
  exact ⟨rfl, rfl, newest_nil.symm, fun _ => rfl, fun r hr => by cases hr⟩

theorem reach_told (h : (runner cfg).Reach P s) (id : JobId) : Told s id := by
  obtain ⟨s₀, h₀, hp⟩ := h
  exact hp.preserves_reach (I := fun s => Told s id)
    (fun _ _ _ hr ht _ hst => (reach_move hr hst).storeStep.told ht) (.init h₀) (init_told h₀ id)

/-! ## What no later step changes -/

/-- The jobs of `s` are jobs of `s'`, the same ones, and nothing about a terminal job changes. -/
def Runner.Kept (s s' : Runner G) : Prop :=
  ∀ id r, s.store.job? id = some r → ∃ r', s'.store.job? id = some r' ∧
    r'.id = r.id ∧ r'.submission = r.submission ∧ r'.submittedAt = r.submittedAt ∧
    (r.status.terminal = true → r' = r ∧ s'.history id = s.history id ∧
      s'.store.log id = s.store.log id)

omit [ReadinessGate G] in
theorem Runner.Kept.refl (s : Runner G) : Kept s s :=
  fun _ r hr => ⟨r, hr, rfl, rfl, rfl, fun _ => ⟨rfl, rfl, rfl⟩⟩

omit [ReadinessGate G] in
theorem Runner.Kept.trans {t : Runner G} (h : Kept s s') (h' : Kept s' t) : Kept s t := by
  intro id r hr
  obtain ⟨r₁, hr₁, h₁, h₂, h₃, h₄⟩ := h id r hr
  obtain ⟨r₂, hr₂, h₁', h₂', h₃', h₄'⟩ := h' id r₁ hr₁
  refine ⟨r₂, hr₂, h₁'.trans h₁, h₂'.trans h₂, h₃'.trans h₃, fun ht => ?_⟩
  obtain ⟨rfl, hh, hl⟩ := h₄ ht
  obtain ⟨rfl, hh', hl'⟩ := h₄' ht
  exact ⟨rfl, hh'.trans hh, hl'.trans hl⟩

omit [ReadinessGate G] in
theorem Runner.StoreStep.kept (h : StoreStep s s') : Kept s s' := by
  intro id r hr
  cases h with
  | same hs hh => exact ⟨r, hs ▸ hr, rfl, rfl, rfl, fun _ => ⟨rfl, hh id, by rw [hs]⟩⟩
  | advance job x x' data hx htr hs hh =>
    have hh := hh id
    rw [hs, JobStore.job?_advance]
    split <;> rename_i e
    · subst e
      obtain rfl : x = r := Option.some.inj (hx.symm.trans hr)
      obtain ⟨h₁, h₂, h₃⟩ := htr.keeps
      refine ⟨x', rfl, h₁, h₂, h₃, fun ht => ?_⟩
      rw [htr.not_terminal] at ht
      cases ht
    · rw [if_neg e] at hh
      exact ⟨r, hr, rfl, rfl, rfl, fun _ => ⟨rfl, hh, JobStore.log_advance e _ _⟩⟩
  | enqueue job submission now hn hs hh =>
    have hh := hh id
    rw [hs, JobStore.job?_enqueued]
    split <;> rename_i e
    · subst e
      rw [hn] at hr
      cases hr
    · rw [if_neg e] at hh
      exact ⟨r, hr, rfl, rfl, rfl, fun _ => ⟨rfl, hh, JobStore.log_enqueued e _ _⟩⟩

theorem path_kept (h : (runner cfg).Reach P s) (hp : (runner cfg).Path P s s') : Kept s s' :=
  hp.preserves_reach (fun _ _ _ hr hk _ hst => hk.trans (reach_move hr hst).storeStep.kept) h
    (.refl s)

/-! ## The result -/

theorem JobStatus.value_injective : Function.Injective JobStatus.value := by
  intro a b
  cases a <;> cases b <;> decide

/-- The record `r` and the events of the job `id` agree. -/
structure TellsStory (s : Runner G) (id : JobId) (r : JobRecord) : Prop where
  record : r.id = id
  path : ∃ l, Story r.status l ∧ (s.history id).map JobEvent.type = l.map JobStatus.value
  last : ∃ e, (s.history id).getLast? = some e ∧ e.type = r.status.value
  ids : (s.history id).map JobEvent.id = List.range' 1 (s.history id).length
  /-- The log retains the newest events, the last one among them. -/
  log : s.store.log id = .ok (newest s.store.eventLogLimit (s.history id))
  log_length : (newest s.store.eventLogLimit (s.history id)).length =
    min s.store.eventLogLimit (s.history id).length
  log_last : (newest s.store.eventLogLimit (s.history id)).getLast? = (s.history id).getLast?
  ended : r.endedAt.isSome = true ↔ r.status.terminal = true
  started : r.startedAt.isSome = true ↔ ∃ e ∈ s.history id, e.type = JobStatus.running.value
  audio : r.audio.isSome = true ↔ r.status = .succeeded
  error : r.error.isSome = true ↔ r.status = .failed

/-- Each record tells the story of its events. -/
theorem reach_tells (h : (runner cfg).Reach Lts.always s) {id : JobId} {r : JobRecord}
    (hr : s.store.job? id = some r) : TellsStory s id r := by
  have hok := (reach_ok h).books.store
  have ht := reach_told h id
  obtain ⟨l, hl, hrec⟩ := ht.known r hr
  obtain ⟨log, hlog⟩ := Option.isSome_iff_exists.mp (hok.events id r hr)
  have hlast : (s.history id).getLast?.map JobEvent.type = some r.status.value := by
    rw [← List.getLast?_map, hl, List.getLast?_map, hrec.story.getLast?]; rfl
  obtain ⟨e, he, hty⟩ := Option.map_eq_some_iff.mp hlast
  refine ⟨hok.id id r hr, ⟨l, hrec.story, hl⟩, ⟨e, he, hty⟩, ht.ids, ?_, length_newest,
    getLast?_newest s.store.one_le, hrec.ended, ?_, hrec.audio, hrec.error⟩
  · have hret := ht.retained
    rw [JobStore.retained, hlog] at hret
    rw [JobStore.log, hlog, ← hret]
    rfl
  · have hmem : (∃ e ∈ s.history id, e.type = JobStatus.running.value) ↔
        JobStatus.running.value ∈ (s.history id).map JobEvent.type := by simp
    rw [hmem, hl, List.mem_map_of_injective JobStatus.value_injective]
    exact hrec.started

/-- In every reachable state each record tells the story of its events, an unknown job has no
events, and no later step changes what `Kept` names. -/
theorem same_story (h : (runner cfg).Reach Lts.always s) :
    (∀ id r, s.store.job? id = some r → TellsStory s id r) ∧
    (∀ id, s.store.job? id = none → s.history id = []) ∧
    ∀ s', (runner cfg).Path Lts.always s s' → Kept s s' :=
  ⟨fun _ _ hr => reach_tells h hr, fun id => (reach_told h id).unknown, fun _ hp => path_kept h hp⟩

end

namespace Sample

/-- One job that succeeds. -/
def oneJob : List (Action Readiness) := [.submit submission early one, .start, .dequeue late,
  .readyReturns .ready late, .engineEnds 0 (.result result), .resume late late []]

end Sample

theorem same_story_one_job : ∃ s r, (runner (Sample.config none)).run Sample.initial
    Sample.oneJob = some s ∧ s.store.job? Sample.one = some r ∧ r.status = .succeeded ∧
      TellsStory s Sample.one r := by
  have h : ((runner (Sample.config none)).run Sample.initial Sample.oneJob).map
      (fun s => (s.store.job? Sample.one).map JobRecord.status) = some (some .succeeded) := rfl
  obtain ⟨s, hs, hj⟩ := Option.map_eq_some_iff.mp h
  obtain ⟨r, hr, hst⟩ := Option.map_eq_some_iff.mp hj
  exact ⟨s, r, hs, hr, hst, (same_story (Sample.reach hs)).1 Sample.one r hr⟩

end Music3
