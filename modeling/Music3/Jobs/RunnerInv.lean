import Music3.Jobs.RunnerStep

/-!
# The runner's invariant holds

`reach_ok`: `Runner.Ok` holds in every reachable state, and every step from one is a `Move`
(`reach_move`). The two parts of `Ok` are kept by rules of their own, one for each effect that a
move has on the books (`Books.drop`, `Books.advance`, …) and on the tasks (`Tasks.away`, …).
-/

namespace Music3

open Py Posix StateExcept

namespace Runner

section
variable {st : JobStore} {cancelled queue : List JobId} {w w' : Worker} {job : JobId}
  {r r' : JobRecord}

/-! ## Books -/

/-- The worker leaves its job. -/
theorem Books.leave (h : Books st cancelled queue w) (hw : w'.job? = none) :
    Books st cancelled queue w' where
  store := h.store
  cancelled := h.cancelled
  queued := h.queued
  taken := fun id e => by rw [hw] at e; cases e
  nodup := by
    rw [hw]
    exact h.nodup.sublist (List.sublist_append_right _ _)

/-- The worker stays on its job, at an await that admits no less. -/
theorem Books.stay (h : Books st cancelled queue w) (hw : w'.job? = w.job?)
    (ha : ∀ x, w.Admits x → w'.Admits x) : Books st cancelled queue w' where
  store := h.store
  cancelled := h.cancelled
  queued := h.queued
  taken := fun id e => by
    obtain ⟨r, hr, hst⟩ := h.taken id (hw ▸ e)
    exact ⟨r, hr, ha _ hst⟩
  nodup := hw ▸ h.nodup

theorem Books.drop (h : Books st cancelled (job :: queue) w) : Books st cancelled queue w where
  store := h.store
  cancelled := h.cancelled
  queued := fun id hm => h.queued id (List.mem_cons_of_mem _ hm)
  taken := h.taken
  nodup := h.nodup.sublist ((List.sublist_cons_self _ _).append_left _)

/-- The worker takes the head of the queue. -/
theorem Books.take (h : Books st cancelled (job :: queue) .atQueue) :
    Books st cancelled queue (.atReady job) where
  store := h.store
  cancelled := h.cancelled
  queued := fun id hm => h.queued id (List.mem_cons_of_mem _ hm)
  taken := fun id e => by
    cases e
    exact h.queued job List.mem_cons_self
  nodup := h.nodup

/-- A job in the queue is not the worker's. -/
theorem Books.not_queued (h : Books st cancelled queue w) (hw : w.job? = some job) :
    job ∉ queue := by
  have hn := h.nodup
  rw [hw] at hn
  exact (List.nodup_cons.mp hn).1

/-- The worker makes a transition of its own job, and goes on to an await that admits it. -/
theorem Books.advance (h : Books st cancelled queue w) (hw : w.job? = some job)
    (hr : st.job? job = some r) (ht : Transition r r') (hc : r'.status ≠ .cancelled)
    (data : Dict) (hw' : w'.job? = none ∨ w'.job? = some job ∧ w'.Admits r'.status) :
    Books (st.advance job r' data) cancelled queue w' where
  store := h.store.advance (ht.keeps.1.trans (h.store.id job r hr)) data
  cancelled := fun id => by
    rw [h.cancelled id, JobStore.job?_advance]
    split
    · rename_i e
      subst e
      constructor
      · rintro ⟨x, hx, hs⟩
        obtain rfl : r = x := Option.some.inj (hr.symm.trans hx)
        have hn := ht.not_terminal
        rw [hs] at hn
        cases hn
      · rintro ⟨x, hx, hs⟩
        cases hx
        exact absurd hs hc
    · rfl
  queued := fun id hm => by
    rw [JobStore.job?_advance, if_neg (fun e : job = id => h.not_queued hw (e ▸ hm))]
    exact h.queued id hm
  taken := fun id e => by
    rcases hw' with hw' | ⟨hw', ha⟩
    · rw [hw'] at e; cases e
    · obtain rfl : job = id := Option.some.inj (hw'.symm.trans e)
      rw [JobStore.job?_advance, if_pos rfl]
      exact ⟨r', rfl, ha⟩
  nodup := by
    rcases hw' with hw' | ⟨hw', -⟩
    · rw [hw']
      exact h.nodup.sublist (List.sublist_append_right _ _)
    · rw [hw', ← hw]
      exact h.nodup

/-- A cancel of a job, wherever the job is. -/
theorem Books.cancel (h : Books st cancelled queue w) (hr : st.job? job = some r) (now : Str)
    (data : Dict) :
    Books (st.advance job (r.cancelled now) data) (cancelled ++ [job]) queue w where
  store := h.store.advance (r := r.cancelled now) (h.store.id job r hr) data
  cancelled := fun id => by
    rw [List.mem_append, h.cancelled id, JobStore.job?_advance]
    split
    · rename_i e
      subst e
      simp [JobRecord.cancelled]
    · rename_i e
      simp [Ne.symm e]
  queued := fun id hm => by
    rw [JobStore.job?_advance]
    split
    · exact ⟨_, rfl, .inr rfl⟩
    · exact h.queued id hm
  taken := fun id e => by
    rw [JobStore.job?_advance]
    split
    · refine ⟨_, rfl, ?_⟩
      cases w with
      | atReady | atEngine => exact .inr rfl
      | _ => trivial
    · exact h.taken id e
  nodup := h.nodup

theorem Books.enqueue (h : Books st cancelled queue w) (hn : st.job? job = none)
    (submission : Submission) (now : Str) :
    Books (st.enqueued job submission now) cancelled (queue ++ [job]) w := by
  have ne : ∀ id, (∃ r, st.job? id = some r) → job ≠ id := by
    rintro id ⟨r, hr⟩ rfl
    rw [hn] at hr
    cases hr
  refine ⟨h.store.enqueued submission now, fun id => ?_, fun id hm => ?_, fun id e => ?_, ?_⟩
  · rw [h.cancelled id, JobStore.job?_enqueued]
    split
    · rename_i e
      subst e
      simp [hn, JobStore.create]
    · rfl
  · rw [JobStore.job?_enqueued]
    rcases List.mem_append.mp hm with hm | hm
    · obtain ⟨r, hr, hst⟩ := h.queued id hm
      rw [if_neg (ne id ⟨r, hr⟩)]
      exact ⟨r, hr, hst⟩
    · rw [if_pos (List.mem_singleton.mp hm).symm]
      exact ⟨_, rfl, .inl rfl⟩
  · obtain ⟨r, hr, hst⟩ := h.taken id e
    rw [JobStore.job?_enqueued, if_neg (ne id ⟨r, hr⟩)]
    exact ⟨r, hr, hst⟩
  · rw [← List.append_assoc]
    refine List.nodup_append.mpr ⟨h.nodup, List.nodup_singleton job, ?_⟩
    rintro a ha b hb rfl
    rw [List.mem_singleton] at hb
    subst hb
    rcases List.mem_append.mp ha with ha | ha
    · obtain ⟨r, hr, -⟩ := h.taken a (Option.mem_toList.mp ha)
      exact ne a ⟨r, hr⟩ rfl
    · obtain ⟨r, hr, -⟩ := h.queued a ha
      exact ne a ⟨r, hr⟩ rfl

end

/-! ## Tasks -/

section
variable {w w' : Worker} {current : Option JobId} {currentTask : Option Nat}
  {calls : List EngineCall} {mustCancel : Bool} {job : JobId} {task : Nat} {request : EngineRequest}

/-- No engine call is live. -/
def NoLive (calls : List EngineCall) : Prop :=
  ∀ (i : Nat) (c : EngineCall) (b : Bool), calls[i]? = some c → c.state ≠ .live b

theorem Tasks.noLive_away (h : Tasks w current currentTask calls mustCancel) (hw : Away w) :
    NoLive calls := by
  intro i c b hc hb
  obtain ⟨id, request, e⟩ := h.live i c b hc hb
  exact hw id i request e

/-- When the call that the worker awaits has ended, no call is live. -/
theorem Tasks.noLive_done (h : Tasks (.atEngine job task request) current currentTask calls mustCancel)
    {outcome : Outcome} (hd : calls[task]? = some ⟨job, request, .done outcome⟩) :
    NoLive calls := by
  intro i c b hc hb
  obtain ⟨id, request', e⟩ := h.live i c b hc hb
  cases e
  rw [hd] at hc
  cases hc
  cases hb

theorem Tasks.away (hw : Away w) (hn : NoLive calls)
    (hm : mustCancel = true → w = .atQueue ∨ ∃ id, w = .atReady id) :
    Tasks w none none calls mustCancel where
  engine := fun id task request e => absurd e (hw id task request)
  idle := fun _ => ⟨rfl, rfl⟩
  live := fun i c b hc hb => absurd hb (hn i c b hc)
  marked := fun e => (hm e).imp_right .inl

theorem Tasks.mark (h : Tasks w current currentTask calls mustCancel)
    (hm : w = .atQueue ∨ (∃ id, w = .atReady id) ∨
      ∃ id task request outcome, w = .atEngine id task request ∧
        calls[task]? = some ⟨id, request, .done outcome⟩) :
    Tasks w current currentTask calls true :=
  ⟨h.engine, h.idle, h.live, fun _ => hm⟩

theorem EngineCall.cancel_done {c : EngineCall} {o : Outcome} (h : c.state = .done o) :
    c.cancel = c := by
  obtain ⟨j, q, st⟩ := c
  cases h
  rfl

theorem Tasks.cancelCall (h : Tasks w current currentTask calls mustCancel) (task : Nat) :
    Tasks w current currentTask (calls.modify task EngineCall.cancel) mustCancel where
  engine := fun id i request e => by
    obtain ⟨h₁, h₂, st, hc⟩ := h.engine id i request e
    refine ⟨h₁, h₂, ?_⟩
    rw [List.getElem?_modify, hc]
    split
    · exact ⟨st.cancel, rfl⟩
    · exact ⟨st, rfl⟩
  idle := h.idle
  live := fun i c b hc hb => by
    rw [List.getElem?_modify] at hc
    obtain ⟨c', hc', e⟩ := Option.map_eq_some_iff.mp hc
    cases hst : c'.state with
    | live b' => exact h.live i c' b' hc' hst
    | done o =>
      have : c = c' := by
        rw [← e]
        split
        · exact EngineCall.cancel_done hst
        · rfl
      rw [this, hst] at hb
      cases hb
  marked := fun e => by
    refine (h.marked e).imp_right (.imp_right ?_)
    rintro ⟨id, i, request, outcome, hw, hc⟩
    refine ⟨id, i, request, outcome, hw, ?_⟩
    rw [List.getElem?_modify, hc]
    split <;> rfl

/-- The end of a live engine call. -/
theorem Tasks.ends (h : Tasks w current currentTask calls mustCancel) {b : Bool}
    (hl : calls[task]? = some ⟨job, request, .live b⟩) (outcome : Outcome) :
    Tasks w current currentTask (calls.set task ⟨job, request, .done outcome⟩) mustCancel where
  engine := fun id i request' e => by
    obtain ⟨h₁, h₂, st, hc⟩ := h.engine id i request' e
    refine ⟨h₁, h₂, ?_⟩
    rw [List.getElem?_set]
    split
    · rename_i e'
      subst e'
      rw [hl] at hc
      cases hc
      rw [if_pos (List.getElem?_eq_some_iff.mp hl).1]
      exact ⟨_, rfl⟩
    · exact ⟨st, hc⟩
  idle := h.idle
  live := fun i c b' hc hb => by
    rw [List.getElem?_set] at hc
    split at hc
    · split at hc
      · cases hc; cases hb
      · cases hc
    · exact h.live i c b' hc hb
  marked := fun e => by
    refine (h.marked e).imp_right (.imp_right ?_)
    rintro ⟨id, i, request', o, hw, hc⟩
    refine ⟨id, i, request', o, hw, ?_⟩
    rw [List.getElem?_set, if_neg]
    · exact hc
    · rintro rfl
      rw [hl] at hc
      cases hc

/-- The start of an engine call. -/
theorem Tasks.begin (hn : NoLive calls) (job : JobId) (request : EngineRequest) :
    Tasks (.atEngine job calls.length request) (some job) (some calls.length)
      (calls ++ [⟨job, request, .live false⟩]) false where
  engine := fun id task request' e => by
    cases e
    exact ⟨rfl, rfl, .live false, List.getElem?_concat_length⟩
  idle := fun h => absurd rfl (h job calls.length request)
  live := fun i c b hc hb => by
    rw [List.getElem?_append] at hc
    split at hc
    · exact absurd hb (hn i c b hc)
    · rename_i hi
      rw [List.getElem?_singleton] at hc
      split at hc
      · have : i = calls.length := by omega
        subst this
        exact ⟨_, _, rfl⟩
      · cases hc
  marked := fun e => by cases e

end

/-! ## Moves keep the invariant -/

section
variable {G : Type} {s : Runner G}

theorem away_unstarted : Away .unstarted := fun _ _ _ e => by cases e
theorem away_atQueue : Away .atQueue := fun _ _ _ e => by cases e
theorem away_atReady (job : JobId) : Away (.atReady job) := fun _ _ _ e => by cases e
theorem away_stopped (job : Option JobId) : Away (.stopped job) := fun _ _ _ e => by cases e
theorem away_died (job : JobId) (e : Exc) : Away (.died job e) := fun _ _ _ e => by cases e

/-- The worker moves between awaits that are no engine calls. -/
theorem Ok.tasks_away (hs : s.Ok) {w : Worker} (h : Away s.worker) (hw : Away w) :
    Tasks w s.current s.currentTask s.calls false := by
  obtain ⟨h₁, h₂⟩ := hs.tasks.idle h
  rw [h₁, h₂]
  exact .away hw (hs.tasks.noLive_away h) fun e => by cases e

/-- The worker leaves an engine call that has ended. -/
theorem Ok.tasks_release (hs : s.Ok) {job : JobId} {task : Nat} {request : EngineRequest}
    {outcome : Outcome} {w : Worker} (h : s.worker = .atEngine job task request)
    (hc : s.calls[task]? = some ⟨job, request, .done outcome⟩) (hw : Away w) :
    Tasks w none none s.calls false := by
  have ht := hs.tasks
  rw [h] at ht
  exact .away hw (ht.noLive_done hc) fun e => by cases e

theorem Ok.not_marked (hs : s.Ok) (h : s.worker = .unstarted) : s.mustCancel = false := by
  by_contra hm
  rcases hs.tasks.marked (by simpa using hm) with e | ⟨id, e⟩ | ⟨id, task, request, o, e, -⟩ <;>
    (rw [h] at e; cases e)

theorem Ok.tasks_abort (hs : s.Ok) (job : JobId) :
    Tasks s.worker s.current s.currentTask (s.abort job).calls s.mustCancel := by
  unfold abort
  simp only
  split
  · split
    · exact hs.tasks.cancelCall _
    · exact hs.tasks
  · exact hs.tasks

end

end Runner

open Runner

section
variable {G : Type} [ReadinessGate G] {cfg : Config} {s s' : Runner G}

/-- The worker at its last await, after its call: the state that `Persist` ends in. -/
theorem Persist.ok {job : JobId} {task : Nat} {request : EngineRequest} {result : EngineResult}
    {outcome : Outcome} {now later : Str} {faults : List (Option Nat)} {r : JobRecord} (hs : s.Ok)
    (hw : s.worker = .atEngine job task request)
    (hc : s.calls[task]? = some ⟨job, request, .done outcome⟩) (hr : s.store.job? job = some r)
    (hst : r.status = .running)
    (h : Persist cfg s.release job r request result now later faults s') : s'.Ok := by
  have hb := hs.books
  have hj : s.worker.job? = some job := by rw [hw]; rfl
  have hf : r.status.terminal = false := by rw [hst]; rfl
  have hq : ∀ {w : Worker}, Away w → Tasks w none none s.calls false :=
    fun hw' => hs.tasks_release hw hc hw'
  cases h with
  | noRoot =>
    exact ⟨hb.advance hj hr (.succeeded result now hst) (by intro e; cases e) [] (.inl rfl),
      hq away_atQueue⟩
  | stored root dir sys =>
    exact ⟨hb.advance hj hr (.succeeded result now hst) (by intro e; cases e) [] (.inl rfl),
      hq away_atQueue⟩
  | writeFailed root e sys =>
    exact ⟨hb.advance hj hr (.failed _ later hf) (by intro e; cases e) _ (.inl rfl),
      hq away_atQueue⟩
  | died root sys =>
    exact ⟨hb.stay (by rw [hj]; rfl) fun _ _ => trivial, hq (away_died job _)⟩

/-- A move keeps the invariant. -/
theorem Move.ok {a : Action G} (h : Move cfg s a s') (hs : s.Ok) : s'.Ok := by
  have hb := hs.books
  cases h with
  | start hw =>
    have ht := hs.tasks_away (hw ▸ away_unstarted) away_atQueue
    rw [← hs.not_marked hw] at ht
    exact ⟨hb.leave rfl, ht⟩
  | stopMark hw => exact ⟨hb, hs.tasks.mark hw⟩
  | stopForward id task request b hw hc => exact ⟨hb, hs.tasks.cancelCall task⟩
  | submit submission now job hn => exact ⟨hb.enqueue hn submission now, hs.tasks⟩
  | cancelRefused job now hr => exact hs
  | cancel job now r hr hst => exact ⟨hb.cancel hr now [], hs.tasks_abort job⟩
  | drop job queue now hw hm hq hc =>
    have ht := hs.tasks_away (hw ▸ away_atQueue) away_atQueue
    rw [← hm] at ht
    exact ⟨Books.leave (hq ▸ hb).drop rfl, ht⟩
  | take job queue now hw hm hq hc =>
    have ht := hs.tasks_away (hw ▸ away_atQueue) (away_atReady job)
    rw [← hm] at ht
    exact ⟨Books.take (hw ▸ hq ▸ hb), ht⟩
  | readyDrop job state now hw hm hc =>
    have ht := hs.tasks_away (hw ▸ away_atReady job) away_atQueue
    rw [← hm] at ht
    exact ⟨hb.leave rfl, ht⟩
  | readyFail job state now r hw hm hc hr hst hn =>
    have ht := hs.tasks_away (hw ▸ away_atReady job) away_atQueue
    rw [← hm] at ht
    exact ⟨hb.advance (by rw [hw]; rfl) hr (.failed _ now (by rw [hst]; rfl)) (by intro e; cases e)
      _ (.inl rfl), ht⟩
  | begin job now r hw hm hc hr hst =>
    refine ⟨hb.advance (by rw [hw]; rfl) hr (.running now hst) (by intro e; cases e) []
      (.inr ⟨rfl, .inl rfl⟩), ?_⟩
    show Tasks _ _ _ _ s.mustCancel
    rw [hm]
    exact .begin (hs.tasks.noLive_away (hw ▸ away_atReady job)) job _
  | callEnds job task request b outcome hc => exact ⟨hb, hs.tasks.ends hc outcome⟩
  | resumeDrop job task request outcome now later faults hw hcall hc =>
    exact ⟨hb.leave rfl, hs.tasks_release hw hcall away_atQueue⟩
  | resumeStopped job task request outcome now later faults hw hcall hc ho =>
    exact ⟨hb.stay (by rw [hw]; rfl) fun _ _ => trivial,
      hs.tasks_release hw hcall (away_stopped _)⟩
  | resumeFail job task request outcome message now later faults r hw hcall hc ho hr hst =>
    exact ⟨hb.advance (by rw [hw]; rfl) hr (.failed _ now (by rw [hst]; rfl)) (by intro e; cases e)
      _ (.inl rfl), hs.tasks_release hw hcall away_atQueue⟩
  | resumeResult job task request outcome result now later faults r s' hw hcall hc ho hr hst hp =>
    exact hp.ok hs hw hcall hr hst
  | teardownQueue hw hm =>
    exact ⟨hb.leave rfl, hs.tasks_away (hw ▸ away_atQueue) (away_stopped _)⟩
  | teardownReady job hw hm =>
    exact ⟨hb.stay (by rw [hw]; rfl) fun _ _ => trivial,
      hs.tasks_away (hw ▸ away_atReady job) (away_stopped _)⟩
  | gate g => exact ⟨hb, hs.tasks⟩

theorem init_ok (h : (runner cfg : Lts (Runner G) (Action G)).init s) : s.Ok := by
  obtain ⟨limit, store, gate, fs, hn, -, rfl⟩ := h
  unfold JobStore.new at hn
  split at hn
  · cases hn
  cases hn
  have none : ∀ id, (⟨[], [], [], limit.toNat, by omega⟩ : JobStore).job? id = none := fun _ => rfl
  refine ⟨⟨⟨?_, ?_⟩, ?_, ?_, ?_, List.nodup_nil⟩, .away away_unstarted ?_ fun e => by cases e⟩
  · intro id r h; rw [none] at h; cases h
  · intro id r h; rw [none] at h; cases h
  · intro id; simp [none]
  · intro id h; cases h
  · intro id h; cases h
  · intro i c b h; cases h

variable {P : Runner G → Action G → Prop}

/-- The invariant holds in every reachable state. -/
theorem reach_ok (h : (runner cfg).Reach P s) : s.Ok :=
  h.invariant (fun _ => init_ok) fun _ _ _ hs _ hst => (hs.move cfg hst).ok hs

theorem reach_move {a : Action G} (h : (runner cfg).Reach P s)
    (hs : (runner cfg).step s a = some s') : Move cfg s a s' := (reach_ok h).move cfg hs

end

end Music3
