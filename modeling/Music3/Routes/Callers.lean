import Music3.Jobs.Origin
import Music3.Jobs.Stored
import Music3.Routes.Desk

/-!
# Callers that wait for their song

`music_generation` from `runner.submit` to the delivery. A caller looks at its job, in
`_await_terminal`, as often as its sleeps end; once the job is terminal, it goes on with the
delivery or with a local failure. `edge cfg` is the runner with the callers of the cloud route; all
its other clients may take any step of the runner.

* `CallersServed`: in every run each caller goes on with a delivery of what the engine has made for its
  own request, or with the message of its own failure, whatever the others do; and the first look at
  a finished job is the last.
* `Delivers`: in a run with an artifacts directory, new ids in it and no overflow of the encoder, the
  delivery opens the audio that the engine has made.
-/

namespace Music3

open Py Posix StateExcept

/-- A run of `music_generation` that has submitted its job. -/
structure Caller where
  traceId : JobId
  request : LocalRequest

/-- How `music_generation` goes on after `_await_terminal`. -/
inductive AfterWait where
  | deliver
  | failure (message : Str)

/-- `_await_terminal`, once round its loop: the status, if it is terminal. -/
def awaitRound (st : JobStore) (traceId : JobId) : Except Exc (Option JobStatus) := do
  let record ← st.get traceId
  return if record.status.terminal then some record.status else none

/-- The message of a job that has not succeeded. -/
def waitError (record : JobRecord) (status : JobStatus) : Str :=
  (record.error.filter (· ≠ [])).getD (lit "job " ++ status.value)

/-- `music_generation` between `_await_terminal` and the delivery. -/
def afterWait (st : JobStore) (traceId : JobId) (status : JobStatus) : Except Exc AfterWait := do
  if status = .succeeded then return .deliver
  let record ← st.get traceId
  return .failure (waitError record status)

/-- The runner and the callers (module doc). -/
structure Edge (G : Type) where
  runner : Runner G
  waiting : List Caller := []
  /-- The callers that have stopped waiting, and how they go on. -/
  returned : List (Caller × Except Exc AfterWait) := []

/-- What can happen. -/
inductive EdgeAction (G : Type) where
  | runner (a : Action G)
  /-- A request that has been translated. -/
  | call (request : LocalRequest) (now : Str) (traceId : JobId)
  /-- The end of the sleep of the `i`th caller that waits. -/
  | wake (i : Nat)

section
variable {G : Type}

/-- The step of the runner in an action. -/
def EdgeAction.runner? : EdgeAction G → Option (Action G)
  | .runner a => some a
  | .call request now traceId => some (.submit request.submission now traceId)
  | .wake _ => none

namespace Edge

/-- Every caller. -/
def callers (s : Edge G) : List Caller := s.waiting ++ s.returned.map Prod.fst

/-- A caller looks at its job. -/
def look (s : Edge G) (c : Caller) : Edge G :=
  match awaitRound s.runner.store c.traceId with
  | .ok none => { s with waiting := s.waiting ++ [c] }
  | .ok (some status) => { s with
      returned := s.returned ++ [(c, afterWait s.runner.store c.traceId status)] }
  | .error e => { s with returned := s.returned ++ [(c, .error e)] }

variable [ReadinessGate G] (cfg : Config)

/-- One step. The ids that the store makes are new, and hex digits. -/
def step (s : Edge G) : EdgeAction G → Option (Edge G)
  | .runner a => (s.runner.step cfg a).map fun runner => { s with runner }
  | .call request now traceId =>
    if isJobId traceId then
      (s.runner.step cfg (.submit request.submission now traceId)).map fun runner =>
        look { s with runner } ⟨traceId, request⟩
    else none
  | .wake i => s.waiting[i]?.map fun c => look { s with waiting := s.waiting.eraseIdx i } c

end Edge

/-- The edge as a labelled system (module doc). -/
def edge [ReadinessGate G] (cfg : Config) : Lts (Edge G) (EdgeAction G) where
  init s := (runner cfg).init s.runner ∧ s = { runner := s.runner }
  step := Edge.step cfg

/-- A condition on the steps of the runner. -/
def EdgeAction.Meets (P : Runner G → Action G → Prop) (s : Edge G) (a : EdgeAction G) : Prop :=
  ∀ b, a.runner? = some b → P s.runner b

/-! ## What a caller has -/

/-- How a caller goes on whose job has this record. -/
def outcomeOf (r : JobRecord) : AfterWait :=
  if r.status = .succeeded then .deliver else .failure (waitError r r.status)

/-- The job of a caller is its own. -/
def Owns (st : JobStore) (c : Caller) : Prop :=
  ∃ r, st.job? c.traceId = some r ∧ r.submission = c.request.submission

/-- A caller has stopped waiting with what its job says. -/
def Returned (st : JobStore) (p : Caller × Except Exc AfterWait) : Prop :=
  ∃ r, st.job? p.1.traceId = some r ∧ r.status.terminal = true ∧ p.2 = .ok (outcomeOf r)

/-- The invariant of the callers. -/
structure Edge.Ok (s : Edge G) : Prop where
  ids : (s.callers.map Caller.traceId).Nodup
  valid : ∀ c ∈ s.callers, isJobId c.traceId = true
  owns : ∀ c ∈ s.callers, Owns s.runner.store c
  returned : ∀ p ∈ s.returned, Returned s.runner.store p

section
variable {s : Edge G} {c : Caller} {r : JobRecord}

theorem awaitRound_eq {st : JobStore} {id : JobId} (h : st.job? id = some r) :
    awaitRound st id = .ok (if r.status.terminal then some r.status else none) := by
  unfold JobStore.job? at h
  simp only [awaitRound, JobStore.get, h]
  rfl

theorem afterWait_eq {st : JobStore} {id : JobId} (h : st.job? id = some r) :
    afterWait st id r.status = .ok (outcomeOf r) := by
  unfold JobStore.job? at h
  simp only [afterWait, JobStore.get, h, outcomeOf]
  split <;> rfl

/-- A look at a job that has ended. -/
theorem Edge.look_ended (h : s.runner.store.job? c.traceId = some r)
    (ht : r.status.terminal = true) :
    s.look c = { s with returned := s.returned ++ [(c, .ok (outcomeOf r))] } := by
  simp only [Edge.look, awaitRound_eq h, ht, ↓reduceIte, afterWait_eq h]

/-- A look at one that has not. -/
theorem Edge.look_open (h : s.runner.store.job? c.traceId = some r)
    (ht : r.status.terminal = false) : s.look c = { s with waiting := s.waiting ++ [c] } := by
  simp only [Edge.look, awaitRound_eq h, ht, Bool.false_eq_true, ↓reduceIte]

theorem Edge.look_callers (s : Edge G) (c : Caller) : (s.look c).callers.Perm (c :: s.callers) := by
  have hreturned (x : Except Exc AfterWait) :
      (s.waiting ++ (s.returned ++ [(c, x)]).map Prod.fst).Perm (c :: s.callers) := by
    rw [List.map_append, List.map_singleton, ← List.append_assoc]
    exact List.perm_append_singleton _ _
  unfold Edge.look
  split
  · exact (List.perm_append_comm.append_right _).trans (by rw [List.append_assoc]; rfl)
  · exact hreturned _
  · exact hreturned _

theorem Edge.look_runner (s : Edge G) (c : Caller) : (s.look c).runner = s.runner := by
  unfold Edge.look
  split <;> rfl

/-- A caller of its own looks at its job. -/
theorem Edge.Ok.look (h : s.Ok) (hc : c.traceId ∉ s.callers.map Caller.traceId)
    (hid : isJobId c.traceId = true) (hown : Owns s.runner.store c) : (s.look c).Ok := by
  have hperm := s.look_callers c
  refine ⟨?_, ?_, ?_, ?_⟩
  · rw [(hperm.map Caller.traceId).nodup_iff]
    exact List.nodup_cons.mpr ⟨hc, h.ids⟩
  · intro x hx
    obtain rfl | hx := List.mem_cons.mp (hperm.mem_iff.mp hx)
    · exact hid
    · exact h.valid x hx
  · intro x hx
    rw [s.look_runner c]
    obtain rfl | hx := List.mem_cons.mp (hperm.mem_iff.mp hx)
    · exact hown
    · exact h.owns x hx
  · obtain ⟨r, hr, -⟩ := hown
    cases ht : r.status.terminal with
    | true =>
      rw [look_ended hr ht]
      intro p hp
      obtain hp | hp := List.mem_append.mp hp
      · exact h.returned p hp
      · rw [List.mem_singleton.mp hp]
        exact ⟨r, hr, ht, rfl⟩
    | false =>
      rw [look_open hr ht]
      exact h.returned

/-- The runner has gone on. -/
theorem Edge.Ok.kept (h : s.Ok) {runner : Runner G} (hk : Runner.Kept s.runner runner) :
    Edge.Ok { s with runner } where
  ids := h.ids
  valid := h.valid
  owns c hc := by
    obtain ⟨r, hr, hsub⟩ := h.owns c hc
    obtain ⟨r', hr', -, hsub', -⟩ := hk c.traceId r hr
    exact ⟨r', hr', hsub'.trans hsub⟩
  returned p hp := by
    obtain ⟨r, hr, ht, he⟩ := h.returned p hp
    obtain ⟨r', hr', -, -, -, hkeep⟩ := hk p.1.traceId r hr
    obtain ⟨rfl, -⟩ := hkeep ht
    exact ⟨r', hr', ht, he⟩

/-- A caller that wakes up, and the others. -/
theorem Edge.callers_erase {i : Nat} (h : s.waiting[i]? = some c) :
    (c :: Edge.callers { s with waiting := s.waiting.eraseIdx i }).Perm s.callers := by
  obtain ⟨hi, rfl⟩ := List.getElem?_eq_some_iff.mp h
  exact (List.getElem_cons_eraseIdx_perm hi).append_right _

theorem Edge.Ok.wake (h : s.Ok) {i : Nat} (hi : s.waiting[i]? = some c) :
    (Edge.look { s with waiting := s.waiting.eraseIdx i } c).Ok := by
  have hperm := s.callers_erase hi
  have hids := (hperm.map Caller.traceId).nodup_iff.mpr h.ids
  have hsub {x : Caller} (hx : x ∈ Edge.callers { s with waiting := s.waiting.eraseIdx i }) :
      x ∈ s.callers := hperm.mem_iff.mp (List.mem_cons_of_mem _ hx)
  have hc : c ∈ s.callers := hperm.mem_iff.mp List.mem_cons_self
  have herase : Edge.Ok { s with waiting := s.waiting.eraseIdx i } :=
    ⟨(List.nodup_cons.mp hids).2, fun _ hx => h.valid _ (hsub hx), fun _ hx => h.owns _ (hsub hx),
      h.returned⟩
  exact herase.look (List.nodup_cons.mp hids).1 (h.valid c hc) (h.owns c hc)

end

section
variable [ReadinessGate G] {cfg : Config} {root : Str} {s s' : Edge G}
  {P : Runner G → Action G → Prop}

theorem Edge.Ok.call (h : s.Ok) (hr : (Music3.runner cfg).Reach P s.runner) {request : LocalRequest}
    {now : Str} {traceId : JobId} {next : Runner G} (hid : isJobId traceId = true)
    (hst : (Music3.runner cfg).step s.runner (.submit request.submission now traceId) = some next) :
    (Edge.look { s with runner := next } ⟨traceId, request⟩).Ok := by
  have hmove := reach_move hr hst
  have hok := h.kept hmove.storeStep.kept
  cases hmove with
  | submit _ _ _ hn =>
    refine hok.look (fun hm => ?_) hid
      ⟨_, (JobStore.job?_enqueued _ _ _).trans (if_pos rfl), rfl⟩
    obtain ⟨c, hc, rfl⟩ := List.mem_map.mp hm
    obtain ⟨r, hr, -⟩ := h.owns c hc
    rw [hn] at hr
    cases hr

/-- What an action of the edge is. -/
theorem Edge.step_cases {a : EdgeAction G} (hst : (edge cfg).step s a = some s') :
    (∃ b next, a = .runner b ∧ s.runner.step cfg b = some next ∧ s' = { s with runner := next }) ∨
    (∃ request now traceId next, a = .call request now traceId ∧ isJobId traceId = true ∧
      s.runner.step cfg (.submit request.submission now traceId) = some next ∧
      s' = Edge.look { s with runner := next } ⟨traceId, request⟩) ∨
    ∃ i c, a = .wake i ∧ s.waiting[i]? = some c ∧
      s' = Edge.look { s with waiting := s.waiting.eraseIdx i } c := by
  cases a with
  | runner b =>
    obtain ⟨next, hn, rfl⟩ := Option.map_eq_some_iff.mp hst
    exact .inl ⟨b, next, rfl, hn, rfl⟩
  | call request now traceId =>
    obtain ⟨hid, hst⟩ := Option.ite_none_right_eq_some.mp hst
    obtain ⟨next, hn, rfl⟩ := Option.map_eq_some_iff.mp hst
    exact .inr (.inl ⟨request, now, traceId, next, rfl, hid, hn, rfl⟩)
  | wake i =>
    obtain ⟨c, hi, rfl⟩ := Option.map_eq_some_iff.mp hst
    exact .inr (.inr ⟨i, c, rfl, hi, rfl⟩)

/-- The runner of the edge takes the steps of the runner. -/
theorem edge_sim : Lts.Sim (edge cfg : Lts (Edge G) (EdgeAction G)) (runner cfg)
    (EdgeAction.Meets P) P Edge.runner where
  init s h := h.1
  step s a s' _ hc hst := by
    obtain ⟨b, next, rfl, hn, rfl⟩ | ⟨request, now, traceId, next, rfl, -, hn, rfl⟩ |
      ⟨i, c, rfl, -, rfl⟩ := Edge.step_cases hst
    · exact .single (hc b rfl) hn
    · rw [Edge.look_runner]
      exact .single (hc _ rfl) hn
    · rw [Edge.look_runner]
      exact .refl

theorem edge_runner (h : (edge cfg).Reach Lts.always s) : (runner cfg).Reach Lts.always s.runner :=
  edge_sim.reach (h.mono fun _ _ _ _ _ => trivial)

theorem edge_ok (h : (edge cfg).Reach Lts.always s) : s.Ok := by
  obtain ⟨s₀, h₀, hp⟩ := h
  refine hp.preserves_reach (I := Edge.Ok) (fun s a s' hr hok _ hst => ?_) (.init h₀) ?_
  · obtain ⟨b, next, rfl, hn, rfl⟩ | ⟨request, now, traceId, next, rfl, hid, hn, rfl⟩ |
      ⟨i, c, rfl, hi, rfl⟩ := Edge.step_cases hst
    · exact hok.kept (reach_move (edge_runner hr) hn).storeStep.kept
    · exact hok.call (edge_runner hr) hid hn
    · exact hok.wake hi
  · rw [h₀.2]
    exact ⟨List.nodup_nil, List.forall_mem_nil _, List.forall_mem_nil _, List.forall_mem_nil _⟩

/-! ## What a caller gets -/

/-- The engine call that was made for the caller's request, and its result. -/
def Made (cfg : Config) (s : Runner G) (c : Caller) (result : EngineResult) : Prop :=
  ⟨c.traceId, engineRequest cfg c.request.submission, .done (.result result)⟩ ∈ s.calls

/-- The delivery opens the audio that the engine has made for the caller. -/
def Delivers (cfg : Config) (root : Str) (s : Runner G) (c : Caller) : Prop :=
  ∃ result, Made cfg s c result ∧
    ∀ sys : Sys, sys.fs = s.fs → sys.turns = [] → ∃ fd size t,
      (openOrNone root c.traceId audioName).run sys = .ok (some (fd, size)) t ∧
        t.fds[fd]?.bind t.fs.file? = some result.audio

/-- The message tells what became of the caller's own job. -/
inductive Fails (cfg : Config) (s : Runner G) (c : Caller) (message : Str) : Prop
  | cancelled (r : JobRecord) : s.store.job? c.traceId = some r → r.status = .cancelled →
      message = lit "job cancelled" → Fails cfg s c message
  | notReady (state : ReadinessState) (cause : Str) : state ≠ .ready →
      (∀ call ∈ s.calls, call.job ≠ c.traceId) → message = notReadyMessage state cause →
      Fails cfg s c message
  | engine (error : Str) :
      ⟨c.traceId, engineRequest cfg c.request.submission, .done (.error error)⟩ ∈ s.calls →
      message = (if error = [] then lit "job failed" else error) → Fails cfg s c message
  | write (result : EngineResult) (e : Exc) : Made cfg s c result →
      isWriteFailure e = true → message = lit "artifact write failed: " ++ e.text cfg.platform →
      Fails cfg s c message

/-- The callers of a state are served (module doc). -/
structure CallersServed (cfg : Config) (s : Edge G) : Prop where
  ids : (s.callers.map Caller.traceId).Nodup
  made : ∀ c, (c, .ok .deliver) ∈ s.returned → ∃ result, Made cfg s.runner c result
  fails : ∀ c message, (c, .ok (.failure message)) ∈ s.returned → Fails cfg s.runner c message
  raises : ∀ c e, (c, .error e) ∉ s.returned
  /-- A caller stops waiting at its first look at a terminal job, and not before. -/
  prompt : ∀ (i : Nat) c, s.waiting[i]? = some c → ∃ r s', s.runner.store.job? c.traceId = some r ∧
    (edge cfg).step s (.wake i) = some s' ∧
      if r.status.terminal then c ∉ s'.waiting ∧ (c, .ok (outcomeOf r)) ∈ s'.returned
      else c ∈ s'.waiting ∧ s'.returned = s.returned
  /-- Without an artifacts directory a delivery is a local failure. -/
  unconfigured : cfg.artifactsRoot = none →
    ∀ (N : Numbers cfg.platform) baseUrl tools desk c, c ∈ s.callers →
      (deliver cfg.platform N cfg.artifactsRoot baseUrl c.request tools c.traceId).run desk =
        .ok (.json ⟨503, errorEnvelope 5000 (lit "artifacts directory is not configured")
          (some c.traceId)⟩) desk

variable {c : Caller}

/-- The job of a caller that goes on to deliver has succeeded, with what the engine has made. -/
theorem edge_made (h : (edge cfg).Reach Lts.always s) (hc : (c, .ok .deliver) ∈ s.returned) :
    ∃ r result, s.runner.store.job? c.traceId = some r ∧ r.status = .succeeded ∧
      r.audio = some result.audio ∧ Made cfg s.runner c result := by
  have hok := edge_ok h
  have hreach := edge_runner h
  obtain ⟨r, hr, -, he⟩ := hok.returned _ hc
  have hst : r.status = .succeeded := by
    rw [outcomeOf, Except.ok.injEq] at he
    split at he
    · assumption
    · cases he
  obtain ⟨r', hr', hsub⟩ := hok.owns c (List.mem_append_right _ (List.mem_map_of_mem hc))
  obtain rfl := Option.some.inj (hr.symm.trans hr')
  have hid := (reach_ok hreach).books.store.id c.traceId r hr
  cases (reach_origins hreach).origin c.traceId r hr with
  | succeeded result _ hended ha =>
    rw [EndedWith, hid, hsub] at hended
    exact ⟨r, result, hr, hst, ha, hended⟩
  | unfinished ht => rw [hst] at ht; cases ht
  | cancelled h | notReady _ _ h | engineFailed _ h | writeFailed _ _ h => rw [hst] at h; cases h

theorem edge_delivers (hroot : cfg.artifactsRoot = some root)
    (h : (edge cfg).Reach (EdgeAction.Meets (Clean cfg)) s) (hc : (c, .ok .deliver) ∈ s.returned) :
    Delivers cfg root s.runner c := by
  obtain ⟨r, result, hr, hst, ha, hmade⟩ := edge_made h.always hc
  refine ⟨result, hmade, fun sys hfs hturns => ?_⟩
  -- the audio of the job is the file
  have hreach := edge_sim.reach h
  have hid := (reach_ok hreach).books.store.id c.traceId r hr
  have hdisk := reach_disk hroot (fun _ _ hc => hc) hreach
  obtain ⟨audio, facts, sidecar, data, hart⟩ := hdisk.stored c.traceId r hr hst
  have haudio := hart.audioFile
  have hsidecar := hart.sidecarFile
  rw [hid] at haudio hsidecar
  obtain rfl := Option.some.inj (hart.isAudio.symm.trans ha)
  have hname : audioName = audioName ∨ audioName = sidecarName := .inl rfl
  obtain ⟨o, t, hrun, -, -, hsome, hheld⟩ := openOrNone_still root c.traceId hturns hname
  have hserved : Servable root sys.fs c.traceId := by
    refine ⟨(edge_ok h.always).valid c (List.mem_append_right _ (List.mem_map_of_mem hc)), ?_, ?_⟩
    · rw [hfs, hdisk.rootPath]
    · rw [complete, hfs, haudio, hsidecar]
      rfl
  obtain ⟨⟨fd, size⟩, rfl⟩ := Option.isSome_iff_exists.mp (hsome.mpr hserved)
  refine ⟨fd, size, t, hrun, ?_⟩
  rw [hheld fd size rfl, hfs, haudio]

theorem waitError_some {r : JobRecord} {status : JobStatus} {e : Str} (h : r.error = some e) :
    waitError r status = if e = [] then lit "job " ++ status.value else e := by
  rw [waitError, h, Option.filter_some]
  split <;> simp_all

theorem edge_fails {message : Str} (h : (edge cfg).Reach Lts.always s)
    (hc : (c, .ok (.failure message)) ∈ s.returned) : Fails cfg s.runner c message := by
  have hok := edge_ok h
  have hreach := edge_runner h
  obtain ⟨r, hr, ht, he⟩ := hok.returned _ hc
  obtain ⟨hst, hmessage⟩ : r.status ≠ .succeeded ∧ message = waitError r r.status := by
    rw [outcomeOf, Except.ok.injEq] at he
    split at he
    · cases he
    · exact ⟨by assumption, AfterWait.failure.inj he⟩
  obtain ⟨r', hr', hsub⟩ := hok.owns c (List.mem_append_right _ (List.mem_map_of_mem hc))
  obtain rfl := Option.some.inj (hr.symm.trans hr')
  have hid := (reach_ok hreach).books.store.id c.traceId r hr
  cases (reach_origins hreach).origin c.traceId r hr with
  | unfinished hn => rw [ht] at hn; cases hn
  | succeeded _ h => exact absurd h hst
  | cancelled hcancelled _ herror =>
    refine .cancelled r hr hcancelled ?_
    rw [hmessage, waitError, herror, hcancelled]
    rfl
  | notReady state cause hfailed hstate herror hcalls =>
    refine .notReady state cause hstate (hid ▸ hcalls) ?_
    rw [hmessage, waitError_some herror, if_neg]
    exact List.append_ne_nil_of_left_ne_nil (List.append_ne_nil_of_left_ne_nil (by decide) _) _
  | engineFailed error hfailed hended herror =>
    rw [EndedWith, hid, hsub] at hended
    refine .engine error hended ?_
    rw [hmessage, waitError_some herror, hfailed]
    rfl
  | writeFailed result e hfailed hended hwrite herror =>
    rw [EndedWith, hid, hsub] at hended
    refine .write result e hended hwrite ?_
    rw [hmessage, waitError_some herror, if_neg]
    exact List.append_ne_nil_of_left_ne_nil (by decide) _

theorem edge_prompt (hok : s.Ok) {i : Nat} (hi : s.waiting[i]? = some c) :
    ∃ r s', s.runner.store.job? c.traceId = some r ∧
    (edge cfg).step s (.wake i) = some s' ∧
      if r.status.terminal then c ∉ s'.waiting ∧ (c, .ok (outcomeOf r)) ∈ s'.returned
      else c ∈ s'.waiting ∧ s'.returned = s.returned := by
  obtain ⟨r, hr, -⟩ := hok.owns c (List.mem_append_left _ (List.mem_of_getElem? hi))
  refine ⟨r, Edge.look { s with waiting := s.waiting.eraseIdx i } c, hr, congrArg (Option.map _) hi, ?_⟩
  have hr : ({ s with waiting := s.waiting.eraseIdx i } : Edge G).runner.store.job? c.traceId =
      some r := hr
  cases ht : r.status.terminal with
  | true =>
    rw [Edge.look_ended hr ht, if_pos rfl]
    refine ⟨fun hm => ?_, List.mem_append_right _ (List.mem_singleton_self _)⟩
    have hids := ((s.callers_erase hi).map Caller.traceId).nodup_iff.mpr hok.ids
    exact (List.nodup_cons.mp hids).1 (List.mem_map_of_mem (List.mem_append_left _ hm))
  | false =>
    rw [Edge.look_open hr ht, if_neg Bool.false_ne_true]
    exact ⟨List.mem_append_right _ (List.mem_singleton_self _), rfl⟩

end

/-- The callers are served in every run. In one with an artifacts directory, new ids in it and no
overflow, those that go on to deliver find there what the engine has made for them. -/
theorem callers_served [ReadinessGate G] (cfg : Config) (s : Edge G) :
    ((edge cfg).Reach Lts.always s → CallersServed cfg s) ∧
    ∀ root, cfg.artifactsRoot = some root → (edge cfg).Reach (EdgeAction.Meets (Clean cfg)) s →
      ∀ c, (c, .ok .deliver) ∈ s.returned → Delivers cfg root s.runner c := by
  refine ⟨fun h => ?_, fun root hroot h c hc => edge_delivers hroot h hc⟩
  refine ⟨(edge_ok h).ids, fun c hc => ?_, fun _ _ hc => edge_fails h hc, fun c e hc => ?_,
    fun _ _ hi => edge_prompt (edge_ok h) hi, fun hroot N baseUrl tools desk c hc => ?_⟩
  · obtain ⟨r, result, -, -, -, hmade⟩ := edge_made h hc
    exact ⟨result, hmade⟩
  · obtain ⟨r, -, -, he⟩ := (edge_ok h).returned _ hc
    cases he
  · have hid := isJobId_ascii ((edge_ok h).valid c hc)
    rw [hroot]
    exact run_ofExcept_ok (localFailureAnswer_ok hid (ascii_lit (by decide))) desk

end

namespace Sample

/-- A request without an `audio_setting`. -/
def wavRequest : LocalRequest where
  input := lit "[Verse]"
  instructions := lit "warm"
  seed := 0
  maxNewTokens := 9000
  outputFormat := .url
  plan := ⟨.wav, 32000, 2, none⟩
  cloud := [(lit "model", .str (lit "music-3.0")), (lit "prompt", .str (lit "warm")),
    (lit "lyrics", .str (lit "[Verse]")), (lit "output_format", .str (lit "url"))]

/-- A call with an id that the tree does not know, and no deep request when an artifact is
written. -/
def edgeClean (s : Edge Readiness) : EdgeAction Readiness → Bool
  | .runner (.submit _ _ _) => false
  | .runner (.resume _ _ _) => s.runner.store.jobs.all fun p => cloudDepth p.2.submission + 2 ≤ 990
  | .call _ _ id => (s.runner.fs.lookup s.runner.fs.root id).isNone
  | _ => true

theorem edgeClean_clean (s : Edge Readiness) (a : EdgeAction Readiness) (h : edgeClean s a = true) :
    a.Meets (Clean (config (some root))) s := by
  intro b hb
  cases a with
  | wake i => cases hb
  | call request now id =>
    cases hb
    exact ⟨Option.isNone_iff_eq_none.mp h, fun h => h⟩
  | runner _ =>
    cases hb
    cases b with
    | submit _ _ _ => cases h
    | resume now later faults =>
      refine ⟨trivial, ?_⟩
      rintro ⟨job, _, _, _, r, _, -, -, -, -, hr, -, -, hdeep⟩
      have hle := of_decide_eq_true (List.all_eq_true.mp h (job, r) (Assoc.mem_of_get? hr))
      exact absurd hdeep (Nat.not_lt.mpr hle)
    | _ => exact ⟨trivial, fun h => h⟩

/-- A call, and a look at its job when that has succeeded. -/
def oneCall : List (EdgeAction Readiness) := [.call wavRequest early one, .runner .start,
  .runner (.dequeue early), .runner (.readyReturns .ready late),
  .runner (.engineEnds 0 (.result result)), .wake 0, .runner (.resume late late []), .wake 0]

end Sample

set_option maxRecDepth 16000 in
/-- The caller of one call is the one that delivers. -/
theorem callers_served_one_call : ∃ s, (edge (Sample.config (some Sample.root))).runIf
    Sample.edgeClean { runner := Sample.initial } Sample.oneCall = some s ∧
      s.returned = [(⟨Sample.one, Sample.wavRequest⟩, .ok .deliver)] ∧
      CallersServed (Sample.config (some Sample.root)) s ∧
      Delivers (Sample.config (some Sample.root)) Sample.root s.runner
        ⟨Sample.one, Sample.wavRequest⟩ := by
  have h : ((edge (Sample.config (some Sample.root))).runIf Sample.edgeClean
      { runner := Sample.initial } Sample.oneCall).map Edge.returned =
        some [(⟨Sample.one, Sample.wavRequest⟩, .ok .deliver)] := rfl
  obtain ⟨s, hs, hreturned⟩ := Option.map_eq_some_iff.mp h
  have hinit : (edge (Sample.config (some Sample.root))).init { runner := Sample.initial } :=
    ⟨Sample.init_initial fun _ => Option.some.inj, rfl⟩
  have hr : (edge (Sample.config (some Sample.root))).Reach
      (EdgeAction.Meets (Clean (Sample.config (some Sample.root)))) s :=
    ⟨_, hinit, Lts.path_of_runIf Sample.edgeClean_clean hs⟩
  obtain ⟨hserved, hdelivers⟩ := callers_served (Sample.config (some Sample.root)) s
  refine ⟨s, hs, hreturned, hserved hr.always, hdelivers _ rfl hr _ ?_⟩
  rw [hreturned]
  exact List.mem_singleton_self _

end Music3
