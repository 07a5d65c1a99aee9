import Music3.Page.Site
import Music3.Routes.Following

/-!
# What holds of a site in every run

`Site.Sound`: what the page shows as terminal is so in the server's record, what a reply tells is
honest, and the stream of the page follows the history of the page's job. `Site.Effect` is what a
step does to what the page shows, and `Sound.step` that a step keeps the site sound and has one of
the effects.
-/

namespace Music3

open Py BoundedLog

theorem set_same {α : Type} {xs : List α} {i : Nat} {x : α} (h : xs[i]? = some x) :
    xs.set i x = xs := by
  obtain ⟨hi, rfl⟩ := List.getElem?_eq_some_iff.mp h
  exact List.set_getElem_self hi

namespace Page

variable {s s' : Page} {a : PageAction} {id : JobId} {st : JobStatus}

/-- The job that the page shows, and its status. -/
def shown (s : Page) : Option (JobId × JobStatus) := s.job.map fun job => (job.id, job.status)

/-- The jobs of the runs of `cancel()`. -/
def cancelling (s : Page) : List JobId := s.cancels.map Prod.fst

/-- What does not involve the page's job leaves as it is. -/
structure Same (s s' : Page) : Prop where
  shown : s'.shown = s.shown
  source : s'.eventSource = s.eventSource
  cancelling : s'.cancelling = s.cancelling

theorem isTerminal_eq (status : JobStatus) : isTerminal status = status.terminal := by
  cases status <;> rfl

theorem same_submit (valid : Bool) : Same s (s.submit valid) := by
  unfold submit
  split <;> exact ⟨rfl, rfl, rfl⟩

theorem step_local (ha : a.isLocal = true) (h : s.step a = some s') : Same s s' := by
  cases a with
  | clickGenerate valid =>
    simp only [step, Option.ite_none_left_eq_some, Option.some.injEq] at h
    obtain ⟨-, rfl⟩ := h
    exact same_submit valid
  | ctrlEnter valid =>
    simp only [step, Option.some.injEq] at h
    subst h
    split
    · exact ⟨rfl, rfl, rfl⟩
    · exact same_submit valid
  | healthAnswered engine cause =>
    obtain ⟨t, ht, rfl⟩ := Option.map_eq_some_iff.mp h
    rw [rendered?, Option.ite_none_right_eq_some] at ht
    obtain ⟨-, ht⟩ := ht
    cases ht
    exact ⟨rfl, rfl, rfl⟩
  | healthFailed | healthTick =>
    simp only [step, Option.ite_none_right_eq_some, Option.some.injEq] at h
    obtain ⟨-, rfl⟩ := h
    exact ⟨rfl, rfl, rfl⟩
  | clickCancel | postAccepted _ _ | postRefused | jobEvent _ _ | cancelAnswered _ _
  | cancelConflict _ => cases ha

theorem step_postRefused (h : s.step .postRefused = some s') : Same s s' := by
  simp only [step, Option.ite_none_right_eq_some, Option.some.injEq] at h
  obtain ⟨-, rfl⟩ := h
  exact ⟨rfl, rfl, rfl⟩

theorem step_cancelConflict {i : Nat} (h : s.step (.cancelConflict i) = some s') : Same s s' := by
  simp only [step] at h
  split at h
  · rename_i job hi
    cases h
    refine ⟨rfl, rfl, ?_⟩
    rw [cancelling, cancelling, List.map_set]
    apply set_same
    rw [List.getElem?_map, hi]
    rfl
  · cases h

theorem step_postAccepted (h : s.step (.postAccepted id st) = some s') :
    s'.shown = some (id, st) ∧ s'.eventSource = some id ∧ s'.cancelling = s.cancelling := by
  simp only [step, Option.ite_none_right_eq_some, Option.some.injEq] at h
  obtain ⟨-, rfl⟩ := h
  exact ⟨rfl, rfl, rfl⟩

theorem step_clickCancel (h : s.step .clickCancel = some s') : s'.shown = s.shown ∧
    s'.eventSource = s.eventSource ∧
    s'.cancelling = s.cancelling ++ (s.job.map PageJob.id).toList := by
  simp only [step, Option.ite_none_right_eq_some, Option.some.injEq] at h
  obtain ⟨-, rfl⟩ := h
  cases hj : s.job with
  | none =>
    have he : s.cancel = s := by rw [cancel, hj]
    rw [he]
    exact ⟨rfl, rfl, (List.append_nil _).symm⟩
  | some job =>
    have he : s.cancel = { s with
        statusText := lit "Cancelling…", statusState := lit "cancelling", cancelDisabled := true
        cancels := s.cancels ++ [(job.id, .posted)] } := by rw [cancel, hj]
    rw [he]
    exact ⟨rfl, rfl, List.map_append⟩

/-- The end of a run of `cancel()`: the page shows its status, if it still shows its job. -/
theorem step_cancelAnswered {i : Nat} {status : Option JobStatus}
    (h : s.step (.cancelAnswered i status) = some s') : ∃ id, s.cancelling[i]? = some id ∧
      s'.eventSource = s.eventSource ∧ s'.cancelling = s.cancelling.eraseIdx i ∧
      s'.shown = s.shown.map fun p => if p.1 = id then (p.1, status.getD p.2) else p := by
  obtain ⟨t, ht, rfl⟩ := Option.map_eq_some_iff.mp h
  rw [rendered?] at ht
  split at ht
  swap
  · cases ht
  rename_i id stage hi
  cases ht
  refine ⟨id, by rw [cancelling, List.getElem?_map, hi]; rfl, ?_, ?_, ?_⟩
  all_goals
    unfold cancelled setStatus
    cases status with
    | none => simp [renderStatus, cancelling, shown, List.eraseIdx_map, Function.comp_def]
    | some status =>
      cases hj : s.job with
      | none => simp [renderStatus, cancelling, shown, List.eraseIdx_map, hj]
      | some job =>
        by_cases e : job.id = id <;>
          simp [renderStatus, cancelling, shown, List.eraseIdx_map, hj, e]

/-- An event of the page's job: the page shows its type, and stops watching after a terminal one. -/
theorem step_jobEvent (hs : s.eventSource = some id) (hj : s.shown = some (id, st))
    (type : JobStatus) (error : Option Str) : ∃ s', s.step (.jobEvent type error) = some s' ∧
      s'.shown = some (id, type) ∧ s'.cancelling = s.cancelling ∧
      s'.eventSource = if type.terminal then none else some id := by
  obtain ⟨job, hjob, e⟩ := Option.map_eq_some_iff.mp hj
  cases e
  simp only [step, hs, rendered?, onJobEvent, hjob, ↓reduceIte, isTerminal_eq]
  cases type.terminal with
  | true => exact ⟨_, rfl, rfl, rfl, rfl⟩
  | false => exact ⟨_, rfl, rfl, rfl, rfl⟩

end Page

/-! ## What holds in every run -/

section
variable {G : Type} {r r' : Runner G} {id : JobId} {st : JobStatus}

/-- The server holds the terminal status `st` for the job. -/
def Runner.Holds (r : Runner G) (id : JobId) (st : JobStatus) : Prop :=
  ∃ x, r.store.job? id = some x ∧ x.status = st ∧ st.terminal = true

/-- What a reply tells of the record of its job. -/
def Reply.Honest (r : Runner G) (id : JobId) : Reply → Prop
  | .waiting | .told none => True
  | .conflict | .viewing => ∃ st, r.Holds id st
  | .told (some st) => r.Holds id st

/-- See the module doc. -/
structure Site.Sound [ReadinessGate G] (cfg : Config) (s : Site G) : Prop where
  reach : (Music3.runner cfg).Reach Lts.always s.runner
  known : ∀ id st, s.page.shown = some (id, st) → (s.runner.store.job? id).isSome = true
  truth : ∀ id st, s.page.shown = some (id, st) → st.terminal = true → s.runner.Holds id st
  source : ∀ id, s.page.eventSource = some id → ∃ st, s.page.shown = some (id, st)
  following : ∀ id, s.page.eventSource = some id →
    Following s.runner.store.eventLogLimit (s.runner.history id) s.listener
  aligned : s.requests.map Prod.fst = s.page.cancelling
  replies : ∀ id reply, (id, reply) ∈ s.requests → reply.Honest s.runner id
  posted : ∀ id st, Assoc.get? s.posted id = some st →
    (s.runner.store.job? id).isSome = true ∧ st = .queued ∧ ∀ st', s.page.shown ≠ some (id, st')

theorem Runner.Kept.holds (hk : Runner.Kept r r') (h : r.Holds id st) : r'.Holds id st := by
  obtain ⟨x, hx, rfl, ht⟩ := h
  obtain ⟨x', hx', -, -, -, hterm⟩ := hk id x hx
  obtain ⟨rfl, -⟩ := hterm ht
  exact ⟨x', hx', rfl, ht⟩

theorem Runner.Kept.isSome (hk : Runner.Kept r r') (h : (r.store.job? id).isSome = true) :
    (r'.store.job? id).isSome = true := by
  obtain ⟨x, hx⟩ := Option.isSome_iff_exists.mp h
  obtain ⟨x', hx', -⟩ := hk id x hx
  rw [hx']
  rfl

theorem Reply.Honest.kept {reply : Reply} (h : reply.Honest r id) (hk : Runner.Kept r r') :
    reply.Honest r' id := by
  cases reply with
  | waiting => trivial
  | conflict | viewing =>
    obtain ⟨st, hst⟩ := h
    exact ⟨st, hk.holds hst⟩
  | told status =>
    cases status with
    | none => trivial
    | some st => exact hk.holds (show r.Holds id st from h)

variable [ReadinessGate G] {cfg : Config}

/-- A submission is a step of the runner. -/
theorem submit_step (cfg : Config) (submission : Submission) (now : Str)
    (h : r.store.job? id = none) :
    (runner cfg).step r (.submit submission now id) =
      some (r.enqueue submission now id) := by
  show (if (r.store.job? id).isSome then none else some (stateAfter _ _)) = _
  rw [h, stateAfter, run_submit]
  rfl

/-- The cancel of a request is a step of the runner, and its reply is honest. -/
theorem cancelJob_step (h : (runner cfg).Reach Lts.always r) (id : JobId) (now : Str) :
    (runner cfg).step r (.cancel id now) = some (cancelJob id now r).2 ∧
    (cancelJob id now r).1.Honest (cancelJob id now r).2 id := by
  have hs := reach_ok h
  show some (stateAfter (cancel id now) r) = _ ∧ _
  unfold cancelJob stateAfter
  cases hr : r.store.job? id with
  | none =>
    rw [run_cancel_unknown now hr]
    exact ⟨rfl, trivial⟩
  | some x =>
    cases hst : x.status.terminal with
    | true =>
      rw [run_cancel_terminal now hr hst]
      exact ⟨rfl, x.status, x, hr, rfl, hst⟩
    | false =>
      rw [run_cancel now hs hr hst]
      exact ⟨rfl, _, (JobStore.job?_advance _ _ _).trans (if_pos rfl), rfl, rfl⟩

omit [ReadinessGate G] in
theorem mem_of_terminal (h : st.terminal = true) : st.value ∈ terminalEventTypes := by
  cases st with
  | queued | running => cases h
  | succeeded | failed | cancelled => decide

/-- A terminal event is that of the record. -/
theorem reach_terminal_event (h : (runner cfg).Reach Lts.always r) {e : JobEvent}
    (he : e ∈ r.history id) (hst : st.value = e.type) (ht : st.terminal = true) :
    r.Holds id st := by
  cases hr : r.store.job? id with
  | none =>
    rw [(reach_told h id).unknown hr] at he
    cases he
  | some x =>
    have hlast := (reach_told h id).logs.final e he (hst ▸ mem_of_terminal ht)
    obtain ⟨e', he', htype⟩ := (reach_tells h hr).last
    rw [hlast] at he'
    cases he'
    exact ⟨x, hr, JobStatus.value_injective (htype.symm.trans hst.symm), ht⟩

namespace Site

variable {s s' : Site G}

theorem Sound.server (hs : Sound cfg s) {a : Action G} {r : Runner G}
    (h : (Music3.runner cfg).step s.runner a = some r) : Sound cfg { s with runner := r } := by
  have hstep := (reach_move hs.reach h).storeStep
  have hk : Runner.Kept s.runner r := hstep.kept
  refine ⟨hs.reach.step trivial h, fun id st hj => hk.isSome (hs.known id st hj),
    fun id st hj ht => hk.holds (hs.truth id st hj ht), hs.source, fun id hsrc => ?_, hs.aligned,
    fun id reply hm => (hs.replies id reply hm).kept hk, fun id st hp => ?_⟩
  · obtain ⟨hgrow, hlim⟩ := hstep.grows id
    exact hlim.symm ▸ (hs.following id hsrc).mono hgrow
  · obtain ⟨hknown, hrest⟩ := hs.posted id st hp
    exact ⟨hk.isSome hknown, hrest⟩

/-- The page shows and watches the same job, and its requests are honest. -/
theorem Sound.page (hs : Sound cfg s) {p : Page} {requests : List (JobId × Reply)}
    (hshown : p.shown = s.page.shown) (hsource : p.eventSource = s.page.eventSource)
    (haligned : requests.map Prod.fst = p.cancelling)
    (hreplies : ∀ id reply, (id, reply) ∈ requests → reply.Honest s.runner id) :
    Sound cfg { s with page := p, requests } := by
  refine ⟨hs.reach, ?_, ?_, ?_, ?_, haligned, hreplies, ?_⟩
  · rw [hshown]
    exact hs.known
  · rw [hshown]
    exact hs.truth
  · rw [hshown, hsource]
    exact hs.source
  · rw [hsource]
    exact hs.following
  · rw [hshown]
    exact hs.posted

theorem Sound.same (hs : Sound cfg s) {p : Page} (h : Page.Same s.page p) :
    Sound cfg { s with page := p } :=
  hs.page h.shown h.source (hs.aligned.trans h.cancelling.symm) hs.replies

/-- One reply changes to another honest one. -/
theorem Sound.reply (hs : Sound cfg s) {i : Nat} {id : JobId} {reply reply' : Reply}
    (hi : s.requests[i]? = some (id, reply)) (h : reply'.Honest s.runner id) :
    Sound cfg { s with requests := s.requests.set i (id, reply') } := by
  refine { hs with aligned := ?_, replies := fun id' reply'' hm => ?_ }
  · show (s.requests.set i (id, reply')).map Prod.fst = _
    rw [← hs.aligned, List.map_set]
    apply set_same
    rw [List.getElem?_map, hi]
    rfl
  · rcases List.mem_or_eq_of_mem_set hm with hm | e
    · exact hs.replies id' reply'' hm
    · cases e
      exact h

/-- Some answers to POST /jobs are not on their way any more. -/
theorem Sound.erase (hs : Sound cfg s) (id : JobId) :
    Sound cfg { s with posted := Assoc.erase s.posted id } := by
  refine { hs with posted := fun id' st hp => ?_ }
  replace hp : Assoc.get? (Assoc.erase s.posted id) id' = some st := hp
  rw [Assoc.get?_erase] at hp
  split at hp
  · cases hp
  · exact hs.posted id' st hp

/-- What a step does to the status that the page shows, to its stream and to the answers on their
way. -/
inductive Effect (s : Site G) (a : SiteAction G) (s' : Site G) : Prop
  | quiet (kept : Runner.Kept s.runner s'.runner) (shown : s'.page.shown = s.page.shown)
      (source : s'.page.eventSource = s.page.eventSource) (listener : s'.listener = s.listener)
      (posted : ∀ id, (Assoc.get? s'.posted id).isSome = true →
        (Assoc.get? s.posted id).isSome = true ∨ s.runner.store.job? id = none)
  | accepted (id : JobId) (h : a = .postAnswered id) (runner : s'.runner = s.runner)
      (mem : (Assoc.get? s.posted id).isSome = true) (shown : s'.page.shown = some (id, .queued))
      (posted : s'.posted = Assoc.erase s.posted id)
  | answered (i : Nat) (h : a = .cancelAnswered i) (id : JobId) (st : JobStatus)
      (request : s.requests[i]? = some (id, .told (some st))) (runner : s'.runner = s.runner)
      (shown : s'.page.shown = s.page.shown.map fun p => if p.1 = id then (p.1, st) else p)
      (source : s'.page.eventSource = s.page.eventSource) (listener : s'.listener = s.listener)
      (posted : s'.posted = s.posted)
  | listened (b : Listen) (h : a = .listen b) (id : JobId) (source : s.page.eventSource = some id)
      (listener : s.listener.step s.runner.store id b = some s'.listener)
      (runner : s'.runner = s.runner) (page : s'.page = s.page) (posted : s'.posted = s.posted)
  | heard (b : Listen) (h : a = .listen b) (id : JobId) (source : s.page.eventSource = some id)
      (listener : s.listener.step s.runner.store id b = some s'.listener)
      (runner : s'.runner = s.runner) (posted : s'.posted = s.posted) (e : JobEvent)
      (mem : e ∈ s.listener.inFlight.filterMap Frame.event?) (type : JobStatus)
      (htype : type.value = e.type) (shown : s'.page.shown = some (id, type))
      (watching : s'.page.eventSource = if type.terminal then none else some id)

omit [ReadinessGate G] in
/-- A frame that does something to the page carries an event. -/
theorem arriving_eq {b : Listen} {action : PageAction} (h : s.arriving b = some action) :
    ∃ e ∈ s.listener.inFlight.filterMap Frame.event?, ∃ type : JobStatus, type.value = e.type ∧
      action = .jobEvent type e.error? := by
  cases b with
  | connect | disconnect | resume _ _ => cases h
  | deliver =>
    obtain ⟨frame, hframe, h⟩ := Option.bind_eq_some_iff.mp h
    obtain ⟨e, he, h⟩ := Option.bind_eq_some_iff.mp h
    obtain ⟨type, htype, h⟩ := Option.bind_eq_some_iff.mp h
    cases h
    exact ⟨e, List.mem_filterMap.mpr ⟨frame, List.mem_of_head? hframe, he⟩, type,
      by simpa using List.find?_some htype, rfl⟩

/-- What is in flight to the page is of the job that it watches, in order. -/
theorem Sound.inFlight (hs : Sound cfg s) {id : JobId} (hsrc : s.page.eventSource = some id) :
    (s.listener.inFlight.filterMap Frame.event?).Sublist (s.runner.history id) := by
  have hf := hs.following id hsrc
  cases hc : s.listener.connected with
  | false =>
    rw [hf.lost hc]
    exact List.nil_sublist _
  | true =>
    obtain ⟨stream, -, ha⟩ := hf.attached hc
    exact (List.sublist_append_right _ _).trans ha.part.left.sublist

theorem Sound.listen (hs : Sound cfg s) {b : Listen} (h : s.step cfg (.listen b) = some s') :
    Sound cfg s' ∧ Effect s (.listen b) s' := by
  simp only [step] at h
  split at h
  swap
  · cases h
  rename_i id hsrc
  obtain ⟨listener, hl, h⟩ := Option.bind_eq_some_iff.mp h
  obtain ⟨p, hp, h⟩ := Option.bind_eq_some_iff.mp h
  cases h
  have hf := (reach_told hs.reach id).logs.step (hs.following id hsrc) hl
  unfold hear at hp
  cases ha : s.arriving b with
  | none =>
    rw [ha] at hp
    cases hp
    refine ⟨{ hs with following := fun id' hid => ?_ }, .listened b rfl id hsrc hl rfl rfl rfl⟩
    cases hsrc.symm.trans hid
    exact hf
  | some action =>
    rw [ha] at hp
    obtain ⟨e, he, type, htype, rfl⟩ := arriving_eq ha
    obtain ⟨st, hst⟩ := hs.source id hsrc
    obtain ⟨p', hp', hshown, hcancelling, hwatching⟩ :=
      Page.step_jobEvent hsrc hst type e.error?
    cases hp.symm.trans hp'
    refine ⟨?_, .heard b rfl id hsrc hl rfl rfl e he type htype hshown hwatching⟩
    have hsource : ∀ id', p.eventSource = some id' → id' = id := by
      intro id' hid
      rw [hwatching, Option.ite_none_left_eq_some] at hid
      exact (Option.some.inj hid.2).symm
    refine ⟨hs.reach, fun id' st' hj => ?_, fun id' st' hj ht => ?_, fun id' hid => ?_,
      fun id' hid => ?_, hs.aligned.trans hcancelling.symm, hs.replies, fun id' st' hm => ?_⟩
    · cases hshown.symm.trans hj
      exact hs.known id st hst
    · cases hshown.symm.trans hj
      exact reach_terminal_event hs.reach ((hs.inFlight hsrc).subset he) htype ht
    · exact ⟨type, hsource id' hid ▸ hshown⟩
    · cases hsource id' hid
      exact hf
    · obtain ⟨hknown, hq, hne⟩ := hs.posted id' st' hm
      refine ⟨hknown, hq, fun st'' hj => ?_⟩
      cases hshown.symm.trans hj
      exact hne st hst

omit [ReadinessGate G] in
theorem Effect.of_same {a : SiteAction G} (h : Page.Same s.page s'.page)
    (hr : s'.runner = s.runner) (hl : s'.listener = s.listener)
    (hp : ∀ id, (Assoc.get? s'.posted id).isSome = true →
      (Assoc.get? s.posted id).isSome = true) : Effect s a s' :=
  .quiet (hr ▸ .refl s.runner) h.shown h.source hl fun id hid => .inl (hp id hid)

omit [ReadinessGate G] in
theorem posted_erase {id id' : JobId}
    (h : (Assoc.get? (Assoc.erase s.posted id) id').isSome = true) :
    id ≠ id' ∧ (Assoc.get? s.posted id').isSome = true := by
  rw [Assoc.get?_erase] at h
  split at h
  · cases h
  · rename_i hne
    exact ⟨hne, h⟩

theorem Sound.postHandled (hs : Sound cfg s) {submission : Submission} {now : Str} {id : JobId}
    (h : s.step cfg (.postHandled submission now id) = some s') :
    Sound cfg s' ∧ Effect s (.postHandled submission now id) s' := by
  simp only [step, run_submit, Option.ite_none_right_eq_some, Option.some.injEq] at h
  obtain ⟨⟨-, hnew⟩, rfl⟩ := h
  have hstep := submit_step cfg submission now hnew
  have hserver := hs.server hstep
  have hget : ∀ id', Assoc.get? (Assoc.set s.posted id .queued) id' =
      if id = id' then some .queued else Assoc.get? s.posted id' := Assoc.get?_set _ _ _
  refine ⟨{ hserver with posted := fun id' st hp => ?_ }, .quiet
    (reach_move hs.reach hstep).storeStep.kept rfl rfl rfl fun id' hp => ?_⟩
  · replace hp := (hget id').symm.trans hp
    split at hp
    · rename_i e
      cases hp
      subst e
      refine ⟨?_, rfl, fun st' hj => ?_⟩
      · show ((s.runner.store.enqueued id submission now).job? id).isSome = true
        rw [JobStore.job?_enqueued, if_pos rfl]
        rfl
      · have := hs.known id st' hj
        rw [hnew] at this
        cases this
    · exact hserver.posted id' st hp
  · replace hp : (Assoc.get? (Assoc.set s.posted id .queued) id').isSome = true := hp
    rw [hget] at hp
    split at hp
    · rename_i e
      exact .inr (e ▸ hnew)
    · exact .inl hp

theorem Sound.postAnswered (hs : Sound cfg s) {id : JobId}
    (h : s.step cfg (.postAnswered id) = some s') :
    Sound cfg s' ∧ Effect s (.postAnswered id) s' := by
  simp only [step] at h
  split at h
  swap
  · cases h
  rename_i status hm
  obtain ⟨p, hp, rfl⟩ := Option.map_eq_some_iff.mp h
  obtain ⟨hknown, rfl, -⟩ := hs.posted id status hm
  obtain ⟨hshown, hsource, hcancelling⟩ := Page.step_postAccepted hp
  refine ⟨⟨hs.reach, fun id' st hj => ?_, fun id' st hj ht => ?_, fun id' hid => ?_,
    fun id' hid => ?_, hs.aligned.trans hcancelling.symm, hs.replies, fun id' st hp => ?_⟩,
    .accepted id rfl rfl (by rw [hm]; rfl) hshown rfl⟩
  · cases hshown.symm.trans hj
    exact hknown
  · cases hshown.symm.trans hj
    cases ht
  · cases hsource.symm.trans hid
    exact ⟨_, hshown⟩
  · exact ⟨.nil, fun _ => rfl, fun h => by cases h⟩
  · replace hp : Assoc.get? (Assoc.erase s.posted id) id' = some st := hp
    obtain ⟨hne, hsome⟩ := posted_erase (Option.isSome_of_eq_some hp)
    obtain ⟨st', hst'⟩ := Option.isSome_iff_exists.mp hsome
    have hst : Assoc.get? s.posted id' = some st := by
      rw [← hp]
      exact ((Assoc.get?_erase s.posted id id').trans (if_neg hne)).symm
    obtain ⟨hk, hq, -⟩ := hs.posted id' st hst
    refine ⟨hk, hq, fun st'' hj => ?_⟩
    cases hshown.symm.trans hj
    exact hne rfl

theorem Sound.cancelHandled (hs : Sound cfg s) {i : Nat} {now : Str}
    (h : s.step cfg (.cancelHandled i now) = some s') :
    Sound cfg s' ∧ Effect s (.cancelHandled i now) s' := by
  simp only [step] at h
  split at h
  · rename_i id hi
    cases h
    obtain ⟨hstep, hreply⟩ := cancelJob_step hs.reach id now
    exact ⟨(hs.server hstep).reply hi hreply,
      .quiet (reach_move hs.reach hstep).storeStep.kept rfl rfl rfl fun _ h => .inl h⟩
  · cases h

theorem Sound.viewHandled (hs : Sound cfg s) {i : Nat}
    (h : s.step cfg (.viewHandled i) = some s') : Sound cfg s' ∧ Effect s (.viewHandled i) s' := by
  simp only [step] at h
  split at h
  swap
  · cases h
  rename_i id hi
  split at h
  · rename_i x hget
    cases h
    have hx : s.runner.store.job? id = some x := by
      unfold JobStore.get at hget
      split at hget <;> cases hget
      assumption
    obtain ⟨st, y, hy, rfl, ht⟩ := hs.replies id .viewing (List.mem_of_getElem? hi)
    obtain rfl := Option.some.inj (hx.symm.trans hy)
    exact ⟨hs.reply hi ⟨x, hx, rfl, ht⟩,
      .quiet (.refl s.runner) rfl rfl rfl fun _ h => .inl h⟩
  · cases h

/-- A run of `cancel()` ends without a status. -/
theorem Sound.cancelEnds (hs : Sound cfg s) {i : Nat} {p : Page}
    (h : s.page.step (.cancelAnswered i none) = some p) :
    p.shown = s.page.shown ∧ p.eventSource = s.page.eventSource ∧
      Sound cfg { s with page := p, requests := s.requests.eraseIdx i } := by
  obtain ⟨id, -, hsource, hcancelling, hshown⟩ := Page.step_cancelAnswered h
  have hsame : p.shown = s.page.shown := by
    rw [hshown]
    cases s.page.shown <;> simp
  refine ⟨hsame, hsource, hs.page hsame hsource ?_ fun id' reply hm =>
    hs.replies id' reply (List.mem_of_mem_eraseIdx hm)⟩
  rw [hcancelling, ← hs.aligned, List.eraseIdx_map]

theorem Sound.cancelAnswered (hs : Sound cfg s) {i : Nat}
    (h : s.step cfg (.cancelAnswered i) = some s') :
    Sound cfg s' ∧ Effect s (.cancelAnswered i) s' := by
  simp only [step] at h
  split at h
  · rename_i id hi
    obtain ⟨p, hp, rfl⟩ := Option.map_eq_some_iff.mp h
    have hsame := Page.step_cancelConflict hp
    refine ⟨?_, .of_same hsame rfl rfl fun _ h => h⟩
    exact (hs.same hsame).reply hi (hs.replies id .conflict (List.mem_of_getElem? hi))
  · rename_i id status hi
    obtain ⟨p, hp, rfl⟩ := Option.map_eq_some_iff.mp h
    cases status with
    | none =>
      obtain ⟨hshown, hsource, hsound⟩ := hs.cancelEnds hp
      exact ⟨hsound, .quiet (.refl s.runner) hshown hsource rfl fun _ h => .inl h⟩
    | some st =>
      obtain ⟨id', hid, hsource, hcancelling, hshown⟩ := Page.step_cancelAnswered hp
      obtain rfl : id' = id := by
        rw [← hs.aligned, List.getElem?_map, hi] at hid
        exact (Option.some.inj hid).symm
      have hholds : s.runner.Holds id' st := hs.replies id' _ (List.mem_of_getElem? hi)
      -- the page shows what it did, or the status of the answer
      have hcases : ∀ id st', p.shown = some (id, st') → ∃ st₀, s.page.shown = some (id, st₀) ∧
          (st' = st₀ ∨ id = id' ∧ st' = st) := by
        intro id st' hj
        rw [hshown] at hj
        obtain ⟨⟨id₀, st₀⟩, hj₀, e⟩ := Option.map_eq_some_iff.mp hj
        split at e <;> cases e
        · rename_i e
          exact ⟨_, hj₀, .inr ⟨e, rfl⟩⟩
        · exact ⟨_, hj₀, .inl rfl⟩
      refine ⟨⟨hs.reach, fun id st' hj => ?_, fun id st' hj ht => ?_, fun id hsrc => ?_,
        fun id hsrc => hs.following id (hsource.symm.trans hsrc), ?_, fun id reply hm =>
        hs.replies id reply (List.mem_of_mem_eraseIdx hm), fun id st' hm => ?_⟩,
        .answered i rfl id' st hi rfl hshown hsource rfl rfl⟩
      · obtain ⟨st₀, hj₀, -⟩ := hcases id st' hj
        exact hs.known id st₀ hj₀
      · obtain ⟨st₀, hj₀, rfl | ⟨rfl, rfl⟩⟩ := hcases id st' hj
        · exact hs.truth id st' hj₀ ht
        · exact hholds
      · obtain ⟨st₀, hj₀⟩ := hs.source id (hsource.symm.trans hsrc)
        rw [show Page.shown _ = _ from hshown, hj₀, Option.map_some]
        split <;> exact ⟨_, rfl⟩
      · show (s.requests.eraseIdx i).map Prod.fst = p.cancelling
        rw [hcancelling, ← hs.aligned, List.eraseIdx_map]
      · obtain ⟨hknown, hq, hne⟩ := hs.posted id st' hm
        refine ⟨hknown, hq, fun st'' hj => ?_⟩
        obtain ⟨st₀, hj₀, -⟩ := hcases id st'' hj
        exact hne st₀ hj₀
  · cases h

/-- Every step keeps the site sound. -/
theorem Sound.step (hs : Sound cfg s) {a : SiteAction G} (h : s.step cfg a = some s') :
    Sound cfg s' ∧ Effect s a s' := by
  cases a with
  | server a =>
    obtain ⟨r, hr, rfl⟩ := Option.map_eq_some_iff.mp h
    exact ⟨hs.server hr,
      .quiet (reach_move hs.reach hr).storeStep.kept rfl rfl rfl fun _ h => .inl h⟩
  | page a =>
    simp only [Site.step, Option.ite_none_right_eq_some] at h
    obtain ⟨ha, h⟩ := h
    obtain ⟨p, hp, rfl⟩ := Option.map_eq_some_iff.mp h
    have hsame := Page.step_local ha hp
    exact ⟨hs.same hsame, .of_same hsame rfl rfl fun _ h => h⟩
  | clickCancel =>
    obtain ⟨p, hp, rfl⟩ := Option.map_eq_some_iff.mp h
    obtain ⟨hshown, hsource, hcancelling⟩ := Page.step_clickCancel hp
    refine ⟨hs.page hshown hsource ?_ fun id reply hm => ?_,
      .quiet (.refl s.runner) hshown hsource rfl fun _ h => .inl h⟩
    · rw [hcancelling, List.map_append, hs.aligned]
      cases s.page.job <;> rfl
    · rcases List.mem_append.mp hm with hm | hm
      · exact hs.replies id reply hm
      · cases hj : s.page.job with
        | none =>
          rw [hj] at hm
          cases hm
        | some job =>
          rw [hj] at hm
          cases List.mem_singleton.mp hm
          trivial
  | postHandled submission now id => exact hs.postHandled h
  | postAnswered id => exact hs.postAnswered h
  | postLost id =>
    simp only [Site.step] at h
    split at h
    swap
    · cases h
    obtain ⟨p, hp, rfl⟩ := Option.map_eq_some_iff.mp h
    have hsame := Page.step_postRefused hp
    exact ⟨(hs.erase id).same hsame, .of_same hsame rfl rfl fun id' h => (posted_erase h).2⟩
  | postRefused =>
    simp only [Site.step, Option.ite_none_right_eq_some] at h
    obtain ⟨-, h⟩ := h
    obtain ⟨p, hp, rfl⟩ := Option.map_eq_some_iff.mp h
    have hsame := Page.step_postRefused hp
    exact ⟨hs.same hsame, .of_same hsame rfl rfl fun _ h => h⟩
  | cancelHandled i now => exact hs.cancelHandled h
  | viewHandled i => exact hs.viewHandled h
  | cancelAnswered i => exact hs.cancelAnswered h
  | cancelLost i =>
    obtain ⟨p, hp, rfl⟩ := Option.map_eq_some_iff.mp h
    obtain ⟨hshown, hsource, hsound⟩ := hs.cancelEnds hp
    exact ⟨hsound, .quiet (.refl s.runner) hshown hsource rfl fun _ h => .inl h⟩
  | listen b => exact hs.listen h

theorem reach_sound {P : Site G → SiteAction G → Prop} (h : (site cfg).Reach P s) :
    Sound cfg s := by
  refine h.invariant (fun s hi => ?_) fun _ _ _ hs _ hst => (hs.step hst).1
  obtain ⟨hrunner, hpage, e⟩ := hi
  rw [e, show s.page = _ from hpage]
  refine ⟨.init hrunner, fun _ _ h => ?_, fun _ _ h _ => ?_, fun _ h => ?_, fun _ h => ?_, rfl,
    fun _ _ h => ?_, fun _ _ h => ?_⟩ <;> cases h

end Site

end

end Music3
