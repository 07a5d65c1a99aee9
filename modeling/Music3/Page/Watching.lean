import Music3.Page.SiteInv
import Music3.Routes.Coming

/-!
# The status that the page shows

Two channels write the status of the page's job: its event stream and the answers to its cancels.
`Lawful`: a terminal status is the one of the server's record, and only a message about the job that
the page shows changes what it shows. `Final`: a terminal status stays.

The first holds in every run. The second does not: the answer to a cancel leaves the stream open,
and what is still on its way in it is rendered. `terminal_status` tells when: a run keeps to it as
long as its steps are `InOrder`, and after each step that is not the page can show another status.
-/

namespace Music3

open Py BoundedLog

section
variable {G : Type} [ReadinessGate G] {cfg : Config}

namespace Site

variable {s s' : Site G}

/-! ## A terminal status stays -/

/-- The events of a job that the page can still get. -/
def coming (s : Site G) (id : JobId) : List JobEvent :=
  s.listener.coming ((s.runner.store.log id).toOption.getD [])

/-- The job of an answer with a status. -/
def told? (s : Site G) (i : Nat) : Option JobId :=
  match s.requests[i]? with
  | some (id, .told (some _)) => some id
  | _ => none

/-- When a status arrives in the answer to a cancel of the job that the page watches, only the
terminal event of the job can still come. -/
def InOrder (s : Site G) : SiteAction G → Prop
  | .cancelAnswered i => ∀ id ∈ s.told? i, s.page.eventSource = some id →
      ∀ e ∈ s.coming id, e.type ∈ terminalEventTypes
  | _ => True

instance (s : Site G) : DecidablePred s.InOrder
  | .cancelAnswered i => inferInstanceAs (Decidable (∀ id ∈ s.told? i, _ → _))
  | .server _ | .page _ | .clickCancel | .postHandled _ _ _ | .postAnswered _ | .postLost _
  | .postRefused | .cancelHandled _ _ | .viewHandled _ | .cancelLost _ | .listen _ =>
    .isTrue trivial

/-- A terminal status that `s` shows for a job is the one that `t` shows for it, if it shows the
job. -/
def Final (s t : Site G) : Prop :=
  ∀ id st st', s.page.shown = some (id, st) → st.terminal = true →
    t.page.shown = some (id, st') → st' = st

/-- After a terminal status, only the terminal event can still come. -/
def Drained (s : Site G) : Prop :=
  ∀ id st, s.page.shown = some (id, st) → st.terminal = true → s.page.eventSource = some id →
    ∀ e ∈ s.coming id, e.type ∈ terminalEventTypes

theorem Sound.log (hs : Sound cfg s) {id : JobId}
    (h : (s.runner.store.job? id).isSome = true) :
    s.runner.store.log id = .ok (newest s.runner.store.eventLogLimit (s.runner.history id)) := by
  obtain ⟨x, hx⟩ := Option.isSome_iff_exists.mp h
  obtain ⟨log, hlog, -⟩ := reach_log hs.reach hx
  rw [hlog, (reach_told hs.reach id).logs.log log hlog]

theorem Sound.coming_eq (hs : Sound cfg s) {id : JobId}
    (h : (s.runner.store.job? id).isSome = true) : s.coming id =
    s.listener.coming (newest s.runner.store.eventLogLimit (s.runner.history id)) := by
  rw [coming, hs.log h]
  rfl

/-- Where the status that the page shows of a job after a step comes from. -/
inductive Shown (s : Site G) (a : SiteAction G) (id : JobId) (st' : JobStatus) : Prop
  | before (shown : s.page.shown = some (id, st'))
  | accepted (h : a = .postAnswered id) (mem : (Assoc.get? s.posted id).isSome = true)
      (queued : st' = .queued)
  | answered (i : Nat) (h : a = .cancelAnswered i)
      (request : s.requests[i]? = some (id, .told (some st')))
      (shown : ∃ st, s.page.shown = some (id, st))
  | heard (b : Listen) (h : a = .listen b) (source : s.page.eventSource = some id) (e : JobEvent)
      (mem : e ∈ s.listener.inFlight.filterMap Frame.event?) (htype : st'.value = e.type)

variable {a : SiteAction G} {id : JobId} {st st' : JobStatus}

omit [ReadinessGate G] in
theorem Effect.shown_cases (h : Effect s a s') (hj : s'.page.shown = some (id, st')) :
    Shown s a id st' := by
  cases h with
  | quiet _ shown _ _ _ => exact .before (shown ▸ hj)
  | accepted id' h _ mem shown _ =>
    cases shown.symm.trans hj
    exact .accepted h mem rfl
  | answered i h id' st request _ shown _ _ _ =>
    rw [shown] at hj
    obtain ⟨⟨id₀, st₀⟩, hj₀, e⟩ := Option.map_eq_some_iff.mp hj
    split at e <;> cases e
    · rename_i e
      cases e
      exact .answered i h request ⟨st₀, hj₀⟩
    · exact .before hj₀
  | listened _ _ _ _ _ _ page _ => exact .before (page ▸ hj)
  | heard b h id' source _ _ _ e mem type htype shown _ =>
    cases shown.symm.trans hj
    exact .heard b h source e mem htype

/-- A drained stream and the answers to cancels show terminal statuses only. -/
theorem Sound.terminal_stays (hs : Sound cfg s) (hd : Drained s) (h : s.step cfg a = some s')
    (hold : Assoc.get? s.posted id = none)
    (hall : ∀ st, s.page.shown = some (id, st) → st.terminal = true)
    (hj : s'.page.shown = some (id, st')) : st'.terminal = true := by
  cases (hs.step h).2.shown_cases hj with
  | before shown => exact hall st' shown
  | accepted _ mem _ =>
    rw [hold] at mem
    cases mem
  | answered i _ request _ =>
    obtain ⟨_, _, _, ht⟩ := hs.replies id _ (List.mem_of_getElem? request)
    exact ht
  | heard b _ source e mem htype =>
    obtain ⟨st, hst⟩ := hs.source id source
    have hterm := hd id st hst (hall st hst) source e (List.mem_append_left _ mem)
    exact terminal_of_mem (htype ▸ hterm)

omit [ReadinessGate G] in
/-- A job that was not to be accepted is not. -/
theorem Effect.not_posted (h : Effect s a s') (hknown : (s.runner.store.job? id).isSome = true)
    (hold : Assoc.get? s.posted id = none) : Assoc.get? s'.posted id = none := by
  cases h with
  | quiet _ _ _ _ posted =>
    refine Option.not_isSome_iff_eq_none.mp fun hsome => ?_
    rcases posted id hsome with h | h
    · rw [hold] at h
      cases h
    · rw [h] at hknown
      cases hknown
  | accepted id' _ _ _ _ posted =>
    rw [posted, Assoc.get?_erase, hold]
    split <;> rfl
  | answered _ _ _ _ _ _ _ _ _ posted | listened _ _ _ _ _ _ _ posted
  | heard _ _ _ _ _ _ posted _ _ _ _ _ _ => rw [posted, hold]

omit [ReadinessGate G] in
theorem Effect.holds (h : Effect s a s') (hh : s.runner.Holds id st) : s'.runner.Holds id st := by
  cases h with
  | quiet kept _ _ _ _ => exact kept.holds hh
  | accepted _ _ runner _ _ _ | answered _ _ _ _ _ runner _ _ _ _ | listened _ _ _ _ _ runner _ _
  | heard _ _ _ _ _ runner _ _ _ _ _ _ _ => exact runner ▸ hh

/-- Steps in order keep the stream drained. -/
theorem Drained.step (hd : Drained s) (hs : Sound cfg s) (ho : InOrder s a)
    (h : s.step cfg a = some s') : Drained s' := by
  intro id st hj ht hsrc
  cases (hs.step h).2 with
  | quiet kept shown source listener _ =>
    rw [shown] at hj
    obtain ⟨x, hx, rfl, -⟩ := hs.truth id st hj ht
    obtain ⟨_, _, _, _, _, hkeep⟩ := kept id x hx
    rw [coming, listener, (hkeep ht).2.2]
    exact hd id x.status hj ht (source.symm.trans hsrc)
  | accepted id' _ _ _ shown _ =>
    cases shown.symm.trans hj
    cases ht
  | answered i h' id' st' request runner shown source listener _ =>
    rw [coming, listener, runner]
    rw [source] at hsrc
    rw [shown] at hj
    obtain ⟨⟨id₀, st₀⟩, hj₀, e⟩ := Option.map_eq_some_iff.mp hj
    split at e <;> cases e
    · rename_i e
      cases e
      subst h'
      exact ho _ (by rw [told?, request]; rfl) hsrc
    · exact hd id st hj₀ ht hsrc
  | listened b _ id' source listener runner page _ =>
    rw [page] at hj hsrc
    cases source.symm.trans hsrc
    have hknown := hs.known id st hj
    have hsub := (reach_told hs.reach id).logs.coming_step (hs.following id source) listener
    intro e he
    rw [coming, runner, hs.log hknown] at he
    have he' : e ∈ s.coming id := hs.coming_eq hknown ▸ hsub he
    exact hd id st hj ht source e he'
  | heard b _ id' _ _ _ _ e _ type _ shown watching =>
    cases shown.symm.trans hj
    rw [watching, if_pos ht] at hsrc
    cases hsrc

theorem reach_drained (h : (site cfg).Reach InOrder s) : Drained s := by
  obtain ⟨s₀, h₀, hp⟩ := h
  refine hp.preserves_reach (I := Drained)
    (fun s a s' hr hd ho hst => hd.step (reach_sound hr) ho hst) (.init h₀) ?_
  obtain ⟨-, hpage, -⟩ := h₀
  intro id st hj
  rw [show s₀.page = _ from hpage] at hj
  cases hj

/-- What a run in order keeps of a terminal job: its record, that it is no new job, and that the
page shows no other status for it. -/
structure Closed (id : JobId) (st : JobStatus) (s : Site G) : Prop where
  holds : s.runner.Holds id st
  old : Assoc.get? s.posted id = none
  terminal : ∀ st', s.page.shown = some (id, st') → st'.terminal = true

theorem Closed.step (hc : Closed id st s) (hs : Sound cfg s) (hd : Drained s)
    (h : s.step cfg a = some s') : Closed id st s' := by
  have heffect := (hs.step h).2
  have hknown : (s.runner.store.job? id).isSome = true := by
    obtain ⟨x, hx, -⟩ := hc.holds
    rw [hx]
    rfl
  exact ⟨heffect.holds hc.holds, heffect.not_posted hknown hc.old,
    fun st' hj => hs.terminal_stays hd h hc.old hc.terminal hj⟩

/-- In a run in order a terminal status stays. -/
theorem final_of_path {t : Site G} (h : (site cfg).Reach InOrder s)
    (hp : (site cfg).Path InOrder s t) : Final s t := by
  intro id st st' hj ht hj'
  have hs : Sound cfg s := reach_sound h
  have hclosed : Closed id st t := by
    refine hp.preserves_reach (I := Closed id st) (fun u _ _ hr hc _ hst =>
      hc.step (reach_sound hr) (reach_drained hr) hst) h
      ⟨hs.truth id st hj ht, ?_, fun st' hj' => ?_⟩
    · refine Option.not_isSome_iff_eq_none.mp fun hsome => ?_
      obtain ⟨st', hm⟩ := Option.isSome_iff_exists.mp hsome
      exact (hs.posted id st' hm).2.2 st hj
    · cases hj.symm.trans hj'
      exact ht
  obtain ⟨x, hx, rfl, -⟩ := hclosed.holds
  have htrue : t.runner.Holds id st' :=
    (reach_sound (h.path hp)).truth id st' hj' (hclosed.terminal st' hj')
  obtain ⟨y, hy, rfl, -⟩ := htrue
  cases hx.symm.trans hy
  rfl

/-! ## After a step that is not in order -/

theorem step_listen (cfg : Config) {b : Listen} {l : Listener} {p : Page}
    (hsrc : s.page.eventSource = some id)
    (hl : s.listener.step s.runner.store id b = some l) (hp : s.hear b = some p) :
    (site cfg).step s (.listen b) = some { s with page := p, listener := l } := by
  simp only [site, Site.step, hsrc, hl, hp]
  rfl

/-- The steps of the client that deliver nothing. -/
theorem path_of_sending {q : Runner G × Listener} (hsrc : s.page.eventSource = some id)
    (h : (listening cfg id).Path Sending (s.runner, s.listener) q) :
    q.1 = s.runner ∧ (site cfg).Path Lts.always s { s with listener := q.2 } := by
  induction h with
  | refl => exact ⟨rfl, .refl⟩
  | step b _ hb hst ih =>
    obtain ⟨hrunner, hp⟩ := ih
    cases b with
    | inl _ => exact hb.elim
    | inr b =>
      obtain ⟨l, hl, e⟩ := Option.map_eq_some_iff.mp hst
      cases e
      rw [hrunner] at hl
      refine ⟨hrunner, hp.step (.listen b) trivial (step_listen cfg hsrc hl ?_)⟩
      cases b with
      | deliver => exact hb.elim
      | connect | disconnect | resume _ _ => rfl

/-- An event of a job has one of its statuses as its type. -/
theorem reach_event_type {r : Runner G} (h : (Music3.runner cfg).Reach Lts.always r)
    {e : JobEvent} (he : e ∈ r.history id) : ∃ st : JobStatus, st.value = e.type := by
  cases hr : r.store.job? id with
  | none =>
    rw [(reach_told h id).unknown hr] at he
    cases he
  | some x =>
    obtain ⟨l, hl, -⟩ := (reach_told h id).known x hr
    have hm : e.type ∈ l.map JobStatus.value := hl ▸ List.mem_map_of_mem he
    obtain ⟨st, -, hst⟩ := List.mem_map.mp hm
    exact ⟨st, hst⟩

omit [ReadinessGate G] in
/-- The page listens to every type. -/
theorem arriving_event {e : JobEvent} {frames : List Frame}
    (hfl : s.listener.inFlight = .event e :: frames) (htype : st.value = e.type) :
    s.arriving .deliver = some (.jobEvent st e.error?) := by
  have hfind : watchedTypes.find? (fun type => type.value = e.type) = some st := by
    rw [← htype]
    cases st <;> rfl
  show (s.listener.inFlight.head?).bind Frame.pageAction? = _
  rw [hfl]
  show (watchedTypes.find? fun type => type.value = e.type).bind _ = _
  rw [hfind]
  rfl

/-- The next event is delivered, and the page shows its type. -/
theorem Sound.delivers (hs : Sound cfg s) (hsrc : s.page.eventSource = some id)
    (hx : s.listener.Expects) : ∃ t st, (site cfg).Path Lts.always s t ∧
      t.page.shown = some (id, st) ∧ st.terminal = false := by
  generalize hfl : s.listener.inFlight = frames
  obtain ⟨e, he, hn⟩ := hx
  induction frames generalizing s with
  | nil =>
    rw [hfl] at he
    cases he
  | cons frame frames ih =>
    have hl : s.listener.step s.runner.store id .deliver = some { s.listener with
        inFlight := frames, received := s.listener.received ++ frame.event?.toList } := by
      simp only [Listener.step, hfl]
    cases frame with
    | heartbeat =>
      have hst := step_listen cfg (p := s.page) hsrc hl (by
        simp only [hear, arriving, hfl]
        rfl)
      rw [hfl] at he
      obtain ⟨t, st, hp, ht⟩ := ih (hs.step (a := .listen .deliver) hst).1 hsrc rfl he
      exact ⟨t, st, (Lts.Path.single trivial hst).trans hp, ht⟩
    | event x =>
      have hsub := hs.inFlight hsrc
      rw [hfl] at hsub he
      have hx : x.type ∉ terminalEventTypes :=
        (reach_told hs.reach id).logs.not_terminal hsub he hn
      obtain ⟨type, htype⟩ := reach_event_type hs.reach (hsub.subset List.mem_cons_self)
      obtain ⟨st, hst⟩ := hs.source id hsrc
      obtain ⟨p, hp, hshown, -⟩ := Page.step_jobEvent hsrc hst type x.error?
      have hhear : s.hear .deliver = some p := by
        rw [hear, arriving_event hfl htype]
        exact hp
      refine ⟨_, type, .single trivial (step_listen cfg hsrc hl hhear), hshown, ?_⟩
      exact Bool.eq_false_iff.mpr fun ht => hx (htype ▸ mem_of_terminal ht)

/-- An event that can still come and is not terminal is shown. -/
theorem Sound.shows_late (hs : Sound cfg s) (hsrc : s.page.eventSource = some id) {e : JobEvent}
    (he : e ∈ s.coming id) (hn : e.type ∉ terminalEventTypes) :
    ∃ t st, (site cfg).Path Lts.always s t ∧ t.page.shown = some (id, st) ∧
      st.terminal = false := by
  obtain ⟨st, hst⟩ := hs.source id hsrc
  have hknown := hs.known id st hst
  rw [hs.coming_eq hknown] at he
  obtain ⟨l, hp, hx⟩ := pending_sent cfg (reach_told hs.reach id).logs
    (hs.log hknown) hknown (hs.following id hsrc) he hn
  obtain ⟨-, hpath⟩ := path_of_sending hsrc hp
  have hs' : Sound cfg { s with listener := l } := hpath.preserves
    (fun _ _ _ hs _ hst => (Sound.step hs hst).1) hs
  obtain ⟨t, st', hp', ht⟩ := hs'.delivers hsrc hx
  exact ⟨t, st', hpath.trans hp', ht⟩

omit [ReadinessGate G] in
theorem told?_eq {i : Nat} (h : s.told? i = some id) :
    ∃ st, s.requests[i]? = some (id, .told (some st)) := by
  unfold told? at h
  split at h
  · rename_i st hi
    cases h
    exact ⟨st, hi⟩
  · cases h

/-- After the answer, the page shows its status. -/
theorem Sound.shows_answer (hs : Sound cfg s) {i : Nat}
    (h : s.step cfg (.cancelAnswered i) = some s')
    (hi : s.requests[i]? = some (id, .told (some st))) (hsrc : s.page.eventSource = some id) :
    s'.page.shown = some (id, st) ∧ st.terminal = true ∧ s'.page.eventSource = some id ∧
      s'.coming id = s.coming id := by
  obtain ⟨st₀, hst₀⟩ := hs.source id hsrc
  obtain ⟨_, _, _, ht⟩ := hs.replies id _ (List.mem_of_getElem? hi)
  simp only [Site.step, hi] at h
  obtain ⟨p, hp, rfl⟩ := Option.map_eq_some_iff.mp h
  obtain ⟨id', hid, hsource, -, hshown⟩ := Page.step_cancelAnswered hp
  obtain rfl : id' = id := by
    rw [← hs.aligned, List.getElem?_map, hi] at hid
    exact (Option.some.inj hid).symm
  refine ⟨?_, ht, hsource.trans hsrc, rfl⟩
  rw [show Page.shown _ = _ from hshown, hst₀, Option.map_some, if_pos rfl]
  rfl

/-- After a step that is not in order, the page can show another status. -/
theorem Sound.not_final (hs : Sound cfg s) (ho : ¬ InOrder s a) (h : s.step cfg a = some s') :
    ∃ t, (site cfg).Path Lts.always s' t ∧ ¬ Final s' t := by
  cases a with
  | cancelAnswered i =>
    simp only [InOrder, not_forall] at ho
    obtain ⟨id, htold, hsrc, e, he, hn⟩ := ho
    obtain ⟨st, hi⟩ := told?_eq htold
    obtain ⟨hshown, ht, hsrc', hcoming⟩ := hs.shows_answer h hi hsrc
    obtain ⟨t, st', hp, hshown', ht'⟩ :=
      (hs.step h).1.shows_late hsrc' (hcoming ▸ he) hn
    refine ⟨t, hp, fun hf => ?_⟩
    have := hf id st st' hshown ht hshown'
    rw [← this, ht'] at ht
    cases ht
  | _ => exact absurd trivial ho

/-! ## The result -/

/-- The job that an action brings the page a message about. -/
def about (s : Site G) : SiteAction G → Option JobId
  | .postAnswered id => some id
  | .cancelAnswered i => (s.requests[i]?).map Prod.fst
  | .listen _ => s.page.eventSource
  | _ => none

/-- See the module doc of this file. -/
structure Lawful (cfg : Config) (s : Site G) : Prop where
  /-- A terminal status is the one that the server holds. -/
  true_of_terminal : ∀ id st, s.page.shown = some (id, st) → st.terminal = true →
    ∃ x, s.runner.store.job? id = some x ∧ x.status = st
  /-- What changes what the page shows is a message about the job that it shows then. -/
  own : ∀ a s', s.step cfg a = some s' → s'.page.shown ≠ s.page.shown →
    ∃ id st, s'.page.shown = some (id, st) ∧ s.about a = some id
  /-- The stream of a job brings events of this job. -/
  heard : ∀ id, s.page.eventSource = some id →
    ∀ e ∈ s.listener.inFlight.filterMap Frame.event?, e ∈ s.runner.history id

theorem Sound.lawful (hs : Sound cfg s) : Lawful cfg s := by
  refine ⟨fun id st hj ht => ?_, fun a s' h hne => ?_, fun id hsrc e he =>
    (hs.inFlight hsrc).subset he⟩
  · obtain ⟨x, hx, hst, -⟩ := hs.truth id st hj ht
    exact ⟨x, hx, hst⟩
  · cases (hs.step h).2 with
    | quiet _ shown _ _ _ => exact absurd shown hne
    | accepted id h' _ _ shown _ =>
      subst h'
      exact ⟨id, _, shown, rfl⟩
    | answered i h' id st request _ shown _ _ _ =>
      subst h'
      cases hj : s.page.shown with
      | none =>
        rw [hj] at shown
        exact absurd (shown.trans hj.symm) hne
      | some p =>
        rw [hj, Option.map_some] at shown
        split at shown
        · rename_i e
          refine ⟨id, st, e ▸ shown, ?_⟩
          rw [about, request]
          rfl
        · exact absurd (shown.trans hj.symm) hne
    | listened _ _ _ _ _ _ page _ => exact absurd (congrArg Page.shown page) hne
    | heard b h' id source _ _ _ _ _ type _ shown _ =>
      subst h'
      exact ⟨id, type, shown, source⟩

end Site

end

/-- In every run a terminal status is true, and only messages about a job change the status that is
shown of it. It stays in every run in order; after each step that is not in order it need not. -/
theorem terminal_status {G : Type} [ReadinessGate G] (cfg : Config) :
    (∀ s : Site G, (site cfg).Reach Lts.always s → s.Lawful cfg) ∧
    (∀ s t : Site G, (site cfg).Reach Site.InOrder s → (site cfg).Path Site.InOrder s t →
      s.Final t) ∧
    (∀ (s : Site G) a s', (site cfg).Reach Lts.always s → ¬ s.InOrder a →
      (site cfg).step s a = some s' →
      ∃ t, (site cfg).Path Lts.always s' t ∧ ¬ s'.Final t) :=
  ⟨fun _ h => (Site.reach_sound h).lawful, fun _ _ h hp => Site.final_of_path h hp,
    fun _ _ _ h ho hst => (Site.reach_sound h).not_final ho hst⟩

namespace Sample

/-- A site with an empty store, after the load of its page. -/
def freshSite : Site Readiness := { runner := initial, page := (Page.renderStatus {}).pollHealth }

/-- A job that runs, and is then cancelled; nothing of its event stream has arrived. -/
def cancelledEarly : List (SiteAction Readiness) := [.page (.clickGenerate true),
  .postHandled submission early one, .postAnswered one, .listen .connect, .server .start,
  .server (.dequeue late), .server (.readyReturns .ready late), .listen (.resume false false),
  .listen (.resume false false), .clickCancel, .cancelHandled 0 late, .cancelAnswered 0]

/-- The same, but the events arrive before the answer. -/
def cancelledLate : List (SiteAction Readiness) := [.page (.clickGenerate true),
  .postHandled submission early one, .postAnswered one, .listen .connect, .server .start,
  .server (.dequeue late), .server (.readyReturns .ready late), .listen (.resume false false),
  .listen (.resume false false), .listen .deliver, .listen .deliver, .clickCancel,
  .cancelHandled 0 late, .cancelAnswered 0]

theorem init_freshSite : (site (config none)).init freshSite :=
  ⟨init_initial fun _ h => (by cases h), rfl, rfl⟩

end Sample

theorem terminal_status_drained : ∃ s t : Site Sample.Readiness,
    s.page.shown = some (Sample.one, .cancelled) ∧ s.Lawful (Sample.config none) ∧
    (site (Sample.config none)).step s (.listen (.resume false false)) = some t ∧ s.Final t := by
  have h : ((site (Sample.config none)).runIf (fun s a => decide (s.InOrder a)) Sample.freshSite
      Sample.cancelledLate).map (fun s => (s.page.shown,
        ((site (Sample.config none)).step s (.listen (.resume false false))).isSome)) =
      some (some (Sample.one, .cancelled), true) := by decide +kernel
  obtain ⟨s, hrun, hs⟩ := Option.map_eq_some_iff.mp h
  obtain ⟨hshown, hsome⟩ := Prod.mk.inj hs
  obtain ⟨t, ht⟩ := Option.isSome_iff_exists.mp hsome
  have hreach : (site (Sample.config none)).Reach Site.InOrder s :=
    (Lts.Reach.init Sample.init_freshSite).path
      (Lts.path_of_runIf (fun _ _ h => of_decide_eq_true h) hrun)
  exact ⟨s, t, hshown, (terminal_status _).1 s hreach.always, ht,
    (terminal_status _).2.1 s t hreach (.single (by exact trivial) ht)⟩

/-- The page shows that the job is cancelled, and then that it runs. -/
theorem running_after_cancelled : ∃ s t : Site Sample.Readiness,
    (site (Sample.config none)).Reach Lts.always s ∧
    (site (Sample.config none)).Path Lts.always s t ∧
    s.page.shown = some (Sample.one, .cancelled) ∧ t.page.shown = some (Sample.one, .running) ∧
    ¬ s.Final t := by
  have h : ((site (Sample.config none)).run Sample.freshSite Sample.cancelledEarly).map
      (fun s => (s.page.shown, ((site (Sample.config none)).run s
        [.listen .deliver, .listen .deliver]).map fun t => t.page.shown)) =
      some (some (Sample.one, .cancelled), some (some (Sample.one, .running))) := by
    decide +kernel
  obtain ⟨s, hrun, hs⟩ := Option.map_eq_some_iff.mp h
  obtain ⟨hshown, ht⟩ := Prod.mk.inj hs
  obtain ⟨t, hrun', hshown'⟩ := Option.map_eq_some_iff.mp ht
  refine ⟨s, t, (Lts.Reach.init Sample.init_freshSite).path (Lts.path_of_run hrun),
    Lts.path_of_run hrun', hshown, hshown', fun hf => ?_⟩
  cases hf _ _ _ hshown rfl hshown'

end Music3
