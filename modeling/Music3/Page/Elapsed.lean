import Music3.Lib.Lts
import Music3.Page.Eta
import Music3.Page.Player
import Music3.Page.Shell

/-!
# The elapsed timer

The progress region of the page: the time that a generation has taken, next to the estimate of its
end. `elapsedPage` is the page of `Shell` with the timer that draws the region, the samples that the
estimate is fitted to and a clock that does not go back (`performance.now()`), in milliseconds and
read in exact arithmetic. A handler that reads the clock twice carries the second reading.

The timer is started by a `running` event and stopped with the event stream. A stream that reconnects
replays its events, so the same event may come any number of times.

* `heard`, `drawn`, `fitted` and `fired` record what has been done; no code reads them.
* `Timed` is the invariant: the region is shown exactly while the page's job runs, it counts from the
  first `running` event of this job, and the timer runs exactly while there is something to count.
* `elapsed_clock`: so the time that is shown is at most one period old, and does not go back.
-/

namespace Music3

open Py

/-- `etaState`'s result. -/
inductive EtaState where
  | suppressed
  | bounded (estimate : ℚ)
  | exceeded (estimate : ℚ)

/-- `etaState`, of what `fitEtaSeconds` returns. -/
def etaState (elapsed : ℚ) : Option ℚ → EtaState
  | some estimate =>
    if 0 < estimate then if elapsed ≤ estimate then .bounded estimate else .exceeded estimate
    else .suppressed
  | none => .suppressed

/-- What `renderEta` writes: the text, and `data-eta`. -/
def EtaState.texts : EtaState → Str × Str
  | bounded estimate =>
    (lit "usually done within ~" ++ formatDuration estimate ++ lit " — estimated maximum",
      lit "bounded")
  | exceeded _ => (lit "longer than the estimated maximum — still generating", lit "indeterminate")
  | suppressed => (lit "still generating…", lit "indeterminate")

/-- The page's job runs. -/
def Page.generating (s : Page) : Bool := s.job.any fun job => job.status = .running

/-- The page and its progress region (module doc). -/
structure Elapsed where
  page : Page
  /-- The clock. -/
  nowMs : ℚ
  /-- `Number(state.job.params.max_new_tokens)`. -/
  frames : Option ℚ := none
  etaSamples : List EtaSample := []
  runningAtMs : Option ℚ := none
  elapsedTimer : Bool := false
  /-- `progress` is not hidden. -/
  progress : Bool := false
  elapsed : Str := []
  eta : Str × Str := ([], [])
  /-- The events of the page's job that the page has handled, with the clock. -/
  heard : List (JobStatus × ℚ) := []
  /-- When the region was last drawn, and with which samples. -/
  drawn : ℚ
  fitted : List EtaSample := []
  /-- When the timer was last set, or has last fired. -/
  fired : ℚ

namespace Elapsed

/-- The seconds from the first `running` event to `t`. -/
def seconds (s : Elapsed) (t : ℚ) : ℚ :=
  match s.runningAtMs with
  | some since => (t - since) / 1000
  | none => 0

/-- `renderProgress`, with `renderEta`. -/
def renderProgress (s : Elapsed) : Elapsed :=
  if s.page.generating then
    { s with
      progress := true
      elapsed := formatDuration (s.seconds s.nowMs)
      eta := (etaState (s.seconds s.nowMs) (fitEtaSeconds s.etaSamples s.frames)).texts
      drawn := s.nowMs
      fitted := s.etaSamples }
  else { s with progress := false }

/-- `renderStatus`. -/
def renderStatus (s : Elapsed) : Elapsed := { s with page := s.page.renderStatus }.renderProgress

/-- The first line of `startElapsed`: `runningAtMs` is latched on the first `running` event. -/
def latch (s : Elapsed) : Elapsed := { s with runningAtMs := some (s.runningAtMs.getD s.nowMs) }

/-- `startElapsed`. -/
def startElapsed (s : Elapsed) : Elapsed :=
  if s.elapsedTimer then s.latch
  else { s.latch.renderProgress with elapsedTimer := true, fired := s.nowMs }

/-- `stopElapsed`. -/
def stopElapsed (s : Elapsed) : Elapsed := { s with elapsedTimer := false }

/-- `stopWatching`. -/
def stopWatching (s : Elapsed) : Elapsed := { s with page := s.page.stopWatching }.stopElapsed

/-- `startWatching`, which stops watching first. -/
def startWatching (s : Elapsed) (id : JobId) : Elapsed :=
  { s.stopWatching with page := s.page.startWatching id }

/-- `onJobEvent`, of an event of the page's job that makes `page` of the page. `later` is the clock
that `renderStatus` reads. -/
def onJobEvent (s : Elapsed) (page : Page) (type : JobStatus) (later : ℚ) : Elapsed :=
  let s := { s with page, heard := s.heard ++ [(type, s.nowMs)] }
  let s := if type = .running then s.startElapsed else s
  let s := { s with nowMs := later }.renderStatus
  if isTerminal type then s.stopWatching else s

/-- `submit` after its POST has been accepted, with the frames of its body. -/
def accepted (s : Elapsed) (id : JobId) (status : JobStatus) (frames : ℚ) : Elapsed :=
  let page := { s.page with posts := s.page.posts - 1, job := some ⟨id, status, none⟩, engine := none }
  { s with page, frames := some frames, runningAtMs := none, heard := [] }.renderStatus
    |>.startWatching id

end Elapsed

/-- What can happen. -/
inductive ElapsedAction where
  /-- An action of the page other than the two below. -/
  | page (a : PageAction)
  | accepted (id : JobId) (status : JobStatus) (frames : ℚ)
  | jobEvent (type : JobStatus) (error : Option Str) (later : ℚ)
  /-- The interval of the timer is over. -/
  | fires
  /-- `etaSamples` is cleared, or gets a sample. -/
  | samples (etaSamples : List EtaSample)
  /-- The end of `loadArtifacts`. -/
  | collected
  | tick (t : ℚ)

/-- What the action is to the page. -/
def ElapsedAction.page? : ElapsedAction → Option PageAction
  | page a => some a
  | accepted id status _ => some (.postAccepted id status)
  | jobEvent type error _ => some (.jobEvent type error)
  | _ => none

namespace Elapsed

/-- One action (module doc). -/
def step (s : Elapsed) : ElapsedAction → Option Elapsed
  | .page (.healthAnswered engine cause) =>
    (s.page.rendered? (.healthAnswered engine cause)).map fun page => { s with page }.renderStatus
  | .page (.cancelAnswered i status) =>
    (s.page.rendered? (.cancelAnswered i status)).map fun page => { s with page }.renderStatus
  | .page (.postAccepted _ _) | .page (.jobEvent _ _) => none
  | .page a => (s.page.step a).map fun page => { s with page }
  | .accepted id status frames =>
    if 0 < s.page.posts then some (s.accepted id status frames) else none
  | .jobEvent type error later =>
    match s.page.eventSource with
    | some _ =>
      if s.nowMs ≤ later then
        match s.page.rendered? (.jobEvent type error) with
        | some page => some (s.onJobEvent page type later)
        | none => some s
      else none
    | none => none
  | .fires => if s.elapsedTimer then some { s with fired := s.nowMs }.renderProgress else none
  | .samples etaSamples => some { s with etaSamples }
  | .collected => some (if s.page.generating then s.renderProgress else s)
  | .tick t => if s.nowMs ≤ t then some { s with nowMs := t } else none

end Elapsed

/-- The page and its progress region as a labelled system, from the end of `main()`. -/
def elapsedPage : Lts Elapsed ElapsedAction where
  init s := ∃ t, s = { page := (Page.renderStatus {}).pollHealth, nowMs := t, drawn := t, fired := t }
  step := Elapsed.step

/-- The timer's period, in milliseconds. -/
def elapsedPeriod : ℚ := 250

/-- When the timer fires next, or would if it were set now. -/
def Elapsed.due (s : Elapsed) : ℚ := (if s.elapsedTimer then s.fired else s.nowMs) + elapsedPeriod

/-- The timer fires at most `B` late, and no handler takes longer than that. -/
def Elapsed.Prompt (B : ℚ) (s : Elapsed) : ElapsedAction → Prop
  | .tick t => s.elapsedTimer = true → t ≤ s.due + B
  | .jobEvent _ _ later => later ≤ s.due + B
  | _ => True

/-- The page does not go over to another job. -/
def ElapsedAction.SameJob : ElapsedAction → Prop
  | accepted _ _ _ => False
  | _ => True

namespace Elapsed

/-- When the page has first heard that its job runs. -/
def firstRunning (heard : List (JobStatus × ℚ)) : Option ℚ :=
  (heard.find? fun e => e.1 = .running).map Prod.snd

/-- The invariant (module doc). -/
structure Timed (s : Elapsed) : Prop where
  region : s.progress = s.page.generating
  anchor : s.runningAtMs = firstRunning s.heard
  timer : s.elapsedTimer = true ↔ s.page.eventSource.isSome = true ∧ s.runningAtMs.isSome = true
  elapsed : s.progress = true → s.elapsed = formatDuration (s.seconds s.drawn)
  eta : s.progress = true →
    s.eta = (etaState (s.seconds s.drawn) (fitEtaSeconds s.fitted s.frames)).texts
  drawn : s.drawn ≤ s.nowMs
  since : ∀ t, s.runningAtMs = some t → t ≤ s.drawn
  fired : s.elapsedTimer = true → s.fired ≤ s.nowMs ∧ (s.progress = true → s.fired ≤ s.drawn)

/-! ## The page below -/

section
variable {s s' : Elapsed} {a : ElapsedAction}

@[simp] theorem renderProgress_page : s.renderProgress.page = s.page := by
  unfold renderProgress; split <;> rfl
@[simp] theorem renderProgress_nowMs : s.renderProgress.nowMs = s.nowMs := by
  unfold renderProgress; split <;> rfl
@[simp] theorem renderProgress_runningAtMs : s.renderProgress.runningAtMs = s.runningAtMs := by
  unfold renderProgress; split <;> rfl
@[simp] theorem renderProgress_elapsedTimer : s.renderProgress.elapsedTimer = s.elapsedTimer := by
  unfold renderProgress; split <;> rfl
@[simp] theorem renderProgress_heard : s.renderProgress.heard = s.heard := by
  unfold renderProgress; split <;> rfl
@[simp] theorem renderProgress_fired : s.renderProgress.fired = s.fired := by
  unfold renderProgress; split <;> rfl
@[simp] theorem renderProgress_frames : s.renderProgress.frames = s.frames := by
  unfold renderProgress; split <;> rfl

/-- What `startElapsed` leaves as it is. -/
theorem startElapsed_rest : s.startElapsed.page = s.page ∧ s.startElapsed.heard = s.heard ∧
    s.startElapsed.nowMs = s.nowMs ∧ s.startElapsed.frames = s.frames := by
  unfold startElapsed
  split
  · exact ⟨rfl, rfl, rfl, rfl⟩
  · simp [latch]

theorem startElapsed_timer : s.startElapsed.elapsedTimer = true ∧
    s.startElapsed.runningAtMs = some (s.runningAtMs.getD s.nowMs) := by
  unfold startElapsed
  split
  · exact ⟨‹_›, rfl⟩
  · exact ⟨rfl, renderProgress_runningAtMs⟩

/-- The timer that runs is left, or it is set now. -/
theorem startElapsed_fired : s.startElapsed.fired = s.nowMs ∨
    (s.elapsedTimer = true ∧ s.startElapsed.fired = s.fired) := by
  unfold startElapsed
  split
  · exact .inr ⟨‹_›, rfl⟩
  · exact .inl rfl

theorem startElapsed_drawn (h : s.drawn ≤ s.nowMs) : s.startElapsed.drawn ≤ s.nowMs := by
  unfold startElapsed
  split
  · exact h
  · unfold renderProgress
    split
    · exact le_refl _
    · exact h

/-- `onJobEvent` up to `renderStatus`. -/
def hear (s : Elapsed) (page : Page) (type : JobStatus) : Elapsed :=
  let s := { s with page, heard := s.heard ++ [(type, s.nowMs)] }
  if type = .running then s.startElapsed else s

theorem onJobEvent_eq (page : Page) (type : JobStatus) (later : ℚ) :
    s.onJobEvent page type later =
      if isTerminal type then
        Elapsed.stopWatching (renderStatus { s.hear page type with nowMs := later })
      else renderStatus { s.hear page type with nowMs := later } := rfl

theorem hear_rest (page : Page) (type : JobStatus) : (s.hear page type).page = page ∧
    (s.hear page type).heard = s.heard ++ [(type, s.nowMs)] ∧
    (s.hear page type).nowMs = s.nowMs := by
  unfold hear
  dsimp only
  split
  · obtain ⟨hp, hh, hn, -⟩ := startElapsed_rest
      (s := { s with page, heard := s.heard ++ [(type, s.nowMs)] })
    exact ⟨hp, hh, hn⟩
  · exact ⟨rfl, rfl, rfl⟩

theorem onJobEvent_page (page : Page) (type : JobStatus) (later : ℚ) :
    (s.onJobEvent page type later).page =
      if isTerminal type then page.renderStatus.stopWatching else page.renderStatus := by
  have hpage : (renderStatus { s.hear page type with nowMs := later }).page = page.renderStatus := by
    rw [renderStatus, renderProgress_page]
    exact congrArg Page.renderStatus (hear_rest page type).1
  rw [onJobEvent_eq]
  split
  · exact congrArg Page.stopWatching hpage
  · exact hpage

theorem accepted_page (id : JobId) (status : JobStatus) (frames : ℚ) :
    (s.accepted id status frames).page = s.page.accepted id status := by
  simp only [accepted, startWatching, renderStatus, renderProgress_page]
  rfl

/-- An action is what the page does at it, or leaves the page alone. -/
theorem step_page (h : s.step a = some s') :
    a.page?.elim (some s.page) (fun b => s.page.step b) = some s'.page := by
  cases a with
  | page b =>
    cases b with
    | healthAnswered engine cause =>
      obtain ⟨page, hp, rfl⟩ := Option.map_eq_some_iff.mp h
      simp only [ElapsedAction.page?, Option.elim_some, Page.step, hp, Option.map_some, renderStatus,
        renderProgress_page]
    | cancelAnswered i status =>
      obtain ⟨page, hp, rfl⟩ := Option.map_eq_some_iff.mp h
      simp only [ElapsedAction.page?, Option.elim_some, Page.step, hp, Option.map_some, renderStatus,
        renderProgress_page]
    | postAccepted id status | jobEvent type error => cases h
    | ctrlEnter valid =>
      cases h
      rfl
    | _ =>
      obtain ⟨page, hp, rfl⟩ := Option.map_eq_some_iff.mp h
      exact hp
  | accepted id status frames =>
    simp only [step, Option.ite_none_right_eq_some, Option.some.injEq] at h
    obtain ⟨hposts, rfl⟩ := h
    simp only [ElapsedAction.page?, Option.elim_some, Page.step, if_pos hposts, accepted_page]
  | jobEvent type error later =>
    simp only [step] at h
    split at h
    · rename_i id hsource
      rw [Option.ite_none_right_eq_some] at h
      obtain ⟨-, h⟩ := h
      split at h
      · rename_i page hp
        cases h
        simp only [ElapsedAction.page?, Option.elim_some, Page.step, hsource, hp, onJobEvent_page]
      · rename_i hp
        cases h
        simp only [ElapsedAction.page?, Option.elim_some, Page.step, hsource, hp]
    · cases h
  | fires =>
    simp only [step, Option.ite_none_right_eq_some, Option.some.injEq] at h
    obtain ⟨-, rfl⟩ := h
    exact congrArg some (renderProgress_page (s := { s with fired := s.nowMs })).symm
  | samples etaSamples =>
    cases h
    rfl
  | collected =>
    cases h
    split
    · exact congrArg some renderProgress_page.symm
    · rfl
  | tick t =>
    simp only [step, Option.ite_none_right_eq_some, Option.some.injEq] at h
    obtain ⟨-, rfl⟩ := h
    rfl

/-! ## What is shown -/

/-- A drawing is in time, whatever was shown before. -/
theorem Timed.render (anchor : s.runningAtMs = firstRunning s.heard)
    (timer : s.elapsedTimer = true ↔
      s.page.eventSource.isSome = true ∧ s.runningAtMs.isSome = true)
    (drawn : s.drawn ≤ s.nowMs) (since : ∀ t, s.runningAtMs = some t → t ≤ s.nowMs)
    (hidden : s.page.generating = false → ∀ t, s.runningAtMs = some t → t ≤ s.drawn)
    (fired : s.elapsedTimer = true → s.fired ≤ s.nowMs) : Timed s.renderProgress := by
  by_cases hg : s.page.generating = true
  · rw [renderProgress, if_pos hg]
    exact ⟨hg.symm, anchor, timer, fun _ => rfl, fun _ => rfl, le_refl _, since,
      fun ht => ⟨fired ht, fun _ => fired ht⟩⟩
  · rw [renderProgress, if_neg hg]
    rw [Bool.not_eq_true] at hg
    exact ⟨hg.symm, anchor, timer, fun h => (by cases h), fun h => (by cases h), drawn, hidden hg,
      fun ht => ⟨fired ht, fun h => (by cases h)⟩⟩

/-- Another page with the same stream is drawn. -/
theorem Timed.redraw (h : Timed s) (page : Page) (hsource : page.eventSource = s.page.eventSource)
    {fired : ℚ} (hfired : s.elapsedTimer = true → fired ≤ s.nowMs) :
    Timed (renderProgress { s with page, fired }) :=
  .render h.anchor (by rw [h.timer, hsource]) h.drawn (fun t ht => (h.since t ht).trans h.drawn)
    (fun _ => h.since) hfired

/-- What does not concern the region. -/
theorem Timed.frame (h : Timed s) {page : Page} (hsource : page.eventSource = s.page.eventSource)
    (hg : page.generating = s.page.generating) : Timed { s with page } :=
  ⟨h.region.trans hg.symm, h.anchor, by rw [h.timer, hsource], h.elapsed, h.eta, h.drawn, h.since,
    h.fired⟩

theorem rendered?_source {p q : Page} {b : PageAction} (h : p.rendered? b = some q) :
    q.eventSource = p.eventSource := by
  cases b with
  | healthAnswered engine cause =>
    simp only [Page.rendered?, Option.ite_none_right_eq_some, Option.some.injEq] at h
    obtain ⟨-, rfl⟩ := h
    rfl
  | cancelAnswered i status =>
    simp only [Page.rendered?] at h
    split at h
    · cases h
      unfold Page.cancelled
      dsimp only
      split
      · unfold Page.setStatus
        split
        · split <;> rfl
        · rfl
      · rfl
    · cases h
  | jobEvent type error =>
    simp only [Page.rendered?] at h
    split at h
    · simp only [Page.onJobEvent] at h
      split at h
      · split at h
        · cases h
          rfl
        · cases h
      · cases h
    · cases h
  | _ => cases h

/-- An event of the page's job tells its status. -/
theorem rendered?_jobEvent {p q : Page} {type : JobStatus} {error : Option Str}
    (h : p.rendered? (.jobEvent type error) = some q) :
    q.generating = decide (type = .running) := by
  simp only [Page.rendered?] at h
  split at h
  · simp only [Page.onJobEvent] at h
    split at h
    · split at h
      · cases h
        rfl
      · cases h
    · cases h
  · cases h

/-- An action that neither renders nor accepts a job. -/
theorem quiet_page {p q : Page} {b : PageAction} (h : p.step b = some q)
    (hr : p.rendered? b = none) (hb : ∀ id status, b ≠ .postAccepted id status) :
    q.eventSource = p.eventSource ∧ q.generating = p.generating := by
  have hsubmit : ∀ valid, (p.submit valid).eventSource = p.eventSource ∧
      (p.submit valid).generating = p.generating := by
    intro valid
    unfold Page.submit
    split
    · exact ⟨rfl, rfl⟩
    · exact ⟨rfl, rfl⟩
  cases b with
  | clickGenerate valid =>
    simp only [Page.step] at h
    split at h
    · cases h
    · cases h
      exact hsubmit valid
  | ctrlEnter valid =>
    cases h
    split
    · exact ⟨rfl, rfl⟩
    · exact hsubmit valid
  | clickCancel =>
    simp only [Page.step, Option.ite_none_right_eq_some, Option.some.injEq] at h
    obtain ⟨-, rfl⟩ := h
    unfold Page.cancel
    split
    · exact ⟨rfl, rfl⟩
    · exact ⟨rfl, rfl⟩
  | postAccepted id status => exact absurd rfl (hb id status)
  | postRefused | healthFailed | healthTick =>
    simp only [Page.step, Option.ite_none_right_eq_some, Option.some.injEq] at h
    obtain ⟨-, rfl⟩ := h
    exact ⟨rfl, rfl⟩
  | healthAnswered engine cause | cancelAnswered i status =>
    simp only [Page.step, hr, Option.map_none] at h
    cases h
  | jobEvent type error =>
    simp only [Page.step, hr] at h
    split at h
    · cases h
      exact ⟨rfl, rfl⟩
    · cases h
  | cancelConflict i =>
    simp only [Page.step] at h
    split at h
    · cases h
      exact ⟨rfl, rfl⟩
    · cases h

theorem Timed.stopWatching (h : Timed s) : Timed s.stopWatching :=
  ⟨h.region, h.anchor, iff_of_false (fun h => by cases h) (fun h => by cases h.1), h.elapsed, h.eta,
    h.drawn, h.since, fun h => by cases h⟩

/-- Nothing is drawn between the drawing of the new job and the end of the old timer. -/
theorem accepted_eq (id : JobId) (status : JobStatus) (frames : ℚ) :
    s.accepted id status frames = renderProgress { s.stopElapsed with
      page := s.page.accepted id status
      frames := some frames
      runningAtMs := none
      heard := [] } := by
  simp only [accepted, startWatching, renderStatus, renderProgress]
  split
  · rename_i hg
    exact (if_pos hg).symm
  · rename_i hg
    exact (if_neg hg).symm

theorem Timed.accepted (h : Timed s) (id : JobId) (status : JobStatus) (frames : ℚ) :
    Timed (s.accepted id status frames) := by
  rw [accepted_eq]
  refine .render rfl ?_ h.drawn (fun t ht => by cases ht) (fun _ t ht => by cases ht)
    (fun ht => by cases ht)
  exact iff_of_false (fun h => by cases h) (fun h => by cases h.2)

theorem firstRunning_concat (heard : List (JobStatus × ℚ)) (type : JobStatus) (t : ℚ) :
    firstRunning (heard ++ [(type, t)]) =
      if type = .running then some ((firstRunning heard).getD t) else firstRunning heard := by
  unfold firstRunning
  rw [List.find?_append]
  cases hf : heard.find? fun e => decide (e.1 = .running) with
  | some e => split <;> simp
  | none =>
    split
    · simp [*]
    · simp [*]

/-- The timer and its anchor after an event of the page's job, before it is drawn. -/
theorem hear_timer (h : Timed s) (page : Page) (type : JobStatus) :
    (s.hear page type).runningAtMs = firstRunning (s.hear page type).heard ∧
    ((s.hear page type).elapsedTimer = true ↔ s.elapsedTimer = true ∨ type = .running) ∧
    ((s.hear page type).runningAtMs.isSome = true ↔
      s.runningAtMs.isSome = true ∨ type = .running) ∧
    (s.hear page type).drawn ≤ s.nowMs ∧
    (∀ t, (s.hear page type).runningAtMs = some t → t ≤ s.nowMs) ∧
    ((s.hear page type).elapsedTimer = true → (s.hear page type).fired ≤ s.nowMs) := by
  have hsince : ∀ t, s.runningAtMs = some t → t ≤ s.nowMs := fun t ht => (h.since t ht).trans h.drawn
  have hheard := (hear_rest (s := s) page type).2.1
  rw [hheard, firstRunning_concat, ← h.anchor]
  unfold hear
  dsimp only
  by_cases hrun : type = .running
  · rw [if_pos hrun, if_pos hrun]
    obtain ⟨htimer, hanchor⟩ := startElapsed_timer
      (s := { s with page, heard := s.heard ++ [(type, s.nowMs)] })
    refine ⟨hanchor, iff_of_true htimer (.inr hrun), iff_of_true (by rw [hanchor]; rfl) (.inr hrun),
      startElapsed_drawn h.drawn, ?_, fun _ => ?_⟩
    · intro t ht
      rw [hanchor, Option.some.injEq] at ht
      subst ht
      cases hr : s.runningAtMs with
      | none => exact le_refl _
      | some t => exact hsince t hr
    · rcases startElapsed_fired (s := { s with page, heard := s.heard ++ [(type, s.nowMs)] }) with
        hf | ⟨ht, hf⟩
      · exact le_of_eq hf
      · rw [hf]
        exact (h.fired ht).1
  · rw [if_neg hrun, if_neg hrun]
    exact ⟨rfl, by simp [hrun], by simp [hrun], h.drawn, hsince, fun ht => (h.fired ht).1⟩

theorem hear_other {page : Page} {type : JobStatus} (h : type ≠ .running) :
    s.hear page type = { s with page, heard := s.heard ++ [(type, s.nowMs)] } := if_neg h

theorem Timed.heard (h : Timed s) {page : Page} {type : JobStatus} {later : ℚ}
    (hl : s.nowMs ≤ later) (hsource : page.eventSource = s.page.eventSource)
    (hsome : s.page.eventSource.isSome = true)
    (hg : page.generating = decide (type = .running)) : Timed (s.onJobEvent page type later) := by
  obtain ⟨hanchor, htimer, hrunning, hdrawn, hsince, hfired⟩ := hear_timer h page type
  obtain ⟨hpage, -, -⟩ := hear_rest (s := s) page type
  have hr : Timed (renderStatus { s.hear page type with nowMs := later }) := by
    refine .render hanchor ?_ (hdrawn.trans hl) (fun t ht => (hsince t ht).trans hl) ?_
      (fun ht => (hfired ht).trans hl)
    · have hsource' : (s.hear page type).page.renderStatus.eventSource.isSome = true := by
        rw [hpage]
        show page.eventSource.isSome = true
        rw [hsource, hsome]
      show _ ↔ (s.hear page type).page.renderStatus.eventSource.isSome = true ∧ _
      rw [hsource', hrunning, htimer, h.timer, hsome]
      simp
    · intro hhidden
      have hg' : (s.hear page type).page.generating = false := hhidden
      rw [hpage, hg] at hg'
      rw [hear_other (of_decide_eq_false hg')]
      exact h.since
  rw [onJobEvent_eq]
  split
  · exact hr.stopWatching
  · exact hr

theorem Timed.step (h : Timed s) (hst : s.step a = some s') : Timed s' := by
  cases a with
  | page b =>
    cases b with
    | healthAnswered engine cause | cancelAnswered i status =>
      obtain ⟨page, hp, rfl⟩ := Option.map_eq_some_iff.mp hst
      exact h.redraw page.renderStatus (show page.eventSource = _ from rendered?_source hp)
        fun ht => (h.fired ht).1
    | postAccepted id status | jobEvent type error => cases hst
    | ctrlEnter valid =>
      cases hst
      obtain ⟨hsource, hg⟩ := quiet_page (p := s.page) (b := .ctrlEnter valid) rfl rfl
        (by intro _ _ e; cases e)
      exact h.frame hsource hg
    | _ =>
      obtain ⟨page, hp, rfl⟩ := Option.map_eq_some_iff.mp hst
      obtain ⟨hsource, hg⟩ := quiet_page hp rfl (by intro _ _ e; cases e)
      exact h.frame hsource hg
  | accepted id status frames =>
    simp only [Elapsed.step, Option.ite_none_right_eq_some, Option.some.injEq] at hst
    obtain ⟨-, rfl⟩ := hst
    exact h.accepted id status frames
  | jobEvent type error later =>
    simp only [Elapsed.step] at hst
    split at hst
    · rename_i id hsource
      rw [Option.ite_none_right_eq_some] at hst
      obtain ⟨hl, hst⟩ := hst
      split at hst
      · rename_i page hp
        cases hst
        exact h.heard hl (rendered?_source hp) (by rw [hsource]; rfl) (rendered?_jobEvent hp)
      · cases hst
        exact h
    · cases hst
  | fires =>
    simp only [Elapsed.step, Option.ite_none_right_eq_some, Option.some.injEq] at hst
    obtain ⟨-, rfl⟩ := hst
    exact h.redraw s.page rfl fun _ => le_refl _
  | samples etaSamples =>
    cases hst
    exact ⟨h.region, h.anchor, h.timer, h.elapsed, h.eta, h.drawn, h.since, h.fired⟩
  | collected =>
    cases hst
    split
    · exact h.redraw s.page rfl fun ht => (h.fired ht).1
    · exact h
  | tick t =>
    simp only [Elapsed.step, Option.ite_none_right_eq_some, Option.some.injEq] at hst
    obtain ⟨ht, rfl⟩ := hst
    exact ⟨h.region, h.anchor, h.timer, h.elapsed, h.eta, h.drawn.trans ht, h.since,
      fun hf => ⟨(h.fired hf).1.trans ht, (h.fired hf).2⟩⟩

/-! ## The time goes on -/

/-- The seconds that were shown last. -/
def shown (s : Elapsed) : ℚ := s.seconds s.drawn

/-- What an action does to the clock and the timer, and, for the same job, to its anchor and its
last drawing. -/
structure Goes (s : Elapsed) (a : ElapsedAction) (s' : Elapsed) : Prop where
  anchor : a.SameJob → ∀ t, s.runningAtMs = some t → s'.runningAtMs = some t
  drawn : s.drawn ≤ s'.drawn
  clock : s'.nowMs = s.nowMs ∨ (a = .tick s'.nowMs ∧ s'.elapsedTimer = s.elapsedTimer) ∨
    ∃ type error, a = .jobEvent type error s'.nowMs
  fired : s'.elapsedTimer = true →
    s'.fired = s.nowMs ∨ (s.elapsedTimer = true ∧ s'.fired = s.fired)

theorem drawn_renderProgress (h : s.drawn ≤ s.nowMs) : s.drawn ≤ s.renderProgress.drawn := by
  unfold renderProgress
  split
  · exact h
  · exact le_refl _

/-- A drawing of the page as it is. -/
theorem goes_render (h : s.drawn ≤ s.nowMs) (page : Page) {fired : ℚ}
    (hf : fired = s.nowMs ∨ fired = s.fired) :
    Goes s a (renderProgress { s with page, fired }) where
  anchor _ t ht := by rw [renderProgress_runningAtMs]; exact ht
  drawn := drawn_renderProgress (s := { s with page, fired }) h
  clock := .inl renderProgress_nowMs
  fired ht := by
    rw [renderProgress_elapsedTimer] at ht
    rw [renderProgress_fired]
    exact hf.imp_right fun hf => ⟨ht, hf⟩

/-- What changes neither the timer nor the region. -/
theorem goes_frame {t : Elapsed} (hr : t.runningAtMs = s.runningAtMs) (hd : t.drawn = s.drawn)
    (hn : t.nowMs = s.nowMs ∨ a = .tick t.nowMs) (ht : t.elapsedTimer = s.elapsedTimer)
    (hf : t.fired = s.fired) : Goes s a t :=
  ⟨fun _ _ h => hr.trans h, le_of_eq hd.symm, hn.imp_right fun h => .inl ⟨h, ht⟩,
    fun h => .inr ⟨ht ▸ h, hf⟩⟩

theorem goes_startElapsed (h : s.drawn ≤ s.nowMs) : Goes s a s.startElapsed := by
  refine ⟨fun _ t ht => ?_, ?_, .inl startElapsed_rest.2.2.1, fun _ => startElapsed_fired⟩
  · rw [startElapsed_timer.2, ht]
    rfl
  · unfold startElapsed
    split
    · exact le_refl _
    · exact drawn_renderProgress (s := s.latch) h

theorem Timed.goes_heard (h : Timed s) {page : Page} {type : JobStatus} {later : ℚ}
    (hl : s.nowMs ≤ later) (error : Option Str) :
    Goes s (.jobEvent type error later) (s.onJobEvent page type later) := by
  have hh : Goes s (.jobEvent type error later) (s.hear page type) := by
    unfold hear
    dsimp only
    split
    · obtain ⟨hanchor, hd, hc, hf⟩ := goes_startElapsed (a := .jobEvent type error later)
        (s := { s with page, heard := s.heard ++ [(type, s.nowMs)] }) h.drawn
      exact ⟨hanchor, hd, hc, hf⟩
    · exact goes_frame rfl rfl (.inl rfl) rfl rfl
  obtain ⟨-, -, -, hdrawn, -, -⟩ := hear_timer h page type
  have hnow : (renderStatus { s.hear page type with nowMs := later }).nowMs = later := by
    rw [renderStatus, renderProgress_nowMs]
  have hr : Goes s (.jobEvent type error later)
      (renderStatus { s.hear page type with nowMs := later }) := by
    refine ⟨fun hs t ht => ?_, hh.drawn.trans ?_, .inr (.inr ⟨type, error, by rw [hnow]⟩),
      fun ht => ?_⟩
    · rw [renderStatus, renderProgress_runningAtMs]
      exact hh.anchor hs t ht
    · exact drawn_renderProgress (s := { s.hear page type with
        page := (s.hear page type).page.renderStatus, nowMs := later }) (hdrawn.trans hl)
    · rw [renderStatus, renderProgress_elapsedTimer] at ht
      rw [renderStatus, renderProgress_fired]
      exact hh.fired ht
  rw [onJobEvent_eq]
  split
  · exact ⟨hr.anchor, hr.drawn, .inr (.inr ⟨type, error, congrArg _ hnow.symm⟩),
      fun ht => by cases ht⟩
  · exact hr

theorem Timed.goes (h : Timed s) (hst : s.step a = some s') : Goes s a s' := by
  cases a with
  | page b =>
    cases b with
    | healthAnswered engine cause | cancelAnswered i status =>
      obtain ⟨page, -, rfl⟩ := Option.map_eq_some_iff.mp hst
      exact goes_render h.drawn page.renderStatus (.inr rfl)
    | postAccepted id status | jobEvent type error => cases hst
    | ctrlEnter valid =>
      cases hst
      exact goes_frame rfl rfl (.inl rfl) rfl rfl
    | _ =>
      obtain ⟨page, -, rfl⟩ := Option.map_eq_some_iff.mp hst
      exact goes_frame rfl rfl (.inl rfl) rfl rfl
  | accepted id status frames =>
    simp only [Elapsed.step, Option.ite_none_right_eq_some, Option.some.injEq] at hst
    obtain ⟨-, rfl⟩ := hst
    refine ⟨fun hs => hs.elim, ?_, .inl ?_, fun ht => by cases ht⟩
    · rw [accepted_eq]
      exact drawn_renderProgress (s := { s.stopElapsed with
        page := s.page.accepted id status, frames := some frames, runningAtMs := none, heard := [] })
        h.drawn
    · rw [accepted_eq, renderProgress_nowMs]
      rfl
  | jobEvent type error later =>
    simp only [Elapsed.step] at hst
    split at hst
    · rw [Option.ite_none_right_eq_some] at hst
      obtain ⟨hl, hst⟩ := hst
      split at hst
      · cases hst
        exact h.goes_heard hl error
      · cases hst
        exact goes_frame rfl rfl (.inl rfl) rfl rfl
    · cases hst
  | fires =>
    simp only [Elapsed.step, Option.ite_none_right_eq_some, Option.some.injEq] at hst
    obtain ⟨-, rfl⟩ := hst
    exact goes_render h.drawn s.page (.inl rfl)
  | samples etaSamples =>
    cases hst
    exact goes_frame rfl rfl (.inl rfl) rfl rfl
  | collected =>
    cases hst
    split
    · exact goes_render h.drawn s.page (.inr rfl)
    · exact goes_frame rfl rfl (.inl rfl) rfl rfl
  | tick t =>
    simp only [Elapsed.step, Option.ite_none_right_eq_some, Option.some.injEq] at hst
    obtain ⟨-, rfl⟩ := hst
    exact goes_frame rfl rfl (.inr rfl) rfl rfl

theorem Goes.shown_le (hg : Goes s a s') (ha : a.SameJob) (h : Timed s') : s.shown ≤ s'.shown := by
  unfold shown seconds
  cases hs : s.runningAtMs with
  | none =>
    cases hs' : s'.runningAtMs with
    | none => exact le_refl _
    | some t =>
      have := h.since t hs'
      exact div_nonneg (by linarith) (by norm_num)
  | some t =>
    rw [hg.anchor ha t hs]
    have := hg.drawn
    exact div_le_div_of_nonneg_right (by linarith) (by norm_num)

/-- The timer has not been due for longer than `B`. -/
def InTime (B : ℚ) (s : Elapsed) : Prop := s.elapsedTimer = true → s.nowMs ≤ s.due + B

theorem Goes.inTime {B : ℚ} (hB : 0 ≤ B) (hg : Goes s a s') (h : Timed s) (hi : InTime B s)
    (hp : s.Prompt B a) : InTime B s' := by
  intro ht
  have hperiod : 0 < elapsedPeriod := by norm_num [elapsedPeriod]
  -- the timer has fired at `s.nowMs`, or at `s.fired`, which is not later
  have hdue : s.due ≤ s'.due := by
    have hsfired := h.fired
    unfold due
    rw [if_pos ht]
    rcases hg.fired ht with hf | ⟨hs, hf⟩
    · rw [hf]
      split
      · have := (hsfired ‹_›).1
        linarith
      · exact le_refl _
    · rw [hf, if_pos hs]
  rcases hg.clock with hc | ⟨rfl, hs⟩ | ⟨type, error, rfl⟩
  · rw [hc]
    rcases hg.fired ht with hf | ⟨hs, hf⟩
    · rw [due, if_pos ht, hf]
      linarith
    · have := hi hs
      linarith
  · have := hp (hs ▸ ht)
    linarith
  · have : s'.nowMs ≤ s.due + B := hp
    linarith

theorem timed_init (h : elapsedPage.init s) : Timed s ∧ s.elapsedTimer = false := by
  obtain ⟨t, rfl⟩ := h
  exact ⟨⟨rfl, rfl, iff_of_false (fun h => by cases h) (fun h => by cases h.1),
    fun h => (by cases h), fun h => (by cases h), le_refl _, fun _ h => (by cases h),
    fun h => by cases h⟩, rfl⟩

theorem timed_reach {P : Elapsed → ElapsedAction → Prop} (h : elapsedPage.Reach P s) : Timed s :=
  h.invariant (fun _ hs => (timed_init hs).1) fun _ _ _ hi _ hst => hi.step hst

theorem inTime_reach {B : ℚ} (hB : 0 ≤ B) (h : elapsedPage.Reach (Prompt B) s) : InTime B s := by
  refine (h.invariant (I := fun s => Timed s ∧ InTime B s) (fun s hs => ?_)
    fun s a s' hi hp hst => ?_).2
  · obtain ⟨ht, hoff⟩ := timed_init hs
    refine ⟨ht, fun hon => ?_⟩
    rw [hoff] at hon
    cases hon
  · exact ⟨hi.1.step hst, (hi.1.goes hst).inTime hB hi.1 hi.2 hp⟩

/-- The page below is in a state that `page` reaches. -/
theorem page_reach {P : Elapsed → ElapsedAction → Prop} (h : elapsedPage.Reach P s) :
    Music3.page.Reach Lts.always s.page := by
  refine h.invariant (I := fun s => Music3.page.Reach Lts.always s.page) (fun s hs => ?_)
    fun s a s' hi _ hst => ?_
  · obtain ⟨t, rfl⟩ := hs
    exact .init rfl
  · have hp := step_page hst
    cases hb : a.page? with
    | none =>
      rw [hb, Option.elim_none, Option.some.injEq] at hp
      exact hp ▸ hi
    | some b =>
      rw [hb, Option.elim_some] at hp
      exact hi.step (a := b) trivial hp

end

end Elapsed

/-! ## The result -/

/-- What the progress region shows (module doc). -/
structure Elapsed.Shows (B : ℚ) (s : Elapsed) : Prop where
  region : s.progress = s.page.generating
  elapsed : s.progress = true → s.elapsed = formatDuration s.shown
  eta : s.progress = true → s.eta = (etaState s.shown (fitEtaSeconds s.fitted s.frames)).texts
  anchor : s.runningAtMs = Elapsed.firstRunning s.heard
  timer : s.elapsedTimer = true ↔
    s.page.eventSource.isSome = true ∧ (Elapsed.firstRunning s.heard).isSome = true
  fresh : s.progress = true → s.elapsedTimer = true → s.nowMs ≤ s.drawn + elapsedPeriod + B

theorem elapsed_clock (B : ℚ) (hB : 0 ≤ B) (s : Elapsed)
    (h : elapsedPage.Reach (Elapsed.Prompt B) s) : page.Reach Lts.always s.page ∧ s.Shows B ∧
    ∀ s', elapsedPage.Path (fun _ a => a.SameJob) s s' → s.shown ≤ s'.shown := by
  have ht := Elapsed.timed_reach h
  refine ⟨Elapsed.page_reach h, ⟨ht.region, ht.elapsed, ht.eta, ht.anchor, ?_, fun hshown hon => ?_⟩,
    fun s' hp => ?_⟩
  · rw [ht.timer, ht.anchor]
  · have hle := Elapsed.inTime_reach hB h hon
    have := (ht.fired hon).2 hshown
    rw [Elapsed.due, if_pos hon] at hle
    linarith
  · refine (hp.preserves (I := fun t => Elapsed.Timed t ∧ s.shown ≤ t.shown)
      (fun t a t' hi ha hst => ?_) ⟨ht, le_refl _⟩).2
    have ht' := hi.1.step hst
    exact ⟨ht', hi.2.trans ((hi.1.goes hst).shown_le ha ht')⟩

namespace Sample

/-- A minute late: a browser throttles the timers of a page in the background. -/
def throttled (s : Elapsed) : ElapsedAction → Bool
  | .tick t => !s.elapsedTimer || t ≤ s.due + 60000
  | .jobEvent _ _ later => later ≤ s.due + 60000
  | _ => true

theorem throttled_sound (s : Elapsed) (a : ElapsedAction) (h : throttled s a = true) :
    s.Prompt 60000 a := by
  cases a with
  | tick t =>
    intro ht
    simpa [throttled, ht] using h
  | jobEvent type error later => exact of_decide_eq_true (p := later ≤ s.due + 60000) h
  | _ => trivial

def loaded : Elapsed :=
  { page := (Page.renderStatus {}).pollHealth, nowMs := 0, drawn := 0, fired := 0 }

theorem loaded_init : elapsedPage.init loaded := ⟨0, rfl⟩

/-- A job runs for a minute and a half, and its stream has been reconnected: the event that it runs
has come twice. -/
def counted : List ElapsedAction :=
  [.page (.clickGenerate true), .accepted one .queued 1500, .jobEvent .queued none 0, .tick 5000,
    .jobEvent .running none 5000, .tick 20000, .jobEvent .running none 20000, .tick 65000, .fires,
    .tick 95000]

theorem counted_run : (elapsedPage.runIf throttled loaded counted).map
    (fun s => (s.progress, s.elapsedTimer, s.elapsed, s.runningAtMs, s.nowMs)) =
      some (true, true, lit "1:00", some 5000, 95000) := by decide +kernel

end Sample

theorem elapsed_clock_counted : ∃ s : Elapsed, s.progress = true ∧ s.elapsed = lit "1:00" ∧
    s.nowMs = 95000 ∧ s.Shows 60000 := by
  obtain ⟨s, hrun, hs⟩ := Option.map_eq_some_iff.mp Sample.counted_run
  simp only [Prod.mk.injEq] at hs
  obtain ⟨hshown, -, htext, -, hnow⟩ := hs
  have h := elapsed_clock 60000 (by decide +kernel) s
    ((Lts.Reach.init Sample.loaded_init).path (Lts.path_of_runIf Sample.throttled_sound hrun))
  exact ⟨s, hshown, htext, hnow, h.2.1⟩

end Music3
