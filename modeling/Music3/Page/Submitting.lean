import Music3.Page.Shell

/-!
# One submission at a time

`Page.SingleSubmit`: at most one POST /jobs is in flight, Generate is disabled while it is, and no
action sends one while the page's job is in flight. The only guard is the button's flag, which
`renderStatus()` computes from the job before: `single_submit` says that a run keeps to it as long
as its steps are `Undisturbed`, and that each step that is not breaks it.

`double_submit` is a run that does: the answer to the poll of the page load arrives while the first
submission is in flight.
-/

namespace Music3

open Py

namespace Page

variable {s s' : Page} {a : PageAction}

/-- One submission at a time (module doc). -/
structure SingleSubmit (s : Page) : Prop where
  one : s.posts ≤ 1
  disabled : 0 < s.posts → s.generateDisabled = true
  sends : ∀ a s', s.step a = some s' → s.posts < s'.posts → s.posts = 0 ∧ s.inFlight = false

/-- While a POST /jobs is in flight, nothing renders a job that is not in flight; and it is not
refused while the page's job is in flight. -/
def Undisturbed (s : Page) (a : PageAction) : Prop :=
  0 < s.posts → (∀ s', s.rendered? a = some s' → s'.inFlight = true) ∧
    (a = .postRefused → s.inFlight = false)

/-- What holds between the steps of an undisturbed run. -/
def Guarded (s : Page) : Prop :=
  (s.posts = 0 ∧ s.generateDisabled = s.inFlight) ∨ (s.posts = 1 ∧ s.generateDisabled = true)

@[simp] theorem setStatus_posts (id : JobId) (status : JobStatus) :
    (s.setStatus id status).posts = s.posts := by
  unfold setStatus
  split
  · split <;> rfl
  · rfl

theorem cancelled_posts (i : Nat) (id : JobId) (status : Option JobStatus) :
    (s.cancelled i id status).posts = s.posts := by
  unfold cancelled
  split
  · exact setStatus_posts ..
  · rfl

theorem cancel_keeps : s.cancel.posts = s.posts ∧
    s.cancel.generateDisabled = s.generateDisabled ∧ s.cancel.inFlight = s.inFlight := by
  unfold cancel
  split <;> exact ⟨rfl, rfl, rfl⟩

/-- What is rendered has the same requests in flight. -/
theorem rendered?_posts (h : s.rendered? a = some s') : s'.posts = s.posts := by
  cases a with
  | healthAnswered engine cause =>
    rw [rendered?, Option.ite_none_right_eq_some] at h
    obtain ⟨-, h⟩ := h
    cases h
    rfl
  | jobEvent type error =>
    rw [rendered?] at h
    split at h
    · rw [onJobEvent] at h
      split at h
      · split at h
        · cases h
          rfl
        · cases h
      · cases h
    · cases h
  | cancelAnswered i status =>
    rw [rendered?] at h
    split at h
    · cases h
      exact cancelled_posts ..
    · cases h
  | _ => cases h

/-- What an action does to the guard. -/
inductive Effect (s : Page) (a : PageAction) (s' : Page) : Prop
  | same (posts : s'.posts = s.posts) (disabled : s'.generateDisabled = s.generateDisabled)
      (inFlight : s'.inFlight = s.inFlight) (h : s.rendered? a = none) (h' : a ≠ .postRefused)
  | sent (enabled : s.generateDisabled = false) (posts : s'.posts = s.posts + 1)
      (disabled : s'.generateDisabled = true) (h : s.rendered? a = none) (h' : a ≠ .postRefused)
  | accepted (pending : 0 < s.posts) (posts : s'.posts = s.posts - 1)
      (disabled : s'.generateDisabled = s'.inFlight) (h : s.rendered? a = none)
      (h' : a ≠ .postRefused)
  | refused (pending : 0 < s.posts) (posts : s'.posts = s.posts - 1)
      (disabled : s'.generateDisabled = false) (inFlight : s'.inFlight = s.inFlight)
      (h : s.rendered? a = none) (h' : a = .postRefused)
  | renders (t : Page) (rendered : s.rendered? a = some t) (posts : s'.posts = s.posts)
      (disabled : s'.generateDisabled = t.inFlight) (inFlight : s'.inFlight = t.inFlight)
      (h' : a ≠ .postRefused)

theorem effect_submit {valid : Bool} (he : s.generateDisabled = false)
    (h : s.rendered? a = none) (h' : a ≠ .postRefused) : Effect s a (s.submit valid) := by
  unfold submit
  split
  · exact .sent he rfl rfl h h'
  · exact .same rfl rfl rfl h h'

/-- Each action has one of the five effects. -/
theorem step_effect (h : s.step a = some s') : Effect s a s' := by
  cases a with
  | clickGenerate valid =>
    simp only [step] at h
    split at h
    · cases h
    · rename_i he
      cases h
      exact effect_submit (by simpa using he) rfl (by intro e; cases e)
  | ctrlEnter valid =>
    simp only [step, Option.some.injEq] at h
    subst h
    split
    · exact .same rfl rfl rfl rfl (by intro e; cases e)
    · rename_i he
      exact effect_submit (by simpa using he) rfl (by intro e; cases e)
  | clickCancel =>
    simp only [step, Option.ite_none_right_eq_some, Option.some.injEq] at h
    obtain ⟨-, rfl⟩ := h
    obtain ⟨hp, hd, hi⟩ := cancel_keeps (s := s)
    exact .same hp hd hi rfl (by intro e; cases e)
  | postAccepted id status =>
    simp only [step, Option.ite_none_right_eq_some, Option.some.injEq] at h
    obtain ⟨hp, rfl⟩ := h
    exact .accepted hp rfl rfl rfl (by intro e; cases e)
  | postRefused =>
    simp only [step, Option.ite_none_right_eq_some, Option.some.injEq] at h
    obtain ⟨hp, rfl⟩ := h
    exact .refused hp rfl rfl rfl rfl rfl
  | healthAnswered engine cause =>
    obtain ⟨t, ht, rfl⟩ := Option.map_eq_some_iff.mp h
    have hp : t.posts = s.posts := rendered?_posts ht
    exact .renders t ht hp rfl rfl (by intro e; cases e)
  | healthFailed =>
    simp only [step, Option.ite_none_right_eq_some, Option.some.injEq] at h
    obtain ⟨-, rfl⟩ := h
    exact .same rfl rfl rfl rfl (by intro e; cases e)
  | healthTick =>
    simp only [step, Option.ite_none_right_eq_some, Option.some.injEq] at h
    obtain ⟨-, rfl⟩ := h
    exact .same rfl rfl rfl rfl (by intro e; cases e)
  | jobEvent type error =>
    simp only [step] at h
    split at h
    · split at h
      · rename_i t ht
        cases h
        have hp := rendered?_posts ht
        split <;> exact .renders t ht hp rfl rfl (by intro e; cases e)
      · rename_i hn
        cases h
        exact .same rfl rfl rfl hn (by intro e; cases e)
    · cases h
  | cancelAnswered i status =>
    obtain ⟨t, ht, rfl⟩ := Option.map_eq_some_iff.mp h
    have hp : t.posts = s.posts := rendered?_posts ht
    exact .renders t ht hp rfl rfl (by intro e; cases e)
  | cancelConflict i =>
    simp only [step] at h
    split at h
    · cases h
      exact .same rfl rfl rfl rfl (by intro e; cases e)
    · cases h

/-- An undisturbed step keeps the guard. -/
theorem Guarded.step (hg : s.Guarded) (hu : s.Undisturbed a) (h : s.step a = some s') :
    s'.Guarded := by
  cases step_effect h with
  | same hp hd hi _ _ =>
    unfold Guarded
    rwa [hp, hd, hi]
  | sent he hp hd _ _ =>
    obtain ⟨hz, -⟩ | ⟨-, hd'⟩ := hg
    · exact .inr ⟨by omega, hd⟩
    · cases he.symm.trans hd'
  | accepted hpos hp hd _ _ =>
    obtain ⟨hz, -⟩ | ⟨hone, -⟩ := hg
    · omega
    · exact .inl ⟨by omega, hd⟩
  | refused hpos hp hd hi _ h' =>
    have hn := (hu hpos).2 h'
    obtain ⟨hz, -⟩ | ⟨hone, -⟩ := hg
    · omega
    · exact .inl ⟨by omega, by rw [hd, hi, hn]⟩
  | renders t ht hp hd hi _ =>
    obtain ⟨hz, -⟩ | ⟨hone, -⟩ := hg
    · exact .inl ⟨by omega, by rw [hd, hi]⟩
    · exact .inr ⟨by omega, by rw [hd, (hu (by omega)).1 t ht]⟩

theorem Guarded.single (hg : s.Guarded) : s.SingleSubmit := by
  refine ⟨?_, fun hp => ?_, fun a s' h hlt => ?_⟩
  · obtain ⟨h, -⟩ | ⟨h, -⟩ := hg <;> omega
  · obtain ⟨h, -⟩ | ⟨-, h⟩ := hg
    · omega
    · exact h
  · cases step_effect h with
    | sent he _ _ _ _ =>
      obtain ⟨hz, hd⟩ | ⟨-, hd⟩ := hg
      · exact ⟨hz, hd.symm.trans he⟩
      · cases he.symm.trans hd
    | same _ _ _ _ _ | accepted _ _ _ _ _ | refused _ _ _ _ _ _ | renders _ _ _ _ _ _ => omega

/-- A step that is disturbed leaves Generate enabled where it must not be. -/
theorem not_single_of_disturbed (hu : ¬ s.Undisturbed a) (h : s.step a = some s') :
    ¬ s'.SingleSubmit := by
  obtain ⟨hpos, hu⟩ := Classical.not_imp.mp hu
  intro hs
  -- from an enabled Generate the next click sends
  have hclick : s'.generateDisabled = false → s'.posts = 0 ∧ s'.inFlight = false := fun he =>
    hs.sends (.clickGenerate true) (s'.submit true) (by simp [step, he]) (by simp [submit])
  cases step_effect h with
  | same _ _ _ hr h' | sent _ _ _ hr h' | accepted _ _ _ hr h' =>
    exact hu ⟨fun t ht => (by cases hr.symm.trans ht), fun e => absurd e h'⟩
  | refused _ _ hd hi hr h' =>
    refine hu ⟨fun t ht => (by cases hr.symm.trans ht), fun _ => ?_⟩
    exact hi ▸ (hclick hd).2
  | renders t ht hp hd _ h' =>
    refine hu ⟨fun t' ht' => ?_, fun e => absurd e h'⟩
    cases ht.symm.trans ht'
    exact hd ▸ hs.disabled (by omega)

end Page

/-- In every run of undisturbed steps the page submits one job at a time; each step that is not
undisturbed breaks that. -/
theorem single_submit (s : Page) :
    (page.Reach Page.Undisturbed s → s.SingleSubmit) ∧
    (∀ a s', ¬ s.Undisturbed a → page.step s a = some s' → ¬ s'.SingleSubmit) := by
  refine ⟨fun h => ?_, fun a s' hu hst => Page.not_single_of_disturbed hu hst⟩
  refine Page.Guarded.single (h.invariant (fun s hs => ?_) fun _ _ _ hg hu hst => hg.step hu hst)
  rw [show s = _ from hs]
  exact .inl ⟨rfl, rfl⟩

namespace Sample

/-- A submission that is accepted, and an attempt at another one. -/
def undisturbed : List PageAction :=
  [.clickGenerate true, .postAccepted one .queued, .ctrlEnter true, .clickCancel]

/-- A submission, and the answer to the poll of the page load before the answer to it. -/
def disturbed : List PageAction := [.clickGenerate true, .healthAnswered .warming [],
  .ctrlEnter true]

end Sample

theorem single_submit_one_job : ∃ s : Page, s.job = some ⟨Sample.one, .queued, none⟩ ∧
    s.SingleSubmit := by
  have h : (page.run (Page.renderStatus {}).pollHealth Sample.undisturbed).map Page.job =
      some (some ⟨Sample.one, .queued, none⟩) := rfl
  obtain ⟨s, hrun, hj⟩ := Option.map_eq_some_iff.mp h
  refine ⟨s, hj, (single_submit s).1 ?_⟩
  refine (Lts.Reach.init rfl).path (Lts.path_of_run_forall (fun a ha s _ => ?_) hrun)
  simp only [Sample.undisturbed, List.mem_cons, List.not_mem_nil, or_false] at ha
  refine ⟨fun s' h => ?_, fun e => ?_⟩
  · rcases ha with rfl | rfl | rfl | rfl <;> cases h
  · subst e
    simp at ha

/-- Two POST /jobs in flight. -/
theorem double_submit : ∃ s, page.Reach Lts.always s ∧ s.posts = 2 ∧ ¬ s.SingleSubmit := by
  have h : (page.run (Page.renderStatus {}).pollHealth Sample.disturbed).map Page.posts = some 2 :=
    rfl
  obtain ⟨s, hrun, hp⟩ := Option.map_eq_some_iff.mp h
  refine ⟨s, (Lts.Reach.init rfl).path (Lts.path_of_run hrun), hp, fun hs => ?_⟩
  have := hs.one
  omega

end Music3
