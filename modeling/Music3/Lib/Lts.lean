import Mathlib.Logic.Basic

/-!
# Labelled systems: runs, reachable states, invariants

A system is a set of initial states and a partial step function: `step s a` is the state after
the action `a`, or `none` if `a` is not enabled in `s`. All nondeterminism (the order of the
actions, the answers of an environment) is in the actions, so a run is a list of actions and can
be evaluated (`Lts.run`).

* `Lts.Path P s s'`: `s'` is reached from `s` by steps that satisfy `P`; `Lts.Reach P s`: from an
  initial state. `P` is a condition on the state before the step and on the action; every run is
  the case `Lts.always`.
* `Reach.invariant`: an inductive invariant holds in every reached state; `Path.preserves` is the
  same from any state. `Path.preserves_reach` also gives the induction the reachable source state.
* `Within p D s`: after enough steps in `p`, however others are interleaved, a run from `s` is in
  `D`; `run_measure` (with the number of steps), `Within.of_measure` and `not_within` decide it.
* `Sim.reach`: a simulation, where one step of the system is a path of the other, maps reachable
  states to reachable states.
-/

/-- A labelled system (module doc). -/
structure Lts (S A : Type) where
  init : S → Prop
  step : S → A → Option S

namespace Lts

variable {S A : Type} (M : Lts S A)

/-- Every step. -/
def always : S → A → Prop := fun _ _ => True

/-- The state after the actions `as`, if each is enabled when its turn comes. -/
def run (s : S) : List A → Option S
  | [] => some s
  | a :: as => (M.step s a).bind fun s' => run s' as

/-- `s'` is reached from `s` by steps that satisfy `P`. -/
inductive Path (P : S → A → Prop) (s : S) : S → Prop
  | refl : Path P s s
  | step {s₁ s₂ : S} (a : A) : Path P s s₁ → P s₁ a → M.step s₁ a = some s₂ → Path P s s₂

/-- A state that a run of steps satisfying `P` reaches. -/
def Reach (P : S → A → Prop) (s : S) : Prop := ∃ s₀, M.init s₀ ∧ M.Path P s₀ s

variable {M} {P Q : S → A → Prop} {s s₁ s₂ : S}

theorem Path.trans (h₁ : M.Path P s s₁) (h₂ : M.Path P s₁ s₂) : M.Path P s s₂ := by
  induction h₂ with
  | refl => exact h₁
  | step a _ hp hs ih => exact ih.step a hp hs

theorem Path.single {a : A} (hp : P s a) (hs : M.step s a = some s₁) : M.Path P s s₁ :=
  Path.refl.step a hp hs

theorem Path.mono (hPQ : ∀ s a, P s a → Q s a) (h : M.Path P s s₁) : M.Path Q s s₁ := by
  induction h with
  | refl => exact .refl
  | step a _ hp hs ih => exact ih.step a (hPQ _ _ hp) hs

theorem Reach.init (h : M.init s) : M.Reach P s := ⟨s, h, .refl⟩

theorem Reach.path (h : M.Reach P s) (hp : M.Path P s s₁) : M.Reach P s₁ := by
  obtain ⟨s₀, h₀, h⟩ := h
  exact ⟨s₀, h₀, h.trans hp⟩

theorem Reach.step {a : A} (h : M.Reach P s) (hp : P s a) (hs : M.step s a = some s₁) :
    M.Reach P s₁ := h.path (.single hp hs)

theorem Reach.mono (hPQ : ∀ s a, P s a → Q s a) (h : M.Reach P s) : M.Reach Q s := by
  obtain ⟨s₀, h₀, h⟩ := h
  exact ⟨s₀, h₀, h.mono hPQ⟩

theorem Reach.always (h : M.Reach P s) : M.Reach always s := h.mono fun _ _ _ => trivial

/-- What every step from a state with `I` keeps holds at the end of a path from such a state. -/
theorem Path.preserves {I : S → Prop} (hI : ∀ s a s', I s → P s a → M.step s a = some s' → I s')
    (h : M.Path P s s₁) (hs : I s) : I s₁ := by
  induction h with
  | refl => exact hs
  | step a _ hp hst ih => exact hI _ _ _ ih hp hst

/-- `Path.preserves` with the reachability of each source state. -/
theorem Path.preserves_reach {I : S → Prop}
    (hI : ∀ s a s', M.Reach P s → I s → P s a → M.step s a = some s' → I s')
    (hr : M.Reach P s) (h : M.Path P s s₁) (hs : I s) : I s₁ :=
  (h.preserves (I := fun s => M.Reach P s ∧ I s)
    (fun _ _ _ ⟨hr, hi⟩ hp hst => ⟨hr.step hp hst, hI _ _ _ hr hi hp hst⟩) ⟨hr, hs⟩).2

/-- An inductive invariant holds in every reachable state. -/
theorem Reach.invariant {I : S → Prop} (h₀ : ∀ s, M.init s → I s)
    (hI : ∀ s a s', I s → P s a → M.step s a = some s' → I s') (h : M.Reach P s) : I s := by
  obtain ⟨s₀, hi, hp⟩ := h
  exact hp.preserves hI (h₀ s₀ hi)

theorem path_of_run_forall {as : List A} (hp : ∀ a ∈ as, ∀ s, P s a) (h : M.run s as = some s₁) :
    M.Path P s s₁ := by
  induction as generalizing s with
  | nil => cases h; exact .refl
  | cons a as ih =>
    obtain ⟨s', hs, hr⟩ := Option.bind_eq_some_iff.mp h
    exact (Path.single (hp a List.mem_cons_self s) hs).trans
      (ih (fun b hb => hp b (List.mem_cons_of_mem _ hb)) hr)

theorem path_of_run {as : List A} (h : M.run s as = some s₁) : M.Path always s s₁ :=
  path_of_run_forall (fun _ _ _ => trivial) h

/-- A decidable condition on the steps of a run. -/
def runIf (M : Lts S A) (p : S → A → Bool) (s : S) : List A → Option S
  | [] => some s
  | a :: as => if p s a then (M.step s a).bind fun s' => runIf M p s' as else none

theorem path_of_runIf {p : S → A → Bool} (hp : ∀ s a, p s a = true → P s a) {as : List A}
    (h : M.runIf p s as = some s₁) : M.Path P s s₁ := by
  induction as generalizing s with
  | nil => cases h; exact .refl
  | cons a as ih =>
    rw [runIf] at h
    split at h
    · rename_i hpa
      obtain ⟨s', hs, hr⟩ := Option.bind_eq_some_iff.mp h
      exact (Path.single (hp _ _ hpa) hs).trans (ih hr)
    · cases h

/-! ## Work that ends -/

/-- Enough steps in `p` lead to `D` (module doc). -/
def Within (M : Lts S A) (p : A → Bool) (D : S → Prop) (s : S) : Prop :=
  ∃ n, ∀ as s', M.run s as = some s' → n ≤ as.countP p → D s'

section
variable {p : A → Bool} {D I : S → Prop}

/-- Steps in `p` lower a measure, and no step raises it. -/
theorem run_measure (μ : S → Nat) (hI : ∀ s a s', I s → M.step s a = some s' →
      I s' ∧ μ s' ≤ μ s - if p a then 1 else 0) (as : List A) (hs : I s)
    (hr : M.run s as = some s₁) : I s₁ ∧ μ s₁ ≤ μ s - as.countP p := by
  induction as generalizing s with
  | nil =>
    cases hr
    exact ⟨hs, by simp⟩
  | cons a as ih =>
    obtain ⟨t, ht, hr⟩ := Option.bind_eq_some_iff.mp hr
    obtain ⟨hi, hle⟩ := hI s a t hs ht
    obtain ⟨hi', hle'⟩ := ih hi hr
    refine ⟨hi', ?_⟩
    rw [List.countP_cons]
    omega

theorem Within.of_measure (μ : S → Nat) (hD : ∀ s, I s → μ s = 0 → D s)
    (hI : ∀ s a s', I s → M.step s a = some s' →
      I s' ∧ μ s' ≤ μ s - if p a then 1 else 0) (hs : I s) : M.Within p D s := by
  refine ⟨μ s, fun as s' hr hn => ?_⟩
  obtain ⟨hi, hle⟩ := run_measure μ hI as hs hr
  exact hD s' hi (by omega)

/-- Steps in `p` are always possible, and none leads to `D`. -/
theorem not_within (hD : ∀ s, I s → ¬ D s)
    (hI : ∀ s, I s → ∃ a s', p a = true ∧ M.step s a = some s' ∧ I s') (hs : I s) :
    ¬ M.Within p D s := by
  rintro ⟨n, hn⟩
  have hrun : ∀ n s, I s → ∃ as s', M.run s as = some s' ∧ as.countP p = n ∧ I s' := by
    intro n
    induction n with
    | zero => exact fun s hs => ⟨[], s, rfl, rfl, hs⟩
    | succ n ih =>
      intro s hs
      obtain ⟨a, t, hp, ht, hi⟩ := hI s hs
      obtain ⟨as, s', hr, hc, hi'⟩ := ih t hi
      refine ⟨a :: as, s', Option.bind_eq_some_iff.mpr ⟨t, ht, hr⟩, ?_, hi'⟩
      rw [List.countP_cons, hc, if_pos hp]
  obtain ⟨as, s', hr, hc, hi⟩ := hrun n s hs
  exact hD s' hi (hn as s' hr (Nat.le_of_eq hc.symm))

end

/-! ## Simulation -/

variable {T B : Type} (M) (N : Lts T B)

/-- `f` maps each step of `M` (that satisfies `P`) from a reachable state to a path of `N`. -/
structure Sim (P : S → A → Prop) (Q : T → B → Prop) (f : S → T) : Prop where
  init : ∀ s, M.init s → N.init (f s)
  step : ∀ s a s', M.Reach P s → P s a → M.step s a = some s' → N.Path Q (f s) (f s')

variable {M N}

theorem Sim.reach {Q : T → B → Prop} {f : S → T} (h : Sim M N P Q f) (hs : M.Reach P s) :
    N.Reach Q (f s) := by
  obtain ⟨s₀, h₀, hp⟩ := hs
  refine ⟨f s₀, h.init s₀ h₀, ?_⟩
  exact hp.preserves_reach (I := fun s => N.Path Q (f s₀) (f s))
    (fun s a s' hr hi hpa hst => hi.trans (h.step s a s' hr hpa hst)) (.init h₀) .refl

/-- A run, seen through `f`, when `g` gives the action of `N` that a step of `M` is, if any. -/
theorem run_filterMap {f : S → T} {g : A → Option B}
    (h : ∀ s a s', M.step s a = some s' →
      ((g a).elim (some (f s)) fun b => N.step (f s) b) = some (f s'))
    {as : List A} (hr : M.run s as = some s₁) : N.run (f s) (as.filterMap g) = some (f s₁) := by
  induction as generalizing s with
  | nil =>
    cases hr
    rfl
  | cons a as ih =>
    obtain ⟨t, ht, hr⟩ := Option.bind_eq_some_iff.mp hr
    have hstep := h s a t ht
    cases hg : g a with
    | none =>
      rw [hg, Option.elim_none, Option.some.injEq] at hstep
      rw [List.filterMap_cons_none hg, hstep]
      exact ih hr
    | some b =>
      rw [hg, Option.elim_some] at hstep
      rw [List.filterMap_cons_some hg, Lts.run, hstep]
      exact ih hr

end Lts
