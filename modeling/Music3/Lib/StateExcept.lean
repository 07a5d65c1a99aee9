import Mathlib.Logic.Basic

/-!
# Code with a state that it keeps when it raises

Rules for `EStateM ε σ`: how a sequence and a handler run, and which exceptions code can raise.

* `run_seq_ok`, `run_seq_error`, `run_tryCatch`: symbolic execution, one statement at a time;
  `bind_ok`: what a run of a sequence was made of; `ok_of_bind` for code without a state.
* `Raises p m`: every exception of `m` satisfies `p`. It has a rule for each way to build code.
* `Triple P m Q E`: from a state with `P`, `m` ends with `Q`, or raises with `E`.
-/

namespace StateExcept

variable {ε σ α β : Type}

/-- A handler for the exceptions in `p`. -/
def exceptIf (p : ε → Bool) (m h : EStateM ε σ α) : EStateM ε σ α :=
  tryCatch m fun e => if p e then h else throw e

/-! ## Running -/

theorem run_ofExcept_ok {x : Except ε α} {a : α} (h : x = .ok a) (s : σ) :
    (ofExcept x : EStateM ε σ α).run s = .ok a s := by subst h; rfl

theorem run_ofExcept_error {x : Except ε α} {e : ε} (h : x = .error e) (s : σ) :
    (ofExcept x : EStateM ε σ α).run s = .error e s := by subst h; rfl

theorem run_tryCatch (x : EStateM ε σ α) (h : ε → EStateM ε σ α) (s : σ) :
    (tryCatch x h).run s = match x.run s with
      | .ok a s => .ok a s
      | .error e s => (h e).run s := by
  show EStateM.tryCatch x h s = _
  unfold EStateM.tryCatch EStateM.run
  cases x s <;> rfl

section
variable {p : ε → Bool} {x h : EStateM ε σ α} {s s' : σ}

theorem run_exceptIf_ok {a : α} (hx : x.run s = .ok a s') : (exceptIf p x h).run s = .ok a s' := by
  rw [exceptIf, run_tryCatch, hx]

/-- An exception that is handled. -/
theorem run_exceptIf_caught {e : ε} (hx : x.run s = .error e s') (he : p e = true) :
    (exceptIf p x h).run s = h.run s' := by
  rw [exceptIf, run_tryCatch, hx]
  simp only [he, ↓reduceIte]

/-- An exception that is not. -/
theorem run_exceptIf_passed {e : ε} (hx : x.run s = .error e s') (he : p e = false) :
    (exceptIf p x h).run s = .error e s' := by
  rw [exceptIf, run_tryCatch, hx]
  simp only [he, Bool.false_eq_true, ↓reduceIte]
  rfl

end

theorem run_seq_ok {x : EStateM ε σ α} {f : α → EStateM ε σ β} {s s' : σ} {a : α}
    (h : x.run s = .ok a s') : (x >>= f).run s = (f a).run s' := by
  rw [EStateM.run_bind, h]

theorem run_seq_error {x : EStateM ε σ α} {f : α → EStateM ε σ β} {s s' : σ} {e : ε}
    (h : x.run s = .error e s') : (x >>= f).run s = .error e s' := by
  rw [EStateM.run_bind, h]

theorem run_map_ok {x : EStateM ε σ α} (f : α → β) {s s' : σ} {a : α} (h : x.run s = .ok a s') :
    (f <$> x).run s = .ok (f a) s' := by
  show EStateM.map f x s = _
  unfold EStateM.map
  rw [show x s = .ok a s' from h]

theorem run_map_error {x : EStateM ε σ α} (f : α → β) {s s' : σ} {e : ε}
    (h : x.run s = .error e s') : (f <$> x).run s = .error e s' := by
  show EStateM.map f x s = _
  unfold EStateM.map
  rw [show x s = .error e s' from h]

theorem bind_ok {x : EStateM ε σ α} {f : α → EStateM ε σ β} {s s'' : σ} {b : β}
    (h : (x >>= f).run s = .ok b s'') : ∃ a s', x.run s = .ok a s' ∧ (f a).run s' = .ok b s'' := by
  rw [EStateM.run_bind] at h
  cases hx : x.run s with
  | ok a s' => rw [hx] at h; exact ⟨a, s', rfl, h⟩
  | error e s' => rw [hx] at h; cases h

/-! ## Code without a state -/

section
variable {x : Except ε α} {f : α → Except ε β}

theorem error_of_bind {e : ε} : x.bind f = .error e →
    x = .error e ∨ ∃ a, x = .ok a ∧ f a = .error e := by
  intro h
  cases x with
  | error e' => cases h; exact .inl rfl
  | ok a => exact .inr ⟨a, rfl, h⟩

theorem ok_of_bind {b : β} : x.bind f = .ok b → ∃ a, x = .ok a ∧ f a = .ok b := by
  intro h
  cases x with
  | error e' => cases h
  | ok a => exact ⟨a, rfl, h⟩

end

/-! ## Exceptions -/

/-- Every exception that `m` raises satisfies `p`. -/
def Raises (p : ε → Prop) (m : EStateM ε σ α) : Prop :=
  ∀ s e s', m.run s = .error e s' → p e

namespace Raises

variable {p : ε → Prop} {m : EStateM ε σ α}

theorem pure (a : α) : Raises p (Pure.pure a : EStateM ε σ α) := fun _ _ _ h => by cases h

theorem get : Raises p (get : EStateM ε σ σ) := fun _ _ _ h => by cases h

theorem throw {e : ε} (h : p e) : Raises p (throw e : EStateM ε σ α) :=
  fun _ _ _ hr => by cases hr; exact h

theorem bind {f : α → EStateM ε σ β} (h : Raises p m) (hf : ∀ a, Raises p (f a)) :
    Raises p (m >>= f) := by
  intro s e s' hr
  rw [EStateM.run_bind] at hr
  cases hm : m.run s with
  | ok a t => rw [hm] at hr; exact hf a t e s' hr
  | error e' t => rw [hm] at hr; cases hr; exact h s e s' hm

theorem ofExcept {x : Except ε α} (h : ∀ e, x = .error e → p e) :
    Raises p (MonadExcept.ofExcept x : EStateM ε σ α) := by
  cases x with
  | ok a => exact pure a
  | error e => exact throw (h e rfl)

end Raises

/-! ## Triples -/

/-- From a state with `P`, `m` returns `a` in a state with `Q a`, or raises `e` in one with `E e`. -/
def Triple (P : σ → Prop) (m : EStateM ε σ α) (Q : α → σ → Prop) (E : ε → σ → Prop) : Prop :=
  ∀ s, P s → (∀ a s', m.run s = .ok a s' → Q a s') ∧ (∀ e s', m.run s = .error e s' → E e s')

namespace Triple

variable {P P' : σ → Prop} {m : EStateM ε σ α} {Q Q' : α → σ → Prop} {E E' : ε → σ → Prop}

theorem conseq (h : Triple P m Q E) (hp : ∀ s, P' s → P s) (hq : ∀ a s, Q a s → Q' a s)
    (he : ∀ e s, E e s → E' e s) : Triple P' m Q' E' := fun s hs =>
  ⟨fun a s' hr => hq a s' ((h s (hp s hs)).1 a s' hr),
    fun e s' hr => he e s' ((h s (hp s hs)).2 e s' hr)⟩

theorem pure {Q : α → σ → Prop} (a : α) : Triple (Q a) (Pure.pure a : EStateM ε σ α) Q E :=
  fun s hs => ⟨fun b s' hr => (by cases hr; exact hs), fun e s' hr => by cases hr⟩

theorem bind {f : α → EStateM ε σ β} {R : β → σ → Prop} (h : Triple P m Q E)
    (hf : ∀ a, Triple (Q a) (f a) R E) : Triple P (m >>= f) R E := by
  intro s hs
  obtain ⟨hok, herr⟩ := h s hs
  rw [EStateM.run_bind]
  cases hm : m.run s with
  | ok a t => exact hf a t (hok a t hm)
  | error e t =>
    refine ⟨fun b s' hr => (by cases hr), fun e' s' hr => ?_⟩
    cases hr
    exact herr e t hm

theorem throw {e : ε} (h : ∀ s, P s → E e s) : Triple P (throw e : EStateM ε σ α) Q E :=
  fun s hs => ⟨fun a s' hr => (by cases hr), fun e s' hr => by cases hr; exact h s hs⟩

theorem map {R : β → σ → Prop} {f : α → β} (h : Triple P m Q E) (hf : ∀ a s, Q a s → R (f a) s) :
    Triple P (f <$> m) R E := by
  intro s hs
  obtain ⟨hok, herr⟩ := h s hs
  show (∀ b s', EStateM.map f m s = .ok b s' → R b s') ∧
      ∀ e s', EStateM.map f m s = .error e s' → E e s'
  unfold EStateM.map
  cases hm : m s with
  | ok a t =>
    refine ⟨fun b s' hr => ?_, fun e s' hr => by cases hr⟩
    cases hr
    exact hf a t (hok a t hm)
  | error e t =>
    refine ⟨fun b s' hr => (by cases hr), fun e' s' hr => ?_⟩
    cases hr
    exact herr e t hm

/-- A handler for every exception that `m` raises. -/
theorem exceptIf {c : ε → Bool} {h : EStateM ε σ α} {F : ε → σ → Prop}
    (hm : Triple P m Q fun e s => c e = true ∧ E e s) (hh : ∀ e, Triple (E e) h Q F) :
    Triple P (StateExcept.exceptIf c m h) Q F := by
  intro s hs
  obtain ⟨hok, herr⟩ := hm s hs
  unfold StateExcept.exceptIf
  rw [run_tryCatch]
  cases hr : m.run s with
  | ok a t => exact ⟨fun b s' e => (by cases e; exact hok a t hr), fun e s' e' => by cases e'⟩
  | error e t =>
    obtain ⟨hc, he⟩ := herr e t hr
    simp only [hc, ↓reduceIte]
    exact hh e t he

/-- From each state with `P` on its own. -/
theorem of_state (h : ∀ s, P s → Triple (· = s) m Q E) : Triple P m Q E := fun s hs => h s hs s rfl

/-- Code that reads the state. -/
theorem get_bind {f : σ → EStateM ε σ α} (h : ∀ s, P s → Triple (· = s) (f s) Q E) :
    Triple P (do let s ← get; f s) Q E := fun s hs => h s hs s rfl

end Triple

end StateExcept
