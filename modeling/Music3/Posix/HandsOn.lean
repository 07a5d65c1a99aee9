import Music3.Posix.Ledger

/-!
# Code that closes what it opens

`HandsOn sys given m held`: `m` is handed the open descriptors `given`. Whatever others change
between its calls, it hands on `held a` if it returns `a`, and nothing if it raises; it has closed
the others, and every one that it has opened itself, each once. `sys` is the system in its state.

There is a rule for each way to build code; `closing` is a `finally` clause that closes one.
-/

namespace Posix

open StateExcept

variable {ε σ α β : Type} {sys : σ → Sys}

/-- What `m` does with descriptors (module doc). -/
def HandsOn (sys : σ → Sys) (given : List Fd) (m : EStateM ε σ α) (held : α → List Fd) : Prop :=
  ∀ s, Triple (· = s) m (fun a t => Ledger (sys s) (sys t) given (held a))
    fun _ t => Ledger (sys s) (sys t) given []

/-- Nothing. -/
abbrev nothing : α → List Fd := fun _ => []

namespace HandsOn

variable {given : List Fd} {m : EStateM ε σ α} {held : α → List Fd}

variable (held) in
theorem pure (a : α) : HandsOn sys (held a) (Pure.pure a : EStateM ε σ α) held := by
  rintro s s rfl
  refine ⟨fun b t h => ?_, fun e t h => ?_⟩ <;> cases h
  exact .refl _ _

theorem done (a : α) : HandsOn sys [] (Pure.pure a : EStateM ε σ α) nothing := pure nothing a

theorem throw (e : ε) : HandsOn sys [] (throw e : EStateM ε σ α) held := by
  rintro s s rfl
  refine ⟨fun b t h => ?_, fun e t h => ?_⟩ <;> cases h
  exact .refl _ _

theorem ofExcept (x : Except ε α) :
    HandsOn sys [] (MonadExcept.ofExcept x : EStateM ε σ α) nothing := by
  cases x with
  | ok a => exact done a
  | error e => exact throw e

/-- A change of the rest of the state. -/
theorem modify {f : σ → σ} (h : ∀ s, sys (f s) = sys s) :
    HandsOn sys [] (modify f : EStateM ε σ PUnit) nothing := by
  rintro s s rfl
  refine ⟨fun b t h' => ?_, fun e t h' => ?_⟩ <;> cases h'
  rw [h]
  exact .refl _ _

theorem bind {f : α → EStateM ε σ β} {held' : β → List Fd} (h : HandsOn sys given m held)
    (hf : ∀ a, HandsOn sys (held a) (f a) held') : HandsOn sys given (m >>= f) held' := by
  rintro s s rfl
  obtain ⟨hok, herr⟩ := h s s rfl
  rw [EStateM.run_bind]
  cases hm : m.run s with
  | ok a t =>
    obtain ⟨hok', herr'⟩ := hf a t t rfl
    exact ⟨fun b u hu => (hok a t hm).trans (hok' b u hu),
      fun e u hu => (hok a t hm).trans (herr' e u hu)⟩
  | error e t =>
    refine ⟨fun b u hu => (by cases hu), fun e' u hu => ?_⟩
    cases hu
    exact herr e t hm

theorem map {f : α → β} {held' : β → List Fd} (h : HandsOn sys given m held)
    (hf : ∀ a, held' (f a) = held a) : HandsOn sys given (f <$> m) held' := by
  intro s
  exact (h s).map (fun a t ht => (hf a).symm ▸ ht)

/-- A handler. -/
theorem exceptIf {c : ε → Bool} {h : EStateM ε σ α} (hm : HandsOn sys given m held)
    (hh : HandsOn sys [] h held) : HandsOn sys given (exceptIf c m h) held := by
  rintro s s rfl
  obtain ⟨hok, herr⟩ := hm s s rfl
  unfold StateExcept.exceptIf
  rw [run_tryCatch]
  cases hr : m.run s with
  | ok a t =>
    refine ⟨fun b u hu => ?_, fun e u hu => ?_⟩ <;> cases hu
    exact hok a t hr
  | error e t =>
    have ht := herr e t hr
    cases hc : c e with
    | true =>
      obtain ⟨hok', herr'⟩ := hh t t rfl
      simp only [hc, ↓reduceIte]
      exact ⟨fun b u hu => ht.trans (hok' b u hu), fun e' u hu => ht.trans (herr' e' u hu)⟩
    | false =>
      simp only [hc, Bool.false_eq_true, ↓reduceIte]
      refine ⟨fun b u hu => ?_, fun e u hu => ?_⟩ <;> cases hu
      exact ht

/-- `try: m` with `finally: os.close(fd)`. -/
theorem closing {fd : Fd} {close : EStateM ε σ PUnit} (h : HandsOn sys [] m held)
    (hclose : ∀ s, ∃ t, close.run s = .ok ⟨⟩ t ∧ Ledger (sys s) (sys t) [fd] []) :
    HandsOn sys [fd] (do
      let a ← tryCatch m fun e => do
        close
        MonadExcept.throw e
      close
      Pure.pure a) held := by
  rintro s s rfl
  obtain ⟨hok, herr⟩ := h s s rfl
  rw [EStateM.run_bind, run_tryCatch]
  -- on either way out the descriptor is still open, and is closed
  cases hr : m.run s with
  | ok a t =>
    obtain ⟨u, hu, hl⟩ := hclose t
    simp only
    rw [run_seq_ok hu]
    refine ⟨fun c v hv => ?_, fun e v hv => ?_⟩ <;> cases hv
    exact ((hok a t hr).frame [fd]).trans ((hl.frame _).perm List.perm_append_comm .rfl)
  | error e t =>
    obtain ⟨u, hu, hl⟩ := hclose t
    simp only
    rw [run_seq_ok hu]
    refine ⟨fun c v hv => ?_, fun e v hv => ?_⟩ <;> cases hv
    exact ((herr e t hr).frame [fd]).trans hl

end HandsOn

end Posix
