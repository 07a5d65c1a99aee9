import Music3.Lib.StateExcept

/-!
# Generators

A generator function is cut at its `yield`s, the places `κ` of its body. Calling it runs nothing of
the body; `next` runs it from where it is to the next `yield`, or to its end. `close` (also of a
generator that is dropped) runs the `finally` clauses around the `yield` where it is suspended. It
does nothing to a generator that has not been started, or is over.

* `within last m`: a stretch of the body inside a `finally` clause.
* `Cleans g s H F`: `H` wherever the body is suspended, and `F` once it is over.
* `Cleans.cut`: then `F`, wherever the generator is cut after its start.
* `Code.Drains g r t out`: read to its end, the generator yields `out` and ends in `t`. `of_loop` is
  the rule for a loop.
-/

namespace Generator

open StateExcept

/-- What a stretch of the body ends with: a value and the place of its `yield`, or the end. -/
abbrev Halt (β κ : Type) := Option (β × κ)

/-- A generator function with its arguments. -/
structure Code (ε σ β κ : Type) where
  start : EStateM ε σ (Halt β κ)
  resume : κ → EStateM ε σ (Halt β κ)
  /-- `GeneratorExit`, thrown at the `yield`. -/
  unwind : κ → σ → σ

inductive Status (κ : Type) where
  | fresh
  | suspended (k : κ)
  | finished

/-- A generator, the state, and what it has yielded. -/
structure Run (σ β κ : Type) where
  status : Status κ := .fresh
  state : σ
  out : List β := []

variable {ε σ β κ : Type}

def halted (out : List β) : EStateM.Result ε σ (Halt β κ) → Run σ β κ
  | .ok (some (b, k)) s => ⟨.suspended k, s, out ++ [b]⟩
  | .ok none s => ⟨.finished, s, out⟩
  | .error _ s => ⟨.finished, s, out⟩

namespace Code

variable (g : Code ε σ β κ)

def next (r : Run σ β κ) : Run σ β κ :=
  match r.status with
  | .fresh => halted r.out (g.start.run r.state)
  | .suspended k => halted r.out ((g.resume k).run r.state)
  | .finished => r

def close (r : Run σ β κ) : σ :=
  match r.status with
  | .suspended k => g.unwind k r.state
  | _ => r.state

/-- A generator that has been asked `n` times. -/
def after : Nat → Run σ β κ → Run σ β κ
  | 0, r => r
  | n + 1, r => after n (g.next r)

/-- The state when a generator has been asked `n` times and is closed. -/
def cut (n : Nat) (s : σ) : σ := g.close (g.after n { state := s })

theorem after_finished {r : Run σ β κ} (h : r.status = .finished) (n : Nat) : g.after n r = r := by
  induction n with
  | zero => rfl
  | succ n ih =>
    have hnext : g.next r = r := by unfold next; rw [h]
    rw [after, hnext, ih]

/-! ## Reading a generator to its end -/

/-- Asked often enough, the generator is over in `t` and has yielded `out`. -/
def Drains (r : Run σ β κ) (t : σ) (out : List β) : Prop := ∃ n, g.after n r = ⟨.finished, t, out⟩

namespace Drains

variable {g} {r : Run σ β κ} {s t u : σ} {k : κ} {out out' : List β}

theorem of_next (h : g.Drains (g.next r) t out) : g.Drains r t out := by
  obtain ⟨n, hn⟩ := h
  exact ⟨n + 1, hn⟩

/-- Where the next stretch is the same, so is what follows. -/
theorem of_same {r' : Run σ β κ} (hnext : g.next r = g.next r') (hr : r'.status ≠ .finished)
    (h : g.Drains r' t out) : g.Drains r t out := by
  obtain ⟨n, hn⟩ := h
  cases n with
  | zero => exact absurd (congrArg Run.status hn) hr
  | succ n =>
    refine of_next ⟨n, ?_⟩
    rw [hnext]
    exact hn

end Drains

end Code

/-! ## `finally` -/

/-- `m` inside a `finally` clause, which runs unless `m` ends in a `yield`. -/
def within (last : EStateM ε σ Unit) (m : EStateM ε σ (Halt β κ)) : EStateM ε σ (Halt β κ) := do
  let r ← tryCatch m fun e => do
    last
    throw e
  match r with
  | some y => pure (some y)
  | none => do
    last
    pure none

/-- How a stretch ends: with `H` in a `yield`, or with `F`. -/
def Ends (H : κ → σ → Prop) (F : σ → Prop) : EStateM.Result ε σ (Halt β κ) → Prop
  | .ok (some (_, k)) s => H k s
  | .ok none s => F s
  | .error _ s => F s

section
variable {H : κ → σ → Prop} {F K : σ → Prop} {last : EStateM ε σ Unit}
  {m : EStateM ε σ (Halt β κ)} {s : σ}

/-- The clause establishes `F`, however the stretch ends. -/
theorem within_ends (hm : Ends H K (m.run s))
    (hlast : ∀ t, K t → ∃ u, last.run t = .ok () u ∧ F u) :
    Ends H F ((within last m).run s) := by
  unfold within
  rw [EStateM.run_bind, run_tryCatch]
  cases h : m.run s with
  | error e t =>
    rw [h] at hm
    obtain ⟨u, hu, hF⟩ := hlast t hm
    simp only
    rw [run_seq_ok hu]
    exact hF
  | ok r t =>
    rw [h] at hm
    cases r with
    | some y => exact hm
    | none =>
      obtain ⟨u, hu, hF⟩ := hlast t hm
      simp only
      rw [run_seq_ok hu]
      exact hF

end

/-! ## Where a generator is cut -/

/-- From `s`, wherever the body is suspended (module doc). -/
structure Cleans (g : Code ε σ β κ) (s : σ) (H : κ → σ → Prop) (F : σ → Prop) : Prop where
  start : Ends H F (g.start.run s)
  resume : ∀ k t, H k t → Ends H F ((g.resume k).run t)
  unwind : ∀ k t, H k t → F (g.unwind k t)

namespace Cleans

variable {g : Code ε σ β κ} {s : σ} {H : κ → σ → Prop} {F : σ → Prop}

/-- A generator that has been started. -/
def Started (H : κ → σ → Prop) (F : σ → Prop) (r : Run σ β κ) : Prop :=
  match r.status with
  | .fresh => False
  | .suspended k => H k r.state
  | .finished => F r.state

theorem started_halted (out : List β) {x : EStateM.Result ε σ (Halt β κ)} (h : Ends H F x) :
    Started H F (halted out x) := by
  match x, h with
  | .ok (some _) _, h => exact h
  | .ok none _, h => exact h
  | .error _ _, h => exact h

theorem started_next (hc : Cleans g s H F) {r : Run σ β κ} (h : Started H F r) :
    Started H F (g.next r) := by
  obtain ⟨status, t, out⟩ := r
  cases status with
  | fresh => cases h
  | suspended k => exact started_halted _ (hc.resume k t h)
  | finished => exact h

theorem started_after (hc : Cleans g s H F) (n : Nat) {r : Run σ β κ} (h : Started H F r) :
    Started H F (g.after n r) := by
  induction n generalizing r with
  | zero => exact h
  | succ n ih => exact ih (hc.started_next h)

/-- Once it has been asked for a value, it may be cut anywhere. -/
theorem cut (hc : Cleans g s H F) {n : Nat} (hn : 1 ≤ n) : F (g.cut n s) := by
  obtain ⟨n, rfl⟩ : ∃ m, n = m + 1 := ⟨n - 1, by omega⟩
  have h := hc.started_after n (started_halted [] hc.start)
  show F (g.close (g.after n (halted [] (g.start.run s))))
  generalize g.after n (halted [] (g.start.run s)) = r at h
  obtain ⟨status, t, out⟩ := r
  cases status with
  | fresh => cases h
  | suspended k => exact hc.unwind k t h
  | finished => exact h

end Cleans

end Generator
