import Mathlib.Data.List.Basic
import Mathlib.Data.List.Induction

/-!
# Histories

Past-time operators on a history, a list of events with the newest at its end.

* `Since p q h`: an event with `p` has happened in `h`, and after it only events with `q`. `p` also
  reads the history before that event, so that the operators nest.
* `Each Q h`: `Q` holds of every event of `h` and the history before it.

Both are computed along the run that writes the history, event by event (`since_concat`,
`each_concat`). `Since.meet` puts two of them on one line of time.
-/

namespace History

variable {E : Type} {p p' : List E → E → Prop} {q q' : E → Prop} {Q Q' : List E → E → Prop}
  {h t : List E} {e : E}

/-- `p` has happened, and only `q` since (module doc). -/
def Since (p : List E → E → Prop) (q : E → Prop) (h : List E) : Prop :=
  ∃ before e after, h = before ++ e :: after ∧ p before e ∧ ∀ x ∈ after, q x

/-- Each event is as `Q` asks of it and of what was before (module doc). -/
def Each (Q : List E → E → Prop) (h : List E) : Prop :=
  ∀ before e after, h = before ++ e :: after → Q before e

/-! ## One event more -/

/-- An event of `h ++ [e]` is the last one, or an event of `h`. -/
theorem concat_eq_iff {before after : List E} {x : E} :
    h ++ [e] = before ++ x :: after ↔
      (before = h ∧ x = e ∧ after = []) ∨
        ∃ rest, after = rest ++ [e] ∧ h = before ++ x :: rest := by
  constructor
  · intro he
    rcases List.eq_nil_or_concat' after with rfl | ⟨rest, y, rfl⟩
    · obtain ⟨rfl, hx⟩ := List.append_inj' he rfl
      exact .inl ⟨rfl, (List.singleton_inj.mp hx).symm, rfl⟩
    · rw [← List.cons_append, ← List.append_assoc] at he
      obtain ⟨rfl, hx⟩ := List.append_inj' he rfl
      exact .inr ⟨rest, by rw [List.singleton_inj.mp hx], rfl⟩
  · rintro (⟨rfl, rfl, rfl⟩ | ⟨rest, rfl, rfl⟩)
    · rfl
    · rw [List.append_assoc, List.cons_append]

@[simp]
theorem not_since_nil : ¬ Since p q ([] : List E) := by
  rintro ⟨before, e, after, h, -, -⟩
  simp at h

@[simp]
theorem each_nil : Each Q ([] : List E) := by
  intro before e after h
  simp at h

@[simp]
theorem since_concat : Since p q (h ++ [e]) ↔ p h e ∨ (Since p q h ∧ q e) := by
  constructor
  · rintro ⟨before, x, after, he, hp, hq⟩
    obtain ⟨rfl, rfl, rfl⟩ | ⟨rest, rfl, rfl⟩ := concat_eq_iff.mp he
    · exact .inl hp
    · exact .inr ⟨⟨before, x, rest, rfl, hp, fun y hy => hq y (List.mem_append_left _ hy)⟩,
        hq e (by simp)⟩
  · rintro (hp | ⟨⟨before, x, rest, rfl, hp, hq⟩, he⟩)
    · exact ⟨h, e, [], rfl, hp, by simp⟩
    · refine ⟨before, x, rest ++ [e], by simp, hp, fun y hy => ?_⟩
      rcases List.mem_append.mp hy with hy | hy
      · exact hq y hy
      · rwa [List.mem_singleton.mp hy]

@[simp]
theorem each_concat : Each Q (h ++ [e]) ↔ Each Q h ∧ Q h e := by
  constructor
  · intro hQ
    refine ⟨fun before x rest hx => hQ before x (rest ++ [e]) ?_, hQ h e [] rfl⟩
    rw [hx, List.append_assoc, List.cons_append]
  · rintro ⟨hQ, he⟩ before x after hx
    obtain ⟨rfl, rfl, rfl⟩ | ⟨rest, rfl, rfl⟩ := concat_eq_iff.mp hx
    · exact he
    · exact hQ _ _ _ rfl

/-! ## Rules -/

theorem Each.mono (hQ : Each Q h) (hi : ∀ before e, Q before e → Q' before e) : Each Q' h :=
  fun before e after he => hi _ _ (hQ before e after he)

/-- What happened last with `p`, if what happened last with `p'` was before it: neither `p` itself
nor what follows it is a `p'`. -/
theorem Since.meet (hs : Since p q h) (hs' : Since p' q' h) (hp : ∀ b e, p b e → ¬ p' b e)
    (hq : ∀ b e, q e → ¬ p' b e) : Since (fun b e => p b e ∧ Since p' q' b ∧ q' e) q h := by
  induction h using List.reverseRecOn with
  | nil => exact absurd hs not_since_nil
  | append_singleton h e ih =>
    rw [since_concat] at hs hs' ⊢
    rcases hs with hpe | ⟨hs, hqe⟩
    · exact .inl ⟨hpe, hs'.resolve_left (hp h e hpe)⟩
    · exact .inr ⟨ih hs (hs'.resolve_left (hq h e hqe)).1, hqe⟩

end History
