import Mathlib.Logic.Basic

/-!
# Ordered rules

A list of rules on a value, each with the name to report when it is the first one that is broken
(`FirstFault`). `Judges`: a program that returns only where all rules hold and otherwise raises for
the first one broken, with a lemma for each way to build it check by check;
`returns_iff` is what it decides.
-/

namespace Rules

/-- A rule on values of `α`, reported as `name`. -/
structure Rule (α ν : Type) where
  name : ν
  Holds : α → Prop

variable {α ν ε γ δ : Type} {a : α} {rules rules' : List (Rule α ν)} {rule : Rule α ν}

def Meets (rules : List (Rule α ν)) (a : α) : Prop := ∀ rule ∈ rules, rule.Holds a

/-- The first rule that `a` breaks is reported as `n`. -/
def FirstFault (rules : List (Rule α ν)) (a : α) (n : ν) : Prop :=
  ∃ before rule after, rules = before ++ rule :: after ∧ Meets before a ∧ ¬ rule.Holds a ∧
    rule.name = n

theorem meets_append : Meets (rules ++ rules') a ↔ Meets rules a ∧ Meets rules' a := by
  refine ⟨fun h => ⟨fun r hr => ?_, fun r hr => ?_⟩, fun ⟨h, h'⟩ r hr => ?_⟩
  · exact h r (List.mem_append_left _ hr)
  · exact h r (List.mem_append_right _ hr)
  · exact (List.mem_append.mp hr).elim (h r) (h' r)

theorem meets_one (h : rule.Holds a) : Meets [rule] a := by
  intro r hr
  rwa [List.mem_singleton.mp hr]

namespace FirstFault

variable {n : ν}

theorem one (h : ¬ rule.Holds a) : FirstFault [rule] a rule.name :=
  ⟨[], rule, [], rfl, (by intro r hr; cases hr), h, rfl⟩

theorem left (h : FirstFault rules a n) : FirstFault (rules ++ rules') a n := by
  obtain ⟨before, r, after, rfl, hb, hr, hn⟩ := h
  exact ⟨before, r, after ++ rules', by simp, hb, hr, hn⟩

theorem right (hm : Meets rules a) (h : FirstFault rules' a n) :
    FirstFault (rules ++ rules') a n := by
  obtain ⟨before, r, after, rfl, hb, hr, hn⟩ := h
  exact ⟨rules ++ before, r, after, by simp, meets_append.mpr ⟨hm, hb⟩, hr, hn⟩

theorem not_meets (h : FirstFault rules a n) : ¬ Meets rules a := by
  obtain ⟨before, r, after, rfl, -, hr, -⟩ := h
  exact fun hm => hr (hm r (by simp))

end FirstFault

/-- `m` returns a value in `Q` only if `a` meets the rules, and otherwise raises what `R` relates to
the name of the first one broken. -/
structure Judges (R : ε → ν → Prop) (rules : List (Rule α ν)) (a : α) (m : Except ε γ)
    (Q : γ → Prop) : Prop where
  ok : ∀ c, m = .ok c → Meets rules a ∧ Q c
  error : ∀ e, m = .error e → ∃ n, FirstFault rules a n ∧ R e n

namespace Judges

variable {R : ε → ν → Prop} {m : Except ε γ} {f : γ → Except ε δ} {Q : γ → Prop} {Q' : δ → Prop}

theorem pure {c : γ} (h : Q c) : Judges R ([] : List (Rule α ν)) a (.ok c) Q :=
  ⟨fun d hd => by cases hd; exact ⟨(by intro r hr; cases hr), h⟩, fun e he => by cases he⟩

theorem bind (h : Judges R rules a m Q) (hf : ∀ c, Q c → Judges R rules' a (f c) Q') :
    Judges R (rules ++ rules') a (m.bind f) Q' := by
  cases m with
  | error e =>
    refine ⟨fun d hd => (by cases hd), fun e' he => ?_⟩
    cases he
    obtain ⟨n, hn, hR⟩ := h.error e rfl
    exact ⟨n, hn.left, hR⟩
  | ok c =>
    obtain ⟨hm, hq⟩ := h.ok c rfl
    refine ⟨fun d hd => ?_, fun e he => ?_⟩
    · obtain ⟨hm', hq'⟩ := (hf c hq).ok d hd
      exact ⟨meets_append.mpr ⟨hm, hm'⟩, hq'⟩
    · obtain ⟨n, hn, hR⟩ := (hf c hq).error e he
      exact ⟨n, hn.right hm, hR⟩

/-- The first rule is broken, and this is what is raised. -/
theorem fail {e : ε} (h : ¬ rule.Holds a) (hR : R e rule.name) :
    Judges R (rule :: rules) a (.error e : Except ε γ) Q :=
  ⟨fun c hc => (by cases hc), fun e' he => (by cases he; exact ⟨_, FirstFault.left (.one h), hR⟩)⟩

/-- The first rule holds, and the others decide. -/
theorem pass (h : rule.Holds a) (hj : Judges R rules a m Q) : Judges R (rule :: rules) a m Q := by
  refine ⟨fun c hc => ?_, fun e he => ?_⟩
  · obtain ⟨hm, hq⟩ := hj.ok c hc
    exact ⟨meets_append.mpr ⟨meets_one h, hm⟩, hq⟩
  · obtain ⟨n, hn, hR⟩ := hj.error e he
    exact ⟨n, FirstFault.right (meets_one h) hn, hR⟩

/-- A check, then the others. -/
theorem step (h : Judges R [rule] a m Q) (hf : ∀ c, Q c → Judges R rules a (f c) Q') :
    Judges R (rule :: rules) a (m.bind f) Q' := h.bind hf

theorem returns_iff (h : Judges R rules a m Q) : (∃ c, m = .ok c) ↔ Meets rules a := by
  refine ⟨fun ⟨c, hc⟩ => (h.ok c hc).1, fun hm => ?_⟩
  cases m with
  | ok c => exact ⟨c, rfl⟩
  | error e =>
    obtain ⟨n, hn, -⟩ := h.error e rfl
    exact absurd hm hn.not_meets

end Judges

end Rules
