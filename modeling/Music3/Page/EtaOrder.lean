import Music3.Page.Eta

/-!
# The order of the history

`fitEtaSeconds` takes the ten most recent samples. Where more than ten have the mtime of the tenth
or a later one, the order of the list decides which of those with the tenth mtime are taken.

`eta_order`: when that cannot matter. What the choice decides is how many of the ten rates are above
a value (`above_eq`), and any number between the least and the greatest can be chosen.
-/

namespace Music3

open Ranked

/-- The samples with an mtime above the tenth greatest one, `t`. -/
def newerThan (t : ℚ) (history : List EtaSample) : List EtaSample :=
  (history.filter EtaSample.valid).filter fun h => t < h.recency

/-- The samples with the tenth greatest mtime. -/
def tiedAt (t : ℚ) (history : List EtaSample) : List EtaSample :=
  (history.filter EtaSample.valid).filter fun h => h.recency = t

/-- How many of the tied samples are taken. -/
def roomFor (t : ℚ) (history : List EtaSample) : Nat := 10 - (newerThan t history).length

/-- The tenth greatest mtime of the valid samples. -/
def IsCut (history : List EtaSample) (t : ℚ) : Prop :=
  IsNth 10 ((history.filter EtaSample.valid).map EtaSample.recency) t

/-- The choice among the samples with the tenth greatest mtime decides for no rate whether two of the
ten are above it: if those with the greatest rates get two above it, so do those with the least
ones. -/
def Settled (history : List EtaSample) : Prop :=
  ∀ t, IsCut history t → ∀ v,
    2 ≤ ((newerThan t history).countP fun h => v < h.rate) +
      min (roomFor t history) ((tiedAt t history).countP fun h => v < h.rate) →
    2 ≤ ((newerThan t history).countP fun h => v < h.rate) +
      (roomFor t history - (tiedAt t history).countP fun h => h.rate ≤ v)

section
variable {history history' : List EtaSample} {t v : ℚ}

theorem IsCut.perm (hp : history.Perm history') (h : IsCut history t) : IsCut history' t :=
  IsNth.perm ((hp.filter _).map _) h

theorem perm_newerThan (hp : history.Perm history') :
    (newerThan t history).Perm (newerThan t history') := (hp.filter _).filter _

theorem perm_tiedAt (hp : history.Perm history') :
    (tiedAt t history).Perm (tiedAt t history') := (hp.filter _).filter _

theorem roomFor_perm (hp : history.Perm history') : roomFor t history' = roomFor t history := by
  rw [roomFor, roomFor, (perm_newerThan hp).length_eq]

/-- How many rates are above `v`: those of the newer samples, and of the first tied ones. -/
theorem above_eq (h : IsCut history t) (p : ℚ → Bool) :
    (consideredRates history).countP p = ((newerThan t history).countP fun h => p h.rate) +
      ((tiedAt t history).take (roomFor t history)).countP fun h => p h.rate := by
  obtain ⟨newer, hperm, -, -, htake⟩ := take_sortDesc h
  rw [consideredRates, considered_eq, htake, List.countP_map, List.countP_append,
    hperm.countP_eq, hperm.length_eq]
  rfl

theorem room_le (h : IsCut history t) : roomFor t history ≤ (tiedAt t history).length := by
  obtain ⟨newer, hperm, -, hle, -⟩ := take_sortDesc h
  rw [hperm.length_eq] at hle
  unfold roomFor newerThan tiedAt
  omega

theorem IsCut.length (h : IsCut history t) : 10 ≤ (history.filter EtaSample.valid).length := by
  have h₁ := h.reached
  have h₂ := List.countP_le_length (p := fun x : ℚ => decide (t ≤ x))
    (l := (history.filter EtaSample.valid).map EtaSample.recency)
  rw [List.length_map] at h₂
  omega

/-- The estimate of a history with a cut. -/
theorem fit_cut (h : IsCut history t) :
    ∃ worst, IsNth 2 (consideredRates history) worst ∧ ∀ frames, 0 < frames →
      fitEtaSeconds history (some frames) = some (worst * frames) := by
  refine fit_second _ ?_
  have := h.length
  rw [length_consideredAt]
  omega

/-- The number of rates above `v` is between those of the least and the greatest choice. -/
theorem above_bounds (h : IsCut history t) :
    ((newerThan t history).countP fun h => v < h.rate) +
        (roomFor t history - (tiedAt t history).countP fun h => h.rate ≤ v) ≤
      ((consideredRates history).countP fun x => v < x) ∧
    ((consideredRates history).countP fun x => v < x) ≤
      ((newerThan t history).countP fun h => v < h.rate) +
        min (roomFor t history) ((tiedAt t history).countP fun h => v < h.rate) := by
  have hroom := room_le h
  obtain ⟨hle, hge⟩ := countP_take_le (fun h : EtaSample => decide (v < h.rate))
    (tiedAt t history) (roomFor t history)
  rw [above_eq h fun x => decide (v < x)]
  simp only [← decide_not, not_lt] at hge
  omega

/-- Without a choice that matters the order of the history does not. -/
theorem fit_perm (hs : Settled history) (hp : history.Perm history') (frames : ℚ)
    (hf : 0 < frames) :
    fitEtaSeconds history' (some frames) = fitEtaSeconds history (some frames) := by
  have hdone := hp.filter EtaSample.valid
  by_cases hlen : 10 ≤ (history.filter EtaSample.valid).length
  · obtain ⟨t, ht⟩ := exists_isNth (l := (history.filter EtaSample.valid).map EtaSample.recency)
      (by decide : 0 < 10) (by rw [List.length_map]; exact hlen)
    have ht : IsCut history t := ht
    have ht' := ht.perm hp
    obtain ⟨worst, hnth, hfit⟩ := fit_cut ht
    obtain ⟨worst', hnth', hfit'⟩ := fit_cut ht'
    have heq : worst' = worst := by
      refine hnth'.eq_of_above hnth fun v => ?_
      obtain ⟨hle, hge⟩ := above_bounds (v := v) ht
      obtain ⟨hle', hge'⟩ := above_bounds (v := v) ht'
      rw [roomFor_perm hp, ← (perm_newerThan hp).countP_eq, ← (perm_tiedAt hp).countP_eq] at hle' hge'
      have := hs t ht v
      omega
    rw [hfit frames hf, hfit' frames hf, heq]
  · -- all valid samples are considered
    by_cases h3 : (history.filter EtaSample.valid).length < 3
    · rw [fit_none h3, fit_none (hdone.length_eq ▸ h3)]
    have hall : (consideredRates history).Perm (consideredRates history') := by
      have hsorted : ∀ {l : List EtaSample}, l.length ≤ 10 →
          ((sortDesc EtaSample.recency l).take 10).Perm l := by
        intro l hl
        rw [List.take_of_length_le ((perm_sortDesc _ l).length_eq.trans_le hl)]
        exact perm_sortDesc _ l
      rw [consideredRates, consideredRates, considered_eq, considered_eq]
      refine (List.Perm.trans (hsorted (by omega)) (hdone.trans (hsorted ?_).symm)).map _
      rw [← hdone.length_eq]
      omega
    obtain ⟨worst, hnth, -, hfit⟩ := fit_spec history (by omega)
    obtain ⟨worst', hnth', -, hfit'⟩ := fit_spec history'
      (by rw [← hdone.length_eq]; omega)
    have hrank : inlierRank (consideredRates history') = inlierRank (consideredRates history) := by
      rw [inlierRank, inlierRank, hall.length_eq]
    rw [hrank] at hnth'
    rw [hfit, hfit', hnth'.unique (hnth.perm hall)]

/-! ## Orders that choose -/

/-- The history with the samples that have a property at its front. -/
def fronted (p : EtaSample → Bool) (history : List EtaSample) : List EtaSample :=
  history.filter p ++ history.filter fun h => !p h

theorem perm_fronted (p : EtaSample → Bool) (history : List EtaSample) :
    history.Perm (fronted p history) := (List.filter_append_perm p history).symm

theorem tiedAt_fronted (p : EtaSample → Bool) (history : List EtaSample) :
    tiedAt t (fronted p history) =
      (tiedAt t history).filter p ++ (tiedAt t history).filter fun h => !p h := by
  simp only [tiedAt, fronted, List.filter_append, List.filter_filter]
  congr 1
  · exact List.filter_congr fun h _ => by ac_rfl
  · exact List.filter_congr fun h _ => by ac_rfl

/-- With the samples above `v` at its front, a history has as many rates above `v` as there can
be. -/
theorem above_most (h : IsCut history t) (v : ℚ) :
    ((consideredRates (fronted (fun h => v < h.rate) history)).countP fun x => v < x) =
      ((newerThan t history).countP fun h => v < h.rate) +
        min (roomFor t history) ((tiedAt t history).countP fun h => v < h.rate) := by
  have hp := perm_fronted (fun h => v < h.rate) history
  rw [above_eq (h.perm hp) fun x => v < x, tiedAt_fronted, roomFor_perm hp,
    ← (perm_newerThan hp).countP_eq]
  congr 1
  exact countP_take_front _ _ _

/-- With them at its end, as few. -/
theorem above_least (h : IsCut history t) (v : ℚ) :
    ((consideredRates (fronted (fun h => h.rate ≤ v) history)).countP fun x => v < x) =
      ((newerThan t history).countP fun h => v < h.rate) +
        (roomFor t history - (tiedAt t history).countP fun h => h.rate ≤ v) := by
  have hp := perm_fronted (fun h => h.rate ≤ v) history
  have hroom := room_le h
  rw [above_eq (h.perm hp) fun x => v < x, tiedAt_fronted, roomFor_perm hp,
    ← (perm_newerThan hp).countP_eq]
  congr 1
  have hfront := countP_take_front (fun h : EtaSample => decide (h.rate ≤ v)) (tiedAt t history)
    (roomFor t history)
  have hall := List.length_eq_countP_add_countP (fun h : EtaSample => decide (h.rate ≤ v))
    (l := (((tiedAt t history).filter fun h => h.rate ≤ v) ++
      (tiedAt t history).filter fun h => !decide (h.rate ≤ v)).take (roomFor t history))
  rw [hfront, List.length_take, (List.filter_append_perm _ _).length_eq] at hall
  simp only [decide_eq_true_eq, not_le] at hall
  omega

end

/-! ## The result -/

/-- The estimate does not depend on the order of the history exactly where the choice among samples
with one mtime cannot matter, or where there are no frames. -/
theorem eta_order (history : List EtaSample) (frames : Option ℚ) :
    (∀ history', history.Perm history' →
      fitEtaSeconds history' frames = fitEtaSeconds history frames) ↔
      frames.getD 0 ≤ 0 ∨ Settled history := by
  constructor
  · intro h
    by_cases hf : frames.getD 0 ≤ 0
    · exact .inl hf
    obtain ⟨f, rfl⟩ : ∃ f, frames = some f := by
      cases frames with
      | none => simp at hf
      | some f => exact ⟨f, rfl⟩
    have hf : 0 < f := not_le.mp hf
    refine .inr fun t ht v hmost => ?_
    have hp := perm_fronted (fun h => v < h.rate) history
    have hp' := perm_fronted (fun h => h.rate ≤ v) history
    obtain ⟨worst, hnth, hfit⟩ := fit_cut (ht.perm hp)
    obtain ⟨worst', hnth', hfit'⟩ := fit_cut (ht.perm hp')
    -- the two orders have one estimate, and so one worst inlier
    have heq : worst = worst' := by
      have := (h _ hp).trans (h _ hp').symm
      rw [hfit f hf, hfit' f hf, Option.some.injEq] at this
      exact mul_right_cancel₀ hf.ne' this
    rw [← above_most ht, ← hnth.lt_iff, heq, hnth'.lt_iff, above_least ht] at hmost
    exact hmost
  · rintro (hf | hs) history' hp
    · rw [(fit_null history frames).mpr (.inr hf), (fit_null history' frames).mpr (.inr hf)]
    · by_cases hf : frames.getD 0 ≤ 0
      · rw [(fit_null history frames).mpr (.inr hf), (fit_null history' frames).mpr (.inr hf)]
      · obtain ⟨f, rfl⟩ : ∃ f, frames = some f := by
          cases frames with
          | none => simp at hf
          | some f => exact ⟨f, rfl⟩
        exact fit_perm hs hp f (not_le.mp hf)

namespace Sample

/-- A sample of a rate, with no mtime. -/
def etaSample (seconds : ℚ) : EtaSample := ⟨some 1, some seconds, none⟩

/-- Ten samples of the rate 1, and two of the rate 2. -/
def tiedHistory : List EtaSample := List.replicate 10 (etaSample 1) ++ [etaSample 2, etaSample 2]

end Sample

/-- With the two at the front the estimate is 2, at the end it is 1. -/
theorem eta_depends_on_order : fitEtaSeconds Sample.tiedHistory (some 1) = some 1 ∧
    fitEtaSeconds Sample.tiedHistory.reverse (some 1) = some 2 ∧
    ¬ ∀ history history' : List EtaSample, history.Perm history' → ∀ frames,
      fitEtaSeconds history' frames = fitEtaSeconds history frames := by
  have h₁ : fitEtaSeconds Sample.tiedHistory (some 1) = some 1 := by decide +kernel
  have h₂ : fitEtaSeconds Sample.tiedHistory.reverse (some 1) = some 2 := by decide +kernel
  refine ⟨h₁, h₂, fun h => ?_⟩
  have := h Sample.tiedHistory _ (List.reverse_perm _).symm (some 1)
  rw [h₁, h₂] at this
  exact absurd this (by decide +kernel)

end Music3
