import Mathlib.Algebra.Order.Field.Rat
import Mathlib.Tactic.Linarith
import Music3.Lib.Ranked

/-!
# The estimate of a generation's end

`fitEtaSeconds`, read in exact rational arithmetic: the worst rate of the ten most recent samples,
of five or more without the two ends. A number that may be missing is an `Option`: of the seconds and
the frames, `none` is all that `Number.isFinite` refuses.

`fit_spec`: the result is `frames` times an order statistic of the rates that are considered, the
greatest of less than five, else the second greatest. Everything else is derived from it.

`eta_robust`: the estimate scales with the history, is `null` for want of samples or frames only, and
is not moved by one sample over what the others allow.
-/

namespace Music3

open Ranked

/-- An entry of `etaSamples`. -/
structure EtaSample where
  frames : Option ℚ
  seconds : Option ℚ
  mtime : Option ℚ

/-- `Number.isFinite(x) && x > 0`. -/
def finitePositive (x : Option ℚ) : Bool := x.any (0 < ·)

namespace EtaSample

/-- The filter of the samples. -/
def valid (h : EtaSample) : Bool := finitePositive h.seconds && finitePositive h.frames

/-- `h.mtime || 0`. -/
def recency (h : EtaSample) : ℚ := h.mtime.getD 0

/-- `h.seconds / h.frames`, of a valid sample. -/
def rate (h : EtaSample) : ℚ := h.seconds.getD 0 / h.frames.getD 0

end EtaSample

/-- `Array.prototype.sort`, which is stable. -/
def jsSort {α : Type} (compare : α → α → ℚ) (l : List α) : List α :=
  l.insertionSort fun a b => compare a b ≤ 0

/-- `recent`: the samples that are considered. -/
def recentSamples (done : List EtaSample) : List EtaSample :=
  (jsSort (fun a b => b.recency - a.recency) done).take 10

/-- The rates without the least and the greatest, of five or more. -/
def inlierRates (rates : List ℚ) : List ℚ :=
  if 5 ≤ rates.length then (jsSort (fun a b => a - b) rates).tail.dropLast else rates

/-- `fitEtaSeconds`. -/
def fitEtaSeconds (history : List EtaSample) (frames : Option ℚ) : Option ℚ :=
  let done := history.filter EtaSample.valid
  if done.length < 3 then none
  else
    match (inlierRates ((recentSamples done).map EtaSample.rate)).max? with
    | some worst =>
      let est := worst * frames.getD 0
      if 0 < est then some est else none
    | none => none  -- `Math.max()`, which three samples exclude

/-! ## What it computes -/

/-- Which of the greatest rates is the worst inlier. -/
def inlierRank (rates : List ℚ) : Nat := if 5 ≤ rates.length then 2 else 1

theorem jsSort_desc {α : Type} (key : α → ℚ) (l : List α) :
    jsSort (fun a b => key b - key a) l = sortDesc key l := by
  simp only [jsSort, sortDesc, sub_nonpos]

theorem jsSort_rates (rates : List ℚ) :
    (jsSort (fun a b => a - b) rates).Perm rates ∧
      (jsSort (fun a b => a - b) rates).Pairwise (· ≤ ·) := by
  simp only [jsSort, sub_nonpos]
  exact ⟨List.perm_insertionSort _ _, List.pairwise_insertionSort _ _⟩

theorem inlierRates_max (rates : List ℚ) (h : rates ≠ []) :
    ∃ worst, (inlierRates rates).max? = some worst ∧ IsNth (inlierRank rates) rates worst := by
  unfold inlierRates inlierRank
  split
  · rename_i hlen
    obtain ⟨hp, hs⟩ := jsSort_rates rates
    obtain ⟨m, hm, hnth⟩ := isNth_trim (by rw [hp.length_eq]; omega) hs
    exact ⟨m, hm, hnth.perm hp⟩
  · obtain ⟨m, hm⟩ := Option.isSome_iff_exists.mp (List.isSome_max?_of_ne_nil h)
    exact ⟨m, hm, isNth_max hm⟩

section
variable {history : List EtaSample}

theorem valid_iff {h : EtaSample} :
    h.valid = true ↔ ∃ s f, h.seconds = some s ∧ h.frames = some f ∧ 0 < s ∧ 0 < f := by
  obtain ⟨frames, seconds, mtime⟩ := h
  cases seconds <;> cases frames <;> simp [EtaSample.valid, finitePositive]

theorem rate_pos {h : EtaSample} (hv : h.valid = true) : 0 < h.rate := by
  obtain ⟨s, f, hs, hf, hs₀, hf₀⟩ := valid_iff.mp hv
  rw [EtaSample.rate, hs, hf]
  exact div_pos hs₀ hf₀

/-- The samples that are considered, of a history. -/
def considered (history : List EtaSample) : List EtaSample :=
  recentSamples (history.filter EtaSample.valid)

theorem considered_eq (history : List EtaSample) :
    considered history =
      (sortDesc EtaSample.recency (history.filter EtaSample.valid)).take 10 := by
  rw [considered, recentSamples, jsSort_desc]

theorem length_considered (history : List EtaSample) :
    (considered history).length = min 10 (history.filter EtaSample.valid).length := by
  rw [considered_eq, List.length_take, (perm_sortDesc _ _).length_eq]

theorem valid_of_considered {h : EtaSample} (hm : h ∈ considered history) : h.valid = true := by
  rw [considered_eq] at hm
  exact (List.mem_filter.mp ((perm_sortDesc _ _).mem_iff.mp (List.mem_of_mem_take hm))).2

/-- The rates that are considered. -/
def consideredRates (history : List EtaSample) : List ℚ :=
  (considered history).map EtaSample.rate

/-- The result is `frames` times the worst inlier rate, which is positive. -/
theorem fit_spec (history : List EtaSample)
    (h : 3 ≤ (history.filter EtaSample.valid).length) :
    ∃ worst, IsNth (inlierRank (consideredRates history)) (consideredRates history) worst ∧
      0 < worst ∧ ∀ frames, fitEtaSeconds history frames =
        if 0 < frames.getD 0 then some (worst * frames.getD 0) else none := by
  have hlen : (consideredRates history).length =
      min 10 (history.filter EtaSample.valid).length := by
    rw [consideredRates, List.length_map, length_considered]
  obtain ⟨worst, hmax, hnth⟩ := inlierRates_max (consideredRates history)
    (List.ne_nil_of_length_pos (by omega))
  have hpos : 0 < worst := by
    obtain ⟨s, hs, rfl⟩ := List.mem_map.mp hnth.mem
    exact rate_pos (valid_of_considered hs)
  refine ⟨worst, hnth, hpos, fun frames => ?_⟩
  unfold consideredRates considered at hmax
  simp only [fitEtaSeconds, if_neg (show ¬ (history.filter EtaSample.valid).length < 3 by omega),
    hmax]
  simp only [mul_pos_iff_of_pos_left hpos]

theorem fit_none (h : (history.filter EtaSample.valid).length < 3) (frames : Option ℚ) :
    fitEtaSeconds history frames = none := if_pos h

end

/-! ## Positions in the history -/

/-- The items whose samples are considered, of items that stand for samples. -/
def consideredBy {ι : Type} (sample : ι → EtaSample) (items : List ι) : List ι :=
  (jsSort (fun a b => (sample b).recency - (sample a).recency)
    (items.filter fun i => (sample i).valid)).take 10

theorem considered_map {ι : Type} (sample : ι → EtaSample) (items : List ι) :
    considered (items.map sample) = (consideredBy sample items).map sample := by
  have hmap := List.map_insertionSort (fun a b => (sample b).recency ≤ (sample a).recency)
    (fun a b => b.recency ≤ a.recency) sample (items.filter fun i => (sample i).valid)
    fun _ _ _ _ => Iff.rfl
  rw [considered_eq, consideredBy, jsSort_desc fun i => (sample i).recency, List.map_take,
    List.filter_map]
  exact congrArg (List.take 10) hmap.symm

/-- Only the validity and the recency of a sample decide on it. -/
theorem consideredBy_congr {ι : Type} {sample sample' : ι → EtaSample}
    (hv : ∀ i, (sample i).valid = (sample' i).valid)
    (hr : ∀ i, (sample i).recency = (sample' i).recency) (items : List ι) :
    consideredBy sample items = consideredBy sample' items := by
  simp only [consideredBy, hv, hr]

/-- The sample at a position. -/
def sampleAt (history : List EtaSample) (i : Nat) : EtaSample :=
  history.getD i ⟨none, none, none⟩

/-- The positions of the samples that are considered. -/
def consideredAt (history : List EtaSample) : List Nat :=
  consideredBy (sampleAt history) (List.range history.length)

section
variable {history : List EtaSample}

theorem map_sampleAt (history : List EtaSample) :
    (List.range history.length).map (sampleAt history) = history := by
  refine List.ext_getElem (by simp) fun i h _ => ?_
  simp only [List.length_map, List.length_range] at h
  simp [sampleAt, h]

theorem map_consideredAt (history : List EtaSample) :
    (consideredAt history).map (sampleAt history) = considered history := by
  rw [consideredAt, ← considered_map, map_sampleAt]

theorem nodup_consideredAt (history : List EtaSample) : (consideredAt history).Nodup := by
  unfold consideredAt consideredBy
  refine ((List.perm_insertionSort _ _).nodup_iff.mpr ?_).sublist (List.take_sublist _ _)
  exact List.nodup_range.filter _

theorem mem_consideredAt {i : Nat} (h : i ∈ consideredAt history) :
    i < history.length ∧ (sampleAt history i).valid = true := by
  have h := (List.perm_insertionSort _ _).mem_iff.mp (List.mem_of_mem_take h)
  obtain ⟨h₁, h₂⟩ := List.mem_filter.mp h
  exact ⟨List.mem_range.mp h₁, h₂⟩

theorem length_consideredAt (history : List EtaSample) :
    (consideredAt history).length = min 10 (history.filter EtaSample.valid).length := by
  rw [← length_considered, ← map_consideredAt, List.length_map]

theorem countP_consideredRates (p : ℚ → Bool) :
    (consideredRates history).countP p =
      (consideredAt history).countP fun i => p (sampleAt history i).rate := by
  rw [consideredRates, ← map_consideredAt, List.map_map, List.countP_map]
  rfl

/-- Five or more rates are considered: the worst inlier is the second greatest. -/
theorem fit_second (history : List EtaSample) (h : 5 ≤ (consideredAt history).length) :
    ∃ worst, IsNth 2 (consideredRates history) worst ∧ ∀ frames, 0 < frames →
      fitEtaSeconds history (some frames) = some (worst * frames) := by
  have hlen := length_consideredAt history
  obtain ⟨worst, hnth, -, hfit⟩ := fit_spec history (by omega)
  have hrank : inlierRank (consideredRates history) = 2 := by
    refine if_pos ?_
    rw [consideredRates, ← map_consideredAt, List.length_map, List.length_map]
    exact h
  rw [hrank] at hnth
  refine ⟨worst, hnth, fun frames hf => ?_⟩
  rw [hfit]
  exact if_pos hf

/-! ## Changes of the history -/

/-- The history with all seconds multiplied by `k`. -/
def scaled (k : ℚ) (history : List EtaSample) : List EtaSample :=
  history.map fun h => { h with seconds := h.seconds.map (k * ·) }

/-- The history with `seconds` for the sample at `j`. -/
def withSeconds (history : List EtaSample) (j : Nat) (seconds : ℚ) : List EtaSample :=
  history.set j { sampleAt history j with seconds := some seconds }

theorem valid_scaled {k : ℚ} (hk : 0 < k) (h : EtaSample) :
    EtaSample.valid { h with seconds := h.seconds.map (k * ·) } = h.valid := by
  obtain ⟨frames, seconds, mtime⟩ := h
  cases seconds <;> simp [EtaSample.valid, finitePositive, hk]

theorem filter_scaled {k : ℚ} (hk : 0 < k) (history : List EtaSample) :
    ((scaled k history).filter EtaSample.valid).length =
      (history.filter EtaSample.valid).length := by
  rw [scaled, List.filter_map, List.length_map]
  simp only [Function.comp_def, valid_scaled hk]

theorem consideredRates_scaled {k : ℚ} (hk : 0 < k) (history : List EtaSample) :
    consideredRates (scaled k history) = (consideredRates history).map (k * ·) := by
  have hsame : consideredBy (fun h : EtaSample => { h with seconds := h.seconds.map (k * ·) })
      history = consideredBy id history :=
    consideredBy_congr (valid_scaled hk) (fun _ => rfl) history
  have hid : consideredBy id history = considered history := by
    have := considered_map id history
    rwa [List.map_id, List.map_id, eq_comm] at this
  rw [consideredRates, scaled, considered_map, hsame, hid, consideredRates, List.map_map,
    List.map_map]
  refine List.map_congr_left fun h _ => ?_
  obtain ⟨frames, seconds, mtime⟩ := h
  cases seconds <;> simp [EtaSample.rate, mul_div_assoc]

theorem fit_scaled {k : ℚ} (hk : 0 < k) (history : List EtaSample) (frames : Option ℚ) :
    fitEtaSeconds (scaled k history) frames = (fitEtaSeconds history frames).map (k * ·) := by
  have hlen := filter_scaled hk history
  by_cases h : (history.filter EtaSample.valid).length < 3
  · rw [fit_none h, fit_none (by omega)]
    rfl
  · obtain ⟨worst, hnth, -, hfit⟩ := fit_spec history (by omega)
    obtain ⟨worst', hnth', -, hfit'⟩ := fit_spec (scaled k history) (by omega)
    have hrank : inlierRank (consideredRates (scaled k history)) =
        inlierRank (consideredRates history) := by
      rw [inlierRank, consideredRates_scaled hk, List.length_map, inlierRank]
    have hmono : StrictMono fun x : ℚ => k * x := fun _ _ h => mul_lt_mul_of_pos_left h hk
    rw [hrank, consideredRates_scaled hk] at hnth'
    rw [hfit, hfit', hnth'.unique (hnth.map hmono)]
    split
    · simp [mul_assoc]
    · rfl

theorem fit_null (history : List EtaSample) (frames : Option ℚ) :
    fitEtaSeconds history frames = none ↔
      (history.filter EtaSample.valid).length < 3 ∨ frames.getD 0 ≤ 0 := by
  by_cases h : (history.filter EtaSample.valid).length < 3
  · simp [fit_none h, h]
  · obtain ⟨worst, -, -, hfit⟩ := fit_spec history (by omega)
    rw [hfit]
    by_cases hf : 0 < frames.getD 0
    · simp [hf, h]
    · simp [hf, h, not_lt.mp hf]

/-- All but one of the rates are within the estimate. -/
theorem fit_bounds (h : 5 ≤ (consideredAt history).length) {frames r : ℚ} (hf : 0 < frames)
    (hr : fitEtaSeconds history (some frames) = some r) :
    ∃ i₀, ∀ i ∈ consideredAt history, i ≠ i₀ → frames * (sampleAt history i).rate ≤ r := by
  obtain ⟨worst, hnth, hfit⟩ := fit_second history h
  cases (hfit frames hf).symm.trans hr
  have habove := hnth.above
  rw [countP_consideredRates, List.countP_eq_length_filter] at habove
  have hall : ∀ i ∈ consideredAt history, worst < (sampleAt history i).rate →
      i ∈ (consideredAt history).filter fun i => worst < (sampleAt history i).rate :=
    fun i hi hlt => List.mem_filter.mpr ⟨hi, decide_eq_true hlt⟩
  generalize ((consideredAt history).filter fun i => worst < (sampleAt history i).rate) = faster
    at habove hall
  -- no rate but one is above the second greatest
  refine ⟨faster.headD 0, fun i hi hne => ?_⟩
  rw [mul_comm worst]
  refine mul_le_mul_of_nonneg_left (not_lt.mp fun hlt => hne ?_) hf.le
  have hmem := hall i hi hlt
  match faster, habove, hmem with
  | [a], _, hmem => exact List.mem_singleton.mp hmem

/-- At least two positions reach the second greatest rate, so one besides `j` does. -/
theorem other_reaches {history : List EtaSample} {worst : ℚ}
    (hnth : IsNth 2 (consideredRates history) worst) (j : Nat) :
    ∃ i ∈ consideredAt history, i ≠ j ∧ worst ≤ (sampleAt history i).rate := by
  have hreached := hnth.reached
  rw [countP_consideredRates, List.countP_eq_length_filter] at hreached
  have hnodup := (nodup_consideredAt history).filter
    fun i => decide (worst ≤ (sampleAt history i).rate)
  have hall : ∀ i ∈ (consideredAt history).filter fun i => worst ≤ (sampleAt history i).rate,
      i ∈ consideredAt history ∧ worst ≤ (sampleAt history i).rate := fun i hi => by
    simpa using hi
  generalize ((consideredAt history).filter fun i => worst ≤ (sampleAt history i).rate) = slow
    at hreached hnodup hall
  match slow, hreached, hnodup, hall with
  | a :: b :: _, _, hnodup, hall =>
    have hab : a ≠ b := fun e => by simp [e] at hnodup
    by_cases ha : a = j
    · have hb := hall b (by simp)
      exact ⟨b, hb.1, fun e => hab (ha.trans e.symm), hb.2⟩
    · have ha' := hall a (by simp)
      exact ⟨a, ha'.1, ha, ha'.2⟩

/-- A sample that is slower is considered as before. -/
theorem sampleAt_withSeconds {j : Nat} (hj : j < history.length) (seconds : ℚ) (i : Nat) :
    sampleAt (withSeconds history j seconds) i =
      if i = j then { sampleAt history j with seconds := some seconds }
      else sampleAt history i := by
  unfold withSeconds
  by_cases h : i = j
  · subst h
    simp [sampleAt, hj]
  · simp [sampleAt, List.getD_eq_getElem?_getD, Ne.symm h, h]

theorem consideredAt_withSeconds {j : Nat} (hj : j ∈ consideredAt history) {seconds : ℚ}
    (hpos : 0 < seconds) :
    consideredAt (withSeconds history j seconds) = consideredAt history := by
  obtain ⟨hlt, hv⟩ := mem_consideredAt hj
  have hlen : (withSeconds history j seconds).length = history.length := List.length_set
  rw [consideredAt, consideredAt, hlen]
  refine consideredBy_congr (fun i => ?_) (fun i => ?_) _
  · rw [sampleAt_withSeconds hlt]
    split
    · rename_i h
      subst h
      obtain ⟨_, f, _, hf, _, hf₀⟩ := valid_iff.mp hv
      rw [hv]
      exact valid_iff.mpr ⟨seconds, f, rfl, hf, hpos, hf₀⟩
    · rfl
  · rw [sampleAt_withSeconds hlt]
    split
    · rename_i h
      rw [h]
      rfl
    · rfl

end

/-! ## The result -/

/-- The estimate scales with the seconds of the history; it is `null` for want of valid samples or of
frames only; of five or more samples that are considered it bounds all but one, and one of them that
is slower does not move it above the others. -/
theorem eta_robust (history : List EtaSample) :
    (∀ k > 0, ∀ frames, fitEtaSeconds (scaled k history) frames =
      (fitEtaSeconds history frames).map (k * ·)) ∧
    (∀ frames, fitEtaSeconds history frames = none ↔
      (history.filter EtaSample.valid).length < 3 ∨ frames.getD 0 ≤ 0) ∧
    (5 ≤ (consideredAt history).length → ∀ frames > 0,
      (∀ r, fitEtaSeconds history (some frames) = some r →
        ∃ i₀, ∀ i ∈ consideredAt history, i ≠ i₀ → frames * (sampleAt history i).rate ≤ r) ∧
      ∀ j ∈ consideredAt history, ∀ seconds, (∃ s ∈ (sampleAt history j).seconds, s < seconds) →
        ∃ r, fitEtaSeconds (withSeconds history j seconds) (some frames) = some r ∧
          ∃ i ∈ consideredAt history, i ≠ j ∧ r ≤ frames * (sampleAt history i).rate) := by
  refine ⟨fun k hk frames => fit_scaled hk history frames, fit_null history,
    fun h frames hf => ⟨fun r hr => fit_bounds h hf hr, ?_⟩⟩
  rintro j hj seconds ⟨s, hs, hlt⟩
  obtain ⟨hj₀, hv⟩ := mem_consideredAt hj
  have hpos : 0 < seconds := by
    obtain ⟨s', _, hs', _, hs₀, _⟩ := valid_iff.mp hv
    cases hs'.symm.trans hs
    exact hs₀.trans hlt
  have hsame := consideredAt_withSeconds hj hpos
  obtain ⟨worst, hnth, hfit⟩ := fit_second (withSeconds history j seconds)
    (by rw [hsame]; exact h)
  obtain ⟨i, hi, hne, hle⟩ := other_reaches hnth j
  rw [hsame] at hi
  rw [sampleAt_withSeconds hj₀, if_neg hne] at hle
  refine ⟨_, hfit frames hf, i, hi, hne, ?_⟩
  rw [mul_comm]
  exact mul_le_mul_of_nonneg_left hle hf.le

end Music3
