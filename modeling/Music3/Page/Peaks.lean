import Mathlib.Algebra.Order.Floor.Semifield
import Mathlib.Data.Rat.Floor
import Music3.Page.Wav

/-!
# The peaks of a waveform

`extractPeaks` takes the loudest sample of the first channel in each of `n` buckets of frames. Its
arithmetic is read as exact: a peak is a quotient of at most `32768` by `32768`, which a `float32`
holds. `Music3.Page.Buckets` has the borders of the buckets in doubles.

* `bucketStart_eq`: the borders are quotients of integers.
* `mem_bucket`: each frame is in a bucket; `end_le_start`: in one only, if there are no fewer frames
  than buckets.
* `peaks_lossless`: no sample of the first channel is lost.
-/

namespace Music3

/-- `INT16_SCALE`. -/
def int16Scale : Nat := 32768

/-- `Math.abs` of a sample. -/
def magnitude (s : Int16) : Nat := s.toInt.natAbs

/-- `Math.floor(b * per)`. -/
def bucketStart (frames n b : Nat) : Nat := ⌊(b : ℚ) * (frames / n)⌋₊

/-- The end of the bucket `b`. -/
def bucketEnd (frames n b : Nat) : Nat :=
  min frames (max (bucketStart frames n b + 1) (bucketStart frames n (b + 1)))

/-- One pass of the inner loop. A read outside the array is `undefined`, and `NaN > peak` is
false. -/
def louder (samples : List Int16) (ch : Nat) (peak i : Nat) : Nat :=
  match samples[i * ch]? with
  | some s => if peak < magnitude s then magnitude s else peak
  | none => peak

/-- The peak of the frames from `start` to before `stop`. -/
def bucketPeak (samples : List Int16) (ch start stop : Nat) : Nat :=
  (List.range' start (stop - start)).foldl (louder samples ch) 0

/-- `extractPeaks`. -/
def extractPeaks (samples : List Int16) (channels buckets : Nat) : List ℚ :=
  let ch := if 0 < channels then channels else 1
  let frames := samples.length / ch
  if frames = 0 then List.replicate buckets 0
  else (List.range buckets).map fun b =>
    (bucketPeak samples ch (bucketStart frames buckets b) (bucketEnd frames buckets b) : ℚ) /
      int16Scale

/-! ## The borders -/

section
variable {frames n b i : Nat}

theorem bucketStart_eq (frames n b : Nat) : bucketStart frames n b = b * frames / n := by
  unfold bucketStart
  rw [← mul_div_assoc, ← Nat.cast_mul]
  exact Nat.floor_div_eq_div _ _

theorem bucketStart_lt (hf : 0 < frames) (hb : b < n) : bucketStart frames n b < frames := by
  rw [bucketStart_eq, Nat.div_lt_iff_lt_mul (by omega), Nat.mul_comm frames]
  exact Nat.mul_lt_mul_of_pos_right hb hf

theorem bucketStart_mono {c : Nat} (h : b ≤ c) :
    bucketStart frames n b ≤ bucketStart frames n c := by
  rw [bucketStart_eq, bucketStart_eq]
  exact Nat.div_le_div_right (Nat.mul_le_mul_right frames h)

/-- A bucket is not empty. -/
theorem start_lt_end (hf : 0 < frames) (hb : b < n) :
    bucketStart frames n b < bucketEnd frames n b := by
  have := bucketStart_lt hf hb
  unfold bucketEnd
  omega

theorem bucketEnd_le : bucketEnd frames n b ≤ frames := Nat.min_le_left ..

theorem bucketStart_last (frames : Nat) (hn : 0 < n) : bucketStart frames n n = frames := by
  rw [bucketStart_eq, Nat.mul_div_cancel_left frames hn]

/-- Between zero and the last border, a number is between two neighbours. -/
theorem between_borders {start : Nat → Nat} (hzero : start 0 = 0) (h : i < start n) :
    ∃ b < n, start b ≤ i ∧ i < start (b + 1) := by
  induction n with
  | zero => omega
  | succ n ih =>
    by_cases hi : i < start n
    · obtain ⟨b, hb, hib⟩ := ih hi
      exact ⟨b, by omega, hib⟩
    · exact ⟨n, by omega, by omega, h⟩

theorem mem_bucket (hi : i < frames) (hn : 0 < n) :
    ∃ b < n, bucketStart frames n b ≤ i ∧ i < bucketEnd frames n b := by
  have hlast : i < bucketStart frames n n := (bucketStart_last frames hn).symm ▸ hi
  obtain ⟨b, hb, hstart, hstop⟩ := between_borders (by simp [bucketStart]) hlast
  refine ⟨b, hb, hstart, ?_⟩
  unfold bucketEnd
  omega

/-- With no fewer frames than buckets, a bucket ends where the next one starts. -/
theorem end_le_start {c : Nat} (hn : 0 < n) (hle : n ≤ frames) (h : b < c) :
    bucketEnd frames n b ≤ bucketStart frames n c := by
  have hnext : bucketStart frames n b + 1 ≤ bucketStart frames n (b + 1) := by
    rw [bucketStart_eq, bucketStart_eq, Nat.le_div_iff_mul_le hn, Nat.add_mul, Nat.add_mul,
      Nat.one_mul, Nat.one_mul]
    have := Nat.div_mul_le_self (b * frames) n
    omega
  have hmono : bucketStart frames n (b + 1) ≤ bucketStart frames n c := bucketStart_mono h
  unfold bucketEnd
  omega

end

/-! ## The inner loop -/

section
variable {samples : List Int16} {ch : Nat}

/-- The peak of some frames that are in the array is the magnitude of one of them, or what it was,
and no magnitude of them is greater. -/
theorem foldl_louder (is : List Nat) (hin : ∀ i ∈ is, i * ch < samples.length) (peak : Nat) :
    (is.foldl (louder samples ch) peak = peak ∨
      ∃ i ∈ is, ∃ s, samples[i * ch]? = some s ∧
        is.foldl (louder samples ch) peak = magnitude s) ∧
    peak ≤ is.foldl (louder samples ch) peak ∧
    ∀ i ∈ is, ∀ s, samples[i * ch]? = some s →
      magnitude s ≤ is.foldl (louder samples ch) peak := by
  induction is generalizing peak with
  | nil => exact ⟨.inl rfl, Nat.le_refl _, fun i hi => by simp at hi⟩
  | cons i is ih =>
    obtain ⟨hval, hle, hall⟩ := ih (fun j hj => hin j (List.mem_cons_of_mem i hj))
      (louder samples ch peak i)
    have hlt := hin i List.mem_cons_self
    have hget : samples[i * ch]? = some samples[i * ch] := List.getElem?_eq_getElem hlt
    have hstep : louder samples ch peak i = max peak (magnitude samples[i * ch]) := by
      rw [louder, hget]
      simp only
      split <;> omega
    rw [List.foldl_cons]
    refine ⟨?_, by omega, ?_⟩
    · rcases hval with hval | ⟨j, hj, s, hs, hval⟩
      · rcases Nat.le_total (magnitude samples[i * ch]) peak with h | h
        · exact .inl (by omega)
        · exact .inr ⟨i, List.mem_cons_self, _, hget, by omega⟩
      · exact .inr ⟨j, List.mem_cons_of_mem i hj, s, hs, hval⟩
    · intro j hj s hs
      rcases List.mem_cons.mp hj with rfl | hj
      · cases hget.symm.trans hs
        omega
      · exact hall j hj s hs

theorem magnitude_le (s : Int16) : magnitude s ≤ int16Scale := by
  have h₁ := s.le_toInt
  have h₂ := s.toInt_lt
  unfold magnitude int16Scale
  omega

/-- A frame's sample is in the array. -/
theorem frame_lt {i : Nat} (hch : 0 < ch) (hi : i < samples.length / ch) :
    i * ch < samples.length := by
  rw [Nat.lt_div_iff_mul_lt hch] at hi
  omega

/-- The peak of a bucket of frames is the greatest magnitude in it. -/
theorem bucketPeak_spec {start stop : Nat} (hch : 0 < ch) (hlt : start < stop)
    (hle : stop ≤ samples.length / ch) :
    (∃ i, start ≤ i ∧ i < stop ∧ ∃ s, samples[i * ch]? = some s ∧
      bucketPeak samples ch start stop = magnitude s) ∧
    ∀ i s, start ≤ i → i < stop → samples[i * ch]? = some s →
      magnitude s ≤ bucketPeak samples ch start stop := by
  have hmem : ∀ {i}, i ∈ List.range' start (stop - start) ↔ start ≤ i ∧ i < stop := by
    intro i
    rw [List.mem_range'_1]
    omega
  have hin : ∀ i ∈ List.range' start (stop - start), i * ch < samples.length := fun i hi =>
    frame_lt hch (Nat.lt_of_lt_of_le (hmem.mp hi).2 hle)
  obtain ⟨hval, -, hall⟩ := foldl_louder _ hin 0
  have hbound : ∀ i s, start ≤ i → i < stop → samples[i * ch]? = some s →
      magnitude s ≤ bucketPeak samples ch start stop := fun i s h₁ h₂ hs =>
    hall i (hmem.mpr ⟨h₁, h₂⟩) s hs
  refine ⟨?_, hbound⟩
  rcases hval with hzero | ⟨i, hi, s, hs, hval⟩
  · -- then the first sample is silent, too
    have hget := List.getElem?_eq_getElem (hin start (hmem.mpr ⟨Nat.le_refl _, hlt⟩))
    have := hbound start _ (Nat.le_refl _) hlt hget
    refine ⟨start, Nat.le_refl _, hlt, _, hget, ?_⟩
    unfold bucketPeak at this ⊢
    omega
  · exact ⟨i, (hmem.mp hi).1, (hmem.mp hi).2, s, hs, hval⟩

end

/-! ## The result -/

/-- The frame `i` is in the bucket `b`. -/
def InBucket (frames n b i : Nat) : Prop := bucketStart frames n b ≤ i ∧ i < bucketEnd frames n b

/-- The samples of the first channel. -/
def channel0 (samples : List Int16) (ch : Nat) : List Int16 :=
  (List.range (samples.length / ch)).filterMap fun i => samples[i * ch]?

/-- `Math.abs(s) / INT16_SCALE`. -/
def loudness (s : Int16) : ℚ := (magnitude s : ℚ) / int16Scale

theorem loudness_le {s t : Int16} (h : magnitude s ≤ magnitude t) : loudness s ≤ loudness t :=
  div_le_div_of_nonneg_right (Nat.cast_le.mpr h) (Nat.cast_nonneg _)

theorem loudness_unit (s : Int16) : 0 ≤ loudness s ∧ loudness s ≤ 1 := by
  have hle : (magnitude s : ℚ) ≤ int16Scale := Nat.cast_le.mpr (magnitude_le s)
  have hpos : (0 : ℚ) < int16Scale := by decide
  exact ⟨div_nonneg (Nat.cast_nonneg _) hpos.le, (div_le_one hpos).mpr hle⟩

section
variable {samples : List Int16} {ch n : Nat}

theorem mem_channel0 {s : Int16} :
    s ∈ channel0 samples ch ↔ ∃ i < samples.length / ch, samples[i * ch]? = some s := by
  simp [channel0]

/-- The greatest output is that of the channel, if every output is the loudness of a sample, and no
sample is louder than every output. -/
theorem max_of_outputs {out : List ℚ} (hne : 0 < out.length)
    (hout : ∀ x ∈ out, ∃ s ∈ channel0 samples ch, x = loudness s)
    (hall : ∀ s ∈ channel0 samples ch, ∃ x ∈ out, loudness s ≤ x) :
    ∃ m, out.max? = some m ∧ ((channel0 samples ch).map loudness).max? = some m := by
  obtain ⟨m, hm⟩ := Option.isSome_iff_exists.mp
    (List.isSome_max?_of_ne_nil (List.ne_nil_of_length_pos hne))
  obtain ⟨hmem, hmax⟩ := List.max?_eq_some_iff.mp hm
  refine ⟨m, hm, List.max?_eq_some_iff.mpr ⟨?_, fun x hx => ?_⟩⟩
  · obtain ⟨s, hs, rfl⟩ := hout m hmem
    exact List.mem_map_of_mem hs
  · obtain ⟨s, hs, rfl⟩ := List.mem_map.mp hx
    obtain ⟨x, hx, hle⟩ := hall s hs
    exact hle.trans (hmax x hx)

theorem length_extractPeaks (samples : List Int16) (channels buckets : Nat) :
    (extractPeaks samples channels buckets).length = buckets := by
  simp only [extractPeaks, apply_ite List.length, List.length_replicate, List.length_map,
    List.length_range, ite_self]

/-- The output of a bucket is the greatest loudness in it. -/
theorem extractPeaks_bucket (hch : 0 < ch) (hf : 0 < samples.length / ch) {b : Nat} (hb : b < n) :
    ∃ i s, InBucket (samples.length / ch) n b i ∧ samples[i * ch]? = some s ∧
      (extractPeaks samples ch n)[b]? = some (loudness s) ∧
      ∀ j t, InBucket (samples.length / ch) n b j → samples[j * ch]? = some t →
        loudness t ≤ loudness s := by
  obtain ⟨⟨i, h₁, h₂, s, hs, hpeak⟩, hall⟩ := bucketPeak_spec hch (start_lt_end hf hb) bucketEnd_le
  refine ⟨i, s, ⟨h₁, h₂⟩, hs, ?_, fun j t hj ht => ?_⟩
  · have hne : samples.length / ch ≠ 0 := by omega
    simp only [extractPeaks, if_pos hch, if_neg hne, List.getElem?_map, List.getElem?_range hb,
      Option.map_some, hpeak]
    rfl
  · have := hall j t hj.1 hj.2 ht
    exact loudness_le (by omega)

end

/-- The outputs are the loudness of a sample of their own bucket and of no other, the buckets cover
the frames, and so the greatest output is that of the first channel. -/
theorem peaks_lossless (samples : List Int16) (ch n : Nat) (hch : 1 ≤ ch) (hn : 1 ≤ n)
    (hf : 1 ≤ samples.length / ch) :
    (extractPeaks samples ch n).length = n ∧
    (∀ b < n, ∃ i s, InBucket (samples.length / ch) n b i ∧ samples[i * ch]? = some s ∧
      (extractPeaks samples ch n)[b]? = some (loudness s) ∧ 0 ≤ loudness s ∧ loudness s ≤ 1) ∧
    (∀ b < n, ∀ i, InBucket (samples.length / ch) n b i → i * ch < samples.length) ∧
    (∀ i < samples.length / ch, ∃ b < n, InBucket (samples.length / ch) n b i) ∧
    (n ≤ samples.length / ch → ∀ b c i, InBucket (samples.length / ch) n b i →
      InBucket (samples.length / ch) n c i → b = c) ∧
    ∃ m, (extractPeaks samples ch n).max? = some m ∧
      ((channel0 samples ch).map loudness).max? = some m := by
  have hlen := length_extractPeaks samples ch n
  refine ⟨hlen, fun b hb => ?_, fun b _ i hi => ?_, fun i hi => mem_bucket hi hn, ?_, ?_⟩
  · obtain ⟨i, s, hi, hs, hout, -⟩ := extractPeaks_bucket hch hf hb
    exact ⟨i, s, hi, hs, hout, loudness_unit s⟩
  · exact frame_lt hch (Nat.lt_of_lt_of_le hi.2 bucketEnd_le)
  · rintro hle b c i ⟨hb₁, hb₂⟩ ⟨hc₁, hc₂⟩
    rcases Nat.lt_trichotomy b c with h | h | h
    · have := end_le_start hn hle h
      omega
    · exact h
    · have := end_le_start hn hle h
      omega
  · refine max_of_outputs (by omega) (fun x hx => ?_) fun s hs => ?_
    · obtain ⟨b, hb⟩ := List.getElem?_of_mem hx
      have hbn : b < n := by
        have := (List.getElem?_eq_some_iff.mp hb).1
        omega
      obtain ⟨i, s, hi, hs, hout, -⟩ := extractPeaks_bucket hch hf hbn
      cases hb.symm.trans hout
      exact ⟨s, mem_channel0.mpr ⟨i, Nat.lt_of_lt_of_le hi.2 bucketEnd_le, hs⟩, rfl⟩
    · -- a sample is not louder than the output of its bucket
      obtain ⟨i, hin, hs⟩ := mem_channel0.mp hs
      obtain ⟨b, hb, hi⟩ := mem_bucket hin hn
      obtain ⟨-, t, -, -, hout, hall⟩ := extractPeaks_bucket hch hf hb
      exact ⟨_, List.mem_of_getElem? hout, hall i s hi hs⟩

/-- Two channels, three frames and two buckets; the second channel does not count. -/
theorem peaks_lossless_three : ∃ m, (extractPeaks [1, 9, -5, 9, 2, 9] 2 2).max? = some m ∧
    ((channel0 [1, 9, -5, 9, 2, 9] 2).map loudness).max? = some m :=
  (peaks_lossless [1, 9, -5, 9, 2, 9] 2 2 (by decide) (by decide) (by decide)).2.2.2.2.2

end Music3
