import Music3.Page.Buckets
import Music3.Page.Waveform

/-!
# The columns in doubles

The bars of `drawWaveform` as the page runs it: `x / w` and its product with the number of peaks are
rounded to doubles. A peak has at most 16 bits, and so the height of a bar and its place are exact on
a canvas of less than `2 ^ 32` pixels.

* `columnStart64_cases`: a border is the exact one, or one less where that is a whole number; the last
  one is exact.
* `waveform_in_doubles`: so every peak is drawn, and with it every frame that has a bucket.
-/

namespace Music3

open Rounding

/-- `Math.floor((x / w) * peaks.length)`. -/
def columnStart64 (n w x : Nat) : Nat := ⌊roundRat 52 (roundRat 52 (x / w) * n)⌋₊

/-- The end of the column `x`. -/
def columnEnd64 (n w x : Nat) : Nat :=
  min (max (columnStart64 n w x + 1) (columnStart64 n w (x + 1))) n

/-- The peak of the column `x` of `w`. -/
def columnPeak64 (peaks : List ℚ) (w x : Nat) : ℚ :=
  let b0 := columnStart64 peaks.length w x
  (List.range' b0 (columnEnd64 peaks.length w x - b0)).foldl (higher peaks) 0

/-- The bar of the column `x`, around the middle of the canvas. -/
def barOf64 (peaks : List ℚ) (w h x : Nat) : Rect :=
  let mid : ℚ := h / 2
  let barH := max 1 (columnPeak64 peaks w x * (h - 2))
  ⟨x, mid - barH / 2, 1, barH⟩

/-- The bars of `drawWaveform`, on a canvas of `w` by `h`. -/
def bars64 (peaks : List ℚ) (w h : Nat) : List Rect :=
  if peaks = [] then [] else (List.range w).map (barOf64 peaks w h)

/-! ## The borders -/

section
variable {n w x b : Nat}

/-- A border is the exact one, or one less where that is a whole number. -/
theorem columnStart64_cases (hw : 0 < w) (hx : x ≤ w) (hsmall : n * w < 2 ^ 51) :
    columnStart64 n w x = bucketStart n w x ∨
      w ∣ x * n ∧ columnStart64 n w x + 1 = bucketStart n w x := by
  have hle : x * n ≤ n * w := by
    rw [Nat.mul_comm n]
    exact Nat.mul_le_mul_right n hx
  unfold columnStart64
  rw [bucketStart_eq, mul_comm (roundRat 52 _)]
  refine floor_roundRat_mul (by positivity) (by positivity) hw ?_ (by omega)
  push_cast
  ring

theorem columnStart64_le (hw : 0 < w) (hx : x ≤ w) (hsmall : n * w < 2 ^ 51) :
    columnStart64 n w x ≤ bucketStart n w x := by
  obtain h | ⟨-, h⟩ := columnStart64_cases hw hx hsmall <;> omega

/-- The last border is not rounded. -/
theorem columnStart64_last (hw : 0 < w) (hsmall : n * w < 2 ^ 51) : columnStart64 n w w = n := by
  have hlt : n < 2 ^ 51 := (Nat.le_mul_of_pos_right n hw).trans_lt hsmall
  rw [columnStart64, div_self (Nat.cast_ne_zero.mpr hw.ne'), roundRat_one, one_mul,
    roundRat_of_lt (by omega), Nat.floor_natCast]

theorem column_lt (hn : 0 < n) (hx : x < w) (hsmall : n * w < 2 ^ 51) :
    columnStart64 n w x < columnEnd64 n w x := by
  have h₁ := columnStart64_le (Nat.zero_lt_of_lt hx) hx.le hsmall
  have h₂ := bucketStart_lt hn hx
  unfold columnEnd64
  omega

/-- Every peak has a column. -/
theorem mem_column (hb : b < n) (hw : 0 < w) (hsmall : n * w < 2 ^ 51) :
    ∃ x < w, columnStart64 n w x ≤ b ∧ b < columnEnd64 n w x := by
  have hlast : b < columnStart64 n w w := (columnStart64_last hw hsmall).symm ▸ hb
  obtain ⟨x, hx, hstart, hstop⟩ := between_borders (by simp [columnStart64]) hlast
  refine ⟨x, hx, hstart, ?_⟩
  unfold columnEnd64
  omega

end

/-! ## The result -/

theorem extractPeaks64_nonneg {samples : List Int16} {ch n : Nat} {q : ℚ}
    (hq : q ∈ extractPeaks64 samples ch n) : 0 ≤ q := by
  unfold extractPeaks64 at hq
  generalize (if 0 < ch then ch else 1) = c at hq
  simp only [] at hq
  split at hq
  · exact (List.eq_of_mem_replicate hq).ge
  · obtain ⟨b, -, rfl⟩ := List.mem_map.mp hq
    positivity

/-- In doubles, each column is as high as a frame is loud, and every frame that has a bucket has a
column that is at least as high as it is loud: all of them, if the last one counts. -/
theorem waveform_in_doubles (samples : List Int16) (ch n w h : Nat) (hch : 0 < ch) (hn : 0 < n)
    (hw : 0 < w) (hframes : samples.length / ch * n < 2 ^ 51) (hpeaks : n * w < 2 ^ 51) :
    (bars64 (extractPeaks64 samples ch n) w h).map Rect.x =
      (List.range w).map (Nat.cast : Nat → ℚ) ∧
    (∀ i < samples.length / ch,
      i + 1 < samples.length / ch ∨ LastHeard (samples.length / ch) n →
      ∀ s, samples[i * ch]? = some s → ∃ bar ∈ bars64 (extractPeaks64 samples ch n) w h,
        loudness s * (h - 2) ≤ bar.height) ∧
    (0 < samples.length / ch → ∀ bar ∈ bars64 (extractPeaks64 samples ch n) w h,
      ∃ i < samples.length / ch, ∃ s, samples[i * ch]? = some s ∧
        bar.height = max 1 (loudness s * (h - 2))) := by
  have hlen := length_extractPeaks64 samples ch n
  have hne : extractPeaks64 samples ch n ≠ [] := by
    intro e
    rw [e] at hlen
    exact hn.ne hlen
  rw [bars64, if_neg hne]
  have hspec {c : Nat} (hc : c < w) := higher_spec (extractPeaks64 samples ch n)
    (column_lt hn hc hpeaks) (by rw [hlen]; exact Nat.min_le_right ..)
    fun _ => extractPeaks64_nonneg
  have hcolumn (c : Nat) : columnPeak64 (extractPeaks64 samples ch n) w c =
      (List.range' (columnStart64 n w c) (columnEnd64 n w c - columnStart64 n w c)).foldl
        (higher (extractPeaks64 samples ch n)) 0 := by
    unfold columnPeak64
    rw [hlen]
  refine ⟨?_, fun i hi hcounts s hs => ?_, fun hf bar hbar => ?_⟩
  · rw [List.map_map]
    rfl
  · -- the frame is in a bucket, and the peak of the bucket in a column
    have hf : 0 < samples.length / ch := Nat.zero_lt_of_lt hi
    obtain ⟨b, hb, hib⟩ := bucket64_of_heard hn hi hcounts hframes
    obtain ⟨c, hc, hcb⟩ := mem_column hb hw hpeaks
    obtain ⟨j, u, -, -, hpeak, hmax⟩ := extractPeaks64_bucket hch hf hb hframes
    have hloud : loudness s ≤ columnPeak64 (extractPeaks64 samples ch n) w c := by
      rw [hcolumn]
      exact (hmax i s hib hs).trans ((hspec hc).2 b _ hcb hpeak)
    refine ⟨_, List.mem_map_of_mem (List.mem_range.mpr hc), ?_⟩
    show loudness s * (h - 2) ≤ max 1 (columnPeak64 (extractPeaks64 samples ch n) w c * (h - 2))
    obtain hneg | hpos := le_total ((h : ℚ) - 2) 0
    · have := mul_nonpos_of_nonneg_of_nonpos (loudness_unit s).1 hneg
      exact le_max_of_le_left (by linarith)
    · exact le_max_of_le_right (mul_le_mul_of_nonneg_right hloud hpos)
  · -- the peak of the column is that of a bucket, and that one the loudness of a frame
    obtain ⟨c, hc, rfl⟩ := List.mem_map.mp hbar
    rw [List.mem_range] at hc
    obtain ⟨b, hcb, hpeak⟩ := (hspec hc).1
    have hb : b < n := Nat.lt_of_lt_of_le hcb.2 (Nat.min_le_right ..)
    obtain ⟨i, u, hib, hu, hpeak', -⟩ := extractPeaks64_bucket hch hf hb hframes
    refine ⟨i, Nat.lt_of_lt_of_le hib.2 bucketEnd64_le, u, hu, ?_⟩
    rw [barOf64, hcolumn, Option.some.inj (hpeak.symm.trans hpeak')]

/-- Three frames, two peaks and 300 columns. -/
theorem waveform_in_doubles_three : ∃ bar ∈ bars64 (extractPeaks64 [1, -2, 3] 1 2) 300 64,
    loudness 3 * ((64 : Nat) - 2) ≤ bar.height := by
  have hlast : LastHeard ([1, -2, 3].length / 1) 2 := by
    unfold LastHeard
    decide +kernel
  exact (waveform_in_doubles [1, -2, 3] 1 2 300 64 (by decide) (by decide) (by decide) (by decide)
    (by decide)).2.1 2 (by decide) (.inr hlast) 3 rfl

end Music3
