import Music3.Lib.RoundRat
import Music3.Page.Peaks

/-!
# The buckets in doubles

`extractPeaks` as the page runs it: `frames / out.length` and the product with `b` are rounded to
doubles. The numbers in between are whole numbers below `2 ^ 53`, which doubles hold, and no quotient
here is so small or so large that the exponent of a double does not hold it.

* `bucketStart64_cases`: a border is the exact one, or one less where that is a whole number.
* `peaks_in_doubles`: so every frame but perhaps the last is in a bucket, and `LastHeard` says when
  the last one is.
-/

namespace Music3

open Rounding

/-- `Math.floor(b * per)`. -/
def bucketStart64 (frames n b : Nat) : Nat := ⌊roundRat 52 (b * roundRat 52 (frames / n))⌋₊

/-- The end of the bucket `b`. -/
def bucketEnd64 (frames n b : Nat) : Nat :=
  min frames (max (bucketStart64 frames n b + 1) (bucketStart64 frames n (b + 1)))

/-- `extractPeaks`, in doubles. -/
def extractPeaks64 (samples : List Int16) (channels buckets : Nat) : List ℚ :=
  let ch := if 0 < channels then channels else 1
  let frames := samples.length / ch
  if frames = 0 then List.replicate buckets 0
  else (List.range buckets).map fun b =>
    (bucketPeak samples ch (bucketStart64 frames buckets b) (bucketEnd64 frames buckets b) : ℚ) /
      int16Scale

/-! ## The borders -/

section
variable {frames n b c i : Nat}

/-- A border is the exact one, or one less where that is a whole number. -/
theorem bucketStart64_cases (hn : 0 < n) (hb : b ≤ n) (hsmall : frames * n < 2 ^ 51) :
    bucketStart64 frames n b = bucketStart frames n b ∨
      n ∣ b * frames ∧ bucketStart64 frames n b + 1 = bucketStart frames n b := by
  have hle : b * frames ≤ frames * n := by
    rw [Nat.mul_comm frames]
    exact Nat.mul_le_mul_right frames hb
  rw [bucketStart_eq]
  refine floor_roundRat_mul (by positivity) (by positivity) hn ?_ (by omega)
  push_cast
  ring

theorem bucketStart64_le (hn : 0 < n) (hb : b ≤ n) (hsmall : frames * n < 2 ^ 51) :
    bucketStart64 frames n b ≤ bucketStart frames n b := by
  obtain h | ⟨-, h⟩ := bucketStart64_cases hn hb hsmall <;> omega

@[simp] theorem bucketStart64_zero (frames n : Nat) : bucketStart64 frames n 0 = 0 := by
  simp [bucketStart64]

/-- All frames but perhaps the last are before the last border. -/
theorem le_bucketStart64 (hn : 0 < n) (hsmall : frames * n < 2 ^ 51) :
    frames ≤ bucketStart64 frames n n + 1 := by
  have hlast := bucketStart_last frames hn
  obtain h | ⟨-, h⟩ := bucketStart64_cases hn le_rfl hsmall <;> omega

/-- With as many frames as buckets nothing is rounded. -/
theorem bucketStart64_self (hn : 0 < n) (hb : b ≤ n) (hsmall : n * n < 2 ^ 51) :
    bucketStart64 n n b = b := by
  have hlt : n < 2 ^ 51 := (Nat.le_mul_self n).trans_lt hsmall
  rw [bucketStart64, div_self (Nat.cast_ne_zero.mpr hn.ne'), roundRat_one, mul_one,
    roundRat_of_lt (by omega), Nat.floor_natCast]

/-- With no more frames than buckets, the last bucket starts with the last frame. -/
theorem bucketStart64_pred (hf : 0 < frames) (hle : frames ≤ n) (hsmall : frames * n < 2 ^ 51) :
    bucketStart64 frames n (n - 1) = frames - 1 := by
  have hn : 0 < n := hf.trans_le hle
  rcases hle.eq_or_lt with rfl | hlt
  · exact bucketStart64_self hn (by omega) hsmall
  · have hexact : (n - 1) * frames = (frames - 1) * n + (n - frames) := by
      zify [hn, hf, hle]
      ring
    have hdiv : bucketStart frames n (n - 1) = frames - 1 := by
      rw [bucketStart_eq, hexact, Nat.add_comm, Nat.add_mul_div_right _ _ hn,
        Nat.div_eq_of_lt (by omega), Nat.zero_add]
    refine (bucketStart64_cases hn (by omega) hsmall).elim (·.trans hdiv) fun ⟨hdvd, _⟩ => ?_
    rw [hexact, Nat.dvd_add_right (Nat.dvd_mul_left n _)] at hdvd
    exact absurd (Nat.le_of_dvd (by omega) hdvd) (by omega)

/-- With more frames than buckets, a border is after the exact borders before it. -/
theorem bucketStart_lt_bucketStart64 (hn : 0 < n) (hlt : n < frames) (h : b < c) (hc : c ≤ n)
    (hsmall : frames * n < 2 ^ 51) : bucketStart frames n b < bucketStart64 frames n c := by
  have hstep : b * frames + frames ≤ c * frames := by
    rw [← Nat.succ_mul]
    exact Nat.mul_le_mul_right frames h
  rw [bucketStart_eq, Nat.div_lt_iff_lt_mul hn]
  obtain hcases | ⟨hdvd, hcases⟩ := bucketStart64_cases hn hc hsmall <;>
    rw [bucketStart_eq] at hcases
  · have := Nat.lt_div_mul_add (a := c * frames) hn
    rw [hcases]
    omega
  · have := Nat.div_mul_cancel hdvd
    rw [← hcases, Nat.add_mul, Nat.one_mul] at this
    omega

end

/-! ## The buckets -/

/-- The frame `i` is in the bucket `b`. -/
def InBucket64 (frames n b i : Nat) : Prop :=
  bucketStart64 frames n b ≤ i ∧ i < bucketEnd64 frames n b

/-- The last frame counts: there are no more frames than buckets, or the last border is not rounded
down. -/
def LastHeard (frames n : Nat) : Prop := frames ≤ n ∨ bucketStart64 frames n n = frames

section
variable {frames n b c i : Nat}

theorem bucketEnd64_le : bucketEnd64 frames n b ≤ frames := Nat.min_le_left ..

theorem start64_lt_end64 (hn : 0 < n) (hf : 0 < frames) (hb : b < n) (hsmall : frames * n < 2 ^ 51) :
    bucketStart64 frames n b < bucketEnd64 frames n b := by
  have h₁ := bucketStart64_le hn hb.le hsmall
  have h₂ := bucketStart_lt hf hb
  unfold bucketEnd64
  omega

theorem mem_bucket64 (hi : i < frames) (h : i < bucketStart64 frames n n) :
    ∃ b < n, InBucket64 frames n b i := by
  obtain ⟨b, hb, hstart, hstop⟩ := between_borders (bucketStart64_zero frames n) h
  refine ⟨b, hb, hstart, ?_⟩
  unfold bucketEnd64
  omega

/-- The last frame is in a bucket exactly if it counts. -/
theorem lastHeard_iff (hn : 0 < n) (hf : 0 < frames) (hsmall : frames * n < 2 ^ 51) :
    LastHeard frames n ↔ ∃ b < n, InBucket64 frames n b (frames - 1) := by
  constructor
  · rintro (hle | hall)
    · -- the last bucket starts with the last frame
      refine ⟨n - 1, by omega, ?_⟩
      have hstart := bucketStart64_pred hf hle hsmall
      refine ⟨hstart.le, ?_⟩
      unfold bucketEnd64
      omega
    · exact mem_bucket64 (by omega) (by omega)
  · rintro ⟨b, hb, -, hstop⟩
    by_contra hnot
    obtain ⟨hlt, hshort⟩ := not_or.mp hnot
    have hlt : n < frames := by omega
    have hlast := bucketStart64_le hn le_rfl hsmall
    rw [bucketStart_last frames hn] at hlast
    have hle {c : Nat} (hc : c ≤ n) : bucketStart64 frames n c < frames := by
      rcases hc.eq_or_lt with rfl | hc
      · omega
      · exact (bucketStart64_le hn hc.le hsmall).trans_lt (bucketStart_lt hf hc)
    have h₁ := bucketStart64_le hn hb.le hsmall
    have h₂ := bucketStart_lt_bucketStart64 hn hlt hb le_rfl hsmall
    have h₃ := hle (c := b + 1) hb
    have h₄ := hle (c := n) le_rfl
    unfold bucketEnd64 at hstop
    omega

/-- A frame that counts has a bucket. -/
theorem bucket64_of_heard (hn : 0 < n) (hi : i < frames)
    (h : i + 1 < frames ∨ LastHeard frames n) (hsmall : frames * n < 2 ^ 51) :
    ∃ b < n, InBucket64 frames n b i := by
  by_cases hi' : i + 1 < frames
  · exact mem_bucket64 hi (by have := le_bucketStart64 hn hsmall; omega)
  · obtain rfl : i = frames - 1 := by omega
    exact (lastHeard_iff hn (by omega) hsmall).mp (h.resolve_left hi')

theorem end64_le_start64 (hn : 0 < n) (hle : n ≤ frames) (h : b < c) (hc : c < n)
    (hsmall : frames * n < 2 ^ 51) : bucketEnd64 frames n b ≤ bucketStart64 frames n c := by
  unfold bucketEnd64
  rcases hle.eq_or_lt with rfl | hlt
  · rw [bucketStart64_self hn (by omega) hsmall, bucketStart64_self hn (by omega) hsmall,
      bucketStart64_self hn hc.le hsmall]
    omega
  · have h₁ := bucketStart64_le hn (show b ≤ n by omega) hsmall
    have h₂ := bucketStart_lt_bucketStart64 hn hlt h hc.le hsmall
    have h₃ : bucketStart64 frames n (b + 1) ≤ bucketStart64 frames n c := by
      rcases (show b + 1 ≤ c from h).eq_or_lt with rfl | hnext
      · exact le_rfl
      · exact (bucketStart64_le hn (by omega) hsmall).trans
          (bucketStart_lt_bucketStart64 hn hlt hnext hc.le hsmall).le
    omega

end

/-! ## The result -/

section
variable {samples : List Int16} {ch n : Nat}

theorem length_extractPeaks64 (samples : List Int16) (channels buckets : Nat) :
    (extractPeaks64 samples channels buckets).length = buckets := by
  simp only [extractPeaks64, apply_ite List.length, List.length_replicate, List.length_map,
    List.length_range, ite_self]

/-- The output of a bucket is the greatest loudness in it. -/
theorem extractPeaks64_bucket (hch : 0 < ch) (hf : 0 < samples.length / ch) {b : Nat} (hb : b < n)
    (hsmall : samples.length / ch * n < 2 ^ 51) :
    ∃ i s, InBucket64 (samples.length / ch) n b i ∧ samples[i * ch]? = some s ∧
      (extractPeaks64 samples ch n)[b]? = some (loudness s) ∧
      ∀ j t, InBucket64 (samples.length / ch) n b j → samples[j * ch]? = some t →
        loudness t ≤ loudness s := by
  obtain ⟨⟨i, h₁, h₂, s, hs, hpeak⟩, hall⟩ := bucketPeak_spec hch
    (start64_lt_end64 (Nat.zero_lt_of_lt hb) hf hb hsmall) bucketEnd64_le
  refine ⟨i, s, ⟨h₁, h₂⟩, hs, ?_, fun j t hj ht => ?_⟩
  · have hne : samples.length / ch ≠ 0 := by omega
    simp only [extractPeaks64, if_pos hch, if_neg hne, List.getElem?_map, List.getElem?_range hb,
      Option.map_some, hpeak]
    rfl
  · have := hall j t hj.1 hj.2 ht
    exact loudness_le (by omega)

/-- Each output is the loudness of a sample of the channel, in a bucket. -/
theorem mem_extractPeaks64 (hch : 0 < ch) (hf : 0 < samples.length / ch)
    (hsmall : samples.length / ch * n < 2 ^ 51) {x : ℚ} (hx : x ∈ extractPeaks64 samples ch n) :
    ∃ b < n, ∃ i < samples.length / ch, ∃ s, InBucket64 (samples.length / ch) n b i ∧
      samples[i * ch]? = some s ∧ x = loudness s := by
  obtain ⟨b, hb⟩ := List.getElem?_of_mem hx
  have hbn : b < n := by
    have := (List.getElem?_eq_some_iff.mp hb).1
    rwa [length_extractPeaks64] at this
  obtain ⟨i, s, hi, hs, hout, -⟩ := extractPeaks64_bucket hch hf hbn hsmall
  cases hb.symm.trans hout
  exact ⟨b, hbn, i, Nat.lt_of_lt_of_le hi.2 bucketEnd64_le, s, hi, hs, rfl⟩

/-- If the last frame counts, the greatest output is the greatest loudness. -/
theorem max_of_lastHeard (hch : 0 < ch) (hn : 0 < n) (hf : 0 < samples.length / ch)
    (hsmall : samples.length / ch * n < 2 ^ 51) (h : LastHeard (samples.length / ch) n) :
    ∃ m, (extractPeaks64 samples ch n).max? = some m ∧
      ((channel0 samples ch).map loudness).max? = some m := by
  refine max_of_outputs (by rwa [length_extractPeaks64]) (fun x hx => ?_) fun s hs => ?_
  · obtain ⟨b, -, i, hi, s, -, hs, rfl⟩ := mem_extractPeaks64 hch hf hsmall hx
    exact ⟨s, mem_channel0.mpr ⟨i, hi, hs⟩, rfl⟩
  · obtain ⟨i, hi, hs⟩ := mem_channel0.mp hs
    obtain ⟨b, hb, hib⟩ := bucket64_of_heard hn hi (.inr h) hsmall
    obtain ⟨-, t, -, -, hout, hall⟩ := extractPeaks64_bucket hch hf hb hsmall
    exact ⟨_, List.mem_of_getElem? hout, hall i s hib hs⟩

/-- A loud last frame after silence. -/
def lastLoud (frames ch : Nat) : List Int16 :=
  List.replicate ((frames - 1) * ch) 0 ++ List.replicate ch 1

theorem lastLoud_frames {frames : Nat} (hch : 0 < ch) (hf : 0 < frames) :
    (lastLoud frames ch).length / ch = frames := by
  rw [lastLoud, List.length_append, List.length_replicate, List.length_replicate, ← Nat.succ_mul,
    Nat.mul_div_cancel _ hch]
  omega

theorem lastLoud_get {frames i : Nat} {s : Int16} (hch : 0 < ch) (hf : 0 < frames)
    (h : (lastLoud frames ch)[i * ch]? = some s) (hi : i < frames) :
    s = if i = frames - 1 then 1 else 0 := by
  unfold lastLoud at h
  split
  · rename_i heq
    subst heq
    rw [List.getElem?_append_right (by simp), List.length_replicate, Nat.sub_self,
      List.getElem?_replicate, if_pos hch] at h
    exact (Option.some.inj h).symm
  · have hlt : i * ch < (frames - 1) * ch := Nat.mul_lt_mul_of_pos_right (by omega) hch
    rw [List.getElem?_append_left (by simpa using hlt), List.getElem?_replicate, if_pos hlt] at h
    exact (Option.some.inj h).symm

/-- If the last frame does not count, a loud one is lost. -/
theorem lastLoud_lost {frames : Nat} (hch : 0 < ch) (hn : 0 < n) (hf : 0 < frames)
    (hsmall : frames * n < 2 ^ 51) (h : ¬ LastHeard frames n) :
    ¬ ∃ m, (extractPeaks64 (lastLoud frames ch) ch n).max? = some m ∧
      ((channel0 (lastLoud frames ch) ch).map loudness).max? = some m := by
  rintro ⟨m, hm, hmax⟩
  have hlen := lastLoud_frames hch hf
  obtain ⟨hmem, -⟩ := List.max?_eq_some_iff.mp hm
  obtain ⟨b, hb, i, hi, s, hib, hs, rfl⟩ :=
    mem_extractPeaks64 hch (by rwa [hlen]) (by rwa [hlen]) hmem
  rw [hlen] at hi hib
  have hne : i ≠ frames - 1 := by
    rintro rfl
    exact h ((lastHeard_iff hn hf hsmall).mpr ⟨b, hb, hib⟩)
  rw [lastLoud_get hch hf hs hi, if_neg hne] at hmax
  obtain ⟨t, ht⟩ : ∃ t, (lastLoud frames ch)[(frames - 1) * ch]? = some t :=
    ⟨_, List.getElem?_eq_getElem (frame_lt hch (by omega))⟩
  have hle := (List.max?_eq_some_iff.mp hmax).2 _
    (List.mem_map_of_mem (mem_channel0.mpr ⟨frames - 1, by omega, ht⟩))
  rw [lastLoud_get hch hf ht (by omega), if_pos rfl] at hle
  have hloud : loudness 0 < loudness 1 :=
    div_lt_div_of_pos_right (Nat.cast_lt.mpr (show magnitude 0 < magnitude 1 by decide))
      (by decide)
  exact absurd hle hloud.not_ge

end

/-- In doubles, every bucket has its loudest sample as output, no two have a frame in common, and
every frame but perhaps the last is in one. Nothing can be lost exactly if the last one counts. -/
theorem peaks_in_doubles (ch n frames : Nat) (hch : 1 ≤ ch) (hn : 1 ≤ n) (hf : 1 ≤ frames)
    (hsmall : frames * n < 2 ^ 51) :
    (∀ samples : List Int16, samples.length / ch = frames →
      (extractPeaks64 samples ch n).length = n ∧
      ∀ b < n, ∃ i s, InBucket64 frames n b i ∧ samples[i * ch]? = some s ∧
        (extractPeaks64 samples ch n)[b]? = some (loudness s) ∧
        ∀ j t, InBucket64 frames n b j → samples[j * ch]? = some t → loudness t ≤ loudness s) ∧
    (∀ b < n, ∀ i, InBucket64 frames n b i → i < frames) ∧
    (n ≤ frames → ∀ b < n, ∀ c < n, ∀ i, InBucket64 frames n b i → InBucket64 frames n c i →
      b = c) ∧
    (∀ i, i + 1 < frames → ∃ b < n, InBucket64 frames n b i) ∧
    (LastHeard frames n ↔ ∃ b < n, InBucket64 frames n b (frames - 1)) ∧
    (LastHeard frames n ↔ ∀ samples : List Int16, samples.length / ch = frames →
      ∃ m, (extractPeaks64 samples ch n).max? = some m ∧
        ((channel0 samples ch).map loudness).max? = some m) := by
  refine ⟨fun samples hlen => ⟨length_extractPeaks64 samples ch n, fun b hb => ?_⟩,
    fun b _ i hi => Nat.lt_of_lt_of_le hi.2 bucketEnd64_le, fun hle b hb c hc i h₁ h₂ => ?_,
    fun i hi => bucket64_of_heard hn (by omega) (.inl hi) hsmall, lastHeard_iff hn hf hsmall,
    fun h samples hlen => ?_, fun h => ?_⟩
  · subst hlen
    exact extractPeaks64_bucket hch hf hb hsmall
  · have hbc {b c : Nat} (hlt : b < c) (hc : c < n) (hb : InBucket64 frames n b i)
        (hic : InBucket64 frames n c i) : False := by
      have := end64_le_start64 hn hle hlt hc hsmall
      have := hb.2
      have := hic.1
      omega
    rcases Nat.lt_trichotomy b c with hlt | heq | hlt
    · exact (hbc hlt hc h₁ h₂).elim
    · exact heq
    · exact (hbc hlt hb h₂ h₁).elim
  · subst hlen
    exact max_of_lastHeard hch hn hf hsmall h
  · by_contra hnot
    exact lastLoud_lost hch hn hf hsmall hnot (h _ (lastLoud_frames hch hf))

/-- The last of 1001 frames is in none of 1000 buckets, the last of 48000 is in one. -/
theorem peaks_in_doubles_thousand : (¬ ∃ b < 1000, InBucket64 1001 1000 b 1000) ∧
    ∃ b < 1000, InBucket64 48000 1000 b 47999 := by
  have hlost := (peaks_in_doubles 1 1000 1001 (by decide) (by decide) (by decide)
    (by decide)).2.2.2.2.1
  have hheard := (peaks_in_doubles 1 1000 48000 (by decide) (by decide) (by decide)
    (by decide)).2.2.2.2.1
  refine ⟨mt hlost.mpr ?_, hheard.mp (.inr ?_)⟩
  · unfold LastHeard
    decide +kernel
  · decide +kernel

end Music3
