import Mathlib.Tactic.FieldSimp
import Mathlib.Tactic.Linarith
import Mathlib.Tactic.Positivity
import Mathlib.Tactic.Ring
import Music3.Page.Player

/-!
# The waveform

`drawWaveform`, the playhead and the seeks, in exact arithmetic: the peaks of the loaded artifact are
gathered into columns of the canvas as `extractPeaks` gathers frames into peaks, and a position on
the canvas is a time of the track. `Music3.Page.Columns` has the columns in doubles.

`waveform_seeks`: what is seen is what is heard. Each frame has a column that is at least as high as
the frame is loud, each column is as high as one of its frames is loud, and a click on a column goes to
its frames, up to the width of a column and the length of a peak and a frame. The playhead is where
the click was.
-/

namespace Music3

open Py

/-! ## Times and positions -/

/-- `playheadX`. The duration is `none` before the metadata are loaded. -/
def playheadX (currentTime : ℚ) (duration : Option ℚ) (width : ℚ) : ℚ :=
  match duration with
  | some d => if 0 < d ∧ 0 < width then min 1 (max 0 (currentTime / d)) * width else 0
  | none => 0

/-- `seekTimeForX`. -/
def seekTimeForX (x width : ℚ) (duration : Option ℚ) : ℚ :=
  match duration with
  | some d => if 0 < width ∧ 0 < d then min 1 (max 0 (x / width)) * d else 0
  | none => 0

/-! ## The drawing -/

/-- `fillRect`. -/
structure Rect where
  x : ℚ
  y : ℚ
  width : ℚ
  height : ℚ

/-- One pass of the inner loop. -/
def higher (peaks : List ℚ) (p : ℚ) (b : Nat) : ℚ :=
  match peaks[b]? with
  | some q => if p < q then q else p
  | none => p

/-- The peak of the column `x` of `w`. -/
def columnPeak (peaks : List ℚ) (w x : Nat) : ℚ :=
  let b0 := ⌊(x / w : ℚ) * peaks.length⌋₊
  let b1 := max (b0 + 1) ⌊((x + 1) / w : ℚ) * peaks.length⌋₊
  (List.range' b0 (min b1 peaks.length - b0)).foldl (higher peaks) 0

/-- The bar of the column `x`, around the middle of the canvas. -/
def barOf (peaks : List ℚ) (w h x : Nat) : Rect :=
  let mid : ℚ := h / 2
  let barH := max 1 (columnPeak peaks w x * (h - 2))
  ⟨x, mid - barH / 2, 1, barH⟩

/-- What is drawn on the canvas, and its `data-playhead-x`. -/
structure Drawing where
  bars : List Rect
  playhead : Option Rect
  playheadX : Str

/-- `drawWaveform`, on a canvas of `w` by `h`. -/
def drawWaveform (peaks : Option (List ℚ)) (w h : Nat) (currentTime : ℚ) (duration : Option ℚ) :
    Drawing :=
  let x := playheadX currentTime duration w
  { bars := match peaks with
      | some peaks => if peaks = [] then [] else (List.range w).map (barOf peaks w h)
      | none => []
    playhead := match duration with
      | some d => if 0 < d then some ⟨min (w - 2) (max 0 (x - 1)), 0, 2, h⟩ else none
      | none => none
    playheadX := natText ⌊x + 1 / 2⌋.toNat }

/-! ## Columns -/

section
variable {peaks : List ℚ} {w n b c i : Nat}

theorem foldl_higher (peaks : List ℚ) (bs : List Nat) (p : ℚ) :
    (bs.foldl (higher peaks) p = p ∨
      ∃ b ∈ bs, peaks[b]? = some (bs.foldl (higher peaks) p)) ∧
    p ≤ bs.foldl (higher peaks) p ∧
    ∀ b ∈ bs, ∀ q, peaks[b]? = some q → q ≤ bs.foldl (higher peaks) p := by
  induction bs generalizing p with
  | nil => exact ⟨.inl rfl, le_rfl, fun b hb => nomatch hb⟩
  | cons b bs ih =>
    obtain ⟨hval, hle, hall⟩ := ih (higher peaks p b)
    have hstep : p ≤ higher peaks p b ∧ (∀ q, peaks[b]? = some q → q ≤ higher peaks p b) ∧
        (higher peaks p b = p ∨ peaks[b]? = some (higher peaks p b)) := by
      unfold higher
      split
      · rename_i q hq
        rw [hq]
        by_cases hlt : p < q
        · simp [hlt, hlt.le]
        · simp [hlt, not_lt.mp hlt]
      · simp_all
    obtain ⟨hp, hq, hor⟩ := hstep
    rw [List.foldl_cons]
    refine ⟨?_, hp.trans hle, fun j hj q hjq => ?_⟩
    · obtain hval | ⟨j, hj, hval⟩ := hval
      · rw [hval]
        exact hor.imp_right fun h => ⟨b, List.mem_cons_self, h⟩
      · exact .inr ⟨j, List.mem_cons_of_mem b hj, hval⟩
    · obtain rfl | hj := List.mem_cons.mp hj
      · exact (hq q hjq).trans hle
      · exact hall j hj q hjq

/-- The columns gather the peaks as buckets gather frames. -/
theorem columnPeak_eq (peaks : List ℚ) (w x : Nat) : columnPeak peaks w x =
    (List.range' (bucketStart peaks.length w x)
      (bucketEnd peaks.length w x - bucketStart peaks.length w x)).foldl (higher peaks) 0 := by
  have hstart (x : ℚ) : x / w * peaks.length = x * (peaks.length / w) := by ring
  have hb : ⌊((x : ℚ) + 1) / w * peaks.length⌋₊ = bucketStart peaks.length w (x + 1) := by
    rw [bucketStart, hstart, Nat.cast_succ]
  unfold columnPeak
  simp only [hb]
  rw [hstart, ← bucketStart, bucketEnd, min_comm]

/-- The peak of some peaks is the greatest of them. -/
theorem higher_spec {start stop : Nat} (peaks : List ℚ) (hlt : start < stop)
    (hle : stop ≤ peaks.length) (hpos : ∀ q ∈ peaks, 0 ≤ q) :
    (∃ b, (start ≤ b ∧ b < stop) ∧
      peaks[b]? = some ((List.range' start (stop - start)).foldl (higher peaks) 0)) ∧
    ∀ b q, start ≤ b ∧ b < stop → peaks[b]? = some q →
      q ≤ (List.range' start (stop - start)).foldl (higher peaks) 0 := by
  have hmem {b : Nat} : b ∈ List.range' start (stop - start) ↔ start ≤ b ∧ b < stop := by
    rw [List.mem_range'_1]
    omega
  obtain ⟨hval, -, hall⟩ := foldl_higher peaks (List.range' start (stop - start)) 0
  refine ⟨?_, fun b q hb hq => hall b (hmem.mpr hb) q hq⟩
  obtain hzero | ⟨b, hb, hq⟩ := hval
  · -- then the first of them is zero
    have hget := List.getElem?_eq_getElem (Nat.lt_of_lt_of_le hlt hle)
    refine ⟨start, ⟨le_rfl, hlt⟩, ?_⟩
    rw [hget, hzero]
    have hfirst := hall start (hmem.mpr ⟨le_rfl, hlt⟩) _ hget
    rw [hzero] at hfirst
    exact congrArg some (le_antisymm hfirst (hpos _ (List.getElem_mem _)))
  · exact ⟨b, hmem.mp hb, hq⟩

/-- The peak of a column is the greatest of its own. -/
theorem columnPeak_spec (peaks : List ℚ) (hn : 0 < peaks.length) (hc : c < w)
    (hpos : ∀ q ∈ peaks, 0 ≤ q) :
    (∃ b, InBucket peaks.length w c b ∧ peaks[b]? = some (columnPeak peaks w c)) ∧
    ∀ b q, InBucket peaks.length w c b → peaks[b]? = some q → q ≤ columnPeak peaks w c := by
  rw [columnPeak_eq]
  exact higher_spec peaks (start_lt_end hn hc) bucketEnd_le hpos

/-- Where the members of a bucket are. -/
theorem inBucket_between {frames : Nat} (hf : 0 < frames) (hn : 0 < n)
    (h : InBucket frames n b i) :
    (b : ℚ) / n - 1 / frames < i / frames ∧ (i : ℚ) / frames < (b + 1) / n := by
  have hf' : (0 : ℚ) < frames := Nat.cast_pos.mpr hf
  have hn' : (0 : ℚ) < n := Nat.cast_pos.mpr hn
  obtain ⟨hlo, hhi⟩ := h
  have hlower : (b : ℚ) * (frames / n) < i + 1 := by
    have := Nat.lt_floor_add_one ((b : ℚ) * (frames / n))
    have hle : (bucketStart frames n b : ℚ) ≤ i := Nat.cast_le.mpr hlo
    rw [bucketStart] at hle
    linarith
  have hupper : (i : ℚ) < (b + 1) * (frames / n) := by
    have hstep : (0 : ℚ) < frames / n := div_pos hf' hn'
    have hfloor (c : Nat) : (bucketStart frames n c : ℚ) ≤ c * (frames / n) :=
      Nat.floor_le (by positivity)
    have hi : i ≤ bucketStart frames n b ∨ i < bucketStart frames n (b + 1) := by
      unfold bucketEnd at hhi
      omega
    obtain hi | hi := hi
    · have h₁ : (i : ℚ) ≤ bucketStart frames n b := Nat.cast_le.mpr hi
      have h₂ := hfloor b
      linarith
    · have h₁ : (i : ℚ) < bucketStart frames n (b + 1) := Nat.cast_lt.mpr hi
      have h₂ := hfloor (b + 1)
      push_cast at h₂
      linarith
  constructor
  · rw [div_sub_div _ _ hn'.ne' hf'.ne', div_lt_div_iff₀ (by positivity) hf']
    rw [mul_div_assoc', div_lt_iff₀ hn'] at hlower
    nlinarith
  · rw [div_lt_div_iff₀ hf' hn']
    rw [mul_div_assoc', lt_div_iff₀ hn'] at hupper
    linarith

end

/-! ## The result -/

section
variable {samples : List Int16} {ch n w c i : Nat} {dur W x : ℚ}

/-- A click at `x` on the column `c` of a canvas that is `W` wide goes to the frame `i`, but for the
width of the column and the lengths of a peak and a frame. -/
def Near (frames n w : Nat) (W dur : ℚ) (c i : Nat) : Prop :=
  ∀ x, c / w * W ≤ x → x ≤ (c + 1) / w * W →
    |seekTimeForX x W (some dur) - i / frames * dur| < (1 / w + 1 / n + 1 / frames) * dur

/-- The bars are true to the samples of the first channel. -/
structure TrueTo (samples : List Int16) (ch n w h : Nat) (W dur : ℚ) (bars : List Rect) : Prop where
  columns : bars.map Rect.x = (List.range w).map (Nat.cast : Nat → ℚ)
  heard : ∀ i < samples.length / ch, ∀ s, samples[i * ch]? = some s →
    ∃ c bar, bars[c]? = some bar ∧ loudness s * (h - 2) ≤ bar.height ∧
      Near (samples.length / ch) n w W dur c i
  seen : 0 < samples.length / ch → ∀ c bar, bars[c]? = some bar →
    ∃ i < samples.length / ch, ∃ s, samples[i * ch]? = some s ∧
      bar.height = max 1 (loudness s * (h - 2)) ∧ Near (samples.length / ch) n w W dur c i

theorem seekTimeForX_eq (hW : 0 < W) (hdur : 0 < dur) (h₀ : 0 ≤ x) (h₁ : x ≤ W) :
    seekTimeForX x W (some dur) = x / W * dur := by
  have hle : x / W ≤ 1 := (div_le_one hW).mpr h₁
  have hnn : 0 ≤ x / W := div_nonneg h₀ hW.le
  rw [seekTimeForX, if_pos ⟨hW, hdur⟩, max_eq_right hnn, min_eq_right hle]

/-- The playhead is drawn where the click was. -/
theorem playheadX_seek (hW : 0 < W) (hdur : 0 < dur) (hw : 0 < w) (h₀ : 0 ≤ x) (h₁ : x ≤ W) :
    playheadX (seekTimeForX x W (some dur)) (some dur) w = x / W * w := by
  have hle : x / W ≤ 1 := (div_le_one hW).mpr h₁
  have hnn : 0 ≤ x / W := div_nonneg h₀ hW.le
  rw [seekTimeForX_eq hW hdur h₀ h₁, playheadX, if_pos ⟨hdur, Nat.cast_pos.mpr hw⟩,
    mul_div_cancel_right₀ _ hdur.ne', max_eq_right hnn, min_eq_right hle]

/-- A frame of a peak of a column is near it. -/
theorem near_of_buckets {frames b : Nat} (hf : 0 < frames) (hn : 0 < n) (hW : 0 < W)
    (hdur : 0 < dur) (hc : c < w) (hb : InBucket n w c b) (hi : InBucket frames n b i) :
    Near frames n w W dur c i := by
  intro x hlo hhi
  have hw : 0 < w := by omega
  have hw' : (0 : ℚ) < w := Nat.cast_pos.mpr hw
  have hcw : ((c : ℚ) + 1) / w ≤ 1 := by
    rw [div_le_one hw']
    exact_mod_cast hc
  have h₀ : 0 ≤ x := le_trans (by positivity) hlo
  have h₁ : x ≤ W := hhi.trans (by nlinarith)
  obtain ⟨hb₁, hb₂⟩ := inBucket_between hn hw hb
  obtain ⟨hi₁, hi₂⟩ := inBucket_between hf hn hi
  have hx₁ : (c : ℚ) / w ≤ x / W := (le_div_iff₀ hW).mpr hlo
  have hx₂ : x / W ≤ (c + 1) / w := (div_le_iff₀ hW).mpr hhi
  have hf' : (0 : ℚ) < 1 / frames := one_div_pos.mpr (Nat.cast_pos.mpr hf)
  rw [seekTimeForX_eq hW hdur h₀ h₁, ← sub_mul, abs_mul, abs_of_pos hdur]
  refine mul_lt_mul_of_pos_right ?_ hdur
  rw [add_div] at hi₂ hb₂ hx₂
  rw [abs_lt]
  constructor <;> linarith

theorem extractPeaks_channels (samples : List Int16) (channels n : Nat) :
    extractPeaks samples channels n =
      extractPeaks samples (if 0 < channels then channels else 1) n := by
  unfold extractPeaks
  split <;> simp_all

theorem extractPeaks_nonneg {q : ℚ} (hq : q ∈ extractPeaks samples ch n) : 0 ≤ q := by
  unfold extractPeaks at hq
  generalize (if 0 < ch then ch else 1) = c at hq
  simp only [] at hq
  split at hq
  · exact (List.eq_of_mem_replicate hq).ge
  · obtain ⟨b, -, rfl⟩ := List.mem_map.mp hq
    positivity

/-- The columns of the peaks of some frames. -/
theorem drawWaveform_true (hch : 0 < ch) (hn : 0 < n) (hw : 0 < w) (hW : 0 < W) (hdur : 0 < dur) (h : Nat)
    (t : ℚ) (d : Option ℚ) : TrueTo samples ch n w h W dur
      (drawWaveform (some (extractPeaks samples ch n)) w h t d).bars := by
  have hlen := length_extractPeaks samples ch n
  have hne : extractPeaks samples ch n ≠ [] := by
    intro e
    rw [e] at hlen
    exact hn.ne hlen
  have hbars : (drawWaveform (some (extractPeaks samples ch n)) w h t d).bars =
      (List.range w).map (barOf (extractPeaks samples ch n) w h) := by
    simp only [drawWaveform, if_neg hne]
  rw [hbars]
  have hspec {c : Nat} (hc : c < w) := columnPeak_spec (extractPeaks samples ch n)
    (by omega) hc fun _ => extractPeaks_nonneg
  simp only [hlen] at hspec
  refine ⟨?_, fun i hi s hs => ?_, fun hf c bar hbar => ?_⟩
  · rw [List.map_map]
    rfl
  · -- the frame is in a bucket, and the peak of the bucket in a column
    have hf : 0 < samples.length / ch := Nat.zero_lt_of_lt hi
    obtain ⟨b, hb, hib⟩ := mem_bucket hi hn
    obtain ⟨c, hc, hcb⟩ := mem_bucket hb hw
    obtain ⟨j, u, -, -, hpeak, hmax⟩ := extractPeaks_bucket hch hf hb
    have hloud : loudness s ≤ columnPeak (extractPeaks samples ch n) w c :=
      (hmax i s hib hs).trans ((hspec hc).2 b _ hcb hpeak)
    refine ⟨c, barOf (extractPeaks samples ch n) w h c, ?_, ?_,
      near_of_buckets hf hn hW hdur hc hcb hib⟩
    · rw [List.getElem?_map, List.getElem?_range hc, Option.map_some]
    · show loudness s * (h - 2) ≤ max 1 (columnPeak (extractPeaks samples ch n) w c * (h - 2))
      obtain hneg | hpos := le_total ((h : ℚ) - 2) 0
      · have := mul_nonpos_of_nonneg_of_nonpos (loudness_unit s).1 hneg
        exact le_max_of_le_left (by linarith)
      · exact le_max_of_le_right (mul_le_mul_of_nonneg_right hloud hpos)
  · -- the peak of the column is that of a bucket, and that one the loudness of a frame
    rw [List.getElem?_map] at hbar
    obtain ⟨c', hc', rfl⟩ := Option.map_eq_some_iff.mp hbar
    obtain ⟨hc, rfl⟩ : c < w ∧ c' = c := by
      obtain ⟨hlt, he⟩ := List.getElem?_eq_some_iff.mp hc'
      rw [List.getElem_range] at he
      rw [List.length_range] at hlt
      exact ⟨hlt, he.symm⟩
    obtain ⟨b, hcb, hpeak⟩ := (hspec hc).1
    have hb : b < n := Nat.lt_of_lt_of_le hcb.2 bucketEnd_le
    obtain ⟨i, u, hib, hu, hpeak', -⟩ := extractPeaks_bucket hch hf hb
    refine ⟨i, Nat.lt_of_lt_of_le hib.2 bucketEnd_le, u, hu, ?_,
      near_of_buckets hf hn hW hdur hc hcb hib⟩
    rw [barOf, Option.some.inj (hpeak.symm.trans hpeak')]

end

/-- The frames that the peaks are taken of: those of the first channel. -/
def WavPcm.channelCount (p : WavPcm) : Nat := if 0 < p.channels then p.channels else 1

/-- The waveform of the loaded artifact is true to its bytes, and a click on it moves the playhead
there. -/
theorem waveform_seeks {library : JobId → Artifact} {s : Player}
    (hr : (player library).Reach Lts.always s) (hpeaks : s.peaks.isSome = true) (w h : Nat)
    (hw : 0 < w) (t dur W : ℚ) (hW : 0 < W) (hdur : 0 < dur) :
    ∃ id p, s.jobId = some id ∧ parseWavPcm (library id).audio = .ok (some p) ∧
      TrueTo p.samples.values p.channelCount peakBuckets w h W dur
        (drawWaveform s.peaks w h t (some dur)).bars ∧
      ∀ x, 0 ≤ x → x ≤ W → ∃ rect,
        (drawWaveform s.peaks w h (seekTimeForX x W (some dur)) (some dur)).playhead = some rect ∧
        rect.x ≤ x / W * w ∧ x / W * w ≤ rect.x + rect.width := by
  obtain ⟨peaks, hpeaks⟩ := Option.isSome_iff_exists.mp hpeaks
  obtain hs | ⟨id, hp⟩ := (one_artifact hr).whole
  · cases hpeaks.symm.trans hs.peaks
  · have hown := hp.peaks
    rw [hpeaks, peaksOf] at hown
    obtain ⟨parsed, hparsed, -⟩ := parseWavPcm_ok (library id).audio
    rw [hparsed] at hown
    obtain ⟨p, rfl, hextract⟩ := Option.map_eq_some_iff.mp (Except.ok.inj hown)
    refine ⟨id, p, hp.jobId, hparsed, ?_, fun x h₀ h₁ => ?_⟩
    · rw [hpeaks, ← hextract, extractPeaks_channels, ← WavPcm.channelCount]
      refine drawWaveform_true ?_ (by decide) hw hW hdur h t _
      unfold WavPcm.channelCount
      split <;> omega
    · refine ⟨_, if_pos hdur, ?_⟩
      have hle : x / W ≤ 1 := (div_le_one hW).mpr h₁
      have hx : x / W * w ≤ w := by nlinarith [Nat.cast_nonneg (α := ℚ) w]
      have hx₀ : 0 ≤ x / W * w := mul_nonneg (div_nonneg h₀ hW.le) (Nat.cast_nonneg w)
      rw [playheadX_seek hW hdur hw h₀ h₁]
      constructor
      · exact min_le_of_right_le (max_le hx₀ (by linarith))
      · rw [← sub_le_iff_le_add]
        exact le_min (by linarith) (le_max_of_le_right (by linarith))

namespace Sample

def pcmFile : Bytes := Riff.file riffId [0, 0, 0, 0] waveId [fmtChunk, dataChunk]

theorem pcmFile_parse : ∃ pcm, parseWavPcm pcmFile = .ok (some pcm) := by
  have hfile : PcmFile [fmtChunk, dataChunk] 1 8000 [1, -2, 3] :=
    ⟨⟨fmtChunk, dataChunk, [], ⟨rfl, _, _, rfl, rfl⟩, ⟨rfl, rfl⟩, by decide, .rfl⟩, by decide,
      by decide⟩
  obtain ⟨pcm, h, -⟩ := hfile.parse (show ([0, 0, 0, 0] : Bytes).length = 4 from rfl)
  exact ⟨pcm, h⟩

end Sample

/-- An artifact is loaded and clicked in the middle. -/
theorem waveform_seeks_loaded : ∃ (s : Player) (id : JobId) (p : WavPcm), s.jobId = some id ∧
    parseWavPcm Sample.pcmFile = .ok (some p) ∧
    TrueTo p.samples.values p.channelCount peakBuckets 300 64 300 2
      (drawWaveform s.peaks 300 64 0 (some 2)).bars ∧
    ∃ rect, (drawWaveform s.peaks 300 64 (seekTimeForX 150 300 (some 2)) (some 2)).playhead =
      some rect ∧ rect.x ≤ 150 / 300 * (300 : Nat) ∧
        150 / 300 * (300 : Nat) ≤ rect.x + rect.width := by
  obtain ⟨s, hrun, hf⟩ : ∃ s, (player fun _ => ⟨none, none, Sample.pcmFile⟩).run {}
      [.play (lit "a"), .answered 0 200] = some s ∧ s.fetches = [⟨lit "a", .reading⟩] :=
    ⟨_, rfl, rfl⟩
  have hreach : (player fun _ => ⟨none, none, Sample.pcmFile⟩).Reach Lts.always s :=
    ⟨{}, rfl, Lts.path_of_run hrun⟩
  obtain ⟨t, hload, hplays, -⟩ := load_spec (one_artifact hreach) (lit "a")
  have hstep : (player fun _ => ⟨none, none, Sample.pcmFile⟩).step s (.body 0) =
      some (t.setStage 0 (lit "a") .loaded) := by
    simp [player, Player.step, hf, hload]
  have hpeaks : t.peaks.isSome = true := by
    obtain ⟨pcm, hpcm⟩ := Sample.pcmFile_parse
    have hown := hplays.peaks
    rw [peaksOf, hpcm] at hown
    rw [← Except.ok.inj hown]
    rfl
  obtain ⟨id, p, hid, hp, htrue, hclick⟩ := waveform_seeks (hreach.step trivial hstep) hpeaks
    300 64 (by decide) 0 2 300 (by norm_num) (by norm_num)
  exact ⟨_, id, p, hid, hp, htrue, hclick 150 (by norm_num) (by norm_num)⟩

end Music3
