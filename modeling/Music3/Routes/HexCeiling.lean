import Mathlib.Algebra.Order.Field.Rat
import Mathlib.Data.Rat.Floor
import Music3.Routes.Delivery

/-!
# The ceiling of a `hex` body

`translate` refuses a `hex` body by an estimate made before anything is generated. The estimate is of
the raw samples (`exact_eq`); a `wav` file has a header before them.

`hex_ceiling_bounds`: when the ceiling bounds what is delivered. `ExactEstimates` reads
`estimate_hex_bytes` in exact rational arithmetic.
-/

namespace Music3

open Py StateExcept

/-- `int(x)`. -/
def truncated (x : ℚ) : Int := if 0 ≤ x then ⌊x⌋ else ⌈x⌉

/-- `estimate_hex_bytes` in rational arithmetic. -/
def exactHexBytes (maxNewTokens : Int) (plan : TranscodePlan) : Int :=
  let duration : ℚ := maxNewTokens / framesPerSecond
  let audioBytes : ℚ := match plan.container, plan.bitrate with
    | .mp3, some bitrate => bitrate / 8 * duration
    | _, _ => duration * plan.sampleRate * plan.channels * bytesPerSample
  truncated (audioBytes * 2)

/-- The estimates are exact, for the raw formats of the plans that there are. -/
def ExactEstimates (P : Platform) : Prop :=
  ∀ maxNewTokens plan, 1 ≤ maxNewTokens → maxNewTokens ≤ maxNewTokensCeiling →
    plan.sampleRate ∈ sampleRateEnum → plan.channels = nativeChannels → plan.container ≠ .mp3 →
    estimateHexBytes P maxNewTokens plan = exactHexBytes maxNewTokens plan

/-- A `wav` or `pcm` delivery of some frames of generated audio, which is not longer than the request
allows: the samples, of two channels and 16 bits, and before those of a `wav` file `header` bytes. -/
structure Delivered (r : LocalRequest) (header : Nat) (output : Bytes) : Prop where
  parts : ∃ head samples : Bytes, ∃ frames : Nat, output = head ++ samples ∧
    samples.length = frames * (2 * 2) ∧
    (frames : ℚ) / r.plan.sampleRate ≤ r.maxNewTokens / framesPerSecond ∧
    head.length = if r.plan.container = .wav then header else 0

/-- How many characters `_hex_body` sends of a file. -/
def hexChars (output : Bytes) : Nat := ((readBlocks output).map hexlify).flatten.length

theorem hexChars_eq (output : Bytes) : hexChars output = 2 * output.length := by
  have hlen : (hexText output).length = 2 * output.length := by
    induction output with
    | nil => rfl
    | cons b output ih =>
      have hcons : hexText (b :: output) = hexPair b ++ hexText output := List.flatMap_cons
      rw [hcons, List.length_append, ih, List.length_cons]
      show 2 + _ = _
      omega
  rw [hexChars, hexlify_flatten, readBlocks_flatten, hexlify, List.length_map, hlen]

/-! ## The estimate -/

section
variable {P : Platform} {r : LocalRequest} {plan : TranscodePlan} {maxNewTokens : Int}

theorem truncated_intCast (n : Int) : truncated (n : ℚ) = n := by
  unfold truncated
  split
  · exact Int.floor_intCast n
  · exact Int.ceil_intCast n

/-- A rate is a positive multiple of the 25 frames a second. -/
theorem rate_eq (h : plan.sampleRate ∈ sampleRateEnum) :
    0 < plan.sampleRate / 25 ∧ plan.sampleRate = 25 * (plan.sampleRate / 25) := by
  simp only [sampleRateEnum, List.mem_cons, List.not_mem_nil, or_false] at h
  omega

/-- The estimate of a raw format: eight characters a frame. -/
theorem exact_eq (hrate : plan.sampleRate ∈ sampleRateEnum) (hch : plan.channels = nativeChannels)
    (hraw : plan.container ≠ .mp3) :
    exactHexBytes maxNewTokens plan = 8 * (maxNewTokens * (plan.sampleRate / 25)) := by
  obtain ⟨-, hq⟩ := rate_eq hrate
  generalize plan.sampleRate / 25 = q at hq
  obtain ⟨container, sampleRate, channels, bitrate⟩ := plan
  subst hq hch
  have hvalue : ((maxNewTokens : ℚ) / framesPerSecond * ((25 * q : Int) : ℚ) *
      (nativeChannels : ℚ) * (bytesPerSample : ℚ)) * 2 =
        ((8 * (maxNewTokens * q) : Int) : ℚ) := by
    simp only [framesPerSecond, nativeChannels, bytesPerSample]
    push_cast
    ring
  cases container with
  | mp3 => exact absurd rfl hraw
  | wav | pcm =>
    simp only [exactHexBytes]
    rw [hvalue]
    exact truncated_intCast _

/-- The frames of a delivery are those of the request at most. -/
theorem Delivered.frames_le_iff {frames : Nat} (hrate : r.plan.sampleRate ∈ sampleRateEnum) :
    (frames : ℚ) / r.plan.sampleRate ≤ r.maxNewTokens / framesPerSecond ↔
      (frames : Int) ≤ r.maxNewTokens * (r.plan.sampleRate / 25) := by
  obtain ⟨hpos, hq⟩ := rate_eq hrate
  generalize r.plan.sampleRate / 25 = q at hpos hq
  rw [hq, framesPerSecond, div_le_div_iff₀ (by exact_mod_cast (by omega : 0 < 25 * q))
    (by norm_num)]
  constructor
  · intro h
    have h : (frames : Int) * 25 ≤ r.maxNewTokens * (25 * q) := by exact_mod_cast h
    have hcomm : r.maxNewTokens * (25 * q) = 25 * (r.maxNewTokens * q) := by ring
    omega
  · intro h
    have hcomm : r.maxNewTokens * (25 * q) = 25 * (r.maxNewTokens * q) := by ring
    have h : (frames : Int) * 25 ≤ r.maxNewTokens * (25 * q) := by omega
    exact_mod_cast h

/-- The ceiling check of an accepted `hex` request. -/
theorem translate_ceiling {body : Json} {hexCeilingBytes : Int}
    (h : translate P body hexCeilingBytes = .ok r) :
    checkHexCeiling P r.outputFormat r.maxNewTokens r.plan hexCeilingBytes = .ok () := by
  unfold translate at h
  split at h
  · obtain ⟨_, -, h⟩ := ok_of_bind h
    obtain ⟨_, -, h⟩ := ok_of_bind h
    obtain ⟨_, -, h⟩ := ok_of_bind h
    obtain ⟨_, -, h⟩ := ok_of_bind h
    obtain ⟨_, -, h⟩ := ok_of_bind h
    obtain ⟨_, -, h⟩ := ok_of_bind h
    obtain ⟨_, -, h⟩ := ok_of_bind h
    obtain ⟨prompt, -, h⟩ := ok_of_bind h
    obtain ⟨lyrics, -, h⟩ := ok_of_bind h
    obtain ⟨outputFormat, -, h⟩ := ok_of_bind h
    obtain ⟨seed, -, h⟩ := ok_of_bind h
    obtain ⟨maxNewTokens, -, h⟩ := ok_of_bind h
    obtain ⟨plan, -, h⟩ := ok_of_bind h
    obtain ⟨u, hcheck, h⟩ := ok_of_bind h
    cases h
    exact hcheck
  · cases h

/-- What an accepted `hex` request of a raw format is. -/
theorem translate_raw {body : Json} {hexCeilingBytes : Int} (hP : ExactEstimates P)
    (h : translate P body hexCeilingBytes = .ok r) (hhex : r.outputFormat = .hex)
    (hraw : r.plan.container ≠ .mp3) :
    r.plan.sampleRate ∈ sampleRateEnum ∧ 1 ≤ r.maxNewTokens ∧
      8 * (r.maxNewTokens * (r.plan.sampleRate / 25)) ≤ hexCeilingBytes := by
  obtain ⟨_, -, hbody⟩ := translate_ok h
  obtain ⟨hrate, hch⟩ := resolveTranscode_native hbody.plan
  obtain ⟨-, hlow, hhigh⟩ := validateInt_ok hbody.maxNewTokens
  have hcheck := translate_ceiling h
  rw [checkHexCeiling, hP _ _ hlow (hhigh _ rfl) hrate hch hraw, exact_eq hrate hch hraw] at hcheck
  refine ⟨hrate, hlow, ?_⟩
  by_contra hlt
  rw [if_pos ⟨hhex, not_le.mp hlt⟩] at hcheck
  unfold refuseShowing at hcheck
  split at hcheck <;> cases hcheck

end

/-! ## The result -/

/-- The ceiling bounds every delivery of an accepted `hex` request if the file has no header, or if
it leaves room for the header beside the samples of a render of full length. -/
theorem hex_ceiling_bounds {P : Platform} (hP : ExactEstimates P) (hexCeilingBytes : Int)
    (body : Json) (r : LocalRequest) (h : translate P body hexCeilingBytes = .ok r)
    (hhex : r.outputFormat = .hex) (hraw : r.plan.container ≠ .mp3) (header : Nat) :
    (∀ output, Delivered r header output → (hexChars output : Int) ≤ hexCeilingBytes) ↔
      r.plan.container = .pcm ∨
        2 * (header + 4 * (r.maxNewTokens * r.plan.sampleRate / 25)) ≤ hexCeilingBytes := by
  obtain ⟨hrate, hlow, hest⟩ := translate_raw hP h hhex hraw
  obtain ⟨hpos, hq⟩ := rate_eq hrate
  have hfull : r.maxNewTokens * r.plan.sampleRate / 25 =
      r.maxNewTokens * (r.plan.sampleRate / 25) :=
    Int.mul_ediv_assoc _ ⟨_, hq⟩
  rw [hfull]
  constructor
  · intro hall
    by_cases hpcm : r.plan.container = .pcm
    · exact .inl hpcm
    have hwav : r.plan.container = .wav := by
      cases hc : r.plan.container with
      | mp3 => exact absurd hc hraw
      | wav => rfl
      | pcm => exact absurd hc hpcm
    -- a render of full length
    obtain ⟨frames, hframes⟩ : ∃ frames : Nat,
        (frames : Int) = r.maxNewTokens * (r.plan.sampleRate / 25) :=
      ⟨_, Int.toNat_of_nonneg (mul_nonneg (by omega) hpos.le)⟩
    have hlen := hall (List.replicate header 0 ++ List.replicate (frames * (2 * 2)) 0)
      ⟨_, _, frames, rfl, List.length_replicate, (Delivered.frames_le_iff hrate).mpr hframes.le, by
        rw [List.length_replicate, if_pos hwav]⟩
    rw [hexChars_eq, List.length_append, List.length_replicate, List.length_replicate] at hlen
    push_cast at hlen
    right
    omega
  · rintro hroom output ⟨head, samples, frames, rfl, hsamples, hdur, hhead⟩
    have hframes := (Delivered.frames_le_iff hrate).mp hdur
    rw [hexChars_eq, List.length_append, hsamples, hhead]
    rcases hroom with hpcm | hroom
    · rw [hpcm, if_neg (by decide)]
      push_cast
      omega
    · split <;> push_cast <;> omega

namespace Sample

/-- A platform with fixed-point numbers, in units of a twenty-fifth. -/
def exactPlatform : Platform := { platform with
  trueDiv := fun n m => ⟨BitVec.ofNat 64 (n * 25 / m)⟩
  mul := fun x y => ⟨BitVec.ofNat 64 (x.bits.toNat * y.bits.toNat / 25)⟩
  ofInt := fun n => ⟨BitVec.ofNat 64 (n.toNat * 25)⟩
  truncate := fun x => (x.bits.toNat / 25 : Nat) }

theorem exact_mul (a b : Nat) (ha : a < 2 ^ 64) (hb : b * 25 < 2 ^ 64) :
    exactPlatform.mul ⟨BitVec.ofNat 64 a⟩ (exactPlatform.ofInt b) = ⟨BitVec.ofNat 64 (a * b)⟩ := by
  simp only [exactPlatform, BitVec.toNat_ofNat, Int.toNat_natCast, Nat.mod_eq_of_lt ha,
    Nat.mod_eq_of_lt hb]
  rw [← Nat.mul_assoc, Nat.mul_div_cancel _ (by decide)]

end Sample

theorem exactEstimates_exactPlatform : ExactEstimates Sample.exactPlatform := by
  intro maxNewTokens plan hn hle hrate hch hraw
  rw [exact_eq hrate hch hraw]
  obtain ⟨hpos, hq⟩ := rate_eq hrate
  have hsmall : plan.sampleRate / 25 ≤ 1764 := by
    simp only [sampleRateEnum, List.mem_cons, List.not_mem_nil, or_false] at hrate
    omega
  obtain ⟨container, sampleRate, channels, bitrate⟩ := plan
  simp only at hq hpos hsmall hch ⊢
  generalize sampleRate / 25 = q at hq hpos hsmall
  obtain ⟨n, rfl⟩ := Int.eq_ofNat_of_zero_le (by omega : 0 ≤ maxNewTokens)
  obtain ⟨k, rfl⟩ := Int.eq_ofNat_of_zero_le hpos.le
  subst hq hch
  have hle : n ≤ 9000 := Int.ofNat_le.mp hle
  have hbound : n * k ≤ 9000 * 1764 := Nat.mul_le_mul hle (by omega)
  cases container with
  | mp3 => exact absurd rfl hraw
  | wav | pcm =>
    have hduration : Sample.exactPlatform.trueDiv n framesPerSecond = ⟨BitVec.ofNat 64 n⟩ := by
      simp [Sample.exactPlatform, framesPerSecond]
    have hrate : (25 : Int) * k = ((25 * k : Nat) : Int) := by push_cast; rfl
    have hvalue : n * (25 * k) = 25 * (n * k) := by ring
    simp only [estimateHexBytes, Int.toNat_natCast, hduration, hrate]
    rw [Sample.exact_mul n (25 * k) (by omega) (by omega), hvalue,
      show nativeChannels = ((2 : Nat) : Int) from rfl,
      show bytesPerSample = ((2 : Nat) : Int) from rfl, show (2 : Int) = ((2 : Nat) : Int) from rfl,
      Sample.exact_mul _ 2 (by omega) (by decide), Sample.exact_mul _ 2 (by omega) (by decide),
      Sample.exact_mul _ 2 (by omega) (by decide)]
    show ((BitVec.ofNat 64 (25 * (n * k) * 2 * 2 * 2)).toNat / 25 : Nat) = 8 * ((n : Int) * k)
    rw [BitVec.toNat_ofNat, Nat.mod_eq_of_lt (by omega)]
    push_cast
    omega

/-- With room for 44 bytes the ceiling bounds every delivery. -/
theorem hex_ceiling_bounds_wav :
    translate Sample.exactPlatform (.obj Sample.hexBody) 92160088 = .ok Sample.hexRequest ∧
      ∀ output, Delivered Sample.hexRequest 44 output → (hexChars output : Int) ≤ 92160088 :=
  ⟨rfl, (hex_ceiling_bounds exactEstimates_exactPlatform 92160088 (.obj Sample.hexBody)
    Sample.hexRequest rfl rfl (by decide) 44).mpr (.inr (by decide))⟩

/-- A ceiling at the estimate, and a `wav` file of full length with a header of 44 bytes. -/
theorem hex_ceiling_exceeded :
    (∃ output, Delivered Sample.hexRequest 44 output ∧ hexChars output = 92160088) ∧
    ¬ ∀ P, ExactEstimates P → ∀ hexCeilingBytes body r,
      translate P body hexCeilingBytes = .ok r → r.outputFormat = .hex →
      r.plan.container ≠ .mp3 → ∀ header output, 44 ≤ header → Delivered r header output →
        (hexChars output : Int) ≤ hexCeilingBytes := by
  have hfile : ∃ output, Delivered Sample.hexRequest 44 output ∧ hexChars output = 92160088 := by
    refine ⟨List.replicate 44 0 ++ List.replicate (11520000 * (2 * 2)) 0,
      ⟨_, _, 11520000, rfl, List.length_replicate, ?_, List.length_replicate⟩, ?_⟩
    · exact (Delivered.frames_le_iff (by decide)).mpr (by decide)
    · rw [hexChars_eq, List.length_append, List.length_replicate, List.length_replicate]
  refine ⟨hfile, fun h => ?_⟩
  obtain ⟨output, hdel, hlen⟩ := hfile
  have := h _ exactEstimates_exactPlatform 92160000 (.obj Sample.hexBody) Sample.hexRequest rfl rfl
    (by decide) 44 output (Nat.le_refl _) hdel
  omega

end Music3
