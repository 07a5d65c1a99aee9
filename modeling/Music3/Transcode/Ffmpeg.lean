import Music3.Compat.Errors
import Music3.Py.Paths

/-!
# Transcode plans

The pure part of `transcode/ffmpeg.py`: `resolve_transcode`, which reads three keys of an
`audio_setting` and refuses what it cannot honour, and `extra_info`.

`resolveTranscode_reread`: the way of a setting through a text and back does not change its plan.
-/

namespace Music3

open Py

inductive Container where
  | mp3 | wav | pcm
  deriving DecidableEq

namespace Container

def value : Container → Str
  | mp3 => lit "mp3"
  | wav => lit "wav"
  | pcm => lit "pcm"

/-- The member of `FORMAT_ENUM` that a value is, if it is one. -/
def ofJson : Json → Option Container
  | .str s =>
    if s = lit "mp3" then some mp3
    else if s = lit "wav" then some wav
    else if s = lit "pcm" then some pcm
    else none
  | _ => none

end Container

/-- `TranscodePlan`. -/
structure TranscodePlan where
  container : Container
  sampleRate : Int
  channels : Int
  bitrate : Option Int
  deriving DecidableEq

def nativeSampleRate : Int := 32000
def nativeChannels : Int := 2
def sampleRateEnum : List Int := [16000, 24000, 32000, 44100]
def bitrateEnum : List Int := [32000, 64000, 128000, 256000]
def defaultMp3Bitrate : Int := 128000

/-- `str(sorted(enum))` of a set of integers that is given in order. -/
def enumText (enum : List Int) : Str :=
  cp '[' :: (List.intercalate (lit ", ") (enum.map intText) ++ [cp ']'])

/-- The member of `enum` that a value is, if it is one: `_is_int(value) and value in enum`. -/
def memberOf (enum : List Int) : Json → Option Int
  | .int n => if n ∈ enum then some n else none
  | _ => none

section
variable (P : Platform)

/-- The refusal of a value that is not in an enum. -/
def refuseMember (field : Str) (enum : Str) (v : Json) : EdgeError :=
  refuseShowing field (P.repr v) fun text =>
    lit "audio_setting." ++ field ++ lit " must be one of " ++ enum ++ lit "; got " ++ text

/-- `resolve_transcode` of a setting that is a mapping. -/
def resolveSetting (setting : Dict) : Except EdgeError TranscodePlan := do
  let fmt := Dict.getD setting (lit "format") (.str (lit "wav"))
  match Container.ofJson fmt with
  | none => throw (refuseMember P (lit "format") (lit "['mp3', 'pcm', 'wav']") fmt)
  | some container =>
    let rate := Dict.getD setting (lit "sample_rate") (.int nativeSampleRate)
    match memberOf sampleRateEnum rate with
    | none => throw (refuseMember P (lit "sample_rate") (enumText sampleRateEnum) rate)
    | some sampleRate =>
      if container ≠ .mp3 then
        if Dict.has setting (lit "bitrate") then
          throw (.compat (refuse (some (lit "bitrate"))
            (lit "bitrate is meaningless with format " ++ P.reprText fmt ++
              lit " and is refused")))
        return ⟨container, sampleRate, nativeChannels, none⟩
      else
        let rate := Dict.getD setting (lit "bitrate") (.int defaultMp3Bitrate)
        match memberOf bitrateEnum rate with
        | none => throw (refuseMember P (lit "bitrate") (enumText bitrateEnum) rate)
        | some bitrate => return ⟨container, sampleRate, nativeChannels, some bitrate⟩

/-- `resolve_transcode`. -/
def resolveTranscode : Json → Except EdgeError TranscodePlan
  | .null => resolveSetting P []
  | .obj setting => resolveSetting P setting
  | _ => .error (.compat
      (refuse (some (lit "audio_setting")) (lit "audio_setting must be an object")))

end

/-- The rate of a plan is one of the four, and its channels are the two native ones. -/
theorem resolveTranscode_native {P : Platform} {v : Json} {plan : TranscodePlan}
    (h : resolveTranscode P v = .ok plan) :
    plan.sampleRate ∈ sampleRateEnum ∧ plan.channels = nativeChannels := by
  have hmember : ∀ {enum : List Int} {v : Json} {n : Int}, memberOf enum v = some n → n ∈ enum := by
    intro enum v n hn
    unfold memberOf at hn
    split at hn
    · split at hn
      · cases hn; assumption
      · cases hn
    · cases hn
  have hset : ∀ {setting : Dict}, resolveSetting P setting = .ok plan →
      plan.sampleRate ∈ sampleRateEnum ∧ plan.channels = nativeChannels := by
    intro setting h
    unfold resolveSetting at h
    simp only at h
    split at h
    · cases h
    split at h
    · cases h
    rename_i hrate
    have hm := hmember hrate
    split at h
    · split at h <;> cases h
      exact ⟨hm, rfl⟩
    · split at h <;> cases h
      exact ⟨hm, rfl⟩
  unfold resolveTranscode at h
  split at h
  · exact hset h
  · exact hset h
  · cases h

section
variable {P : Platform} {plan : TranscodePlan}

theorem ofJson_some {v : Json} {container : Container} (h : Container.ofJson v = some container) :
    v = .str container.value := by
  unfold Container.ofJson at h
  split at h
  · repeat' split at h
    all_goals first
      | (rename_i e; subst e; cases h; rfl)
      | cases h
  · cases h

theorem ofJson_reread {v : Json} {c : Container} (h : Container.ofJson v = some c) :
    Container.ofJson v.reread = some c := by
  rw [ofJson_some h]
  cases c <;> rfl

theorem memberOf_reread {enum : List Int} {v : Json} {n : Int} (h : memberOf enum v = some n) :
    memberOf enum v.reread = some n := by
  unfold memberOf at h
  split at h
  · rename_i m
    show memberOf enum (.int m) = some n
    rwa [memberOf]
  · cases h

theorem resolveSetting_reread {setting setting' : Dict}
    (hget : ∀ k, plain k → Dict.get? setting' k = (Dict.get? setting k).map Json.reread)
    (h : resolveSetting P setting = .ok plan) : resolveSetting P setting' = .ok plan := by
  have hgetD : ∀ k (x : Json), plain k → x.reread = x →
      Dict.getD setting' k x = (Dict.getD setting k x).reread := by
    intro k x hk hx
    unfold Dict.getD
    rw [hget k hk]
    cases Dict.get? setting k with
    | none => exact hx.symm
    | some v => rfl
  have hhas : Dict.has setting' (lit "bitrate") = Dict.has setting (lit "bitrate") := by
    unfold Dict.has
    rw [hget _ (plain_lit rfl), Option.isSome_map]
  unfold resolveSetting at h ⊢
  simp only at h ⊢
  rw [hgetD _ _ (plain_lit rfl) rfl, hgetD _ _ (plain_lit rfl) rfl,
    hgetD _ _ (plain_lit rfl) rfl, hhas]
  split at h
  · cases h
  rename_i c hc
  rw [ofJson_reread hc]
  split at h
  · cases h
  rename_i n hn
  rw [memberOf_reread hn]
  simp only
  split at h
  · rename_i hne
    rw [if_pos hne]
    split at h
    · cases h
    · rename_i hb
      rw [if_neg hb]
      exact h
  · rename_i hne
    rw [if_neg hne]
    split at h
    · cases h
    · rename_i m hm
      rw [memberOf_reread hm]
      exact h

/-- The way through a text does not change the plan. -/
theorem resolveTranscode_reread {v : Json} (hv : v.WF) (h : resolveTranscode P v = .ok plan) :
    resolveTranscode P v.reread = .ok plan := by
  cases v with
  | null => exact h
  | obj setting =>
    obtain ⟨setting', he, hget⟩ := Json.get?_reread hv.1
    rw [he]
    exact resolveSetting_reread hget h
  | _ => cases h

end

/-- `AudioFacts`. -/
structure AudioFacts where
  durationSeconds : PyFloat
  sampleRate : Int
  channels : Int
  bitrate : Int
  size : Int

/-- `extra_info`. -/
def extraInfo (facts : AudioFacts) : Dict := [
  (lit "music_duration", .float facts.durationSeconds),
  (lit "music_sample_rate", .int facts.sampleRate),
  (lit "music_channel", .int facts.channels),
  (lit "bitrate", .int facts.bitrate),
  (lit "music_size", .int facts.size)]

end Music3
