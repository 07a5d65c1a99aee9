import Music3.Compat.Minimax
import Music3.Engines.Client
import Music3.Lib.Rules
import Music3.Py.LoadsOk

/-!
# The grammar of cloud requests

`cloudGrammar` states which bodies the edge accepts, as rules on the JSON value in the order in
which they are reported, and `Documented` what an accepted body stands for. `translate` decides the
rules (`translate_judges`), and a refusal names the first one that is broken.

The message of a refusal shows a value of the body, or the ceiling. A value that has no text
(`Showable`) raises another exception there; `load_showable`: the decoder returns no such value.
-/

namespace Music3

open Py StateExcept Rules

/-! ## The rules -/

/-- A rule about the members of an object. -/
def fieldRule (field : Str) (holds : Dict → Prop) : Rule Json (Option Str) :=
  ⟨some field, fun v => ∀ body, v = .obj body → holds body⟩

def objectRule : Rule Json (Option Str) := ⟨none, fun v => ∃ body, v = .obj body⟩

/-- The member `field` is the text `s` of at most `max` characters. -/
def IsText (body : Dict) (field : Str) (max : Nat) (s : Str) : Prop :=
  Dict.get? body field = some (.str s) ∧ 1 ≤ s.length ∧ s.length ≤ max

/-- The member `field` is absent, or an `int` in the bounds. -/
def IsBounded (body : Dict) (field : Str) (low : Int) (high : Option Int) : Prop :=
  Dict.get? body field = none ∨
    ∃ n, Dict.get? body field = some (.int n) ∧ low ≤ n ∧ ∀ m, high = some m → n ≤ m

/-- The member `field` is absent, or an `int` of the enum. -/
def IsMember (body : Dict) (field : Str) (enum : List Int) : Prop :=
  Dict.get? body field = none ∨ ∃ n ∈ enum, Dict.get? body field = some (.int n)

/-- The member `field`, or the default of an absent one. -/
def intField (body : Dict) (field : Str) (default : Int) : Int :=
  match Dict.get? body field with
  | some (.int n) => n
  | _ => default

/-- The delivery that a body asks for. -/
def IsDelivery (body : Dict) : OutputFormat → Prop
  | .hex => Dict.get? body (lit "output_format") = none ∨
      Dict.get? body (lit "output_format") = some (.str (lit "hex"))
  | .url => Dict.get? body (lit "output_format") = some (.str (lit "url"))

/-- The members of `audio_setting`. -/
def settingOf (body : Dict) : Dict :=
  match Dict.get? body (lit "audio_setting") with
  | some (.obj setting) => setting
  | _ => []

def IsContainer (setting : Dict) (container : Container) : Prop :=
  Dict.get? setting (lit "format") = some (.str container.value) ∨
    Dict.get? setting (lit "format") = none ∧ container = .wav

/-- The container that a setting asks for. -/
def containerOf (setting : Dict) : Container :=
  match Dict.get? setting (lit "format") with
  | some (.str s) => if s = lit "mp3" then .mp3 else if s = lit "pcm" then .pcm else .wav
  | _ => .wav

/-- The plan of a setting in the grammar. -/
def planOf (setting : Dict) : TranscodePlan where
  container := containerOf setting
  sampleRate := intField setting (lit "sample_rate") nativeSampleRate
  channels := nativeChannels
  bitrate := if containerOf setting = .mp3 then
    some (intField setting (lit "bitrate") defaultMp3Bitrate) else none

def modelRule : Rule Json (Option Str) := fieldRule (lit "model") fun body =>
  Dict.get? body (lit "model") = some (.str modelId)

def flagRule (flag : Str) : Rule Json (Option Str) := fieldRule flag fun body =>
  (Dict.get body flag).truthy = false

def coverRule (cover : Str) : Rule Json (Option Str) := fieldRule cover fun body =>
  Dict.get? body cover = none

def textRule (field : Str) (max : Nat) : Rule Json (Option Str) := fieldRule field fun body =>
  ∃ s, IsText body field max s

def deliveryRule : Rule Json (Option Str) := fieldRule (lit "output_format") fun body =>
  ∃ delivery, IsDelivery body delivery

def boundedRule (field : Str) (low : Int) (high : Option Int) : Rule Json (Option Str) :=
  fieldRule field fun body => IsBounded body field low high

/-- The rules of an `audio_setting`. -/
def settingRules : List (Rule Json (Option Str)) := [
  fieldRule (lit "audio_setting") fun body =>
    Dict.get? body (lit "audio_setting") = none ∨
    Dict.get? body (lit "audio_setting") = some .null ∨
    ∃ setting, Dict.get? body (lit "audio_setting") = some (.obj setting),
  fieldRule (lit "format") fun body => ∃ container, IsContainer (settingOf body) container,
  fieldRule (lit "sample_rate") fun body =>
    IsMember (settingOf body) (lit "sample_rate") sampleRateEnum,
  fieldRule (lit "bitrate") fun body =>
    if containerOf (settingOf body) = .mp3 then
      IsMember (settingOf body) (lit "bitrate") bitrateEnum
    else Dict.get? (settingOf body) (lit "bitrate") = none]

def ceilingRule (P : Platform) (hexCeilingBytes : Int) : Rule Json (Option Str) :=
  fieldRule (lit "output_format") fun body => IsDelivery body .hex →
    estimateHexBytes P (intField body (lit "max_new_tokens") 9000) (planOf (settingOf body)) ≤
      hexCeilingBytes

/-- The rules of a cloud request, in the order in which they are reported. -/
def cloudGrammar (P : Platform) (hexCeilingBytes : Int) : List (Rule Json (Option Str)) := [
  objectRule,
  modelRule,
  flagRule (lit "stream"),
  flagRule (lit "lyrics_optimizer"),
  flagRule (lit "is_instrumental"),
  coverRule (lit "cover_feature_id"),
  coverRule (lit "audio_url"),
  coverRule (lit "audio_base64"),
  textRule (lit "prompt") 2000,
  textRule (lit "lyrics") 3500,
  deliveryRule,
  boundedRule (lit "seed") 0 none,
  boundedRule (lit "max_new_tokens") 1 (some 9000)] ++
  (settingRules ++ [ceilingRule P hexCeilingBytes])

/-- The request that an accepted body stands for. Its values satisfy the constraints of a native
submission. -/
structure Documented (body : Dict) (r : LocalRequest) : Prop where
  input : IsText body (lit "lyrics") 3500 r.input
  instructions : IsText body (lit "prompt") 2000 r.instructions
  seed : r.seed = intField body (lit "seed") 0
  maxNewTokens : r.maxNewTokens = intField body (lit "max_new_tokens") 9000
  outputFormat : IsDelivery body r.outputFormat
  plan : r.plan = planOf (settingOf body)
  cloud : ∀ k, Dict.get? r.cloud k = if k ∈ recordedCloudFields then Dict.get? body k else none
  keys : (Assoc.keys r.cloud).Sublist recordedCloudFields
  native : r.input ≠ [] ∧ r.instructions ≠ [] ∧ 0 ≤ r.seed ∧ 1 ≤ r.maxNewTokens ∧
    r.maxNewTokens ≤ Sglang.maxNewTokensCeiling

/-! ## What a refusal can show -/

/-- Every value that a message can show has a text. -/
structure Showable (P : Platform) (v : Json) (hexCeilingBytes : Int) : Prop where
  ints : intsOk v = true
  depth : v.depth ≤ P.reprLimit
  ceiling : intsOk (.int hexCeilingBytes) = true

/-- The decoder returns only values that have a text. -/
theorem load_showable {P : Platform} {b : Bytes} {v : Json} {hexCeilingBytes : Int}
    (h : P.load b = .ok v) (hc : intsOk (.int hexCeilingBytes) = true) :
    Showable P v hexCeilingBytes where
  ints := loadsBytes_induct closed_intsOk h
  depth := Nat.le_trans (loadsBytes_induct closed_depth h) P.loads_le_repr
  ceiling := hc

/-- What is raised about the rule with the name `field`. -/
def Reports (P : Platform) (v : Json) (hexCeilingBytes : Int) :
    EdgeError → Option Str → Prop
  | .compat e, field => e.code = invalidParams ∧ e.field = field
  | .raised _, _ => ¬ Showable P v hexCeilingBytes

section
variable {P : Platform} {body : Dict} {hexCeilingBytes : Int}

theorem refuse_reports (field : Option Str) (message : Str) (v : Json) :
    Reports P v hexCeilingBytes (.compat (refuse field message)) field := ⟨rfl, rfl⟩

theorem refuseShowing_reports {v : Json} {field : Str} {text : Except JsonError Str}
    {message : Str → Str} (h : Showable P v hexCeilingBytes → ∃ t, text = .ok t) :
    Reports P v hexCeilingBytes (refuseShowing field text message) (some field) := by
  cases text with
  | ok t => exact ⟨rfl, rfl⟩
  | error e =>
    intro hs
    obtain ⟨t, ht⟩ := h hs
    cases ht

/-- A member of an object that has a text. -/
theorem fits_get (k : Str) (hi : intsOk (.obj body) = true)
    (hd : (Json.obj body).depth ≤ P.reprLimit) :
    intsOk (Dict.get body k) = true ∧ (Dict.get body k).depth ≤ P.reprLimit := by
  unfold Dict.get
  cases h : Dict.get? body k with
  | none => exact ⟨rfl, Nat.zero_le _⟩
  | some x =>
    have hm := Assoc.mem_of_get? h
    have hdx := Json.depthFields_le.mp (Nat.le_refl _) (k, x) hm
    simp only [Json.depth] at hd
    exact ⟨intsOkFields_iff.mp hi (k, x) hm, Nat.le_trans hdx (Nat.le_of_succ_le hd)⟩

theorem repr_get (k : Str) (hi : intsOk (.obj body) = true)
    (hd : (Json.obj body).depth ≤ P.reprLimit) : ∃ t, P.repr (Dict.get body k) = .ok t := by
  obtain ⟨hi', hd'⟩ := fits_get k hi hd
  exact ⟨_, Platform.repr_ok hi' hd'⟩

theorem Showable.get (k : Str) (h : Showable P (.obj body) hexCeilingBytes) :
    Showable P (Dict.get body k) hexCeilingBytes := by
  obtain ⟨hi, hd⟩ := fits_get k h.ints h.depth
  exact ⟨hi, hd, h.ceiling⟩

/-! ## The checks decide the rules -/

/-- `m` decides the rules about the body. -/
abbrev Checks {γ : Type} (P : Platform) (body : Dict) (hexCeilingBytes : Int)
    (rules : List (Rule Json (Option Str))) (m : Except EdgeError γ) (Q : γ → Prop) : Prop :=
  Judges (Reports P (.obj body) hexCeilingBytes) rules (.obj body) m Q

@[simp] theorem fieldRule_holds {field : Str} {holds : Dict → Prop} :
    (fieldRule field holds).Holds (.obj body) ↔ holds body :=
  ⟨fun h => h body rfl, fun h d e => by cases e; exact h⟩

section
variable {γ : Type} {Q : γ → Prop} {field : Str} {holds : Dict → Prop}

theorem checks_pass {c : γ} (h : holds body) (hq : Q c) :
    Checks P body hexCeilingBytes [fieldRule field holds] (.ok c) Q :=
  .pass (fieldRule_holds.mpr h) (.pure hq)

theorem checks_fail {e : EdgeError} {rules : List (Rule Json (Option Str))} (h : ¬ holds body)
    (hr : Reports P (.obj body) hexCeilingBytes e (some field)) :
    Checks P body hexCeilingBytes (fieldRule field holds :: rules) (.error e : Except _ γ) Q :=
  .fail (fun hh => h (fieldRule_holds.mp hh)) hr

end

/-- `d.get(k)` is not `None`. -/
theorem get?_of_get {d : Dict} {k : Str} {v : Json} (h : Dict.get d k = v) (hv : v ≠ .null) :
    Dict.get? d k = some v := by
  unfold Dict.get at h
  cases hg : Dict.get? d k with
  | none => rw [hg] at h; exact absurd h.symm hv
  | some x => rw [hg] at h; exact congrArg some h

theorem get_of_get? {d : Dict} {k : Str} {v : Json} (h : Dict.get? d k = some v) :
    Dict.get d k = v := by rw [Dict.get, h]; rfl

theorem checkModel_checks :
    Checks P body hexCeilingBytes [modelRule] (checkModel P body) fun _ => True := by
  have hfail : ∀ v, Dict.get body (lit "model") = v → v ≠ .str modelId →
      Checks P body hexCeilingBytes [modelRule] (.error (checkModel.refusal P v) : Except _ Unit)
        fun _ => True := by
    rintro v rfl hv
    exact checks_fail (fun h => hv (get_of_get? h))
      (refuseShowing_reports fun hs => repr_get _ hs.ints hs.depth)
  unfold checkModel
  split
  · rename_i s hs
    split
    · rename_i hm
      subst hm
      exact checks_pass (get?_of_get hs (by intro e; cases e)) trivial
    · rename_i hm
      exact hfail _ hs fun e => hm (by cases e; rfl)
  · rename_i v hv
    exact hfail _ rfl fun e => hv _ e

theorem refuseFlag_checks (flag : Str) :
    Checks P body hexCeilingBytes [flagRule flag] (refuseFlag body flag) fun _ => True := by
  unfold refuseFlag
  split
  · rename_i ht
    exact checks_fail (fun h => by rw [h] at ht; cases ht) (refuse_reports _ _ _)
  · rename_i ht
    exact checks_pass (Bool.eq_false_of_not_eq_true ht) trivial

theorem refuseCover_checks (cover : Str) :
    Checks P body hexCeilingBytes [coverRule cover] (refuseCover body cover) fun _ => True := by
  unfold refuseCover Dict.has
  split
  · rename_i hc
    exact checks_fail (fun h => by rw [h] at hc; cases hc) (refuse_reports _ _ _)
  · rename_i hc
    exact checks_pass (Option.not_isSome_iff_eq_none.mp hc) trivial

theorem requireText_checks (field : Str) (max : Nat) :
    Checks P body hexCeilingBytes [textRule field max] (requireText body field max)
      (IsText body field max) := by
  unfold requireText
  split
  · rename_i s hs
    have hg := get?_of_get hs (by intro e; cases e)
    split
    · rename_i hl
      exact checks_pass ⟨s, hg, hl⟩ ⟨hg, hl⟩
    · rename_i hl
      refine checks_fail (fun ⟨t, ht, hlt⟩ => hl ?_) (refuse_reports _ _ _)
      cases hg.symm.trans ht
      exact hlt
  · rename_i hs
    exact checks_fail (fun ⟨t, ht, _⟩ => hs t (get_of_get? ht)) (refuse_reports _ _ _)

theorem outputFormatOf_checks :
    Checks P body hexCeilingBytes [deliveryRule] (outputFormatOf body) (IsDelivery body) := by
  unfold outputFormatOf Dict.getD
  cases hg : Dict.get? body (lit "output_format") with
  | none => exact checks_pass ⟨.hex, .inl hg⟩ (.inl hg)
  | some v =>
    have hno : v ≠ .str (lit "hex") → v ≠ .str (lit "url") → ¬ ∃ delivery,
        IsDelivery body delivery := by
      rintro h h' ⟨delivery, hd⟩
      cases delivery with
      | hex =>
        rcases hd with e | e <;> cases hg.symm.trans e
        exact h rfl
      | url =>
        cases hg.symm.trans hd
        exact h' rfl
    simp only [Option.getD_some]
    split
    · rename_i s
      split
      · rename_i e
        subst e
        exact checks_pass ⟨.hex, .inr hg⟩ (.inr hg)
      split
      · rename_i e
        subst e
        exact checks_pass ⟨.url, hg⟩ hg
      · rename_i h h'
        refine checks_fail (hno (fun e => h ?_) fun e => h' ?_) (refuse_reports _ _ _) <;>
          (cases e; rfl)
    · rename_i hs
      exact checks_fail (hno (hs _) (hs _)) (refuse_reports _ _ _)

theorem validateInt_checks (name : Str) {default low : Int} {high : Option Int}
    (hlow : low ≤ default) (hhigh : ∀ m, high = some m → default ≤ m) :
    Checks P body hexCeilingBytes [boundedRule name low high]
      (validateInt body name default low high)
      (fun n => n = intField body name default ∧ low ≤ n ∧ ∀ m, high = some m → n ≤ m) := by
  have hbad : ∀ {n : Int}, (n < low ∨ high.any (· < n) = true) ↔
      ¬ (low ≤ n ∧ ∀ m, high = some m → n ≤ m) := by
    intro n
    cases high with
    | none => simp
    | some m => simp; omega
  unfold validateInt Dict.getD intField
  cases hg : Dict.get? body name with
  | none =>
    simp only [Option.getD_none]
    rw [if_neg (by rw [hbad]; exact not_not_intro ⟨hlow, hhigh⟩)]
    exact checks_pass (.inl hg) ⟨rfl, hlow, hhigh⟩
  | some v =>
    have hno : (∀ n, v = .int n → ¬ (low ≤ n ∧ ∀ m, high = some m → n ≤ m)) →
        ¬ IsBounded body name low high := by
      rintro h (e | ⟨n, e, hb⟩) <;> cases hg.symm.trans e
      exact h n rfl hb
    simp only [Option.getD_some]
    split
    · rename_i n
      split
      · rename_i hr
        refine checks_fail (hno fun m e => ?_) (refuse_reports _ _ _)
        cases e
        exact hbad.mp hr
      · rename_i hr
        have hb := not_not.mp (mt hbad.mpr hr)
        exact checks_pass (.inr ⟨n, hg, hb⟩) ⟨rfl, hb⟩
    · rename_i hn
      exact checks_fail (hno fun m e => absurd e (hn m)) (refuse_reports _ _ _)

/-- A member of the settings has a text. -/
theorem repr_getD_setting {field : Str} {x : Json} (hx : intsOk x = true)
    (hd : x.depth = 0) (hs : Showable P (.obj body) hexCeilingBytes) :
    ∃ t, P.repr (Dict.getD (settingOf body) field x) = .ok t := by
  have hset : intsOk (.obj (settingOf body)) = true ∧
      (Json.obj (settingOf body)).depth ≤ P.reprLimit := by
    unfold settingOf
    split
    · rename_i setting hg
      have hm := Assoc.mem_of_get? hg
      have hdx := Json.depthFields_le.mp (Nat.le_refl _) _ hm
      have hd := hs.depth
      simp only [Json.depth] at hd hdx
      refine ⟨intsOkFields_iff.mp hs.ints _ hm, ?_⟩
      simp only [Json.depth]
      omega
    · refine ⟨rfl, ?_⟩
      have := P.three_le_dumps
      have := P.dumps_lt_loads
      have := P.loads_le_repr
      simp only [Json.depth, Json.depthFields]
      omega
  cases hg : Dict.get? (settingOf body) field with
  | none =>
    rw [Dict.getD, hg]
    exact ⟨_, Platform.repr_ok hx (by simp only [Option.getD_none, hd, Nat.zero_le])⟩
  | some v =>
    rw [show Dict.getD (settingOf body) field x = Dict.get (settingOf body) field by
      rw [Dict.getD, Dict.get, hg]; rfl]
    exact repr_get field hset.1 hset.2

theorem containerOf_eq {setting : Dict} {container : Container}
    (h : IsContainer setting container) :
    containerOf setting = container := by
  unfold containerOf
  rcases h with h | ⟨h, rfl⟩
  · rw [h]
    cases container <;> rfl
  · rw [h]

/-- The format of a setting, as the code reads it. -/
theorem ofJson_format {setting : Dict} {container : Container} :
    Container.ofJson (Dict.getD setting (lit "format") (.str (lit "wav"))) = some container ↔
      IsContainer setting container := by
  unfold Dict.getD IsContainer
  cases hg : Dict.get? setting (lit "format") with
  | none =>
    constructor
    · intro h
      exact .inr ⟨rfl, by cases h; rfl⟩
    · rintro (e | ⟨-, rfl⟩)
      · cases e
      · rfl
  | some v =>
    constructor
    · intro h
      exact .inl (congrArg some (ofJson_some h))
    · rintro (e | ⟨e, -⟩) <;> cases e
      cases container <;> rfl

/-- A member of an enum, as the code reads it. -/
theorem memberOf_getD (setting : Dict) (field : Str) {enum : List Int} {default : Int}
    (hdef : default ∈ enum) :
    (∀ n, memberOf enum (Dict.getD setting field (.int default)) = some n →
      IsMember setting field enum ∧ n = intField setting field default) ∧
    (memberOf enum (Dict.getD setting field (.int default)) = none →
      ¬ IsMember setting field enum) := by
  unfold Dict.getD IsMember intField
  cases hg : Dict.get? setting field with
  | none =>
    rw [Option.getD_none, memberOf, if_pos hdef]
    exact ⟨fun n h => ⟨.inl rfl, by cases h; rfl⟩, fun h => by cases h⟩
  | some v =>
    rw [Option.getD_some]
    unfold memberOf
    split
    · rename_i n
      split
      · rename_i hn
        refine ⟨fun m h => ?_, fun h => (by cases h)⟩
        cases h
        exact ⟨.inr ⟨n, hn, rfl⟩, rfl⟩
      · rename_i hn
        refine ⟨fun m h => (by cases h), fun _ => ?_⟩
        rintro (e | ⟨m, hm, e⟩) <;> cases e
        exact hn hm
    · rename_i hv
      refine ⟨fun m h => (by cases h), fun _ => ?_⟩
      rintro (e | ⟨m, hm, e⟩) <;> cases e
      exact hv m rfl

theorem resolveSetting_checks : Checks P body hexCeilingBytes settingRules.tail
    (resolveSetting P (settingOf body)) (· = planOf (settingOf body)) := by
  unfold resolveSetting
  simp only
  split
  · rename_i hc
    refine checks_fail (fun ⟨c, h⟩ => ?_) (refuseShowing_reports (repr_getD_setting rfl rfl))
    rw [ofJson_format.mpr h] at hc
    cases hc
  rename_i container hc
  have hcont := ofJson_format.mp hc
  refine .pass (fieldRule_holds.mpr ⟨container, hcont⟩) ?_
  obtain ⟨hrate, hrate'⟩ := memberOf_getD (settingOf body) (lit "sample_rate")
    (show nativeSampleRate ∈ sampleRateEnum by decide)
  split
  · rename_i hn
    exact checks_fail (hrate' hn) (refuseShowing_reports (repr_getD_setting rfl rfl))
  rename_i rate hn
  obtain ⟨hmem, hval⟩ := hrate rate hn
  refine .pass (fieldRule_holds.mpr hmem) ?_
  have hcont := containerOf_eq hcont
  split
  · rename_i hne
    rw [← hcont] at hne
    split
    · rename_i hb
      refine checks_fail (fun h => ?_) (refuse_reports _ _ _)
      rw [if_neg hne] at h
      rw [Dict.has, h] at hb
      cases hb
    · rename_i hb
      refine checks_pass ?_ ?_
      · rw [if_neg hne]
        exact Option.not_isSome_iff_eq_none.mp hb
      · rw [planOf, hcont, hval, if_neg (hcont ▸ hne)]
  · rename_i he
    have he := (hcont.trans (not_not.mp he))
    obtain ⟨hbit, hbit'⟩ := memberOf_getD (settingOf body) (lit "bitrate")
      (show defaultMp3Bitrate ∈ bitrateEnum by decide)
    split
    · rename_i hn
      refine checks_fail (fun h => ?_) (refuseShowing_reports (repr_getD_setting rfl rfl))
      rw [if_pos he] at h
      exact hbit' hn h
    · rename_i bitrate hn
      obtain ⟨hmem, hbval⟩ := hbit bitrate hn
      refine checks_pass ?_ ?_
      · rw [if_pos he]
        exact hmem
      · rw [planOf, ← hcont, hval, if_pos he, hbval]

theorem resolveTranscode_checks : Checks P body hexCeilingBytes settingRules
    (resolveTranscode P (Dict.get body (lit "audio_setting"))) (· = planOf (settingOf body)) := by
  have hpass : ∀ setting, settingOf body = setting →
      (Dict.get? body (lit "audio_setting") = none ∨
        Dict.get? body (lit "audio_setting") = some .null ∨
        ∃ setting, Dict.get? body (lit "audio_setting") = some (.obj setting)) →
      Checks P body hexCeilingBytes settingRules (resolveSetting P setting)
        (· = planOf (settingOf body)) := by
    rintro _ rfl h
    exact .pass (fieldRule_holds.mpr h) resolveSetting_checks
  cases hg : Dict.get? body (lit "audio_setting") with
  | none =>
    rw [Dict.get, hg]
    exact hpass [] (by rw [settingOf, hg]) (.inl hg)
  | some v =>
    rw [get_of_get? hg]
    cases v with
    | null => exact hpass [] (by rw [settingOf, hg]) (.inr (.inl hg))
    | obj setting => exact hpass setting (by rw [settingOf, hg]) (.inr (.inr ⟨setting, hg⟩))
    | _ =>
      refine checks_fail ?_ (refuse_reports _ _ _)
      rintro (e | e | ⟨_, e⟩) <;> cases hg.symm.trans e

theorem checkHexCeiling_checks {outputFormat : OutputFormat} {maxNewTokens : Int}
    {plan : TranscodePlan} (hf : IsDelivery body outputFormat)
    (hm : maxNewTokens = intField body (lit "max_new_tokens") 9000)
    (hp : plan = planOf (settingOf body)) :
    Checks P body hexCeilingBytes [ceilingRule P hexCeilingBytes]
      (checkHexCeiling P outputFormat maxNewTokens plan hexCeilingBytes) fun _ => True := by
  subst hm hp
  unfold checkHexCeiling
  simp only
  split
  · rename_i h
    obtain ⟨rfl, hlt⟩ := h
    refine checks_fail (fun hle => Int.not_le.mpr hlt (hle hf)) (refuseShowing_reports fun hs => ?_)
    have hc := hs.ceiling
    simp only [intsOk, decide_eq_true_eq] at hc
    exact ⟨_, by rw [intStr, fault, if_neg (Nat.not_lt.mpr hc)]⟩
  · rename_i h
    refine checks_pass (fun hhex => ?_) trivial
    have : outputFormat = .hex := by
      cases outputFormat with
      | hex => rfl
      | url =>
        rcases hhex with e | e <;> cases hf.symm.trans e
    exact Int.not_lt.mp fun hlt => h ⟨this, hlt⟩

end

/-- `translate` decides the grammar. -/
theorem translate_judges (P : Platform) (v : Json) (hexCeilingBytes : Int) :
    Judges (Reports P v hexCeilingBytes) (cloudGrammar P hexCeilingBytes) v
      (translate P v hexCeilingBytes) fun r => ∃ body, v = .obj body ∧ Documented body r := by
  have hobject : ∀ {v : Json}, (∀ body, v ≠ .obj body) → ¬ objectRule.Holds v :=
    fun h ⟨body, e⟩ => h body e
  unfold translate
  split
  swap
  · rename_i hv
    exact .fail (hobject hv) (refuse_reports _ _ _)
  rename_i body
  refine .pass ⟨body, rfl⟩ ?_
  refine checkModel_checks.step fun _ _ => ?_
  refine (refuseFlag_checks _).step fun _ _ => ?_
  refine (refuseFlag_checks _).step fun _ _ => ?_
  refine (refuseFlag_checks _).step fun _ _ => ?_
  refine (refuseCover_checks _).step fun _ _ => ?_
  refine (refuseCover_checks _).step fun _ _ => ?_
  refine (refuseCover_checks _).step fun _ _ => ?_
  refine (requireText_checks _ _).step fun prompt hprompt => ?_
  refine (requireText_checks _ _).step fun lyrics hlyrics => ?_
  refine outputFormatOf_checks.step fun outputFormat hformat => ?_
  refine (validateInt_checks _ (by decide) (by intro m hm; cases hm)).step fun seed hseed => ?_
  refine (validateInt_checks _ (by decide) (by intro m hm; cases hm; decide)).step
    fun maxNewTokens hmax => ?_
  refine resolveTranscode_checks.bind fun plan hplan => ?_
  refine (checkHexCeiling_checks hformat hmax.1 hplan).step fun _ _ => .pure ⟨body, rfl, ?_⟩
  have hne : ∀ {field max s}, IsText body field max s → s ≠ [] := by
    rintro _ _ _ ⟨-, h, -⟩ rfl
    cases h
  exact {
    input := hlyrics
    instructions := hprompt
    seed := hseed.1
    maxNewTokens := hmax.1
    outputFormat := hformat
    plan := hplan
    cloud := get?_recordedCloud_eq
    keys := keys_recordedCloud
    native := ⟨hne hlyrics, hne hprompt, hseed.2.1, hmax.2.1, hmax.2.2 _ rfl⟩ }

/-- A refusal names the first rule that is broken. -/
theorem translate_refused {P : Platform} {v : Json} {hexCeilingBytes : Int} {e : CompatError}
    (h : translate P v hexCeilingBytes = .error (.compat e)) :
    e.code = 2013 ∧ FirstFault (cloudGrammar P hexCeilingBytes) v e.field := by
  obtain ⟨n, hn, hcode, hfield⟩ := (translate_judges P v hexCeilingBytes).error _ h
  exact ⟨hcode, hfield ▸ hn⟩

/-- Another exception needs a value that has no text. -/
theorem translate_raised {P : Platform} {v : Json} {hexCeilingBytes : Int} {e : JsonError}
    (h : translate P v hexCeilingBytes = .error (.raised e)) : ¬ Showable P v hexCeilingBytes := by
  obtain ⟨n, -, hs⟩ := (translate_judges P v hexCeilingBytes).error _ h
  exact hs

/-- `translate` returns exactly on the grammar, with the request that the body stands for; a refusal
has the code 2013 and names the first rule that is broken. Another exception needs a value that has
no text; the decoder returns none. -/
theorem translate_grammar (P : Platform) (v : Json) (hexCeilingBytes : Int) :
    ((∃ r, translate P v hexCeilingBytes = .ok r) ↔ Meets (cloudGrammar P hexCeilingBytes) v) ∧
    (∀ r, translate P v hexCeilingBytes = .ok r → ∃ body, v = .obj body ∧ Documented body r) ∧
    (∀ e, translate P v hexCeilingBytes = .error (.compat e) →
      e.code = 2013 ∧ FirstFault (cloudGrammar P hexCeilingBytes) v e.field) ∧
    (∀ e, translate P v hexCeilingBytes = .error (.raised e) → ¬ Showable P v hexCeilingBytes) ∧
    (∀ b, P.load b = .ok v → intsOk (.int hexCeilingBytes) = true →
      Showable P v hexCeilingBytes) := by
  have h := translate_judges P v hexCeilingBytes
  exact ⟨h.returns_iff, fun r hr => (h.ok r hr).2, fun _ he => translate_refused he,
    fun _ he => translate_raised he, fun _ hb hc => load_showable hb hc⟩

/-! ## Values that have no text -/

theorem natText_length_lt {n k : Nat} (h : 10 ^ k ≤ n) : k < (natText n).length := by
  have hlt := natOf_lt (natText_digits n)
  rw [natOf_natText] at hlt
  exact (Nat.pow_lt_pow_iff_right (by decide)).mp (Nat.lt_of_le_of_lt h hlt)

theorem fault_overlong {n : Int} (h : 10 ^ maxStrDigits ≤ n.natAbs) (d : Nat) :
    fault d (.int n) = some .value := by
  rw [fault, if_pos (natText_length_lt h)]

namespace Sample

/-- A cloud request with only the required fields. -/
def hexBody : Dict := [
  (lit "model", .str (lit "music-3.0")),
  (lit "prompt", .str (lit "warm")),
  (lit "lyrics", .str (lit "[Verse]"))]

end Sample

/-- A ceiling of 4301 digits, and a model of as many: the message of the refusal cannot be made. -/
theorem translate_unshowable :
    translate Sample.platform (.obj Sample.hexBody) (-(10 ^ maxStrDigits : Nat)) =
      .error (.raised .value) ∧
    translate Sample.platform (.obj [(lit "model", .int (10 ^ maxStrDigits : Nat))]) =
      .error (.raised .value) := by
  have hrun : ∀ c, translate Sample.platform (.obj Sample.hexBody) c =
      (checkHexCeiling Sample.platform .hex 9000 ⟨.wav, 32000, 2, none⟩ c).bind fun _ =>
        .ok ⟨lit "[Verse]", lit "warm", 0, 9000, .hex, ⟨.wav, 32000, 2, none⟩, Sample.hexBody⟩ :=
    fun _ => rfl
  have hmodel : ∀ n, translate Sample.platform (.obj [(lit "model", .int n)]) =
      .error (refuseShowing (lit "model") (Sample.platform.repr (.int n)) fun text =>
        lit "model must be " ++ Sample.platform.reprText (.str modelId) ++ lit "; got " ++ text) :=
    fun _ => rfl
  have hpos : 0 < 10 ^ maxStrDigits := Nat.pow_pos (by decide)
  generalize hn : 10 ^ maxStrDigits = n at hpos
  refine ⟨?_, ?_⟩
  · have hlt : (-(n : Int)) < estimateHexBytes Sample.platform 9000 ⟨.wav, 32000, 2, none⟩ := by
      rw [show estimateHexBytes Sample.platform 9000 ⟨.wav, 32000, 2, none⟩ = 1 from rfl]
      omega
    rw [hrun, checkHexCeiling, if_pos ⟨rfl, hlt⟩, intStr, fault_overlong]
    · rfl
    · rw [Int.natAbs_neg, Int.natAbs_natCast, hn]
  · rw [hmodel, Platform.repr, fault_overlong]
    · rfl
    · rw [Int.natAbs_natCast, hn]

end Music3
