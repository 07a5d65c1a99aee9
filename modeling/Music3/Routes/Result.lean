import Music3.Compat.Grammar
import Music3.Jobs.Sidecar
import Music3.Routes.Desk

/-!
# The result route

What `music_result` answers for a stored state that nobody changes.

* `settingRead`: what the bytes of a sidecar give the route. The read handles `OSError` and
  `ValueError`, and each level below the top is looked at before it is used, but the top is not:
  a sidecar that is no `dict` raises `AttributeError`, and one that nests too deep `RecursionError`.
* `ResultEnds`: the ways out of the route; `musicResult_ends`.
* `music_result_total`: the route is total (`ResultTotal`) if and only if the sidecar, where it is
  read, is `Usable`, and the temp file, where it is made, can be stat'ed.
-/

namespace Music3

open Py Json Posix StateExcept

/-! ## What the answers depend on -/

/-- The sidecar of a pair that can be served records the setting. -/
def Recorded (P : Platform) (root : Option Str) (fs : Fs) (traceId : Str) (setting : Json) : Prop :=
  ∃ path data v cloud, root = some path ∧ Servable path fs traceId ∧
    fs.held traceId sidecarName = some data ∧ P.load data = .ok v ∧
    v.at? [lit "request", lit "cloud"] = some (.obj cloud) ∧
    setting = Dict.get cloud (lit "audio_setting")

/-- The id is invalid, the pair is not complete, or the sidecar is no JSON or has no object under
`request.cloud`. -/
def NoCloud (P : Platform) (root : Option Str) (fs : Fs) (traceId : Str) : Prop :=
  ∀ path data, root = some path → Servable path fs traceId →
    fs.held traceId sidecarName = some data → P.load data = .error .value ∨
      ∃ v, P.load data = .ok v ∧ ∀ cloud, v.at? [lit "request", lit "cloud"] ≠ some (.obj cloud)

/-- `music_result` answers 404, 503 with the code 5000, or 200, each exactly when it should, and
raises nothing else; every descriptor is closed. -/
structure ResultTotal (P : Platform) (root : Option Str) (t : Tools) (traceId : Str) (d : Desk) :
    Prop where
  notFound_iff : (∃ d', (musicResult P root t traceId).run d = .error notFound d') ↔
    NoCloud P root d.sys.fs traceId
  failure_iff : (∃ message d', (musicResult P root t traceId).run d =
      .ok (.json ⟨503, errorEnvelope 5000 message (some traceId)⟩) d') ↔
    ∃ setting, Recorded P root d.sys.fs traceId setting ∧
      ((∃ e, resolveTranscode P setting = .error e) ∨ ∃ e, t.made = .error e)
  delivered_iff : (∃ tmp mediaType length d', (musicResult P root t traceId).run d =
      .ok (.file tmp mediaType length) d') ↔
    ∃ setting plan tmp, Recorded P root d.sys.fs traceId setting ∧
      resolveTranscode P setting = .ok plan ∧ t.made = .ok tmp
  total : (∃ d', (musicResult P root t traceId).run d = .error notFound d') ∨
    (∃ message d', (musicResult P root t traceId).run d =
      .ok (.json ⟨503, errorEnvelope 5000 message (some traceId)⟩) d') ∨
    ∃ tmp mediaType length d', (musicResult P root t traceId).run d =
      .ok (.file tmp mediaType length) d'
  closed : (∀ a d', (musicResult P root t traceId).run d = .ok a d' → ClosedOnce d.sys d'.sys []) ∧
    ∀ e d', (musicResult P root t traceId).run d = .error e d' → ClosedOnce d.sys d'.sys []

/-- The sidecar that is read is a `dict`, or no JSON; the temp file that is made can be stat'ed. -/
structure ResultHandled (P : Platform) (root : Option Str) (t : Tools) (traceId : Str) (fs : Fs) :
    Prop where
  usable : ∀ path data, root = some path → Servable path fs traceId →
    fs.held traceId sidecarName = some data → Usable P data
  sized : ∀ setting plan tmp, Recorded P root fs traceId setting →
    resolveTranscode P setting = .ok plan → t.made = .ok tmp → t.stat = none

/-! ## Reading the sidecar -/

/-- What the route reads from the bytes of a sidecar. -/
def settingRead (P : Platform) (data : Bytes) : Except PostExc Json :=
  match P.load data with
  | .error .value => .error notFound
  | .error .recursion => .error (.exc .recursion)
  | .ok v => (getter v).bind fun sidecar =>
    match cloudOf sidecar with
    | .obj cloud => .ok (Dict.get cloud (lit "audio_setting"))
    | _ => .error notFound

section
variable {P : Platform} {root traceId : Str} {data : Bytes}

theorem cloudOf_iff {sidecar cloud : Dict} : cloudOf sidecar = .obj cloud ↔
    (Json.obj sidecar).at? [lit "request", lit "cloud"] = some (.obj cloud) := by
  show _ ↔ (Dict.get? sidecar _).bind (fun x => x.at? [lit "cloud"]) = _
  unfold cloudOf Dict.get
  cases Dict.get? sidecar (lit "request") with
  | none => exact ⟨nofun, nofun⟩
  | some v =>
    cases v with
    | obj request =>
      show (Dict.get? request _).getD .null = _ ↔ (Dict.get? request _).bind (fun x => x.at? []) = _
      cases Dict.get? request (lit "cloud") with
      | none => exact ⟨nofun, nofun⟩
      | some c => exact ⟨fun h => congrArg some h, fun h => Option.some.inj h⟩
    | _ => exact ⟨nofun, nofun⟩

/-- How a sidecar is read. -/
inductive SettingRead (P : Platform) (data : Bytes) : Except PostExc Json → Prop
  | noJson : P.load data = .error .value → SettingRead P data (.error notFound)
  | noCloud (kvs : Dict) : P.load data = .ok (.obj kvs) →
      (∀ cloud, (Json.obj kvs).at? [lit "request", lit "cloud"] ≠ some (.obj cloud)) →
      SettingRead P data (.error notFound)
  | recorded (kvs cloud : Dict) : P.load data = .ok (.obj kvs) →
      (Json.obj kvs).at? [lit "request", lit "cloud"] = some (.obj cloud) →
      SettingRead P data (.ok (Dict.get cloud (lit "audio_setting")))
  | raised (e : Exc) : ¬ Usable P data → SettingRead P data (.error (.exc e))

theorem settingRead_cases (P : Platform) (data : Bytes) :
    SettingRead P data (settingRead P data) := by
  unfold settingRead
  cases hload : P.load data with
  | error e =>
    cases e with
    | value => exact .noJson hload
    | recursion =>
      refine .raised _ fun h => ?_
      rcases h with h | ⟨kvs, h⟩ <;> rw [hload] at h <;> cases h
  | ok v =>
    cases v with
    | obj kvs =>
      show SettingRead P data (match cloudOf kvs with | .obj cloud => _ | _ => _)
      split
      · rename_i cloud hc
        exact .recorded kvs cloud hload (cloudOf_iff.mp hc)
      · rename_i hc
        exact .noCloud kvs hload fun cloud h => hc cloud (cloudOf_iff.mpr h)
    | _ =>
      refine .raised _ fun h => ?_
      rcases h with h | ⟨kvs, h⟩ <;> rw [hload] at h <;> cases h

/-- `_recorded_audio_setting` of a pair that cannot be served. -/
theorem recordedAudioSetting_missing {d : Desk} (hs : d.sys.turns = [])
    (h : ¬ Servable root d.sys.fs traceId) :
    ∃ d', (recordedAudioSetting P root traceId).run d = .error notFound d' := by
  obtain ⟨r, t, hrun, -, -, hserved, -⟩ := openOrNone_still _ _ hs (.inr rfl)
  have hnone : r = none := Option.not_isSome_iff_eq_none.mp (mt hserved.mp h)
  subst hnone
  unfold recordedAudioSetting
  rw [run_seq_ok (run_onSys_ok hrun)]
  exact ⟨_, rfl⟩

/-- `_recorded_audio_setting` of a pair that can be served. -/
theorem recordedAudioSetting_still {d : Desk} (hs : d.sys.turns = [])
    (h : Servable root d.sys.fs traceId) (hd : d.sys.fs.held traceId sidecarName = some data) :
    ∃ d', d'.sys.turns = [] ∧ d'.sys.fs = d.sys.fs ∧
      (recordedAudioSetting P root traceId).run d = endsAs (settingRead P data) d' := by
  obtain ⟨r, t, hrun, ht, hfs, hserved, hheld⟩ := openOrNone_still _ _ hs (.inr rfl)
  obtain ⟨⟨fd, size⟩, rfl⟩ := Option.isSome_iff_exists.mp (hserved.mpr h)
  have hfile := (hheld fd size rfl).trans hd
  have hbody : (do let b ← call (readAll fd); ofExcept ((P.load b).mapError Exc.ofLoad) :
      FsM Json).run t = endsAs ((P.load data).mapError Exc.ofLoad) t := by
    rw [run_seq_ok (run_readAll ht hfile)]
    cases P.load data <;> rfl
  refine ⟨⟨{ t with log := t.log ++ [.closed fd] }, d.temps⟩, ht, hfs, ?_⟩
  unfold recordedAudioSetting settingRead
  rw [run_seq_ok (run_onSys_ok hrun)]
  simp only
  cases hload : P.load data with
  | error e =>
    rw [hload] at hbody
    have hread := run_onSys_error (d := ⟨t, d.temps⟩) (run_finallyClose_error fd hbody)
    cases e <;> exact run_seq_error (by rw [exceptIf, run_tryCatch, hread]; rfl)
  | ok v =>
    rw [hload] at hbody
    have hread := run_onSys_ok (d := ⟨t, d.temps⟩) (run_finallyClose_ok fd hbody)
    rw [run_seq_ok (by rw [exceptIf, run_tryCatch, hread])]
    cases v with
    | obj kvs =>
      rw [run_seq_ok (run_ofExcept_ok (x := getter (.obj kvs)) rfl _)]
      show EStateM.run (match cloudOf kvs with | .obj cloud => _ | _ => _) _ =
        endsAs (match cloudOf kvs with | .obj cloud => _ | _ => _) _
      split <;> rfl
    | _ => exact run_seq_error (run_ofExcept_error rfl _)

end

/-! ## The answers -/

section
variable {P : Platform} {root : Option Str} {fs : Fs} {traceId : Str} {setting setting' : Json}

theorem Recorded.unique (h : Recorded P root fs traceId setting)
    (h' : Recorded P root fs traceId setting') : setting = setting' := by
  obtain ⟨_, _, _, _, -, -, hd, hl, hc, rfl⟩ := h
  obtain ⟨_, _, _, _, -, -, hd', hl', hc', rfl⟩ := h'
  cases hd.symm.trans hd'
  cases hl.symm.trans hl'
  cases hc.symm.trans hc'
  rfl

theorem NoCloud.not_recorded (h : NoCloud P root fs traceId) :
    ¬ Recorded P root fs traceId setting := by
  rintro ⟨path, data, v, cloud, hroot, hserv, hd, hl, hc, -⟩
  rcases h path data hroot hserv hd with hn | ⟨v', hl', hn⟩
  · cases hl.symm.trans hn
  · cases hl.symm.trans hl'
    exact hn cloud hc

/-- A recorded setting is refused, and nothing else is raised: its values have texts. -/
theorem resolveTranscode_refuses (h : Recorded P root fs traceId setting) (e : JsonError) :
    resolveTranscode P setting ≠ .error (.raised e) := by
  obtain ⟨path, data, v, cloud, -, -, -, hload, hc, rfl⟩ := h
  obtain ⟨kvs, rfl⟩ : ∃ kvs, v = .obj kvs := by
    cases v <;> first | exact ⟨_, rfl⟩ | cases hc
  have hcloud := cloudOf_iff.mpr hc
  have hshow : Showable P (.obj kvs) 0 := load_showable hload (intsOk_of_lt (n := 0) (by decide))
  have hshow' : Showable P (.obj cloud) 0 := by
    unfold cloudOf at hcloud
    split at hcloud
    · rename_i request hr
      have hreq := hshow.get (lit "request")
      rw [hr] at hreq
      have := hreq.get (lit "cloud")
      rwa [hcloud] at this
    · cases hcloud
  intro he
  obtain ⟨_, -, hn⟩ := resolveTranscode_checks.error _ he
  exact hn hshow'

/-- How `music_result` ends. -/
inductive ResultEnds (P : Platform) (root : Option Str) (t : Tools) (traceId : Str) (fs : Fs) :
    EStateM.Result PostExc Desk Answer → Prop
  | notFound (d' : Desk) : NoCloud P root fs traceId →
      (∀ path data, root = some path → Servable path fs traceId →
        fs.held traceId sidecarName = some data → Usable P data) →
      ResultEnds P root t traceId fs (.error notFound d')
  | refused (setting : Json) (message : Str) (e : EdgeError) (d' : Desk) :
      Recorded P root fs traceId setting → resolveTranscode P setting = .error e →
      ResultEnds P root t traceId fs
        (.ok (.json ⟨503, errorEnvelope 5000 message (some traceId)⟩) d')
  | failed (setting : Json) (plan : TranscodePlan) (message : Str) (e : PostExc) (d' : Desk) :
      Recorded P root fs traceId setting → resolveTranscode P setting = .ok plan →
      t.made = .error e → ResultEnds P root t traceId fs
        (.ok (.json ⟨503, errorEnvelope 5000 message (some traceId)⟩) d')
  | delivered (setting : Json) (plan : TranscodePlan) (tmp : Str) (d' : Desk) :
      Recorded P root fs traceId setting → resolveTranscode P setting = .ok plan →
      t.made = .ok tmp → t.stat = none →
      ResultEnds P root t traceId fs (.ok (.file tmp plan.mediaType t.output.length) d')
  | unsized (setting : Json) (plan : TranscodePlan) (tmp : Str) (e : Errno) (d' : Desk) :
      Recorded P root fs traceId setting → resolveTranscode P setting = .ok plan →
      t.made = .ok tmp → t.stat = some e →
      ResultEnds P root t traceId fs (.error (.exc (.os e)) d')
  | raised (path : Str) (data : Bytes) (e : Exc) (d' : Desk) : root = some path →
      Servable path fs traceId → fs.held traceId sidecarName = some data → ¬ Usable P data →
      ResultEnds P root t traceId fs (.error (.exc e) d')

theorem musicResult_ends {d : Desk} (hs : d.sys.turns = []) (root : Option Str) (t : Tools)
    (traceId : Str) :
    ResultEnds P root t traceId d.sys.fs ((musicResult P root t traceId).run d) := by
  unfold musicResult
  cases root with
  | none => exact .notFound d (fun _ _ h => by cases h) fun _ _ h => by cases h
  | some root =>
    simp only
    by_cases hserv : Servable root d.sys.fs traceId
    swap
    · obtain ⟨d', hread⟩ := recordedAudioSetting_missing (P := P) hs hserv
      rw [run_seq_error hread]
      exact .notFound d' (fun _ _ h hs' => by cases h; exact absurd hs' hserv) fun _ _ h hs' => by
        cases h; exact absurd hs' hserv
    obtain ⟨data, hd⟩ := Option.isSome_iff_exists.mp
      (Bool.and_eq_true _ _ ▸ (show (_ && _) = true from hserv.2.2)).2
    obtain ⟨d', hs', hfs, hread⟩ := recordedAudioSetting_still (P := P) hs hserv hd
    have hcases := settingRead_cases P data
    generalize settingRead P data = r at hread hcases
    cases hcases with
    | noJson hl =>
      rw [run_seq_error hread]
      refine .notFound d' (fun _ _ h _ hd' => ?_) fun _ _ h _ hd' => ?_ <;> cases h <;>
        cases hd.symm.trans hd'
      · exact .inl hl
      · exact .inl hl
    | noCloud kvs hl hc =>
      rw [run_seq_error hread]
      refine .notFound d' (fun _ _ h _ hd' => ?_) fun _ _ h _ hd' => ?_ <;> cases h <;>
        cases hd.symm.trans hd'
      · exact .inr ⟨_, hl, hc⟩
      · exact .inr ⟨kvs, hl⟩
    | raised e hu =>
      rw [run_seq_error hread]
      exact .raised root data e d' rfl hserv hd hu
    | recorded kvs cloud hl hc =>
      have hrec : Recorded P (some root) d.sys.fs traceId (Dict.get cloud (lit "audio_setting")) :=
        ⟨root, data, _, cloud, rfl, hserv, hd, hl, hc, rfl⟩
      generalize Dict.get cloud (lit "audio_setting") = setting at hread hrec
      rw [run_seq_ok hread]
      have hid := isJobId_ascii hserv.1
      cases hplan : resolveTranscode P setting with
      | error e =>
        cases e with
        | raised e => exact absurd hplan (resolveTranscode_refuses hrec e)
        | compat e =>
          simp only
          rw [run_ofExcept_ok (localFailureAnswer_ok hid (ascii_lit (by decide)))]
          exact .refused setting _ _ d' hrec hplan
      | ok plan =>
        obtain ⟨o, u, hopen, hu, hufs, hserved, -⟩ := openOrNone_still root traceId hs'
          (.inl rfl)
        obtain ⟨⟨fd, size⟩, rfl⟩ := Option.isSome_iff_exists.mp (hserved.mpr (hfs ▸ hserv))
        simp only
        rw [run_seq_ok (run_onSys_ok hopen)]
        cases hmade : t.made with
        | error e =>
          rw [run_seq_ok (tryTranscode_error hmade)]
          simp only
          rw [run_ofExcept_ok (localFailureAnswer_ok hid (ascii_lit (by decide)))]
          exact .failed setting plan _ e _ hrec hplan hmade
        | ok tmp =>
          rw [run_seq_ok (tryTranscode_ok hmade)]
          simp only
          cases hstat : t.stat with
          | some e =>
            rw [run_seq_error (run_ofExcept_error (by rw [Tools.size, hstat]) _)]
            exact .unsized setting plan tmp e _ hrec hplan hmade hstat
          | none =>
            rw [run_seq_ok (run_ofExcept_ok (by rw [Tools.size, hstat]) _)]
            exact .delivered setting plan tmp _ hrec hplan hmade hstat

/-- A sidecar that records a setting is a `dict`. -/
theorem Recorded.usable {data : Bytes} (h : Recorded P root fs traceId setting)
    (hd : fs.held traceId sidecarName = some data) : Usable P data := by
  obtain ⟨_, data', v, cloud, -, -, hd', hl, hc, -⟩ := h
  cases hd.symm.trans hd'
  cases v with
  | obj kvs => exact .inr ⟨kvs, hl⟩
  | _ => cases hc

section
variable {t : Tools} {d d' : Desk}

theorem musicResult_closes (P : Platform) (root : Option Str) (t : Tools) (traceId : Str)
    (d : Desk) :
    (∀ a d', (musicResult P root t traceId).run d = .ok a d' → ClosedOnce d.sys d'.sys []) ∧
    ∀ e d', (musicResult P root t traceId).run d = .error e d' → ClosedOnce d.sys d'.sys [] := by
  obtain ⟨hok, herr⟩ := musicResult_hands P traceId root t d d rfl
  exact ⟨fun a d' h => (hok a d' h).closedOnce, fun e d' h => (herr e d' h).closedOnce⟩

theorem total_of_notFound (hrun : (musicResult P root t traceId).run d = .error notFound d')
    (hno : NoCloud P root d.sys.fs traceId) : ResultTotal P root t traceId d where
  notFound_iff := ⟨fun _ => hno, fun _ => ⟨d', hrun⟩⟩
  failure_iff := by
    rw [hrun]
    exact ⟨nofun, fun ⟨_, hrec, _⟩ => absurd hrec hno.not_recorded⟩
  delivered_iff := by
    rw [hrun]
    exact ⟨nofun, fun ⟨_, _, _, hrec, _⟩ => absurd hrec hno.not_recorded⟩
  total := .inl ⟨d', hrun⟩
  closed := musicResult_closes P root t traceId d

theorem total_of_failure {message : Str} (hrun : (musicResult P root t traceId).run d =
      .ok (.json ⟨503, errorEnvelope 5000 message (some traceId)⟩) d')
    (hrec : Recorded P root d.sys.fs traceId setting)
    (hfail : (∃ e, resolveTranscode P setting = .error e) ∨ ∃ e, t.made = .error e) :
    ResultTotal P root t traceId d where
  notFound_iff := by
    rw [hrun]
    exact ⟨nofun, fun hno => absurd hrec hno.not_recorded⟩
  failure_iff := ⟨fun _ => ⟨setting, hrec, hfail⟩, fun _ => ⟨message, d', hrun⟩⟩
  delivered_iff := by
    rw [hrun]
    refine ⟨nofun, fun ⟨setting', plan, tmp, hrec', hplan, hmade⟩ => ?_⟩
    cases hrec.unique hrec'
    rcases hfail with ⟨e, he⟩ | ⟨e, he⟩
    · cases he.symm.trans hplan
    · cases he.symm.trans hmade
  total := .inr (.inl ⟨message, d', hrun⟩)
  closed := musicResult_closes P root t traceId d

theorem total_of_delivered {plan : TranscodePlan} {tmp : Str} {length : Int}
    (hrun : (musicResult P root t traceId).run d = .ok (.file tmp plan.mediaType length) d')
    (hrec : Recorded P root d.sys.fs traceId setting)
    (hplan : resolveTranscode P setting = .ok plan) (hmade : t.made = .ok tmp) :
    ResultTotal P root t traceId d where
  notFound_iff := by
    rw [hrun]
    exact ⟨nofun, fun hno => absurd hrec hno.not_recorded⟩
  failure_iff := by
    rw [hrun]
    refine ⟨nofun, fun ⟨setting', hrec', hfail⟩ => ?_⟩
    cases hrec.unique hrec'
    rcases hfail with ⟨e, he⟩ | ⟨e, he⟩
    · cases he.symm.trans hplan
    · cases he.symm.trans hmade
  delivered_iff := ⟨fun _ => ⟨setting, plan, tmp, hrec, hplan, hmade⟩,
    fun _ => ⟨tmp, plan.mediaType, length, d', hrun⟩⟩
  total := .inr (.inr ⟨tmp, plan.mediaType, length, d', hrun⟩)
  closed := musicResult_closes P root t traceId d

/-- The result route is total exactly where it can read the sidecar, and stat the temp file. -/
theorem music_result_total (hs : d.sys.turns = []) :
    ResultTotal P root t traceId d ↔ ResultHandled P root t traceId d.sys.fs := by
  have hends := musicResult_ends (P := P) hs root t traceId
  generalize hrun : (musicResult P root t traceId).run d = r at hends
  constructor
  · intro h
    have htotal := h.total
    rw [hrun] at htotal
    cases hends with
    | notFound d' hno hu =>
      exact ⟨hu, fun _ _ _ hrec => absurd hrec hno.not_recorded⟩
    | refused setting message e d' hrec he =>
      refine ⟨fun _ _ _ _ hd => hrec.usable hd, fun _ plan _ hrec' hplan => ?_⟩
      cases hrec.unique hrec'
      cases he.symm.trans hplan
    | failed setting plan message e d' hrec hplan hmade =>
      refine ⟨fun _ _ _ _ hd => hrec.usable hd, fun _ _ _ _ _ hmade' => ?_⟩
      cases hmade.symm.trans hmade'
    | delivered setting plan tmp d' hrec hplan hmade hstat =>
      exact ⟨fun _ _ _ _ hd => hrec.usable hd, fun _ _ _ _ _ _ => hstat⟩
    | unsized | raised =>
      rcases htotal with ⟨_, h⟩ | ⟨_, _, h⟩ | ⟨_, _, _, _, h⟩ <;> cases h
  · rintro ⟨hu, hz⟩
    cases hends with
    | notFound d' hno hu' => exact total_of_notFound hrun hno
    | refused setting message e d' hrec he => exact total_of_failure hrun hrec (.inl ⟨e, he⟩)
    | failed setting plan message e d' hrec hplan hmade =>
      exact total_of_failure hrun hrec (.inr ⟨e, hmade⟩)
    | delivered setting plan tmp d' hrec hplan hmade hstat =>
      exact total_of_delivered hrun hrec hplan hmade
    | unsized setting plan tmp e d' hrec hplan hmade hstat =>
      cases hstat.symm.trans (hz setting plan tmp hrec hplan hmade)
    | raised path data e d' hroot hserv hd hnot =>
      exact absurd (hu path data hroot hserv hd) hnot

end

end

namespace Sample

/-- A sidecar whose cloud request has no `audio_setting`. -/
def cloudSidecar : Dict := [(lit "request", .obj [(lit "cloud", .obj [])])]

def cloudSidecarData : Bytes := (encodeSidecar platform cloudSidecar).toOption.getD []

/-- It is recorded as `null`. -/
theorem cloudSidecar_recorded : Recorded platform (some (lit "/artifacts"))
    (withSidecar cloudSidecarData).fs (lit "0a") .null := by
  have hload : platform.load cloudSidecarData = .ok (reread (.obj cloudSidecar)) :=
    encodeSidecar_load rfl
  have hat : (reread (.obj cloudSidecar)).at? [lit "request", lit "cloud"] = some (.obj []) :=
    at?_reread (sound_two (.of_keys [lit "request"] rfl (by decide)) (plain_lit rfl) rfl
      (.of_keys [lit "cloud"] rfl (by decide)) (plain_lit rfl))
  exact ⟨lit "/artifacts", _, _, _, rfl, ⟨rfl, rfl, rfl⟩, rfl, hload, hat, rfl⟩

end Sample

/-- A native WAV is delivered. -/
theorem music_result_total_wav :
    ResultTotal Sample.platform (some (lit "/artifacts")) (Sample.tools []) (lit "0a")
      ⟨Sample.withSidecar Sample.cloudSidecarData, []⟩ ∧
    ∃ tmp mediaType length d', (musicResult Sample.platform (some (lit "/artifacts"))
      (Sample.tools []) (lit "0a")).run ⟨Sample.withSidecar Sample.cloudSidecarData, []⟩ =
        .ok (.file tmp mediaType length) d' := by
  have htotal : ResultTotal Sample.platform (some (lit "/artifacts")) (Sample.tools []) (lit "0a")
      ⟨Sample.withSidecar Sample.cloudSidecarData, []⟩ :=
    (music_result_total rfl).mpr ⟨fun path data _ _ hd => Sample.cloudSidecar_recorded.usable hd,
      fun _ _ _ _ _ _ => rfl⟩
  exact ⟨htotal, htotal.delivered_iff.mpr ⟨.null, ⟨.wav, 32000, 2, none⟩, _,
    Sample.cloudSidecar_recorded, rfl, rfl⟩⟩

/-- A sidecar that is a list raises `AttributeError`. -/
theorem music_result_raises : ¬ ∀ (t : Tools) (traceId : Str) (d : Desk), d.sys.turns = [] →
    ResultTotal Sample.platform (some (lit "/artifacts")) t traceId d := by
  intro h
  obtain ⟨e, d', hrun⟩ : ∃ e d', (musicResult Sample.platform (some (lit "/artifacts"))
      (Sample.tools []) (lit "0a")).run ⟨Sample.withSidecar [91, 93], []⟩ =
        .error (.exc (.noAttribute e)) d' := ⟨_, _, rfl⟩
  have htotal := (h (Sample.tools []) (lit "0a") ⟨Sample.withSidecar [91, 93], []⟩ rfl).total
  rw [hrun] at htotal
  rcases htotal with ⟨_, h⟩ | ⟨_, _, h⟩ | ⟨_, _, _, _, h⟩ <;> cases h

end Music3
