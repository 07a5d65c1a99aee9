import Music3.Jobs.Listing
import Music3.Posix.HandsOn
import Music3.Routes.Music

/-!
# Descriptors and temp files of a delivery

* `deliver_hands`, `musicResult_hands`: whatever others change below the root, a delivery closes
  every descriptor that it opens, on every way out.
* `openOrNone_runs`, `openOrNone_still`: `_open_or_none` raises nothing.
* `transcodeToTemp_ok`, `transcodeToTemp_error`: `_transcode_to_temp` closes the audio, and leaves
  a temp file only if it returns it.
-/

namespace Music3

open Py Posix StateExcept

/-! ## Runs -/

section
variable {α : Type} {d : Desk}

theorem run_onSys_ok {m : FsM α} {a : α} {t : Sys} (h : m.run d.sys = .ok a t) :
    (onSys m).run d = .ok a { d with sys := t } := by
  show onSys m d = _
  rw [onSys, h]

theorem run_onSys_error {m : FsM α} {e : Exc} {t : Sys} (h : m.run d.sys = .error e t) :
    (onSys m).run d = .error (.exc e) { d with sys := t } := by
  show onSys m d = _
  rw [onSys, h]

theorem onSys_hands {given : List Fd} {m : FsM α} {held : α → List Fd}
    (h : HandsOn id given m held) :
    HandsOn Desk.sys given (onSys m) held := by
  rintro d d rfl
  obtain ⟨hok, herr⟩ := h d.sys d.sys rfl
  cases hr : m.run d.sys with
  | ok a t =>
    rw [run_onSys_ok hr]
    refine ⟨fun b u hu => ?_, fun e u hu => ?_⟩ <;> cases hu
    exact hok a t hr
  | error e t =>
    rw [run_onSys_error hr]
    refine ⟨fun b u hu => ?_, fun e u hu => ?_⟩ <;> cases hu
    exact herr e t hr

end

section
variable {root jobId name : Str} {s : Sys}

/-! ## `_open_or_none` -/

/-- It raises nothing, and returns what `open_member` returns for a valid id. -/
theorem openOrNone_runs (root jobId : Str) (hname : name = audioName ∨ name = sidecarName)
    (s : Sys) :
    ∃ r t, (openOrNone root jobId name).run s = .ok r t ∧
      Ledger s t [] (r.map Prod.fst).toList ∧
      (isJobId jobId = true → (openMember root jobId name).run s = .ok r t) ∧
      (isJobId jobId = false → r = none) := by
  unfold openOrNone exceptIf
  rw [run_tryCatch]
  cases hid : isJobId jobId with
  | false =>
    rw [openMember_crafted root hname hid]
    exact ⟨none, s, rfl, .refl s [], nofun, fun _ => rfl⟩
  | true =>
    obtain ⟨hok, herr⟩ := openMember_spec root hid hname s rfl
    cases hrun : (openMember root jobId name).run s with
    | ok r t => exact ⟨r, t, rfl, (hok r t hrun).1, fun _ => rfl, nofun⟩
    | error e t => exact (herr e t hrun).elim

theorem openOrNone_hands (root jobId : Str) (hname : name = audioName ∨ name = sidecarName) :
    HandsOn id [] (openOrNone root jobId name) fun r => (r.map Prod.fst).toList := by
  rintro s s rfl
  obtain ⟨r, t, hrun, hl, -⟩ := openOrNone_runs root jobId hname s
  rw [hrun]
  refine ⟨fun a u hu => ?_, fun e u hu => ?_⟩ <;> cases hu
  exact hl

/-- The pair of `jobId` can be served below `root`. -/
def Servable (root : Str) (fs : Fs) (jobId : Str) : Prop :=
  isJobId jobId = true ∧ root = fs.rootPath ∧ complete fs jobId = true

variable (root jobId) in
/-- On a tree that nobody changes, it opens a member exactly if the pair can be served. -/
theorem openOrNone_still (hs : s.turns = []) (hname : name = audioName ∨ name = sidecarName) :
    ∃ r t, (openOrNone root jobId name).run s = .ok r t ∧ t.turns = [] ∧ t.fs = s.fs ∧
      (r.isSome = true ↔ Servable root s.fs jobId) ∧ ∀ fd size, r = some (fd, size) →
        t.fds[fd]?.bind t.fs.file? = s.fs.held jobId name := by
  obtain ⟨r, t, hrun, hl, hvalid, hcrafted⟩ := openOrNone_runs root jobId hname s
  obtain ⟨ht, hfs⟩ := hl.still hs
  have hserved : r.isSome = true ↔ Servable root s.fs jobId := by
    rw [Servable, ← served_iff hs hname]
    cases hid : isJobId jobId with
    | false =>
      rw [hcrafted hid]
      refine ⟨nofun, fun h => absurd (hid.symm.trans ((served_iff hs hname).mp h).1) nofun⟩
    | true =>
      rw [hvalid hid]
      constructor
      · intro h
        obtain ⟨p, rfl⟩ := Option.isSome_iff_exists.mp h
        exact ⟨p, t, rfl⟩
      · rintro ⟨p, u, h⟩
        cases h
        rfl
  refine ⟨r, t, hrun, ht, hfs, hserved, fun fd size hr => ?_⟩
  obtain ⟨hid, hroot, -⟩ := hserved.mp (by rw [hr]; rfl)
  obtain ⟨r', u, hrun', -, -, -, hheld⟩ := openMember_still hs hroot hid hname
  rw [hvalid hid] at hrun'
  cases hrun'
  exact hheld fd size hr

end

/-! ## `_local_failure` -/

section
variable {traceId : Str}

theorem isJobId_ascii (h : isJobId traceId = true) : Ascii traceId := by
  unfold isJobId at h
  simp only [Bool.and_eq_true, List.all_eq_true] at h
  intro c hc
  have hi := h.2 c hc
  simp only [isIdChar, isDigit, Bool.or_eq_true, Bool.and_eq_true, decide_eq_true_eq,
    Fin.le_def] at hi
  have h₁ : (cp 'A').val = 65 ∧ (cp 'Z').val = 90 ∧ (cp 'a').val = 97 ∧ (cp 'z').val = 122 ∧
      (cp '0').val = 48 ∧ (cp '9').val = 57 := by decide
  rcases hi with (((hi | hi) | hi) | rfl) | rfl
  · exact ⟨by omega, by omega⟩
  · exact ⟨by omega, by omega⟩
  · exact ⟨by omega, by omega⟩
  · decide
  · decide

/-- `_local_failure` with an ASCII text renders. -/
theorem localFailureAnswer_ok {message : Str} (hid : Ascii traceId) (hm : Ascii message) :
    localFailureAnswer traceId message =
      .ok (.json ⟨503, errorEnvelope 5000 message (some traceId)⟩) := by
  have hr : renders (errorEnvelope localFailure message (some traceId)) = true := by
    have hcode : intsOk (.int localFailure) = true := intsOk_of_lt (n := 5000) (by decide)
    simp only [errorEnvelope, baseResp, renders, rendersFields, Option.map_some, Option.getD_some,
      encodeUtf8_ascii hid, encodeUtf8_ascii hm, hcode]
    rfl
  unfold localFailureAnswer jsonResponse
  rw [if_pos hr]
  rfl

end

/-! ## `_transcode_to_temp` -/

theorem run_close (fd : Fd) (s : Sys) :
    (call (close fd)).run s = .ok ⟨⟩ { s with log := s.log ++ [.closed fd] } := rfl

theorem close_ledger (fd : Fd) (s : Sys) :
    Ledger s { s with log := s.log ++ [.closed fd] } [fd] [] :=
  ((close_runs fd) s rfl).1 _ _ (run_close fd s)

/-- The path of the temp file that is made and filled. -/
def Tools.made (t : Tools) : Except PostExc Str :=
  match t.mkstemp with
  | .ok tmp => (transcode t).map fun _ => tmp
  | .error e => .error (.exc (.os e))

theorem transcode_error {t : Tools} {e : PostExc} (h : transcode t = .error e) :
    e.isPostFailure = true := by
  unfold transcode at h
  split at h
  · cases h; rfl
  split at h
  · cases h
    split <;> rfl
  · split at h <;> cases h
    rfl

theorem made_error {t : Tools} {e : PostExc} (h : t.made = .error e) : e.isPostFailure = true := by
  unfold Tools.made at h
  split at h
  · cases ht : transcode t with
    | ok u => rw [ht] at h; cases h
    | error e' => rw [ht] at h; cases h; exact transcode_error ht
  · cases h; rfl

theorem run_safeUnlink (tmp : Str) (d : Desk) :
    (safeUnlink tmp).run d = .ok ⟨⟩ { d with temps := d.temps.erase tmp } := rfl

section
variable {t : Tools} {fd : Fd} {d : Desk}

variable (fd d) in
theorem transcodeToTemp_ok {tmp : Str} (h : t.made = .ok tmp) : (transcodeToTemp t fd).run d =
    .ok tmp ⟨{ d.sys with log := d.sys.log ++ [.closed fd] }, tmp :: d.temps⟩ := by
  unfold Tools.made at h
  unfold transcodeToTemp closing mkstemp
  cases ht : t.mkstemp with
  | error e => rw [ht] at h; cases h
  | ok tmp' =>
    rw [ht] at h
    cases hr : transcode t with
    | error e => rw [hr] at h; cases h
    | ok u => rw [hr] at h; cases h; rfl

variable (fd d) in
theorem transcodeToTemp_error {e : PostExc} (h : t.made = .error e) : (transcodeToTemp t fd).run d =
    .error e ⟨{ d.sys with log := d.sys.log ++ [.closed fd] }, d.temps⟩ := by
  unfold Tools.made at h
  unfold transcodeToTemp closing mkstemp
  cases ht : t.mkstemp with
  | error e => rw [ht] at h; cases h; rfl
  | ok tmp =>
    rw [ht] at h
    cases hr : transcode t with
    | ok u => rw [hr] at h; cases h
    | error e' =>
      rw [hr] at h
      cases h
      show EStateM.Result.error e (⟨_, (tmp :: d.temps).erase tmp⟩ : Desk) = _
      rw [List.erase_cons_head]
      rfl

/-- The `try` of `music_result`. -/
theorem tryTranscode_ok {tmp : Str} (h : t.made = .ok tmp) :
    (exceptIf PostExc.isPostFailure (some <$> transcodeToTemp t fd) (pure none)).run d =
      .ok (some tmp) ⟨{ d.sys with log := d.sys.log ++ [.closed fd] }, tmp :: d.temps⟩ :=
  run_exceptIf_ok (run_map_ok some (transcodeToTemp_ok fd d h))

theorem tryTranscode_error {e : PostExc} (h : t.made = .error e) :
    (exceptIf PostExc.isPostFailure (some <$> transcodeToTemp t fd) (pure none)).run d =
      .ok none ⟨{ d.sys with log := d.sys.log ++ [.closed fd] }, d.temps⟩ :=
  run_exceptIf_caught (run_map_error some (transcodeToTemp_error fd d h)) (made_error h)

theorem transcodeToTemp_hands (t : Tools) (fd : Fd) :
    HandsOn Desk.sys [fd] (transcodeToTemp t fd) nothing := by
  rintro d d rfl
  have hl := close_ledger fd d.sys
  cases hmade : t.made with
  | ok tmp =>
    rw [transcodeToTemp_ok _ _ hmade]
    refine ⟨fun a u hu => ?_, fun e u hu => ?_⟩ <;> cases hu
    exact hl
  | error e =>
    rw [transcodeToTemp_error _ _ hmade]
    refine ⟨fun a u hu => ?_, fun e u hu => ?_⟩ <;> cases hu
    exact hl

end

/-! ## The routes -/

theorem readAll_hands (fd : Fd) : HandsOn id [] (call (readAll fd)) nothing := by
  intro s
  have hread : Triple (· = s) (readAll fd) (fun _ t => Ledger s t [] [])
      fun _ t => Ledger s t [] [] := by
    refine enter_spec (fun t hl _ _ => .get_bind ?_) fun _ h _ => h
    rintro t rfl
    split
    · exact .throw fun u hu => hu ▸ hl
    · exact (Triple.pure (Q := fun _ u => Ledger s u [] []) _).conseq (fun u hu => hu ▸ hl)
        (fun _ _ h => h) fun _ _ h => h
  exact (call_spec hread).conseq (fun _ h => h) (fun _ _ h => h) fun _ _ h => h.2

theorem finallyClose_hands {α : Type} {fd : Fd} {m : FsM α} {held : α → List Fd}
    (h : HandsOn id [] m held) : HandsOn id [fd] (finallyClose fd m) held :=
  HandsOn.closing h fun s => ⟨_, run_close fd s, close_ledger fd s⟩

section
variable (P : Platform) (root traceId : Str)

theorem recordedAudioSetting_hands :
    HandsOn Desk.sys [] (recordedAudioSetting P root traceId) nothing := by
  unfold recordedAudioSetting
  refine (onSys_hands (openOrNone_hands root traceId (.inr rfl))).bind fun r => ?_
  cases r with
  | none => exact .throw _
  | some p =>
    have hread := (readAll_hands p.1).bind fun b =>
      .ofExcept ((P.load b).mapError Exc.ofLoad)
    refine (HandsOn.exceptIf (onSys_hands (finallyClose_hands hread)) (.throw _)).bind
      fun sidecar => (HandsOn.ofExcept _).bind fun sidecar => ?_
    split
    · exact .done _
    · exact .throw _

theorem musicResult_hands (root : Option Str) (t : Tools) :
    HandsOn Desk.sys [] (musicResult P root t traceId) nothing := by
  unfold musicResult
  cases root with
  | none => exact .throw _
  | some root =>
    refine (recordedAudioSetting_hands P root traceId).bind fun setting => ?_
    split
    · exact .ofExcept _
    · exact .throw _
    · refine (onSys_hands (openOrNone_hands root traceId (.inl rfl))).bind fun r => ?_
      cases r with
      | none => exact .throw _
      | some p =>
        have hmade : HandsOn Desk.sys [p.1] (some <$> transcodeToTemp t p.1) nothing :=
          (transcodeToTemp_hands t p.1).map fun _ => rfl
        refine (hmade.exceptIf (.done _)).bind fun made => ?_
        cases made with
        | none => exact .ofExcept _
        | some tmp => exact (HandsOn.ofExcept _).bind fun _ => .done _

section
variable {P} (N : Numbers P)

theorem safeUnlink_hands (tmp : Str) : HandsOn Desk.sys [] (safeUnlink tmp) nothing :=
  .modify fun _ => rfl

theorem postProcess_hands (t : Tools) (plan : TranscodePlan) (fd : Fd) :
    HandsOn Desk.sys [fd] (postProcess P N t plan fd) nothing := by
  refine ((transcodeToTemp_hands t fd).bind fun tmp => ?_).exceptIf (.done _)
  have hread : HandsOn Desk.sys [] ((fun facts => some (tmp, extraInfo facts)) <$>
      ofExcept (measure P N t plan) : MusicM (Option (Str × Dict))) nothing :=
    (HandsOn.ofExcept _).map fun _ => rfl
  exact hread.exceptIf ((safeUnlink_hands tmp).bind fun _ => .done _)

theorem deliver_hands (root : Option Str) (baseUrl : Bytes) (r : LocalRequest) (t : Tools) :
    HandsOn Desk.sys [] (deliver P N root baseUrl r t traceId) nothing := by
  unfold deliver
  cases root with
  | none => exact .ofExcept _
  | some root =>
    refine (onSys_hands (openOrNone_hands root traceId (.inl rfl))).bind fun o => ?_
    cases o with
    | none => exact .ofExcept _
    | some p =>
      refine (postProcess_hands N t r.plan p.1).bind fun delivered => ?_
      cases delivered with
      | none => exact .ofExcept _
      | some q =>
        simp only
        split
        · exact (safeUnlink_hands q.1).bind fun _ => .ofExcept _
        · exact .done _

/-- How the `try` of `music_generation` ends. -/
inductive PostEnds (t : Tools) (plan : TranscodePlan) (temps : List Str) :
    EStateM.Result PostExc Desk (Option (Str × Dict)) → Prop
  | failed (s : Sys) : (∀ tmp facts, t.made = .ok tmp → measure P N t plan ≠ .ok facts) →
      PostEnds t plan temps (.ok none ⟨s, temps⟩)
  | measured (tmp : Str) (facts : AudioFacts) (s : Sys) : t.made = .ok tmp →
      measure P N t plan = .ok facts →
      PostEnds t plan temps (.ok (some (tmp, extraInfo facts)) ⟨s, tmp :: temps⟩)
  | raised (tmp : Str) (e : PostExc) (s : Sys) : t.made = .ok tmp →
      measure P N t plan = .error e → e.isPostFailure = false →
      PostEnds t plan temps (.error e ⟨s, tmp :: temps⟩)

theorem postProcess_ends (t : Tools) (plan : TranscodePlan) (fd : Fd) (d : Desk) :
    PostEnds N t plan d.temps ((postProcess P N t plan fd).run d) := by
  unfold postProcess
  cases hmade : t.made with
  | error e =>
    have htemp := transcodeToTemp_error fd d hmade
    rw [run_exceptIf_caught (run_seq_error htemp) (made_error hmade)]
    exact .failed _ fun _ _ h => by cases hmade.symm.trans h
  | ok tmp =>
    have htemp := run_seq_ok (f := measureTemp P N t plan)
      (transcodeToTemp_ok fd d hmade)
    cases hm : measure P N t plan with
    | ok facts =>
      have hrun : ∀ d', (measureTemp P N t plan tmp).run d' = .ok (some (tmp, extraInfo facts)) d' :=
        fun d' => run_exceptIf_ok (run_map_ok _ (run_ofExcept_ok hm d'))
      rw [run_exceptIf_ok (htemp.trans (hrun _))]
      exact .measured tmp facts _ hmade hm
    | error e =>
      have hbody := fun d' : Desk => run_map_error (fun facts => some (tmp, extraInfo facts))
        (run_ofExcept_error hm d')
      cases he : e.isPostFailure with
      | true =>
        have hrun : ∀ d', (measureTemp P N t plan tmp).run d' =
            .ok none { d' with temps := d'.temps.erase tmp } :=
          fun d' => run_exceptIf_caught (hbody d') he
        rw [run_exceptIf_ok (htemp.trans (hrun _))]
        show PostEnds N t plan d.temps (.ok none ⟨_, (tmp :: d.temps).erase tmp⟩)
        rw [List.erase_cons_head]
        exact .failed _ fun _ _ _ h => by cases hm.symm.trans h
      | false =>
        have hrun : ∀ d', (measureTemp P N t plan tmp).run d' = .error e d' :=
          fun d' => run_exceptIf_passed (hbody d') he
        rw [run_exceptIf_passed (htemp.trans (hrun _)) he]
        exact .raised tmp e _ hmade hm he

end

end

namespace Sample

/-- Two programs that succeed: the second one writes `stdout`. -/
def tools (stdout : Bytes) : Tools where
  mkstemp := .ok (lit "/tmp/s4_deliver_0.wav")
  lseek := none
  ffmpeg := .exited 0 [] []
  output := [82, 73, 70, 70]
  output_lt := by decide
  stat := none
  ffprobe := .exited 0 stdout []

end Sample

end Music3
