import Music3.Jobs.ArtifactWrite
import Music3.Posix.Writes

/-!
# What a write leaves behind

`writeArtifact_ends`: how `write_artifact` ends when nobody else changes the tree, with the tree
after it (`WriteEnds`). It makes fifteen calls: `mkdir`, six for each file, and two for the
directory. Before `mkdir` has succeeded the tree is unchanged, and after it the tree is one with the
new directory; when no call fails, and the sidecar has a text, the directory holds both files.
-/

namespace Music3

open Py Posix StateExcept Fs

/-- A call of the write side, with its exception. -/
theorem calls_call {α : Type} {k : Nat} {P E : Fs → Prop} {m : SysM α} {Q : α → Fs → Prop}
    (h : Calls k P m Q (fun _ => E)) :
    Calls k P (call m) Q (fun e t => e.isOSError = true ∧ E t) := by
  intro ts ht s hs
  obtain ⟨hok, herr⟩ := h ts ht s hs
  unfold Music3.call
  rw [EStateM.run_adaptExcept]
  cases hr : m.run s with
  | ok a t =>
    refine ⟨fun b s' e => ?_, fun b s' e => ?_⟩ <;> cases e
    exact hok a t hr
  | error e t =>
    refine ⟨fun b s' e => ?_, fun b s' e => ?_⟩ <;> cases e
    exact ⟨(herr e t hr).1, rfl, (herr e t hr).2⟩

section
variable {fs : Fs} {dir : Str} {d : Ino} {n m : Name} {F : Name → Option Bytes}

theorem isName_tmp (h : IsName m) : IsName (m ++ lit ".tmp") := by
  refine ⟨fun e => h.1 (List.append_eq_nil_iff.mp e).1, fun e => ?_⟩
  rcases List.mem_append.mp e with e | e
  · exact h.2 e
  · exact absurd e (by decide)

/-- A file that is written under another name and renamed. -/
theorem update_tmp {tmp : Name} (ht : F tmp = none) (data : Bytes) :
    Function.update (Function.update (Function.update (Function.update F tmp (some [])) tmp
      (some data)) tmp none) m (some data) = Function.update F m (some data) := by
  rw [Function.update_idem, Function.update_idem, ← ht, Function.update_eq_self]

/-- The six calls of a file. A call that fails has changed the temporary file only. -/
theorem atomicWriteBytes_calls (hp : fs.locate dir = some (d, n)) (hm : IsName m)
    (ht : F (m ++ lit ".tmp") = none) (data : Bytes) :
    Calls 6 (fs.Grown d n F) (atomicWriteBytes dir m data)
      (fun _ => fs.Grown d n (Function.update F m (some data)))
      (fun e t => e.isOSError = true ∧
        ∃ b, fs.Grown d n (Function.update F (m ++ lit ".tmp") b) t) := by
  have htmp := isName_tmp hm
  -- the file that is open has no name but the temporary one
  have htmpOnly : ∀ {b : Bytes} (e : Exc) (t : Fs), e.isOSError = true ∧
      fs.Grown d n (Function.update (Function.update F (m ++ lit ".tmp") (some []))
        (m ++ lit ".tmp") (some b)) t →
      e.isOSError = true ∧ ∃ b, fs.Grown d n (Function.update F (m ++ lit ".tmp") b) t := by
    rintro b e t ⟨he, hg⟩
    rw [Function.update_idem] at hg
    exact ⟨he, _, hg⟩
  have hsync := calls_call (sync_calls (P := fs.Grown d n (Function.update
    (Function.update F (m ++ lit ".tmp") (some [])) (m ++ lit ".tmp") (some data))))
  unfold atomicWriteBytes
  have hunopened : Function.update F (m ++ lit ".tmp") none = F := by
    rw [← ht, Function.update_eq_self]
  refine ((calls_call (openTrunc_calls hp htmp ht)).conseq (fun _ h => h) (fun _ _ h => h)
    fun e t h => ⟨h.1, none, hunopened.symm ▸ h.2⟩).bind (k := 5) fun handle => ?_
  refine ((calls_call (write_calls data)).conseq (fun _ h => h) (fun _ _ h => h)
    fun e t h => h.2.elim fun _ hg => htmpOnly e t ⟨h.1, hg⟩).bind (k := 4) fun _ => ?_
  refine (hsync.conseq (fun _ h => h) (fun _ _ h => h) htmpOnly).bind (k := 3) fun _ => ?_
  refine (hsync.conseq (fun _ h => h) (fun _ _ h => h) htmpOnly).bind (k := 2) fun _ => ?_
  refine (hsync.conseq (fun _ h => h) (fun _ _ h => h) htmpOnly).bind (k := 1) fun _ => ?_
  refine (calls_call (replace_calls hp htmp hm (Function.update_self ..))).conseq (fun _ h => h)
    (fun _ t h => ?_) htmpOnly
  rwa [update_tmp ht] at h

theorem fsyncDir_calls {P : Fs → Prop} :
    Calls 2 P fsyncDir (fun _ => P) (fun e t => e.isOSError = true ∧ P t) :=
  (calls_call sync_calls).bind (k := 1) fun _ => calls_call sync_calls

end

/-! ## The write -/

/-- The files of an artifact. -/
def artifactFiles (audio data : Bytes) : Name → Option Bytes :=
  Function.update (Function.update (fun _ => none) audioName (some audio)) sidecarName (some data)

/-- The files of a write that a call has cut off: no sidecar, or both files if it was one of the
last two calls. -/
def CutOff (P : Platform) (ts : List Turn) (audio : Bytes) (sidecar : Dict)
    (F : Name → Option Bytes) : Prop :=
  ¬ Clear ts 13 ∧ F sidecarName = none ∨
    Clear ts 13 ∧ ∃ data, encodeSidecar P sidecar = .ok data ∧ F = artifactFiles audio data

/-- How a write ends, from the tree `fs` and with the turns `ts` (module doc). -/
inductive WriteEnds (P : Platform) (fs : Fs) (ts : List Turn) (record : JobRecord) (root : Str)
    (translated : Dict) (env : Env) : EStateM.Result Exc Sys Str → Prop
  | refused (e : Exc) (s : Sys) : prepareArtifact P fs record root translated env = .error e →
      s.fs = fs → WriteEnds P fs ts record root translated env (.error e s)
  | blocked (e : Exc) (s : Sys) (dir : Str) (audio : Bytes) (sidecar : Dict) :
      prepareArtifact P fs record root translated env = .ok (dir, audio, sidecar) →
      (∀ d n, fs.Vacant dir d n → ¬ Clear ts 1) → e.isOSError = true → s.fs = fs →
      WriteEnds P fs ts record root translated env (.error e s)
  | interrupted (e : Exc) (s : Sys) (dir : Str) (audio : Bytes) (sidecar : Dict) (d : Ino)
      (n : Name) (F : Name → Option Bytes) :
      prepareArtifact P fs record root translated env = .ok (dir, audio, sidecar) →
      fs.Vacant dir d n → (Clear ts 7 → ∃ data, encodeSidecar P sidecar = .ok data) →
      ¬ Clear ts 15 → e.isOSError = true → fs.Grown d n F s.fs → CutOff P ts audio sidecar F →
      WriteEnds P fs ts record root translated env (.error e s)
  | unencodable (e : Exc) (s : Sys) (dir : Str) (audio : Bytes) (sidecar : Dict) (d : Ino)
      (n : Name) (F : Name → Option Bytes) :
      prepareArtifact P fs record root translated env = .ok (dir, audio, sidecar) →
      fs.Vacant dir d n → Clear ts 7 → encodeSidecar P sidecar = .error e → fs.Grown d n F s.fs →
      F sidecarName = none → WriteEnds P fs ts record root translated env (.error e s)
  | stored (s : Sys) (dir : Str) (audio : Bytes) (sidecar : Dict) (d : Ino) (n : Name)
      (data : Bytes) :
      prepareArtifact P fs record root translated env = .ok (dir, audio, sidecar) →
      fs.Vacant dir d n → Clear ts 15 → encodeSidecar P sidecar = .ok data →
      fs.Grown d n (artifactFiles audio data) s.fs →
      WriteEnds P fs ts record root translated env (.ok dir s)

section
variable {P : Platform} {fs : Fs} {record : JobRecord} {root : Str} {translated : Dict} {env : Env}

theorem isName_audio : IsName audioName := ⟨by decide, by decide⟩
theorem isName_sidecar : IsName sidecarName := ⟨by decide, by decide⟩

/-- The six calls of the audio. -/
theorem audio_calls {dir : Str} {d : Ino} {n : Name} (hv : fs.Vacant dir d n) (audio : Bytes) :
    Calls 6 (fs.Grown d n fun _ => none) (atomicWriteBytes dir audioName audio)
      (fun _ => fs.Grown d n (Function.update (fun _ => none) audioName (some audio)))
      (fun e t => e.isOSError = true ∧ ∃ F, fs.Grown d n F t ∧ F sidecarName = none) := by
  refine (atomicWriteBytes_calls hv.at_ isName_audio rfl audio).conseq (fun _ h => h)
    (fun _ _ h => h) fun e t ⟨he, b, hg⟩ => ⟨he, _, hg, ?_⟩
  exact Function.update_of_ne (by decide) _ _

/-- The six calls of the sidecar. -/
theorem sidecar_calls {dir : Str} {d : Ino} {n : Name} (hp : fs.locate dir = some (d, n))
    (audio data : Bytes) :
    Calls 6 (fs.Grown d n (Function.update (fun _ => none) audioName (some audio)))
      (atomicWriteBytes dir sidecarName data)
      (fun _ => fs.Grown d n (artifactFiles audio data))
      (fun e t => e.isOSError = true ∧ ∃ F, fs.Grown d n F t ∧ F sidecarName = none) := by
  have ht : Function.update (fun _ => none) audioName (some audio) (sidecarName ++ lit ".tmp") =
      none := Function.update_of_ne (by decide) _ _
  refine (atomicWriteBytes_calls hp isName_sidecar ht data).conseq (fun _ h => h)
    (fun _ _ h => h) fun e t ⟨he, b, hg⟩ => ⟨he, _, hg, ?_⟩
  rw [Function.update_of_ne (by decide), Function.update_of_ne (by decide)]

variable (P record root translated env) in
/-- How a write ends. -/
theorem writeArtifact_ends {s : Sys} (hs : s.fs = fs) (hq : Quiet s.turns) :
    WriteEnds P fs s.turns record root translated env
      ((writeArtifact P record root translated env).run s) := by
  unfold writeArtifact
  rw [EStateM.run_bind, EStateM.run_get]
  simp only [hs]
  cases hprep : prepareArtifact P fs record root translated env with
  | error e =>
    rw [run_seq_error (run_ofExcept_error rfl s)]
    exact .refused e s hprep hs
  | ok p =>
    obtain ⟨dir, audio, sidecar⟩ := p
    rw [run_seq_ok (run_ofExcept_ok rfl s)]
    simp only
    by_cases hv : ∃ d n, fs.Vacant dir d n
    swap
    · obtain ⟨e, t, hr, ht⟩ := mkdir_fails (fun d n h => hv ⟨d, n, h⟩) hs hq
      have hc : (call (mkdir dir)).run s = .error (.os e) t := by
        unfold call
        rw [EStateM.run_adaptExcept, hr]
      rw [run_seq_error hc]
      exact .blocked _ t dir audio sidecar hprep (fun d n h => absurd ⟨d, n, h⟩ hv) rfl ht
    obtain ⟨d, n, hv⟩ := hv
    obtain ⟨hok, herr⟩ := calls_call (mkdir_calls hv) s.turns hq s ⟨rfl, hs⟩
    cases hmk : (call (mkdir dir)).run s with
    | error e t =>
      obtain ⟨hc, he, ht⟩ := herr e t hmk
      rw [run_seq_error hmk]
      exact .blocked e t dir audio sidecar hprep (fun _ _ _ => hc) he ht
    | ok a t =>
      obtain ⟨hc, hturns, hg⟩ := hok a t hmk
      rw [run_seq_ok hmk]
      obtain ⟨hok, herr⟩ := audio_calls hv audio (s.turns.drop 1) (hq.drop 1) t ⟨hturns, hg⟩
      cases haudio : (atomicWriteBytes dir audioName audio).run t with
      | error e u =>
        obtain ⟨hc', he, F, hg', hF⟩ := herr e u haudio
        rw [run_seq_error haudio]
        have h7 : ¬ Clear s.turns 7 := fun h => hc' (clear_add (j := 1).mp h).2
        exact .interrupted e u dir audio sidecar d n F hprep hv (fun h => absurd h h7)
          (fun h => h7 (h.mono (by decide))) he hg' (.inl ⟨fun h => h7 (h.mono (by decide)), hF⟩)
      | ok a u =>
        obtain ⟨hc', hturns', hg'⟩ := hok a u haudio
        rw [run_seq_ok haudio]
        have h7 : Clear s.turns 7 := clear_add (j := 1).mpr ⟨hc, hc'⟩
        cases henc : encodeSidecar P sidecar with
        | error e =>
          rw [run_seq_error (run_ofExcept_error rfl u)]
          exact .unencodable e u dir audio sidecar d n _ hprep hv h7 henc hg'
            (Function.update_of_ne (by decide) _ _)
        | ok data =>
          rw [run_seq_ok (run_ofExcept_ok rfl u)]
          rw [List.drop_drop] at hturns'
          obtain ⟨hok, herr⟩ := sidecar_calls hv.at_ audio data (s.turns.drop 7) (hq.drop 7) u
            ⟨hturns', hg'⟩
          cases hside : (atomicWriteBytes dir sidecarName data).run u with
          | error e v =>
            obtain ⟨hc'', he, F, hg'', hF⟩ := herr e v hside
            rw [run_seq_error hside]
            have h13 : ¬ Clear s.turns 13 := fun h => hc'' (clear_add (j := 7).mp h).2
            exact .interrupted e v dir audio sidecar d n F hprep hv (fun _ => ⟨data, henc⟩)
              (fun h => h13 (h.mono (by decide))) he hg'' (.inl ⟨h13, hF⟩)
          | ok a v =>
            obtain ⟨hc'', hturns'', hg''⟩ := hok a v hside
            rw [run_seq_ok hside]
            have h13 : Clear s.turns 13 := clear_add (j := 7).mpr ⟨h7, hc''⟩
            rw [List.drop_drop] at hturns''
            obtain ⟨hok, herr⟩ := fsyncDir_calls (s.turns.drop 13) (hq.drop 13) v ⟨hturns'', hg''⟩
            cases hsync : fsyncDir.run v with
            | error e w =>
              obtain ⟨hc₂, he, hg₂⟩ := herr e w hsync
              rw [run_seq_error hsync]
              exact .interrupted e w dir audio sidecar d n _ hprep hv (fun _ => ⟨data, henc⟩)
                (fun h => hc₂ (clear_add (j := 13).mp h).2) he hg₂ (.inr ⟨h13, data, henc, rfl⟩)
            | ok a w =>
              obtain ⟨hc₂, -, hg₂⟩ := hok a w hsync
              rw [run_seq_ok hsync]
              exact .stored w dir audio sidecar d n data hprep hv
                (clear_add (j := 13).mpr ⟨h13, hc₂⟩) henc hg₂

end

end Music3
