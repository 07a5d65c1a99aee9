import Music3.Jobs.Artifacts

/-!
# The exceptions of `write_artifact`

`writeArtifact_raises`: a write raises an `OSError`, a `ValueError`, a `wave.Error`, or, from the
JSON encoder, a `RecursionError`, and nothing else.
-/

namespace Music3

open Py Posix StateExcept

/-- The exceptions that `_persist_and_succeed` turns into a failed job. -/
def isWriteFailure (e : Exc) : Bool := e.isOSError || e.isValueError || e.isWaveError

/-- What a write raises. -/
def WriteRaises (e : Exc) : Prop := isWriteFailure e = true ∨ e = .recursion

theorem call_raises {α : Type} (m : SysM α) : Raises WriteRaises (call m) := by
  intro s e s' h
  unfold call at h
  rw [EStateM.run_adaptExcept] at h
  cases hm : m.run s with
  | ok a t => rw [hm] at h; cases h
  | error e' t => rw [hm] at h; cases h; exact .inl rfl

theorem validateJobId_error {id : Str} {e : Exc} (h : validateJobId id = .error e) :
    e = .jobId id := by
  unfold validateJobId at h
  split at h <;> cases h
  rfl

theorem resolveWithin_error {fs : Fs} {candidate root : Str} {e : Exc}
    (h : resolveWithin fs candidate root = .error e) : e = .untrustedPath candidate root := by
  unfold resolveWithin at h
  split at h
  · cases h; rfl
  · simp only at h
    split at h <;> cases h
    rfl

section
variable {P : Platform}

theorem measureWav_error {audio : Bytes} {e : Exc} (h : measureWav P audio = .error e) :
    ∃ message, e = .wave message := by
  unfold measureWav at h
  split at h <;> cases h
  exact ⟨_, rfl⟩

theorem deltaSeconds_error {a b : Option Str} {e : Exc} (h : deltaSeconds P a b = .error e) :
    ∃ message, e = .value message := by
  unfold deltaSeconds at h
  split at h
  · split at h <;> cases h
    exact ⟨_, rfl⟩
  · cases h

theorem buildSidecar_error {record : JobRecord} {deployment : DeploymentFacts} {facts : WavFacts}
    {translated : Dict} {e : Exc} (h : buildSidecar P record deployment facts translated = .error e) :
    ∃ message, e = .value message := by
  rcases error_of_bind h with h | ⟨q, -, h⟩
  · exact deltaSeconds_error h
  · rcases error_of_bind h with h | ⟨t, -, h⟩
    · exact deltaSeconds_error h
    · cases h

theorem prepareArtifact_error {fs : Fs} {record : JobRecord} {root : Str} {translated : Dict}
    {env : Env} {e : Exc} (h : prepareArtifact P fs record root translated env = .error e) :
    isWriteFailure e = true := by
  unfold prepareArtifact at h
  simp only at h
  split at h
  · cases h; rfl
  rcases error_of_bind h with h | ⟨jobId, -, h⟩
  · rw [validateJobId_error h]; rfl
  rcases error_of_bind h with h | ⟨jobDir, -, h⟩
  · rw [resolveWithin_error h]; rfl
  rcases error_of_bind h with h | ⟨facts, -, h⟩
  · obtain ⟨message, rfl⟩ := measureWav_error h; rfl
  rcases error_of_bind h with h | ⟨sidecar, -, h⟩
  · obtain ⟨message, rfl⟩ := buildSidecar_error h; rfl
  · cases h

theorem encodeSidecar_error {sidecar : Dict} {e : Exc} (h : encodeSidecar P sidecar = .error e) :
    WriteRaises e := by
  unfold encodeSidecar at h
  split at h
  · rename_i je _
    cases h
    cases je with
    | value => exact .inl rfl
    | recursion => exact .inr rfl
  · split at h <;> cases h
    exact .inl rfl

theorem atomicWriteBytes_raises (jobDir name : Str) (data : Bytes) :
    Raises WriteRaises (atomicWriteBytes jobDir name data) := by
  unfold atomicWriteBytes
  exact .bind (call_raises _) fun _ => .bind (call_raises _) fun _ => .bind (call_raises _) fun _ =>
    .bind (call_raises _) fun _ => .bind (call_raises _) fun _ => call_raises _

/-- What `write_artifact` raises. -/
theorem writeArtifact_raises (record : JobRecord) (root : Str) (translated : Dict) (env : Env) :
    Raises WriteRaises (writeArtifact P record root translated env) := by
  unfold writeArtifact
  refine .bind .get fun s => .bind (.ofExcept fun e h => .inl (prepareArtifact_error h)) ?_
  rintro ⟨jobDir, audio, sidecar⟩
  refine .bind (call_raises _) fun _ => .bind (atomicWriteBytes_raises _ _ _) fun _ =>
    .bind (.ofExcept fun e => encodeSidecar_error) fun data =>
    .bind (atomicWriteBytes_raises _ _ _) fun _ => .bind ?_ fun _ => .pure _
  exact .bind (call_raises _) fun _ => call_raises _

end

end Music3
