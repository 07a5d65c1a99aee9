import Music3.Jobs.ArtifactFiles
import Music3.Jobs.Sidecar

/-!
# When a write raises `RecursionError`

`write_recursion_iff`: a write raises it exactly when it gets as far as `json.dumps` (`Encodes`)
with a recorded cloud request that nests deeper than the encoder admits.
-/

namespace Music3

open Py Posix StateExcept Fs

/-- A write of `record` that passes its checks and makes the first seven calls: `mkdir` and the
six of the audio. -/
def Encodes (P : Platform) (fs : Fs) (record : JobRecord) (root : Str)
    (faults : List (Option Nat)) : Prop :=
  (∃ dir audio facts q t d n, Prepared P fs record root dir audio facts q t ∧ fs.Vacant dir d n) ∧
    ∀ fault ∈ faults.take 7, fault = none

theorem clear_faults {faults : List (Option Nat)} {k : Nat} :
    Clear (faults.map fun fault => { fault }) k ↔ ∀ fault ∈ faults.take k, fault = none := by
  unfold Clear
  rw [← List.map_take]
  simp only [List.forall_mem_map]

section
variable {P : Platform} {fs : Fs} {record : JobRecord} {root : Str} {request : EngineRequest}
  {env : Env} {faults : List (Option Nat)}

theorem write_recursion {sys : Sys}
    (h : (writeArtifact P record root (buildBody request) env).run
      { fs, turns := faults.map fun fault => { fault } } = .error .recursion sys) :
    Encodes P fs record root faults ∧ P.dumpsLimit < cloudDepth record.submission + 2 := by
  have hends := writeArtifact_ends P record root (buildBody request) env
    (s := { fs, turns := faults.map fun fault => { fault } }) rfl (quiet_faults faults)
  rw [h] at hends
  cases hends with
  | refused _ _ hprep _ => exact absurd (prepareArtifact_error hprep) (by decide)
  | blocked _ _ _ _ _ _ _ he _ => cases he
  | interrupted _ _ _ _ _ _ _ _ _ _ _ _ he _ => cases he
  | unencodable _ _ dir audio sidecar d n F hprep hv hclear henc _ =>
    obtain ⟨facts, q, t, hp, rfl⟩ := prepareArtifact_ok.mp hprep
    have hdeep := encodeSidecar_recursion henc
    rw [depth_sidecarOf] at hdeep
    have := P.three_le_dumps
    exact ⟨⟨⟨dir, audio, facts, q, t, d, n, hp, hv⟩, clear_faults.mp hclear⟩, by omega⟩

theorem write_recursion_iff (hi : record.submission.IntsOk)
    (hs : intsOk (.int request.seed) = true) (hm : intsOk (.int request.maxNewTokens) = true)
    (ha : (record.audio.getD []).length < 2 ^ 63) :
    (∃ sys, (writeArtifact P record root (buildBody request) env).run
      { fs, turns := faults.map fun fault => { fault } } = .error .recursion sys) ↔
    Encodes P fs record root faults ∧ P.dumpsLimit < cloudDepth record.submission + 2 := by
  refine ⟨fun ⟨sys, h⟩ => write_recursion h, fun ⟨henc, hdeep⟩ => ?_⟩
  obtain ⟨⟨dir, audio, facts, q, t, d, n, hp, hv⟩, hfaults⟩ := henc
  have hends := writeArtifact_ends P record root (buildBody request) env
    (s := { fs, turns := faults.map fun fault => { fault } }) rfl (quiet_faults faults)
  have hclear := clear_faults.mpr hfaults
  have hprep : prepareArtifact P fs record root (buildBody request) env =
      .ok (dir, audio, sidecarOf record (deploymentFactsFromEnv env) facts (buildBody request) q t) :=
    prepareArtifact_ok.mpr ⟨facts, q, t, hp, rfl⟩
  have hdump : encodeSidecar P (sidecarOf record (deploymentFactsFromEnv env) facts
      (buildBody request) q t) = .error .recursion := by
    refine encodeSidecar_deep (intsOk_sidecarOf hi hs hm hp.measured (hp.isAudio ▸ ha)) ?_
    rw [depth_sidecarOf]
    omega
  cases hrun : (writeArtifact P record root (buildBody request) env).run
    { fs, turns := faults.map fun fault => { fault } } with
  | ok dir' sys =>
    rw [hrun] at hends
    cases hends with
    | stored _ _ _ _ _ _ _ hprep' _ _ henc _ =>
      rw [hprep] at hprep'
      cases hprep'
      rw [hdump] at henc
      cases henc
  | error e sys =>
    rw [hrun] at hends
    cases hends with
    | refused _ _ hprep' _ => rw [hprep] at hprep'; cases hprep'
    | blocked _ _ _ _ _ hprep' hc _ _ =>
      rw [hprep] at hprep'
      cases hprep'
      exact absurd (hclear.mono (by decide)) (hc d n hv)
    | interrupted _ _ _ _ _ _ _ _ hprep' _ henc _ _ _ =>
      rw [hprep] at hprep'
      cases hprep'
      obtain ⟨data, henc⟩ := henc hclear
      rw [hdump] at henc
      cases henc
    | unencodable _ _ _ _ _ _ _ _ hprep' _ _ henc _ =>
      rw [hprep] at hprep'
      cases hprep'
      rw [hdump] at henc
      cases henc
      exact ⟨sys, rfl⟩

end

end Music3
