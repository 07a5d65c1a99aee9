import Music3.Jobs.Unfinished

/-!
# A write whose process is killed

A process that is killed at a call leaves the tree that a fault of the call leaves: `write_artifact`
handles no exception, so it changes nothing after a call that fails. In the middle of a `write`
the file has a part of the data, and so it has before the buffer of the handle is flushed.

`crash_consistent`: a killed write leaves nothing to be seen and no sidecar, or the whole pair; where
the id is taken it leaves what was there. Without an audio that can be measured it makes no call.
-/

namespace Music3

open Py Posix StateExcept Fs

/-- The process is killed at the call `k`, counted from 0; at a `write`, after `j` bytes. -/
def killedAt (k j : Nat) : List Turn := List.replicate k ⟨[], none⟩ ++ [⟨[], some j⟩]

/-- The tree that a killed write leaves. -/
def crashTree (P : Platform) (fs : Fs) (record : JobRecord) (root : Str) (translated : Dict)
    (env : Env) (k j : Nat) : Fs :=
  (stateOf ((writeArtifact P record root translated env).run { fs, turns := killedAt k j })).fs

/-- The directory holds the record's audio, and a sidecar that is read back as the given one; as it
is, but for the order of its keys, if a text does not change it. -/
def HoldsPair (P : Platform) (fs : Fs) (record : JobRecord) (sidecar : Dict) : Prop :=
  held fs record.id audioName = record.audio ∧ ∃ data, held fs record.id sidecarName = some data ∧
    P.load data = .ok (Json.obj sidecar).reread ∧
    ((Json.obj sidecar).Stable → P.load data = .ok (Json.obj sidecar).sortKeys)

/-- What a write from the tree `fs` may leave when it is killed (module doc). -/
def CrashSafe (P : Platform) (fs : Fs) (record : JobRecord) (sidecar : Dict) (fs' : Fs) : Prop :=
  fs' = fs ∧ fs.lookup fs.root record.id ≠ none ∨
    Unobservable P fs.rootPath record.id fs' ∧ held fs' record.id sidecarName = none ∨
    HoldsPair P fs' record sidecar

section
variable {P : Platform} {fs : Fs} {record : JobRecord} {root dir : Str} {translated : Dict}
  {env : Env} {audio : Bytes} {sidecar : Dict}

theorem quiet_killedAt (k j : Nat) : Quiet (killedAt k j) := by
  intro t ht
  unfold killedAt at ht
  rcases List.mem_append.mp ht with ht | ht
  · rw [List.eq_of_mem_replicate ht]
  · rw [List.mem_singleton.mp ht]

theorem holdsPair_of_grown {fs' : Fs} {facts : WavFacts} {q t : Option PyFloat} {data : Bytes}
    (hp : Prepared P fs record root dir audio facts q t) (henc : encodeSidecar P sidecar = .ok data)
    (hg : fs.Grown fs.root record.id (artifactFiles audio data) fs') :
    HoldsPair P fs' record sidecar := by
  have hload := encodeSidecar_load henc
  refine ⟨?_, data, ?_, hload, fun hs => ?_⟩
  · rw [held_of_grown hg, artifactFiles, Function.update_of_ne (by decide), Function.update_self]
    have ha := hp.isAudio
    cases hr : record.audio with
    | none => rw [hr] at ha; exact absurd ha hp.audio_ne
    | some b => rw [hr] at ha; rw [ha]; rfl
  · rw [held_of_grown hg, artifactFiles, Function.update_self]
  · rw [hload, Json.reread_of_stable hs]

theorem crashTree_safe
    (hprep : prepareArtifact P fs record fs.rootPath translated env = .ok (dir, audio, sidecar))
    (k j : Nat) :
    CrashSafe P fs record sidecar (crashTree P fs record fs.rootPath translated env k j) := by
  have hleaves : Leaves P fs (killedAt k j) dir audio sidecar
      (crashTree P fs record fs.rootPath translated env k j) :=
    writeArtifact_leaves (s := { fs, turns := killedAt k j }) rfl (quiet_killedAt k j) hprep
  have hroot : (crashTree P fs record fs.rootPath translated env k j).rootPath = fs.rootPath :=
    writeArtifact_rootPath (s := { fs, turns := killedAt k j }) rfl (quiet_killedAt k j)
  obtain ⟨facts, q, t, hp, -⟩ := prepareArtifact_ok.mp hprep
  generalize crashTree P fs record fs.rootPath translated env k j = fs' at hleaves hroot ⊢
  have hunseen : held fs' record.id sidecarName = none → CrashSafe P fs record sidecar fs' :=
    fun h => .inr (.inl ⟨(unobservable_iff hroot.symm hp.idOk).mpr (incomplete_of_held h), h⟩)
  rcases hleaves.entry hp rfl with rfl | h | ⟨data, -, -, henc, hg⟩
  · by_cases hfree : fs'.lookup fs'.root record.id = none
    · refine hunseen ?_
      rw [held, hfree]
      rfl
    · exact .inl ⟨rfl, hfree⟩
  · exact hunseen h
  · exact .inr (.inr (holdsPair_of_grown hp henc hg))

/-- Without an audio that can be measured, no call is made. -/
theorem writeArtifact_unmeasured (h : record.audio.getD [] = [] ∨
    ∃ message, P.waveOpen (record.audio.getD []) = .error message) (s : Sys) :
    ∃ e, (writeArtifact P record root translated env).run s = .error e s := by
  cases hprep : prepareArtifact P s.fs record root translated env with
  | error e =>
    refine ⟨e, ?_⟩
    unfold writeArtifact
    rw [EStateM.run_bind, EStateM.run_get]
    simp only [hprep]
    exact run_seq_error (run_ofExcept_error rfl s)
  | ok p =>
    obtain ⟨facts, q, t, hp, -⟩ := prepareArtifact_ok.mp hprep
    rcases h with h | ⟨message, h⟩
    · exact absurd (hp.isAudio.trans h) hp.audio_ne
    · have hm := hp.measured
      rw [measureWav, hp.isAudio, h] at hm
      cases hm

end

/-- A write can be killed anywhere. -/
theorem crash_consistent :
    (∀ P fs record translated env dir audio sidecar,
      prepareArtifact P fs record fs.rootPath translated env = .ok (dir, audio, sidecar) → ∀ k j,
        CrashSafe P fs record sidecar (crashTree P fs record fs.rootPath translated env k j)) ∧
    ∀ P record root translated env, (record.audio.getD [] = [] ∨
        ∃ message, P.waveOpen (record.audio.getD []) = .error message) →
      ∀ s, ∃ e, (writeArtifact P record root translated env).run s = .error e s :=
  ⟨fun _ _ _ _ _ _ _ _ hprep k j => crashTree_safe hprep k j,
    fun _ _ _ _ _ h s => writeArtifact_unmeasured h s⟩

theorem crash_consistent_sidecar :
    (∃ dir sidecar, prepareArtifact Sample.platform Sample.fs Sample.succeededRecord
        Sample.fs.rootPath [] (fun _ => none) = .ok (dir, Sample.wav, sidecar) ∧
      CrashSafe Sample.platform Sample.fs Sample.succeededRecord sidecar
        (crashTree Sample.platform Sample.fs Sample.succeededRecord Sample.fs.rootPath []
          (fun _ => none) 8 100)) ∧
    ∃ e, (writeArtifact Sample.platform { Sample.succeededRecord with audio := none } Sample.root []
      fun _ => none).run Sample.renamed = .error e Sample.renamed := by
  constructor
  · obtain ⟨dir, sidecar, hprep⟩ : ∃ dir sidecar, prepareArtifact Sample.platform Sample.fs
      Sample.succeededRecord Sample.fs.rootPath [] (fun _ => none) =
        .ok (dir, Sample.wav, sidecar) := ⟨_, _, rfl⟩
    exact ⟨dir, sidecar, hprep, crash_consistent.1 _ _ _ _ _ _ _ _ hprep 8 100⟩
  · exact crash_consistent.2 _ _ _ _ _ (.inl rfl) _

namespace Sample

/-- A text of two lone surrogates. -/
def surrogateRecord : JobRecord :=
  { succeededRecord with submission := { submission with input := [point 0xD83D, point 0xDE00] } }

/-- The root with an older pair of this id. -/
def taken : Fs := { fs with nodes := [.dir ⟨[(one, 1)], by decide, 0⟩,
  .dir ⟨[(audioName, 2), (sidecarName, 3)], nodup_pair, 0⟩, .file [82, 73], .file [123, 125]] }

end Sample

set_option maxRecDepth 16000 in
/-- Surrogates that stand next to each other are joined, and an older pair stays. -/
theorem crash_not_exact :
    (¬ ∀ P fs record translated env dir audio sidecar,
      prepareArtifact P fs record fs.rootPath translated env = .ok (dir, audio, sidecar) →
      fs.lookup fs.root record.id = none → ∀ k j fs',
        crashTree P fs record fs.rootPath translated env k j = fs' →
        Unobservable P fs.rootPath record.id fs' ∨ ∃ data v,
          held fs' record.id sidecarName = some data ∧ P.load data = .ok v ∧
          v.sortKeys = (Json.obj sidecar).sortKeys) ∧
    ¬ ∀ P fs record translated env dir audio sidecar,
      prepareArtifact P fs record fs.rootPath translated env = .ok (dir, audio, sidecar) →
      ∀ k j fs', crashTree P fs record fs.rootPath translated env k j = fs' →
        Unobservable P fs.rootPath record.id fs' ∨ held fs' record.id audioName = record.audio := by
  constructor
  · intro h
    have hinput : ∃ dir sidecar, prepareArtifact Sample.platform Sample.fs Sample.surrogateRecord
        Sample.fs.rootPath [] (fun _ => none) = .ok (dir, Sample.wav, sidecar) ∧
        (Json.obj sidecar).sortKeys.at? [lit "request", lit "input"] =
          some (.str [point 0xD83D, point 0xDE00]) ∧
        (Json.obj sidecar).reread.sortKeys.at? [lit "request", lit "input"] =
          some (.str [point 0x1F600]) := ⟨_, _, rfl, rfl, rfl⟩
    obtain ⟨dir, sidecar, hprep, hin, hread⟩ := hinput
    generalize hfs : crashTree Sample.platform Sample.fs Sample.surrogateRecord Sample.fs.rootPath []
      (fun _ => none) 15 0 = fs'
    have hstored : Sample.root = fs'.rootPath ∧ complete fs' Sample.one = true := by
      rw [← hfs]
      exact ⟨rfl, rfl⟩
    have hseen : ¬ Unobservable Sample.platform Sample.root Sample.one fs' := fun hun => by
      have hc := (unobservable_iff hstored.1 (by decide)).mp hun
      exact absurd (hc.symm.trans hstored.2) nofun
    obtain ⟨data, v, hdata, hv, he⟩ := (h _ _ _ _ _ _ _ _ hprep rfl 15 0 fs' hfs).resolve_left hseen
    rcases hfs ▸ crashTree_safe hprep 15 0 with ⟨-, hfree⟩ | ⟨hun, -⟩ | ⟨-, data', hdata', hload, -⟩
    · exact hfree rfl
    · exact hseen hun
    · -- the sidecar tells of one character
      rw [hdata] at hdata'
      cases hdata'
      rw [hv] at hload
      cases hload
      rw [he, hin] at hread
      have hlength := congrArg List.length (Json.str.inj (Option.some.inj hread))
      exact absurd hlength (by decide)
  · intro h
    obtain ⟨dir, sidecar, hprep⟩ : ∃ dir sidecar, prepareArtifact Sample.platform Sample.taken
        Sample.succeededRecord Sample.taken.rootPath [] (fun _ => none) =
          .ok (dir, Sample.wav, sidecar) := ⟨_, _, rfl⟩
    have htaken : crashTree Sample.platform Sample.taken Sample.succeededRecord
        Sample.taken.rootPath [] (fun _ => none) 0 0 = Sample.taken := rfl
    rcases h _ _ _ _ _ _ _ _ hprep 0 0 _ htaken with hun | haudio
    · have hid : isJobId Sample.one = true := by decide
      have hc := (unobservable_iff rfl hid).mp hun
      cases hc
    · cases haudio

end Music3
