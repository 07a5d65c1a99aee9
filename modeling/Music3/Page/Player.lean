import Music3.Page.Lru
import Music3.Page.Peaks
import Music3.Platform
import Music3.Py.Dumps
import Music3.Lib.Lts

/-!
# The player

`activateArtifact` as a labelled system: the user's Play clicks, and what happens to the fetch of
each, in any order. A handler runs up to its next await, so an action is what runs between two:
`play`, the answer (`answered`), the body (`body`) or a failure of either (`fetchFails`). `library` is
what the server lists and serves of each job; that does not change once it is listed.

The layout of the page, the drawing and the progress are left out.
-/

namespace Music3

open Py

/-- What the server lists and serves of a job. -/
structure Artifact where
  durationSeconds : Option ℚ
  engineName : Option Str
  audio : Bytes

/-- How far the fetch of an activation is. -/
inductive FetchStage where
  | requested
  | reading
  | loaded
  | failed
  deriving DecidableEq

def FetchStage.isPending : FetchStage → Bool
  | requested | reading => true
  | loaded | failed => false

/-- A run of `activateArtifact`. -/
structure Fetch where
  id : JobId
  stage : FetchStage

/-- The player (module doc). -/
structure Player where
  jobId : Option JobId := none
  /-- The object URL that it created last, by its number. -/
  url : Option Nat := none
  peaks : Option (List ℚ) := none
  title : Str := []
  /-- The source of the audio element. -/
  src : Option Nat := none
  error : Str := []
  hidden : Bool := true
  peakCache : List (JobId × List ℚ) := []
  /-- The object URLs that are not revoked, with their bytes. -/
  objectUrls : List (Nat × Bytes) := []
  created : Nat := 0
  /-- The activations, in their order. -/
  fetches : List Fetch := []

/-- What can happen. -/
inductive PlayerAction where
  | play (id : JobId)
  | answered (k : Nat) (status : Nat)
  | fetchFails (k : Nat) (e : Str)
  | body (k : Nat)

def peakCacheMax : Nat := 8
def peakBuckets : Nat := 1000

/-- `t.padStart(2, "0")`. -/
def padStart (t : Str) : Str := List.replicate (2 - t.length) (cp '0') ++ t

/-- `formatDuration`, of an exact number of seconds. -/
def formatDuration (seconds : ℚ) : Str :=
  let s := ⌊seconds + 1 / 2⌋.toNat
  natText (s / 60) ++ lit ":" ++ padStart (natText (s % 60))

/-- `playerLabel`. -/
def playerLabel (id : JobId) (a : Artifact) : Str :=
  let dur := match a.durationSeconds with
    | some secs => lit " · " ++ formatDuration secs
    | none => []
  let eng := match a.engineName with
    | some name => if name ≠ [] then lit " · " ++ name else []
    | none => []
  id ++ dur ++ eng

/-- `parseWavPcm`, and `extractPeaks` of what it returns. -/
def peaksOf (buf : Bytes) : Except JsError (Option (List ℚ)) := do
  let parsed ← parseWavPcm buf
  return parsed.map fun p => extractPeaks p.samples.values p.channels peakBuckets

namespace Player

/-- `playerError`. -/
def playerError (s : Player) (message : Str) : Player := { s with error := message }

/-- `cachePeaks`. -/
def cachePeaks (s : Player) (id : JobId) (peaks : List ℚ) : Player :=
  { s with peakCache := lruSet s.peakCache id peaks peakCacheMax }

/-- `swapAudioSource`. -/
def swapAudioSource (s : Player) (buf : Bytes) : Player :=
  let live := match s.url with
    | some url => Assoc.erase s.objectUrls url
    | none => s.objectUrls
  { s with
    objectUrls := live ++ [(s.created, buf)]
    url := some s.created
    src := some s.created
    created := s.created + 1 }

/-- The peaks of an activation: the cached ones, or those of the bytes, which it caches. -/
def takePeaks (s : Player) (id : JobId) (buf : Bytes) :
    Except JsError (Option (List ℚ) × Player) :=
  match Assoc.get? s.peakCache id with
  | some peaks => return (some peaks, s.cachePeaks id peaks)
  | none => do
    match ← peaksOf buf with
    | some peaks => return (some peaks, s.cachePeaks id peaks)
    | none => return (none, s.playerError (lit
        "Couldn't read the waveform — the audio could not be decoded (empty or not 16-bit PCM)."))

/-- `activateArtifact` after its last await. -/
def load (s : Player) (id : JobId) (a : Artifact) : Except JsError Player := do
  let (peaks, s) ← s.takePeaks id a.audio
  return { s with peaks, jobId := some id, title := playerLabel id a }.swapAudioSource a.audio

/-- The activation `k`, of `id`, goes on to `stage`. -/
def setStage (s : Player) (k : Nat) (id : JobId) (stage : FetchStage) : Player :=
  { s with fetches := s.fetches.set k ⟨id, stage⟩ }

section
variable (library : JobId → Artifact)

/-- One step. -/
def step (s : Player) : PlayerAction → Option Player
  | .play id => some { s with
      hidden := false, error := [], fetches := s.fetches ++ [⟨id, .requested⟩] }
  | .answered k status =>
    match s.fetches[k]? with
    | some ⟨id, .requested⟩ =>
      if 200 ≤ status ∧ status ≤ 299 then some (s.setStage k id .reading)
      else some ((s.setStage k id .failed).playerError (lit
        "Couldn't load audio — the server refused or the file is missing (HTTP " ++
        natText status ++ lit ")."))
    | _ => none
  | .fetchFails k e =>
    match s.fetches[k]? with
    | some ⟨id, stage⟩ =>
      if stage.isPending then some ((s.setStage k id .failed).playerError
        (lit "Couldn't load audio — " ++ e ++ lit "."))
      else none
    | none => none
  | .body k =>
    match s.fetches[k]? with
    | some ⟨id, .reading⟩ =>
      match s.load id (library id) with
      | .ok s => some (s.setStage k id .loaded)
      -- the handler would have thrown, and the player be as it was
      | .error _ => some (s.setStage k id .failed)
    | _ => none

end

end Player

/-- The player as a labelled system, from the page load on. -/
def player (library : JobId → Artifact) : Lts Player PlayerAction where
  init s := s = {}
  step := Player.step library

/-! ## What the player holds -/

/-- The player holds the artifact of `id`: its title, its peaks, or none if it has none, and its bytes
behind the only object URL, which is the source of the audio element. -/
structure Plays (library : JobId → Artifact) (s : Player) (id : JobId) : Prop where
  jobId : s.jobId = some id
  title : s.title = playerLabel id (library id)
  peaks : peaksOf (library id).audio = .ok s.peaks
  source : ∃ url, s.url = some url ∧ s.src = some url ∧ s.objectUrls = [(url, (library id).audio)]

/-- The player of the page load. -/
structure Silent (s : Player) : Prop where
  jobId : s.jobId = none
  title : s.title = []
  peaks : s.peaks = none
  source : s.url = none ∧ s.src = none ∧ s.objectUrls = []

/-- The cache has peaks of the artifacts' own bytes, each once, and at most eight. -/
structure CacheOk (library : JobId → Artifact) (s : Player) : Prop where
  nodup : (Assoc.keys s.peakCache).Nodup
  bound : s.peakCache.length ≤ 8
  own : ∀ p ∈ s.peakCache, peaksOf (library p.1).audio = .ok (some p.2)

/-- The player shows one artifact, or none. -/
structure OneArtifact (library : JobId → Artifact) (s : Player) : Prop where
  whole : Silent s ∨ ∃ id, Plays library s id
  cache : CacheOk library s

/-- The artifact of the last activation that has loaded. -/
def lastLoaded : List Fetch → Option JobId
  | [] => none
  | f :: fs => (lastLoaded fs).or (if f.stage = .loaded then some f.id else none)

/-- All fetches have succeeded or failed. -/
def Player.Settled (s : Player) : Prop := ∀ f ∈ s.fetches, f.stage.isPending = false

/-- One artifact, and, once all fetches have settled, the last activated of those that have loaded;
one object URL at most, and at most eight cached peaks. -/
structure ShowsLast (library : JobId → Artifact) (s : Player) : Prop where
  whole : Silent s ∨ ∃ id, Plays library s id
  urls : s.objectUrls.length ≤ 1
  cache : s.peakCache.length ≤ 8
  last : s.Settled → ∀ id, lastLoaded s.fetches = some id → Plays library s id

/-- A body does not arrive after that of a later activation of another artifact; if after several,
the last of them counts. -/
def InOrder (s : Player) : PlayerAction → Prop
  | .body k => ∀ f later, s.fetches[k]? = some f →
      lastLoaded (s.fetches.drop (k + 1)) = some later → later = f.id
  | _ => True

/-! ## The activations -/

section
variable {fs gs : List Fetch} {f g : Fetch} {k : Nat}

theorem lastLoaded_append (fs gs : List Fetch) :
    lastLoaded (fs ++ gs) = (lastLoaded gs).or (lastLoaded fs) := by
  induction fs with
  | nil => simp [lastLoaded]
  | cons f fs ih => rw [List.cons_append, lastLoaded, ih, lastLoaded, Option.or_assoc]

/-- What the activation `k` counts for, once it is `g`. -/
theorem lastLoaded_set (h : fs[k]? = some f) (g : Fetch) :
    lastLoaded (fs.set k g) = ((lastLoaded (fs.drop (k + 1))).or
      (if g.stage = .loaded then some g.id else none)).or (lastLoaded (fs.take k)) := by
  obtain ⟨hk, -⟩ := List.getElem?_eq_some_iff.mp h
  rw [List.set_eq_take_append_cons_drop, if_pos hk, lastLoaded_append, lastLoaded]

/-- An activation that has not loaded and does not load by the step does not count. -/
theorem lastLoaded_set_of_ne (h : fs[k]? = some f) (hf : f.stage ≠ .loaded)
    (hg : g.stage ≠ .loaded) : lastLoaded (fs.set k g) = lastLoaded fs := by
  obtain ⟨hk, he⟩ := List.getElem?_eq_some_iff.mp h
  have hself : fs.set k f = fs := by rw [← he, List.set_getElem_self]
  rw [lastLoaded_set h, if_neg hg]
  conv => rhs; rw [← hself]
  rw [lastLoaded_set h, if_neg hf]

/-- The activation `k` loads. -/
theorem lastLoaded_set_loaded (h : fs[k]? = some f) (hg : g.stage = .loaded) :
    lastLoaded (fs.set k g) = (lastLoaded (fs.drop (k + 1))).or (some g.id) := by
  rw [lastLoaded_set h, if_pos hg, Option.or_assoc]
  rfl

end

/-! ## One step -/

section
variable {library : JobId → Artifact} {s s' : Player} {id : JobId} {k : Nat}

theorem peaksOf_ok (buf : Bytes) : ∃ peaks, peaksOf buf = .ok peaks := by
  obtain ⟨parsed, hparsed, -⟩ := parseWavPcm_ok buf
  exact ⟨_, by rw [peaksOf, hparsed]; rfl⟩

/-- The handlers that fail leave what the player holds as it is. -/
theorem Plays.frame (h : Plays library s id) (hidden : Bool) (error : Str) (fetches : List Fetch) :
    Plays library { s with hidden, error, fetches } id := ⟨h.jobId, h.title, h.peaks, h.source⟩

theorem CacheOk.frame (h : CacheOk library s) (hidden : Bool) (error : Str)
    (fetches : List Fetch) : CacheOk library { s with hidden, error, fetches } :=
  ⟨h.nodup, h.bound, h.own⟩

/-- Caching an artifact's own peaks. -/
theorem CacheOk.cachePeaks (h : CacheOk library s) {peaks : List ℚ}
    (hown : peaksOf (library id).audio = .ok (some peaks)) :
    CacheOk library (s.cachePeaks id peaks) := by
  refine ⟨nodup_lruSet h.nodup, length_lruSet_le h.nodup, fun p hp => ?_⟩
  rcases mem_lruSet h.nodup hp with rfl | hp
  · exact hown
  · exact h.own p hp

/-- The peaks of an activation are those of its own bytes, cached or not. -/
theorem takePeaks_spec (h : CacheOk library s) (id : JobId) :
    ∃ peaks cache error, s.takePeaks id (library id).audio =
        .ok (peaks, { s with peakCache := cache, error }) ∧
      peaksOf (library id).audio = .ok peaks ∧
      CacheOk library { s with peakCache := cache, error } := by
  unfold Player.takePeaks
  split
  · rename_i peaks hget
    have hown := h.own _ (Assoc.mem_of_get? hget)
    exact ⟨some peaks, _, s.error, rfl, hown, h.cachePeaks hown⟩
  · obtain ⟨peaks, hown⟩ := peaksOf_ok (library id).audio
    rw [hown]
    cases peaks with
    | some peaks => exact ⟨some peaks, _, s.error, rfl, rfl, h.cachePeaks hown⟩
    | none => exact ⟨none, s.peakCache, _, rfl, rfl, h.nodup, h.bound, h.own⟩

/-- A player that shows one artifact revokes its only object URL. -/
theorem OneArtifact.revoked (h : OneArtifact library s) :
    (match s.url with
      | some url => Assoc.erase s.objectUrls url
      | none => s.objectUrls) = [] := by
  rcases h.whole with hs | ⟨id, hp⟩
  · rw [hs.source.1]
    exact hs.source.2.2
  · obtain ⟨url, hurl, -, hlive⟩ := hp.source
    rw [hurl, hlive]
    simp [Assoc.erase]

/-- What is left of `activateArtifact` after its last await makes the player hold the artifact. -/
theorem load_spec (h : OneArtifact library s) (id : JobId) :
    ∃ s', s.load id (library id) = .ok s' ∧ Plays library s' id ∧ CacheOk library s' ∧
      s'.fetches = s.fetches := by
  obtain ⟨peaks, cache, error, htake, hown, hcache⟩ := takePeaks_spec h.cache id
  have hlive := h.revoked
  have hload : s.load id (library id) = .ok (Player.swapAudioSource
      { s with
        peakCache := cache, error, peaks, jobId := some id, title := playerLabel id (library id) }
      (library id).audio) := by
    rw [Player.load, htake]
    rfl
  refine ⟨_, hload, ⟨rfl, rfl, hown, s.created, rfl, rfl, ?_⟩,
    ⟨hcache.nodup, hcache.bound, hcache.own⟩, rfl⟩
  simp only [Player.swapAudioSource]
  rw [hlive]
  rfl

/-- A step is the arrival of a body, or leaves what the player holds as it is. -/
theorem step_cases (h : OneArtifact library s) {a : PlayerAction}
    (hs : s.step library a = some s') :
    (∃ k f, a = .body k ∧ s.fetches[k]? = some f ∧ f.stage = .reading ∧
      Plays library s' f.id ∧ CacheOk library s' ∧
      s'.fetches = s.fetches.set k { f with stage := .loaded }) ∨
    ((∀ k, a ≠ .body k) ∧ (∃ hidden error fetches, s' = { s with hidden, error, fetches }) ∧
      lastLoaded s'.fetches = lastLoaded s.fetches) := by
  cases a with
  | play id =>
    obtain rfl := Option.some.inj hs
    refine Or.inr ⟨nofun, ⟨_, _, _, rfl⟩, ?_⟩
    simp [lastLoaded_append, lastLoaded]
  | answered k status =>
    unfold Player.step at hs
    simp only at hs
    split at hs
    · rename_i id hf
      have hkeep {stage : FetchStage} (hne : stage ≠ .loaded) :=
        lastLoaded_set_of_ne (g := ⟨id, stage⟩) hf nofun hne
      split at hs
      · obtain rfl := Option.some.inj hs
        exact Or.inr ⟨nofun, ⟨_, _, _, rfl⟩, hkeep nofun⟩
      · obtain rfl := Option.some.inj hs
        exact Or.inr ⟨nofun, ⟨_, _, _, rfl⟩, hkeep nofun⟩
    · cases hs
  | fetchFails k e =>
    unfold Player.step at hs
    simp only at hs
    split at hs
    · rename_i id stage hf
      split at hs
      · rename_i hpending
        obtain rfl := Option.some.inj hs
        refine Or.inr ⟨nofun, ⟨_, _, _, rfl⟩, lastLoaded_set_of_ne hf ?_ nofun⟩
        rintro rfl
        cases hpending
      · cases hs
    · cases hs
  | body k =>
    unfold Player.step at hs
    simp only at hs
    split at hs
    · rename_i id hf
      obtain ⟨t, hload, hplays, hcache, hfetches⟩ := load_spec h id
      rw [hload] at hs
      obtain rfl := Option.some.inj hs
      refine Or.inl ⟨k, _, rfl, hf, rfl, hplays.frame _ _ _, hcache.frame _ _ _, ?_⟩
      rw [← hfetches]
      rfl
    · cases hs

theorem OneArtifact.step (h : OneArtifact library s) {a : PlayerAction}
    (hs : s.step library a = some s') : OneArtifact library s' := by
  rcases step_cases h hs with ⟨k, f, -, -, -, hplays, hcache, -⟩ |
    ⟨-, ⟨hidden, error, fetches, rfl⟩, -⟩
  · exact ⟨Or.inr ⟨f.id, hplays⟩, hcache⟩
  · refine ⟨?_, h.cache.frame _ _ _⟩
    rcases h.whole with hs | ⟨id, hp⟩
    · exact Or.inl ⟨hs.jobId, hs.title, hs.peaks, hs.source⟩
    · exact Or.inr ⟨id, hp.frame _ _ _⟩

/-- A body that arrives in order makes its artifact the last one that has loaded. -/
theorem current_step (h : OneArtifact library s) (hc : s.jobId = lastLoaded s.fetches)
    {a : PlayerAction} (ha : InOrder s a) (hs : s.step library a = some s') :
    s'.jobId = lastLoaded s'.fetches := by
  rcases step_cases h hs with ⟨k, f, rfl, hf, -, hplays, -, hfetches⟩ |
    ⟨-, ⟨hidden, error, fetches, rfl⟩, hlast⟩
  · rw [hfetches, hplays.jobId, lastLoaded_set_loaded hf rfl]
    cases hl : lastLoaded (s.fetches.drop (k + 1)) with
    | none => rfl
    | some later => exact congrArg some (ha f later hf hl).symm
  · exact hc.trans hlast.symm

/-- After a body out of order the player holds another artifact. -/
theorem not_current_step (h : OneArtifact library s) (ha : ¬ InOrder s (.body k))
    (hs : s.step library (.body k) = some s') :
    ∃ id, lastLoaded s'.fetches = some id ∧ s'.jobId ≠ some id := by
  rcases step_cases h hs with ⟨k', f, he, hf, -, hplays, -, hfetches⟩ | ⟨hbody, -⟩
  · obtain rfl : k = k' := by injection he
    simp only [InOrder, not_forall] at ha
    obtain ⟨f', later, hf', hl, hne⟩ := ha
    obtain rfl : f = f' := Option.some.inj (hf.symm.trans hf')
    refine ⟨later, ?_, fun hj => hne ?_⟩
    · rw [hfetches, lastLoaded_set_loaded hf rfl, hl]
      rfl
    · exact (Option.some.inj (hplays.jobId.symm.trans hj)).symm
  · exact absurd rfl (hbody k)

end

/-! ## Every run -/

section
variable {library : JobId → Artifact} {s : Player}

theorem one_artifact (h : (player library).Reach Lts.always s) : OneArtifact library s := by
  refine h.invariant (fun s hs => ?_) fun _ _ _ hi _ hs => hi.step hs
  subst hs
  exact ⟨Or.inl ⟨rfl, rfl, rfl, rfl, rfl, rfl⟩, List.nodup_nil, Nat.zero_le _, nofun⟩

theorem OneArtifact.urls (h : OneArtifact library s) : s.objectUrls.length ≤ 1 := by
  rcases h.whole with hs | ⟨id, hp⟩
  · rw [hs.source.2.2]
    exact Nat.zero_le _
  · obtain ⟨url, -, -, hlive⟩ := hp.source
    rw [hlive]
    exact le_rfl

/-- In a run in order, the player holds the last artifact that has loaded. -/
theorem current (h : (player library).Reach InOrder s) : s.jobId = lastLoaded s.fetches := by
  refine (h.invariant (I := fun s => OneArtifact library s ∧ s.jobId = lastLoaded s.fetches)
    (fun s hs => ?_) fun _ _ _ hi ha hs => ⟨hi.1.step hs, current_step hi.1 hi.2 ha hs⟩).2
  refine ⟨one_artifact (.init hs), ?_⟩
  subst hs
  rfl

/-- A fetch that has not settled can fail; the player is as it was. -/
theorem can_fail (library : JobId → Artifact) {f : Fetch} (hf : f ∈ s.fetches)
    (hpending : f.stage.isPending = true) :
    ∃ k s', (player library).step s (.fetchFails k []) = some s' ∧ s'.jobId = s.jobId ∧
      lastLoaded s'.fetches = lastLoaded s.fetches ∧
      s'.fetches.countP (fun f => f.stage.isPending) + 1 =
        s.fetches.countP fun f => f.stage.isPending := by
  obtain ⟨k, hk, rfl⟩ := List.getElem_of_mem hf
  have hget : s.fetches[k]? = some s.fetches[k] := List.getElem?_eq_getElem hk
  have hne : s.fetches[k].stage ≠ .loaded := by
    intro he
    rw [he] at hpending
    cases hpending
  have hpos : 0 < s.fetches.countP fun f => f.stage.isPending :=
    List.countP_pos_iff.mpr ⟨_, hf, hpending⟩
  refine ⟨k, (s.setStage k s.fetches[k].id .failed).playerError
    (lit "Couldn't load audio — " ++ [] ++ lit "."), ?_, rfl,
    lastLoaded_set_of_ne hget hne nofun, ?_⟩
  · simp only [player, Player.step, hget]
    rw [if_pos hpending]
  · simp only [Player.playerError, Player.setStage]
    rw [List.countP_set hk, if_pos hpending]
    exact Nat.sub_add_cancel hpos

/-- The fetches that are left can all fail. -/
theorem can_settle (library : JobId → Artifact) (s : Player) :
    ∃ t, (player library).Path Lts.always s t ∧ t.Settled ∧ t.jobId = s.jobId ∧
      lastLoaded t.fetches = lastLoaded s.fetches := by
  induction hn : s.fetches.countP (fun f => f.stage.isPending) generalizing s with
  | zero =>
    refine ⟨s, .refl, fun f hf => ?_, rfl, rfl⟩
    simpa using List.countP_eq_zero.mp hn f hf
  | succ n ih =>
    obtain ⟨f, hf, hpending⟩ := List.countP_pos_iff.mp (by omega :
      0 < s.fetches.countP fun f => f.stage.isPending)
    obtain ⟨k, s', hstep, hjob, hlast, hcount⟩ := can_fail library hf hpending
    obtain ⟨t, hpath, hsettled, hjob', hlast'⟩ := ih s' (by omega)
    exact ⟨t, (Lts.Path.single trivial hstep).trans hpath, hsettled, hjob'.trans hjob,
      hlast'.trans hlast⟩

theorem OneArtifact.showsLast (h : OneArtifact library s) (hc : s.jobId = lastLoaded s.fetches) :
    ShowsLast library s := by
  refine ⟨h.whole, h.urls, h.cache.bound, fun _ id hid => ?_⟩
  rcases h.whole with hs | ⟨id', hp⟩
  · have := hs.jobId.symm.trans (hc.trans hid)
    cases this
  · obtain rfl := Option.some.inj (hp.jobId.symm.trans (hc.trans hid))
    exact hp

end

/-! ## The result -/

/-- In every run the player shows one artifact or none, with one object URL at most and at most eight
cached peaks. In a run whose bodies arrive in order that is the last activated artifact that has
loaded. After a body out of order it is another one, and if the fetches that are left fail, that is
how the player settles. -/
theorem player_shows_last (library : JobId → Artifact) :
    (∀ s, (player library).Reach Lts.always s → (Silent s ∨ ∃ id, Plays library s id) ∧
      s.objectUrls.length ≤ 1 ∧ s.peakCache.length ≤ 8) ∧
    (∀ s, (player library).Reach InOrder s → ShowsLast library s) ∧
    ∀ s k s', (player library).Reach Lts.always s → ¬ InOrder s (.body k) →
      (player library).step s (.body k) = some s' →
      ∃ t, (player library).Path Lts.always s' t ∧ ¬ ShowsLast library t := by
  refine ⟨fun s h => ?_, fun s h => ?_, fun s k s' h ha hs => ?_⟩
  · have hone := one_artifact h
    exact ⟨hone.whole, hone.urls, hone.cache.bound⟩
  · exact (one_artifact h.always).showsLast (current h)
  · obtain ⟨id, hlast, hne⟩ := not_current_step (one_artifact h) ha hs
    obtain ⟨t, hpath, hsettled, hjob, hsame⟩ := can_settle library s'
    refine ⟨t, hpath, fun hshows => hne ?_⟩
    exact hjob.symm.trans (hshows.last hsettled id (hsame.trans hlast)).jobId

/-- The second of two activations loads first. -/
theorem player_overtaken :
    ¬ ∀ library s, (player library).Reach Lts.always s → ShowsLast library s := by
  intro h
  have hrun : ∃ t, (player fun _ => ⟨none, none, []⟩).run {}
      [.play (lit "a"), .play (lit "b"), .answered 0 200, .answered 1 200, .body 1, .body 0] = some t ∧
      t.fetches = [⟨lit "a", .loaded⟩, ⟨lit "b", .loaded⟩] ∧ t.jobId = some (lit "a") :=
    ⟨_, rfl, rfl, rfl⟩
  obtain ⟨t, hrun, hfetches, hjob⟩ := hrun
  have hsettled : t.Settled := by
    intro f hf
    rw [hfetches] at hf
    rcases List.mem_cons.mp hf with rfl | hf
    · rfl
    · obtain rfl := List.mem_singleton.mp hf
      rfl
  have hb := (h _ t (Lts.Reach.path (.init rfl) (Lts.path_of_run hrun))).last hsettled (lit "b")
    (by rw [hfetches]; rfl)
  have := hjob.symm.trans hb.jobId
  exact absurd (Option.some.inj this) (by decide)

end Music3
