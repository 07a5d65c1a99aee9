import Music3.Jobs.SingleSlot
import Music3.Jobs.Story

/-!
# Where a job's outcome comes from

`Origin cfg calls r`: the terminal record `r` says what an engine call for its own submission has
ended with, or why there was none. The calls are the engine's side of the story: a call that has
ended stays as it is (`Grows`), so an origin is one for the rest of the run (`Origin.mono`).

`job_origin`: it holds of every job in every run, and no job has a second call. So a job gets
nothing that was made for another one, however cancels, stops and readiness answers come between.
-/

namespace Music3

open Py Posix StateExcept Runner

/-- A call for the submission of the record has ended so. -/
def EndedWith (cfg : Config) (calls : List EngineCall) (r : JobRecord) (outcome : Outcome) : Prop :=
  ⟨r.id, engineRequest cfg r.submission, .done outcome⟩ ∈ calls

/-- The outcome of a record, and what it comes from (module doc). -/
inductive Origin (cfg : Config) (calls : List EngineCall) (r : JobRecord) : Prop
  | unfinished : r.status.terminal = false → Origin cfg calls r
  | cancelled : r.status = .cancelled → r.audio = none → r.error = none → Origin cfg calls r
  | succeeded (result : EngineResult) : r.status = .succeeded →
      EndedWith cfg calls r (.result result) → r.audio = some result.audio →
      r.contentType = some result.contentType → r.engine = some result.engine →
      r.model = some result.model → r.generationSeconds = some result.generationSeconds →
      Origin cfg calls r
  /-- The engine was not ready, and was not called. -/
  | notReady (state : ReadinessState) (cause : Str) : r.status = .failed → state ≠ .ready →
      r.error = some (notReadyMessage state cause) → (∀ c ∈ calls, c.job ≠ r.id) →
      Origin cfg calls r
  | engineFailed (message : Str) : r.status = .failed → EndedWith cfg calls r (.error message) →
      r.error = some message → Origin cfg calls r
  | writeFailed (result : EngineResult) (e : Exc) : r.status = .failed →
      EndedWith cfg calls r (.result result) → isWriteFailure e = true →
      r.error = some (lit "artifact write failed: " ++ e.text cfg.platform) → Origin cfg calls r

/-- What a call was made for. -/
def EngineCall.asked (c : EngineCall) : JobId × EngineRequest := (c.job, c.request)

/-- No call that has ended is changed, and the new calls were made for `new`. -/
structure Grows (new : List (JobId × EngineRequest)) (calls calls' : List EngineCall) : Prop where
  ended : ∀ c ∈ calls, ∀ outcome, c.state = .done outcome → c ∈ calls'
  asked : calls'.map EngineCall.asked = calls.map EngineCall.asked ++ new

theorem Grows.refl (calls : List EngineCall) : Grows [] calls calls :=
  ⟨fun _ hc _ _ => hc, (List.append_nil _).symm⟩

section
variable {cfg : Config} {calls calls' : List EngineCall} {r : JobRecord}
  {new : List (JobId × EngineRequest)}

/-- What was asked is old or new. -/
theorem Grows.mem (h : Grows new calls calls') {c : EngineCall} (hc : c ∈ calls') :
    (∃ c' ∈ calls, c'.asked = c.asked) ∨ c.asked ∈ new := by
  have hm : c.asked ∈ calls'.map EngineCall.asked := List.mem_map_of_mem hc
  rw [h.asked, List.mem_append] at hm
  exact hm.imp_left List.mem_map.mp

theorem Origin.mono (h : Grows new calls calls') (hnew : ∀ k ∈ new, k.1 ≠ r.id)
    (ho : Origin cfg calls r) : Origin cfg calls' r := by
  have hended {outcome : Outcome} (he : EndedWith cfg calls r outcome) :
      EndedWith cfg calls' r outcome := h.ended _ he outcome rfl
  cases ho with
  | unfinished hst => exact .unfinished hst
  | cancelled hst ha he => exact .cancelled hst ha he
  | succeeded result hst hc ha ht hn hm hg =>
    exact .succeeded result hst (hended hc) ha ht hn hm hg
  | notReady state cause hst hs he hn =>
    refine .notReady state cause hst hs he fun c hc => ?_
    obtain ⟨c', hc', hasked⟩ | hmem := h.mem hc
    · exact fun e => hn c' hc' ((congrArg Prod.fst hasked).trans e)
    · exact hnew _ hmem
  | engineFailed message hst hc he => exact .engineFailed message hst (hended hc) he
  | writeFailed result e hst hc hw he => exact .writeFailed result e hst (hended hc) hw he

theorem grows_modify (calls : List EngineCall) (task : Nat) :
    Grows [] calls (calls.modify task EngineCall.cancel) where
  ended c hc outcome hd := by
    obtain ⟨i, hi⟩ := List.mem_iff_getElem?.mp hc
    refine List.mem_iff_getElem?.mpr ⟨i, ?_⟩
    rw [List.getElem?_modify, hi]
    split
    · exact congrArg some (EngineCall.cancel_done hd)
    · rfl
  asked := by
    rw [List.append_nil]
    refine List.ext_getElem? fun i => ?_
    rw [List.getElem?_map, List.getElem?_map, List.getElem?_modify]
    cases calls[i]? with
    | none => rfl
    | some c => split <;> rfl

theorem grows_set {task : Nat} {id : JobId} {request : EngineRequest} {b : Bool}
    (h : calls[task]? = some ⟨id, request, .live b⟩) (outcome : Outcome) :
    Grows [] calls (calls.set task ⟨id, request, .done outcome⟩) where
  ended c hc outcome' hd := by
    obtain ⟨i, hi⟩ := List.mem_iff_getElem?.mp hc
    refine List.mem_iff_getElem?.mpr ⟨i, ?_⟩
    rw [List.getElem?_set_ne, hi]
    rintro rfl
    obtain rfl := Option.some.inj (h.symm.trans hi)
    cases hd
  asked := by
    rw [List.append_nil]
    refine List.ext_getElem? fun i => ?_
    rw [List.getElem?_map, List.getElem?_map, List.getElem?_set]
    split
    · rename_i e
      rw [← e, h, if_pos (List.getElem?_eq_some_iff.mp h).1]
      rfl
    · rfl

theorem grows_concat (calls : List EngineCall) (c : EngineCall) :
    Grows [c.asked] calls (calls ++ [c]) :=
  ⟨fun _ hc _ _ => List.mem_append_left _ hc, by rw [List.map_append]; rfl⟩

end

/-! ## The invariant -/

/-- Every record has its origin, and every call asks for the submission of its job. -/
structure Origins {G : Type} (cfg : Config) (s : Runner G) : Prop where
  origin : ∀ id r, s.store.job? id = some r → Origin cfg s.calls r
  asked : ∀ c ∈ s.calls, ∃ r, s.store.job? c.job = some r ∧
    c.request = engineRequest cfg r.submission

section
variable {G : Type} {cfg : Config} {s s' : Runner G} {new : List (JobId × EngineRequest)}

/-- The records of `s'` have their origins already, or are those of `s`. -/
theorem Origins.step (h : Origins cfg s) (hg : Grows new s.calls s'.calls) (hk : Kept s s')
    (hnew : ∀ k ∈ new, ∃ r, s'.store.job? k.1 = some r ∧ k.2 = engineRequest cfg r.submission)
    (ho : ∀ id r, s'.store.job? id = some r → Origin cfg s'.calls r ∨
      s.store.job? id = some r ∧ ∀ k ∈ new, k.1 ≠ r.id) : Origins cfg s' where
  origin id r hr := by
    obtain ho | ⟨hr, hn⟩ := ho id r hr
    · exact ho
    · exact (h.origin id r hr).mono hg hn
  asked c hc := by
    obtain ⟨c', hc', hasked⟩ | hmem := hg.mem hc
    · obtain ⟨r, hr, hreq⟩ := h.asked c' hc'
      obtain ⟨r', hr', -, hsub, -⟩ := hk c'.job r hr
      obtain ⟨hjob, hrequest⟩ := Prod.mk.injEq .. ▸ hasked
      exact ⟨r', hjob ▸ hr', by rw [← hrequest, hreq, hsub]⟩
    · exact hnew _ hmem

theorem Origins.same (h : Origins cfg s) (hg : Grows [] s.calls s'.calls) (hk : Kept s s')
    (hs : s'.store = s.store) : Origins cfg s' :=
  h.step hg hk nofun fun _ _ hr => .inr ⟨hs ▸ hr, nofun⟩

/-- A transition of one job, which is the only one that may get a call. -/
theorem Origins.advance (h : Origins cfg s) (hok : s.store.Ok) (hg : Grows new s.calls s'.calls)
    (hk : Kept s s') {job : JobId} {r' : JobRecord} {data : Dict}
    (hs : s'.store = s.store.advance job r' data)
    (hnew : ∀ k ∈ new, k = (job, engineRequest cfg r'.submission))
    (ho : Origin cfg s'.calls r') : Origins cfg s' := by
  refine h.step hg hk (fun k hk => ?_) fun id r hr => ?_
  · obtain rfl := hnew k hk
    exact ⟨r', by rw [hs, JobStore.job?_advance, if_pos rfl], rfl⟩
  · rw [hs, JobStore.job?_advance] at hr
    split at hr
    · obtain rfl := Option.some.inj hr
      exact .inl ho
    · rename_i hne
      refine .inr ⟨hr, fun k hk e => hne ?_⟩
      rw [hnew k hk, hok.id id r hr] at e
      exact e

theorem init_origins [ReadinessGate G] (h : (runner cfg : Lts (Runner G) (Action G)).init s) :
    Origins cfg s := by
  obtain ⟨limit, store, gate, fs, hn, -, rfl⟩ := h
  unfold JobStore.new at hn
  split at hn <;> cases hn
  refine ⟨fun _ _ hr => ?_, fun c hc => absurd hc (by simp)⟩
  cases hr

theorem awaited_of_ne {outcome : Outcome} (h : s.awaited outcome ≠ .cancelled) :
    s.awaited outcome = outcome := by
  unfold Runner.awaited at h ⊢
  split at h
  · exact absurd rfl h
  · rename_i hm
    rw [if_neg hm]

/-- The end of the engine call of the worker's job. -/
theorem Persist.origins {job : JobId} {r : JobRecord} {request : EngineRequest}
    {result : EngineResult} {now later : Str} {faults : List (Option Nat)}
    (hp : Persist cfg s job r request result now later faults s') (h : Origins cfg s)
    (hok : s.store.Ok) (hk : Kept s s')
    (hc : EndedWith cfg s.calls r (.result result)) : Origins cfg s' := by
  cases hp with
  | noRoot _ | stored _ _ _ _ _ =>
    exact h.advance hok (.refl _) hk rfl nofun
      (.succeeded result rfl hc rfl rfl rfl rfl rfl)
  | writeFailed root e sys _ _ he =>
    exact h.advance hok (.refl _) hk rfl nofun (.writeFailed result e rfl hc he rfl)
  | died _ _ _ _ => exact h.same (.refl _) hk rfl

variable [ReadinessGate G]

theorem Move.origins {a : Action G} (hm : Move cfg s a s') (h : Origins cfg s) (hs : s.Ok)
    (hline : Line s) (htold : ∀ id, Told s id) : Origins cfg s' := by
  have hk := hm.storeStep.kept
  have hok := hs.books.store
  have hended {job : JobId} {task : Nat} {request : EngineRequest} {outcome : Outcome}
      {r : JobRecord} (hc : s.calls[task]? = some ⟨job, request, .done outcome⟩)
      (hr : s.store.job? job = some r) : EndedWith cfg s.calls r outcome := by
    have hmem := List.mem_of_getElem? hc
    obtain ⟨x, hx, hreq⟩ := h.asked _ hmem
    obtain rfl := Option.some.inj (hr.symm.trans hx)
    rw [EndedWith, hok.id job r hr, ← hreq]
    exact hmem
  cases hm with
  | stopForward _ _ _ _ _ _ => exact h.same (grows_modify _ _) hk rfl
  | callEnds _ _ _ _ outcome hc => exact h.same (grows_set hc outcome) hk rfl
  | submit submission now job hn =>
    refine h.step (.refl _) hk nofun fun id r hr => ?_
    have hr : (s.store.enqueued job submission now).job? id = some r := hr
    rw [JobStore.job?_enqueued] at hr
    split at hr
    · obtain rfl := Option.some.inj hr
      exact .inl (.unfinished rfl)
    · exact .inr ⟨hr, nofun⟩
  | cancel job now r hr hst =>
    have hg : Grows [] s.calls (s.abort job).calls := by
      unfold Runner.abort
      simp only
      split
      · split
        · exact grows_modify _ _
        · exact .refl _
      · exact .refl _
    obtain ⟨l, -, hrec⟩ := (htold job).known r hr
    refine h.advance hok hg hk rfl nofun (.cancelled rfl ?_ ?_)
    · refine Option.not_isSome_iff_eq_none.mp fun ha => ?_
      rw [hrec.audio.mp ha] at hst
      cases hst
    · refine Option.not_isSome_iff_eq_none.mp fun he => ?_
      rw [hrec.error.mp he] at hst
      cases hst
  | readyFail job state now r hw _ _ hr _ hstate =>
    refine h.advance hok (.refl _) hk rfl nofun (.notReady state _ rfl hstate rfl fun c hc e => ?_)
    have hid : c.job = job := e.trans (hok.id job r hr)
    exact (hline.ready job hw).1 (hid ▸ List.mem_map_of_mem hc)
  | begin job now r hw _ _ hr _ =>
    refine h.advance hok (grows_concat _ _) hk rfl (fun k hk => ?_) (.unfinished rfl)
    rw [List.mem_singleton.mp hk]
    rfl
  | resumeFail job task request outcome message now later faults r hw hc _ haw hr _ =>
    have houtcome : s.awaited outcome = outcome := awaited_of_ne (by rw [haw]; nofun)
    rw [haw] at houtcome
    subst houtcome
    have hc := hended hc hr
    exact h.advance hok (.refl _) hk rfl nofun (.engineFailed message rfl hc rfl)
  | resumeResult job task request outcome result now later faults r s' hw hc _ haw hr _ hp =>
    have houtcome : s.awaited outcome = outcome := awaited_of_ne (by rw [haw]; nofun)
    rw [haw] at houtcome
    subst houtcome
    exact hp.origins (h.same (.refl _) (.refl s) rfl) hok hk (hended hc hr)
  | _ => exact h.same (.refl _) hk rfl

theorem reach_origins {P : Runner G → Action G → Prop} (h : (runner cfg).Reach P s) :
    Origins cfg s := by
  obtain ⟨s₀, h₀, hp⟩ := h
  exact hp.preserves_reach (I := Origins cfg)
    (fun _ _ _ hr hi _ hst => (reach_move hr hst).origins hi (reach_ok hr) (reach_line hr)
      fun id => reach_told hr id) (.init h₀) (init_origins h₀)

end

/-! ## The result -/

/-- What is known of a job (module doc). -/
structure HasOrigin {G : Type} (cfg : Config) (s : Runner G) (id : JobId) (r : JobRecord) :
    Prop where
  origin : Origin cfg s.calls r
  asked : ∀ c ∈ s.calls, c.job = id → c.request = engineRequest cfg r.submission
  once : (s.calls.map EngineCall.job).count id ≤ 1

/-- Every outcome comes from the one engine call that its job has had, for its own submission. -/
theorem job_origin {G : Type} [ReadinessGate G] {cfg : Config} {s : Runner G} {id : JobId}
    {r : JobRecord} (h : (runner cfg).Reach Lts.always s) (hr : s.store.job? id = some r) :
    HasOrigin cfg s id r where
  origin := (reach_origins h).origin id r hr
  asked c hc hid := by
    obtain ⟨x, hx, hreq⟩ := (reach_origins h).asked c hc
    rw [hid, hr] at hx
    rw [hreq, Option.some.inj hx]
  once := List.nodup_iff_count_le_one.mp (reach_line h).ok.started_nodup id

/-- The first of two jobs, whose call has failed. -/
theorem job_origin_two_jobs : ∃ s r, (runner (Sample.config none)).run Sample.initial
    Sample.twoJobs = some s ∧ s.store.job? Sample.one = some r ∧ r.status = .failed ∧
      HasOrigin (Sample.config none) s Sample.one r := by
  have h : ((runner (Sample.config none)).run Sample.initial Sample.twoJobs).map
      (fun s => (s.store.job? Sample.one).map JobRecord.status) = some (some .failed) := rfl
  obtain ⟨s, hs, hj⟩ := Option.map_eq_some_iff.mp h
  obtain ⟨r, hr, hst⟩ := Option.map_eq_some_iff.mp hj
  exact ⟨s, r, hs, hr, hst, job_origin (Sample.reach hs) hr⟩

end Music3
