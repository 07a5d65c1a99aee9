import Music3.Page.Rows

/-!
# The samples of the estimate

`collectEtaSamples` joins each entry of the listing with the sidecar of its job, when that arrives,
while other loads may be answered in between.

`eta_samples_joined`: a sample always joins an entry and the sidecar of one job; every row whose sidecar
has arrived has the sample that they make, if they make one, and with entries that do not change from
listing to listing it is exactly that.
-/

namespace Music3

open Py Promises

namespace Library

/-- The sidecar of a job has arrived. -/
def Fetched (s : Library) (id : JobId) (sc : Json) : Prop :=
  ∃ i : Nat, s.sidecars.made[i]? = some ⟨id, .settled (some sc)⟩

/-- A sample is of a job's own entry in a listing. -/
def OfListed (s : Library) (r : Reaction) (id : JobId) : Prop :=
  ∀ item, r = .sample item → item ∈ s.answers.flatten ∧ item.jobId = id

section
variable {P : Platform} (B : Screen P)

/-- The generation time of an entry counts. -/
def timed (item : Item) : Bool :=
  (numberAt B (some item.entry) (lit "timings") (lit "generation_seconds")).positive

/-- A sample joins an entry and a sidecar of its job. -/
def Joins (s : Library) (id : JobId) (e : EtaSample) : Prop := ∃ item ∈ s.answers.flatten,
  item.jobId = id ∧ ∃ sc, s.Fetched id sc ∧ sampleOf B item sc = some e

/-- The sample of an entry is recorded once the promise has come to a sidecar. -/
def Collects (s : Library) (promise : Nat) (item : Item) : Prop :=
  s.sidecars.Fate promise (.sample item) True fun a =>
    (a.bind (sampleOf B item)).isSome = true → (Assoc.get? s.etaSamples item.jobId).isSome = true

/-- The samples, and those to come. -/
structure Sampled (s : Library) : Prop where
  own : ∀ id e, Assoc.get? s.etaSamples id = some e → s.Joins B id e
  listed : s.sidecars.Keyed s.OfListed

/-- The rows of entries in `items` have their samples, or will have them. -/
def Complete (s : Library) (items : List Item) : Prop :=
  ∀ p ∈ s.rows, p.2.item ∈ items → timed B p.2.item = true → s.Collects B p.2.promise p.2.item

end

section
variable {P : Platform} {B : Screen P} {s s' : Library} {a : Option Json} {item : Item}
  {items : List Item}

theorem sampleOf_timed {sc : Json} {e : EtaSample} (h : sampleOf B item sc = some e) :
    timed B item = true := by
  unfold sampleOf at h
  simp only [] at h
  split at h
  · rename_i hpos
    exact (Bool.and_eq_true _ _ ▸ hpos).1
  · cases h

/-- The samples stay, and their sidecars. -/
theorem Sampled.of_same (h : Sampled B s) (he : s'.etaSamples = s.etaSamples)
    (ha : s'.answers = s.answers) (hc : s'.sidecars.Keyed s.OfListed)
    (hs : ∀ (i : Nat) k a, s.sidecars.made[i]? = some ⟨k, .settled a⟩ →
      s'.sidecars.made[i]? = some ⟨k, .settled a⟩) : Sampled B s' := by
  refine ⟨fun id e hid => ?_, hc.mono fun r id hr item e => ha ▸ hr item e⟩
  rw [he] at hid
  obtain ⟨item, hm, hk, sc, ⟨i, hi⟩, hsc⟩ := h.own id e hid
  exact ⟨item, ha ▸ hm, hk, sc, ⟨i, hs _ _ _ hi⟩, hsc⟩

theorem Sampled.andThen (h : Sampled B s) (hok : s.sidecars.Ok) (id : JobId) {r : Reaction}
    (hr : s.OfListed r id) :
    Sampled B { s with sidecars := (s.sidecars.ask id).2.andThen (s.sidecars.ask id).1 r } := by
  obtain ⟨p, hp, hk, -⟩ := hok.ask_fst id
  exact h.of_same rfl rfl ((h.listed.ask id).andThen hp (hk ▸ hr)) fun _ _ _ => settled_ask

theorem Sampled.settle (h : Sampled B s) {i : Nat} {c : Cache JobId Json Reaction}
    (hs : s.sidecars.settle i a = some c) : Sampled B { s with sidecars := c } :=
  h.of_same rfl rfl (h.listed.settle hs) fun _ _ _ => Cache.settled_settle hs

/-- A sidecar arrives, or not, and the sample of the entry is recorded. -/
theorem Sampled.record (h : Sampled B s) {q : List (Reaction × Option Json)}
    (hq : s.sidecars.queue = (.sample item, a) :: q) :
    Sampled B ((s.withQueue q).recordSample B item a) := by
  have hpop : Sampled B (s.withQueue q) := h.of_same rfl rfl (h.listed.pop hq) fun _ _ _ => id
  obtain ⟨i, id, hi, hof⟩ := h.listed.queued _ _ (hq ▸ List.mem_cons_self)
  obtain ⟨hmem, rfl⟩ := hof item rfl
  unfold recordSample
  split
  · rename_i e he
    obtain ⟨sc, rfl, hsc⟩ := Option.bind_eq_some_iff.mp he
    refine ⟨fun id e' hid => ?_, hpop.listed⟩
    rw [Assoc.get?_set] at hid
    split at hid
    · rename_i hk
      subst hk
      obtain rfl := Option.some.inj hid
      exact ⟨item, hmem, rfl, sc, ⟨i, hi⟩, hsc⟩
    · exact hpop.own id e' hid
  · exact hpop

theorem Sampled.setRow (h : Sampled B s) (li : Nat) (f : Row → Row) : Sampled B (s.setRow li f) :=
  ⟨h.own, h.listed⟩

theorem Sampled.applyFilter (h : Sampled B s) : Sampled B (s.applyFilter B) := ⟨h.own, h.listed⟩

theorem Sampled.react (h : Sampled B s) {x : Reaction × Option Json}
    {q : List (Reaction × Option Json)} (hq : s.sidecars.queue = x :: q) :
    Sampled B ((s.withQueue q).react B x.1 x.2) := by
  have hpop : Sampled B (s.withQueue q) := h.of_same rfl rfl (h.listed.pop hq) fun _ _ _ => id
  obtain ⟨r, a⟩ := x
  cases r with
  | sample item => exact h.record hq
  | rerun li =>
    simp only [Library.react, finishRerun]
    split
    · exact hpop
    · exact hpop.setRow li _
  | row li =>
    rw [Library.react, showSidecar_eq]
    simp only []
    split
    · exact (hpop.setRow li _).applyFilter
    · exact hpop.setRow li _

/-! ## Every row has its sample -/

theorem Complete.of_rows (h : Complete B s items) (hc : s'.sidecars = s.sidecars)
    (he : s'.etaSamples = s.etaSamples)
    (hrow : ∀ p ∈ s'.rows, ∃ row, (p.1, row) ∈ s.rows ∧ p.2.item = row.item ∧
      p.2.promise = row.promise) : Complete B s' items := by
  intro p hp
  obtain ⟨row, hm, hi, hpr⟩ := hrow p hp
  rw [hi, hpr, Collects, hc, he]
  exact h _ hm

theorem Complete.setRow (h : Complete B s items) (li : Nat) {f : Row → Row}
    (hf : ∀ row, (f row).item = row.item ∧ (f row).promise = row.promise) :
    Complete B (s.setRow li f) items := by
  refine h.of_rows rfl rfl fun p hp => ?_
  obtain ⟨row, hm, e⟩ := mem_setRow.mp hp
  refine ⟨row, hm, ?_⟩
  rw [e]
  split
  · exact hf row
  · exact ⟨rfl, rfl⟩

theorem Complete.applyFilter (h : Complete B s items) : Complete B (s.applyFilter B) items := by
  refine h.of_rows rfl rfl fun p hp => ?_
  obtain ⟨row, hm, e⟩ := mem_applyFilter.mp hp
  rw [e]
  exact ⟨row, hm, rfl, rfl⟩

theorem Complete.andThen (h : Complete B s items) (id : JobId) (r : Reaction) :
    Complete B { s with sidecars := (s.sidecars.ask id).2.andThen (s.sidecars.ask id).1 r } items :=
  fun p hp hm ht => ((h p hp hm ht).ask id).andThen _ r

theorem Complete.settle (h : Complete B s items) {i : Nat} {c : Cache JobId Json Reaction}
    (hs : s.sidecars.settle i a = some c) : Complete B { s with sidecars := c } items :=
  fun p hp hm ht => (h p hp hm ht).settle hs

theorem Complete.record (h : Complete B s items) {q : List (Reaction × Option Json)}
    (hq : s.sidecars.queue = (.sample item, a) :: q) :
    Complete B ((s.withQueue q).recordSample B item a) items := by
  intro p hp hm ht
  have hp : p ∈ s.rows := by
    unfold recordSample at hp
    split at hp <;> exact hp
  have hsidecars : ((s.withQueue q).recordSample B item a).sidecars =
      { s.sidecars with queue := q } := by
    unfold recordSample
    split <;> rfl
  rw [Collects, hsidecars]
  obtain hf | ⟨e, -, k, hi⟩ := (h p hp hm ht).pop hq
  · refine hf.imp id fun b hb hs => ?_
    have hold := hb hs
    unfold recordSample
    split
    · rw [Assoc.get?_set]
      split
      · rfl
      · exact hold
    · exact hold
  · obtain rfl := Reaction.sample.inj e
    refine .ran k a hi fun hs => ?_
    obtain ⟨e', he'⟩ := Option.isSome_iff_exists.mp hs
    simp [recordSample, he', Assoc.get?_set]

theorem Complete.react (h : Complete B s items) {x : Reaction × Option Json}
    {q : List (Reaction × Option Json)} (hq : s.sidecars.queue = x :: q) :
    Complete B ((s.withQueue q).react B x.1 x.2) items := by
  have hpop (hx : ∀ item, x.1 ≠ .sample item) : Complete B (s.withQueue q) items :=
    fun p hp hm ht => ((h p hp hm ht).pop hq).resolve_right fun e => hx _ e.1
  obtain ⟨r, a⟩ := x
  cases r with
  | sample item => exact h.record hq
  | rerun li =>
    have := hpop fun _ => by simp
    simp only [Library.react, finishRerun]
    split
    · exact this
    · exact this.setRow li fun _ => ⟨rfl, rfl⟩
  | row li =>
    have := (hpop fun _ => by simp).setRow li (f := fun row =>
      { row with seed := (sidecarTexts B a).1, preview := (sidecarTexts B a).2 })
      fun _ => ⟨rfl, rfl⟩
    rw [Library.react, showSidecar_eq]
    simp only []
    split
    · exact this.applyFilter
    · exact this

/-- No row's promise has been rejected. -/
def Open (s : Library) : Prop := ∀ p ∈ s.rows, ∃ q, s.sidecars.made[p.2.promise]? = some q ∧
  q.key = p.2.item.jobId ∧ q.state.rejected = false

theorem Open.andThen (h : Open s) (id : JobId) (r : Reaction) :
    Open { s with sidecars := (s.sidecars.ask id).2.andThen (s.sidecars.ask id).1 r } := by
  intro p hp
  obtain ⟨q, hq, hk, hr⟩ := h p hp
  obtain ⟨q', hq', hk', hr'⟩ := Cache.made_andThen (Cache.made_ask (k := id) hq)
    (s.sidecars.ask id).1 r
  exact ⟨q', hq', hk'.trans hk, hr'.trans hr⟩

theorem Open.render (h : Open s) (hok : s.sidecars.Ok) (item : Item) :
    Open (s.renderArtifactRow item) := by
  intro p hp
  obtain hp | hp := List.mem_append.mp hp
  · exact h.andThen item.jobId (.row s.made) p hp
  · obtain rfl := List.mem_singleton.mp hp
    obtain ⟨q, hq, hk, hr⟩ := hok.ask_fst item.jobId
    obtain ⟨q', hq', hk', hr'⟩ := Cache.made_andThen hq (s.sidecars.ask item.jobId).1 (.row s.made)
    exact ⟨q', hq', hk'.trans hk, hr'.trans hr⟩

/-- The sample of an entry waits for the same promise as its rows. -/
theorem Complete.collect (h : Complete B s items) (hok : s.sidecars.Ok) (hopen : Open s)
    (item : Item) : Complete B (s.collectEtaSample B item) (item :: items) := by
  unfold collectEtaSample
  split
  · intro p hp hm ht
    obtain rfl | hm := List.mem_cons.mp hm
    · obtain ⟨q, hq, hk, hr⟩ := hopen p hp
      have hcached := Cache.ask_cached ((hok.cached _ _).mpr ⟨q, hq, hk, hr⟩)
      rw [Collects]
      simp only [hcached]
      exact .added hq _ trivial
    · exact ((h p hp hm ht).ask _).andThen _ _
  · rename_i hno
    intro p hp hm ht
    obtain rfl | hm := List.mem_cons.mp hm
    · exact absurd ht hno
    · exact h p hp hm ht

/-! ## A listing -/

variable (B s) in
/-- The samples are right, up to the reactions that are queued. -/
structure Collected : Prop where
  shows : Shows B s
  sampled : Sampled B s
  complete : ∀ items, Complete B s items

theorem Sampled.render (h : Sampled B s) (hok : s.sidecars.Ok) (item : Item) :
    Sampled B (s.renderArtifactRow item) := by
  have hadd := h.andThen hok item.jobId (r := .row s.made) fun _ e => by cases e
  exact hadd.of_same rfl rfl hadd.listed fun _ _ _ => id

theorem rendered (h : RowsOk B s) (hs : Sampled B s) (hopen : Open s) (items : List Item) :
    RowsOk B (items.foldl renderArtifactRow s) ∧ Sampled B (items.foldl renderArtifactRow s) ∧
      Open (items.foldl renderArtifactRow s) := by
  induction items generalizing s with
  | nil => exact ⟨h, hs, hopen⟩
  | cons item items ih =>
    exact ih (h.render item) (hs.render h.cache item) (hopen.render h.cache item)

theorem collect_answers (s : Library) (items : List Item) :
    (items.foldl (collectEtaSample B) s).answers = s.answers := by
  induction items generalizing s with
  | nil => rfl
  | cons item items ih =>
    rw [List.foldl_cons, ih, collectEtaSample]
    split <;> rfl

/-- The samples of `items` are collected, after those of `done`. -/
theorem collected {done : List Item} (hok : s.sidecars.Ok) (hs : Sampled B s) (hopen : Open s)
    (h : Complete B s done) (hitems : ∀ item ∈ items, item ∈ s.answers.flatten) :
    Sampled B (items.foldl (collectEtaSample B) s) ∧
      Complete B (items.foldl (collectEtaSample B) s) (items.reverse ++ done) := by
  induction items generalizing s done with
  | nil => exact ⟨hs, h⟩
  | cons item items ih =>
    have hmem := hitems item List.mem_cons_self
    have hone : (s.collectEtaSample B item).sidecars.Ok ∧ Sampled B (s.collectEtaSample B item) ∧
        Open (s.collectEtaSample B item) ∧
        (s.collectEtaSample B item).answers = s.answers := by
      unfold collectEtaSample
      split
      · refine ⟨(hok.ask _).andThen _ _, hs.andThen hok _ ?_, hopen.andThen _ _, rfl⟩
        rintro _ ⟨rfl⟩
        exact ⟨hmem, rfl⟩
      · exact ⟨hok, hs, hopen, rfl⟩
    obtain ⟨hok', hs', hopen', ha⟩ := hone
    rw [List.reverse_cons, List.append_assoc]
    exact ih hok' hs' hopen' (h.collect hok hopen item) fun j hj =>
      ha ▸ hitems j (List.mem_cons_of_mem _ hj)

theorem Collected.listed (h : Collected B s) (items : List Item) :
    Collected B (s.listed B items) := by
  have hshows := h.shows.listed items
  obtain ⟨s₀, hs₀⟩ : ∃ s₀ : Library, s₀ = { s with
    rows := [], artifactEmpty := items = [], etaSamples := [], answers := items :: s.answers } :=
    ⟨_, rfl⟩
  have hlisted : s.listed B items =
      items.foldl (collectEtaSample B) ((items.foldl renderArtifactRow s₀).applyFilter B) := by
    rw [hs₀]
    rfl
  have hrows : RowsOk B s₀ := by
    subst hs₀
    exact ⟨h.shows.rows.cache, List.nodup_nil, fun _ => nofun, h.shows.rows.fresh, fun _ => nofun⟩
  have hsampled : Sampled B s₀ := by
    subst hs₀
    refine ⟨nofun, h.sampled.listed.mono fun r id hr item e => ?_⟩
    exact ⟨List.mem_append_right _ (hr item e).1, (hr item e).2⟩
  have hopen : Open s₀ := by
    subst hs₀
    exact fun _ => nofun
  obtain ⟨hr, hs, ho⟩ := rendered hrows hsampled hopen items
  have ho' : Open ((items.foldl renderArtifactRow s₀).applyFilter B) := by
    intro p hp
    obtain ⟨row, hm, e⟩ := mem_applyFilter.mp hp
    rw [e]
    exact ho _ hm
  have hanswers : (items.foldl renderArtifactRow s₀).answers = items :: s.answers := by
    rw [(render_answers s₀ items).1, hs₀]
  obtain ⟨hs', hc⟩ := collected (s := (items.foldl renderArtifactRow s₀).applyFilter B) hr.cache
    hs.applyFilter ho' (show Complete B _ [] from fun _ _ hm => nomatch hm) fun item hi => by
      show item ∈ (items.foldl renderArtifactRow s₀).answers.flatten
      rw [hanswers]
      exact List.mem_append_left _ hi
  rw [hlisted] at hshows ⊢
  refine ⟨hshows, hs', fun _ p hp _ => hc p hp ?_⟩
  -- the rows are those of the listing
  have hitems := hshows.listing.items
  rw [collect_answers,
    show ((items.foldl renderArtifactRow s₀).applyFilter B).answers = _ from hanswers] at hitems
  have hitems : _ = items := hitems
  rw [List.append_nil, List.mem_reverse, ← hitems]
  exact List.mem_map_of_mem hp

theorem Collected.react (h : Collected B s) {x : Reaction × Option Json}
    {q : List (Reaction × Option Json)} (hq : s.sidecars.queue = x :: q) :
    Collected B ((s.withQueue q).react B x.1 x.2) :=
  ⟨h.shows.react hq, h.sampled.react hq, fun items => (h.complete items).react hq⟩

theorem Collected.task (h : Collected B s) {act : Action} (hs : s.task B act = some s') :
    Collected B s' := by
  have hshows := h.shows.task hs
  cases act with
  | input query =>
    obtain rfl := Option.some.inj hs
    have hquery : Sampled B { s with query } := ⟨h.sampled.own, h.sampled.listed⟩
    have hall (items : List Item) : Complete B { s with query } items := h.complete items
    exact ⟨hshows, hquery.applyFilter, fun items => (hall items).applyFilter⟩
  | load =>
    obtain rfl := Option.some.inj hs
    exact ⟨hshows, ⟨h.sampled.own, h.sampled.listed⟩, h.complete⟩
  | listed items =>
    simp only [Library.task] at hs
    split at hs
    · cases hs
    · obtain rfl := Option.some.inj hs
      refine Collected.listed (s := { s with loads := s.loads - 1 })
        ⟨?_, ⟨h.sampled.own, h.sampled.listed⟩, h.complete⟩ items
      refine ⟨?_, h.shows.filter.congr rfl rfl rfl fun _ _ _ => id,
        h.shows.listing.of_items rfl rfl rfl⟩
      exact h.shows.rows.of_rows rfl rfl rfl fun p hp => ⟨p.2, hp, rfl, rfl, rfl, rfl⟩
  | settled i answer =>
    obtain ⟨c, hc, rfl⟩ := Option.map_eq_some_iff.mp hs
    exact ⟨hshows, h.sampled.settle hc, fun items => (h.complete items).settle hc⟩
  | rerun li =>
    obtain ⟨row, -, rfl⟩ := Option.map_eq_some_iff.mp hs
    exact ⟨hshows, h.sampled.andThen h.shows.rows.cache _ (fun _ e => by cases e),
      fun items => (h.complete items).andThen _ _⟩

end

end Library

/-! ## The result -/

section
variable {P : Platform} {B : Screen P} {s : Library}

/-- The samples (module doc). -/
structure SamplesJoined (B : Screen P) (s : Library) : Prop where
  own : ∀ id e, Assoc.get? s.etaSamples id = some e → s.Joins B id e
  all : ∀ p ∈ s.rows, ∀ k sc, s.sidecars.made[p.2.promise]? = some ⟨k, .settled (some sc)⟩ →
    (sampleOf B p.2.item sc).isSome = true →
      (Assoc.get? s.etaSamples p.2.item.jobId).isSome = true
  exactly : (∀ i ∈ s.answers.flatten, ∀ j ∈ s.answers.flatten, i.jobId = j.jobId → i = j) →
    ∀ p ∈ s.rows, ∀ k sc, s.sidecars.made[p.2.promise]? = some ⟨k, .settled (some sc)⟩ →
      Assoc.get? s.etaSamples p.2.item.jobId = sampleOf B p.2.item sc

/-- Each sample joins an entry and the sidecar of one job, and no row's sample is missing. -/
theorem eta_samples_joined (h : (library B).Reach Lts.always s) : SamplesJoined B s := by
  have hinv : Library.Collected B s ∧ s.sidecars.queue = [] := by
    refine h.invariant (I := fun s => Library.Collected B s ∧ s.sidecars.queue = []) ?_ ?_
    · rintro _ ⟨query, rfl⟩
      exact ⟨⟨.init B query, ⟨nofun, nofun, nofun⟩, fun _ _ => nofun⟩, rfl⟩
    · intro t a t' hi _ hst
      exact Library.step_induct B (fun _ ht => hi.1.task ht) (fun _ _ _ h hq => h.react hq) hst
  obtain ⟨⟨hshows, hsampled, hcomplete⟩, hqueue⟩ := hinv
  have hall (p : Nat × Row) (hp : p ∈ s.rows) (k : JobId) (sc : Json)
      (hi : s.sidecars.made[p.2.promise]? = some ⟨k, .settled (some sc)⟩)
      (hs : (sampleOf B p.2.item sc).isSome = true) :
      (Assoc.get? s.etaSamples p.2.item.jobId).isSome = true := by
    obtain ⟨e, he⟩ := Option.isSome_iff_exists.mp hs
    have hfate := hcomplete [p.2.item] p hp List.mem_cons_self (Library.sampleOf_timed he)
    obtain ⟨k', rs, hi', -⟩ | ⟨k', a, hi', hd⟩ := hfate.done hqueue
    · cases hi.symm.trans hi'
    · cases hi.symm.trans hi'
      exact hd hs
  refine ⟨hsampled.own, hall, fun hsame p hp k sc hi => ?_⟩
  obtain ⟨q, hq, hk⟩ := (hshows.rows.row p hp).key
  obtain rfl := Option.some.inj (hi.symm.trans hq)
  have hk : k = p.2.item.jobId := hk
  have hjoined (e : EtaSample) (he : Assoc.get? s.etaSamples p.2.item.jobId = some e) :
      sampleOf B p.2.item sc = some e := by
    obtain ⟨item, hm, hid, sc', ⟨i, hi'⟩, hsc⟩ := hsampled.own _ _ he
    have hpm : p.2.item ∈ s.answers.flatten := by
      have hmem : p.2.item ∈ s.answers.head?.getD [] :=
        hshows.listing.items ▸ List.mem_map_of_mem (f := fun p => p.2.item) hp
      cases ha : s.answers with
      | nil =>
        rw [ha] at hmem
        cases hmem
      | cons l ls =>
        rw [ha] at hmem
        exact List.mem_append_left _ hmem
    obtain rfl := hsame item hm p.2.item hpm hid
    obtain rfl := hshows.rows.cache.single hi hi' hk rfl rfl
    cases hi.symm.trans hi'
    exact hsc
  cases hg : Assoc.get? s.etaSamples p.2.item.jobId with
  | some e => exact (hjoined e hg).symm
  | none =>
    symm
    rw [← Option.not_isSome_iff_eq_none]
    intro hs
    have := hall p hp k sc hi hs
    rw [hg] at this
    cases this

end

/-- The sidecar arrives after the filter has been typed. -/
theorem eta_samples_joined_findsTwo : ∃ s,
    (library Sample.screen).run {} Sample.findsTwo = some s ∧ SamplesJoined Sample.screen s ∧
    Assoc.keys s.etaSamples = [Sample.one] := by
  obtain ⟨s, hrun⟩ : ∃ s, (library Sample.screen).run {} Sample.findsTwo = some s := ⟨_, rfl⟩
  refine ⟨s, hrun, eta_samples_joined ⟨{}, ⟨[], rfl⟩, Lts.path_of_run hrun⟩, ?_⟩
  cases hrun
  decide

end Music3
