import Music3.Page.Library

/-!
# What the list shows

`library_shows`: however loads, sidecars, clicks and the filter interleave, the list has the rows of
the listing that was answered last, each with what has become of the sidecar of its job, and a row is
hidden exactly if the filter does not match it.

One kind of row may differ: the text of a row changes when its sidecar fails and when its re-run does,
and the page does not filter it again (`Calm` excludes these rows). An empty filter hides none.
-/

namespace Music3

open Py Promises

section
variable {P : Platform} (B : Screen P)

/-- The seed and the preview, once the fetch has come to `a`. -/
def sidecarTexts (a : Option Json) : Str × Str :=
  (a.bind (told B)).getD (lit "?", lit "(sidecar unavailable)")

/-- The row `li` shows what has become of its sidecar, or its reaction is to come. -/
structure Row.Ok (c : Cache JobId Json Reaction) (li : Nat) (row : Row) : Prop where
  key : ∃ p, c.made[row.promise]? = some p ∧ p.key = row.item.jobId
  owner : c.Owner row.promise (.row li)
  fate : c.Fate row.promise (.row li) ((row.seed, row.preview) = (lit "…", lit "…"))
    fun a => (row.seed, row.preview) = sidecarTexts B a

/-- Neither the sidecar of the row nor a re-run of it has failed. -/
def Calm (c : Cache JobId Json Reaction) (row : Row) : Prop :=
  row.error = none ∧
    ∀ k a, c.made[row.promise]? = some ⟨k, .settled a⟩ → (a.bind (told B)).isSome = true

namespace Library

/-- All rows do, and a row to come is not known to any promise. -/
structure RowsOk (s : Library) : Prop where
  cache : s.sidecars.Ok
  nodup : (Assoc.keys s.rows).Nodup
  old : ∀ p ∈ s.rows, p.1 < s.made
  fresh : ∀ li, s.made ≤ li → ∀ i, s.sidecars.Owner i (.row li)
  row : ∀ p ∈ s.rows, p.2.Ok B s.sidecars p.1

/-- Each row has been filtered by its text, or by an earlier one if it is not calm. -/
structure Filtered (s : Library) : Prop where
  row : ∀ p ∈ s.rows, ∃ t, p.2.hidden = !filterMatch B t s.query ∧
    (Calm B s.sidecars p.2 → t = p.2.text B)
  none : s.artifactNone = true ↔
    s.rows ≠ [] ∧ (∀ p ∈ s.rows, p.2.hidden = true) ∧ trim s.query ≠ []

/-- The rows are those of the last answer. -/
structure Listed (s : Library) : Prop where
  items : s.rows.map (fun p => p.2.item) = s.answers.head?.getD []
  empty : s.artifactEmpty = true ↔ s.answers.head? = some []

end Library

end

/-! ## Rows and the cache -/

section
variable {P : Platform} {B : Screen P} {c c' : Cache JobId Json Reaction} {li : Nat}
  {row row' : Row} {s : Library}

theorem Row.Ok.congr (h : row.Ok B c li) (hi : row'.item = row.item)
    (hp : row'.promise = row.promise) (hs : row'.seed = row.seed)
    (hv : row'.preview = row.preview) : row'.Ok B c li := by
  refine ⟨?_, ?_, ?_⟩
  · rw [hp, hi]
    exact h.key
  · rw [hp]
    exact h.owner
  · rw [hp, hs, hv]
    exact h.fate

theorem Row.Ok.ask (h : row.Ok B c li) (k : JobId) : row.Ok B (c.ask k).2 li :=
  ⟨h.key.imp fun _ hp => ⟨Cache.made_ask hp.1, hp.2⟩, h.owner.ask k, h.fate.ask k⟩

theorem Row.Ok.andThen (h : row.Ok B c li) {r : Reaction} (hr : .row li ≠ r) (i : Nat) :
    row.Ok B (c.andThen i r) li := by
  obtain ⟨p, hp, hk⟩ := h.key
  obtain ⟨p', hp', hk', -⟩ := Cache.made_andThen hp i r
  exact ⟨⟨p', hp', hk'.trans hk⟩, h.owner.andThen_ne hr i, h.fate.andThen i r⟩

theorem Row.Ok.settle (h : row.Ok B c li) {i : Nat} {a : Option Json}
    (hs : c.settle i a = some c') : row.Ok B c' li := by
  refine ⟨?_, h.owner.settle hs, h.fate.settle hs⟩
  obtain ⟨p, hp, hk⟩ := h.key
  obtain ⟨k, rs, hi, hmade, -⟩ := Cache.settle_made hs
  rw [hmade]
  by_cases e : i = row.promise
  · rw [if_pos e]
    subst e
    refine ⟨_, rfl, ?_⟩
    rw [← hk, Option.some.inj (hp.symm.trans hi)]
  · rw [if_neg e]
    exact ⟨p, hp, hk⟩

/-- A reaction that is not the row's leaves the queue. -/
theorem Row.Ok.pop (h : row.Ok B c li) {x : Reaction × Option Json}
    {q : List (Reaction × Option Json)} (hq : c.queue = x :: q) (hx : x.1 ≠ .row li) :
    row.Ok B { c with queue := q } li :=
  ⟨h.key, h.owner.pop hq, (h.fate.pop hq).resolve_right fun e => hx e.1⟩

/-- The row's own reaction leaves the queue, and the row shows what it tells. -/
theorem Row.Ok.shown (h : row.Ok B c li) {a : Option Json} {q : List (Reaction × Option Json)}
    (hq : c.queue = (.row li, a) :: q) (hi : row'.item = row.item)
    (hp : row'.promise = row.promise) (ht : (row'.seed, row'.preview) = sidecarTexts B a) :
    row'.Ok B { c with queue := q } li := by
  obtain ⟨k, hk⟩ := h.owner.queued a (hq ▸ List.mem_cons_self)
  refine ⟨?_, ?_, ?_⟩
  · rw [hp, hi]
    exact h.key
  · rw [hp]
    exact h.owner.pop hq
  · rw [hp]
    exact .ran k a hk ht

theorem Calm.mono (h : Calm B c' row)
    (hc : ∀ k a, c.made[row.promise]? = some ⟨k, .settled a⟩ →
      c'.made[row.promise]? = some ⟨k, .settled a⟩) : Calm B c row :=
  ⟨h.1, fun k a hk => h.2 k a (hc k a hk)⟩

end

/-! ## One operation -/

namespace Library

section
variable {P : Platform} {B : Screen P} {s s' : Library} {li : Nat} {a : Option Json}

theorem mem_setRow {f : Row → Row} {p : Nat × Row} : p ∈ (s.setRow li f).rows ↔
    ∃ row, (p.1, row) ∈ s.rows ∧ p.2 = if p.1 = li then f row else row := by
  obtain ⟨lj, r⟩ := p
  simp only [setRow, List.mem_map, Prod.exists]
  constructor
  · rintro ⟨lk, row, hm, he⟩
    split at he
    · rename_i e
      obtain ⟨rfl, rfl⟩ := Prod.mk.inj he
      exact ⟨row, e ▸ hm, (if_pos rfl).symm⟩
    · rename_i e
      obtain ⟨rfl, rfl⟩ := Prod.mk.inj he
      exact ⟨row, hm, (if_neg e).symm⟩
  · rintro ⟨row, hm, e⟩
    refine ⟨lj, row, hm, ?_⟩
    split
    · rename_i hli
      rw [e, if_pos hli, hli]
    · rename_i hli
      rw [e, if_neg hli]

theorem keys_setRow (f : Row → Row) : Assoc.keys (s.setRow li f).rows = Assoc.keys s.rows := by
  simp only [setRow, Assoc.keys, List.map_map]
  refine List.map_congr_left fun p _ => ?_
  simp only [Function.comp_apply]
  split
  · rename_i e
    exact e.symm
  · rfl

theorem mem_applyFilter {p : Nat × Row} : p ∈ (s.applyFilter B).rows ↔ ∃ row, (p.1, row) ∈ s.rows ∧
    p.2 = { row with hidden := !filterMatch B (row.text B) s.query } := by
  obtain ⟨lj, r⟩ := p
  simp only [applyFilter, List.mem_map, Prod.exists, Prod.mk.injEq]
  constructor
  · rintro ⟨lk, row, hm, rfl, rfl⟩
    exact ⟨row, hm, rfl⟩
  · rintro ⟨row, hm, rfl⟩
    exact ⟨lj, row, hm, rfl, rfl⟩

theorem keys_applyFilter : Assoc.keys (s.applyFilter B).rows = Assoc.keys s.rows := by
  simp [applyFilter, Assoc.keys, Function.comp_def]

/-- The texts that a row has of its sidecar, and the filter. -/
theorem showSidecar_eq : s.showSidecar B li a =
    let t := s.setRow li fun row =>
      { row with seed := (sidecarTexts B a).1, preview := (sidecarTexts B a).2 }
    if (a.bind (told B)).isSome = true ∧ trim s.query ≠ [] then t.applyFilter B else t := by
  unfold showSidecar sidecarTexts
  cases a.bind (told B) with
  | none => simp
  | some t =>
    simp only [Option.isSome_some, Option.getD_some, true_and]
    rfl

/-- The rows stay, but for what no promise is about. -/
theorem RowsOk.of_rows (h : RowsOk B s) (hc : s'.sidecars = s.sidecars) (hm : s'.made = s.made)
    (hk : Assoc.keys s'.rows = Assoc.keys s.rows)
    (hrow : ∀ p ∈ s'.rows, ∃ row, (p.1, row) ∈ s.rows ∧ p.2.item = row.item ∧
      p.2.promise = row.promise ∧ p.2.seed = row.seed ∧ p.2.preview = row.preview) :
    RowsOk B s' := by
  refine ⟨hc ▸ h.cache, hk ▸ h.nodup, fun p hp => ?_, ?_, fun p hp => ?_⟩
  · obtain ⟨row, hmem, -⟩ := hrow p hp
    rw [hm]
    exact h.old (p.1, row) hmem
  · rw [hm, hc]
    exact h.fresh
  · obtain ⟨row, hmem, hi, hp, hs, hv⟩ := hrow p hp
    rw [hc]
    exact (h.row _ hmem).congr hi hp hs hv

theorem RowsOk.applyFilter (h : RowsOk B s) : RowsOk B (s.applyFilter B) := by
  refine h.of_rows rfl rfl keys_applyFilter fun p hp => ?_
  obtain ⟨row, hm, e⟩ := mem_applyFilter.mp hp
  rw [e]
  exact ⟨row, hm, rfl, rfl, rfl, rfl⟩

theorem RowsOk.setError (h : RowsOk B s) (li : Nat) (message : Str) :
    RowsOk B (s.setRow li fun row => { row with error := some message }) := by
  refine h.of_rows rfl rfl (keys_setRow _) fun p hp => ?_
  obtain ⟨row, hm, e⟩ := mem_setRow.mp hp
  refine ⟨row, hm, ?_⟩
  rw [e]
  split <;> exact ⟨rfl, rfl, rfl, rfl⟩

/-- A reaction to a promise, other than a row's. -/
theorem RowsOk.andThen (h : RowsOk B s) (id : JobId) {r : Reaction} (hr : ∀ li, .row li ≠ r) :
    RowsOk B { s with sidecars := (s.sidecars.ask id).2.andThen (s.sidecars.ask id).1 r } where
  cache := (h.cache.ask id).andThen _ r
  nodup := h.nodup
  old := h.old
  fresh li hli i := ((h.fresh li hli i).ask id).andThen_ne (hr li) _
  row p hp := ((h.row p hp).ask id).andThen (hr p.1) _

theorem RowsOk.settle (h : RowsOk B s) {i : Nat} {c : Cache JobId Json Reaction}
    (hs : s.sidecars.settle i a = some c) : RowsOk B { s with sidecars := c } where
  cache := h.cache.settle hs
  nodup := h.nodup
  old := h.old
  fresh li hli i := (h.fresh li hli i).settle hs
  row p hp := (h.row p hp).settle hs

theorem RowsOk.render (h : RowsOk B s) (item : Item) : RowsOk B (s.renderArtifactRow item) := by
  obtain ⟨p, hp, hk, -⟩ := h.cache.ask_fst item.jobId
  have hne {lj : Nat} (hlt : lj ≠ s.made) : (.row lj : Reaction) ≠ .row s.made := fun e =>
    hlt (Reaction.row.inj e)
  have howner := ((h.fresh s.made le_rfl (s.sidecars.ask item.jobId).1).ask item.jobId).andThen_self
  refine ⟨(h.cache.ask _).andThen _ _, ?_, fun q hq => ?_, fun li hli i => ?_, fun q hq => ?_⟩
  · show (Assoc.keys (s.rows ++ [(s.made, _)])).Nodup
    rw [Assoc.keys_append]
    refine List.nodup_append'.mpr ⟨h.nodup, List.nodup_singleton _, ?_⟩
    intro li hli hmem
    obtain ⟨q, hq, rfl⟩ := List.mem_map.mp hli
    have := h.old q hq
    have := List.mem_singleton.mp hmem
    omega
  · show q.1 < s.made + 1
    obtain hq | hq := List.mem_append.mp hq
    · exact Nat.lt_succ_of_lt (h.old q hq)
    · rw [List.mem_singleton.mp hq]
      exact Nat.lt_succ_self _
  · have hli : s.made + 1 ≤ li := hli
    exact ((h.fresh li (by omega) i).ask _).andThen_ne (hne (by omega)) _
  · obtain hq | hq := List.mem_append.mp hq
    · exact ((h.row q hq).ask _).andThen (hne (Nat.ne_of_lt (h.old q hq))) _
    · obtain rfl := List.mem_singleton.mp hq
      obtain ⟨p', hp', hk', -⟩ := Cache.made_andThen hp (s.sidecars.ask item.jobId).1 (.row s.made)
      exact ⟨⟨p', hp', hk'.trans hk⟩, howner, .added hp _ rfl⟩

/-- The first reaction of the queue runs. -/
theorem RowsOk.react (h : RowsOk B s) {x : Reaction × Option Json}
    {q : List (Reaction × Option Json)} (hq : s.sidecars.queue = x :: q) :
    RowsOk B ((s.withQueue q).react B x.1 x.2) := by
  have hcache : (s.withQueue q).sidecars.Ok := h.cache.congr rfl fun _ => rfl
  have hfresh (li : Nat) (hli : s.made ≤ li) (i : Nat) :
      (s.withQueue q).sidecars.Owner i (.row li) := (h.fresh li hli i).pop hq
  have hother (hx : ∀ li, x.1 ≠ .row li) : RowsOk B (s.withQueue q) :=
    ⟨hcache, h.nodup, h.old, hfresh, fun p hp => (h.row p hp).pop hq (hx p.1)⟩
  obtain ⟨r, a⟩ := x
  cases r with
  | sample item =>
    have := hother fun _ => by simp
    simp only [Library.react, recordSample]
    split
    · exact this.of_rows rfl rfl rfl fun p hp => ⟨p.2, hp, rfl, rfl, rfl, rfl⟩
    · exact this
  | rerun li =>
    have := hother fun _ => by simp
    simp only [Library.react, finishRerun]
    split
    · exact this
    · exact this.setError li _
  | row li =>
    have hset : RowsOk B ((s.withQueue q).setRow li fun row =>
        { row with seed := (sidecarTexts B a).1, preview := (sidecarTexts B a).2 }) := by
      refine ⟨hcache, ?_, fun p hp => ?_, hfresh, fun p hp => ?_⟩
      · rw [keys_setRow]
        exact h.nodup
      · obtain ⟨row, hm, -⟩ := mem_setRow.mp hp
        exact h.old (p.1, row) hm
      · obtain ⟨row, hm, e⟩ := mem_setRow.mp hp
        obtain ⟨lj, row'⟩ := p
        simp only at e hm
        split at e
        · rename_i hli
          subst hli
          rw [e]
          exact (h.row _ hm).shown hq rfl rfl rfl
        · rename_i hli
          rw [e]
          exact (h.row _ hm).pop hq fun e' => hli (Reaction.row.inj e').symm
    rw [Library.react, showSidecar_eq]
    simp only []
    split
    · exact hset.applyFilter
    · exact hset

/-! ## The filter -/

theorem filtered_applyFilter (s : Library) : Filtered B (s.applyFilter B) := by
  refine ⟨fun p hp => ?_, ?_⟩
  · obtain ⟨row, -, e⟩ := mem_applyFilter.mp hp
    refine ⟨row.text B, ?_, fun _ => ?_⟩
    · rw [e]
      rfl
    · rw [e]
      rfl
  · exact decide_eq_true_iff.trans
      (and_congr_right fun _ => and_congr_left fun _ => List.all_eq_true)

/-- An empty filter matches every text. -/
theorem filterMatch_blank {query : Str} (h : trim query = []) (t : Str) :
    filterMatch B t query = true := by
  unfold filterMatch
  rw [h, B.lower_nil]
  rfl

/-- What promises do to a row, the filter does not see. -/
theorem Filtered.congr (h : Filtered B s) (hr : s'.rows = s.rows) (hq : s'.query = s.query)
    (hn : s'.artifactNone = s.artifactNone)
    (hc : ∀ (i : Nat) k a, s.sidecars.made[i]? = some ⟨k, .settled a⟩ →
      s'.sidecars.made[i]? = some ⟨k, .settled a⟩) : Filtered B s' := by
  refine ⟨fun p hp => ?_, ?_⟩
  · rw [hr] at hp
    obtain ⟨t, ht, hcalm⟩ := h.row p hp
    exact ⟨t, hq ▸ ht, fun e => hcalm (e.mono (hc p.2.promise))⟩
  · rw [hr, hq, hn]
    exact h.none

/-- A row changes and is not filtered again: it is no longer calm, or its text does not matter. -/
theorem Filtered.setRow (h : Filtered B s) {f : Row → Row} (hf : ∀ row, (f row).hidden = row.hidden)
    (hrow : ∀ row, (li, row) ∈ s.rows → trim s.query = [] ∨ ¬ Calm B s.sidecars (f row)) :
    Filtered B (s.setRow li f) := by
  have hhidden : (∀ p ∈ (s.setRow li f).rows, p.2.hidden = true) ↔
      ∀ p ∈ s.rows, p.2.hidden = true := by
    constructor
    · intro hall p hp
      have := hall (p.1, if p.1 = li then f p.2 else p.2) (mem_setRow.mpr ⟨p.2, hp, rfl⟩)
      simp only at this
      split at this
      · rwa [hf] at this
      · exact this
    · intro hall p hp
      obtain ⟨row, hm, e⟩ := mem_setRow.mp hp
      rw [e]
      split
      · rw [hf]
        exact hall _ hm
      · exact hall _ hm
  refine ⟨fun p hp => ?_, ?_⟩
  · obtain ⟨row, hm, e⟩ := mem_setRow.mp hp
    obtain ⟨t, ht, hcalm⟩ := h.row _ hm
    rw [e]
    split
    · rename_i hli
      obtain hblank | hno := hrow row (hli ▸ hm)
      · refine ⟨(f row).text B, ?_, fun _ => rfl⟩
        rw [hf, ht]
        exact congrArg (!·) ((filterMatch_blank hblank t).trans (filterMatch_blank hblank _).symm)
      · exact ⟨t, (hf row).trans ht, fun hc => absurd hc hno⟩
    · exact ⟨t, ht, hcalm⟩
  · rw [hhidden]
    show s.artifactNone = true ↔ s.rows.map _ ≠ [] ∧ _
    rw [Ne, List.map_eq_nil_iff]
    exact h.none

theorem Filtered.react (h : Filtered B s) (hrows : RowsOk B s) {x : Reaction × Option Json}
    {q : List (Reaction × Option Json)} (hq : s.sidecars.queue = x :: q) :
    Filtered B ((s.withQueue q).react B x.1 x.2) := by
  have hpop : Filtered B (s.withQueue q) := h.congr rfl rfl rfl fun _ _ _ => id
  obtain ⟨r, a⟩ := x
  cases r with
  | sample item =>
    simp only [Library.react, recordSample]
    split
    · exact h.congr rfl rfl rfl fun _ _ _ => id
    · exact hpop
  | rerun li =>
    simp only [Library.react, finishRerun]
    split
    · exact hpop
    · exact hpop.setRow (fun _ => rfl) fun row _ => .inr fun hc => by cases hc.1
  | row li =>
    rw [Library.react, showSidecar_eq]
    simp only []
    split
    · exact filtered_applyFilter _
    · rename_i hno
      refine hpop.setRow (fun _ => rfl) fun row hm => ?_
      by_cases hblank : trim s.query = []
      · exact .inl hblank
      · refine .inr fun hc => hno ⟨?_, hblank⟩
        obtain ⟨k, hk⟩ := (hrows.row _ hm).owner.queued a (hq ▸ List.mem_cons_self)
        exact hc.2 k a hk

/-! ## The listing -/

theorem Listed.of_items (h : Listed s)
    (hr : s'.rows.map (fun p => p.2.item) = s.rows.map fun p => p.2.item)
    (ha : s'.answers = s.answers) (he : s'.artifactEmpty = s.artifactEmpty) : Listed s' := by
  refine ⟨?_, ?_⟩
  · rw [hr, ha]
    exact h.items
  · rw [he, ha]
    exact h.empty

theorem items_setRow {f : Row → Row} (hf : ∀ row, (f row).item = row.item) :
    (s.setRow li f).rows.map (fun p => p.2.item) = s.rows.map fun p => p.2.item := by
  simp only [Library.setRow, List.map_map]
  refine List.map_congr_left fun p _ => ?_
  simp only [Function.comp_apply]
  split
  · exact hf p.2
  · rfl

theorem Listed.applyFilter (h : Listed s) : Listed (s.applyFilter B) :=
  h.of_items (by simp [Library.applyFilter, Function.comp_def]) rfl rfl

theorem Listed.react (h : Listed s) (r : Reaction) (a : Option Json) : Listed (s.react B r a) := by
  cases r with
  | sample item =>
    simp only [Library.react, recordSample]
    split
    · exact h.of_items rfl rfl rfl
    · exact h
  | rerun li =>
    simp only [Library.react, finishRerun]
    split
    · exact h
    · exact h.of_items (items_setRow fun _ => rfl) rfl rfl
  | row li =>
    rw [Library.react, showSidecar_eq]
    simp only []
    have hset : Listed (s.setRow li fun row =>
        { row with seed := (sidecarTexts B a).1, preview := (sidecarTexts B a).2 }) :=
      h.of_items (items_setRow fun _ => rfl) rfl rfl
    split
    · exact hset.applyFilter
    · exact hset

/-! ## The tasks -/

variable (B s) in
/-- The list is right, up to the reactions that are queued. -/
structure Shows : Prop where
  rows : RowsOk B s
  filter : Filtered B s
  listing : Listed s

variable (B) in
theorem Shows.init (query : Str) : Shows B { query } where
  rows := ⟨⟨by simp, by simp⟩, List.nodup_nil, nofun, fun _ _ _ => ⟨nofun, nofun⟩, nofun⟩
  filter := ⟨nofun, by simp⟩
  listing := ⟨rfl, by simp⟩

theorem Shows.react (h : Shows B s) {x : Reaction × Option Json}
    {q : List (Reaction × Option Json)} (hq : s.sidecars.queue = x :: q) :
    Shows B ((s.withQueue q).react B x.1 x.2) where
  rows := h.rows.react hq
  filter := h.filter.react h.rows hq
  listing :=
    have hpop : Listed (s.withQueue q) := h.listing.of_items rfl rfl rfl
    hpop.react x.1 x.2

theorem settled_ask {i : Nat} {k id : JobId} {c : Cache JobId Json Reaction} {r : Reaction}
    (h : c.made[i]? = some ⟨k, .settled a⟩) :
    ((c.ask id).2.andThen (c.ask id).1 r).made[i]? = some ⟨k, .settled a⟩ :=
  Cache.andThen_settled _ r (Cache.made_ask h)

theorem Shows.andThen (h : Shows B s) (id : JobId) {r : Reaction} (hr : ∀ li, .row li ≠ r) :
    Shows B { s with sidecars := (s.sidecars.ask id).2.andThen (s.sidecars.ask id).1 r } where
  rows := h.rows.andThen id hr
  filter := h.filter.congr rfl rfl rfl fun _ _ _ => settled_ask
  listing := h.listing.of_items rfl rfl rfl

theorem Shows.collect (h : Shows B s) (items : List Item) :
    Shows B (items.foldl (collectEtaSample B) s) := by
  induction items generalizing s with
  | nil => exact h
  | cons item items ih =>
    refine ih ?_
    unfold collectEtaSample
    split
    · exact h.andThen item.jobId fun _ => by simp
    · exact h

theorem RowsOk.renders (h : RowsOk B s) (items : List Item) :
    RowsOk B (items.foldl renderArtifactRow s) := by
  induction items generalizing s with
  | nil => exact h
  | cons item items ih => exact ih (h.render item)

theorem render_items (s : Library) (items : List Item) :
    (items.foldl renderArtifactRow s).rows.map (fun p => p.2.item) =
      s.rows.map (fun p => p.2.item) ++ items := by
  induction items generalizing s with
  | nil => exact (List.append_nil _).symm
  | cons item items ih =>
    rw [List.foldl_cons, ih]
    simp [renderArtifactRow]

theorem render_answers (s : Library) (items : List Item) :
    (items.foldl renderArtifactRow s).answers = s.answers ∧
      (items.foldl renderArtifactRow s).artifactEmpty = s.artifactEmpty := by
  induction items generalizing s with
  | nil => exact ⟨rfl, rfl⟩
  | cons item items ih => exact ih (s.renderArtifactRow item)

theorem Shows.listed (h : Shows B s) (items : List Item) : Shows B (s.listed B items) := by
  obtain ⟨s₀, hs₀⟩ : ∃ s₀ : Library, s₀ = { s with
    rows := [], artifactEmpty := items = [], etaSamples := [], answers := items :: s.answers } :=
    ⟨_, rfl⟩
  have hrows : RowsOk B s₀ := by
    subst hs₀
    exact ⟨h.rows.cache, List.nodup_nil, fun _ => nofun, h.rows.fresh, fun _ => nofun⟩
  have hlisting : Listed ((items.foldl renderArtifactRow s₀)) := by
    obtain ⟨ha, he⟩ := render_answers s₀ items
    refine ⟨?_, ?_⟩
    · rw [render_items, ha, hs₀]
      rfl
    · rw [he, ha, hs₀]
      simp
  have hshows : Shows B ((items.foldl renderArtifactRow s₀).applyFilter B) :=
    ⟨(hrows.renders items).applyFilter, filtered_applyFilter _, hlisting.applyFilter⟩
  have := hshows.collect items
  rw [hs₀] at this
  exact this

theorem Shows.task (h : Shows B s) {act : Action} (hs : s.task B act = some s') : Shows B s' := by
  cases act with
  | input query =>
    obtain rfl := Option.some.inj hs
    refine ⟨RowsOk.applyFilter ?_, filtered_applyFilter _, Listed.applyFilter ?_⟩
    · exact h.rows.of_rows rfl rfl rfl fun p hp => ⟨p.2, hp, rfl, rfl, rfl, rfl⟩
    · exact h.listing.of_items rfl rfl rfl
  | load =>
    obtain rfl := Option.some.inj hs
    refine ⟨?_, h.filter.congr rfl rfl rfl fun _ _ _ => id, h.listing.of_items rfl rfl rfl⟩
    exact h.rows.of_rows rfl rfl rfl fun p hp => ⟨p.2, hp, rfl, rfl, rfl, rfl⟩
  | listed items =>
    simp only [Library.task] at hs
    split at hs
    · cases hs
    · obtain rfl := Option.some.inj hs
      refine Shows.listed (s := { s with loads := s.loads - 1 })
        ⟨?_, ?_, h.listing.of_items rfl rfl rfl⟩ items
      · exact h.rows.of_rows rfl rfl rfl fun p hp => ⟨p.2, hp, rfl, rfl, rfl, rfl⟩
      · exact h.filter.congr rfl rfl rfl fun _ _ _ => id
  | settled i answer =>
    obtain ⟨c, hc, rfl⟩ := Option.map_eq_some_iff.mp hs
    exact ⟨h.rows.settle hc, h.filter.congr rfl rfl rfl fun _ _ _ => Cache.settled_settle hc,
      h.listing.of_items rfl rfl rfl⟩
  | rerun li =>
    obtain ⟨row, -, rfl⟩ := Option.map_eq_some_iff.mp hs
    exact h.andThen row.item.jobId fun _ => by simp

end

end Library

/-! ## The result -/

section
variable {P : Platform} {B : Screen P} {s : Library}

/-- The list and its filter (module doc). -/
structure ShowsListing (B : Screen P) (s : Library) : Prop where
  items : s.rows.map (fun p => p.2.item) = s.answers.head?.getD []
  sidecars : ∀ p ∈ s.rows, ∃ q, s.sidecars.made[p.2.promise]? = some q ∧ q.key = p.2.item.jobId ∧
    (p.2.seed, p.2.preview) = match q.state with
      | .pending _ => (lit "…", lit "…")
      | .settled a => sidecarTexts B a
  matched : ∀ p ∈ s.rows, Calm B s.sidecars p.2 →
    p.2.hidden = !filterMatch B (p.2.text B) s.query
  unfiltered : trim s.query = [] → ∀ p ∈ s.rows, p.2.hidden = false
  empty : s.artifactEmpty = true ↔ s.answers.head? = some []
  none : s.artifactNone = true ↔
    s.rows ≠ [] ∧ (∀ p ∈ s.rows, p.2.hidden = true) ∧ trim s.query ≠ []
  one : ¬ (s.artifactEmpty = true ∧ s.artifactNone = true)

/-- The list shows the last listing, what is known of each sidecar, and what the filter matches. -/
theorem library_shows (h : (library B).Reach Lts.always s) : ShowsListing B s := by
  have hinv : s.Shows B ∧ s.sidecars.queue = [] := by
    refine h.invariant (I := fun s => s.Shows B ∧ s.sidecars.queue = []) ?_ ?_
    · rintro _ ⟨query, rfl⟩
      exact ⟨.init B query, rfl⟩
    · intro t a t' hi _ hst
      exact Library.step_induct B (fun _ ht => hi.1.task ht) (fun _ _ _ h hq => h.react hq) hst
  obtain ⟨⟨hrows, hfilter, hlisting⟩, hqueue⟩ := hinv
  refine ⟨hlisting.items, fun p hp => ?_, fun p hp hcalm => ?_, fun hblank p hp => ?_,
    hlisting.empty, hfilter.none, fun ⟨he, hn⟩ => ?_⟩
  · obtain ⟨q, hq, hk⟩ := (hrows.row p hp).key
    refine ⟨q, hq, hk, ?_⟩
    obtain ⟨k, rs, hi, ht⟩ | ⟨k, a, hi, ht⟩ := (hrows.row p hp).fate.done hqueue
    · obtain rfl := Option.some.inj (hq.symm.trans hi)
      exact ht
    · obtain rfl := Option.some.inj (hq.symm.trans hi)
      exact ht
  · obtain ⟨t, ht, hc⟩ := hfilter.row p hp
    rw [ht, hc hcalm]
  · obtain ⟨t, ht, -⟩ := hfilter.row p hp
    rw [ht, Library.filterMatch_blank hblank]
    rfl
  · have hitems := hlisting.items
    rw [hlisting.empty.mp he] at hitems
    exact (hfilter.none.mp hn).1 (List.map_eq_nil_iff.mp hitems)

end

/-- Two rows, and an input that finds the second by its id. -/
def Sample.findsTwo : List Library.Action :=
  [.load, .listed [itemOf one, itemOf two], .settled 0 (some (sidecarJson 7)), .input (lit " 0B")]

theorem library_shows_findsTwo : ∃ s, (library Sample.screen).run {} Sample.findsTwo = some s ∧
    ShowsListing Sample.screen s ∧ s.rows.map (fun p => p.2.hidden) = [true, false] := by
  obtain ⟨s, hrun⟩ : ∃ s, (library Sample.screen).run {} Sample.findsTwo = some s := ⟨_, rfl⟩
  refine ⟨s, hrun, library_shows ⟨{}, ⟨[], rfl⟩, Lts.path_of_run hrun⟩, ?_⟩
  cases hrun
  decide +kernel

end Music3
