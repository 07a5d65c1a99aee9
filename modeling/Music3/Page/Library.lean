import Music3.Lib.Promises
import Music3.Page.Eta
import Music3.Page.Player
import Music3.Page.Rerun

/-!
# The list of artifacts

The "On disk" list of the page as a labelled system: `loadArtifacts` with `renderArtifactRow`,
`fetchSidecar` and `collectEtaSamples`, the filter, and a row's "Re-run" button. A task of the
browser runs up to its awaits and then runs the reactions of the promises that have settled, so an
action is one task: a load or its answer (`listed`, the empty list if it has failed), the answer to
a fetch of a sidecar, an input of the filter, a click.

A row is known by its number; the answer to a load replaces all rows, and a reaction of a row that
is gone finds none to write to. What a re-run puts into the form is `rerunFromSidecar`; the `Play`
button is the player's.
-/

namespace Music3

open Py Promises

/-! ## Texts -/

/-- What the page takes from the browser besides: `String` of a number and `toLowerCase`, built-ins of
the language like `Browser`'s. -/
structure Screen (P : Platform) extends Browser P where
  numeral : JsNumber → Str
  lower : Str → Str
  lower_nil : lower [] = []

/-- `x`, if it is a finite number. -/
def JsNumber.finite? : JsNumber → Option ℚ
  | finite q => some q
  | _ => none

/-- `x > 0`. -/
def JsNumber.positive : JsNumber → Bool
  | finite q => 0 < q
  | infinite negative => !negative
  | nan => false

/-- The UTF-16 units of a string. -/
def utf16 (s : Str) : List Nat :=
  s.flatMap fun c => if c.val < 0x10000 then [c.val]
    else [0xD800 + (c.val - 0x10000) / 0x400, 0xDC00 + (c.val - 0x10000) % 0x400]

/-- `s.slice(0, n)`. -/
def jsSlice (n : Nat) (s : Str) : Str := joinUnits ((utf16 s).take n)

/-- `text.includes(q)`. -/
def includes (text q : Str) : Bool := utf16 q <:+: utf16 text

/-- `formatDuration`, of any number. -/
def durationText : JsNumber → Str
  | .finite seconds => formatDuration seconds
  | .infinite false => lit "Infinity:NaN"
  | .infinite true | .nan => formatDuration 0

/-- `v.toFixed(1)`, of a number that is not negative and less than `10 ^ 21`. -/
def toFixed1 (v : ℚ) : Str :=
  let tenths := ⌊10 * v + 1 / 2⌋.toNat
  natText (tenths / 10) ++ lit "." ++ natText (tenths % 10)

/-- The unit that a size is shown in: the loop of `formatBytes`. -/
def byteUnit (v : ℚ) (unit : Str) : List Str → ℚ × Str
  | [] => (v, unit)
  | u :: us => if 1024 ≤ v then byteUnit (v / 1024) u us else (v, unit)

section
variable {P : Platform} (B : Screen P)

/-- `formatBytes`. -/
def formatBytes : JsNumber → Str
  | .finite b =>
    if b < 0 then []
    else if b < 1024 then B.numeral (.finite b) ++ lit " B"
    else
      let (v, unit) := byteUnit (b / 1024) (lit "KiB") [lit "MiB", lit "GiB"]
      (if v < 10 ^ 21 then toFixed1 v else B.numeral (.finite v)) ++ lit " " ++ unit
  | .infinite false => lit "Infinity GiB"
  | .infinite true | .nan => []

/-- `filterMatch`. -/
def filterMatch (text query : Str) : Bool :=
  let q := B.lower (trim query)
  if q = [] then true else includes (B.lower text) q

/-! ## Rows -/

/-- An entry of the listing. -/
structure Item where
  jobId : JobId
  entry : Json

/-- `v || {}` and `v &&`: `v`, if it is truthy. -/
def truthy? (v : Option Json) : Option Json := v.filter jsTruthy

/-- The texts of a row that do not change, before the seed and after the preview. -/
def rowHead (item : Item) : Str :=
  let out := (truthy? (property item.entry (lit "output"))).getD (.obj [])
  let engine := truthy? ((truthy? (property item.entry (lit "engine"))).bind
    fun engine => property engine (lit "name"))
  lit "duration: " ++ ((property out (lit "duration_seconds")).elim (lit "—")
    fun v => durationText (B.number v)) ++
  (lit "rate: " ++ (property out (lit "sample_rate")).elim (lit "—") fun v => B.text v ++ lit " Hz") ++
  (lit "engine: " ++ engine.elim (lit "—") B.text) ++
  (lit "job: " ++ item.jobId) ++ lit "seed: "

def rowTail (item : Item) : Str :=
  let out := (truthy? (property item.entry (lit "output"))).getD (.obj [])
  let size := (property out (lit "byte_size")).elim [] fun v => formatBytes B (B.number v)
  (if size ≠ [] then lit "▶ Play · " ++ size else lit "▶ Play") ++
    (lit "Download" ++ lit "Re-run this seed")

/-- A row of the list. `promise` is the promise of its sidecar. -/
structure Row where
  item : Item
  promise : Nat
  seed : Str := lit "…"
  preview : Str := lit "…"
  error : Option Str := none
  hidden : Bool := false

/-- `li.textContent`. -/
def Row.text (row : Row) : Str :=
  rowHead B row.item ++ row.seed ++ row.preview ++ rowTail B row.item ++ row.error.getD []

/-- The seed and the preview that a sidecar is shown as, unless the row's reaction throws: a caption
that is neither a string nor an array has no `slice`. -/
def told (sc : Json) : Option (Str × Str) :=
  let req := ((truthy? (some sc)).bind fun sc => truthy? (property sc (lit "request"))).getD (.obj [])
  let seed := (property req (lit "seed")).elim (lit "?") B.text
  let caption := truthy? (property req (lit "instructions")) |>.or
    (truthy? (property req (lit "input")))
  match caption with
  | none => some (seed, lit "(no caption recorded)")
  | some (.str s) => some (seed, jsSlice 200 s)
  | some (.arr xs) => some (seed, B.text (.arr (xs.take 200)))
  | some _ => none

/-! ## Samples -/

/-- `Number(v.a && v.a.b)`. A falsy `v.a` is taken for `NaN`, as neither is positive. -/
def numberAt (v : Option Json) (a b : Str) : JsNumber :=
  match ((truthy? v).bind fun v => truthy? (property v a)).bind fun w => property w b with
  | some x => B.number x
  | none => .nan

/-- What `collectEtaSamples` records of an item and its sidecar. The number of a modification time
is finite. -/
def sampleOf (item : Item) (sc : Json) : Option EtaSample :=
  let gen := numberAt B (some item.entry) (lit "timings") (lit "generation_seconds")
  let frames := numberAt B (some sc) (lit "request") (lit "max_new_tokens")
  if gen.positive && frames.positive then some {
    frames := frames.finite?
    seconds := gen.finite?
    mtime := some (((property item.entry (lit "mtime")).bind
      fun v => (B.number v).finite?).getD 0) }
  else none

end

/-! ## The system -/

/-- What the page does when the fetch of a sidecar settles. -/
inductive Reaction where
  /-- The row shows it. -/
  | row (li : Nat)
  /-- `collectEtaSamples` goes on. -/
  | sample (item : Item)
  /-- `rerunFromSidecar` goes on. -/
  | rerun (li : Nat)

/-- The list (module doc). -/
structure Library where
  sidecars : Cache JobId Json Reaction := {}
  /-- The rows, by their numbers. -/
  rows : List (Nat × Row) := []
  /-- How many rows have been made. -/
  made : Nat := 0
  query : Str := []
  /-- `artifact-empty` and `artifact-none` are shown. -/
  artifactEmpty : Bool := false
  artifactNone : Bool := false
  etaSamples : List (JobId × EtaSample) := []
  /-- How many loads wait for their answers. -/
  loads : Nat := 0
  /-- The answers, the last one first. -/
  answers : List (List Item) := []

namespace Library

/-- The row `li`, if it is in the list, becomes `f` of it. -/
def setRow (s : Library) (li : Nat) (f : Row → Row) : Library :=
  { s with rows := s.rows.map fun p => if p.1 = li then (li, f p.2) else p }

section
variable {P : Platform} (B : Screen P)

/-- `applyFilter`. -/
def applyFilter (s : Library) : Library :=
  let rows := s.rows.map fun p => (p.1, { p.2 with hidden := !filterMatch B (p.2.text B) s.query })
  { s with
    rows
    artifactNone := rows ≠ [] ∧ (rows.all fun p => p.2.hidden) ∧ trim s.query ≠ [] }

/-- `renderArtifactRow`. -/
def renderArtifactRow (s : Library) (item : Item) : Library :=
  let (i, sidecars) := s.sidecars.ask item.jobId
  { s with
    sidecars := sidecars.andThen i (.row s.made)
    rows := s.rows ++ [(s.made, { item, promise := i })]
    made := s.made + 1 }

/-- `collectEtaSamples`, of one item, up to its await. -/
def collectEtaSample (s : Library) (item : Item) : Library :=
  if (numberAt B (some item.entry) (lit "timings") (lit "generation_seconds")).positive then
    let (i, sidecars) := s.sidecars.ask item.jobId
    { s with sidecars := sidecars.andThen i (.sample item) }
  else s

/-- The reaction of the row `li`, and what catches what it throws. -/
def showSidecar (s : Library) (li : Nat) (a : Option Json) : Library :=
  match a.bind (told B) with
  | some (seed, preview) =>
    let s := s.setRow li fun row => { row with seed, preview }
    if trim s.query ≠ [] then s.applyFilter B else s
  | none =>
    s.setRow li fun row => { row with seed := lit "?", preview := lit "(sidecar unavailable)" }

/-- `collectEtaSamples`, of one item, after its await. -/
def recordSample (s : Library) (item : Item) (a : Option Json) : Library :=
  match a.bind (sampleOf B item) with
  | some e => { s with etaSamples := Assoc.set s.etaSamples item.jobId e }
  | none => s

/-- `rerunFromSidecar` after its await. -/
def finishRerun (s : Library) (li : Nat) (a : Option Json) : Library :=
  match rerunFromSidecar B.toBrowser a with
  | .ok _ => s
  | .error message => s.setRow li fun row => { row with error := some message }

/-- What a reaction does; `a` is what the fetch has come to. -/
def react (s : Library) (r : Reaction) (a : Option Json) : Library :=
  match r with
  | .row li => s.showSidecar B li a
  | .sample item => s.recordSample B item a
  | .rerun li => s.finishRerun B li a

/-- The reactions that are queued run. -/
def runQueue (s : Library) : Library :=
  s.sidecars.queue.foldl (fun s x =>
      { s with sidecars := { s.sidecars with queue := s.sidecars.queue.tail } }.react B x.1 x.2) s

/-- `loadArtifacts` after its first await. -/
def listed (s : Library) (items : List Item) : Library :=
  let s := { s with
    rows := [], artifactEmpty := items = [], etaSamples := [], answers := items :: s.answers }
  let s := (items.foldl renderArtifactRow s).applyFilter B
  items.foldl (collectEtaSample B) s

/-- What can happen. -/
inductive Action where
  | input (query : Str)
  | load
  | listed (items : List Item)
  | settled (i : Nat) (answer : Option Json)
  | rerun (li : Nat)

/-- One task, up to its reactions. -/
def task (s : Library) : Action → Option Library
  | .input query => some ({ s with query }.applyFilter B)
  | .load => some { s with loads := s.loads + 1 }
  | .listed items => if s.loads = 0 then none else some ({ s with loads := s.loads - 1 }.listed B items)
  | .settled i answer => (s.sidecars.settle i answer).map fun sidecars => { s with sidecars }
  | .rerun li => (Assoc.get? s.rows li).map fun row =>
    let (i, sidecars) := s.sidecars.ask row.item.jobId
    { s with sidecars := sidecars.andThen i (.rerun li) }

/-- One step. -/
def step (s : Library) (a : Action) : Option Library := (s.task B a).map (runQueue B)

end

end Library

/-- The list of artifacts as a labelled system, from the page load on. -/
def library {P : Platform} (B : Screen P) : Lts Library Library.Action where
  init s := ∃ query, s = { query }
  step := Library.step B

/-! ## The tasks -/

namespace Library

section
variable {P : Platform} (B : Screen P) {s s' : Library}

@[simp] theorem react_sidecars (s : Library) (r : Reaction) (a : Option Json) :
    (s.react B r a).sidecars = s.sidecars := by
  cases r with
  | row li =>
    simp only [react, showSidecar]
    split
    · split <;> rfl
    · rfl
  | sample item =>
    simp only [react, recordSample]
    split <;> rfl
  | rerun li =>
    simp only [react, finishRerun]
    split <;> rfl

/-- With `q` for the queue. -/
def withQueue (s : Library) (q : List (Reaction × Option Json)) : Library :=
  { s with sidecars := { s.sidecars with queue := q } }

/-- What each reaction keeps, in its turn, is kept by all of them. -/
theorem runQueue_induct {I : Library → Prop}
    (h : ∀ s x q, I s → s.sidecars.queue = x :: q → I ((s.withQueue q).react B x.1 x.2))
    (hs : I s) :
    I (s.runQueue B) ∧ (s.runQueue B).sidecars.queue = [] := by
  unfold runQueue
  generalize hq : s.sidecars.queue = q
  induction q generalizing s with
  | nil => exact ⟨hs, hq⟩
  | cons x q ih =>
    rw [List.foldl_cons, show { s with sidecars := { s.sidecars with queue := s.sidecars.queue.tail } }
      = s.withQueue q by rw [hq]; rfl]
    refine ih (h s x q hs hq) ?_
    rw [react_sidecars]
    rfl

/-- A task and what the reactions keep. -/
theorem step_induct {I : Library → Prop} {a : Action}
    (htask : ∀ t, s.task B a = some t → I t)
    (hreact : ∀ s x q, I s → s.sidecars.queue = x :: q → I ((s.withQueue q).react B x.1 x.2))
    (hs : s.step B a = some s') : I s' ∧ s'.sidecars.queue = [] := by
  obtain ⟨t, ht, rfl⟩ := Option.map_eq_some_iff.mp hs
  exact runQueue_induct B hreact (htask t ht)

/-! ## The requests -/

/-- The jobs whose sidecars are requested by an action: those of a listing once each, unless a request
has been made and has not failed. -/
def asked (s : Library) : Action → List JobId
  | .listed items => ((items.map Item.jobId).filter fun id => ¬ s.sidecars.Live id).eraseDups
  | .rerun li => match Assoc.get? s.rows li with
    | some row => if s.sidecars.Live row.item.jobId then [] else [row.item.jobId]
    | none => []
  | _ => []

omit B in
/-- The rows ask for their sidecars. -/
theorem render_asks (items : List Item) (h : s.sidecars.Ok) :
    (items.foldl renderArtifactRow s).sidecars.Ok ∧
    (items.foldl renderArtifactRow s).sidecars.keys = s.sidecars.keys ++
      ((items.map Item.jobId).filter fun id => ¬ s.sidecars.Live id).eraseDups ∧
    ∀ id, (items.foldl renderArtifactRow s).sidecars.Live id ↔
      s.sidecars.Live id ∨ id ∈ items.map Item.jobId :=
  Cache.Ok.asks Library.sidecars (fun _ _ => ⟨_, _, rfl⟩) items h

/-- The samples ask for no more. -/
theorem collect_asks (items : List Item) (h : s.sidecars.Ok)
    (hlive : ∀ item ∈ items, s.sidecars.Live item.jobId) :
    (items.foldl (collectEtaSample B) s).sidecars.Ok ∧
    (items.foldl (collectEtaSample B) s).sidecars.keys = s.sidecars.keys := by
  induction items generalizing s with
  | nil => exact ⟨h, rfl⟩
  | cons item items ih =>
    have hone : (s.collectEtaSample B item).sidecars.Ok ∧
        (s.collectEtaSample B item).sidecars.keys = s.sidecars.keys ∧
        ∀ id, s.sidecars.Live id → (s.collectEtaSample B item).sidecars.Live id := by
      unfold collectEtaSample
      split
      · refine ⟨(h.ask _).andThen _ _, ?_, fun id hid => ?_⟩
        · rw [Cache.andThen_keys, h.ask_keys, if_pos (hlive item List.mem_cons_self), List.append_nil]
        · exact Cache.andThen_live.mpr ((h.ask_live _ _).mpr (.inl hid))
      · exact ⟨h, rfl, fun _ => id⟩
    obtain ⟨hok, hkeys, hl⟩ := hone
    obtain ⟨ho, hk⟩ := ih hok fun j hj => hl _ (hlive j (List.mem_cons_of_mem _ hj))
    exact ⟨ho, hk.trans hkeys⟩

/-- A task keeps the cache, and asks for what `asked` says. -/
theorem task_asks {a : Action} {t : Library} (h : s.sidecars.Ok) (ht : s.task B a = some t) :
    t.sidecars.Ok ∧ t.sidecars.keys = s.sidecars.keys ++ s.asked a := by
  cases a with
  | input query =>
    cases ht
    exact ⟨h, (List.append_nil _).symm⟩
  | load =>
    cases ht
    exact ⟨h, (List.append_nil _).symm⟩
  | settled i answer =>
    obtain ⟨c, hc, rfl⟩ := Option.map_eq_some_iff.mp ht
    exact ⟨h.settle hc, (Cache.settle_keys hc).trans (List.append_nil _).symm⟩
  | rerun li =>
    obtain ⟨row, hrow, rfl⟩ := Option.map_eq_some_iff.mp ht
    refine ⟨(h.ask _).andThen _ _, ?_⟩
    rw [Cache.andThen_keys, h.ask_keys, asked, hrow]
  | listed items =>
    simp only [task] at ht
    split at ht
    · cases ht
    · obtain rfl := Option.some.inj ht
      obtain ⟨hok, hkeys, hlive⟩ := render_asks items (s := { s with
        loads := s.loads - 1, rows := [], artifactEmpty := items = [], etaSamples := []
        answers := items :: s.answers }) h
      obtain ⟨ho, hk⟩ := collect_asks B items (s := applyFilter B (items.foldl renderArtifactRow _))
        hok fun item hi => (hlive _).mpr (.inr (List.mem_map_of_mem hi))
      exact ⟨ho, hk.trans hkeys⟩

theorem step_asks {a : Action} (h : s.sidecars.Ok) (hs : s.step B a = some s') :
    s'.sidecars.Ok ∧ s'.sidecars.keys = s.sidecars.keys ++ s.asked a :=
  (step_induct B (I := fun t => t.sidecars.Ok ∧ t.sidecars.keys = s.sidecars.keys ++ s.asked a)
    (fun _ ht => task_asks B h ht)
    (fun _ _ _ ⟨hok, hk⟩ _ => by
      rw [react_sidecars]
      exact ⟨hok.congr rfl fun _ => rfl, hk⟩) hs).1

end

end Library

section
variable {P : Platform} {B : Screen P} {s s' : Library} {a : Library.Action}

theorem reach_sidecars (h : (library B).Reach Lts.always s) : s.sidecars.Ok :=
  h.invariant (I := fun s => s.sidecars.Ok)
    (fun _ ⟨_, e⟩ => by rw [e]; exact ⟨by simp, by simp⟩)
    (fun _ _ _ hok _ hst => (Library.step_asks B hok hst).1)

/-- The requests of sidecars. -/
structure FetchedOnce (s : Library) (a : Library.Action) (s' : Library) : Prop where
  asked : s'.sidecars.keys = s.sidecars.keys ++ s.asked a
  again : ∀ (i j : Nat) (p q : Promise JobId Json Reaction), i < j → s'.sidecars.made[i]? = some p →
    s'.sidecars.made[j]? = some q → p.key = q.key → p.state = .settled none

/-- A listing requests the sidecar of each of its jobs once, unless it has been requested already,
and its samples request none; a sidecar is requested again after a failure only. -/
theorem sidecars_fetched_once (h : (library B).Reach Lts.always s)
    (hs : (library B).step s a = some s') : FetchedOnce s a s' := by
  obtain ⟨hok, hk⟩ := Library.step_asks B (reach_sidecars h) hs
  refine ⟨hk, fun i j p q hij hp hq e => ?_⟩
  have hr := hok.again i j p q hij hp hq e
  obtain ⟨k, rs | _ | v⟩ := p
  · cases hr
  · rfl
  · cases hr

end

namespace Sample

def screen : Screen platform where
  toBrowser := browser
  numeral
    | .finite q => natText q.num.toNat
    | _ => []
  lower s := s.map fun c => if 65 ≤ c.val ∧ c.val ≤ 90 then point (c.val + 32) else c
  lower_nil := rfl

def itemOf (id : JobId) : Item := ⟨id, .obj [(lit "timings", .obj [
  (lit "generation_seconds", .int 30)])]⟩

def sidecarJson (seed : Nat) : Json := .obj [(lit "request", .obj [
  (lit "seed", .int seed), (lit "instructions", .str (lit "Warm")),
  (lit "max_new_tokens", .int 750)])]

/-- Two loads; the first sidecar fails before the second load is answered. -/
def twoLoads : List Library.Action :=
  [.load, .load, .listed [itemOf one], .settled 0 none]

end Sample

/-- The sidecar that has failed is requested again, once for two loads. -/
theorem sidecars_fetched_once_twoLoads : ∃ s s', (library Sample.screen).Reach Lts.always s ∧
    (library Sample.screen).step s (.listed [Sample.itemOf Sample.one, Sample.itemOf Sample.two]) =
      some s' ∧
    FetchedOnce s (.listed [Sample.itemOf Sample.one, Sample.itemOf Sample.two]) s' ∧
    s'.sidecars.keys = [Sample.one, Sample.one, Sample.two] := by
  obtain ⟨s, hrun⟩ : ∃ s, (library Sample.screen).run {} Sample.twoLoads = some s := ⟨_, rfl⟩
  have hreach : (library Sample.screen).Reach Lts.always s :=
    ⟨{}, ⟨[], rfl⟩, Lts.path_of_run hrun⟩
  obtain ⟨s', hs'⟩ : ∃ s', (library Sample.screen).step s
      (.listed [Sample.itemOf Sample.one, Sample.itemOf Sample.two]) = some s' := by
    cases hrun
    exact ⟨_, rfl⟩
  refine ⟨s, s', hreach, hs', sidecars_fetched_once hreach hs', ?_⟩
  rw [(sidecars_fetched_once hreach hs').asked]
  cases hrun
  decide

end Music3
