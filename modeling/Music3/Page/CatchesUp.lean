import Music3.Page.Watching

/-!
# The page hears that its job has ended

The page stops watching its job when a terminal event arrives, and a stream sends that event to a
client that has not got it (`Awaits`), whatever it has sent before and however often the client has
come back. While the connection holds, each step of the stream and each frame that arrives brings
the page nearer to it (`Site.toGo`), and nothing that else happens takes it away: `page_catches_up`.
-/

namespace Music3

open Py BoundedLog

/-! ## The stream -/

/-- An event after which a stream ends. -/
def JobEvent.final (e : JobEvent) : Bool := terminalEventTypes.contains e.type

/-- A terminal event has been sent: the generator does not loop again. -/
def Phase.closing : Phase → Bool
  | .sent event _ => event.final
  | .ended => true
  | .idle | .checking | .beat => false

/-- How far the generator is from its end, if its next snapshot has a terminal event and is no
longer than three. -/
def Phase.toGo : Phase → Nat
  | .ended => 0
  | .sent event rest =>
    if event.final then 1 else if rest.any JobEvent.final then rest.length + 1 else rest.length + 7
  | .idle => 4
  | .beat => 5
  | .checking => 6

/-- How much is to happen before the terminal event has arrived. -/
def Listener.toGo (l : Listener) : Nat :=
  2 * ((l.stream.map fun stream => stream.phase.toGo).getD 0) + l.inFlight.length

/-- No terminal event has arrived, and after one the stream sends nothing. -/
structure Awaits (l : Listener) : Prop where
  received : ∀ e ∈ l.received, e.type ∉ terminalEventTypes
  closing : ∀ stream, l.connected = true → l.stream = some stream →
    ∀ e ∈ l.got, e.type ∈ terminalEventTypes → stream.phase.closing = true

theorem final_iff {e : JobEvent} : e.final = true ↔ e.type ∈ terminalEventTypes :=
  List.contains_iff_mem

theorem toGo_open {phase : Phase} (h : phase ≠ .ended) : 0 < phase.toGo := by
  cases phase with
  | ended => exact absurd rfl h
  | sent e rest =>
    show 0 < if e.final then 1 else if rest.any JobEvent.final then _ else _
    split
    · exact Nat.one_pos
    · split <;> exact Nat.succ_pos _
  | idle | checking | beat => exact Nat.succ_pos _

section
variable {log : List JobEvent} {stream stream' : Stream} {due : Bool} {frame : Option Frame}

theorem toGo_sent_final {e : JobEvent} (h : e.final = true) (rest : List JobEvent) :
    (Phase.sent e rest).toGo = 1 := if_pos h

theorem toGo_sent {e : JobEvent} (h : e.final = false) (rest : List JobEvent) :
    (Phase.sent e rest).toGo =
      if rest.any JobEvent.final then rest.length + 1 else rest.length + 7 :=
  if_neg (by rw [h]; decide)

theorem Stream.send_closing {lastId : Option Nat} {events : List JobEvent}
    (h : Stream.send lastId events = (frame, stream')) {e : JobEvent}
    (he : frame.bind Frame.event? = some e) (ht : e.type ∈ terminalEventTypes) :
    stream'.phase.closing = true := by
  cases events with
  | nil =>
    cases h
    cases he
  | cons x rest =>
    cases h
    cases he
    exact List.contains_iff_mem.mpr ht

/-- A step keeps the stream closing, and sends a terminal event only if it is so from then on. -/
theorem Stream.closing_resume (hr : stream.resume log false due = some (frame, stream')) :
    (stream.phase.closing = true → stream'.phase.closing = true) ∧
    ∀ e, frame.bind Frame.event? = some e → e.type ∈ terminalEventTypes →
      stream'.phase.closing = true := by
  unfold Stream.resume at hr
  cases hp : stream.phase with
  | idle =>
    rw [hp] at hr
    exact ⟨fun h => (by cases h), fun e he ht => send_closing (Option.some.inj hr) he ht⟩
  | sent e rest =>
    rw [hp] at hr
    simp only at hr
    split at hr
    · cases hr
      exact ⟨fun _ => rfl, fun _ _ _ => rfl⟩
    · rename_i hn
      exact ⟨fun h => absurd h hn, fun e he ht => send_closing (Option.some.inj hr) he ht⟩
  | checking =>
    rw [hp] at hr
    simp only [Bool.false_eq_true, ↓reduceIte] at hr
    split at hr <;> cases hr <;> exact ⟨fun h => (by cases h), fun _ he _ => by cases he⟩
  | beat =>
    rw [hp] at hr
    cases hr
    exact ⟨fun h => (by cases h), fun _ he _ => by cases he⟩
  | ended =>
    rw [hp] at hr
    cases hr

/-- A snapshot with a terminal event is sent up to it. -/
theorem Stream.toGo_send {lastId : Option Nat} {events : List JobEvent}
    (h : Stream.send lastId events = (frame, stream')) (ht : events.any JobEvent.final = true) :
    stream'.phase.toGo ≤ events.length := by
  cases events with
  | nil => cases ht
  | cons x rest =>
    cases h
    rw [List.length_cons]
    cases hx : x.final with
    | true =>
      rw [toGo_sent_final hx]
      omega
    | false =>
      rw [List.any_cons, hx, Bool.false_or] at ht
      rw [toGo_sent hx, if_pos ht]

/-- A snapshot without one is sent, and then the next one. -/
theorem Stream.toGo_send_none {lastId : Option Nat} {events : List JobEvent}
    (h : Stream.send lastId events = (frame, stream')) (hn : events.any JobEvent.final = false) :
    stream'.phase.toGo = events.length + 6 := by
  cases events with
  | nil =>
    cases h
    rfl
  | cons x rest =>
    cases h
    rw [List.any_cons, Bool.or_eq_false_iff] at hn
    rw [toGo_sent hn.1, hn.2, List.length_cons]
    rfl

/-- A step brings the stream nearer to its end. -/
theorem Stream.toGo_resume (hr : stream.resume log false due = some (frame, stream'))
    (hidle : stream.phase = .idle → (eventsSince log stream.lastId).length ≤ 3 ∧
      (eventsSince log stream.lastId).any JobEvent.final = true) :
    stream'.phase.toGo < stream.phase.toGo := by
  unfold Stream.resume at hr
  cases hp : stream.phase with
  | idle =>
    rw [hp] at hr
    obtain ⟨hlen, hany⟩ := hidle hp
    exact Nat.lt_succ_of_le (Nat.le_trans (toGo_send (Option.some.inj hr) hany) hlen)
  | sent e rest =>
    rw [hp] at hr
    simp only at hr
    split at hr
    · rename_i hc
      cases hr
      rw [toGo_sent_final hc]
      exact Nat.one_pos
    · rename_i hc
      have hsend := Option.some.inj hr
      rw [toGo_sent (Bool.eq_false_of_not_eq_true hc)]
      cases hany : rest.any JobEvent.final with
      | true =>
        rw [if_pos rfl]
        exact Nat.lt_succ_of_le (toGo_send hsend hany)
      | false =>
        rw [toGo_send_none hsend hany, if_neg (by decide)]
        omega
  | checking =>
    rw [hp] at hr
    simp only [Bool.false_eq_true, ↓reduceIte] at hr
    split at hr <;> cases hr <;> simp [Phase.toGo]
  | beat =>
    rw [hp] at hr
    cases hr
    simp [Phase.toGo]
  | ended =>
    rw [hp] at hr
    cases hr

end

/-! ## The client -/

section
variable {store : JobStore} {job : JobId} {h : List JobEvent} {l l' : Listener} {stream : Stream}

theorem awaits_fresh : Awaits {} := ⟨fun _ h => (by cases h), fun _ h => by cases h⟩

/-- What has been sent after the connection was made has not all arrived. -/
theorem Awaits.inFlight (hw : Awaits l) {e : JobEvent} (he : e ∈ l.got)
    (ht : e.type ∈ terminalEventTypes) : e ∈ l.inFlight.filterMap Frame.event? := by
  rcases List.mem_append.mp he with he | he
  · exact absurd ht (hw.received e he)
  · exact he

theorem Awaits.connect (hw : Awaits l) (store : JobStore) (job : JobId) :
    Awaits (l.connect store job) := by
  unfold Listener.connect
  split
  · refine ⟨hw.received, fun stream _ _ e he ht => ?_⟩
    rw [Listener.got, List.filterMap_nil, List.append_nil] at he
    exact absurd ht (hw.received e he)
  · exact hw

/-- A step of the stream of a client. -/
theorem Awaits.resume {seen due : Bool} (hw : Awaits l) (hl : Logs store job h)
    (hf : Following store.eventLogLimit h l)
    (hs : l.step store job (.resume seen due) = some l') : Awaits l' := by
  cases hc : l.connected with
  | true =>
    obtain ⟨stream, frame, stream', hst, hr, rfl⟩ := hl.resume hf hc hs
    obtain ⟨hkeep, hsend⟩ := Stream.closing_resume hr
    have hrec : (l.push frame).received = l.received := by
      cases frame with
      | none => rfl
      | some frame => rw [Listener.push, if_pos hc]
    refine ⟨fun e he => hw.received e (hrec ▸ he), fun stream'' _ e e' he' ht => ?_⟩
    cases e
    replace he' : e' ∈ (l.push frame).got := he'
    rw [got_push hc, List.mem_append, Option.mem_toList] at he'
    rcases he' with he' | he'
    · exact hkeep (hw.closing stream hc hst e' he' ht)
    · exact hsend e' he' ht
  | false =>
    obtain ⟨frame, stream', rfl⟩ := resume_eq hs
    rw [push_gone hc]
    exact ⟨hw.received, fun _ h => absurd (hc.symm.trans h) (by decide)⟩

/-- A frame without a terminal event arrives. -/
theorem Awaits.deliver {frame : Frame} {frames : List Frame} (hw : Awaits l)
    (hfl : l.inFlight = frame :: frames)
    (hn : ∀ e, frame.event? = some e → e.type ∉ terminalEventTypes) :
    Awaits { l with inFlight := frames, received := l.received ++ frame.event?.toList } := by
  refine ⟨fun e he => ?_, fun stream hc hst e he => ?_⟩
  · rcases List.mem_append.mp he with he | he
    · exact hw.received e he
    · exact hn e (Option.mem_toList.mp he)
  · exact hw.closing stream hc hst e (got_deliver hfl ▸ he)

/-- The next snapshot has the terminal event, if it has not been sent. -/
theorem Logs.snapshot (hl : Logs store job h) (ha : Attached store.eventLogLimit h l stream)
    {e : JobEvent} (he : h.getLast? = some e) (ht : e.type ∈ terminalEventTypes)
    (hn : ∀ x ∈ l.got, x.type ∉ terminalEventTypes) :
    (eventsSince (newest store.eventLogLimit h) stream.lastId).length ≤ 3 ∧
      (eventsSince (newest store.eventLogLimit h) stream.lastId).any JobEvent.final = true := by
  have hmem : e ∈ newest store.eventLogLimit h :=
    List.mem_of_getLast? ((getLast?_newest store.one_le).trans he)
  have hlen : (newest store.eventLogLimit h).length ≤ 3 := by
    have := hl.short
    rw [length_newest]
    omega
  rw [List.any_eq_true, ha.lastId]
  cases hc : cursor JobEvent.id l.got with
  | none => exact ⟨hlen, e, hmem, final_iff.mpr ht⟩
  | some k =>
    refine ⟨Nat.le_trans (List.length_filter_le _ _) hlen, e, List.mem_filter.mpr ⟨hmem, ?_⟩,
      final_iff.mpr ht⟩
    obtain ⟨x, hx, rfl⟩ := Option.map_eq_some_iff.mp hc
    have hxg : x ∈ l.got := List.mem_of_getLast? hx
    -- the terminal event is the last of the history, so that `x` is before it
    obtain ⟨ys, rfl⟩ := List.getLast?_eq_some_iff.mp he
    have hxy : x ∈ ys := by
      rcases List.mem_append.mp (ha.part.left.sublist.subset hxg) with hxy | hxy
      · exact hxy
      · rw [List.mem_singleton.mp hxy] at hxg
        exact absurd ht (hn e hxg)
    have hinc := hl.numbered.increasing (.refl _)
    rw [List.map_append, List.pairwise_append] at hinc
    exact decide_eq_true (hinc.2.2 _ (List.mem_map_of_mem hxy) _ (by simp))

end

/-! ## The site -/

namespace SiteAction

variable {G : Type}

/-- The connection of the event stream is lost. -/
def cuts : SiteAction G → Bool
  | .listen .disconnect => true
  | _ => false

/-- The server runs the event stream of the page, or a frame of it arrives. -/
def serves : SiteAction G → Bool
  | .listen .deliver | .listen (.resume _ _) => true
  | _ => false

end SiteAction

section
variable {G : Type} [ReadinessGate G]

/-- The site while the connection of its event stream holds. -/
def holding (cfg : Config) : Lts (Site G) (SiteAction G) where
  init := (site cfg).init
  step s a := if a.cuts then none else s.step cfg a

variable {cfg : Config}

namespace Site

/-- The page does not wait for the end of the job, and shows no other status for it than `st`. -/
structure CaughtUp (id : JobId) (st : JobStatus) (s : Site G) : Prop where
  source : s.page.eventSource ≠ some id
  shown : ∀ st', s.page.shown = some (id, st') → st' = st

/-- The client connects, or its stream is served. -/
def Serves (_ : Site G) : SiteAction G → Prop
  | .listen .connect | .listen .deliver | .listen (.resume _ _) => True
  | _ => False

/-- The page watches its job until it shows a terminal status for it, and the terminal event is
still to arrive. -/
structure Watches (s : Site G) : Prop where
  awaits : ∀ id, s.page.eventSource = some id → Awaits s.listener
  shown : ∀ id st, s.page.shown = some (id, st) →
    s.page.eventSource = some id ∨ st.terminal = true

variable {s s' : Site G} {a : SiteAction G} {id : JobId} {st : JobStatus}

/-- A frame arrives at the page. -/
theorem Sound.deliver_cases (hs : Sound cfg s) (h : s.step cfg (.listen .deliver) = some s') :
    ∃ id frame frames, s.page.eventSource = some id ∧ s.listener.inFlight = frame :: frames ∧
      s'.listener = { s.listener with
        inFlight := frames, received := s.listener.received ++ frame.event?.toList } ∧
      ((s'.page = s.page ∧ frame.event? = none) ∨
        ∃ e type, frame.event? = some e ∧ type.value = e.type ∧ s'.page.shown = some (id, type) ∧
          s'.page.eventSource = if type.terminal then none else some id) := by
  simp only [Site.step] at h
  split at h
  swap
  · cases h
  rename_i id hsrc
  obtain ⟨listener, hl, h⟩ := Option.bind_eq_some_iff.mp h
  obtain ⟨p, hp, h⟩ := Option.bind_eq_some_iff.mp h
  cases h
  simp only [Listener.step] at hl
  split at hl
  · cases hl
  rename_i frame frames hfl
  cases hl
  refine ⟨id, frame, frames, hsrc, hfl, rfl, ?_⟩
  cases frame with
  | heartbeat =>
    have hnone : s.arriving .deliver = none := by
      rw [arriving, hfl]
      rfl
    rw [hear, hnone] at hp
    cases hp
    exact .inl ⟨rfl, rfl⟩
  | event e =>
    have hmem : e ∈ s.listener.inFlight.filterMap Frame.event? := by
      rw [hfl]
      exact List.mem_cons_self
    obtain ⟨type, htype⟩ := reach_event_type hs.reach ((hs.inFlight hsrc).subset hmem)
    obtain ⟨st, hst⟩ := hs.source id hsrc
    obtain ⟨p', hp', hshown, -, hsource⟩ := Page.step_jobEvent hsrc hst type e.error?
    rw [hear, arriving_event hfl htype] at hp
    cases hp.symm.trans hp'
    exact .inr ⟨e, type, rfl, htype, hshown, hsource⟩

/-- What the client's other steps do to the site. -/
theorem listen_cases {b : Listen} (hb : s.arriving b = none)
    (h : s.step cfg (.listen b) = some s') :
    ∃ id, s.page.eventSource = some id ∧
      s.listener.step s.runner.store id b = some s'.listener ∧ s'.page = s.page := by
  simp only [Site.step] at h
  split at h
  swap
  · cases h
  rename_i id hsrc
  obtain ⟨listener, hl, h⟩ := Option.bind_eq_some_iff.mp h
  obtain ⟨p, hp, h⟩ := Option.bind_eq_some_iff.mp h
  cases h
  rw [hear, hb] at hp
  cases hp
  exact ⟨id, hsrc, hl, rfl⟩

/-- A job that the page has just been told of is watched from the beginning. -/
theorem accepted_cases (h : s.step cfg (.postAnswered id) = some s') :
    s'.page.eventSource = some id ∧ s'.listener = {} := by
  simp only [Site.step] at h
  split at h
  swap
  · cases h
  obtain ⟨p, hp, rfl⟩ := Option.map_eq_some_iff.mp h
  obtain ⟨-, hsource, -⟩ := Page.step_postAccepted hp
  exact ⟨hsource, rfl⟩

theorem Watches.listen (hw : Watches s) (hs : Sound cfg s) {b : Listen}
    (h : s.step cfg (.listen b) = some s') : Watches s' := by
  have quiet : s.arriving b = none → (∀ id l', s.page.eventSource = some id →
      s.listener.step s.runner.store id b = some l' → Awaits l') → Watches s' := by
    intro hb hl
    obtain ⟨id, hsrc, hl', hpage⟩ := listen_cases hb h
    refine ⟨fun _ _ => hl id _ hsrc hl', ?_⟩
    rw [hpage]
    exact hw.shown
  cases b with
  | deliver =>
    obtain ⟨id, frame, frames, hsrc, hfl, hl, hpage⟩ := hs.deliver_cases h
    rcases hpage with ⟨hpage, hnone⟩ | ⟨e, type, he, htype, hshown, hsource⟩
    · refine ⟨fun _ _ => ?_, ?_⟩
      · rw [hl]
        exact (hw.awaits id hsrc).deliver hfl fun e he => absurd (hnone.symm.trans he) nofun
      · rw [hpage]
        exact hw.shown
    · refine ⟨fun id' hid => ?_, fun id' st' hj => ?_⟩
      · rw [hsource, Option.ite_none_left_eq_some] at hid
        rw [hl]
        refine (hw.awaits id hsrc).deliver hfl fun e' he' ht => hid.1 ?_
        cases he.symm.trans he'
        exact terminal_of_mem (htype ▸ ht)
      · cases hshown.symm.trans hj
        rw [hsource]
        cases ht : type.terminal with
        | true => exact .inr rfl
        | false => exact .inl rfl
  | connect =>
    refine quiet rfl fun id l' hsrc hl => ?_
    simp only [Listener.step, Option.ite_none_left_eq_some, Option.some.injEq] at hl
    obtain ⟨-, rfl⟩ := hl
    exact (hw.awaits id hsrc).connect _ _
  | disconnect =>
    refine quiet rfl fun id l' hsrc hl => ?_
    simp only [Listener.step, Option.ite_none_right_eq_some, Option.some.injEq] at hl
    obtain ⟨-, rfl⟩ := hl
    exact ⟨(hw.awaits id hsrc).received, fun _ h => by cases h⟩
  | resume seen due =>
    refine quiet rfl fun id l' hsrc hl => ?_
    exact (hw.awaits id hsrc).resume (reach_told hs.reach id).logs (hs.following id hsrc) hl

theorem Watches.step (hw : Watches s) (hs : Sound cfg s) (h : s.step cfg a = some s') :
    Watches s' := by
  cases (hs.step h).2 with
  | quiet _ shown source listener _ =>
    refine ⟨?_, ?_⟩
    · rw [source, listener]
      exact hw.awaits
    · rw [shown, source]
      exact hw.shown
  | accepted id h' _ _ shown _ =>
    subst h'
    obtain ⟨hsource, hl⟩ := accepted_cases h
    refine ⟨fun _ _ => hl ▸ awaits_fresh, fun id' st' hj => ?_⟩
    cases shown.symm.trans hj
    exact .inl hsource
  | answered i _ id st request _ shown source listener _ =>
    refine ⟨by rw [source, listener]; exact hw.awaits, fun id' st' hj => ?_⟩
    rw [shown] at hj
    obtain ⟨⟨id₀, st₀⟩, hj₀, e⟩ := Option.map_eq_some_iff.mp hj
    split at e <;> cases e
    · obtain ⟨_, _, _, ht⟩ := hs.replies id _ (List.mem_of_getElem? request)
      exact .inr ht
    · rw [source]
      exact hw.shown id' st' hj₀
  | listened _ h' _ _ _ _ _ _ | heard _ h' _ _ _ _ _ _ _ _ _ _ _ =>
    subst h'
    exact hw.listen hs h

theorem reach_watches (h : (site cfg).Reach Lts.always s) : Watches s := by
  obtain ⟨s₀, h₀, hp⟩ := h
  refine hp.preserves_reach (I := Watches)
    (fun s a s' hr hw _ hst => hw.step (reach_sound hr) hst) (.init h₀) ?_
  obtain ⟨-, hpage, -⟩ := h₀
  refine ⟨fun id hsrc => ?_, fun id st hj => ?_⟩
  · rw [show s₀.page = _ from hpage] at hsrc
    cases hsrc
  · rw [show s₀.page = _ from hpage] at hj
    cases hj

/-! ## After the end of the job -/

/-- The job has ended, and the page has been told of it before; its stream is connected. -/
structure Ending (cfg : Config) (id : JobId) (st : JobStatus) (s : Site G) : Prop where
  sound : Sound cfg s
  watches : Watches s
  holds : s.runner.Holds id st
  old : Assoc.get? s.posted id = none
  joined : s.page.eventSource = some id → s.listener.connected = true

/-- How much is to happen before the page has heard of the end of the job. -/
def toGo (id : JobId) (s : Site G) : Nat :=
  if s.page.eventSource = some id then s.listener.toGo else 0

omit [ReadinessGate G] in
theorem toGo_eq (hsrc : s.page.eventSource = some id) : s.toGo id = s.listener.toGo := if_pos hsrc

omit [ReadinessGate G] in
theorem toGo_done (hsrc : s.page.eventSource ≠ some id) : s.toGo id = 0 := if_neg hsrc

/-- The terminal event is the last one of the history. -/
theorem Sound.last (hs : Sound cfg s) (hh : s.runner.Holds id st) :
    ∃ e, (s.runner.history id).getLast? = some e ∧ e.type ∈ terminalEventTypes := by
  obtain ⟨x, hx, rfl, ht⟩ := hh
  obtain ⟨e, he, htype⟩ := (reach_tells hs.reach hx).last
  exact ⟨e, he, htype ▸ mem_of_terminal ht⟩

/-- A step of the stream brings the page nearer to the end. -/
theorem Ending.resume (he : Ending cfg id st s) (hsrc : s.page.eventSource = some id)
    {seen due : Bool} {l' : Listener}
    (hl : s.listener.step s.runner.store id (.resume seen due) = some l') :
    l'.connected = true ∧ l'.toGo < s.listener.toGo := by
  have hlogs := (reach_told he.sound.reach id).logs
  have hf := he.sound.following id hsrc
  have hc := he.joined hsrc
  obtain ⟨stream, frame, stream', hst, hr, rfl⟩ := hlogs.resume hf hc hl
  obtain ⟨_, hst', ha⟩ := hf.attached hc
  cases hst.symm.trans hst'
  obtain ⟨e, hlast, ht⟩ := he.sound.last he.holds
  have hlt := Stream.toGo_resume hr fun hidle => by
    refine hlogs.snapshot ha hlast ht fun x hx hterm => ?_
    have := (he.watches.awaits id hsrc).closing stream hc hst x hx hterm
    rw [hidle] at this
    cases this
  have hpush : (s.listener.push frame).inFlight.length ≤ s.listener.inFlight.length + 1 := by
    cases frame with
    | none => exact Nat.le_succ _
    | some frame =>
      rw [Listener.push, if_pos hc, List.length_append]
      exact Nat.le_refl _
  refine ⟨(connected_push frame).trans hc, ?_⟩
  simp only [Listener.toGo, hst, Option.map_some, Option.getD_some]
  omega

/-- The page watches a job that it was told of before only if it has watched it. -/
theorem Sound.source_before (hs : Sound cfg s) (hold : Assoc.get? s.posted id = none)
    (h : s.step cfg a = some s') (hsrc : s'.page.eventSource = some id) :
    s.page.eventSource = some id := by
  cases (hs.step h).2 with
  | quiet _ _ source _ _ | answered _ _ _ _ _ _ _ source _ _ => rwa [source] at hsrc
  | accepted id' h' _ mem _ _ =>
    subst h'
    cases (accepted_cases h).1.symm.trans hsrc
    rw [hold] at mem
    cases mem
  | listened _ _ _ _ _ _ page _ => rwa [page] at hsrc
  | heard _ _ id' source _ _ _ _ _ type _ _ watching =>
    rw [watching, Option.ite_none_left_eq_some] at hsrc
    rw [source, hsrc.2]

/-- What is no step of the client leaves it as it is, or the page is told of another job. -/
theorem Sound.elsewhere (hs : Sound cfg s) (hold : Assoc.get? s.posted id = none)
    (h : s.step cfg a = some s') (ha : ∀ b, a ≠ .listen b)
    (hsrc : s'.page.eventSource = some id) : s'.listener = s.listener := by
  cases (hs.step h).2 with
  | quiet _ _ _ listener _ | answered _ _ _ _ _ _ _ _ listener _ => exact listener
  | accepted id' h' _ mem _ _ =>
    subst h'
    cases (accepted_cases h).1.symm.trans hsrc
    rw [hold] at mem
    cases mem
  | listened b h' _ _ _ _ _ _ | heard b h' _ _ _ _ _ _ _ _ _ _ _ => exact absurd h' (ha b)

/-- The steps of the client, while the page watches the job. -/
theorem Ending.listen (he : Ending cfg id st s) (hsrc : s.page.eventSource = some id) {b : Listen}
    (hb : (SiteAction.listen (G := G) b).cuts = false) (h : s.step cfg (.listen b) = some s') :
    s'.listener.connected = true ∧
    s'.toGo id ≤ s.toGo id - if (SiteAction.listen (G := G) b).serves then 1 else 0 := by
  have hc := he.joined hsrc
  have hle : s'.toGo id ≤ s'.listener.toGo := by
    unfold toGo
    split
    · exact Nat.le_refl _
    · exact Nat.zero_le _
  rw [toGo_eq hsrc]
  cases b with
  | deliver =>
    obtain ⟨_, frame, frames, -, hfl, hl, -⟩ := he.sound.deliver_cases h
    refine ⟨by rw [hl]; exact hc, Nat.le_trans hle ?_⟩
    rw [hl]
    simp only [Listener.toGo, SiteAction.serves, hfl, List.length_cons, ↓reduceIte]
    omega
  | connect =>
    obtain ⟨_, -, hl, -⟩ := listen_cases rfl h
    simp [Listener.step, hc] at hl
  | disconnect => cases hb
  | resume seen due =>
    obtain ⟨id', hsrc', hl, -⟩ := listen_cases rfl h
    cases hsrc.symm.trans hsrc'
    obtain ⟨hc', hlt⟩ := he.resume hsrc hl
    refine ⟨hc', Nat.le_trans hle ?_⟩
    rw [SiteAction.serves, if_pos rfl]
    omega

theorem Ending.step (he : Ending cfg id st s) (h : (holding cfg).step s a = some s') :
    Ending cfg id st s' ∧ s'.toGo id ≤ s.toGo id - if a.serves then 1 else 0 := by
  obtain ⟨hcut, hst⟩ := Option.ite_none_left_eq_some.mp h
  obtain ⟨hs', heffect⟩ := he.sound.step hst
  have hknown : (s.runner.store.job? id).isSome = true := by
    obtain ⟨x, hx, -⟩ := he.holds
    rw [hx]
    rfl
  have hbefore := he.sound.source_before he.old hst
  have hmore : (s'.page.eventSource = some id → s'.listener.connected = true) ∧
      s'.toGo id ≤ s.toGo id - if a.serves then 1 else 0 := by
    by_cases hsrc : s.page.eventSource = some id
    · cases a with
      | listen b =>
        obtain ⟨hc, hle⟩ := he.listen hsrc (Bool.eq_false_of_not_eq_true hcut) hst
        exact ⟨fun _ => hc, hle⟩
      | _ =>
        have hsame := he.sound.elsewhere he.old hst nofun
        refine ⟨fun hsrc' => hsame hsrc' ▸ he.joined hsrc, ?_⟩
        show s'.toGo id ≤ s.toGo id
        by_cases hsrc' : s'.page.eventSource = some id
        · rw [toGo_eq hsrc, toGo_eq hsrc', hsame hsrc']
        · rw [toGo_done hsrc']
          exact Nat.zero_le _
    · have hsrc' := mt hbefore hsrc
      exact ⟨fun h => absurd h hsrc', by rw [toGo_done hsrc']; exact Nat.zero_le _⟩
  exact ⟨⟨hs', he.watches.step he.sound hst, heffect.holds he.holds,
    heffect.not_posted hknown he.old, hmore.1⟩, hmore.2⟩

/-- The page has caught up as soon as it does not watch the job. -/
theorem Ending.caughtUp (he : Ending cfg id st s) (hsrc : s.page.eventSource ≠ some id) :
    CaughtUp id st s := by
  refine ⟨hsrc, fun st' hj => ?_⟩
  have ht := (he.watches.shown id st' hj).resolve_left hsrc
  obtain ⟨x, hx, rfl, -⟩ := he.sound.truth id st' hj ht
  obtain ⟨y, hy, rfl, -⟩ := he.holds
  cases hx.symm.trans hy
  rfl

/-- A stream that has ended has the terminal event in flight. -/
theorem Ending.inFlight_ne (he : Ending cfg id st s) (hsrc : s.page.eventSource = some id)
    {stream : Stream} (hst : s.listener.stream = some stream) (hend : stream.phase = .ended) :
    s.listener.inFlight ≠ [] := by
  obtain ⟨_, hst', ha⟩ := (he.sound.following id hsrc).attached (he.joined hsrc)
  cases hst.symm.trans hst'
  obtain ⟨e, hs, ht⟩ := ha.ended hend
  have hmem := (he.watches.awaits id hsrc).inFlight (List.mem_of_getLast? hs.got) ht
  intro hnil
  rw [hnil] at hmem
  cases hmem

theorem Ending.toGo_pos (he : Ending cfg id st s) (hsrc : s.page.eventSource = some id) :
    0 < s.toGo id := by
  obtain ⟨stream, hst, -⟩ := (he.sound.following id hsrc).attached (he.joined hsrc)
  rw [toGo_eq hsrc, Listener.toGo, hst, Option.map_some, Option.getD_some]
  by_cases hend : stream.phase = .ended
  · have := List.length_pos_of_ne_nil (he.inFlight_ne hsrc hst hend)
    omega
  · have := toGo_open hend
    omega

/-- The page handles whatever arrives. -/
theorem Sound.hears (hs : Sound cfg s) (hsrc : s.page.eventSource = some id) (b : Listen) :
    ∃ p, s.hear b = some p := by
  unfold hear
  cases hb : s.arriving b with
  | none => exact ⟨_, rfl⟩
  | some action =>
    obtain ⟨e, -, type, -, rfl⟩ := arriving_eq hb
    obtain ⟨st, hst⟩ := hs.source id hsrc
    obtain ⟨p, hp, -⟩ := Page.step_jobEvent hsrc hst type e.error?
    exact ⟨p, hp⟩

/-- While the page watches the job, its stream can be served. -/
theorem Ending.serves (he : Ending cfg id st s) (hsrc : s.page.eventSource = some id) :
    ∃ b s', (SiteAction.listen (G := G) b).serves = true ∧
      (site cfg).step s (.listen b) = some s' := by
  have hc := he.joined hsrc
  obtain ⟨stream, hst, -⟩ := (he.sound.following id hsrc).attached hc
  obtain ⟨b, l', hb, hl⟩ : ∃ b l', (SiteAction.listen (G := G) b).serves = true ∧
      s.listener.step s.runner.store id b = some l' := by
    by_cases hend : stream.phase = .ended
    · obtain ⟨frame, frames, hfl⟩ := List.exists_cons_of_ne_nil (he.inFlight_ne hsrc hst hend)
      refine ⟨.deliver, { s.listener with
        inFlight := frames, received := s.listener.received ++ frame.event?.toList }, rfl, ?_⟩
      simp only [Listener.step, hfl]
    · obtain ⟨x, hx, -⟩ := he.holds
      have hlog := he.sound.log (Option.isSome_of_eq_some hx)
      obtain ⟨frame, stream', hr⟩ := Stream.resume_some hend
        (newest s.runner.store.eventLogLimit (s.runner.history id)) false false
      refine ⟨.resume false false, { (s.listener.push frame) with stream := some stream' }, rfl, ?_⟩
      simp only [Listener.step, hst, hc, hlog, Option.bind_eq_bind, Option.bind_some,
        Except.toOption, hr, Bool.and_false, Bool.false_eq_true, ↓reduceIte]
      rfl
  obtain ⟨p, hp⟩ := he.sound.hears hsrc b
  exact ⟨b, _, hb, step_listen cfg hsrc hl hp⟩

omit [ReadinessGate G] in
theorem serves_of {b : Listen} (h : (SiteAction.listen (G := G) b).serves = true) (s : Site G) :
    s.Serves (.listen b) ∧ (SiteAction.listen (G := G) b).cuts = false := by
  cases b with
  | deliver | resume _ _ => exact ⟨trivial, rfl⟩
  | connect | disconnect => cases h

/-- The page that hears of the end of its job shows its status, and closes its stream. -/
theorem Ending.closed (he : Ending cfg id st s) {st₀ : JobStatus}
    (hj : s.page.shown = some (id, st₀)) (hsrc : s.page.eventSource ≠ some id) :
    s.page.shown = some (id, st) ∧ s.page.eventSource = none := by
  refine ⟨(he.caughtUp hsrc).shown st₀ hj ▸ hj, ?_⟩
  refine Option.eq_none_iff_forall_ne_some.mpr fun id' hsrc' => ?_
  obtain ⟨st', hj'⟩ := he.sound.source id' hsrc'
  cases hj.symm.trans hj'
  exact hsrc hsrc'

/-- A step of the client changes no more than the status of the job that the page shows. -/
theorem Sound.listen_shown (hs : Sound cfg s) {b : Listen} {st₀ : JobStatus}
    (h : s.step cfg (.listen b) = some s') (hj : s.page.shown = some (id, st₀)) :
    ∃ st', s'.page.shown = some (id, st') := by
  cases (hs.step h).2 with
  | quiet _ shown _ _ _ => exact ⟨st₀, shown ▸ hj⟩
  | accepted _ h' _ _ _ _ | answered _ h' _ _ _ _ _ _ _ _ => cases h'
  | listened _ _ _ _ _ _ page _ => exact ⟨st₀, page ▸ hj⟩
  | heard _ _ id' source _ _ _ _ _ type _ shown _ =>
    obtain ⟨st', hj'⟩ := hs.source id' source
    cases hj.symm.trans hj'
    exact ⟨type, shown⟩

/-- The stream is served until the page has heard of the end of its job. -/
theorem Ending.served (he : Ending cfg id st s) {st₀ : JobStatus}
    (hj : s.page.shown = some (id, st₀)) : ∃ t, (site cfg).Path Serves s t ∧
      t.page.shown = some (id, st) ∧ t.page.eventSource = none := by
  generalize hn : s.toGo id = n
  induction n using Nat.strongRecOn generalizing s st₀ with
  | ind n ih =>
    by_cases hsrc : s.page.eventSource = some id
    swap
    · exact ⟨s, .refl, he.closed hj hsrc⟩
    obtain ⟨b, s', hb, hst⟩ := he.serves hsrc
    obtain ⟨hserves, hcut⟩ := serves_of hb s
    have hst' : (holding cfg).step s (.listen b) = some s' := by
      show (if _ then _ else _) = _
      rw [hcut]
      exact hst
    obtain ⟨he', hle⟩ := he.step hst'
    obtain ⟨st', hj'⟩ := he.sound.listen_shown hst hj
    have hpos := he.toGo_pos hsrc
    rw [hb, if_pos rfl] at hle
    obtain ⟨t, hp, ht⟩ := ih (s'.toGo id) (by omega) he' hj' rfl
    exact ⟨t, (Lts.Path.single hserves hst).trans hp, ht⟩

/-- A page whose stream has lost its connection connects again. -/
theorem Sound.connects (hs : Sound cfg s) (hw : Watches s) (hh : s.runner.Holds id st)
    (hold : Assoc.get? s.posted id = none) : ∃ t, (site cfg).Path Serves s t ∧
      Ending cfg id st t ∧ t.page = s.page := by
  by_cases hjoined : s.page.eventSource = some id → s.listener.connected = true
  · exact ⟨s, .refl, ⟨hs, hw, hh, hold, hjoined⟩, rfl⟩
  rw [Classical.not_imp, Bool.not_eq_true] at hjoined
  obtain ⟨hsrc, hc⟩ := hjoined
  have ⟨x, hx, _⟩ := hh
  have hget : s.runner.store.get id = .ok x := by
    unfold JobStore.get
    rw [show Assoc.get? s.runner.store.jobs id = some x from hx]
  have hconnect : (s.listener.connect s.runner.store id).connected = true := by
    rw [Listener.connect, hget,
      (reach_told hs.reach id).logs.header (hs.following id hsrc).part.sublist]
  have hl : s.listener.step s.runner.store id .connect =
      some (s.listener.connect s.runner.store id) := by
    simp only [Listener.step, hc, Bool.false_eq_true, ↓reduceIte]
  have hst := step_listen cfg hsrc hl (show s.hear .connect = some s.page from rfl)
  exact ⟨_, .single (by exact trivial) hst, ⟨(hs.step (a := .listen .connect) hst).1,
    hw.step hs (a := .listen .connect) hst, hh, hold, fun _ => hconnect⟩, rfl⟩

end Site

end

/-! ## The result -/

/-- A page that shows a job which has ended on the server hears of it. While the connection of its
event stream holds, enough steps of the stream and arrivals of frames make it show the status of the
server's record and stop waiting, whatever else happens in between, and until then one of them is
always possible. Without a connection it makes one first. -/
theorem page_catches_up {G : Type} [ReadinessGate G] (cfg : Config) {s : Site G} {id : JobId}
    {st : JobStatus} {r : JobRecord} (h : (site cfg).Reach Lts.always s)
    (hj : s.page.shown = some (id, st)) (hr : s.runner.store.job? id = some r)
    (ht : r.status.terminal = true) :
    ((s.page.eventSource = some id → s.listener.connected = true) →
      (holding cfg).Within SiteAction.serves (Site.CaughtUp id r.status) s ∧
      ∀ t, (holding cfg).Path Lts.always s t → ¬ t.CaughtUp id r.status →
        ∃ a, a.serves = true ∧ ((holding cfg).step t a).isSome = true) ∧
    ∃ t, (site cfg).Path Site.Serves s t ∧ t.page.shown = some (id, r.status) ∧
      t.page.eventSource = none := by
  have hs : s.Sound cfg := Site.reach_sound h
  have hw := Site.reach_watches h
  have hh : s.runner.Holds id r.status := ⟨r, hr, rfl, ht⟩
  have hold : Assoc.get? s.posted id = none := by
    refine Option.not_isSome_iff_eq_none.mp fun hsome => ?_
    obtain ⟨st', hm⟩ := Option.isSome_iff_exists.mp hsome
    exact (hs.posted id st' hm).2.2 st hj
  refine ⟨fun hjoined => ?_, ?_⟩
  · have he : Site.Ending cfg id r.status s := ⟨hs, hw, hh, hold, hjoined⟩
    refine ⟨.of_measure (I := Site.Ending cfg id r.status) (Site.toGo id)
      (fun t he hz => he.caughtUp fun hsrc => ?_) (fun t a t' he hst => he.step hst) he,
      fun t hp hn => ?_⟩
    · have := he.toGo_pos hsrc
      omega
    · have he' : Site.Ending cfg id r.status t :=
        hp.preserves (fun _ _ _ he _ hst => (he.step hst).1) he
      by_cases hsrc : t.page.eventSource = some id
      · obtain ⟨b, t', hb, hst⟩ := he'.serves hsrc
        refine ⟨.listen b, hb, ?_⟩
        show (if _ then _ else _ : Option (Site G)).isSome = true
        rw [(Site.serves_of hb t).2]
        exact Option.isSome_of_eq_some hst
      · exact absurd (he'.caughtUp hsrc) hn
  · obtain ⟨t, hp, he, hpage⟩ := hs.connects hw hh hold
    obtain ⟨t', hp', ht'⟩ := he.served (hpage ▸ hj)
    exact ⟨t', hp.trans hp', ht'⟩

namespace Sample

/-- A job that succeeds before anything of its event stream has arrived. -/
def succeededUnheard : List (SiteAction Readiness) := [.page (.clickGenerate true),
  .postHandled submission early one, .postAnswered one, .listen .connect, .server .start,
  .server (.dequeue late), .server (.readyReturns .ready late), .listen (.resume false false),
  .server (.engineEnds 0 (.result result)), .server (.resume late late [])]

end Sample

theorem page_catches_up_unheard : ∃ s t : Site Sample.Readiness,
    s.page.shown = some (Sample.one, .queued) ∧
    (holding (Sample.config none)).Within SiteAction.serves
      (Site.CaughtUp Sample.one .succeeded) s ∧
    (site (Sample.config none)).Path Site.Serves s t ∧
    t.page.shown = some (Sample.one, .succeeded) := by
  have h : ((site (Sample.config none)).run Sample.freshSite Sample.succeededUnheard).map (fun s =>
      (s.page.shown, s.listener.connected,
        (s.runner.store.job? Sample.one).map JobRecord.status)) =
      some (some (Sample.one, .queued), true, some .succeeded) := by decide +kernel
  obtain ⟨s, hrun, hs⟩ := Option.map_eq_some_iff.mp h
  obtain ⟨hshown, hs⟩ := Prod.mk.inj hs
  obtain ⟨hconnected, hstatus⟩ := Prod.mk.inj hs
  obtain ⟨r, hr, hst⟩ := Option.map_eq_some_iff.mp hstatus
  have hreach := (Lts.Reach.init Sample.init_freshSite).path (Lts.path_of_run hrun)
  have hcatch := page_catches_up _ hreach hshown hr (by rw [hst]; rfl)
  rw [hst] at hcatch
  obtain ⟨t, hp, ht, -⟩ := hcatch.2
  exact ⟨s, t, hshown, (hcatch.1 fun _ => hconnected).1, hp, ht⟩

end Music3
