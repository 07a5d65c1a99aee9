import Music3.Routes.Following

/-!
# Resuming a stream from any event id

`streamEvents` is `stream_events`: it reads the id from the header of the request, which a client
may fill as it likes, and starts a stream of the job. `streaming cfg job` is the runner together
with such a stream, whose client stays connected.

* `last_event_id_survives`: for which headers the route does not fail, and resumes where it should.
  A stream sends what `eventsSince` selects, whatever it is resumed from (`yields_eq`).
* `stream_ends_for_finished`: when the stream of a finished job ends.
-/

namespace Music3

open Py BoundedLog

/-- `stream_events`. -/
def streamEvents (store : JobStore) (job : JobId) (raw : Option Bytes) : Except Exc Stream := do
  let _ ← store.get job
  let lastId ← (parseLastEventId raw).mapError Exc.ofJson
  return ⟨lastId, .idle⟩

/-- The runner, and a stream of `job` that its client does not leave. A stream that has ended stays
so. -/
def streaming {G : Type} [ReadinessGate G] (cfg : Config) (job : JobId) :
    Lts (Runner G × Stream) (Action G ⊕ Bool) where
  init s := (runner cfg).init s.1 ∧ s.2.phase = .idle
  step s
    | .inl a => (s.1.step cfg a).map fun t => (t, s.2)
    | .inr due => (s.1.store.log job).toOption.map fun log =>
      (s.1, ((s.2.resume log false due).map Prod.snd).getD s.2)

/-! ## Logs -/

/-- A log as the store keeps it. -/
structure Orderly (log : List JobEvent) : Prop where
  increasing : (log.map JobEvent.id).Pairwise (· < ·)
  final : ∀ e ∈ log, e.type ∈ terminalEventTypes → log.getLast? = some e

section
variable {store : JobStore} {job : JobId} {h log : List JobEvent}

theorem Logs.orderly (hl : Logs store job h) (hlog : store.log job = .ok log) : Orderly log := by
  have hnew := hl.log log hlog
  have hsub : log.Sublist h := hnew ▸ List.drop_sublist _ _
  refine ⟨hl.numbered.increasing hsub, fun e he ht => ?_⟩
  rw [hnew, getLast?_newest (by have := store.one_le; omega)]
  exact hl.final e (hsub.subset he) ht

namespace Orderly

variable {e x : JobEvent} {rest : List JobEvent} {lastId : Option Nat}

/-- The terminal event has the largest id. -/
theorem le_of_final (ho : Orderly log) (he : e ∈ log) (ht : e.type ∈ terminalEventTypes)
    (hx : x ∈ log) : x.id ≤ e.id := by
  obtain ⟨ys, y, rfl⟩ := (List.eq_nil_or_concat' log).resolve_left (List.ne_nil_of_mem he)
  have hlast := ho.final e he ht
  rw [List.getLast?_concat] at hlast
  obtain rfl := Option.some.inj hlast
  rcases List.mem_append.mp hx with hx | hx
  · have hinc := ho.increasing
    rw [List.map_append, List.pairwise_append] at hinc
    exact Nat.le_of_lt (hinc.2.2 _ (List.mem_map_of_mem hx) _ (List.mem_map_of_mem (by simp)))
  · rw [List.mem_singleton.mp hx]

/-- A snapshot without its first event is the snapshot after that event. -/
theorem since_tail (ho : Orderly log) (h : eventsSince log lastId = e :: rest) :
    rest = eventsSince log (some e.id) := by
  have hsub : (e :: rest).Sublist log := by
    rw [← h]
    cases lastId with
    | none => exact List.Sublist.refl _
    | some k => exact List.filter_sublist
  have hinc := ho.increasing.sublist (hsub.map JobEvent.id)
  rw [List.map_cons, List.pairwise_cons] at hinc
  have hrest : (e :: rest).filter (fun x => e.id < x.id) = rest := by
    rw [List.filter_cons, if_neg (by simp)]
    exact List.filter_eq_self.mpr fun x hx => decide_eq_true (hinc.1 _ (List.mem_map_of_mem hx))
  rw [← h] at hrest
  cases lastId with
  | none => exact hrest.symm
  | some k =>
    have hk : k < e.id := by
      have hmem : e ∈ eventsSince log (some k) := h ▸ List.mem_cons_self
      exact of_decide_eq_true (List.mem_filter.mp hmem).2
    rw [← hrest, eventsSince, eventsSince, List.filter_filter]
    apply List.filter_congr
    intro x _
    rw [Bool.eq_iff_iff]
    simp only [Bool.and_eq_true, decide_eq_true_eq]
    omega

/-- Nothing comes after the terminal event. -/
theorem since_final (ho : Orderly log) (he : e ∈ log) (ht : e.type ∈ terminalEventTypes) {k : Nat}
    (hk : e.id ≤ k) : eventsSince log (some k) = [] := by
  refine List.filter_eq_nil_iff.mpr fun x hx => ?_
  have := ho.le_of_final he ht hx
  rw [decide_eq_true_eq]
  omega

end Orderly

end

/-! ## What a stream sends -/

namespace Stream

/-- The events that a stream sends while the log stays as it is, in so many resumptions. -/
def yields (log : List JobEvent) : List Bool → Stream → List JobEvent
  | [], _ => []
  | due :: dues, s =>
    match s.resume log false due with
    | some (frame, s') => (frame.bind Frame.event?).toList ++ yields log dues s'
    | none => []

/-- The events that a stream has still to send. -/
def left (log : List JobEvent) (s : Stream) : List JobEvent :=
  match s.phase with
  | .idle => eventsSince log s.lastId
  | .sent _ rest => rest
  | _ => []

/-- It has a snapshot of this log, and after it nothing is new. -/
def InStep (log : List JobEvent) (s : Stream) : Prop :=
  match s.phase with
  | .sent e rest => e ∈ log ∧ s.lastId = some e.id ∧ rest = eventsSince log (some e.id)
  | .checking | .beat => eventsSince log s.lastId = []
  | _ => True

section
variable {log : List JobEvent} {s : Stream} {lastId : Option Nat}

theorem mem_of_since {e : JobEvent} (h : e ∈ eventsSince log lastId) : e ∈ log := by
  cases lastId with
  | none => exact h
  | some k => exact (List.mem_filter.mp h).1

/-- A resumption sends the next event, if there is one. -/
structure SendsNext (log : List JobEvent) (s : Stream) (frame : Option Frame) (s' : Stream) :
    Prop where
  inStep : InStep log s'
  left : (frame.bind Frame.event?).toList ++ left log s' = left log s
  none : frame.bind Frame.event? = none → s.left log = []

/-- The loop over the events of a snapshot. -/
theorem sendsNext_send (ho : Orderly log) (hs : s.left log = eventsSince log lastId)
    {frame : Option Frame} {s' : Stream} (h : send lastId (eventsSince log lastId) = (frame, s')) :
    SendsNext log s frame s' := by
  cases he : eventsSince log lastId with
  | nil =>
    rw [he] at h hs
    cases h
    exact ⟨he, hs.symm, fun _ => hs⟩
  | cons e rest =>
    rw [he] at h hs
    cases h
    exact ⟨⟨mem_of_since (he ▸ List.mem_cons_self), rfl, ho.since_tail he⟩, hs.symm,
      fun h => by cases h⟩

theorem sendsNext_resume (ho : Orderly log) (hs : InStep log s) {due : Bool} {frame : Option Frame}
    {s' : Stream} (h : s.resume log false due = some (frame, s')) : SendsNext log s frame s' := by
  obtain ⟨lastId, phase⟩ := s
  cases phase with
  | idle => exact sendsNext_send ho rfl (Option.some.inj h)
  | sent e rest =>
    obtain ⟨he, rfl, rfl⟩ : _ ∧ lastId = some e.id ∧ _ := hs
    unfold resume at h
    simp only at h
    split at h
    · rename_i ht
      cases h
      have hnil := ho.since_final he (List.contains_iff_mem.mp ht) le_rfl
      exact ⟨trivial, hnil.symm, fun _ => hnil⟩
    · exact sendsNext_send ho rfl (Option.some.inj h)
  | checking =>
    have hnil : eventsSince log lastId = [] := hs
    unfold resume at h
    simp only [Bool.false_eq_true, ↓reduceIte] at h
    split at h <;> cases h
    · exact ⟨hnil, rfl, fun _ => rfl⟩
    · exact ⟨trivial, hnil, fun _ => rfl⟩
  | beat =>
    have hnil : eventsSince log lastId = [] := hs
    cases h
    exact ⟨trivial, hnil, fun _ => rfl⟩
  | ended => cases h

/-- A stream sends what is left, and nothing else. -/
theorem yields_eq (ho : Orderly log) (hs : InStep log s) (dues : List Bool) :
    yields log dues s = (left log s).take dues.length := by
  induction dues generalizing s with
  | nil => rw [List.length_nil, List.take_zero, yields]
  | cons due dues ih =>
    rw [yields]
    cases h : s.resume log false due with
    | none =>
      have hended : s.phase = .ended := by
        by_contra hp
        obtain ⟨frame, s', h'⟩ := resume_some hp log false due
        cases h.symm.trans h'
      rw [left, hended, List.take_nil]
    | some p =>
      obtain ⟨frame, s'⟩ := p
      obtain ⟨hin, hleft, hnone⟩ := sendsNext_resume ho hs h
      simp only
      rw [ih hin]
      cases hf : frame.bind Frame.event? with
      | some e =>
        rw [hf] at hleft
        rw [← hleft]
        rfl
      | none =>
        rw [hf] at hleft
        rw [hnone hf] at hleft ⊢
        rw [List.append_eq_nil_iff.mp hleft |>.2, List.take_nil, List.take_nil]
        rfl

end

end Stream

/-! ## Any header -/

/-- The digits `0` to `9`. -/
def isAsciiDigits (raw : Bytes) : Bool := raw ≠ [] && raw.all fun b => 48 ≤ b && b ≤ 57

/-- What a client that sends `raw` is to be sent of the log. -/
def wanted (log : List JobEvent) (raw : Bytes) : List JobEvent :=
  if isAsciiDigits raw then log.filter fun e => digitsValue raw < e.id else log

/-- The route does not fail, and resumes where the header tells it to. -/
structure HeaderSurvives (store : JobStore) (job : JobId) (raw : Bytes) : Prop where
  admits : isdigit raw = true → ∃ n, intOf raw = .ok n
  resumes : ∃ stream log, streamEvents store job (some raw) = .ok stream ∧
    store.log job = .ok log ∧
    ∀ dues, Stream.yields log dues stream = (wanted log raw).take dues.length

/-- Digits that `int()` takes. -/
def Convertible (raw : Bytes) : Prop :=
  isdigit raw = true → isAsciiDigits raw = true ∧ raw.length ≤ maxStrDigits

section
variable {raw : Bytes}

theorem isdigit_of_ascii (h : isAsciiDigits raw = true) : isdigit raw = true := by
  obtain ⟨hne, hall⟩ := Bool.and_eq_true_iff.mp h
  refine Bool.and_eq_true_iff.mpr ⟨hne, List.all_eq_true.mpr fun b hb => ?_⟩
  rw [isdigitChar, List.all_eq_true.mp hall b hb]
  rfl

theorem intOf_iff (h : isdigit raw = true) : (∃ n, intOf raw = .ok n) ↔
    isAsciiDigits raw = true ∧ raw.length ≤ maxStrDigits := by
  have hne := (Bool.and_eq_true_iff.mp h).1
  rw [isAsciiDigits, hne, Bool.true_and, intOf]
  constructor
  · rintro ⟨n, hn⟩
    split at hn
    · rename_i hc
      obtain ⟨hall, hlen⟩ := Bool.and_eq_true_iff.mp hc
      exact ⟨hall, of_decide_eq_true hlen⟩
    · cases hn
  · rintro ⟨hall, hlen⟩
    rw [hall, Bool.true_and, if_pos (decide_eq_true hlen)]
    exact ⟨_, rfl⟩

/-- What the header is read as, if it is read. -/
theorem parseLastEventId_ok (h : Convertible raw) : parseLastEventId (some raw) =
    .ok (if isAsciiDigits raw then some (digitsValue raw) else none) := by
  rw [parseLastEventId]
  cases hd : isdigit raw with
  | false =>
    rw [if_neg Bool.false_ne_true, if_neg fun ha => by
      rw [isdigit_of_ascii ha] at hd
      cases hd]
  | true =>
    obtain ⟨ha, hlen⟩ := h hd
    rw [if_pos rfl, if_pos ha, intOf, (Bool.and_eq_true_iff.mp ha).2, Bool.true_and,
      if_pos (decide_eq_true hlen)]
    rfl

end

section
variable {G : Type} [ReadinessGate G] {cfg : Config} {job : JobId} {s : Runner G} {r : JobRecord}
  {log : List JobEvent}

/-- A job that is known has a log. -/
theorem reach_log (h : (runner cfg).Reach Lts.always s) (hjob : s.store.job? job = some r) :
    ∃ log, s.store.log job = .ok log ∧ Orderly log := by
  have hlogs := (reach_told h job).logs
  obtain ⟨log, hlog⟩ : ∃ log, s.store.log job = .ok log := by
    have hsome := (reach_ok h).books.store.events job r hjob
    obtain ⟨log, hg⟩ := Option.isSome_iff_exists.mp hsome
    exact ⟨log, by rw [JobStore.log, hg]⟩
  exact ⟨log, hlog, hlogs.orderly hlog⟩

/-- A header is survivable exactly if its digits are digits for `int()`. -/
theorem last_event_id_survives (h : (runner cfg).Reach Lts.always s)
    (hjob : s.store.job? job = some r) (raw : Bytes) :
    HeaderSurvives s.store job raw ↔ Convertible raw := by
  obtain ⟨log, hlog, ho⟩ := reach_log h hjob
  have hget : s.store.get job = .ok r := by
    unfold JobStore.get
    rw [show Assoc.get? s.store.jobs job = some r from hjob]
  constructor
  · exact fun hs hd => (intOf_iff hd).mp (hs.admits hd)
  · intro hc
    refine ⟨fun hd => (intOf_iff hd).mpr (hc hd),
      ⟨if isAsciiDigits raw then some (digitsValue raw) else none, .idle⟩, log, ?_, hlog,
      fun dues => ?_⟩
    · unfold streamEvents
      rw [hget, parseLastEventId_ok hc]
      rfl
    · have hin : Stream.InStep log
          ⟨if isAsciiDigits raw then some (digitsValue raw) else none, .idle⟩ := trivial
      rw [Stream.yields_eq ho hin]
      unfold wanted Stream.left
      cases isAsciiDigits raw <;> rfl

/-! ## A finished job -/

/-- The stream has a terminal event before it. -/
def Doomed (log : List JobEvent) (s : Stream) : Prop :=
  match s.phase with
  | .idle => ∃ e ∈ eventsSince log s.lastId, e.type ∈ terminalEventTypes
  | .sent e rest => ∃ x ∈ e :: rest, x.type ∈ terminalEventTypes
  | .ended => True
  | _ => False

/-- The resumptions until a stream with a terminal event before it has ended. -/
def toGo (log : List JobEvent) (s : Stream) : Nat :=
  match s.phase with
  | .idle => (eventsSince log s.lastId).length + 1
  | .sent _ rest => rest.length + 1
  | _ => 0

theorem doomed_send (log : List JobEvent) (lastId : Option Nat) {events : List JobEvent}
    (h : ∃ e ∈ events, e.type ∈ terminalEventTypes) :
    Doomed log (Stream.send lastId events).2 ∧
      toGo log (Stream.send lastId events).2 = events.length := by
  cases events with
  | nil => obtain ⟨e, he, -⟩ := h; cases he
  | cons e rest => exact ⟨h, rfl⟩

theorem doomed_resume {st st' : Stream} (h : Doomed log st) {due : Bool}
    (hs : ((st.resume log false due).map Prod.snd).getD st = st') :
    Doomed log st' ∧ toGo log st' ≤ toGo log st - 1 := by
  obtain ⟨lastId, phase⟩ := st
  cases phase with
  | idle =>
    obtain ⟨hd, hn⟩ := doomed_send log lastId h
    subst hs
    exact ⟨hd, Nat.le_of_eq hn⟩
  | sent e rest =>
    unfold Stream.resume at hs
    simp only at hs
    split at hs
    · subst hs
      exact ⟨trivial, Nat.zero_le _⟩
    · rename_i ht
      obtain ⟨x, hx, hxt⟩ : ∃ x ∈ e :: rest, x.type ∈ terminalEventTypes := h
      have hrest : ∃ x ∈ rest, x.type ∈ terminalEventTypes := by
        rcases List.mem_cons.mp hx with rfl | hx
        · exact absurd (List.contains_iff_mem.mpr hxt) ht
        · exact ⟨x, hx, hxt⟩
      obtain ⟨hd, hn⟩ := doomed_send log lastId hrest
      subst hs
      exact ⟨hd, Nat.le_of_eq hn⟩
  | checking | beat => exact h.elim
  | ended =>
    subst hs
    exact ⟨trivial, Nat.zero_le _⟩

/-- The stream waits for events after the last one. -/
def Tailing (log : List JobEvent) (s : Stream) : Prop :=
  eventsSince log s.lastId = [] ∧ (s.phase = .idle ∨ s.phase = .checking ∨ s.phase = .beat)

theorem tailing_resume {st : Stream} (h : Tailing log st) (due : Bool) :
    Tailing log (((st.resume log false due).map Prod.snd).getD st) := by
  obtain ⟨lastId, phase⟩ := st
  obtain ⟨hnil, rfl | rfl | rfl⟩ := h
  · have hnil : eventsSince log lastId = [] := hnil
    show Tailing log (Stream.send lastId (eventsSince log lastId)).2
    rw [hnil]
    exact ⟨hnil, .inr (.inl rfl)⟩
  · cases due
    · exact ⟨hnil, .inl rfl⟩
    · exact ⟨hnil, .inr (.inr rfl)⟩
  · exact ⟨hnil, .inl rfl⟩

/-- The log of a finished job stays as it is. -/
theorem finished_step {a : Action G} {s' : Runner G} (h : (runner cfg).Reach Lts.always s)
    (hjob : s.store.job? job = some r) (ht : r.status.terminal = true)
    (hlog : s.store.log job = .ok log) (hst : s.step cfg a = some s') :
    (runner cfg).Reach Lts.always s' ∧ s'.store.job? job = some r ∧ s'.store.log job = .ok log := by
  obtain ⟨r', hr', -, -, -, hsame⟩ := path_kept h (.single trivial hst) job r hjob
  obtain ⟨rfl, -, hl⟩ := hsame ht
  exact ⟨h.step trivial hst, hr', hl.trans hlog⟩

/-- A finished job, and a stream of it with `Q`. -/
def Finished (cfg : Config) (job : JobId) (r : JobRecord) (log : List JobEvent)
    (Q : Stream → Prop) (s : Runner G × Stream) : Prop :=
  ((runner cfg).Reach Lts.always s.1 ∧ s.1.store.job? job = some r ∧ s.1.store.log job = .ok log) ∧
    Q s.2

theorem step_finished {Q : Stream → Prop} {x x' : Runner G × Stream} {a : Action G ⊕ Bool}
    (ht : r.status.terminal = true) (hx : Finished cfg job r log Q x)
    (hst : (streaming cfg job).step x a = some x') :
    Finished cfg job r log (fun st => match a with
      | .inl _ => st = x.2
      | .inr due => ((x.2.resume log false due).map Prod.snd).getD x.2 = st) x' := by
  obtain ⟨⟨hr, hj, hl⟩, -⟩ := hx
  cases a with
  | inl a =>
    obtain ⟨t, hs, rfl⟩ := Option.map_eq_some_iff.mp hst
    exact ⟨finished_step hr hj ht hl hs, rfl⟩
  | inr due =>
    obtain ⟨log', hl', rfl⟩ := Option.map_eq_some_iff.mp hst
    rw [hl] at hl'
    cases hl'
    exact ⟨⟨hr, hj, hl⟩, rfl⟩

theorem not_within_of_tailing {x : Runner G × Stream}
    (hx : Finished cfg job r log (Tailing log) x) :
    ¬ (streaming cfg job).Within Sum.isRight (fun x => x.2.phase = .ended) x := by
  refine Lts.not_within (fun x hx hend => ?_) (fun x hx => ?_) hx
  · rcases hx.2.2 with hph | hph | hph <;> cases hph.symm.trans hend
  · refine ⟨.inr false, (x.1, ((x.2.resume log false false).map Prod.snd).getD x.2), rfl, ?_,
      hx.1, tailing_resume hx.2 false⟩
    show (x.1.store.log job).toOption.map _ = _
    rw [hx.1.2.2]
    rfl

theorem within_of_doomed {x : Runner G × Stream} (ht : r.status.terminal = true)
    (hx : Finished cfg job r log (Doomed log) x) :
    (streaming cfg job).Within Sum.isRight (fun x => x.2.phase = .ended) x := by
  refine Lts.Within.of_measure (fun x => toGo log x.2) (fun x hx hz => ?_)
    (fun x a x' hx hst => ?_) hx
  · obtain ⟨-, hd⟩ := hx
    unfold Doomed at hd
    unfold toGo at hz
    cases hph : x.2.phase with
    | idle | sent => rw [hph] at hz; cases hz
    | checking | beat => rw [hph] at hd; exact hd.elim
    | ended => rfl
  · obtain ⟨hfin, hq⟩ := step_finished ht hx hst
    cases a with
    | inl a =>
      have hq : x'.2 = x.2 := hq
      exact ⟨⟨hfin, hq ▸ hx.2⟩, by rw [hq]; simp⟩
    | inr due =>
      obtain ⟨hd, hn⟩ := doomed_resume hx.2 hq
      exact ⟨⟨hfin, hd⟩, hn⟩

/-- The stream of a finished job ends, in any interleaving, exactly if it is resumed from before the
terminal event. -/
theorem stream_ends_for_finished {raw : Option Bytes} {stream : Stream} {e : JobEvent}
    (h : (runner cfg).Reach Lts.always s) (hjob : s.store.job? job = some r)
    (ht : r.status.terminal = true) (hlog : s.store.log job = .ok log) (he : e ∈ log)
    (hte : e.type ∈ terminalEventTypes) (hs : streamEvents s.store job raw = .ok stream) :
    (streaming cfg job).Within Sum.isRight (fun x => x.2.phase = .ended) (s, stream) ↔
      ∀ k, parseLastEventId raw = .ok (some k) → k < e.id := by
  have ho := (reach_told h job).logs.orderly hlog
  obtain ⟨lastId, hp, rfl⟩ : ∃ lastId, parseLastEventId raw = .ok lastId ∧
      stream = ⟨lastId, .idle⟩ := by
    unfold streamEvents JobStore.get at hs
    rw [show Assoc.get? s.store.jobs job = some r from hjob] at hs
    cases hp : parseLastEventId raw with
    | error e => rw [hp] at hs; cases hs
    | ok lastId => rw [hp] at hs; cases hs; exact ⟨lastId, rfl, rfl⟩
  rw [hp]
  constructor
  · intro hw k hk
    cases hk
    by_contra hle
    exact not_within_of_tailing ⟨⟨h, hjob, hlog⟩,
      ho.since_final he hte (Nat.not_lt.mp hle), .inl rfl⟩ hw
  · intro hlt
    have hdoomed : Doomed log ⟨lastId, .idle⟩ := by
      refine ⟨e, ?_, hte⟩
      cases lastId with
      | none => exact he
      | some k => exact List.mem_filter.mpr ⟨he, decide_eq_true (hlt k rfl)⟩
    exact within_of_doomed ht ⟨⟨h, hjob, hlog⟩, hdoomed⟩

end

namespace Sample

/-- A job that has succeeded, and its log. -/
theorem oneJob_finished : ∃ (s : Runner Readiness) (r : JobRecord) (log : List JobEvent)
    (e : JobEvent), (runner (config none)).Reach Lts.always s ∧
    s.store.job? one = some r ∧ r.status.terminal = true ∧ s.store.log one = .ok log ∧
    e ∈ log ∧ e.type ∈ terminalEventTypes ∧ e.id = 3 := by
  have h : ((runner (config none)).run initial oneJob).map (fun s =>
      ((s.store.job? one).map (·.status.terminal), (s.store.log one).toOption.map (List.map fun e =>
        (e.id, e.type)))) = some (some true,
          some [(1, lit "queued"), (2, lit "running"), (3, lit "succeeded")]) := rfl
  obtain ⟨s, hs, hj⟩ := Option.map_eq_some_iff.mp h
  obtain ⟨hr, hl⟩ := Prod.mk.inj hj
  obtain ⟨r, hr, hst⟩ := Option.map_eq_some_iff.mp hr
  obtain ⟨log, hlog, hids⟩ := Option.map_eq_some_iff.mp hl
  have hmem : (3, lit "succeeded") ∈ log.map fun e => (e.id, e.type) := by
    rw [hids]
    exact List.mem_cons_of_mem _ (List.mem_cons_of_mem _ List.mem_cons_self)
  obtain ⟨e, he, hid⟩ := List.mem_map.mp hmem
  obtain ⟨hid, hty⟩ := Prod.mk.inj hid
  refine ⟨s, r, log, e, reach hs, hr, hst, ?_, he, hty ▸ List.mem_cons_self, hid⟩
  cases hg : s.store.log one with
  | ok log' => rw [hg] at hlog; cases hlog; rfl
  | error x => rw [hg] at hlog; cases hlog

end Sample

/-- A client that has seen the event before the last one. -/
theorem stream_ends_for_finished_two : ∃ s : Runner Sample.Readiness, ∃ stream,
    streamEvents s.store Sample.one (some [50]) = .ok stream ∧
    (streaming (Sample.config none) Sample.one).Within Sum.isRight (fun x => x.2.phase = .ended)
      (s, stream) := by
  obtain ⟨s, r, log, e, hreach, hjob, ht, hlog, he, hte, hid⟩ := Sample.oneJob_finished
  have hs : streamEvents s.store Sample.one (some [50]) = .ok ⟨some 2, .idle⟩ := by
    unfold streamEvents JobStore.get
    rw [show Assoc.get? s.store.jobs Sample.one = some r from hjob]
    rfl
  refine ⟨s, _, hs, (stream_ends_for_finished hreach hjob ht hlog he hte hs).mpr fun k hk => ?_⟩
  have hk : k = 2 := by cases hk; rfl
  omega

/-- A client that has seen the last event is never told so. -/
theorem stream_tails_finished : ¬ ∀ (s : Runner Sample.Readiness) r raw stream,
    (runner (Sample.config none)).Reach Lts.always s → s.store.job? Sample.one = some r →
    r.status.terminal = true → streamEvents s.store Sample.one raw = .ok stream →
    (streaming (Sample.config none) Sample.one).Within Sum.isRight (fun x => x.2.phase = .ended)
      (s, stream) := by
  intro h
  obtain ⟨s, r, log, e, hreach, hjob, ht, hlog, he, hte, hid⟩ := Sample.oneJob_finished
  have hs : streamEvents s.store Sample.one (some [51]) = .ok ⟨some 3, .idle⟩ := by
    unfold streamEvents JobStore.get
    rw [show Assoc.get? s.store.jobs Sample.one = some r from hjob]
    rfl
  have ho := (reach_told hreach Sample.one).logs.orderly hlog
  exact not_within_of_tailing ⟨⟨hreach, hjob, hlog⟩,
    ho.since_final he hte (Nat.le_of_eq hid), .inl rfl⟩ (h s r _ _ hreach hjob ht hs)

theorem last_event_id_survives_one : ∃ s : Runner Sample.Readiness,
    HeaderSurvives s.store Sample.one [49] := by
  obtain ⟨s, r, log, e, hreach, hjob, -⟩ := Sample.oneJob_finished
  exact ⟨s, (last_event_id_survives hreach hjob [49]).mpr fun _ => ⟨rfl, by decide⟩⟩

/-- The character `²` is a digit, but not for `int()`. -/
theorem last_event_id_raises : ¬ ∀ (s : Runner Sample.Readiness) r raw,
    (runner (Sample.config none)).Reach Lts.always s → s.store.job? Sample.one = some r →
    HeaderSurvives s.store Sample.one raw := by
  intro h
  obtain ⟨s, r, log, e, hreach, hjob, -⟩ := Sample.oneJob_finished
  obtain ⟨n, hn⟩ := (h s r [0xB2] hreach hjob).admits rfl
  cases hn

end Music3
