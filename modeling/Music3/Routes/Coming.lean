import Music3.Routes.Resuming

/-!
# What can still come

`Listener.coming`: the events that a client can still get of a log that stays as it is. A step of
the client adds none (`coming_step`), and each one that is not terminal can be sent at once
(`pending_sent`).
-/

namespace Music3

open Py BoundedLog

/-- What is in flight, what is left of the snapshot that is being sent, and what the log retains
after the last event that has arrived: the client can always connect again. -/
def Listener.coming (log : List JobEvent) (l : Listener) : List JobEvent :=
  l.inFlight.filterMap Frame.event? ++
    ((if l.connected then (l.stream.map Stream.rest).getD [] else []) ++
      eventsSince log (cursor JobEvent.id l.received))

section
variable {log h xs : List JobEvent} {l l' : Listener} {store : JobStore} {job : JobId}

theorem eventsSince_eq (log : List JobEvent) (k : Option Nat) :
    eventsSince log k = since JobEvent.id log k := by cases k <;> rfl

/-! ## No more than before -/

/-- A stream sends its snapshot, or takes a new one. -/
theorem Stream.resume_subset {stream stream' : Stream} {seen due : Bool} {frame : Option Frame}
    (hr : stream.resume log seen due = some (frame, stream')) :
    (frame.bind Frame.event?).toList ++ stream'.rest ⊆
      stream.rest ++ eventsSince log stream.lastId := by
  have send : ∀ (lastId : Option Nat) (events : List JobEvent),
      Stream.send lastId events = (frame, stream') →
      (frame.bind Frame.event?).toList ++ stream'.rest = events := by
    intro lastId events h
    cases events <;> cases h <;> rfl
  unfold Stream.resume at hr
  cases hphase : stream.phase with
  | idle =>
    rw [hphase] at hr
    rw [send _ _ (Option.some.inj hr)]
    exact List.subset_append_right _ _
  | sent e rest =>
    rw [hphase] at hr
    have hrest : stream.rest = rest := by rw [Stream.rest, hphase]
    simp only at hr
    split at hr
    · cases hr
      exact List.nil_subset _
    · rw [send _ _ (Option.some.inj hr), hrest]
      exact List.subset_append_left _ _
  | checking =>
    rw [hphase] at hr
    simp only at hr
    split at hr
    · cases hr
      exact List.nil_subset _
    · split at hr <;> cases hr <;> exact List.nil_subset _
  | beat =>
    rw [hphase] at hr
    cases hr
    exact List.nil_subset _
  | ended =>
    rw [hphase] at hr
    cases hr

/-- No step of a client adds to what can come. -/
theorem Logs.coming_step {a : Listen} (hl : Logs store job h)
    (hf : Following store.eventLogLimit h l) (hs : l.step store job a = some l') :
    l'.coming (newest store.eventLogLimit h) ⊆ l.coming (newest store.eventLogLimit h) := by
  cases a with
  | connect =>
    simp only [Listener.step, Option.ite_none_left_eq_some, Option.some.injEq] at hs
    obtain ⟨-, rfl⟩ := hs
    unfold Listener.connect
    rw [hl.header hf.part.sublist]
    cases store.get job with
    | error e => exact List.Subset.refl _
    | ok r =>
      intro e he
      exact List.mem_append_right _ (List.mem_append_right _ he)
  | disconnect =>
    simp only [Listener.step, Option.ite_none_right_eq_some, Option.some.injEq] at hs
    obtain ⟨-, rfl⟩ := hs
    intro e he
    exact List.mem_append_right _ (List.mem_append_right _ he)
  | deliver =>
    simp only [Listener.step] at hs
    split at hs
    · cases hs
    rename_i frame frames hfl
    cases hs
    obtain ⟨-, hpart⟩ := hf.deliver hfl
    intro e he
    rcases List.mem_append.mp he with he | he
    · refine List.mem_append_left _ ?_
      rw [hfl]
      exact (List.filterMap_cons ▸ by cases frame.event? <;> simp [he])
    · rcases List.mem_append.mp he with he | he
      · exact List.mem_append_right _ (List.mem_append_left _ he)
      · rw [eventsSince_eq] at he
        refine List.mem_append_right _ (List.mem_append_right _ ?_)
        rw [eventsSince_eq]
        exact hpart.since_subset hl.numbered _ he
  | resume seen due =>
    cases hc : l.connected with
    | true =>
      obtain ⟨stream, frame, stream', hst, hr, rfl⟩ := hl.resume hf hc hs
      obtain ⟨_, hst', ha⟩ := hf.attached hc
      cases hst.symm.trans hst'
      have hpush : (l.push frame).inFlight.filterMap Frame.event? =
          l.inFlight.filterMap Frame.event? ++ (frame.bind Frame.event?).toList := by
        cases frame with
        | none => exact (List.append_nil _).symm
        | some frame =>
          rw [Listener.push, if_pos hc, List.filterMap_append]
          cases frame <;> rfl
      have hrec : (l.push frame).received = l.received := by
        cases frame with
        | none => rfl
        | some frame => rw [Listener.push, if_pos hc]
      have hsince : eventsSince (newest store.eventLogLimit h) stream.lastId ⊆
          eventsSince (newest store.eventLogLimit h) (cursor JobEvent.id l.received) := by
        rw [ha.lastId, eventsSince_eq, eventsSince_eq]
        exact ha.part.left.since_subset hl.numbered _
      have hsub := Stream.resume_subset hr
      intro e he
      simp only [Listener.coming, hpush, hrec, (connected_push frame).trans hc, hc, hst, ↓reduceIte,
        Option.map_some, Option.getD_some, List.mem_append] at he ⊢
      simp only [List.subset_def, List.mem_append] at hsub
      grind
    | false =>
      -- nothing that the stream sends arrives
      obtain ⟨frame, stream', rfl⟩ := resume_eq hs
      rw [push_gone hc]
      intro e he
      simp only [Listener.coming, hc] at he ⊢
      exact he

/-! ## An event that can still come -/

/-- Before an event that is not terminal comes none that is. -/
theorem Logs.not_terminal {x e : JobEvent} (hl : Logs store job h) (hs : (x :: xs).Sublist h)
    (he : e ∈ x :: xs) (hn : e.type ∉ terminalEventTypes) : x.type ∉ terminalEventTypes := by
  intro ht
  rcases List.mem_cons.mp he with rfl | he
  · exact hn ht
  have ho : Orderly h := ⟨hl.numbered.increasing (.refl h), hl.final⟩
  have hle : e.id ≤ x.id := ho.le_of_final (hs.subset List.mem_cons_self) ht
    (hs.subset (List.mem_cons_of_mem x he))
  have hlt : x.id < e.id := by
    have hinc := hl.numbered.increasing hs
    rw [List.map_cons, List.pairwise_cons] at hinc
    exact hinc.1 _ (List.mem_map_of_mem he)
  omega

/-- The server runs the stream of a client, or the client goes and comes back. -/
def Sending {G : Type} (_ : Runner G × Listener) : Action G ⊕ Listen → Prop
  | .inl _ | .inr .deliver => False
  | .inr .connect | .inr .disconnect | .inr (.resume _ _) => True

/-- The client has an event in flight that is not terminal. -/
def Listener.Expects (l : Listener) : Prop :=
  ∃ e ∈ l.inFlight.filterMap Frame.event?, e.type ∉ terminalEventTypes

end

section
variable {G : Type} [ReadinessGate G] {job : JobId} {r : Runner G} {l : Listener}
  {h : List JobEvent} {stream : Stream} {e : JobEvent}

/-- The first event of a snapshot is sent. -/
theorem send_serves (cfg : Config) {y : JobEvent} {ys : List JobEvent} {lastId : Option Nat}
    (hlog : r.store.log job = .ok (newest r.store.eventLogLimit h)) (hc : l.connected = true)
    (hst : l.stream = some stream) (hn : y.type ∉ terminalEventTypes)
    (hr : stream.resume (newest r.store.eventLogLimit h) false false =
      some (Stream.send lastId (y :: ys))) :
    ∃ l', (listening cfg job).Path Sending (r, l) (r, l') ∧ l'.Expects := by
  let l' : Listener := { l.push (some (.event y)) with stream := some ⟨some y.id, .sent y ys⟩ }
  have hs : l.step r.store job (.resume false false) = some l' := by
    simp only [Listener.step, hst, hc, hlog, Option.bind_eq_bind, Option.bind_some, Except.toOption,
      hr, Bool.and_false, Bool.false_eq_true, ↓reduceIte]
    rfl
  have hstep : (listening cfg job).step (r, l) (.inr (.resume false false)) = some (r, l') :=
    congrArg (Option.map fun l => (r, l)) hs
  refine ⟨l', .single (by exact trivial) hstep, y, ?_, hn⟩
  show y ∈ (l.push (some (.event y))).inFlight.filterMap Frame.event?
  rw [Listener.push, if_pos hc, List.filterMap_append]
  exact List.mem_append_right _ (by simp [Frame.event?])

/-- A client that is gone comes back, and is sent the first event after the last one that it
has. -/
theorem connect_serves (cfg : Config) (hl : Logs r.store job h)
    (hlog : r.store.log job = .ok (newest r.store.eventLogLimit h))
    (hjob : (r.store.job? job).isSome = true) (hf : Following r.store.eventLogLimit h l)
    (hc : l.connected = false)
    (he : e ∈ eventsSince (newest r.store.eventLogLimit h) (cursor JobEvent.id l.received))
    (hn : e.type ∉ terminalEventTypes) :
    ∃ l', (listening cfg job).Path Sending (r, l) (r, l') ∧ l'.Expects := by
  obtain ⟨x, hx⟩ := Option.isSome_iff_exists.mp hjob
  have hget : r.store.get job = .ok x := by
    unfold JobStore.get
    rw [show Assoc.get? r.store.jobs job = some x from hx]
  let l' : Listener := { l with
    stream := some ⟨cursor JobEvent.id l.received, .idle⟩, connected := true, sent := []
    inFlight := [] }
  have hs : l.step r.store job .connect = some l' := by
    simp only [Listener.step, hc, Bool.false_eq_true, ↓reduceIte, Listener.connect, hget,
      hl.header hf.part.sublist]
    rfl
  have hstep : (listening cfg job).step (r, l) (.inr .connect) = some (r, l') :=
    congrArg (Option.map fun l => (r, l)) hs
  cases hsince : eventsSince (newest r.store.eventLogLimit h) (cursor JobEvent.id l.received) with
  | nil =>
    rw [hsince] at he
    cases he
  | cons y ys =>
    have hsub : (y :: ys).Sublist h := by
      rw [← hsince, eventsSince_eq]
      exact (List.sublist_append_right _ _).trans (hf.part.concat hl.numbered).sublist
    have hy : y.type ∉ terminalEventTypes := hl.not_terminal hsub (hsince ▸ he) hn
    obtain ⟨l'', hp, hx⟩ := send_serves cfg (l := l') hlog rfl rfl hy (by
      show some (Stream.send _ (eventsSince _ _)) = _
      rw [hsince])
    exact ⟨l'', (Lts.Path.single (by exact trivial) hstep).trans hp, hx⟩

/-- An event that can come and is not terminal is sent. -/
theorem pending_sent (cfg : Config) (hl : Logs r.store job h)
    (hlog : r.store.log job = .ok (newest r.store.eventLogLimit h))
    (hjob : (r.store.job? job).isSome = true) (hf : Following r.store.eventLogLimit h l)
    (he : e ∈ l.coming (newest r.store.eventLogLimit h)) (hn : e.type ∉ terminalEventTypes) :
    ∃ l', (listening cfg job).Path Sending (r, l) (r, l') ∧ l'.Expects := by
  rcases List.mem_append.mp he with he | he
  · exact ⟨l, .refl, e, he, hn⟩
  rcases List.mem_append.mp he with he | he
  · -- it is in the snapshot that is being sent
    split at he
    swap
    · cases he
    rename_i hc
    obtain ⟨stream, hst, ha⟩ := hf.attached hc
    rw [hst] at he
    replace he : e ∈ stream.rest := he
    cases hphase : stream.phase with
    | sent x rest =>
      have hrest : stream.rest = rest := by rw [Stream.rest, hphase]
      rw [hrest] at he
      obtain ⟨got, hgot⟩ := List.getLast?_eq_some_iff.mp (ha.sent x rest hphase).got
      have hsub : (x :: rest).Sublist h := by
        have hp := ha.part.sublist
        rw [hgot, hrest, List.append_assoc] at hp
        exact (List.sublist_append_right got _).trans hp
      have hx : x.type ∉ terminalEventTypes := hl.not_terminal hsub (List.mem_cons_of_mem x he) hn
      cases rest with
      | nil => cases he
      | cons y ys =>
        have hy : y.type ∉ terminalEventTypes :=
          hl.not_terminal ((List.sublist_cons_self x _).trans hsub) he hn
        refine send_serves cfg hlog hc hst hy (?_ : stream.resume _ false false =
          some (Stream.send stream.lastId (y :: ys)))
        simp only [Stream.resume, hphase, List.contains_iff_mem, hx, ↓reduceIte]
    | idle | checking | beat | ended =>
      rw [Stream.rest, hphase] at he
      cases he
  · cases hc : l.connected with
    | false => exact connect_serves cfg hl hlog hjob hf hc he hn
    | true =>
      have hs : l.step r.store job .disconnect =
          some { l with connected := false, inFlight := [] } := by
        simp only [Listener.step, hc, ↓reduceIte]
      have hstep : (listening cfg job).step (r, l) (.inr .disconnect) =
          some (r, { l with connected := false, inFlight := [] }) :=
        congrArg (Option.map fun l => (r, l)) hs
      obtain ⟨l', hp, hx⟩ := connect_serves cfg (l := { l with
        connected := false, inFlight := [] }) hl hlog hjob (hl.step hf hs) rfl he hn
      exact ⟨l', (Lts.Path.single (by exact trivial) hstep).trans hp, hx⟩

end

end Music3
