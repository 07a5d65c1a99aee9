import Music3.Routes.Events

/-!
# What a listener hears

`Following n h l` relates a client to the history `h` of its job, of which the log retains `n`
events: what has arrived, what is in flight and what is left of the snapshot are together a part of
the history (`BoundedLog.Part`), and the stream's `last_id` is the number of the last event sent.
Every step keeps it (`reach_following`).

`listener_hears` is the result. `catches_up`: a client that stays connected gets every event, if the
log drops none.
-/

namespace Music3

open Py BoundedLog

/-- What the stream has sent to a client, over all its connections. -/
def Listener.got (l : Listener) : List JobEvent := l.received ++ l.inFlight.filterMap Frame.event?

/-- The event that a stream sent last, and after which it has waited or ended. -/
structure SentLast (l : Listener) (e : JobEvent) : Prop where
  frame : l.sent.getLast? = some (.event e)
  got : l.got.getLast? = some e

/-- An open stream with a client at its other end. -/
structure Attached (n : Nat) (h : List JobEvent) (l : Listener) (stream : Stream) : Prop where
  part : Part n h (l.got ++ stream.rest)
  lastId : stream.lastId = cursor JobEvent.id l.got
  sent : ∀ e rest, stream.phase = .sent e rest → SentLast l e
  ended : stream.phase = .ended → ∃ e, SentLast l e ∧ e.type ∈ terminalEventTypes

/-- See the module doc. -/
structure Following (n : Nat) (h : List JobEvent) (l : Listener) : Prop where
  part : Part n h l.received
  lost : l.connected = false → l.inFlight = []
  attached : l.connected = true → ∃ stream, l.stream = some stream ∧ Attached n h l stream

section
variable {n : Nat} {h h' : List JobEvent} {l l' : Listener} {stream : Stream}

theorem Following.mono (hf : Following n h l) (hh : h <+: h') : Following n h' l := by
  refine ⟨hf.part.mono hh, hf.lost, fun hc => ?_⟩
  obtain ⟨stream, hs, ha⟩ := hf.attached hc
  exact ⟨stream, hs, ha.part.mono hh, ha.lastId, ha.sent, ha.ended⟩

theorem got_push (hc : l.connected = true) (frame : Option Frame) :
    (l.push frame).got = l.got ++ (frame.bind Frame.event?).toList := by
  cases frame with
  | none => exact (List.append_nil _).symm
  | some frame =>
    rw [Listener.push, if_pos hc]
    cases frame <;> simp [Listener.got, Frame.event?]

theorem push_gone (hc : l.connected = false) (frame : Option Frame) : l.push frame = l := by
  cases frame with
  | none => rfl
  | some frame => rw [Listener.push, if_neg (by rw [hc]; decide)]

/-- What has arrived with the next frame, and what is in flight then. -/
theorem got_deliver {frame : Frame} {frames : List Frame} (hfl : l.inFlight = frame :: frames) :
    l.received ++ frame.event?.toList ++ frames.filterMap Frame.event? = l.got := by
  rw [Listener.got, hfl, List.append_assoc]
  cases frame <;> rfl

/-- A client with a frame in flight is connected. -/
theorem Following.deliver {frame : Frame} {frames : List Frame} (hf : Following n h l)
    (hfl : l.inFlight = frame :: frames) :
    l.connected = true ∧ Part n h (l.received ++ frame.event?.toList) := by
  have hc : l.connected = true := by
    cases hc : l.connected with
    | true => rfl
    | false => rw [hf.lost hc] at hfl; cases hfl
  obtain ⟨stream, -, ha⟩ := hf.attached hc
  exact ⟨hc, (got_deliver hfl ▸ ha.part.left).left⟩

/-- The loop over the events of a snapshot: it sends the first one. -/
theorem Attached.send {rest : List JobEvent} {lastId : Option Nat} {frame : Option Frame}
    (hc : l.connected = true) (hp : Part n h (l.got ++ rest))
    (hl : lastId = cursor JobEvent.id l.got) (hs : Stream.send lastId rest = (frame, stream)) :
    Attached n h { (l.push frame) with stream := some stream } stream ∧
    (l.push frame).got ++ stream.rest = l.got ++ rest := by
  cases rest with
  | nil =>
    cases hs
    refine ⟨⟨hp, hl, fun e rest hs => ?_, fun hs => ?_⟩, rfl⟩
    · cases hs
    · cases hs
  | cons e rest =>
    cases hs
    have hgot : (l.push (some (.event e))).got = l.got ++ [e] := got_push hc _
    have hsent : SentLast (l.push (some (.event e))) e := by
      refine ⟨?_, by rw [hgot, List.getLast?_concat]⟩
      rw [Listener.push, if_pos hc, List.getLast?_concat]
    have hrest : (l.push (some (.event e))).got ++ rest = l.got ++ e :: rest := by
      rw [hgot, List.append_assoc]
      rfl
    refine ⟨⟨?_, ?_, fun e' rest' hs => ?_, fun hs => ?_⟩, hrest⟩
    · show Part n h ((l.push (some (.event e))).got ++ rest)
      rwa [hrest]
    · show some e.id = cursor JobEvent.id (l.push (some (.event e))).got
      rw [hgot, cursor, List.getLast?_concat]
      rfl
    · cases hs
      exact ⟨hsent.frame, hsent.got⟩
    · cases hs

/-- A stream that has sent the last event of the history has sent all of it. -/
theorem Attached.all {e : JobEvent} (ha : Attached n h l stream) (hn : Numbered JobEvent.id h)
    (hlen : h.length ≤ n) (he : l.got.getLast? = some e) (hlast : h.getLast? = some e) :
    l.got = h ∧ stream.rest = [] := by
  have hp := ha.part.left.beginning hlen
  have hne : ∀ {xs : List JobEvent}, xs.getLast? = some e → xs ≠ [] := by
    rintro _ h rfl
    cases h
  have hgot := hn.cursor_prefix hp (hne he)
  have hall := hn.cursor_prefix List.prefix_rfl (hne hlast)
  rw [cursor, he] at hgot
  rw [cursor, hlast, hgot] at hall
  have heq := hp.eq_of_length (Option.some.inj hall)
  have := (ha.part.beginning hlen).length_le
  rw [List.length_append, heq] at this
  exact ⟨heq, List.eq_nil_of_length_eq_zero (by omega)⟩

/-- A step that sends nothing that is an event, and does not end the stream. -/
theorem Attached.quiet (ha : Attached n h l stream) (hc : l.connected = true) (frame : Option Frame)
    (phase : Phase) (hframe : frame.bind Frame.event? = none)
    (hsent : ∀ e rest, phase ≠ .sent e rest) (hended : phase ≠ .ended) (hnil : stream.rest = []) :
    Attached n h { (l.push frame) with stream := some { stream with phase } }
      { stream with phase } ∧
    (l.push frame).got ++ ({ stream with phase } : Stream).rest = l.got ++ stream.rest := by
  have hgot : (l.push frame).got = l.got := by
    rw [got_push hc, hframe]
    exact List.append_nil _
  have hrest : ({ stream with phase } : Stream).rest = [] := by
    unfold Stream.rest
    cases phase with
    | sent e rest => exact absurd rfl (hsent e rest)
    | _ => rfl
  refine ⟨⟨?_, ha.lastId.trans (by rw [← hgot]; rfl), fun e rest hs => absurd hs (hsent e rest),
    fun hs => absurd hs hended⟩, by rw [hgot, hrest, hnil]⟩
  rw [hrest, List.append_nil]
  exact hgot ▸ ha.part.left

/-- A stream with a client runs to the next point where it waits. A new snapshot has all that is
left of the history, if the log has dropped nothing; then nothing is left out either of the
snapshot that is being sent. -/
theorem Attached.resume {due : Bool} {frame : Option Frame} {stream' : Stream}
    (ha : Attached n h l stream) (hc : l.connected = true) (hn : Numbered JobEvent.id h)
    (hfinal : ∀ e ∈ h, e.type ∈ terminalEventTypes → h.getLast? = some e)
    (hr : stream.resume (newest n h) false due = some (frame, stream')) :
    Attached n h { (l.push frame) with stream := some stream' } stream' ∧
    (h.length ≤ n → (stream.phase = .idle → (l.push frame).got ++ stream'.rest = h) ∧
      (stream.phase ≠ .idle → (l.push frame).got ++ stream'.rest = l.got ++ stream.rest)) := by
  unfold Stream.resume at hr
  cases hphase : stream.phase with
  | idle =>
    rw [hphase] at hr
    have hpart : Part n h l.got := ha.part.left
    have hsince : eventsSince (newest n h) stream.lastId =
        since JobEvent.id (newest n h) (cursor JobEvent.id l.got) := by
      rw [ha.lastId]
      cases cursor JobEvent.id l.got <;> rfl
    obtain ⟨hatt, hrest⟩ :=
      Attached.send hc (hsince ▸ hpart.concat hn) ha.lastId (Option.some.inj hr)
    exact ⟨hatt, fun hl => ⟨fun _ => hrest.trans (hsince ▸ hpart.since_all hn hl),
      fun h => absurd rfl h⟩⟩
  | sent e rest =>
    rw [hphase] at hr
    simp only at hr
    have hsent := ha.sent e rest hphase
    have hrest : stream.rest = rest := by rw [Stream.rest, hphase]
    have hpart : Part n h (l.got ++ rest) := hrest ▸ ha.part
    split at hr
    · rename_i hcontains
      have hterm : e.type ∈ terminalEventTypes := List.contains_iff_mem.mp hcontains
      cases hr
      refine ⟨⟨?_, ha.lastId, fun e rest hs => (by cases hs), fun _ =>
        ⟨e, ⟨hsent.frame, hsent.got⟩, hterm⟩⟩, fun hl => ⟨fun h => (by cases h), fun _ => ?_⟩⟩
      · exact (List.append_nil l.got).symm ▸ hpart.left
      · have hmem := hpart.left.sublist.subset (List.mem_of_getLast? hsent.got)
        rw [(ha.all hn hl hsent.got (hfinal e hmem hterm)).2]
        rfl
    · obtain ⟨hatt, hall⟩ := Attached.send hc hpart ha.lastId (Option.some.inj hr)
      exact ⟨hatt, fun _ => ⟨fun h => (by cases h), fun _ => hall.trans (by rw [hrest])⟩⟩
  | checking =>
    rw [hphase] at hr
    have hnil : stream.rest = [] := by rw [Stream.rest, hphase]
    simp only [Bool.false_eq_true, ↓reduceIte] at hr
    split at hr <;> cases hr
    · obtain ⟨hatt, hall⟩ := ha.quiet hc (some .heartbeat) .beat rfl nofun nofun hnil
      exact ⟨hatt, fun _ => ⟨fun h => (by cases h), fun _ => hall⟩⟩
    · obtain ⟨hatt, hall⟩ := ha.quiet hc none .idle rfl nofun nofun hnil
      exact ⟨hatt, fun _ => ⟨fun h => (by cases h), fun _ => hall⟩⟩
  | beat =>
    rw [hphase] at hr
    have hnil : stream.rest = [] := by rw [Stream.rest, hphase]
    cases hr
    obtain ⟨hatt, hall⟩ := ha.quiet hc none .idle rfl nofun nofun hnil
    exact ⟨hatt, fun _ => ⟨fun h => (by cases h), fun _ => hall⟩⟩
  | ended =>
    rw [hphase] at hr
    cases hr

end

/-! ## The steps of a client -/

section
variable {store : JobStore} {job : JobId} {h : List JobEvent} {l l' : Listener}

/-- What the log of `job` holds when its history is `h`. -/
structure Logs (store : JobStore) (job : JobId) (h : List JobEvent) : Prop where
  numbered : Numbered JobEvent.id h
  short : h.length ≤ 3
  final : ∀ e ∈ h, e.type ∈ terminalEventTypes → h.getLast? = some e
  log : ∀ log, store.log job = .ok log → log = newest store.eventLogLimit h

/-- The header of a client carries the number of its last event. -/
theorem Logs.header (hl : Logs store job h) (hp : l.received.Sublist h) :
    parseLastEventId l.header = .ok (cursor JobEvent.id l.received) := by
  rcases List.eq_nil_or_concat' l.received with e | ⟨es, e, heq⟩
  · rw [Listener.header, e]
    rfl
  have hlast : l.received.getLast? = some e := by rw [heq, List.getLast?_concat]
  rw [Listener.header, cursor, hlast]
  have hid : e.id ≤ 3 := by
    have hm : e.id ∈ h.map JobEvent.id :=
      List.mem_map_of_mem (hp.subset (List.mem_of_getLast? hlast))
    rw [hl.numbered, List.mem_range'_1] at hm
    have := hl.short
    omega
  have hlen : (natText e.id).length ≤ maxStrDigits :=
    Nat.le_trans (natText_length_le (k := 1) (by decide) (by omega)) (by decide)
  simp only [Option.map_some, parseLastEventId, isdigit_decimal, ↓reduceIte, intOf_decimal hlen]
  rfl

theorem resume_eq {seen due : Bool} (hs : l.step store job (.resume seen due) = some l') :
    ∃ frame stream, l' = { (l.push frame) with stream := some stream } := by
  simp only [Listener.step] at hs
  obtain ⟨stream, -, hs⟩ := Option.bind_eq_some_iff.mp hs
  split at hs
  · cases hs
  obtain ⟨log, -, hs⟩ := Option.bind_eq_some_iff.mp hs
  obtain ⟨⟨frame, stream'⟩, -, hs⟩ := Option.bind_eq_some_iff.mp hs
  cases hs
  exact ⟨frame, stream', rfl⟩

theorem connected_push (frame : Option Frame) : (l.push frame).connected = l.connected := by
  cases frame with
  | none => rfl
  | some frame =>
    rw [Listener.push]
    split <;> rfl

/-- The stream of a connected client runs. -/
theorem Logs.resume {seen due : Bool} (hl : Logs store job h)
    (hf : Following store.eventLogLimit h l) (hc : l.connected = true)
    (hs : l.step store job (.resume seen due) = some l') :
    ∃ stream frame stream', l.stream = some stream ∧
      stream.resume (newest store.eventLogLimit h) false due = some (frame, stream') ∧
      l' = { (l.push frame) with stream := some stream' } := by
  obtain ⟨stream, hst, ha⟩ := hf.attached hc
  simp only [Listener.step, hst, hc, Bool.true_and] at hs
  obtain ⟨_, e, hs⟩ := Option.bind_eq_some_iff.mp hs
  cases e
  split at hs
  · cases hs
  rename_i hseen
  rw [Bool.eq_false_of_not_eq_true hseen] at hs
  obtain ⟨log, hlog, hs⟩ := Option.bind_eq_some_iff.mp hs
  obtain ⟨⟨frame, stream'⟩, hr, hs⟩ := Option.bind_eq_some_iff.mp hs
  cases hs
  have hlog : log = newest store.eventLogLimit h := by
    apply hl.log
    cases hg : store.log job with
    | ok log' => rw [hg] at hlog; cases hlog; rfl
    | error e => rw [hg] at hlog; cases hlog
  rw [hlog] at hr
  exact ⟨stream, frame, stream', hst, hr, rfl⟩

/-- Only a known job has a client. -/
theorem step_connected {a : Listen} (hs : l.step store job a = some l')
    (hc : l'.connected = true) : l.connected = true ∨ ∃ r, store.job? job = some r := by
  cases a with
  | connect =>
    simp only [Listener.step, Option.ite_none_left_eq_some, Option.some.injEq] at hs
    obtain ⟨-, rfl⟩ := hs
    unfold Listener.connect at hc
    cases hg : store.get job with
    | error e => rw [hg] at hc; exact .inl hc
    | ok r =>
      refine .inr ⟨r, ?_⟩
      unfold JobStore.get at hg
      split at hg <;> cases hg
      assumption
  | disconnect =>
    simp only [Listener.step, Option.ite_none_right_eq_some, Option.some.injEq] at hs
    exact .inl hs.1
  | deliver =>
    simp only [Listener.step] at hs
    split at hs <;> cases hs
    exact .inl hc
  | resume seen due =>
    obtain ⟨frame, stream, rfl⟩ := resume_eq hs
    exact .inl ((connected_push frame).symm.trans hc)

theorem Logs.step {a : Listen} (hl : Logs store job h) (hf : Following store.eventLogLimit h l)
    (hs : l.step store job a = some l') : Following store.eventLogLimit h l' := by
  cases a with
  | connect =>
    simp only [Listener.step, Option.ite_none_left_eq_some, Option.some.injEq] at hs
    obtain ⟨hc, rfl⟩ := hs
    unfold Listener.connect
    rw [hl.header hf.part.sublist]
    cases store.get job with
    | error e => exact hf
    | ok r =>
      refine ⟨hf.part, fun h => (by cases h),
        fun _ => ⟨_, rfl, ?_, ?_, fun _ _ e => ?_, fun e => ?_⟩⟩
      · show Part _ h (l.received ++ [] ++ [])
        rw [List.append_nil, List.append_nil]
        exact hf.part
      · show cursor _ _ = cursor _ (l.received ++ [])
        rw [List.append_nil]
      · cases e
      · cases e
  | disconnect =>
    simp only [Listener.step, Option.ite_none_right_eq_some, Option.some.injEq] at hs
    obtain ⟨hc, rfl⟩ := hs
    exact ⟨hf.part, fun _ => rfl, fun h => by cases h⟩
  | deliver =>
    simp only [Listener.step] at hs
    split at hs
    · cases hs
    rename_i frame frames hfl
    cases hs
    obtain ⟨hc, hpart⟩ := hf.deliver hfl
    obtain ⟨stream, hst, ha⟩ := hf.attached hc
    have hgot := got_deliver hfl
    refine ⟨hpart, fun h => ?_, fun _ => ⟨stream, hst, ?_⟩⟩
    · exact absurd (h.symm.trans hc) (by decide)
    · refine ⟨?_, ?_, fun e rest hp => ⟨(ha.sent e rest hp).frame, ?_⟩, fun hp => ?_⟩
      · exact (congrArg (· ++ stream.rest) hgot).symm ▸ ha.part
      · exact ha.lastId.trans (congrArg (cursor JobEvent.id) hgot.symm)
      · exact (congrArg List.getLast? hgot).trans (ha.sent e rest hp).got
      · obtain ⟨e, he, ht⟩ := ha.ended hp
        exact ⟨e, ⟨he.frame, (congrArg List.getLast? hgot).trans he.got⟩, ht⟩
  | resume seen due =>
    cases hc : l.connected with
    | true =>
      obtain ⟨stream, frame, stream', hst, hr, rfl⟩ := hl.resume hf hc hs
      obtain ⟨_, hst', ha⟩ := hf.attached hc
      cases hst.symm.trans hst'
      have ha' := (ha.resume hc hl.numbered hl.final hr).1
      have hc' := (connected_push frame).trans hc
      exact ⟨ha'.part.left.left, fun h => absurd (h.symm.trans hc') (by decide),
        fun _ => ⟨stream', rfl, ha'⟩⟩
    | false =>
      -- nothing that the stream sends arrives
      obtain ⟨frame, stream', rfl⟩ := resume_eq hs
      rw [push_gone hc]
      exact ⟨hf.part, fun _ => hf.lost hc, fun h => absurd (hc.symm.trans h) (by decide)⟩

end

/-! ## Catching up -/

/-- How far the generator is from the head of its loop. -/
def Stream.ahead (stream : Stream) : Nat :=
  match stream.phase with
  | .idle | .ended => 0
  | .beat => 1
  | .checking => 2
  | .sent _ rest => rest.length + 3

theorem Stream.ahead_resume {stream stream' : Stream} {log : List JobEvent} {seen due : Bool}
    {frame : Option Frame} (hr : stream.resume log seen due = some (frame, stream'))
    (hi : stream.phase ≠ .idle) : stream'.ahead < stream.ahead := by
  unfold Stream.resume at hr
  unfold Stream.ahead
  cases hp : stream.phase with
  | idle => exact absurd hp hi
  | sent e rest =>
    rw [hp] at hr
    simp only at hr
    split at hr
    · cases hr
      exact Nat.succ_pos _
    · cases rest <;> cases hr <;> simp
  | checking =>
    rw [hp] at hr
    simp only at hr
    split at hr
    · cases hr
      exact Nat.two_pos
    · split at hr <;> cases hr
      · exact Nat.one_lt_two
      · exact Nat.two_pos
  | beat =>
    rw [hp] at hr
    cases hr
    exact Nat.one_pos
  | ended =>
    rw [hp] at hr
    cases hr

theorem Stream.resume_some {stream : Stream} (h : stream.phase ≠ .ended) (log : List JobEvent)
    (seen due : Bool) : ∃ frame stream', stream.resume log seen due = some (frame, stream') := by
  unfold Stream.resume
  cases hp : stream.phase with
  | ended => exact absurd hp h
  | idle => exact ⟨_, _, rfl⟩
  | sent e rest =>
    simp only
    split <;> exact ⟨_, _, rfl⟩
  | checking =>
    simp only
    split
    · exact ⟨_, _, rfl⟩
    · split <;> exact ⟨_, _, rfl⟩
  | beat => exact ⟨_, _, rfl⟩

section
variable {G : Type} [ReadinessGate G] {cfg : Config} {job : JobId} {r : Runner G} {l : Listener}
  {h : List JobEvent} {stream : Stream}

/-- The server runs the stream of a client that stays connected, or a frame arrives. -/
def Serving (_ : Runner G × Listener) : Action G ⊕ Listen → Prop
  | .inr .deliver | .inr (.resume false _) => True
  | _ => False

/-- What is in flight arrives. -/
theorem all_arrives (cfg : Config) (job : JobId) (r : Runner G) (l : Listener) :
    ∃ l', (listening cfg job).Path Serving (r, l) (r, l') ∧ l'.received = l.got := by
  generalize hfl : l.inFlight = frames
  induction frames generalizing l with
  | nil => exact ⟨l, .refl, by rw [Listener.got, hfl]; exact (List.append_nil _).symm⟩
  | cons frame frames ih =>
    have hs : l.step r.store job .deliver = some { l with
        inFlight := frames, received := l.received ++ frame.event?.toList } := by
      simp only [Listener.step, hfl]
    have hstep : (listening cfg job).step (r, l) (.inr .deliver) = some (r, { l with
        inFlight := frames, received := l.received ++ frame.event?.toList }) :=
      congrArg (Option.map fun l => (r, l)) hs
    obtain ⟨l', hp, he⟩ := ih { l with
      inFlight := frames, received := l.received ++ frame.event?.toList } rfl
    refine ⟨l', (Lts.Path.single (by exact trivial) hstep).trans hp, he.trans ?_⟩
    rw [Listener.got, Listener.got, hfl, List.append_assoc]
    cases frame <;> rfl

/-- The stream of a connected client runs one step. -/
theorem resume_serves (hl : Logs r.store job h)
    (hlog : r.store.log job = .ok (newest r.store.eventLogLimit h))
    (hc : l.connected = true) (hst : l.stream = some stream)
    (ha : Attached r.store.eventLogLimit h l stream) (he : stream.phase ≠ .ended)
    (hlen : h.length ≤ r.store.eventLogLimit) :
    ∃ l' stream', (listening cfg job).Path Serving (r, l) (r, l') ∧ l'.connected = true ∧
      l'.stream = some stream' ∧ Attached r.store.eventLogLimit h l' stream' ∧
      (stream.phase = .idle → l'.got ++ stream'.rest = h) ∧
      (stream.phase ≠ .idle → l'.got ++ stream'.rest = l.got ++ stream.rest ∧
        stream'.ahead < stream.ahead) := by
  obtain ⟨frame, stream', hr⟩ := Stream.resume_some he (newest r.store.eventLogLimit h) false false
  obtain ⟨ha', hall⟩ := ha.resume hc hl.numbered hl.final hr
  have hs : l.step r.store job (.resume false false) =
      some { (l.push frame) with stream := some stream' } := by
    simp only [Listener.step, hst, hc, hlog, Option.bind_eq_bind, Option.bind_some, Except.toOption,
      hr, Bool.and_false, Bool.false_eq_true, ↓reduceIte]
    rfl
  have hstep : (listening cfg job).step (r, l) (.inr (.resume false false)) =
      some (r, { (l.push frame) with stream := some stream' }) :=
    congrArg (Option.map fun l => (r, l)) hs
  exact ⟨_, stream', .single (by exact trivial) hstep, (connected_push frame).trans hc, rfl, ha',
    (hall hlen).1, fun hi => ⟨(hall hlen).2 hi, Stream.ahead_resume hr hi⟩⟩

/-- A stream with a client gets to the head of its loop, or ends, with its snapshot sent. -/
theorem snapshot_sent (hl : Logs r.store job h)
    (hlog : r.store.log job = .ok (newest r.store.eventLogLimit h))
    (hlen : h.length ≤ r.store.eventLogLimit) (hc : l.connected = true)
    (hst : l.stream = some stream) (ha : Attached r.store.eventLogLimit h l stream) :
    ∃ l' stream', (listening cfg job).Path Serving (r, l) (r, l') ∧ l'.connected = true ∧
      l'.stream = some stream' ∧ Attached r.store.eventLogLimit h l' stream' ∧
      (stream'.phase = .idle ∨ stream'.phase = .ended) ∧ l'.got = l.got ++ stream.rest := by
  generalize hm : stream.ahead = m
  induction m using Nat.strongRecOn generalizing l stream with
  | ind m ih =>
    by_cases hstop : stream.phase = .idle ∨ stream.phase = .ended
    · have hnil : stream.rest = [] := by
        unfold Stream.rest
        rcases hstop with e | e <;> rw [e]
      exact ⟨l, stream, .refl, hc, hst, ha, hstop, by rw [hnil, List.append_nil]⟩
    · rw [not_or] at hstop
      obtain ⟨l₁, stream₁, hp, hc₁, hst₁, ha₁, -, hmore⟩ :=
        resume_serves hl hlog hc hst ha hstop.2 hlen
      obtain ⟨hgot, hlt⟩ := hmore hstop.1
      obtain ⟨l', stream', hp', hc', hst', ha', hstop', hgot'⟩ :=
        ih stream₁.ahead (hm ▸ hlt) hc₁ hst₁ ha₁ rfl
      exact ⟨l', stream', hp.trans hp', hc', hst', ha', hstop', hgot'.trans hgot⟩

/-- A client that stays connected gets every event. -/
theorem catches_up (hl : Logs r.store job h)
    (hlog : r.store.log job = .ok (newest r.store.eventLogLimit h))
    (hlen : h.length ≤ r.store.eventLogLimit) (hf : Following r.store.eventLogLimit h l)
    (hc : l.connected = true) :
    ∃ l', (listening cfg job).Path Serving (r, l) (r, l') ∧ l'.received = h := by
  have hended : ∀ {l stream}, Attached r.store.eventLogLimit h l stream →
      stream.phase = .ended → l.got = h := by
    intro l stream ha he
    obtain ⟨e, hs, hterm⟩ := ha.ended he
    have hmem := ha.part.left.sublist.subset (List.mem_of_getLast? hs.got)
    exact (ha.all hl.numbered hlen hs.got (hl.final e hmem hterm)).1
  obtain ⟨stream, hst, ha⟩ := hf.attached hc
  obtain ⟨l₁, s₁, hp₁, hc₁, hst₁, ha₁, hstop, -⟩ := snapshot_sent hl hlog hlen hc hst ha
  have hall : ∃ l₂, (listening cfg job).Path Serving (r, l) (r, l₂) ∧ l₂.got = h := by
    rcases hstop with hidle | he
    · -- a new snapshot, which is then sent
      obtain ⟨l₂, s₂, hp₂, hc₂, hst₂, ha₂, hsnap, -⟩ :=
        resume_serves hl hlog hc₁ hst₁ ha₁ (by rw [hidle]; intro e; cases e) hlen
      obtain ⟨l₃, s₃, hp₃, -, -, -, -, hgot⟩ := snapshot_sent hl hlog hlen hc₂ hst₂ ha₂
      exact ⟨l₃, (hp₁.trans hp₂).trans hp₃, hgot.trans (hsnap hidle)⟩
    · exact ⟨l₁, hp₁, hended ha₁ he⟩
  obtain ⟨l₂, hp₂, hgot⟩ := hall
  obtain ⟨l', hp', hrec⟩ := all_arrives cfg job r l₂
  exact ⟨l', hp₂.trans hp', hrec.trans hgot⟩

end

/-! ## The runner's histories -/

theorem Story.terminal_last {st x : JobStatus} {l : List JobStatus} {i : Nat} (h : Story st l)
    (hx : l[i]? = some x) (ht : x.terminal = true) : i + 1 = l.length := by
  have hi : i < l.length := (List.getElem?_eq_some_iff.mp hx).1
  cases h <;> simp only [List.length_cons, List.length_nil] at hi ⊢ <;>
    rcases i with _ | _ | _ | i <;> first
      | rfl
      | omega
      | (cases hx; cases ht)

theorem Story.length_le {st : JobStatus} {l : List JobStatus} (h : Story st l) : l.length ≤ 3 := by
  cases h <;> decide

theorem terminal_of_mem {x : JobStatus} (h : x.value ∈ terminalEventTypes) : x.terminal = true := by
  cases x with
  | queued | running => exact absurd h (by decide)
  | succeeded | failed | cancelled => rfl

section
variable {G : Type} {s s' : Runner G} {job : JobId}

theorem Runner.StoreStep.grows (h : StoreStep s s') (id : JobId) :
    s.history id <+: s'.history id ∧ s'.store.eventLogLimit = s.store.eventLogLimit := by
  cases h with
  | same hs hh => exact ⟨(hh id).symm ▸ List.prefix_rfl, by rw [hs]⟩
  | advance job r r' data hr ht hs hh =>
    refine ⟨?_, by rw [hs]; rfl⟩
    rw [hh id]
    split
    · exact List.prefix_append _ _
    · exact List.prefix_rfl
  | enqueue job submission now hn hs hh =>
    refine ⟨?_, by rw [hs]; rfl⟩
    rw [hh id]
    split
    · exact List.prefix_append _ _
    · exact List.prefix_rfl

theorem Runner.Told.logs (ht : Told s job) : Logs s.store job (s.history job) := by
  have hstory : s.history job = [] ∨ ∃ st l, (s.history job).map JobEvent.type =
      l.map JobStatus.value ∧ Story st l := by
    cases hj : s.store.job? job with
    | none => exact .inl (ht.unknown hj)
    | some r =>
      obtain ⟨l, hl, hok⟩ := ht.known r hj
      exact .inr ⟨r.status, l, hl, hok.story⟩
  refine ⟨ht.ids, ?_, fun e he hterm => ?_, fun log hlog => ?_⟩
  · rcases hstory with e | ⟨st, l, hl, hs⟩
    · rw [e]
      exact Nat.zero_le 3
    · have := congrArg List.length hl
      rw [List.length_map, List.length_map] at this
      rw [this]
      exact hs.length_le
  · rcases hstory with e' | ⟨st, l, hl, hs⟩
    · rw [e'] at he
      cases he
    obtain ⟨i, hi⟩ := List.mem_iff_getElem?.mp he
    have hty : (l.map JobStatus.value)[i]? = some e.type := by
      rw [← hl, List.getElem?_map, hi]
      rfl
    rw [List.getElem?_map] at hty
    obtain ⟨x, hx, hval⟩ := Option.map_eq_some_iff.mp hty
    have hlen := hs.terminal_last hx (terminal_of_mem (hval ▸ hterm))
    have := congrArg List.length hl
    rw [List.length_map, List.length_map] at this
    rw [List.getLast?_eq_getElem?, this, ← hlen, Nat.add_sub_cancel]
    exact hi
  · rw [← ht.retained, JobStore.retained]
    unfold JobStore.log at hlog
    cases hg : Assoc.get? s.store.events job with
    | none => rw [hg] at hlog; cases hlog
    | some log' => rw [hg] at hlog; cases hlog; rfl

end

/-! ## The result -/

section
variable {G : Type} [ReadinessGate G] {cfg : Config} {job : JobId} {s : Runner G × Listener}

theorem listening_runner : Lts.Sim (listening (G := G) cfg job) (runner cfg) Lts.always Lts.always
    Prod.fst where
  init _ h := h.1
  step s a s' _ _ h := by
    cases a with
    | inl a =>
      obtain ⟨t, ht, rfl⟩ := Option.map_eq_some_iff.mp h
      exact .single trivial ht
    | inr a =>
      obtain ⟨l, -, rfl⟩ := Option.map_eq_some_iff.mp h
      exact .refl

theorem reach_following (h : (listening cfg job).Reach Lts.always s) :
    Following s.1.store.eventLogLimit (s.1.history job) s.2 ∧
    (s.2.connected = true → ∃ r, s.1.store.job? job = some r) := by
  obtain ⟨s₀, h₀, hp⟩ := h
  refine hp.preserves_reach (I := fun s => Following s.1.store.eventLogLimit (s.1.history job) s.2 ∧
    (s.2.connected = true → ∃ r, s.1.store.job? job = some r)) ?_ (.init h₀) ?_
  · rintro ⟨r, l⟩ a ⟨r', l'⟩ hr ⟨hf, hk⟩ - hst
    have hrunner := listening_runner.reach hr
    cases a with
    | inl a =>
      obtain ⟨t, ht, e⟩ := Option.map_eq_some_iff.mp hst
      cases e
      have hstep := (reach_move hrunner ht).storeStep
      obtain ⟨hgrow, hlim⟩ := hstep.grows job
      refine ⟨?_, fun hc => ?_⟩
      · exact hlim.symm ▸ hf.mono hgrow
      · obtain ⟨x, hx⟩ := hk hc
        obtain ⟨x', hx', -⟩ := hstep.kept job x hx
        exact ⟨x', hx'⟩
    | inr a =>
      obtain ⟨t, ht, e⟩ := Option.map_eq_some_iff.mp hst
      cases e
      exact ⟨(reach_told hrunner job).logs.step hf ht, fun hc => (step_connected ht hc).elim hk id⟩
  · obtain ⟨-, e⟩ := h₀
    rw [e]
    exact ⟨⟨.nil, fun _ => rfl, fun h => by cases h⟩, fun h => by cases h⟩

/-- What a client of `job` has received increases in its ids and is a part of the job's history, its
beginning if the log keeps three events. A stream that has ended while the client is connected has
sent the job's terminal event last, and with such a log the whole history; and then a client that
stays connected receives all of it. -/
theorem listener_hears (h : (listening cfg job).Reach Lts.always s) :
    (s.2.received.map JobEvent.id).Pairwise (· < ·) ∧
    s.2.received.Sublist (s.1.history job) ∧
    (3 ≤ s.1.store.eventLogLimit → s.2.received <+: s.1.history job) ∧
    (∀ stream, s.2.connected = true → s.2.stream = some stream → stream.phase = .ended →
      ∃ e, s.2.sent.getLast? = some (.event e) ∧ e.type ∈ terminalEventTypes ∧
        s.2.got.getLast? = some e ∧ (s.1.history job).getLast? = some e ∧
        (3 ≤ s.1.store.eventLogLimit → s.2.got = s.1.history job)) ∧
    (s.2.connected = true → 3 ≤ s.1.store.eventLogLimit → ∃ l,
      (listening cfg job).Path Serving s (s.1, l) ∧ l.received = s.1.history job) := by
  have hrunner := listening_runner.reach h
  have hl := (reach_told hrunner job).logs
  obtain ⟨hf, hknown⟩ := reach_following h
  refine ⟨hl.numbered.increasing hf.part.sublist, hf.part.sublist,
    fun hlim => hf.part.beginning (Nat.le_trans hl.short hlim), fun stream hc hst he => ?_,
    fun hc hlim => ?_⟩
  · obtain ⟨_, hst', ha⟩ := hf.attached hc
    cases hst.symm.trans hst'
    obtain ⟨e, hs, hterm⟩ := ha.ended he
    have hlast := hl.final e (ha.part.left.sublist.subset (List.mem_of_getLast? hs.got)) hterm
    exact ⟨e, hs.frame, hterm, hs.got, hlast,
      fun hlim => (ha.all hl.numbered (Nat.le_trans hl.short hlim) hs.got hlast).1⟩
  · obtain ⟨r, hr⟩ := hknown hc
    have hlog := (reach_tells hrunner hr).log
    obtain ⟨l, hp, hall⟩ := catches_up hl hlog (Nat.le_trans hl.short hlim) hf hc
    exact ⟨l, hp, hall⟩

end

namespace Sample

/-- The first event arrives, the connection is lost with the second in flight, and the next one
starts after the first. -/
def follow : List (Action Readiness ⊕ Listen) := [.inl (.submit submission early one),
  .inr .connect,
  .inr (.resume false false), .inr .deliver, .inl .start, .inl (.dequeue late),
  .inl (.readyReturns .ready late), .inr (.resume false false), .inr (.resume false false),
  .inr (.resume false false), .inr .disconnect, .inr .connect, .inr (.resume false false),
  .inr .deliver, .inl (.engineEnds 0 (.result result)), .inl (.resume late late []),
  .inr (.resume false false), .inr (.resume false false), .inr (.resume false false),
  .inr (.resume false false), .inr .deliver]

end Sample

theorem listener_hears_one_job : ∃ s, (listening (Sample.config none) Sample.one).run
    (Sample.initial, {}) Sample.follow = some s ∧ s.2.received.map JobEvent.id = [1, 2, 3] ∧
    s.2.received.map JobEvent.type = [lit "queued", lit "running", lit "succeeded"] ∧
    (s.2.received.map JobEvent.id).Pairwise (· < ·) ∧
      s.2.received.Sublist (s.1.history Sample.one) := by
  have h : ((listening (Sample.config none) Sample.one).run (Sample.initial, {})
      Sample.follow).map (fun s => (s.2.received.map JobEvent.id, s.2.received.map JobEvent.type)) =
        some ([1, 2, 3], [lit "queued", lit "running", lit "succeeded"]) := rfl
  obtain ⟨s, hs, he⟩ := Option.map_eq_some_iff.mp h
  have hi : (runner (Sample.config none)).init Sample.initial :=
    Sample.init_initial fun _ e => by cases e
  have hr := listener_hears ⟨_, ⟨hi, rfl⟩, Lts.path_of_run hs⟩
  exact ⟨s, hs, congrArg Prod.fst he, congrArg Prod.snd he, hr.1, hr.2.1⟩

end Music3
