import Music3.Lib.Sse
import Music3.Py.Same
import Music3.Routes.Events

/-!
# The text of an event stream

`renderSse` is the text of an event, and `bodyOf` what the response sends of a stream's frames: a
`Sse.Block` each, since `json.dumps` writes one line (`printable_dumps`).

`frames_unforgeable`: a client of the format (`Sse.parse`) gets the events of the frames, and no
others, from what arrives of the body; an event's data is a JSON text of the event's value.
-/

namespace Music3

open Py Json

section
variable (F : FloatText) (limit : Nat)

/-- `json.dumps(v)`. `limit` is the deepest value that the encoder takes. -/
def dumpsLine (v : Json) : Except JsonError Str := dumps F ⟨none, false, limit⟩ v

/-- `render_sse`. -/
def renderSse (event : JobEvent) : Except JsonError Str := do
  let id ← intStr event.id
  let data ← dumpsLine F limit (.obj event.data)
  return lit "id: " ++ id ++ lit "\nevent: " ++ event.type ++ lit "\ndata: " ++ data ++ lit "\n\n"

/-- What `_event_stream` yields. -/
def Frame.render : Frame → Except JsonError Str
  | .event e => renderSse F limit e
  | .heartbeat => .ok (lit ": heartbeat\n\n")

/-- The text of a response that yields these frames. -/
def bodyOf : List Frame → Except JsonError Str
  | [] => .ok []
  | frame :: frames => do
    let text ← frame.render F limit
    let rest ← bodyOf frames
    return text ++ rest

/-- The job event that a client makes of an event: its `id` is a number, its `data` JSON. -/
def eventOf (e : Sse.Event) : Option JobEvent :=
  match loads F limit e.data with
  | .ok (.obj data) => some ⟨natOf e.lastEventId, e.type, data⟩
  | _ => none

end

/-- An event of a job: a status, and an object. -/
structure JobEvent.Ok (e : JobEvent) : Prop where
  type : ∃ status : JobStatus, e.type = status.value
  wf : (Json.obj e.data).WF
  finite : (Json.obj e.data).Finite
  whole : ∀ s ∈ (Json.obj e.data).strings, Whole s

/-- What the encoder takes. -/
structure JobEvent.Encodes (limit : Nat) (e : JobEvent) : Prop where
  id : intsOk (.int e.id) = true
  ints : intsOk (.obj e.data) = true
  depth : (Json.obj e.data).depth ≤ limit

section
variable {F : FloatText} {limit : Nat} {e : JobEvent} {frames : List Frame} {text : Str}

/-! ## The frames as blocks -/

variable (F limit) in
/-- The event that a job event is sent as. -/
def messageOf (e : JobEvent) : Sse.Event :=
  ⟨natText e.id, e.type, render F ⟨none, false, limit⟩ 0 (.obj e.data)⟩

variable (F limit) in
/-- The block of a frame. -/
def Frame.block : Frame → Sse.Block
  | .event e => .event (messageOf F limit e)
  | .heartbeat => .comment (lit " heartbeat")

theorem intStr_ok {n : Nat} {text : Str} :
    intStr n = .ok text ↔ intsOk (.int n) = true ∧ text = natText n := by
  have htext : intText n = natText n := by
    rw [intText, if_neg (by omega), Int.natAbs_natCast]
  have hi : intsOk (.int n) = true ↔ ¬ maxStrDigits < (natText n).length := by
    rw [intsOk, decide_eq_true_eq, Int.natAbs_natCast, Nat.not_lt]
  rw [intStr, fault, Int.natAbs_natCast, hi, htext]
  by_cases h : maxStrDigits < (natText n).length
  · simp [h]
  · simp [h, eq_comm]

theorem dumpsLine_ok {v : Json} : dumpsLine F limit v = .ok text ↔
    (intsOk v = true ∧ v.depth ≤ limit) ∧ text = render F ⟨none, false, limit⟩ 0 v := by
  constructor
  · intro h
    have hi := intsOk_of_dumps h
    rw [dumpsLine, dumps_of_intsOk hi] at h
    split at h
    · rename_i hd
      cases h
      exact ⟨⟨hi, hd⟩, rfl⟩
    · cases h
  · rintro ⟨⟨hi, hd⟩, rfl⟩
    rw [dumpsLine, dumps_of_intsOk hi, if_pos hd]
    rfl

theorem renderSse_ok : renderSse F limit e = .ok text ↔
    e.Encodes limit ∧ text = (Sse.Block.event (messageOf F limit e)).text := by
  have htext : ∀ id type data : Str, lit "id: " ++ id ++ lit "\nevent: " ++ type ++ lit "\ndata: " ++
      data ++ lit "\n\n" = (Sse.Block.event ⟨id, type, data⟩).text := by
    intro id type data
    have h₁ : lit "\nevent: " = [cp '\n'] ++ (lit "event" ++ lit ": ") := rfl
    have h₂ : lit "\ndata: " = [cp '\n'] ++ (lit "data" ++ lit ": ") := rfl
    have h₃ : lit "id: " = lit "id" ++ lit ": " := rfl
    have h₄ : lit "\n\n" = [cp '\n'] ++ [cp '\n'] := rfl
    simp only [Sse.Block.text, h₁, h₂, h₃, h₄, List.append_assoc]
  constructor
  · intro h
    obtain ⟨id, hid, h⟩ := StateExcept.ok_of_bind h
    obtain ⟨data, hdata, h⟩ := StateExcept.ok_of_bind h
    obtain ⟨hn, rfl⟩ := intStr_ok.mp hid
    obtain ⟨⟨hi, hd⟩, rfl⟩ := dumpsLine_ok.mp hdata
    cases h
    exact ⟨⟨hn, hi, hd⟩, htext _ _ _⟩
  · rintro ⟨h, rfl⟩
    simp only [renderSse, intStr_ok.mpr ⟨h.id, rfl⟩,
      dumpsLine_ok.mpr ⟨⟨h.ints, h.depth⟩, rfl⟩, bind,
      Except.bind, pure, Except.pure]
    exact congrArg _ (htext _ _ _)

theorem render_ok {frame : Frame} : frame.render F limit = .ok text ↔
    (∀ e, frame.event? = some e → e.Encodes limit) ∧ text = (frame.block F limit).text := by
  cases frame with
  | event e =>
    rw [Frame.render, renderSse_ok, Frame.block]
    simp [Frame.event?]
  | heartbeat =>
    have htext : (Frame.heartbeat.block F limit).text = lit ": heartbeat\n\n" := rfl
    rw [Frame.render, htext]
    simp [Frame.event?, eq_comm]

/-- A body is the blocks of its frames. -/
theorem bodyOf_ok : bodyOf F limit frames = .ok text ↔
    (∀ e ∈ frames.filterMap Frame.event?, e.Encodes limit) ∧
      text = (frames.map (Frame.block F limit)).flatMap Sse.Block.text := by
  induction frames generalizing text with
  | nil => simp [bodyOf, eq_comm]
  | cons frame frames ih =>
    have hcons : (∀ e ∈ (frame :: frames).filterMap Frame.event?, e.Encodes limit) ↔
        (∀ e, frame.event? = some e → e.Encodes limit) ∧
          ∀ e ∈ frames.filterMap Frame.event?, e.Encodes limit := by
      cases frame <;> simp [Frame.event?]
    rw [hcons, List.map_cons, List.flatMap_cons]
    constructor
    · intro h
      obtain ⟨t, ht, h⟩ := StateExcept.ok_of_bind h
      obtain ⟨rest, hrest, h⟩ := StateExcept.ok_of_bind h
      cases h
      obtain ⟨he, rfl⟩ := render_ok.mp ht
      obtain ⟨hes, rfl⟩ := ih.mp hrest
      exact ⟨⟨he, hes⟩, rfl⟩
    · rintro ⟨⟨he, hes⟩, rfl⟩
      simp only [bodyOf, render_ok.mpr ⟨he, rfl⟩, ih.mpr ⟨hes, rfl⟩, bind, Except.bind, pure,
        Except.pure]

/-! ## The blocks -/

theorem oneLine_of_printable {s : Str} (h : ∀ c ∈ s, 0x20 ≤ c.val) : Sse.OneLine s :=
  ⟨fun hm => absurd (h _ hm) (by decide), fun hm => absurd (h _ hm) (by decide)⟩

theorem printable_natText (n : Nat) : ∀ c ∈ natText n, 0x20 ≤ c.val := by
  intro c hc
  have h := natText_digits n c hc
  simp only [isDigit, Bool.and_eq_true, decide_eq_true_eq, Fin.le_def] at h
  have h0 : (cp '0').val = 48 := rfl
  omega

theorem printable_status (status : JobStatus) :
    (∀ c ∈ status.value, 0x20 ≤ c.val) ∧ status.value ≠ [] := by
  cases status <;> exact ⟨printable_of_all (by decide), by decide⟩

theorem block_ok {frame : Frame} (h : ∀ e, frame.event? = some e → JobEvent.Ok e)
    (hr : ∀ e, frame.event? = some e → JobEvent.Encodes limit e) : (frame.block F limit).Ok := by
  cases frame with
  | event e =>
    have h := h e rfl
    have hr := hr e rfl
    obtain ⟨status, hs⟩ := h.type
    have htype : (∀ c ∈ e.type, 0x20 ≤ c.val) ∧ e.type ≠ [] := hs ▸ printable_status status
    have hdumps := dumpsLine_ok (F := F).mpr ⟨⟨hr.ints, hr.depth⟩, rfl⟩
    refine ⟨oneLine_of_printable (printable_natText e.id), fun hm => ?_,
      oneLine_of_printable htype.1, htype.2,
      oneLine_of_printable (printable_dumps rfl hdumps)⟩
    exact absurd (printable_natText e.id _ hm) (by decide)
  | heartbeat => exact oneLine_of_printable (printable_of_all (by decide))

/-- A client reads the job event again. -/
theorem eventOf_messageOf (h : e.Ok) (hr : e.Encodes limit) :
    eventOf F limit (messageOf F limit e) = some e := by
  have hload := loads_dumps (dumpsLine_ok (F := F).mpr ⟨⟨hr.ints, hr.depth⟩, rfl⟩) hr.depth hr.ints
  have hstable := norm_of_stable (stable_of_whole h.wf h.finite h.whole)
  have hdata : loads F limit (messageOf F limit e).data = .ok (.obj e.data) := by
    rw [if_neg Bool.false_ne_true, hstable] at hload
    exact hload
  rw [eventOf, hdata]
  simp only [messageOf, natOf_natText]

theorem ascii_block {frame : Frame} (h : ∀ e, frame.event? = some e → JobEvent.Ok e)
    (hr : ∀ e, frame.event? = some e → JobEvent.Encodes limit e) :
    Ascii (frame.block F limit).text := by
  cases frame with
  | event e =>
    have hr := hr e rfl
    obtain ⟨status, hs⟩ := (h e rfl).type
    have htype : Ascii e.type := by
      rw [hs]
      cases status <;> exact ascii_lit (by decide)
    have hdigits : lineChars ⊆ textChars := by decide
    have hid : Ascii (natText e.id) := fun c hc =>
      ascii_textChars c (hdigits (digit_mem_lineChars (natText_digits e.id c hc)))
    have hdata : Ascii (messageOf F limit e).data :=
      ascii_dumps (dumpsLine_ok (F := F).mpr ⟨⟨hr.ints, hr.depth⟩, rfl⟩)
    have hend : Ascii [cp '\n'] := ascii_lit (s := "\n") (by decide)
    have hline : ∀ {name : String} {value : Str}, Ascii (lit name) → Ascii value →
        Ascii (lit name ++ lit ": " ++ value ++ [cp '\n']) := fun hn hv =>
      ((hn.append (ascii_lit (by decide))).append hv).append hend
    exact (hline (ascii_lit (by decide)) hid).append ((hline (ascii_lit (by decide)) htype).append
      ((hline (ascii_lit (by decide)) hdata).append hend))
  | heartbeat => exact ascii_lit (s := ": heartbeat\n\n") (by decide)

end

/-! ## The result -/

/-- A client gets the events of the frames, and no others. -/
theorem frames_unforgeable (F : FloatText) (limit : Nat) {frames : List Frame}
    (h : ∀ e ∈ frames.filterMap Frame.event?, e.Ok) :
    ((∀ e ∈ frames.filterMap Frame.event?, e.Encodes limit) →
      ∃ text, bodyOf F limit frames = .ok text) ∧
    ∀ text, bodyOf F limit frames = .ok text →
      (∃ b, encodeUtf8 text = some b ∧ decodeUtf8 b = some text) ∧
      (Sse.parse text).map (eventOf F limit) = (frames.filterMap Frame.event?).map some ∧
      (∀ m ∈ Sse.parse text, Rfc8259.IsText m.data) ∧
      ∀ t, t <+: text → Sse.parse t <+: Sse.parse text := by
  refine ⟨fun hr => ⟨_, bodyOf_ok.mpr ⟨hr, rfl⟩⟩, fun text htext => ?_⟩
  obtain ⟨hr, rfl⟩ := bodyOf_ok.mp htext
  have hframe : ∀ frame ∈ frames, ∀ e, frame.event? = some e → e.Ok ∧ e.Encodes limit :=
    fun frame hm e he =>
      have hmem := List.mem_filterMap.mpr ⟨frame, hm, he⟩
      ⟨h e hmem, hr e hmem⟩
  have hevents : (frames.map (Frame.block F limit)).filterMap Sse.Block.event? =
      (frames.filterMap Frame.event?).map (messageOf F limit) := by
    rw [List.filterMap_map, List.map_filterMap]
    congr 1
    funext frame
    cases frame <;> rfl
  have hparse : Sse.parse ((frames.map (Frame.block F limit)).flatMap Sse.Block.text) =
      (frames.filterMap Frame.event?).map (messageOf F limit) := by
    rw [Sse.parse_blocks, hevents]
    simp only [List.forall_mem_map]
    exact fun frame hm => block_ok (fun e he => (hframe frame hm e he).1)
      fun e he => (hframe frame hm e he).2
  refine ⟨?_, ?_, ?_, fun t ht => Sse.parse_prefix ht⟩
  · have hascii : Ascii ((frames.map (Frame.block F limit)).flatMap Sse.Block.text) := by
      simp only [Ascii, List.forall_mem_flatMap, List.forall_mem_map]
      exact fun frame hm => ascii_block (fun e he => (hframe frame hm e he).1)
        fun e he => (hframe frame hm e he).2
    exact ⟨_, encodeUtf8_ascii hascii, decodeUtf8_ascii hascii⟩
  · rw [hparse, List.map_map]
    exact List.map_congr_left fun e he => eventOf_messageOf (h e he) (hr e he)
  · rw [hparse]
    simp only [List.forall_mem_map]
    exact fun e he => (Rfc8259.isText_render _ _ _).mpr (h e he).finite

namespace Sample

/-- An engine's error that looks like the end of a frame and another one. -/
def forgedEvent : JobEvent :=
  ⟨3, lit "failed", [(lit "error", .str (lit "\r\n\nevent: succeeded\ndata: \x7b\x7d\n\n"))]⟩

def forgedFrames : List Frame :=
  [.event ⟨1, lit "queued", []⟩, .heartbeat, .event ⟨2, lit "running", []⟩, .heartbeat,
    .event forgedEvent]

theorem ok_forgedFrames : ∀ e ∈ forgedFrames.filterMap Frame.event?, e.Ok := by
  have hempty : ∀ (id : Nat) (status : JobStatus), JobEvent.Ok ⟨id, status.value, []⟩ :=
    fun id status => ⟨⟨status, rfl⟩, ⟨List.nodup_nil, trivial⟩, trivial, List.forall_mem_nil _⟩
  refine List.forall_mem_cons.mpr ⟨hempty 1 .queued, List.forall_mem_cons.mpr
    ⟨hempty 2 .running, List.forall_mem_singleton.mpr ?_⟩⟩
  refine ⟨⟨.failed, rfl⟩, ⟨List.nodup_singleton _, trivial, trivial⟩, ⟨trivial, trivial⟩, ?_⟩
  exact List.forall_mem_cons.mpr ⟨whole_of_plain (plain_lit rfl),
    List.forall_mem_singleton.mpr (whole_of_plain (plain_lit rfl))⟩

end Sample

theorem frames_unforgeable_error : ∃ text,
    bodyOf Sample.floats 990 Sample.forgedFrames = .ok text ∧
      (Sse.parse text).map (eventOf Sample.floats 990) =
        [some ⟨1, lit "queued", []⟩, some ⟨2, lit "running", []⟩, some Sample.forgedEvent] := by
  obtain ⟨hbody, hparse⟩ := frames_unforgeable Sample.floats 990 Sample.ok_forgedFrames
  obtain ⟨text, htext⟩ := hbody (by
    refine List.forall_mem_cons.mpr ⟨⟨by decide, by decide, by decide⟩, List.forall_mem_cons.mpr
      ⟨⟨by decide, by decide, by decide⟩, List.forall_mem_singleton.mpr
        ⟨by decide, by decide, by decide⟩⟩⟩)
  exact ⟨text, htext, (hparse text htext).2.1⟩

end Music3
