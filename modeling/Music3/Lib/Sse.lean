import Music3.Py.Str

/-!
# Event streams

What a client makes of a `text/event-stream`. `Reader` reads it a character at a time: a line ends
with LF, CR or CRLF, a line that starts with a colon is a comment, any other has a field's name and
its value, and an empty line dispatches an event if there is data for one.

A `Block` is an event or a comment as a server sends it. `parse_blocks`: a client dispatches the
events of the blocks that it is sent, if none of their texts has a line break in it.
`parse_prefix`: from a stream that is cut off it has dispatched some of the first ones.
-/

namespace Sse

open Py

/-- A dispatched event. -/
structure Event where
  lastEventId : Str
  type : Str
  data : Str

/-- A client in the middle of a stream: the line so far, whether the last line ended with CR, the
buffers, and the events that it has dispatched. -/
structure Reader where
  line : Str := []
  afterCr : Bool := false
  dataBuffer : Str := []
  typeBuffer : Str := []
  idBuffer : Str := []
  events : List Event := []

namespace Reader

/-- An empty line. The buffer of the data ends with LF, which is no part of the data. -/
def dispatch (r : Reader) : Reader :=
  if r.dataBuffer = [] then { r with typeBuffer := [] }
  else { r with
    dataBuffer := []
    typeBuffer := []
    events := r.events ++ [⟨r.idBuffer,
      if r.typeBuffer = [] then lit "message" else r.typeBuffer, r.dataBuffer.dropLast⟩] }

/-- A line with a field. `retry` and fields that are not known dispatch nothing. -/
def field (name value : Str) (r : Reader) : Reader :=
  if name = lit "event" then { r with typeBuffer := value }
  else if name = lit "data" then { r with dataBuffer := r.dataBuffer ++ value ++ [cp '\n'] }
  else if name = lit "id" then if value.contains (point 0) then r else { r with idBuffer := value }
  else r

/-- The value of a field; a space after the colon is no part of it. -/
def fieldValue : Str → Str
  | _ :: c :: value => if c = cp ' ' then value else c :: value
  | _ => []

/-- The end of a line. -/
def endLine (r : Reader) : Reader :=
  let next := { r with line := [] }
  if r.line = [] then next.dispatch
  else if r.line.head? = some (cp ':') then next
  else next.field (r.line.takeWhile (· ≠ cp ':')) (fieldValue (r.line.dropWhile (· ≠ cp ':')))

/-- The next character. -/
def read (r : Reader) (c : CodePoint) : Reader :=
  if c = cp '\n' then
    if r.afterCr then { r with afterCr := false } else r.endLine
  else if c = cp '\r' then { r.endLine with afterCr := true }
  else { r with line := r.line ++ [c], afterCr := false }

end Reader

/-- A byte order mark is no part of the stream. -/
def dropBom : Str → Str
  | [] => []
  | c :: s => if c = point 0xFEFF then s else c :: s

/-- The events of a stream. An event that the end of the stream has cut off is none. -/
def parse (s : Str) : List Event := ((dropBom s).foldl Reader.read {}).events

/-! ## Lines -/

/-- No line break in it. -/
def OneLine (s : Str) : Prop := cp '\n' ∉ s ∧ cp '\r' ∉ s

namespace Reader

variable {r : Reader}

/-- At the start of a line, with nothing in the buffers of the event. -/
structure Clean (r : Reader) : Prop where
  line : r.line = []
  afterCr : r.afterCr = false
  dataBuffer : r.dataBuffer = []
  typeBuffer : r.typeBuffer = []

/-- Characters of a line. -/
theorem read_chars {s : Str} (hs : OneLine s) (hr : r.afterCr = false) :
    s.foldl read r = { r with line := r.line ++ s } := by
  induction s generalizing r with
  | nil => rw [List.foldl_nil, List.append_nil]
  | cons c s ih =>
    obtain ⟨hn, hcr⟩ := hs
    rw [List.mem_cons, not_or] at hn hcr
    have hread : r.read c = { r with line := r.line ++ [c] } := by
      rw [read, if_neg (Ne.symm hn.1), if_neg (Ne.symm hcr.1), hr]
    rw [List.foldl_cons, hread, ih (r := { r with line := r.line ++ [c] }) ⟨hn.2, hcr.2⟩ hr,
      List.append_assoc, List.singleton_append]

/-- A line and its end. -/
theorem read_line {s : Str} (hs : OneLine s) (hl : r.line = []) (hr : r.afterCr = false) :
    (s ++ [cp '\n']).foldl read r = { r with line := s }.endLine := by
  rw [List.foldl_append, read_chars hs hr, hl, List.nil_append, List.foldl_cons, List.foldl_nil,
    read, if_pos rfl, if_neg (by simp [hr])]

theorem endLine_field {name : Str} (hne : name ≠ []) (hname : cp ':' ∉ name) (hl : r.line = [])
    (value : Str) :
    { r with line := name ++ lit ": " ++ value }.endLine = r.field name value := by
  have hall : ∀ c ∈ name, decide (c ≠ cp ':') = true := fun c hc =>
    decide_eq_true fun e => hname (e ▸ hc)
  have hline : name ++ lit ": " ++ value = name ++ cp ':' :: cp ' ' :: value := by
    rw [List.append_assoc]
    rfl
  have htake : (name ++ cp ':' :: cp ' ' :: value).takeWhile (· ≠ cp ':') = name := by
    rw [List.takeWhile_append_of_pos hall, List.takeWhile_cons_of_neg (by simp), List.append_nil]
  have hdrop : (name ++ cp ':' :: cp ' ' :: value).dropWhile (· ≠ cp ':') =
      cp ':' :: cp ' ' :: value := by
    rw [List.dropWhile_append_of_pos hall, List.dropWhile_cons_of_neg (by simp)]
  have hhead : (name ++ cp ':' :: cp ' ' :: value).head? ≠ some (cp ':') := by
    cases name with
    | nil => exact absurd rfl hne
    | cons c name =>
      intro h
      exact hname (Option.some.inj h ▸ List.mem_cons_self)
  have hclear : { r with line := [] } = r := by
    cases r
    cases hl
    rfl
  rw [endLine, hline]
  simp only [List.append_eq_nil_iff, hne, false_and, ↓reduceIte, hhead, htake, hdrop, hclear,
    fieldValue]

/-- A line `name: value`. -/
theorem read_field {name : String} {value : Str} (hn : (lit name).all (fun c => c ≠ cp ':' &&
      c ≠ cp '\n' && c ≠ cp '\r') = true) (hne : lit name ≠ []) (hv : OneLine value)
    (hl : r.line = []) (hr : r.afterCr = false) :
    (lit name ++ lit ": " ++ value ++ [cp '\n']).foldl read r = r.field (lit name) value := by
  have hplain : ∀ c ∈ lit name, c ≠ cp ':' ∧ c ≠ cp '\n' ∧ c ≠ cp '\r' := fun c hc => by
    simpa [and_assoc] using List.all_eq_true.mp hn c hc
  have hsep : OneLine (lit ": ") := by unfold OneLine; decide
  have hline : OneLine (lit name ++ lit ": " ++ value) := by
    unfold OneLine at hsep hv ⊢
    simp only [List.mem_append, not_or]
    exact ⟨⟨⟨fun h => (hplain _ h).2.1 rfl, hsep.1⟩, hv.1⟩,
      ⟨⟨fun h => (hplain _ h).2.2 rfl, hsep.2⟩, hv.2⟩⟩
  rw [read_line hline hl hr, endLine_field hne (fun h => (hplain _ h).1 rfl) hl]

/-- A comment line. -/
theorem read_comment {s : Str} (hs : OneLine s) (hl : r.line = []) (hr : r.afterCr = false) :
    (cp ':' :: s ++ [cp '\n']).foldl read r = r := by
  have hline : OneLine (cp ':' :: s) := by
    refine ⟨fun h => ?_, fun h => ?_⟩
    · exact (List.mem_cons.mp h).elim (by decide) hs.1
    · exact (List.mem_cons.mp h).elim (by decide) hs.2
  rw [read_line hline hl hr]
  cases r
  cases hl
  rfl

/-- An empty line. -/
theorem read_empty (hl : r.line = []) (hr : r.afterCr = false) : r.read (cp '\n') = r.dispatch := by
  rw [read, if_pos rfl, if_neg (by simp [hr]), endLine, if_pos hl]
  cases r
  cases hl
  rfl

end Reader

/-! ## Blocks -/

/-- What a server sends at a time. -/
inductive Block where
  | event (e : Event)
  | comment (text : Str)

namespace Block

def text : Block → Str
  | event e => (lit "id" ++ lit ": " ++ e.lastEventId ++ [cp '\n']) ++
      ((lit "event" ++ lit ": " ++ e.type ++ [cp '\n']) ++
        ((lit "data" ++ lit ": " ++ e.data ++ [cp '\n']) ++ [cp '\n']))
  | comment text => (cp ':' :: text ++ [cp '\n']) ++ [cp '\n']

def event? : Block → Option Event
  | event e => some e
  | comment _ => none

/-- The texts of the block fit in their lines. -/
def Ok : Block → Prop
  | event e => OneLine e.lastEventId ∧ point 0 ∉ e.lastEventId ∧ OneLine e.type ∧ e.type ≠ [] ∧
      OneLine e.data
  | comment text => OneLine text

end Block

namespace Reader

/-- A block dispatches its event. -/
theorem read_block {r : Reader} (hr : r.Clean) {b : Block} (hb : b.Ok) :
    (b.text.foldl read r).Clean ∧ (b.text.foldl read r).events = r.events ++ b.event?.toList := by
  obtain ⟨hl, hcr, hd, ht⟩ := hr
  cases b with
  | event e =>
    obtain ⟨hid, hnul, htype, htne, hdata⟩ := hb
    have h₁ : (lit "id" ++ lit ": " ++ e.lastEventId ++ [cp '\n']).foldl read r =
        { r with idBuffer := e.lastEventId } := by
      rw [read_field (by decide) (by decide) hid hl hcr]
      exact if_neg (mt List.contains_iff_mem.mp hnul)
    have h₂ : ∀ r : Reader, r.line = [] → r.afterCr = false →
        (lit "event" ++ lit ": " ++ e.type ++ [cp '\n']).foldl read r =
          { r with typeBuffer := e.type } := fun r hl hcr => by
      rw [read_field (by decide) (by decide) htype hl hcr]
      rfl
    have h₃ : ∀ r : Reader, r.line = [] → r.afterCr = false →
        (lit "data" ++ lit ": " ++ e.data ++ [cp '\n']).foldl read r =
          { r with dataBuffer := r.dataBuffer ++ e.data ++ [cp '\n'] } := fun r hl hcr => by
      rw [read_field (by decide) (by decide) hdata hl hcr]
      rfl
    have h₄ : ∀ r : Reader, r.line = [] → r.afterCr = false → [cp '\n'].foldl read r = r.dispatch :=
      fun r hl hcr => read_empty hl hcr
    rw [Block.text, List.foldl_append, h₁, List.foldl_append,
      h₂ { r with idBuffer := e.lastEventId } hl hcr, List.foldl_append,
      h₃ { r with idBuffer := e.lastEventId, typeBuffer := e.type } hl hcr,
      h₄ { r with idBuffer := e.lastEventId, typeBuffer := e.type, dataBuffer := _ } hl hcr,
      dispatch, if_neg (by simp)]
    refine ⟨⟨hl, hcr, rfl, rfl⟩, ?_⟩
    simp only [htne, ↓reduceIte, hd, List.nil_append, List.dropLast_concat]
    rfl
  | comment text =>
    rw [Block.text, List.foldl_append, read_comment hb hl hcr, List.foldl_cons, List.foldl_nil,
      read_empty hl hcr, dispatch, if_pos hd]
    exact ⟨⟨hl, hcr, hd, rfl⟩, (List.append_nil _).symm⟩

theorem read_blocks {r : Reader} (hr : r.Clean) {bs : List Block} (hb : ∀ b ∈ bs, b.Ok) :
    ((bs.flatMap Block.text).foldl read r).events = r.events ++ bs.filterMap Block.event? := by
  induction bs generalizing r with
  | nil => rw [List.flatMap_nil, List.foldl_nil, List.filterMap_nil, List.append_nil]
  | cons b bs ih =>
    obtain ⟨hb, hbs⟩ := List.forall_mem_cons.mp hb
    obtain ⟨hclean, hevents⟩ := read_block hr hb
    rw [List.flatMap_cons, List.foldl_append, ih hclean hbs, hevents, List.append_assoc]
    cases b <;> rfl

/-- What has been dispatched stays. -/
theorem events_prefix (s : Str) (r : Reader) : r.events <+: (s.foldl read r).events := by
  have hdispatch : ∀ r : Reader, r.events <+: r.dispatch.events := by
    intro r
    unfold dispatch
    split
    · exact List.prefix_rfl
    · exact List.prefix_append _ _
  have hfield : ∀ (r : Reader) name value, (r.field name value).events = r.events := by
    intro r name value
    unfold field
    repeat' split
    all_goals rfl
  have hend : ∀ r : Reader, r.events <+: r.endLine.events := by
    intro r
    simp only [endLine]
    split
    · exact hdispatch { r with line := [] }
    split
    · exact List.prefix_rfl
    · exact (hfield _ _ _).symm ▸ List.prefix_rfl
  have hread : ∀ (r : Reader) c, r.events <+: (r.read c).events := by
    intro r c
    unfold read
    split
    · split
      · exact List.prefix_rfl
      · exact hend r
    split
    · exact hend r
    · exact List.prefix_rfl
  induction s generalizing r with
  | nil => exact List.prefix_rfl
  | cons c s ih => exact (hread r c).trans (ih _)

end Reader

theorem dropBom_eq {s : Str} {c : CodePoint} (h : s.head? = some c) (hc : c ≠ point 0xFEFF) :
    dropBom s = s := by
  cases s with
  | nil => rfl
  | cons d s =>
    cases h
    rw [dropBom, if_neg hc]

/-- A client dispatches the events that it is sent. -/
theorem parse_blocks {bs : List Block} (hb : ∀ b ∈ bs, b.Ok) :
    parse (bs.flatMap Block.text) = bs.filterMap Block.event? := by
  have hbom : dropBom (bs.flatMap Block.text) = bs.flatMap Block.text := by
    cases bs with
    | nil => rfl
    | cons b bs =>
      cases b with
      | event e => exact dropBom_eq (c := cp 'i') rfl (by decide)
      | comment text => exact dropBom_eq (c := cp ':') rfl (by decide)
  rw [parse, hbom, Reader.read_blocks ⟨rfl, rfl, rfl, rfl⟩ hb]
  rfl

/-- From a part of a stream it dispatches some of the first events. -/
theorem parse_prefix {s t : Str} (h : s <+: t) : parse s <+: parse t := by
  obtain ⟨u, rfl⟩ := h
  cases s with
  | nil => exact List.nil_prefix
  | cons c s =>
    have hbom : dropBom (c :: s ++ u) = dropBom (c :: s) ++ u := by
      rw [List.cons_append, dropBom, dropBom]
      split <;> rfl
    rw [parse, parse, hbom, List.foldl_append]
    exact Reader.events_prefix u _

end Sse
