import Music3.Lib.Riff

/-!
# The WAV reader of the page

`parseWavPcm` reads through a `DataView`, which throws outside its buffer, and returns an
`Int16Array` over the buffer, whose constructor throws for an odd offset or a view that is too long.

`parse_exact`: on every buffer it returns, and then with `null` or a view of the buffer itself; on
every file of word-aligned chunks with one PCM-16 format and one data chunk, in any order among any
others (`PcmFile`), with that rate, those channels and those samples.

The loop of the source is `scanChunks`: `scanChunks_ok` is what it keeps on every buffer, and
`scanChunks_file` what it has found at the end of a list of chunks.
-/

namespace Music3

open Riff

/-- A `RangeError`. -/
inductive JsError where
  | range

/-! ## Reads and views -/

section
variable (buf : Bytes)

/-- `view.getUint16(off, littleEndian)` and `view.getUint32(…)`, for `k` bytes. -/
def getUint (k off : Nat) (littleEndian : Bool) : Except JsError Nat :=
  if off + k ≤ buf.length then
    .ok (leVal (if littleEndian then wordAt buf off k else (wordAt buf off k).reverse))
  else .error .range

end

/-- The samples of little-endian bytes. -/
def samplesOf : Bytes → List Int16
  | a :: b :: r => (UInt16.ofNat (leVal [a, b])).toInt16 :: samplesOf r
  | _ => []

/-- An `Int16Array` over a part of a buffer. -/
structure Int16Array where
  buffer : Bytes
  byteOffset : Nat
  length : Nat
  aligned : byteOffset % 2 = 0
  inside : byteOffset + 2 * length ≤ buffer.length

namespace Int16Array

/-- `new Int16Array(buffer, byteOffset, length)`. -/
def new (buffer : Bytes) (byteOffset length : Nat) : Except JsError Int16Array :=
  if h : byteOffset % 2 = 0 ∧ byteOffset + 2 * length ≤ buffer.length then
    .ok ⟨buffer, byteOffset, length, h.1, h.2⟩
  else .error .range

/-- `new Int16Array(buffer)`. -/
def ofBuffer (buffer : Bytes) : Except JsError Int16Array :=
  if buffer.length % 2 = 0 then new buffer 0 (buffer.length / 2) else .error .range

/-- The samples of the view. -/
def values (a : Int16Array) : List Int16 := samplesOf (wordAt a.buffer a.byteOffset (2 * a.length))

end Int16Array

/-! ## The reader -/

structure WavFmt where
  audioFormat : Nat
  channels : Nat
  sampleRate : Nat
  bitsPerSample : Nat

/-- The variables of the loop; `dataOff` is `-1` at first. -/
structure Scan where
  fmt : Option WavFmt := none
  dataOff : Option Nat := none
  dataLen : Nat := 0

/-- What `parseWavPcm` returns. -/
structure WavPcm where
  sampleRate : Nat
  channels : Nat
  sampleCount : Nat
  samples : Int16Array

/-- The branches for a chunk with this id and size, whose body starts at `body`. -/
def scanChunk (buf : Bytes) (id size body : Nat) (s : Scan) : Except JsError Scan :=
  if id = 0x666d7420 ∧ body + 16 ≤ buf.length then do
    let audioFormat ← getUint buf 2 body true
    let channels ← getUint buf 2 (body + 2) true
    let sampleRate ← getUint buf 4 (body + 4) true
    let bitsPerSample ← getUint buf 2 (body + 14) true
    return { s with fmt := some ⟨audioFormat, channels, sampleRate, bitsPerSample⟩ }
  else if id = 0x64617461 then
    return { s with dataOff := some body, dataLen := min size (buf.length - body) }
  else return s

/-- The loop over the chunks, from `off` on. -/
def scanChunks (buf : Bytes) (off : Nat) (s : Scan) : Except JsError Scan :=
  if off + 8 ≤ buf.length then do
    let id ← getUint buf 4 off false
    let size ← getUint buf 4 (off + 4) true
    let body := off + 8
    let s ← scanChunk buf id size body s
    scanChunks buf (body + size + size % 2) s
  else return s
termination_by buf.length - off

/-- The statements after the loop. -/
def wavPcmOf (buf : Bytes) (s : Scan) : Except JsError (Option WavPcm) :=
  match s.fmt, s.dataOff with
  | some fmt, some dataOff =>
    if fmt.audioFormat ≠ 1 ∨ fmt.bitsPerSample ≠ 16 ∨ s.dataLen = 0 then return none
    else do
      let channels := if 0 < fmt.channels then fmt.channels else 1
      let sampleLen := s.dataLen / 2
      let samples ← if dataOff % 2 = 0 then Int16Array.new buf dataOff sampleLen
        else Int16Array.ofBuffer (wordAt buf dataOff (sampleLen * 2))
      return some ⟨fmt.sampleRate, channels, sampleLen / channels, samples⟩
  | _, _ => return none

/-- `parseWavPcm` of a buffer. -/
def parseWavPcm (buf : Bytes) : Except JsError (Option WavPcm) :=
  if buf.length < 44 then return none
  else do
    let riff ← getUint buf 4 0 false
    if riff ≠ 0x52494646 then return none
    let wave ← getUint buf 4 8 false
    if wave ≠ 0x57415645 then return none
    let s ← scanChunks buf 12 {}
    wavPcmOf buf s

/-! ## Every buffer -/

/-- What the loop keeps: the data that it has found starts at an even offset and is in the buffer. -/
def Scan.Ok (buf : Bytes) (s : Scan) : Prop :=
  ∀ off, s.dataOff = some off → off % 2 = 0 ∧ off + s.dataLen ≤ buf.length

section
variable {buf : Bytes} {off k id size body : Nat} {s : Scan}

theorem getUint_ok (h : off + k ≤ buf.length) (littleEndian : Bool) :
    getUint buf k off littleEndian =
      .ok (leVal (if littleEndian then wordAt buf off k else (wordAt buf off k).reverse)) :=
  if_pos h

variable (id size) in
theorem scanChunk_ok (heven : body % 2 = 0) (hin : body ≤ buf.length) (hs : s.Ok buf) :
    ∃ s', scanChunk buf id size body s = .ok s' ∧ s'.Ok buf := by
  unfold scanChunk
  split
  · rename_i h
    simp only [getUint_ok (show body + 2 ≤ buf.length by omega),
      getUint_ok (show body + 2 + 2 ≤ buf.length by omega),
      getUint_ok (show body + 4 + 4 ≤ buf.length by omega),
      getUint_ok (show body + 14 + 2 ≤ buf.length by omega), bind, Except.bind, pure, Except.pure]
    exact ⟨_, rfl, hs⟩
  split
  · refine ⟨_, rfl, fun off h => ?_⟩
    cases h
    exact ⟨heven, by simp only; omega⟩
  · exact ⟨s, rfl, hs⟩

/-- One round of the loop. -/
theorem scanChunks_next (h : off + 8 ≤ buf.length) {s' : Scan}
    (hid : id = leVal (wordAt buf off 4).reverse) (hsize : size = leVal (wordAt buf (off + 4) 4))
    (hs : scanChunk buf id size (off + 8) s = .ok s') :
    scanChunks buf off s = scanChunks buf (off + 8 + size + size % 2) s' := by
  subst hid hsize
  rw [scanChunks, if_pos h]
  simp only [getUint_ok (show off + 4 ≤ buf.length by omega),
    getUint_ok (show off + 4 + 4 ≤ buf.length by omega), bind, Except.bind, Bool.false_eq_true,
    ↓reduceIte] at hs ⊢
  rw [hs]

/-- The loop ends, without a throw. -/
theorem scanChunks_ok (heven : off % 2 = 0) (hs : s.Ok buf) :
    ∃ s', scanChunks buf off s = .ok s' ∧ s'.Ok buf := by
  induction hk : buf.length - off using Nat.strongRecOn generalizing off s with
  | _ n ih =>
    by_cases h : off + 8 ≤ buf.length
    · obtain ⟨s₁, h₁, hs₁⟩ := scanChunk_ok (leVal (wordAt buf off 4).reverse)
        (leVal (wordAt buf (off + 4) 4)) (show (off + 8) % 2 = 0 by omega) h hs
      rw [scanChunks_next h rfl rfl h₁]
      exact ih _ (by omega) (by omega) hs₁ rfl
    · rw [scanChunks, if_neg h]
      exact ⟨s, rfl, hs⟩

theorem wavPcmOf_ok (hs : s.Ok buf) :
    ∃ r, wavPcmOf buf s = .ok r ∧ ∀ pcm, r = some pcm → pcm.samples.buffer = buf := by
  unfold wavPcmOf
  split
  · rename_i fmt dataOff _ hoff
    obtain ⟨heven, hin⟩ := hs _ hoff
    split
    · exact ⟨none, rfl, nofun⟩
    have hnew : Int16Array.new buf dataOff (s.dataLen / 2) =
        .ok ⟨buf, dataOff, s.dataLen / 2, heven, by omega⟩ := dif_pos ⟨heven, by omega⟩
    simp only [hnew, bind, Except.bind, pure, Except.pure]
    exact ⟨_, rfl, fun pcm h => by cases h; rfl⟩
  · exact ⟨none, rfl, nofun⟩

/-- `parseWavPcm` returns, and then with `null` or a view of the buffer. -/
theorem parseWavPcm_ok (buf : Bytes) :
    ∃ r, parseWavPcm buf = .ok r ∧ ∀ pcm, r = some pcm → pcm.samples.buffer = buf := by
  unfold parseWavPcm
  split
  · exact ⟨none, rfl, nofun⟩
  obtain ⟨s, hscan, hs⟩ : ∃ s, scanChunks buf 12 {} = .ok s ∧ s.Ok buf := scanChunks_ok rfl nofun
  simp only [getUint_ok (show 0 + 4 ≤ buf.length by omega),
    getUint_ok (show 8 + 4 ≤ buf.length by omega), hscan, bind, Except.bind, pure, Except.pure,
    Bool.false_eq_true, ↓reduceIte]
  split
  · exact ⟨none, rfl, nofun⟩
  split
  · exact ⟨none, rfl, nofun⟩
  · exact wavPcmOf_ok hs

end

/-! ## Files -/

def riffId : Bytes := [82, 73, 70, 70]
def waveId : Bytes := [87, 65, 86, 69]
def fmtId : Bytes := [102, 109, 116, 32]
def dataId : Bytes := [100, 97, 116, 97]

/-- The body of a PCM-16 format. The rates and sizes in `middle` are not read. -/
structure IsFmt (c : Chunk) (channels : UInt16) (rate : UInt32) : Prop where
  id : c.id = fmtId
  body : ∃ middle extra : Bytes, middle.length = 6 ∧ c.body =
    leBytes 2 1 ++ (leBytes 2 channels.toNat ++ (leBytes 4 rate.toNat ++
      (middle ++ (leBytes 2 16 ++ extra))))

/-- A chunk that holds these samples. -/
structure IsData (c : Chunk) (samples : List Int16) : Prop where
  id : c.id = dataId
  body : c.body = samples.flatMap fun s => leBytes 2 s.toUInt16.toNat

/-- The chunks of a PCM-16 file: a format, data, and others, in any order. -/
structure PcmFile (chunks : List Chunk) (channels : UInt16) (rate : UInt32) (samples : List Int16) :
    Prop where
  chunks : ∃ fmt data others, IsFmt fmt channels rate ∧ IsData data samples ∧
    (∀ c ∈ others, c.id ≠ fmtId ∧ c.id ≠ dataId) ∧ chunks.Perm (fmt :: data :: others)
  one_le : 1 ≤ channels.toNat
  nonempty : samples ≠ []

theorem samplesOf_word (s : Int16) (r : Bytes) :
    samplesOf (leBytes 2 s.toUInt16.toNat ++ r) = s :: samplesOf r := by
  have hs : leVal (leBytes 2 s.toUInt16.toNat) = s.toUInt16.toNat :=
    leVal_leBytes s.toUInt16.toNat_lt
  show (UInt16.ofNat (leVal (leBytes 2 s.toUInt16.toNat))).toInt16 :: samplesOf r = _
  rw [hs, UInt16.ofNat_toNat, Int16.toInt16_toUInt16]

theorem samplesOf_flatMap (samples : List Int16) :
    samplesOf (samples.flatMap fun s => leBytes 2 s.toUInt16.toNat) = samples := by
  induction samples with
  | nil => rfl
  | cons s samples ih => rw [List.flatMap_cons, samplesOf_word, ih]

/-! ## What the loop finds -/

/-- What a chunk at `off` adds to the variables of the loop. -/
def Scan.see (off : Nat) (c : Chunk) (s : Scan) : Scan :=
  if c.id = fmtId then { s with fmt := some ⟨leVal (wordAt c.body 0 2), leVal (wordAt c.body 2 2),
    leVal (wordAt c.body 4 4), leVal (wordAt c.body 14 2)⟩ }
  else if c.id = dataId then { s with dataOff := some (off + 8), dataLen := c.body.length }
  else s

/-- What the chunks from `off` on add. -/
def Scan.seeAll (off : Nat) (s : Scan) : List Chunk → Scan
  | [] => s
  | c :: cs => (s.see off c).seeAll (off + c.bytes.length) cs

/-- An id, as it is compared. -/
theorem beVal_eq {id id' : Bytes} (h : id.length = 4) (h' : id'.length = 4) :
    leVal id.reverse = leVal id'.reverse ↔ id = id' := by
  constructor
  · exact fun e => List.reverse_injective (leVal_inj (by simp [h, h']) e)
  · exact fun e => by rw [e]

/-- The branches for a chunk of a file. -/
theorem scanChunk_file {pre post : Bytes} {c : Chunk} (s : Scan)
    (hc : c.id = fmtId → 16 ≤ c.body.length) :
    scanChunk (pre ++ (c.bytes ++ post)) (leVal c.id.reverse) c.body.length (pre.length + 8) s =
      .ok (s.see pre.length c) := by
  have hbuf : pre ++ (c.bytes ++ post) =
      (pre ++ c.id ++ leBytes 4 c.body.length) ++ (c.body ++ (c.padding ++ post)) := by
    simp only [Chunk.bytes, List.append_assoc]
  have hpre : (pre ++ c.id ++ leBytes 4 c.body.length).length = pre.length + 8 := by
    simp only [List.length_append, c.id_length, length_leBytes]
  rw [hbuf]
  generalize pre ++ c.id ++ leBytes 4 c.body.length = before at hpre
  have hlen : (before ++ (c.body ++ (c.padding ++ post))).length =
      pre.length + 8 + (c.body.length + (c.padding.length + post.length)) := by
    simp only [List.length_append, hpre]
  have hfmt : leVal c.id.reverse = 0x666d7420 ↔ c.id = fmtId :=
    show _ = leVal fmtId.reverse ↔ _ from beVal_eq c.id_length rfl
  have hdata : leVal c.id.reverse = 0x64617461 ↔ c.id = dataId :=
    show _ = leVal dataId.reverse ↔ _ from beVal_eq c.id_length rfl
  unfold scanChunk Scan.see
  by_cases hf : c.id = fmtId
  · have h16 := hc hf
    have hread : ∀ j k, j + k ≤ 16 → getUint (before ++ (c.body ++ (c.padding ++ post))) k
        (pre.length + 8 + j) true = .ok (leVal (wordAt c.body j k)) := by
      intro j k hjk
      rw [getUint_ok (by omega), if_pos rfl, wordAt_inside (j := j) (by omega) (by omega)]
    rw [if_pos ⟨hfmt.mpr hf, by omega⟩, if_pos hf]
    have h₀ := hread 0 2 (by decide)
    rw [Nat.add_zero] at h₀
    simp only [h₀, hread 2 2 (by decide), hread 4 4 (by decide), hread 14 2 (by decide), bind,
      Except.bind, pure, Except.pure]
  · rw [if_neg fun h => hf (hfmt.mp h.1), if_neg hf]
    by_cases hd : c.id = dataId
    · rw [if_pos (hdata.mpr hd), if_pos hd, hlen]
      simp only [pure, Except.pure, Except.ok.injEq, Scan.mk.injEq, true_and]
      omega
    · rw [if_neg fun h => hd (hdata.mp h), if_neg hd]
      rfl

/-- The loop over a list of chunks. -/
theorem scanChunks_file {chunks : List Chunk}
    (hfmt : ∀ c ∈ chunks, c.id = fmtId → 16 ≤ c.body.length)
    (pre : Bytes) (s : Scan) :
    scanChunks (pre ++ chunks.flatMap Chunk.bytes) pre.length s =
      .ok (s.seeAll pre.length chunks) := by
  induction chunks generalizing pre s with
  | nil =>
    rw [List.flatMap_nil, List.append_nil, scanChunks, if_neg (by omega)]
    rfl
  | cons c chunks ih =>
    obtain ⟨hc, hchunks⟩ := List.forall_mem_cons.mp hfmt
    have hl := c.length_bytes
    have hnext := ih hchunks (pre ++ c.bytes) (s.see pre.length c)
    rw [List.length_append, hl, List.append_assoc] at hnext
    rw [List.flatMap_cons]
    generalize chunks.flatMap Chunk.bytes = post at hnext
    have hid : wordAt (pre ++ (c.bytes ++ post)) pre.length 4 = c.id := by
      rw [Chunk.bytes, List.append_assoc]
      exact wordAt_append rfl c.id_length.symm
    have hsize : leVal (wordAt (pre ++ (c.bytes ++ post)) (pre.length + 4) 4) = c.body.length := by
      rw [Chunk.bytes, List.append_assoc, List.append_assoc, ← List.append_assoc pre c.id,
        wordAt_append (by rw [List.length_append, c.id_length]) (length_leBytes ..).symm]
      exact leVal_leBytes c.body_lt
    have hin : pre.length + 8 ≤ (pre ++ (c.bytes ++ post)).length := by
      simp only [List.length_append]
      omega
    rw [scanChunks_next hin (by rw [hid]) hsize.symm (scanChunk_file s hc), Scan.seeAll, hl]
    refine Eq.trans (congrArg (scanChunks _ · _) ?_) (hnext.trans (congrArg _ ?_))
    · omega
    · rfl

section
variable {off : Nat} {s : Scan} {cs ds : List Chunk}

theorem seeAll_append : s.seeAll off (cs ++ ds) =
    (s.seeAll off cs).seeAll (off + (cs.flatMap Chunk.bytes).length) ds := by
  induction cs generalizing off s with
  | nil => rfl
  | cons c cs ih =>
    rw [List.cons_append, Scan.seeAll, ih, Scan.seeAll, List.flatMap_cons, List.length_append,
      Nat.add_assoc]

theorem seeAll_fmt (h : ∀ c ∈ cs, c.id ≠ fmtId) : (s.seeAll off cs).fmt = s.fmt := by
  induction cs generalizing off s with
  | nil => rfl
  | cons c cs ih =>
    obtain ⟨hc, hcs⟩ := List.forall_mem_cons.mp h
    rw [Scan.seeAll, ih hcs, Scan.see, if_neg hc]
    split <;> rfl

theorem seeAll_data (h : ∀ c ∈ cs, c.id ≠ dataId) :
    (s.seeAll off cs).dataOff = s.dataOff ∧ (s.seeAll off cs).dataLen = s.dataLen := by
  induction cs generalizing off s with
  | nil => exact ⟨rfl, rfl⟩
  | cons c cs ih =>
    obtain ⟨hc, hcs⟩ := List.forall_mem_cons.mp h
    rw [Scan.seeAll, (ih hcs).1, (ih hcs).2, Scan.see]
    split <;> exact ⟨rfl, rfl⟩

end

/-- A member of a list, up to order. -/
theorem split_of_perm {c : Chunk} {cs ds : List Chunk} (h : cs.Perm (c :: ds)) :
    ∃ xs ys, cs = xs ++ c :: ys ∧ (xs ++ ys).Perm ds := by
  obtain ⟨xs, ys, rfl⟩ := List.append_of_mem (h.mem_iff.mpr List.mem_cons_self)
  exact ⟨xs, ys, rfl, (List.perm_middle.symm.trans h).cons_inv⟩

section
variable {chunks : List Chunk} {channels : UInt16} {rate : UInt32} {samples : List Int16}
  {c : Chunk}

/-- The fields of the format. -/
theorem IsFmt.see (h : IsFmt c channels rate) (off : Nat) (s : Scan) :
    (s.see off c).fmt = some ⟨1, channels.toNat, rate.toNat, 16⟩ ∧ 16 ≤ c.body.length := by
  obtain ⟨middle, extra, hm, hb⟩ := h.body
  have h₀ : leVal (wordAt c.body 0 2) = 1 := by
    rw [hb]
    rfl
  have h₂ : leVal (wordAt c.body 2 2) = channels.toNat := by
    rw [hb, wordAt_append (by simp) (length_leBytes ..).symm]
    exact leVal_leBytes channels.toNat_lt
  have h₄ : leVal (wordAt c.body 4 4) = rate.toNat := by
    rw [hb, ← List.append_assoc, wordAt_append (by simp) (length_leBytes ..).symm]
    exact leVal_leBytes rate.toNat_lt
  have h₁₄ : leVal (wordAt c.body 14 2) = 16 := by
    rw [hb, ← List.append_assoc, ← List.append_assoc, ← List.append_assoc,
      wordAt_append (by simp [hm]) (length_leBytes ..).symm]
    rfl
  refine ⟨?_, ?_⟩
  · rw [Scan.see, if_pos h.id, h₀, h₂, h₄, h₁₄]
  · rw [hb]
    simp [hm]
    omega

theorem IsData.length (h : IsData c samples) : c.body.length = 2 * samples.length := by
  rw [h.body, List.length_flatMap]
  simp
  omega

/-- What the loop has found at the end of a file. -/
theorem PcmFile.seeAll (h : PcmFile chunks channels rate samples) (off : Nat) :
    ∃ xs d ys, chunks = xs ++ d :: ys ∧ IsData d samples ∧
      Scan.seeAll off {} chunks = ⟨some ⟨1, channels.toNat, rate.toNat, 16⟩,
        some (off + (xs.flatMap Chunk.bytes).length + 8), 2 * samples.length⟩ := by
  obtain ⟨f, d, others, hf, hd, hothers, hperm⟩ := h.chunks
  obtain ⟨xs, ys, hxs, hrest⟩ := split_of_perm hperm
  obtain ⟨xs', ys', hxs', hrest'⟩ := split_of_perm (hperm.trans (List.Perm.swap d f others))
  have hfmtne : fmtId ≠ dataId := by decide
  have hnofmt : ∀ c ∈ xs ++ ys, c.id ≠ fmtId := fun c hc => by
    rcases List.mem_cons.mp (hrest.mem_iff.mp hc) with rfl | hc
    · rw [hd.id]
      exact hfmtne.symm
    · exact (hothers c hc).1
  have hnodata : ∀ c ∈ xs' ++ ys', c.id ≠ dataId := fun c hc => by
    rcases List.mem_cons.mp (hrest'.mem_iff.mp hc) with rfl | hc
    · rw [hf.id]
      exact hfmtne
    · exact (hothers c hc).2
  rw [List.forall_mem_append] at hnofmt hnodata
  refine ⟨xs', d, ys', hxs', hd, ?_⟩
  have hfmt : (Scan.seeAll off {} chunks).fmt = some ⟨1, channels.toNat, rate.toNat, 16⟩ := by
    rw [hxs, seeAll_append, Scan.seeAll, seeAll_fmt hnofmt.2, (hf.see _ _).1]
  have hdata : (Scan.seeAll off {} chunks).dataOff =
      some (off + (xs'.flatMap Chunk.bytes).length + 8) ∧
        (Scan.seeAll off {} chunks).dataLen = 2 * samples.length := by
    have hne : d.id ≠ fmtId := hd.id ▸ hfmtne.symm
    rw [hxs', seeAll_append, Scan.seeAll, (seeAll_data hnodata.2).1, (seeAll_data hnodata.2).2,
      Scan.see, if_neg hne, if_pos hd.id, hd.length]
    exact ⟨rfl, rfl⟩
  generalize Scan.seeAll off {} chunks = s at hfmt hdata
  cases s
  cases hfmt
  cases hdata.1
  cases hdata.2
  rfl

theorem PcmFile.length (h : PcmFile chunks channels rate samples) :
    34 ≤ (chunks.flatMap Chunk.bytes).length := by
  obtain ⟨f, d, others, hf, hd, -, hperm⟩ := h.chunks
  have hl := (hperm.flatMap_right Chunk.bytes).length_eq
  have h₁ := (hf.see 0 {}).2
  have h₂ := hd.length
  have h₃ := List.length_pos_iff.mpr h.nonempty
  simp only [List.flatMap_cons, List.length_append, Chunk.length_bytes] at hl
  omega

theorem PcmFile.fmt_length (h : PcmFile chunks channels rate samples) :
    ∀ c ∈ chunks, c.id = fmtId → 16 ≤ c.body.length := by
  obtain ⟨f, d, others, hf, hd, hothers, hperm⟩ := h.chunks
  intro c hc hid
  rcases List.mem_cons.mp (hperm.mem_iff.mp hc) with rfl | hc
  · exact (hf.see 0 {}).2
  rcases List.mem_cons.mp hc with rfl | hc
  · exact absurd (hd.id.symm.trans hid) (by decide)
  · exact absurd hid (hothers c hc).1

/-- The checks before the loop, on a file with both names. -/
theorem parseWavPcm_scan {buf : Bytes} {s : Scan} (hlen : 44 ≤ buf.length)
    (hriff : wordAt buf 0 4 = riffId) (hwave : wordAt buf 8 4 = waveId)
    (hscan : scanChunks buf 12 {} = .ok s) : parseWavPcm buf = wavPcmOf buf s := by
  unfold parseWavPcm
  rw [if_neg (by omega)]
  simp only [getUint_ok (show 0 + 4 ≤ buf.length by omega), getUint_ok
    (show 8 + 4 ≤ buf.length by omega), hscan, hriff, hwave, bind, Except.bind, pure, Except.pure]
  rfl

/-- The statements after the loop, for PCM-16 samples at an even offset inside the buffer. -/
theorem wavPcmOf_pcm {buf : Bytes} {dataOff rate channels n : Nat} (heven : dataOff % 2 = 0)
    (hin : dataOff + 2 * n ≤ buf.length) (hn : 0 < n) (hone : 1 ≤ channels) :
    wavPcmOf buf ⟨some ⟨1, channels, rate, 16⟩, some dataOff, 2 * n⟩ =
      .ok (some ⟨rate, channels, n / channels, ⟨buf, dataOff, n, heven, hin⟩⟩) := by
  have hdiv : 2 * n / 2 = n := by omega
  have hnew : Int16Array.new buf dataOff n = .ok ⟨buf, dataOff, n, heven, hin⟩ :=
    dif_pos ⟨heven, hin⟩
  have hne : ¬ (1 ≠ 1 ∨ 16 ≠ 16 ∨ 2 * n = 0) := by omega
  simp only [wavPcmOf, if_neg hne, hdiv, heven, ↓reduceIte, hnew, if_pos (show 0 < channels by omega),
    bind, Except.bind, pure, Except.pure]

/-- The reader on a file. -/
theorem PcmFile.parse (h : PcmFile chunks channels rate samples) {size : Bytes}
    (hsize : size.length = 4) :
    ∃ pcm, parseWavPcm (file riffId size waveId chunks) = .ok (some pcm) ∧
      pcm.sampleRate = rate.toNat ∧ pcm.channels = channels.toNat ∧ pcm.samples.values = samples ∧
      pcm.sampleCount = samples.length / channels.toNat := by
  obtain ⟨xs, d, ys, hchunks, hd, hall⟩ := h.seeAll 12
  have hlen := h.length
  have hone := h.one_le
  have hk := List.length_pos_iff.mpr h.nonempty
  have hhead : (riffId ++ (size ++ waveId)).length = 12 := by
    simp only [List.length_append, hsize]
    rfl
  have hfile : file riffId size waveId chunks =
      riffId ++ (size ++ waveId) ++ chunks.flatMap Chunk.bytes := by
    simp only [file, List.append_assoc]
  have hscan := scanChunks_file h.fmt_length (riffId ++ (size ++ waveId)) {}
  rw [hhead, hall, ← hfile] at hscan
  have hriff : wordAt (file riffId size waveId chunks) 0 4 = riffId := by
    rw [file, ← List.nil_append (riffId ++ _)]
    exact wordAt_append rfl rfl
  have hwave : wordAt (file riffId size waveId chunks) 8 4 = waveId := by
    rw [file, ← List.append_assoc]
    exact wordAt_append (by rw [List.length_append, hsize]; rfl) rfl
  have hbuf : (file riffId size waveId chunks).length = 12 + (chunks.flatMap Chunk.bytes).length := by
    rw [hfile, List.length_append, hhead]
  -- the data's body in the file
  have hbody : file riffId size waveId chunks = (riffId ++ (size ++ waveId) ++
      (xs.flatMap Chunk.bytes ++ (d.id ++ leBytes 4 d.body.length))) ++
        (d.body ++ (d.padding ++ ys.flatMap Chunk.bytes)) := by
    rw [hfile, hchunks]
    simp only [List.flatMap_append, List.flatMap_cons, Chunk.bytes, List.append_assoc]
  have hpre : (riffId ++ (size ++ waveId) ++ (xs.flatMap Chunk.bytes ++
      (d.id ++ leBytes 4 d.body.length))).length = 12 + (xs.flatMap Chunk.bytes).length + 8 := by
    rw [List.length_append, hhead]
    simp only [List.length_append, d.id_length, length_leBytes]
    omega
  have hvalues : wordAt (file riffId size waveId chunks)
      (12 + (xs.flatMap Chunk.bytes).length + 8) (2 * samples.length) = d.body := by
    rw [hbody, ← hpre]
    exact wordAt_append rfl hd.length.symm
  obtain ⟨s, hs, hok⟩ : ∃ s, scanChunks (file riffId size waveId chunks) 12 {} = .ok s ∧
      s.Ok (file riffId size waveId chunks) := scanChunks_ok rfl (fun _ h => by cases h)
  cases hscan.symm.trans hs
  obtain ⟨heven, hin⟩ := hok _ rfl
  generalize file riffId size waveId chunks = buf at *
  generalize 12 + (xs.flatMap Chunk.bytes).length + 8 = dataOff at *
  refine ⟨_, (parseWavPcm_scan (by omega) hriff hwave hscan).trans
    (wavPcmOf_pcm heven hin (by omega) hone), rfl, rfl, ?_, rfl⟩
  show samplesOf (wordAt buf dataOff (2 * samples.length)) = samples
  rw [hvalues, hd.body, samplesOf_flatMap]

end

/-! ## The result -/

/-- The reader is safe on every buffer, and exact on every PCM-16 file. -/
theorem parse_exact :
    (∀ buf, (∃ r, parseWavPcm buf = .ok r ∧ ∀ pcm, r = some pcm → pcm.samples.buffer = buf) ∧
      ∃ s, scanChunks buf 12 {} = .ok s ∧ s.Ok buf) ∧
    ∀ chunks channels rate samples, PcmFile chunks channels rate samples →
      ∀ size : Bytes, size.length = 4 →
        ∃ pcm, parseWavPcm (file riffId size waveId chunks) = .ok (some pcm) ∧
          pcm.sampleRate = rate.toNat ∧ pcm.channels = channels.toNat ∧
          pcm.samples.values = samples ∧ pcm.sampleCount = samples.length / channels.toNat :=
  ⟨fun buf => ⟨parseWavPcm_ok buf, scanChunks_ok rfl fun _ h => by cases h⟩,
    fun _ _ _ _ h _ hsize => h.parse hsize⟩

namespace Sample

/-- A chunk of odd size that the page does not know. -/
def listChunk : Chunk := ⟨[76, 73, 83, 84], [1, 2, 3], 0, rfl, by decide⟩

def dataChunk : Chunk :=
  ⟨dataId, [1, -2, 3].flatMap fun s : Int16 => leBytes 2 s.toUInt16.toNat, 0, rfl, by decide⟩

def fmtChunk : Chunk := ⟨fmtId, leBytes 2 1 ++ (leBytes 2 1 ++ (leBytes 4 8000 ++
  ([128, 62, 0, 0, 2, 0] ++ (leBytes 2 16 ++ [])))), 0, rfl, by decide⟩

end Sample

/-- The data before the format, after a chunk of odd size. -/
theorem parse_exact_reversed : ∃ pcm,
    parseWavPcm (file riffId [0, 0, 0, 0] waveId
      [Sample.listChunk, Sample.dataChunk, Sample.fmtChunk]) = .ok (some pcm) ∧
      pcm.sampleRate = 8000 ∧ pcm.channels = 1 ∧ pcm.samples.values = [1, -2, 3] ∧
      pcm.sampleCount = 3 := by
  refine parse_exact.2 [Sample.listChunk, Sample.dataChunk, Sample.fmtChunk] 1 8000 [1, -2, 3]
    ⟨⟨Sample.fmtChunk, Sample.dataChunk, [Sample.listChunk], ⟨rfl, _, _, rfl, rfl⟩, ⟨rfl, rfl⟩,
      by decide, ?_⟩, by decide, by decide⟩ [0, 0, 0, 0] rfl
  exact List.reverse_perm [Sample.fmtChunk, Sample.dataChunk, Sample.listChunk]

end Music3
