import Music3.Lib.Generator
import Music3.Routes.Delivery

/-!
# Streamed responses

The generators behind the streamed responses: `_stream_fd` of the member that `get_artifact` opens,
and `_hex_body` and `_file_body` of the temp file of a delivery. They own the descriptor, or the
temp file, from the moment the response is made.

`os.fdopen` of the descriptor of a regular file does not fail. What the reads of a temp file return
is given by `TempFile`, with an empty block at its end.

* `streamed_response_releases`: the descriptor is closed, and the temp file removed, exactly if
  somebody has asked for the first chunk and, for `_hex_body`, the envelope has a text.
-/

namespace Music3

open Py Posix StateExcept Generator

/-! ## `_stream_fd` -/

/-- How `get_artifact` answers. -/
inductive ArtifactAnswer where
  | notFound (detail : Str)
  | stream (fd : Fd) (mediaType : Str) (contentLength : Nat)

/-- `get_artifact`, up to the streaming. A crafted id is answered as a missing artifact. -/
def getArtifact (root : Option Str) (jobId name : Str) : FsM ArtifactAnswer := do
  match root with
  | none => return .notFound (lit "artifact not found")
  | some root =>
    match ← openOrNone root jobId name with
    | none => return .notFound (lit "artifact not found")
    | some (fd, size) =>
      return .stream fd
        (if name = audioName then lit "audio/wav" else lit "application/json") size

/-- `handle.read(_CHUNK)`, at an offset. -/
def readAt (fd : Fd) (offset : Nat) : FsM Bytes :=
  (fun content => (content.drop offset).take chunkBytes) <$> call (readAll fd)

/-- Once around the loop of `_stream_fd`. -/
def streamBlock (fd : Fd) (offset : Nat) : FsM (Halt Bytes Nat) :=
  (fun data => if data = [] then none else some (data, offset + data.length)) <$> readAt fd offset

/-- `_stream_fd`. It waits at its only `yield`, with the offset in the file. -/
def streamFd (fd : Fd) : Code Exc Sys Bytes Nat where
  start := within (call (close fd)) (streamBlock fd 0)
  resume offset := within (call (close fd)) (streamBlock fd offset)
  unwind _ s := { s with log := s.log ++ [.closed fd] }

/-! ## `_file_body` and `_hex_body` -/

/-- A temp file: whether `open` opens it, and what each `read` returns. -/
structure TempFile where
  path : Str
  opened : Except PostExc Unit
  reads : Nat → Except PostExc Bytes

namespace TempFile

variable (f : TempFile)

/-- The `finally` clause of both. -/
def unlinked (d : Desk) : Desk := { d with temps := d.temps.erase f.path }

/-- Once around the loop of `_file_body`. -/
def fileBlock (k : Nat) : MusicM (Halt Bytes Nat) :=
  (fun chunk => if chunk = [] then none else some (chunk, k + 1)) <$> ofExcept (f.reads k)

end TempFile

/-- `_file_body`. -/
def fileBodyCode (f : TempFile) : Code PostExc Desk Bytes Nat where
  start := within (safeUnlink f.path) do
    ofExcept f.opened
    f.fileBlock 0
  resume k := within (safeUnlink f.path) (f.fileBlock k)
  unwind _ := f.unlinked

/-- The `yield`s of `_hex_body`: of the text before the audio, of a block, of the text after it. -/
inductive HexPlace where
  | start (stop : Str)
  | block (stop : Str) (k : Nat)
  | stop

section
variable (P : Platform) (traceId : Str) (info : Dict)

/-- Once around the loop of `_hex_body`, or what follows it. -/
def TempFile.hexBlock (f : TempFile) (stop : Str) (k : Nat) :
    MusicM (Halt Bytes HexPlace) := do
  let chunk ← ofExcept (f.reads k)
  if chunk = [] then
    let last ← ofExcept ((encodeText stop).mapError .exc)
    return some (last, .stop)
  else return some (hexlify chunk, .block stop (k + 1))

/-- `_hex_body`. The envelope is made outside its `try`. -/
def hexBodyCode (f : TempFile) : Code PostExc Desk Bytes HexPlace where
  start := do
    let (start, stop) ← ofExcept ((hexTemplate P traceId info).mapError .exc)
    within (safeUnlink f.path) do
      let first ← ofExcept ((encodeText start).mapError .exc)
      return some (first, .start stop)
  resume
    | .start stop => within (safeUnlink f.path) do
      ofExcept f.opened
      f.hexBlock stop 0
    | .block stop k => within (safeUnlink f.path) (f.hexBlock stop k)
    | .stop => within (safeUnlink f.path) (pure none)
  unwind _ := f.unlinked

end

/-! ## What they hold -/

theorem streamBlock_hands (fd : Fd) (offset : Nat) :
    HandsOn id [] (streamBlock fd offset) nothing := by
  have hread : HandsOn id [] (readAt fd offset) nothing := (readAll_hands fd).map fun _ => rfl
  exact hread.map fun _ => rfl

/-- Wherever it waits, `_stream_fd` holds its descriptor. -/
theorem streamFd_clean {s t : Sys} {fd : Fd} (h : Ledger s t [] [fd]) :
    Cleans (streamFd fd) t (fun _ u => Ledger s u [] [fd]) fun u => Ledger s u [] [] := by
  have hblock : ∀ offset u, Ledger s u [] [fd] → Ends (fun _ v => Ledger s v [] [fd])
      (fun v => Ledger s v [] []) ((within (call (close fd)) (streamBlock fd offset)).run u) := by
    intro offset u hu
    have hend : ∀ v, Ledger s v [] [fd] → ∃ w, (call (close fd)).run v = .ok () w ∧
        Ledger s w [] [] := fun v hv => ⟨_, run_close fd v, hv.trans (close_ledger fd v)⟩
    refine within_ends ?_ hend
    obtain ⟨hok, herr⟩ := streamBlock_hands fd offset u u rfl
    cases hrun : (streamBlock fd offset).run u with
    | ok y v => cases y <;> exact hu.trans ((hok _ v hrun).frame [fd])
    | error e v => exact hu.trans ((herr e v hrun).frame [fd])
  exact ⟨hblock 0 t h, hblock, fun _ u hu => hu.trans (close_ledger fd u)⟩

/-- A descriptor that is handed on is open. -/
theorem not_closedOnce_of_held {s t : Sys} {fd : Fd} (h : Ledger s t [] [fd]) :
    ¬ ClosedOnce s t [] := by
  rintro ⟨new, hlog, -, hp⟩
  obtain ⟨new', hlog', -, hp'⟩ := h.closedOnce
  obtain rfl := List.append_cancel_left (hlog.symm.trans hlog')
  have h₁ := hp.length_eq
  have h₂ := hp'.length_eq
  simp only [List.length_append, List.length_nil, List.length_singleton] at h₁ h₂
  omega

/-- What `get_artifact` streams is open, and it has closed the rest. -/
theorem getArtifact_ledger {root : Option Str} {jobId name mediaType : Str} {s t : Sys} {fd : Fd}
    {length : Nat} (h : (getArtifact root jobId name).run s = .ok (.stream fd mediaType length) t) :
    Ledger s t [] [fd] := by
  cases root with
  | none => cases h
  | some root =>
    obtain ⟨r, u, hopen, hl⟩ : ∃ r u, (openOrNone root jobId name).run s = .ok r u ∧
        Ledger s u [] (r.map Prod.fst).toList := by
      by_cases hname : name = audioName ∨ name = sidecarName
      · obtain ⟨r, u, hrun, hl, -⟩ := openOrNone_runs root jobId hname s
        exact ⟨r, u, hrun, hl⟩
      · obtain ⟨ha, hs⟩ := not_or.mp hname
        have hrun := openMember_unknown root jobId ha hs s
        exact ⟨none, s, run_exceptIf_ok hrun, .refl s []⟩
    unfold getArtifact at h
    simp only at h
    rw [run_seq_ok hopen] at h
    cases r with
    | none => cases h
    | some p => cases h; exact hl

/-! ## The temp file -/

section
variable {f : TempFile} {d : Desk}

/-- A stretch that leaves the temp files alone, inside the `finally` clause of both. -/
theorem within_unlink {κ : Type} {temps : List Str} {m : MusicM (Halt Bytes κ)}
    (hm : ∀ d, (∃ y, m.run d = .ok y d) ∨ ∃ e, m.run d = .error e d) (hd : d.temps = temps) :
    Ends (fun _ d => d.temps = temps) (fun d => d.temps = temps.erase f.path)
      ((within (safeUnlink f.path) m).run d) := by
  refine within_ends (K := fun d => d.temps = temps) ?_ fun u hu =>
    ⟨_, run_safeUnlink f.path u, congrArg (List.erase · f.path) hu⟩
  rcases hm d with ⟨y, hy⟩ | ⟨e, he⟩
  · rw [hy]
    cases y <;> exact hd
  · rw [he]
    exact hd

theorem ofExcept_leaves {α : Type} (x : Except PostExc α) (d : Desk) :
    (∃ a, (ofExcept x : MusicM α).run d = .ok a d) ∨
      ∃ e, (ofExcept x : MusicM α).run d = .error e d := by
  cases x with
  | ok a => exact .inl ⟨a, rfl⟩
  | error e => exact .inr ⟨e, rfl⟩

/-- Code that leaves the desk alone, one part after the other. -/
theorem bind_leaves {α β : Type} {x : MusicM α} {g : α → MusicM β}
    (hx : ∀ d, (∃ a, x.run d = .ok a d) ∨ ∃ e, x.run d = .error e d)
    (hg : ∀ a d, (∃ b, (g a).run d = .ok b d) ∨ ∃ e, (g a).run d = .error e d) (d : Desk) :
    (∃ b, (x >>= g).run d = .ok b d) ∨ ∃ e, (x >>= g).run d = .error e d := by
  rcases hx d with ⟨a, ha⟩ | ⟨e, he⟩
  · rw [run_seq_ok ha]
    exact hg a d
  · exact .inr ⟨e, run_seq_error he⟩

theorem fileBlock_leaves (f : TempFile) (k : Nat) (d : Desk) :
    (∃ y, (f.fileBlock k).run d = .ok y d) ∨ ∃ e, (f.fileBlock k).run d = .error e d := by
  unfold TempFile.fileBlock
  rcases ofExcept_leaves (f.reads k) d with ⟨a, ha⟩ | ⟨e, he⟩
  · exact .inl ⟨_, run_map_ok _ ha⟩
  · exact .inr ⟨e, run_map_error _ he⟩

theorem fileBody_clean (f : TempFile) (d : Desk) :
    Cleans (fileBodyCode f) d (fun _ u => u.temps = d.temps)
      fun u => u.temps = d.temps.erase f.path where
  start := within_unlink (bind_leaves (ofExcept_leaves _) fun _ => fileBlock_leaves f 0) rfl
  resume k _ h := within_unlink (fileBlock_leaves f k) h
  unwind _ _ h := congrArg (List.erase · f.path) h

theorem hexBlock_leaves (f : TempFile) (stop : Str) (k : Nat) (d : Desk) :
    (∃ y, (f.hexBlock stop k).run d = .ok y d) ∨ ∃ e, (f.hexBlock stop k).run d = .error e d := by
  refine bind_leaves (ofExcept_leaves _) (fun chunk d => ?_) d
  split
  · exact bind_leaves (ofExcept_leaves _) (fun _ d => .inl ⟨_, rfl⟩) d
  · exact .inl ⟨_, rfl⟩

variable {P : Platform} {traceId : Str} {facts : AudioFacts}

theorem hexBody_clean (hid : IsHex traceId) (hi : intsOk (.obj (extraInfo facts)) = true)
    (f : TempFile) (d : Desk) :
    Cleans (hexBodyCode P traceId (extraInfo facts) f) d (fun _ u => u.temps = d.temps)
      fun u => u.temps = d.temps.erase f.path where
  start := by
    have htemplate : (hexTemplate P traceId (extraInfo facts)).mapError PostExc.exc =
        .ok (envelopeStart, envelopeStop P traceId (extraInfo facts)) := by
      rw [hexTemplate_ok hid hi]
      rfl
    unfold hexBodyCode
    simp only
    rw [run_seq_ok (run_ofExcept_ok htemplate d)]
    exact within_unlink (bind_leaves (ofExcept_leaves _) fun _ d => .inl ⟨_, rfl⟩) rfl
  resume
    | .start stop, _, h =>
      within_unlink (bind_leaves (ofExcept_leaves _) fun _ => hexBlock_leaves f stop 0) h
    | .block stop k, _, h => within_unlink (hexBlock_leaves f stop k) h
    | .stop, _, h => within_unlink (fun d => .inl ⟨none, rfl⟩) h
  unwind _ _ h := congrArg (List.erase · f.path) h

/-- An envelope that has no text is found out outside the `try`. -/
theorem hexBody_unstarted (hi : intsOk (.obj (extraInfo facts)) = false) (f : TempFile) (n : Nat)
    (d : Desk) : (hexBodyCode P traceId (extraInfo facts) f).cut n d = d := by
  have htemplate : (hexTemplate P traceId (extraInfo facts)).mapError PostExc.exc =
      .error (.exc (.ofJson .value)) := by
    rw [hexTemplate_error hi]
    rfl
  cases n with
  | zero => rfl
  | succ n =>
    have hstart : (hexBodyCode P traceId (extraInfo facts) f).start.run d =
        .error (.exc (.ofJson .value)) d := run_seq_error (run_ofExcept_error htemplate d)
    show Code.close _ (Code.after _ n (halted [] (Code.start _ |>.run d))) = d
    rw [hstart, Code.after_finished _ rfl]
    rfl

end

/-! ## The result -/

theorem jsonResponse_json {status : Nat} {v : Json} {a : Answer}
    (h : jsonResponse status v = .ok a) : ∃ r, a = .json r := by
  unfold jsonResponse at h
  split at h <;> cases h
  exact ⟨_, rfl⟩

/-- What a delivery streams as hex. -/
theorem deliver_hex {P : Platform} {N : Numbers P} {root : Option Str} {baseUrl : Bytes}
    {r : LocalRequest} {t : Tools} {traceId tmp : Str} {d d' : Desk}
    {body : Except Exc (List Bytes)} (hid : IsHex traceId)
    (h : (deliver P N root baseUrl r t traceId).run d = .ok (.hex tmp body) d') :
    d'.temps = tmp :: d.temps ∧ ∃ facts, measure P N t r.plan = .ok facts ∧
      body = hexBody P traceId (extraInfo facts) (readBlocks t.output) := by
  have hends := deliver_ends P N root baseUrl r t hid d
  rw [h] at hends
  generalize hx : EStateM.Result.ok (Answer.hex tmp body) d' = x at hends
  cases hends with
  | hex tmp facts d' _ _ hm _ ht => cases hx; exact ⟨ht, facts, hm, rfl⟩
  | unopened | failed | raised => cases hx
  | url tmp' facts d'' =>
    generalize hj : jsonResponse 200 (responseEnvelope traceId (resultUrl baseUrl traceId) 2
      (extraInfo facts)) = y at hx
    cases y with
    | error e => cases hx
    | ok a =>
      cases hx
      obtain ⟨_, h⟩ := jsonResponse_json hj
      cases h

/-- What the route of the `url` form streams. -/
theorem musicResult_file {P : Platform} {root : Option Str} {t : Tools}
    {traceId tmp mediaType : Str} {length : Int} {d d' : Desk}
    (h : (musicResult P root t traceId).run d = .ok (.file tmp mediaType length) d') :
    tmp ∈ d'.temps ∧ length = t.output.length := by
  unfold musicResult at h
  cases root with
  | none => cases h
  | some root =>
    obtain ⟨setting, d₁, -, h⟩ := bind_ok h
    have hjson : ∀ {message : Str} {d₁ : Desk},
        (ofExcept (localFailureAnswer traceId message) : MusicM Answer).run d₁ ≠
          .ok (.file tmp mediaType length) d' := by
      intro message d₁ hr
      cases ha : localFailureAnswer traceId message with
      | error e =>
        rw [run_ofExcept_error ha] at hr
        cases hr
      | ok a =>
        rw [run_ofExcept_ok ha] at hr
        cases hr
        obtain ⟨_, h⟩ := jsonResponse_json ha
        cases h
    split at h
    · exact absurd h hjson
    · cases h
    rename_i plan _
    obtain ⟨opened, d₂, -, h⟩ := bind_ok h
    cases opened with
    | none => cases h
    | some p =>
      cases hmade : t.made with
      | error e =>
        simp only at h
        rw [run_seq_ok (tryTranscode_error hmade)] at h
        exact absurd h hjson
      | ok tmp' =>
        simp only at h
        rw [run_seq_ok (tryTranscode_ok hmade)] at h
        obtain ⟨size, d₃, hsize, h⟩ := bind_ok h
        cases h
        unfold Tools.size at hsize
        split at hsize <;> cases hsize
        exact ⟨List.mem_cons_self, rfl⟩

/-- The temp file has been removed between the two. -/
def Unlinked (tmp : Str) (d d' : Desk) : Prop := d'.temps = d.temps.erase tmp

/-- When a streamed response that is asked for a chunk `n` times and then closed has released its
descriptor, or its temp file: `n = 0` leaves both. -/
theorem streamed_response_releases (P : Platform) (N : Numbers P) (root : Option Str) (n : Nat) :
    (∀ jobId name s fd mediaType length t,
      (getArtifact root jobId name).run s = .ok (.stream fd mediaType length) t →
        (ClosedOnce s ((streamFd fd).cut n t) [] ↔ 1 ≤ n)) ∧
    (∀ baseUrl r tools traceId d tmp body d' facts, IsHex traceId →
      (deliver P N root baseUrl r tools traceId).run d = .ok (.hex tmp body) d' →
      measure P N tools r.plan = .ok facts → ∀ f : TempFile, f.path = tmp →
        (Unlinked tmp d' ((hexBodyCode P traceId (extraInfo facts) f).cut n d') ↔
          1 ≤ n ∧ intsOk (.obj (extraInfo facts)) = true)) ∧
    ∀ tools traceId d tmp mediaType length d',
      (musicResult P root tools traceId).run d = .ok (.file tmp mediaType length) d' →
        ∀ f : TempFile, f.path = tmp → (Unlinked tmp d' ((fileBodyCode f).cut n d') ↔ 1 ≤ n) := by
  -- a file that stays is not removed
  have hstays : ∀ {tmp : Str} {d : Desk}, tmp ∈ d.temps → ¬ Unlinked tmp d d := by
    intro tmp d hmem h
    have hlen := List.length_erase_of_mem hmem
    rw [← show d.temps = d.temps.erase tmp from h] at hlen
    have := List.length_pos_of_mem hmem
    omega
  refine ⟨fun jobId name s fd mediaType length t h => ?_,
    fun baseUrl r tools traceId d tmp body d' facts hid h hm f hf => ?_,
    fun tools traceId d tmp mediaType length d' h f hf => ?_⟩
  · have hl := getArtifact_ledger h
    refine ⟨fun hc => ?_, fun hn => ((streamFd_clean hl).cut hn).closedOnce⟩
    by_contra hn
    obtain rfl : n = 0 := by omega
    exact not_closedOnce_of_held hl hc
  · obtain ⟨htemps, -⟩ := deliver_hex hid h
    have hmem : tmp ∈ d'.temps := htemps ▸ List.mem_cons_self
    cases hi : intsOk (.obj (extraInfo facts)) with
    | false =>
      rw [hexBody_unstarted hi]
      exact ⟨fun hu => absurd hu (hstays hmem), fun h => by cases h.2⟩
    | true =>
      refine ⟨fun hu => ⟨?_, rfl⟩, fun hn => hf ▸ (hexBody_clean hid hi f d').cut hn.1⟩
      by_contra hn
      obtain rfl : n = 0 := by omega
      exact hstays hmem hu
  · refine ⟨fun hu => ?_, fun hn => hf ▸ (fileBody_clean f d').cut hn⟩
    by_contra hn
    obtain rfl : n = 0 := by omega
    exact hstays (musicResult_file h).1 hu

namespace Sample

/-- A temp file of one block. -/
def tempFile : TempFile where
  path := lit "/tmp/s4_deliver_0.wav"
  opened := .ok ()
  reads k := .ok ([[82, 73, 70, 70]].getD k [])

end Sample

/-- One chunk of a member, and of a temp file. -/
theorem streamed_response_releases_one :
    (∃ t, (getArtifact (some (lit "/artifacts")) (lit "0a") audioName).run Sample.renamed =
        .ok (.stream 2 (lit "audio/wav") 2) t ∧
      ClosedOnce Sample.renamed ((streamFd 2).cut 1 t) []) ∧
    ∃ body d' facts, (deliver Sample.platform Sample.numbers (some (lit "/artifacts")) []
        Sample.hexRequest (Sample.tools [123, 125]) (lit "0a")).run Sample.desk =
          .ok (.hex Sample.tempFile.path body) d' ∧
      Unlinked Sample.tempFile.path d'
        ((hexBodyCode Sample.platform (lit "0a") (extraInfo facts) Sample.tempFile).cut 1 d') := by
  obtain ⟨hfd, hhex, -⟩ := streamed_response_releases Sample.platform Sample.numbers
    (some (lit "/artifacts")) 1
  obtain ⟨t, ht⟩ : ∃ t, (getArtifact (some (lit "/artifacts")) (lit "0a") audioName).run
      Sample.renamed = .ok (.stream 2 (lit "audio/wav") 2) t := ⟨_, rfl⟩
  obtain ⟨body, d', hd⟩ : ∃ body d', (deliver Sample.platform Sample.numbers
      (some (lit "/artifacts")) [] Sample.hexRequest (Sample.tools [123, 125]) (lit "0a")).run
        Sample.desk = .ok (.hex Sample.tempFile.path body) d' := ⟨_, _, rfl⟩
  obtain ⟨facts, hm, hi⟩ : ∃ facts, measure Sample.platform Sample.numbers
      (Sample.tools [123, 125]) Sample.hexRequest.plan = .ok facts ∧
        intsOk (.obj (extraInfo facts)) = true := ⟨_, rfl, rfl⟩
  exact ⟨⟨t, ht, (hfd _ _ _ _ _ _ _ ht).mpr le_rfl⟩, body, d', facts, hd,
    (hhex _ _ _ _ _ _ _ _ facts (isHex_of_all rfl) hd hm _ rfl).mpr ⟨le_rfl, hi⟩⟩

/-- A client that is gone before the first chunk leaves the descriptor open, and the temp file. -/
theorem streamed_response_leaks :
    (¬ ∀ root jobId name s fd mediaType length t n,
      (getArtifact root jobId name).run s = .ok (.stream fd mediaType length) t →
        fd ∈ closes ((streamFd fd).cut n t).log) ∧
    ¬ ∀ root r tools traceId d tmp body d' f n, f.path = tmp →
      (deliver Sample.platform Sample.numbers root [] r tools traceId).run d =
        .ok (.hex tmp body) d' → ∀ info,
          tmp ∉ ((hexBodyCode Sample.platform traceId info f).cut n d').temps := by
  constructor
  · intro h
    obtain ⟨t, ht, hc⟩ : ∃ t, (getArtifact (some (lit "/artifacts")) (lit "0a") audioName).run
        Sample.renamed = .ok (.stream 2 (lit "audio/wav") 2) t ∧ closes t.log = [0, 3, 1] :=
      ⟨_, rfl, rfl⟩
    have hmem : 2 ∈ closes t.log := h _ _ _ _ _ _ _ t 0 ht
    rw [hc] at hmem
    exact absurd hmem (by decide)
  · intro h
    obtain ⟨body, d', hd, ht⟩ : ∃ body d', (deliver Sample.platform Sample.numbers
        (some (lit "/artifacts")) [] Sample.hexRequest (Sample.tools [123, 125]) (lit "0a")).run
          Sample.desk = .ok (.hex Sample.tempFile.path body) d' ∧
            d'.temps = [Sample.tempFile.path] := ⟨_, _, rfl, rfl⟩
    have hmem : Sample.tempFile.path ∉ d'.temps := h _ _ _ _ _ _ _ d' _ 0 rfl hd []
    exact hmem (ht ▸ List.mem_cons_self)

end Music3
