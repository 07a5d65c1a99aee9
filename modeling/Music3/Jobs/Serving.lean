import Music3.Jobs.Artifacts
import Music3.Posix.Ledger

/-!
# No served file escapes the root

What `open_member` returns, whatever others change below the root between its calls.

* `openMember_spec`: it raises nothing for a valid id, closes every descriptor that it has opened
  and does not return, and returns only a member of a pair (`Served`), with its size if nobody
  changes the tree.
* `Served s t root jobId name fd`: `fd` was opened as the regular file `name` of a directory that
  was opened as the entry `jobId` of the root, and the other member was a regular file too.
-/

namespace Music3

open Py Posix StateExcept

/-- Code that raises nothing. -/
abbrev Runs {α : Type} (s : Sys) (m : FsM α) (Q : α → Sys → Prop) : Prop :=
  Triple (· = s) m Q fun _ _ => False

section
variable {α β : Type} {s : Sys} {Q : α → Sys → Prop}

theorem Runs.pure (a : α) (h : Q a s) : Runs s (Pure.pure a) Q :=
  (Triple.pure (Q := Q) a).conseq (fun _ e => e ▸ h) (fun _ _ h => h) fun _ _ h => h

theorem Runs.bind {m : FsM α} {f : α → FsM β} {R : β → Sys → Prop} (h : Runs s m Q)
    (hf : ∀ a t, Q a t → Runs t (f a) R) : Runs s (m >>= f) R :=
  Triple.bind h fun a => .of_state fun t ht => hf a t ht

theorem Runs.conseq {m : FsM α} {R : α → Sys → Prop} (h : Runs s m Q)
    (hq : ∀ a t, Q a t → R a t) : Runs s m R := Triple.conseq h (fun _ h => h) hq fun _ _ h => h

theorem Runs.raises {m : FsM α} {E : Exc → Sys → Prop} (h : Runs s m Q) : Triple (· = s) m Q E :=
  Triple.conseq h (fun _ h => h) (fun _ _ h => h) fun _ _ h => h.elim

theorem call_spec {m : SysM α} {E : Sys → Prop} (h : Triple (· = s) m Q fun _ => E) :
    Triple (· = s) (call m) Q fun e t => e.isOSError = true ∧ E t := by
  rintro s rfl
  obtain ⟨hok, herr⟩ := h s rfl
  unfold call
  rw [EStateM.run_adaptExcept]
  cases hr : m.run s with
  | ok a t => exact ⟨fun b u e => (by cases e; exact hok a t hr), fun e u e' => by cases e'⟩
  | error e t => exact ⟨fun b u e' => (by cases e'),
      fun e' u h' => by cases h'; exact ⟨rfl, herr e t hr⟩⟩

/-- `try: m` with `except OSError: return None`. -/
theorem optional_spec {m : SysM α} {E : Sys → Prop} (h : Triple (· = s) m Q fun _ => E) :
    Runs s (exceptIf Exc.isOSError (some <$> call m) (pure none))
      fun r t => (∀ a, r = some a → Q a t) ∧ (r = none → E t) := by
  refine .exceptIf ((call_spec h).map fun a t hq => ⟨fun b e => ?_, nofun⟩) fun _ => .of_state
    fun t ht => Runs.pure none ⟨nofun, fun _ => ht⟩
  cases e
  exact hq

theorem close_runs (fd : Fd) : Runs s (call (close fd)) fun _ t => Ledger s t [fd] [] := by
  rintro s rfl
  obtain ⟨hok, -⟩ := close_spec (E := fun _ _ => False) fd s rfl
  refine ⟨fun a t h => ?_, fun e t h => ?_⟩ <;> cases h
  exact (hok () _ rfl).1

theorem finallyClose_spec {m : FsM α} (fd : Fd) (h : Runs s m Q) :
    Runs s (finallyClose fd m) fun a u => ∃ t, Q a t ∧ Ledger t u [fd] [] := by
  rintro s rfl
  obtain ⟨hok, herr⟩ := h s rfl
  unfold finallyClose
  rw [EStateM.run_bind, run_tryCatch]
  cases hr : m.run s with
  | ok a t =>
    exact (Runs.bind (close_runs fd) (R := fun a u => ∃ t, Q a t ∧ Ledger t u [fd] [])
      fun _ u hu => .pure a ⟨t, hok a t hr, hu⟩) t rfl
  | error e t => exact (herr e t hr).elim

end

/-! ## The parts of `open_member` -/

/-- What `_open_job_dir_fd` has done. -/
structure JobDirOpened (root : Str) (s : Sys) (jobId : Str) (r : Option Fd) (t : Sys) : Prop where
  ledger : Ledger s t [] r.toList
  opened : ∀ fd, r = some fd →
    root = s.fs.rootPath ∧ ∃ d, OpenedAs s t (some s.fs.root) jobId d .dir fd
  missing : r = none → s.turns = [] → root = s.fs.rootPath →
    ∀ d, s.fs.lookup s.fs.root jobId = some d → s.fs.dir? d = none

/-- What `_open_regular_member_fd` has done, with the directory `d`. -/
structure MemberOpened (s : Sys) (d : Ino) (name : Name) (r : Option (Fd × Nat)) (t : Sys) :
    Prop where
  ledger : Ledger s t [] (r.map Prod.fst).toList
  opened : ∀ fd size, r = some (fd, size) →
    ∃ i, OpenedAs s t (some d) name i .file fd ∧ Sized s i size
  missing : r = none → s.turns = [] → s.fs.fileAt d name = none

section
variable {s : Sys}

/-- A valid id leads to the directory that was its entry in the root. -/
theorem openJobDirFd_spec (root : Str) {jobId : Str} (hid : isJobId jobId = true) :
    Runs s (openJobDirFd root jobId) (JobDirOpened root s jobId) := by
  unfold openJobDirFd validateJobId
  rw [if_pos hid]
  refine Runs.bind (Q := fun a t => a = jobId ∧ t = s) (.pure jobId ⟨rfl, rfl⟩) ?_
  rintro _ s ⟨rfl, rfl⟩
  refine (optional_spec (openRoot_spec s root)).bind ?_
  rintro r t ⟨hsome, hnone⟩
  cases r with
  | none =>
    obtain ⟨hl, hroot⟩ := hnone rfl
    refine .pure none ⟨hl, (by rintro _ ⟨⟩), fun _ hs hp d hd => ?_⟩
    rw [Fs.lookup, hroot hs hp] at hd
    cases hd
  | some rootFd =>
    obtain ⟨hl, ho, hp⟩ := hsome rootFd rfl
    refine (finallyClose_spec rootFd (optional_spec (openAt_spec ho.refers _ true))).conseq ?_
    rintro r u ⟨v, ⟨hsome, hnone⟩, hclose⟩
    cases r with
    | none =>
      obtain ⟨hl', hrefused⟩ := hnone rfl
      have hll := hl.trans ((hl'.frame [rootFd]).trans hclose)
      refine ⟨hll, (by rintro _ ⟨⟩), fun _ hs _ d hd => ?_⟩
      obtain ⟨hs', hfs⟩ := hl.still hs
      cases hdir : s.fs.dir? d with
      | none => rfl
      | some dir =>
        rw [hfs] at hrefused
        rcases hrefused hs' d .dir hd (Fs.kind?_dir hdir) with e | ⟨-, e⟩ <;> cases e
    | some fd =>
      obtain ⟨hl', d, k, hd, -, hdir⟩ := hsome fd rfl
      rw [hdir rfl] at hd
      have hl'' := (hl'.frame [rootFd]).trans
        ((hclose.frame [fd]).perm (.swap fd rootFd []) .rfl)
      refine ⟨hl.trans hl'', ?_, (by intro e; cases e)⟩
      rintro _ ⟨⟩
      exact ⟨hp, d, (hd.later hl'.log_prefix hclose).earlier hl hl''.log_prefix⟩

/-- A member of a directory is a regular file. -/
theorem openRegularMemberFd_spec {jobDirFd : Fd} {d : Ino} (hd : s.fds[jobDirFd]? = some d)
    (name : Name) : Runs s (openRegularMemberFd jobDirFd name) (MemberOpened s d name) := by
  unfold openRegularMemberFd
  refine (optional_spec (openAt_spec hd name false)).bind fun r t ⟨hsome, hnone⟩ => ?_
  cases r with
  | none =>
    obtain ⟨hl, hrefused⟩ := hnone rfl
    refine .pure none ⟨hl, nofun, fun _ hs => ?_⟩
    cases hf : s.fs.fileAt d name with
    | none => rfl
    | some b =>
      obtain ⟨i, hi, hb⟩ := Option.bind_eq_some_iff.mp hf
      rcases hrefused hs i .file hi (Fs.kind?_file hb) with e | ⟨e, -⟩ <;> cases e
  | some fd =>
    obtain ⟨hl, i, k, ho, -, -⟩ := hsome fd rfl
    -- the descriptor is closed, and nothing is returned
    have hgone : ∀ u, Ledger t u [] [] → (s.turns = [] → s.fs.fileAt d name = none) →
        Runs u (do call (close fd); return none) (MemberOpened s d name) := fun u hu hmiss =>
      (close_runs fd).bind fun _ v hv =>
        .pure none ⟨hl.trans ((hu.frame [fd]).trans hv), nofun, fun _ => hmiss⟩
    refine .exceptIf (E := fun _ u => Ledger t u [] [] ∧ t.turns ≠ []) ?_ fun _ => .of_state
      fun u ⟨hu, hne⟩ => hgone u hu fun hs => absurd (hl.still hs).1 hne
    refine (call_spec (fstat_spec ho.refers ho.kind)).bind fun info =>
      .of_state fun u ⟨hu, hk, hsize⟩ => ?_
    by_cases hf : info.kind = .file
    · simp only [hf, ne_eq, not_true_eq_false, ↓reduceIte]
      refine Runs.raises (.pure _ ⟨hl.trans (hu.frame [fd]), ?_, nofun⟩)
      rintro _ _ ⟨⟩
      rw [← hk, hf] at ho
      exact ⟨i, ho.later hl.log_prefix hu, hsize.earlier hl⟩
    · simp only [hf, ne_eq, not_false_eq_true, ↓reduceIte]
      refine (hgone u hu fun hs => ?_).raises
      obtain ⟨hi, hki⟩ := ho.entry hs
      rw [Fs.fileAt, hi, Option.bind_some]
      cases hb : s.fs.file? i with
      | none => rfl
      | some b =>
        rw [Fs.kind?_file hb] at hki
        cases hki
        exact absurd hk hf

theorem closeMember_spec (o : Option (Fd × Nat)) :
    Runs s (closeMember o) fun _ t => Ledger s t (o.map Prod.fst).toList [] := by
  cases o with
  | none => exact .pure () (.refl s [])
  | some p => exact close_runs p.1

/-- Both members of the pair, or none of them. -/
theorem openPair_spec {jobFd : Fd} {d : Ino} (hd : s.fds[jobFd]? = some d) (name : Name)
    (hname : name = audioName ∨ name = sidecarName) :
    Runs s (do
      let audio ← openRegularMemberFd jobFd audioName
      let sidecar ← openRegularMemberFd jobFd sidecarName
      if audio.isNone ∨ sidecar.isNone then
        closeMember audio
        closeMember sidecar
        return none
      let (wanted, other) := if name = audioName then (audio, sidecar) else (sidecar, audio)
      closeMember other
      return wanted)
      fun r t => Ledger s t [] (r.map Prod.fst).toList ∧
        (∀ fd size, r = some (fd, size) → ∃ audioFd a sidecarFd b,
          OpenedAs s t (some d) audioName a .file audioFd ∧
          OpenedAs s t (some d) sidecarName b .file sidecarFd ∧
          (name = audioName ∧ fd = audioFd ∧ Sized s a size ∨
            name = sidecarName ∧ fd = sidecarFd ∧ Sized s b size)) ∧
        (r = none → s.turns = [] →
          s.fs.fileAt d audioName = none ∨ s.fs.fileAt d sidecarName = none) := by
  refine (openRegularMemberFd_spec hd audioName).bind fun audio t ha => ?_
  have hd' : t.fds[jobFd]? = some d := by
    obtain ⟨is, new, hfds, -⟩ := ha.ledger.entries
    rw [hfds, List.getElem?_append_left (List.getElem?_eq_some_iff.mp hd).1, hd]
  refine (openRegularMemberFd_spec hd' sidecarName).bind fun sidecar u hb => ?_
  have hboth := ha.ledger.trans (hb.ledger.frame _)
  by_cases hnone : audio.isNone = true ∨ sidecar.isNone = true
  · simp only [hnone, ↓reduceIte]
    refine (closeMember_spec audio).bind fun _ v hv => (closeMember_spec sidecar).bind
      fun _ w hw => .pure none ⟨?_, nofun, fun _ hs => ?_⟩
    · exact hboth.trans (((hv.frame _).perm List.perm_append_comm .rfl).trans hw)
    · obtain ⟨ht, hfs⟩ := ha.ledger.still hs
      rcases hnone with h | h
      · exact .inl (ha.missing (Option.isNone_iff_eq_none.mp h) hs)
      · exact .inr (hfs ▸ hb.missing (Option.isNone_iff_eq_none.mp h) ht)
  · obtain ⟨hna, hnb⟩ := not_or.mp hnone
    obtain ⟨⟨a, m⟩, rfl⟩ : ∃ p, audio = some p := Option.ne_none_iff_exists'.mp (by simpa using hna)
    obtain ⟨⟨b, n⟩, rfl⟩ : ∃ p, sidecar = some p :=
        Option.ne_none_iff_exists'.mp (by simpa using hnb)
    obtain ⟨i, hi, hm⟩ := ha.opened a m rfl
    obtain ⟨j, hj, hsize⟩ := hb.opened b n rfl
    have hi' := hi.later ha.ledger.log_prefix hb.ledger
    have hj' := hj.earlier ha.ledger hb.ledger.log_prefix
    have hpre := hboth.log_prefix
    simp only [Option.isNone_some, Bool.false_eq_true, or_self, ↓reduceIte]
    by_cases hn : name = audioName
    · rw [if_pos hn]
      refine (closeMember_spec (some (b, n))).bind fun _ v hv => .pure _ ⟨?_, ?_, nofun⟩
      · exact hboth.trans (hv.frame [a])
      · rintro _ _ ⟨⟩
        exact ⟨a, i, b, j, hi'.later hpre hv, hj'.later hpre hv, .inl ⟨hn, rfl, hm⟩⟩
    · rw [if_neg hn]
      refine (closeMember_spec (some (a, m))).bind fun _ v hv => .pure _ ⟨?_, ?_, nofun⟩
      · exact hboth.trans ((hv.frame [b]).perm (.swap b a []) .rfl)
      · rintro _ _ ⟨⟩
        exact ⟨a, i, b, j, hi'.later hpre hv, hj'.later hpre hv,
          .inr ⟨hname.resolve_left hn, rfl, hsize.earlier ha.ledger⟩⟩

end

/-! ## `open_member` -/

/-- A descriptor that `open_member` returns (module doc). -/
def Served (s t : Sys) (jobId : Str) (name : Name) (fd : Fd) : Prop :=
  ∃ dirFd d audioFd a sidecarFd b, OpenedAs s t (some s.fs.root) jobId d .dir dirFd ∧
    OpenedAs s t (some d) audioName a .file audioFd ∧
    OpenedAs s t (some d) sidecarName b .file sidecarFd ∧
    (name = audioName ∧ fd = audioFd ∨ name = sidecarName ∧ fd = sidecarFd)

/-- What is held where a directory and its entry have been opened. -/
theorem held_opened {s t u : Sys} {jobId : Str} {name : Name} {d i : Ino} {dirFd fd : Fd}
    {k k' : Kind} (hs : s.turns = []) (hd : OpenedAs s t (some s.fs.root) jobId d k dirFd)
    (ho : OpenedAs s u (some d) name i k' fd) : s.fs.held jobId name = s.fs.file? i := by
  rw [Fs.held, (hd.entry hs).1, Option.bind_some, Fs.fileAt, (ho.entry hs).1, Option.bind_some]

theorem openMember_spec {s : Sys} (root : Str) {jobId : Str} {name : Name}
    (hid : isJobId jobId = true) (hname : name = audioName ∨ name = sidecarName) :
    Runs s (openMember root jobId name) fun r t => Ledger s t [] (r.map Prod.fst).toList ∧
      (∀ fd size, r = some (fd, size) → root = s.fs.rootPath ∧ Served s t jobId name fd ∧
        (s.turns = [] → ∀ b, s.fs.held jobId name = some b → size = b.length)) ∧
      (r = none → s.turns = [] → root = s.fs.rootPath →
        s.fs.held jobId audioName = none ∨ s.fs.held jobId sidecarName = none) := by
  unfold openMember
  rw [if_neg fun h => hname.elim h.1 h.2]
  refine (openJobDirFd_spec root hid).bind fun r t hr => ?_
  cases r with
  | none =>
    refine .pure none ⟨hr.ledger, nofun, fun _ hs hp => .inl ?_⟩
    cases hd : s.fs.lookup s.fs.root jobId with
    | none => rw [Fs.held, hd]; rfl
    | some d =>
      rw [Fs.held, hd, Option.bind_some, Fs.fileAt, Fs.lookup, hr.missing rfl hs hp d hd]
      rfl
  | some jobFd =>
    obtain ⟨hp, d, hd⟩ := hr.opened jobFd rfl
    refine (finallyClose_spec jobFd (openPair_spec hd.refers name hname)).conseq ?_
    rintro r u ⟨v, ⟨hv, hpair, hmiss⟩, hclose⟩
    have hclose' := (hclose.frame (r.map Prod.fst).toList).perm List.perm_append_comm .rfl
    have hu := (hv.frame [jobFd]).trans hclose'
    refine ⟨hr.ledger.trans hu, fun fd size e => ⟨hp, ?_⟩, fun e hs _ => ?_⟩
    · obtain ⟨audioFd, a, sidecarFd, b, ha, hb, hfd⟩ := hpair fd size e
      have ha' := (ha.later hv.log_prefix hclose').earlier hr.ledger hu.log_prefix
      have hb' := (hb.later hv.log_prefix hclose').earlier hr.ledger hu.log_prefix
      refine ⟨⟨jobFd, d, audioFd, a, sidecarFd, b, hd.later hr.ledger.log_prefix hu, ha', hb',
        hfd.imp (fun h => ⟨h.1, h.2.1⟩) fun h => ⟨h.1, h.2.1⟩⟩, fun hs c hc => ?_⟩
      rcases hfd with ⟨rfl, -, hsize⟩ | ⟨rfl, -, hsize⟩
      · exact hsize.earlier hr.ledger hs c (held_opened hs hd ha' ▸ hc)
      · exact hsize.earlier hr.ledger hs c (held_opened hs hd hb' ▸ hc)
    · obtain ⟨ht, hfs⟩ := hr.ledger.still hs
      have hm := hmiss e ht
      rw [hfs] at hm
      unfold Fs.held
      rw [(hd.entry hs).1]
      exact hm

/-- What `open_member` does in the state `s`, whatever happens between its calls. -/
structure NoEscape (root jobId name : Str) (s : Sys) : Prop where
  /-- A crafted id is refused before any call. -/
  crafted : name = audioName ∨ name = sidecarName → isJobId jobId = false →
    (openMember root jobId name).run s = .error (.jobId jobId) s
  /-- Another name is refused before any call. -/
  unknown : name ≠ audioName → name ≠ sidecarName →
    (openMember root jobId name).run s = .ok none s
  raises : ∀ e t, (openMember root jobId name).run s = .error e t → e = .jobId jobId ∧ t = s
  closed : ∀ r t, (openMember root jobId name).run s = .ok r t →
    ClosedOnce s t (r.map Prod.fst).toList
  served : ∀ fd size t, (openMember root jobId name).run s = .ok (some (fd, size)) t →
    isJobId jobId = true ∧ Served s t jobId name fd

/-- Another name is refused before any call. -/
theorem openMember_unknown (root jobId : Str) {name : Str} (h₁ : name ≠ audioName)
    (h₂ : name ≠ sidecarName) (s : Sys) : (openMember root jobId name).run s = .ok none s := by
  unfold openMember
  rw [if_pos ⟨h₁, h₂⟩]
  rfl

/-- A crafted id is refused before any call. -/
theorem openMember_crafted (root : Str) {jobId name : Str}
    (hname : name = audioName ∨ name = sidecarName) (hid : isJobId jobId = false) (s : Sys) :
    (openMember root jobId name).run s = .error (.jobId jobId) s := by
  have hne : ¬ (name ≠ audioName ∧ name ≠ sidecarName) := fun h => hname.elim h.1 h.2
  unfold openMember openJobDirFd validateJobId
  rw [if_neg hne, hid]
  rfl

/-- `open_member` returns no descriptor but the requested member of a pair. -/
theorem open_member_contained (root jobId name : Str) (s : Sys) : NoEscape root jobId name s := by
  by_cases hname : name = audioName ∨ name = sidecarName
  swap
  · obtain ⟨h₁, h₂⟩ := not_or.mp hname
    have hrun := openMember_unknown root jobId h₁ h₂ s
    refine ⟨fun h => absurd h hname, fun _ _ => hrun, fun e t h => ?_, fun r t h => ?_,
      fun fd size t h => ?_⟩ <;> rw [hrun] at h <;> cases h
    exact (Ledger.refl s []).closedOnce
  have hne : ¬ (name ≠ audioName ∧ name ≠ sidecarName) := fun h => hname.elim h.1 h.2
  cases hid : isJobId jobId with
  | false =>
    have hrun := openMember_crafted root hname hid s
    refine ⟨fun _ _ => hrun, fun h₁ h₂ => absurd ⟨h₁, h₂⟩ hne, fun e t h => ?_, fun r t h => ?_,
      fun fd size t h => ?_⟩ <;> rw [hrun] at h <;> cases h
    exact ⟨rfl, rfl⟩
  | true =>
    obtain ⟨hok, herr⟩ := openMember_spec root hid hname s rfl
    exact ⟨fun _ h => absurd (hid.symm.trans h) nofun, fun h₁ h₂ => absurd ⟨h₁, h₂⟩ hne,
      fun e t h => (herr e t h).elim, fun r t h => (hok r t h).1.closedOnce,
      fun fd size t h => ⟨hid, ((hok _ t h).2.1 fd size rfl).2.1⟩⟩

namespace Sample

theorem nodup_pair : (Assoc.keys [(audioName, 2), (sidecarName, 3)]).Nodup := by decide

/-- A root with one artifact. -/
def oneArtifact : Fs where
  nodes := [.dir ⟨[(lit "0a", 1)], by decide, 0⟩,
    .dir ⟨[(audioName, 2), (sidecarName, 3)], nodup_pair, 0⟩, .file [82, 73], .file [123, 125]]
  root := 0
  rootPath := lit "/artifacts"
  rootReal := lit "/artifacts"
  linkReal := id

/-- Somebody renames its directory when `open_member` has opened it. -/
def renamed : Sys where
  fs := oneArtifact
  turns := [{}, {}, { moves := [.rename 0 (lit "0a") 0 (lit "0b")] }]

end Sample

theorem open_member_serves : ∃ t, (openMember (lit "/artifacts") (lit "0a") audioName).run
    Sample.renamed = .ok (some (2, 2)) t ∧ Served Sample.renamed t (lit "0a") audioName 2 := by
  obtain ⟨t, hrun⟩ : ∃ t, (openMember (lit "/artifacts") (lit "0a") audioName).run Sample.renamed =
    .ok (some (2, 2)) t := ⟨_, rfl⟩
  exact ⟨t, hrun, ((open_member_contained _ _ _ _).served 2 2 t hrun).2⟩

/-- The descriptors of members of the directory that, as they were opened, was the entry `jobId` of
the root. -/
def namedOpens (jobId : Str) (log : List Event) : List Fd :=
  log.filterMap fun
    | .opened fd fs (some d) _ => if fs.lookup fs.root jobId = some d then some fd else none
    | _ => none

/-- A crafted id is not refused with an unknown name, and the directory need not have its name any
more when its members are opened. -/
theorem open_member_not_named :
    (¬ ∀ root jobId name s, isJobId jobId = false →
      (openMember root jobId name).run s = .error (.jobId jobId) s) ∧
    ¬ ∀ root jobId name s fd size t, (openMember root jobId name).run s = .ok (some (fd, size)) t →
      fd ∈ namedOpens jobId (t.log.drop s.log.length) := by
  constructor
  · intro h
    have h' := h (lit "/artifacts") (lit "..") (lit "x") Sample.renamed rfl
    have hrun : (openMember (lit "/artifacts") (lit "..") (lit "x")).run Sample.renamed =
        .ok none Sample.renamed := rfl
    rw [hrun] at h'
    cases h'
  · intro h
    obtain ⟨t, hrun, hlog⟩ : ∃ t, (openMember (lit "/artifacts") (lit "0a") audioName).run
        Sample.renamed = .ok (some (2, 2)) t ∧ namedOpens (lit "0a") t.log = [] := ⟨_, rfl, rfl⟩
    have hmem : 2 ∈ namedOpens (lit "0a") t.log := h _ _ _ _ _ _ t hrun
    rw [hlog] at hmem
    cases hmem

end Music3
