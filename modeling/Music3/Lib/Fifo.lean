import Mathlib.Data.List.Nodup
import Mathlib.Logic.Relation

/-!
# A single server with a queue

The purpose of a single-slot worker, without its code: jobs wait in line, at most one is served,
and the service of a job makes at most one call to the resource that must not be shared.

`Server.Step` are the moves: a new job joins the end of the line, the head of the line goes into
the slot, the job in the slot starts its call, the job in the slot leaves. `Server.Ok` is what
they keep: the jobs are distinct, and the calls started so far are, in order, calls of jobs that
have left the line. The order of arrival (`Server.line`) is not stored: it is
the jobs served, the job in the slot and the queue, one after the other. A system that makes
several of these moves in one of its steps makes `Server.Steps`.
-/

/-- Jobs waiting, in the slot, and served; the jobs whose call was started, in order. -/
structure Server (J : Type) where
  waiting : List J
  slot : Option J
  served : List J
  started : List J

namespace Server

variable {J : Type}

/-- Every job, in the order of arrival. -/
def line (s : Server J) : List J := s.served ++ (s.slot.toList ++ s.waiting)

/-- The jobs that have left the queue, in the order of arrival. -/
def taken (s : Server J) : List J := s.served ++ s.slot.toList

/-- The moves (module doc). `stay` is a step of the system that the server does not see. -/
inductive Step : Server J → Server J → Prop
  | stay (s) : Step s s
  | arrive (s) (j : J) : j ∉ s.line → Step s { s with waiting := s.waiting ++ [j] }
  | take {s : Server J} (j : J) (w : List J) : s.slot = none → s.waiting = j :: w →
      Step s { s with waiting := w, slot := some j }
  | start {s : Server J} (j : J) : s.slot = some j → j ∉ s.started →
      Step s { s with started := s.started ++ [j] }
  | leave {s : Server J} (j : J) : s.slot = some j →
      Step s { s with slot := none, served := s.served ++ [j] }

/-- What every step keeps. -/
structure Ok (s : Server J) : Prop where
  nodup : s.line.Nodup
  started : List.Sublist s.started s.taken

theorem line_eq (s : Server J) : s.line = s.taken ++ s.waiting := by
  simp [line, taken]

/-- A sublist that misses the last element is a sublist of the rest. -/
theorem sublist_of_concat {l l' : List J} {j : J} (h : List.Sublist l (l' ++ [j])) (hj : j ∉ l) :
    List.Sublist l l' := by
  obtain ⟨l₁, l₂, rfl, h₁, h₂⟩ := List.sublist_append_iff.mp h
  rcases List.sublist_singleton.mp h₂ with rfl | rfl
  · simpa using h₁
  · simp at hj

theorem Step.ok {s s' : Server J} (h : Step s s') (hs : s.Ok) : s'.Ok := by
  obtain ⟨hn, hst⟩ := hs
  cases h with
  | stay => exact ⟨hn, hst⟩
  | arrive j hj =>
    refine ⟨?_, hst⟩
    have e : line { s with waiting := s.waiting ++ [j] } = s.line ++ [j] := by simp [line]
    rw [e]
    exact List.nodup_append.mpr ⟨hn, List.nodup_singleton j, by
      rintro a ha b hb rfl; exact hj (List.mem_singleton.mp hb ▸ ha)⟩
  | take j w hslot hw =>
    refine ⟨by simpa [line, hslot, hw] using hn, ?_⟩
    simp only [taken, hslot, Option.toList_none, List.append_nil] at hst
    exact hst.trans (List.sublist_append_left _ _)
  | start j hslot hj =>
    refine ⟨hn, ?_⟩
    simp only [taken, hslot, Option.toList_some] at hst ⊢
    exact (sublist_of_concat hst hj).append (List.Sublist.refl _)
  | leave j hslot =>
    refine ⟨by simpa [line, hslot] using hn, ?_⟩
    simpa [taken, hslot] using hst

/-- Any number of moves. -/
abbrev Steps : Server J → Server J → Prop := Relation.ReflTransGen Step

theorem Steps.ok {s s' : Server J} (h : Steps s s') (hs : s.Ok) : s'.Ok := by
  induction h with
  | refl => exact hs
  | tail _ h ih => exact h.ok ih

namespace Ok

variable {s : Server J} (h : s.Ok)
include h

/-- Calls start in the order of arrival. -/
theorem started_sublist_line : List.Sublist s.started s.line := by
  rw [line_eq]; exact h.started.trans (List.sublist_append_left _ _)

/-- A job starts at most one call. -/
theorem started_nodup : s.started.Nodup := h.started_sublist_line.nodup h.nodup

/-- Each job is in exactly one place, once. -/
theorem count_line [BEq J] [LawfulBEq J] {j : J} (hj : j ∈ s.line) : s.line.count j = 1 :=
  List.count_eq_one_of_mem h.nodup hj

/-- A waiting job is not in the slot and not served. -/
theorem waiting_not_taken {j : J} (hj : j ∈ s.waiting) : j ∉ s.taken := by
  intro hm
  have hn := h.nodup
  rw [line_eq] at hn
  exact (List.nodup_append.mp hn).2.2 j hm j hj rfl

end Ok

end Server
