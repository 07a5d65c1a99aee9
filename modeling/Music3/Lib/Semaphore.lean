import Mathlib.Algebra.GroupWithZero.Nat
import Music3.Lib.Assoc
import Music3.Lib.Lts

/-!
# A semaphore with a queue

The semaphore of an event loop (`asyncio.Semaphore` of Python 3.12), and the tasks that use it.

A task that finds the semaphore locked queues a future, and runs again when the future is done: with
its permit (`Waiter.woken`), or because the task has been cancelled, before it had a permit
(`Waiter.cancelled`) or after (`Waiter.revoked`). A release wakes the first task that still waits, so
there is a permit for it whenever it runs; a task that runs passes on what is left.

* `Gate.Ok n`: of `n` permits each is free, given to a task that will run, or held.
* `Gate.ahead`: how many tasks are to be woken before a task.
-/

/-- The future of a waiting task (module doc). -/
inductive Waiter where
  | pending
  | woken
  | cancelled
  | revoked
  deriving DecidableEq

/-- The task has a permit, though it has not run since. -/
def Waiter.credit : Waiter → Nat
  | .woken | .revoked => 1
  | .pending | .cancelled => 0

/-- A semaphore and its tasks. `arrived` and `granted` are all the tasks that have ever asked for a
permit and got one, in order. -/
structure Gate (J : Type) where
  value : Nat
  waiters : List (J × Waiter) := []
  holders : List J := []
  arrived : List J := []
  granted : List J := []

/-- What the tasks do. -/
inductive GateAction (J : Type) where
  /-- `acquire()`, up to its await. -/
  | arrive (j : J)
  /-- `Task.cancel()` of a task that waits. -/
  | cancel (j : J)
  /-- What is left of `acquire()`, once the future is done. -/
  | resume (j : J)
  /-- `release()`. -/
  | leave (j : J)

/-- A release. -/
def GateAction.isLeave {J : Type} : GateAction J → Bool
  | .leave _ => true
  | _ => false

namespace Gate

variable {J : Type}

/-- The tasks whose futures are not done. -/
def pending (q : List (J × Waiter)) : List J := (q.filter fun p => p.2 = .pending).map Prod.fst

/-- The permits that wait with their tasks. -/
def credits (q : List (J × Waiter)) : Nat := (q.map fun p => p.2.credit).sum

/-- `locked`. -/
def locked (s : Gate J) : Bool := s.value = 0 ∨ s.waiters.any fun p => p.2 ≠ .cancelled

/-- The loop of `_wake_up_next`: the first future that is not done, and the queue after it. -/
def wakeFirst : List (J × Waiter) → Option (J × List (J × Waiter))
  | [] => none
  | (j, turn) :: q =>
    if turn = .pending then some (j, (j, .woken) :: q)
    else (wakeFirst q).map fun r => (r.1, (j, turn) :: r.2)

/-- `_wake_up_next`; `none` if there is no-one to wake up. -/
def wakeUpNext (s : Gate J) : Option (Gate J) :=
  (wakeFirst s.waiters).map fun r => { s with
    value := s.value - 1, waiters := r.2, granted := s.granted ++ [r.1] }

/-- `while self._value > 0: if not self._wake_up_next(): break`, at a value of `n`. -/
def wakeUp : Nat → Gate J → Gate J
  | 0, s => s
  | n + 1, s =>
    match s.wakeUpNext with
    | some s => wakeUp n s
    | none => s

/-- `release`. -/
def release (s : Gate J) : Gate J :=
  let s := { s with value := s.value + 1 }
  s.wakeUpNext.getD s

variable [DecidableEq J]

/-- One action. -/
def step (s : Gate J) : GateAction J → Option (Gate J)
  | .arrive j =>
    if j ∈ s.arrived then none
    else if s.locked then some { s with
      waiters := s.waiters ++ [(j, .pending)], arrived := s.arrived ++ [j] }
    else some { s with
      value := s.value - 1, holders := s.holders ++ [j]
      arrived := s.arrived ++ [j], granted := s.granted ++ [j] }
  | .cancel j =>
    match Assoc.get? s.waiters j with
    | some .pending => some { s with waiters := Assoc.set s.waiters j .cancelled }
    | some .woken => some { s with waiters := Assoc.set s.waiters j .revoked }
    | _ => none
  | .resume j =>
    let waiters := Assoc.erase s.waiters j
    match Assoc.get? s.waiters j with
    | some .woken => some (wakeUp s.value { s with waiters, holders := s.holders ++ [j] })
    | some .cancelled => some (wakeUp s.value { s with waiters })
    | some .revoked => some (wakeUp (s.value + 1) { s with waiters, value := s.value + 1 })
    | _ => none
  | .leave j => if j ∈ s.holders then some { s with holders := s.holders.erase j }.release else none

end Gate

/-- The tasks at a semaphore of `n` permits. -/
def gate {J : Type} [DecidableEq J] (n : Nat) : Lts (Gate J) (GateAction J) where
  init s := s = { value := n }
  step := Gate.step

namespace Gate

variable {J : Type}

/-! ## Waking -/

section
variable {q q' : List (J × Waiter)} {j : J} {s s' : Gate J}

@[simp] theorem pending_nil : pending ([] : List (J × Waiter)) = [] := rfl

theorem pending_cons (p : J × Waiter) (q : List (J × Waiter)) :
    pending (p :: q) = if p.2 = .pending then p.1 :: pending q else pending q := by
  unfold pending
  by_cases h : p.2 = .pending <;> simp [h]

@[simp] theorem pending_append (q q' : List (J × Waiter)) :
    pending (q ++ q') = pending q ++ pending q' := by
  simp [pending]

@[simp] theorem credits_nil : credits ([] : List (J × Waiter)) = 0 := rfl

@[simp] theorem credits_cons (p : J × Waiter) (q : List (J × Waiter)) :
    credits (p :: q) = p.2.credit + credits q := by
  simp [credits]

@[simp] theorem credits_append (q q' : List (J × Waiter)) :
    credits (q ++ q') = credits q + credits q' := by
  simp [credits]

theorem wakeFirst_none (h : wakeFirst q = none) : pending q = [] := by
  induction q with
  | nil => rfl
  | cons p q ih =>
    by_cases hp : p.2 = .pending
    · simp [wakeFirst, hp] at h
    · rw [pending_cons, if_neg hp]
      exact ih (by simpa [wakeFirst, hp] using h)

/-- The first task that waits is woken, and nothing else changes. -/
theorem wakeFirst_some (h : wakeFirst q = some (j, q')) :
    pending q = j :: pending q' ∧ credits q' = credits q + 1 ∧ Assoc.keys q' = Assoc.keys q ∧
      ∀ p ∈ q', p ∈ q ∨ p.2 = .woken := by
  induction q generalizing q' with
  | nil => simp [wakeFirst] at h
  | cons p q ih =>
    obtain ⟨k, turn⟩ := p
    by_cases hp : turn = .pending
    · simp only [wakeFirst, hp, ↓reduceIte, Option.some.injEq, Prod.mk.injEq] at h
      obtain ⟨rfl, rfl⟩ := h
      subst hp
      refine ⟨by simp [pending_cons], by simp [Waiter.credit, Nat.add_comm], rfl, fun p hp => ?_⟩
      grind
    · simp only [wakeFirst, hp, ↓reduceIte, Option.map_eq_some_iff, Prod.mk.injEq] at h
      obtain ⟨⟨_, r⟩, hr, rfl, rfl⟩ := h
      obtain ⟨hpend, hcredit, hkeys, hturns⟩ := ih hr
      refine ⟨by simp [pending_cons, hp, hpend], ?_, by simpa [Assoc.keys] using hkeys, ?_⟩
      · rw [credits_cons, credits_cons, hcredit, Nat.add_assoc]
      · intro p hp
        rcases List.mem_cons.mp hp with rfl | hp
        · exact .inl List.mem_cons_self
        · exact (hturns p hp).imp_left (List.mem_cons_of_mem _)

/-- From `s` to `s'` the tasks `js` are woken, and nothing else happens. -/
structure Woken (s s' : Gate J) (js : List J) : Prop where
  value : s'.value + js.length = s.value
  pending : pending s.waiters = js ++ pending s'.waiters
  credits : credits s'.waiters = credits s.waiters + js.length
  keys : Assoc.keys s'.waiters = Assoc.keys s.waiters
  turns : ∀ p ∈ s'.waiters, p ∈ s.waiters ∨ p.2 = .woken
  holders : s'.holders = s.holders
  arrived : s'.arrived = s.arrived
  granted : s'.granted = s.granted ++ js

theorem Woken.refl (s : Gate J) : Woken s s [] :=
  ⟨rfl, rfl, rfl, rfl, fun _ hp => .inl hp, rfl, rfl, by simp⟩

theorem Woken.trans {s₁ s₂ s₃ : Gate J} {js ks : List J} (h : Woken s₁ s₂ js)
    (h' : Woken s₂ s₃ ks) : Woken s₁ s₃ (js ++ ks) where
  value := by have := h.value; have := h'.value; rw [List.length_append]; omega
  pending := by rw [h.pending, h'.pending, List.append_assoc]
  credits := by rw [h'.credits, h.credits, List.length_append, Nat.add_assoc]
  keys := h'.keys.trans h.keys
  turns p hp := (h'.turns p hp).elim (h.turns p) .inr
  holders := h'.holders.trans h.holders
  arrived := h'.arrived.trans h.arrived
  granted := by rw [h'.granted, h.granted, List.append_assoc]

theorem wakeUpNext_none (h : s.wakeUpNext = none) : pending s.waiters = [] :=
  wakeFirst_none (by simpa [wakeUpNext] using h)

theorem wakeUpNext_some (hv : 0 < s.value) (h : s.wakeUpNext = some s') :
    ∃ j, Woken s s' [j] := by
  simp only [wakeUpNext, Option.map_eq_some_iff] at h
  obtain ⟨⟨j, q⟩, hq, rfl⟩ := h
  obtain ⟨hpend, hcredit, hkeys, hturns⟩ := wakeFirst_some hq
  exact ⟨j, Nat.succ_pred_eq_of_pos hv, hpend, hcredit, hkeys, hturns, rfl, rfl, rfl⟩

/-- The loop ends without a permit that is free, or without a task that waits. -/
theorem wakeUp_spec : ∀ (n : Nat) (s : Gate J), s.value = n →
    ∃ js, Woken s (wakeUp n s) js ∧ ((wakeUp n s).value = 0 ∨ pending (wakeUp n s).waiters = []) := by
  intro n
  induction n with
  | zero => exact fun s h => ⟨[], .refl s, .inl h⟩
  | succ n ih =>
    intro s h
    cases hw : s.wakeUpNext with
    | none =>
      rw [wakeUp, hw]
      exact ⟨[], .refl s, .inr (wakeUpNext_none hw)⟩
    | some s' =>
      obtain ⟨j, hj⟩ := wakeUpNext_some (by omega) hw
      have hvalue := hj.value
      obtain ⟨js, hjs, hend⟩ := ih s' (by simp at hvalue; omega)
      rw [wakeUp, hw]
      exact ⟨[j] ++ js, hj.trans hjs, hend⟩

/-- A release wakes a task, if one waits. -/
theorem release_spec (s : Gate J) : ∃ js, Woken { s with value := s.value + 1 } s.release js ∧
    (pending s.waiters ≠ [] → js ≠ []) := by
  cases hw : wakeUpNext { s with value := s.value + 1 } with
  | none =>
    rw [release, hw]
    exact ⟨[], .refl _, fun h => absurd (wakeUpNext_none hw) h⟩
  | some s' =>
    obtain ⟨j, hj⟩ := wakeUpNext_some (Nat.succ_pos _) hw
    rw [release, hw]
    exact ⟨[j], hj, by simp⟩

end

/-! ## What an action does -/

section
variable {s s' : Gate J} {j : J} [DecidableEq J]

/-- A task queues, or takes a permit if nobody waits for one. -/
theorem arrive_cases (hs : s.step (.arrive j) = some s') : j ∉ s.arrived ∧
    (s.locked = true ∧ s' = { s with
        waiters := s.waiters ++ [(j, .pending)], arrived := s.arrived ++ [j] } ∨
      s.locked = false ∧ s' = { s with
        value := s.value - 1, holders := s.holders ++ [j]
        arrived := s.arrived ++ [j], granted := s.granted ++ [j] }) := by
  simp only [step] at hs
  split at hs
  · cases hs
  rename_i hj
  split at hs
  · rename_i hlocked
    cases hs
    exact ⟨hj, .inl ⟨hlocked, rfl⟩⟩
  · rename_i hlocked
    cases hs
    exact ⟨hj, .inr ⟨by simpa using hlocked, rfl⟩⟩

theorem cancel_cases (hs : s.step (.cancel j) = some s') : ∃ turn turn',
    Assoc.get? s.waiters j = some turn ∧ turn'.credit = turn.credit ∧ turn' ≠ .pending ∧
      s' = { s with waiters := Assoc.set s.waiters j turn' } := by
  simp only [step] at hs
  split at hs
  · rename_i hturn
    cases hs
    exact ⟨_, .cancelled, hturn, rfl, by simp, rfl⟩
  · rename_i hturn
    cases hs
    exact ⟨_, .revoked, hturn, rfl, by simp, rfl⟩
  · cases hs

/-- A task whose future is done leaves the queue; its permit, if it has one, is its own or free; and
what is free is passed on. -/
theorem resume_cases (hs : s.step (.resume j) = some s') : ∃ turn value holders js,
    Assoc.get? s.waiters j = some turn ∧ turn ≠ .pending ∧
      value + holders.length = s.value + turn.credit + s.holders.length ∧
      holders = (if turn = .woken then s.holders ++ [j] else s.holders) ∧
      Woken { s with value, holders, waiters := Assoc.erase s.waiters j } s' js ∧
      (s'.value = 0 ∨ pending s'.waiters = []) := by
  simp only [step] at hs
  split at hs
  · rename_i hturn
    cases hs
    obtain ⟨js, hw, hend⟩ := wakeUp_spec s.value
      { s with waiters := Assoc.erase s.waiters j, holders := s.holders ++ [j] } rfl
    exact ⟨_, s.value, s.holders ++ [j], js, hturn, by simp, by simp [Waiter.credit]; omega,
      rfl, hw, hend⟩
  · rename_i hturn
    cases hs
    obtain ⟨js, hw, hend⟩ := wakeUp_spec s.value
      { s with waiters := Assoc.erase s.waiters j } rfl
    exact ⟨_, s.value, s.holders, js, hturn, by simp, rfl, rfl, hw, hend⟩
  · rename_i hturn
    cases hs
    obtain ⟨js, hw, hend⟩ := wakeUp_spec (s.value + 1)
      { s with waiters := Assoc.erase s.waiters j, value := s.value + 1 } rfl
    exact ⟨_, s.value + 1, s.holders, js, hturn, by simp, rfl, rfl, hw, hend⟩
  · cases hs

/-- A holder gives its permit back, to a task that waits, if there is one. -/
theorem leave_cases (hs : s.step (.leave j) = some s') : j ∈ s.holders ∧ ∃ js,
    Woken { s with value := s.value + 1, holders := s.holders.erase j } s' js ∧
      (pending s.waiters ≠ [] → js ≠ []) := by
  simp only [step] at hs
  split at hs
  · rename_i hj
    cases hs
    exact ⟨hj, release_spec { s with holders := s.holders.erase j }⟩
  · cases hs

end

/-! ## The invariant -/

/-- `Ok`, at a point where a permit may still have to be passed on. -/
structure Held (n : Nat) (s : Gate J) : Prop where
  permits : s.value + credits s.waiters + s.holders.length = n
  order : List.Sublist (s.granted ++ pending s.waiters) s.arrived
  arrived : s.arrived.Nodup
  present : (Assoc.keys s.waiters ++ s.holders).Nodup
  known : ∀ j ∈ Assoc.keys s.waiters ++ s.holders, j ∈ s.arrived

/-- What every action keeps. -/
structure Ok (n : Nat) (s : Gate J) : Prop extends Held n s where
  /-- A permit is free while a task waits only until a task that has one runs. -/
  passed : pending s.waiters ≠ [] → 0 < s.value → 0 < credits s.waiters

section
variable {n : Nat} {s s' : Gate J} {js : List J}

theorem Held.woken (h : Held n s) (hw : Woken s s' js) : Held n s' where
  permits := by
    have := h.permits
    have := hw.value
    rw [hw.credits, hw.holders]
    omega
  order := by rw [hw.granted, hw.arrived, List.append_assoc, ← hw.pending]; exact h.order
  arrived := hw.arrived ▸ h.arrived
  present := by rw [hw.keys, hw.holders]; exact h.present
  known := by rw [hw.keys, hw.holders, hw.arrived]; exact h.known

/-- A future that is not cancelled is one of a task that waits or has a permit. -/
theorem pending_or_credit {q : List (J × Waiter)} {p : J × Waiter} (hp : p ∈ q)
    (hturn : p.2 ≠ .cancelled) : pending q ≠ [] ∨ 0 < credits q := by
  obtain ⟨a, b, rfl⟩ := List.append_of_mem hp
  obtain ⟨j, turn⟩ := p
  cases turn with
  | pending => exact .inl (by simp [pending_cons])
  | cancelled => exact absurd rfl hturn
  | woken | revoked =>
    refine .inr ?_
    rw [credits_append, credits_cons]
    simp only [Waiter.credit]
    omega

theorem mem_of_pending {q : List (J × Waiter)} (h : pending q ≠ []) : ∃ p ∈ q, p.2 = .pending := by
  obtain ⟨j, hj⟩ := List.exists_mem_of_ne_nil _ h
  obtain ⟨p, hp, -⟩ := List.mem_map.mp hj
  exact ⟨p, (List.mem_filter.mp hp).1, by simpa using (List.mem_filter.mp hp).2⟩

/-- A queue that differs in the futures of tasks that no longer wait. -/
theorem Ok.requeue (h : Ok n s) {q : List (J × Waiter)} (hkeys : Assoc.keys q = Assoc.keys s.waiters)
    (hcredits : credits q = credits s.waiters)
    (hpend : List.Sublist (pending q) (pending s.waiters)) : Ok n { s with waiters := q } where
  permits := hcredits ▸ h.permits
  order := ((List.Sublist.refl _).append hpend).trans h.order
  arrived := h.arrived
  present := hkeys ▸ h.present
  known := hkeys ▸ h.known
  passed h0 := hcredits ▸ h.passed fun h1 => h0 (List.sublist_nil.mp (h1 ▸ hpend))

theorem Ok.init : Ok n ({ value := n } : Gate J) :=
  ⟨⟨rfl, by simp, by simp, by simp [Assoc.keys], by simp [Assoc.keys]⟩, by simp⟩

variable [DecidableEq J]

theorem Ok.arrive {j : J} (h : Ok n s) (hs : s.step (.arrive j) = some s') : Ok n s' := by
  obtain ⟨hj, hs⟩ := arrive_cases hs
  have hnew : j ∉ Assoc.keys s.waiters ++ s.holders := fun hm => hj (h.known j hm)
  have harrived : (s.arrived ++ [j]).Nodup := by
    rw [List.nodup_append]
    exact ⟨h.arrived, List.nodup_singleton j, by rintro a ha b hb rfl; exact hj (by simp_all)⟩
  have hpresent := h.present
  have hknown := h.known
  have hpermits := h.permits
  rcases hs with ⟨hlocked, rfl⟩ | ⟨hlocked, rfl⟩
  · -- the task queues behind a task that waits or is to run
    refine ⟨⟨by simpa [Waiter.credit] using hpermits, ?_, harrived, ?_, ?_⟩, fun _ hv => ?_⟩
    · simp only [pending_append]
      rw [← List.append_assoc]
      exact h.order.append (by simp [pending_cons])
    · rw [Assoc.keys_append]
      simp only [Assoc.keys, List.map_cons, List.map_nil] at hpresent hnew ⊢
      grind
    · rw [Assoc.keys_append]
      simp only [Assoc.keys, List.map_cons, List.map_nil] at hknown ⊢
      grind
    · simp only [locked, decide_eq_true_eq] at hlocked
      obtain ⟨p, hp, hturn⟩ : ∃ p ∈ s.waiters, p.2 ≠ .cancelled := by
        rcases hlocked with h0 | h0
        · exact absurd h0 (Nat.ne_of_gt hv)
        · simpa using h0
      have hcredit : 0 < credits s.waiters := by
        rcases pending_or_credit hp hturn with h0 | h0
        · exact h.passed h0 hv
        · exact h0
      rw [credits_append]
      omega
  · -- nobody waits, so the task overtakes nobody
    simp only [locked, decide_eq_false_iff_not, not_or] at hlocked
    obtain ⟨hv, hnone⟩ := hlocked
    have hpend : pending s.waiters = [] := by
      by_contra h0
      obtain ⟨p, hp, hturn⟩ := mem_of_pending h0
      exact hnone (List.any_eq_true.mpr ⟨p, hp, by simp [hturn]⟩)
    have horder := h.order
    rw [hpend, List.append_nil] at horder
    refine ⟨⟨?_, ?_, harrived, ?_, ?_⟩, fun h0 => absurd hpend h0⟩
    · simp only [List.length_append, List.length_cons, List.length_nil]
      omega
    · rw [hpend, List.append_nil]
      exact horder.append (List.Sublist.refl _)
    · rw [← List.append_assoc]
      grind
    · rw [← List.append_assoc]
      grind

theorem Ok.cancel {j : J} (h : Ok n s) (hs : s.step (.cancel j) = some s') : Ok n s' := by
  obtain ⟨turn, turn', hturn, hcredit, hdone, rfl⟩ := cancel_cases hs
  obtain ⟨a, b, hq, hset, -⟩ := Assoc.exists_split h.present.of_append_left hturn
  refine h.requeue ?_ ?_ ?_ <;> rw [hset, hq]
  · simp [Assoc.keys]
  · simp [hcredit]
  · simp [pending_cons, hdone]
    split <;> simp

/-- A task leaves the queue, and its permit, if it has one, goes to the task or is free. -/
theorem Held.dequeue {j : J} {turn : Waiter} (h : Held n s)
    (hturn : Assoc.get? s.waiters j = some turn) (hdone : turn ≠ .pending) {value : Nat}
    {holders : List J} (hpermits : value + holders.length = s.value + turn.credit + s.holders.length)
    (hholders : holders = if turn = .woken then s.holders ++ [j] else s.holders) :
    Held n { s with value, holders, waiters := Assoc.erase s.waiters j } := by
  obtain ⟨a, b, hq, -, herase⟩ := Assoc.exists_split h.present.of_append_left hturn
  have hall := h.permits
  have horder := h.order
  have hpresent := h.present
  have hknown := h.known
  rw [hq] at hall horder hpresent hknown
  rw [herase]
  refine ⟨?_, ?_, h.arrived, ?_, ?_⟩
  · simp only [credits_append, credits_cons] at hall ⊢
    omega
  · simpa [pending_cons, hdone] using horder
  · simp only [Assoc.keys_append, Assoc.keys_cons] at hpresent ⊢
    split at hholders <;> subst hholders <;> grind
  · simp only [Assoc.keys_append, Assoc.keys_cons] at hknown ⊢
    split at hholders <;> subst hholders <;> grind

theorem Ok.resume {j : J} (h : Ok n s) (hs : s.step (.resume j) = some s') : Ok n s' := by
  obtain ⟨turn, value, holders, js, hturn, hdone, hpermits, hholders, hw, hend⟩ := resume_cases hs
  refine ⟨(h.dequeue hturn hdone hpermits hholders).woken hw, fun hp hv => ?_⟩
  rcases hend with h0 | h0
  · omega
  · exact absurd h0 hp

theorem Ok.leave {j : J} (h : Ok n s) (hs : s.step (.leave j) = some s') : Ok n s' := by
  obtain ⟨hj, js, hw, hwake⟩ := leave_cases hs
  have hpermits := h.permits
  have hpos := List.length_pos_of_mem hj
  have hsub : List.Sublist (Assoc.keys s.waiters ++ s.holders.erase j)
      (Assoc.keys s.waiters ++ s.holders) :=
    (List.Sublist.refl _).append List.erase_sublist
  have hheld : Held n { s with value := s.value + 1, holders := s.holders.erase j } := by
    refine ⟨?_, h.order, h.arrived, h.present.sublist hsub, fun k hk => h.known k (hsub.subset hk)⟩
    rw [List.length_erase_of_mem hj]
    show s.value + 1 + credits s.waiters + (s.holders.length - 1) = n
    omega
  refine ⟨hheld.woken hw, fun hp _ => ?_⟩
  have hjs : 0 < js.length := by
    refine List.length_pos_iff.mpr (hwake fun h0 => hp ?_)
    have hpend : pending s.waiters = js ++ pending s'.waiters := hw.pending
    rw [h0] at hpend
    exact (List.append_eq_nil_iff.mp hpend.symm).2
  rw [hw.credits]
  omega

theorem Ok.step {a : GateAction J} (h : Ok n s) (hs : s.step a = some s') : Ok n s' := by
  cases a with
  | arrive j => exact h.arrive hs
  | cancel j => exact h.cancel hs
  | resume j => exact h.resume hs
  | leave j => exact h.leave hs

end

/-! ## What it gives the tasks -/

section
variable {n : Nat} {s s' : Gate J}

/-- No more tasks hold a permit than there are permits. -/
theorem Ok.holders_le (h : Ok n s) : s.holders.length ≤ n := by
  have := h.permits
  omega

/-- While a task waits, and no task with a permit is to run, every permit is held. -/
theorem Ok.full (h : Ok n s) (hp : pending s.waiters ≠ []) (hc : credits s.waiters = 0) :
    s.holders.length = n := by
  have hpermits := h.permits
  have hv : s.value = 0 := by
    by_contra h0
    have := h.passed hp (Nat.pos_of_ne_zero h0)
    omega
  omega

theorem Ok.nodup_pending (h : Ok n s) : (pending s.waiters).Nodup :=
  ((List.sublist_append_right _ _).trans h.order).nodup h.arrived

theorem exists_credit {q : List (J × Waiter)} (h : 0 < credits q) : ∃ p ∈ q, p.2.credit = 1 := by
  induction q with
  | nil => exact absurd h (by simp)
  | cons p q ih =>
    by_cases hp : p.2.credit = 1
    · exact ⟨p, List.mem_cons_self, hp⟩
    · have hzero : p.2.credit = 0 := by
        obtain ⟨j, turn⟩ := p
        cases turn <;> simp_all [Waiter.credit]
      rw [credits_cons, hzero, Nat.zero_add] at h
      obtain ⟨p', hp', hcredit⟩ := ih h
      exact ⟨p', List.mem_cons_of_mem _ hp', hcredit⟩

variable [DecidableEq J]

/-- While a task waits, every permit is held, or a task that has one is to run. -/
theorem Ok.full_or_credit (h : Ok n s) (hp : pending s.waiters ≠ []) : s.holders.length = n ∨
    ∃ j turn, Assoc.get? s.waiters j = some turn ∧ turn.credit = 1 := by
  by_cases hc : credits s.waiters = 0
  · exact .inl (h.full hp hc)
  · obtain ⟨⟨j, turn⟩, hj, hcredit⟩ := exists_credit (Nat.pos_of_ne_zero hc)
    exact .inr ⟨j, turn, (Assoc.mem_iff_get? h.present.of_append_left).mp hj, hcredit⟩

/-- A task that has a permit can run. It then holds the permit, unless it has been cancelled, and no
permit is free while a task waits. -/
theorem Ok.resume_credit (h : Ok n s) {j : J} {turn : Waiter}
    (hturn : Assoc.get? s.waiters j = some turn) (hcredit : turn.credit = 1) :
    ∃ s', s.step (.resume j) = some s' ∧ (j ∈ s'.holders ↔ turn = .woken) ∧
      (pending s'.waiters ≠ [] → s'.value = 0) := by
  have hout : j ∉ s.holders := fun hm =>
    (List.nodup_append.mp h.present).2.2 j (Assoc.mem_keys.mpr (by simp [hturn])) j hm rfl
  have hruns : ∃ s', s.step (.resume j) = some s' := by
    cases turn with
    | pending | cancelled => cases hcredit
    | woken | revoked => exact ⟨_, by simp only [Gate.step, hturn]; rfl⟩
  obtain ⟨s', hs⟩ := hruns
  obtain ⟨turn', value, holders, js, hturn', -, -, hholders, hw, hend⟩ := resume_cases hs
  obtain rfl : turn = turn' := Option.some.inj (hturn.symm.trans hturn')
  refine ⟨s', hs, ?_, fun hp => hend.resolve_right hp⟩
  have hs' : s'.holders = holders := hw.holders
  rw [hs', hholders]
  by_cases hwoken : turn = .woken
  · simp [hwoken]
  · simp [hwoken, hout]

/-- A task that has had a permit came before every task that still waits. -/
theorem Ok.before (h : Ok n s) {j k : J} (hj : j ∈ s.granted) (hk : k ∈ pending s.waiters) :
    s.arrived.idxOf j < s.arrived.idxOf k := by
  obtain ⟨l, l', hl, hgranted, hpend⟩ := List.append_sublist_iff.mp h.order
  have hn := h.arrived
  rw [hl, List.nodup_append] at hn
  have hjl := hgranted.subset hj
  have hkl : k ∉ l := fun hm => hn.2.2 k hm k (hpend.subset hk) rfl
  rw [hl, List.idxOf_append_of_mem hjl, List.idxOf_append_of_notMem hkl]
  have := List.idxOf_lt_length_of_mem hjl
  omega

/-- The place of `j` in a list, from 1. -/
def place (j : J) (l : List J) : Nat := if j ∈ l then l.idxOf j + 1 else 0

theorem place_cons_le {j k : J} {l : List J} (h : (k :: l).Nodup) :
    place j l ≤ place j (k :: l) - 1 := by
  unfold place
  by_cases hj : j ∈ l
  · have hk : k ≠ j := by rintro rfl; exact (List.nodup_cons.mp h).1 hj
    simp [hj, List.idxOf_cons_ne l hk]
  · simp [hj]

theorem place_le_of_sublist {j : J} {l l' : List J} (hn : l.Nodup) (h : List.Sublist l' l) :
    place j l' ≤ place j l := by
  induction h with
  | slnil => exact Nat.le_refl _
  | cons k _ ih =>
    have := ih (List.nodup_cons.mp hn).2
    have := place_cons_le (j := j) hn
    omega
  | cons_cons k _ ih =>
    have := ih (List.nodup_cons.mp hn).2
    by_cases hk : k = j
    · subst hk
      simp [place]
    · unfold place at this ⊢
      simp only [List.mem_cons, Ne.symm hk, false_or, List.idxOf_cons_ne _ hk]
      grind

theorem place_concat {j k : J} {l : List J} (h : k ≠ j) : place j (l ++ [k]) = place j l := by
  unfold place
  by_cases hj : j ∈ l
  · simp [hj, List.idxOf_append_of_mem]
  · simp [hj, Ne.symm h]

/-- How many tasks are to be woken before `j`, and `j` itself, while it waits. -/
def ahead (j : J) (s : Gate J) : Nat := place j (pending s.waiters)

theorem place_le_of_woken {js : List J} (hw : Woken s s' js) (hn : (pending s.waiters).Nodup) (j : J) :
    place j (pending s'.waiters) ≤ place j (pending s.waiters) := by
  refine place_le_of_sublist hn ?_
  rw [hw.pending]
  exact List.sublist_append_right _ _

/-- A task that queues does so behind the others. -/
theorem Ok.ahead_arrive {j k : J} (hj : j ∈ s.arrived)
    (hs : s.step (.arrive k) = some s') : ahead j s' ≤ ahead j s := by
  obtain ⟨hk, ⟨-, rfl⟩ | ⟨-, rfl⟩⟩ := arrive_cases hs
  · have hne : k ≠ j := fun e => hk (e ▸ hj)
    refine Nat.le_of_eq ?_
    simp only [ahead, pending_append, pending_cons, ↓reduceIte, pending_nil]
    exact place_concat hne
  · exact Nat.le_refl _

theorem Ok.ahead_cancel (h : Ok n s) {j k : J} (hs : s.step (.cancel k) = some s') :
    ahead j s' ≤ ahead j s := by
  obtain ⟨turn, turn', hturn, -, hdone, rfl⟩ := cancel_cases hs
  obtain ⟨a, b, hq, hset, -⟩ := Assoc.exists_split h.present.of_append_left hturn
  refine place_le_of_sublist h.nodup_pending ?_
  rw [hset, hq]
  simp [pending_cons, hdone]
  split <;> simp

theorem pending_erase {q : List (J × Waiter)} {j : J} {turn : Waiter} (hq : (Assoc.keys q).Nodup)
    (hturn : Assoc.get? q j = some turn) (hdone : turn ≠ .pending) :
    pending (Assoc.erase q j) = pending q := by
  obtain ⟨a, b, rfl, -, herase⟩ := Assoc.exists_split hq hturn
  simp [herase, pending_cons, hdone]

theorem Ok.ahead_resume (h : Ok n s) {j k : J} (hs : s.step (.resume k) = some s') :
    ahead j s' ≤ ahead j s := by
  obtain ⟨turn, value, holders, js, hturn, hdone, -, -, hw, -⟩ := resume_cases hs
  have hn := h.nodup_pending
  unfold ahead
  rw [← pending_erase h.present.of_append_left hturn hdone] at hn ⊢
  exact place_le_of_woken hw hn j

/-- A release brings every task that waits one place nearer. -/
theorem Ok.ahead_leave (h : Ok n s) {j k : J} (hs : s.step (.leave k) = some s') :
    ahead j s' ≤ ahead j s - 1 := by
  obtain ⟨-, js, hw, hwake⟩ := leave_cases hs
  have hn := h.nodup_pending
  have hpend : pending s.waiters = js ++ pending s'.waiters := hw.pending
  unfold ahead
  cases js with
  | nil =>
    have hnil : pending s.waiters = [] := by
      by_contra h0
      exact hwake h0 rfl
    rw [hnil, List.nil_append] at hpend
    simp [← hpend, place]
  | cons i js =>
    rw [hpend] at hn ⊢
    exact Nat.le_trans
      (place_le_of_sublist (List.nodup_cons.mp hn).2 (List.sublist_append_right js _))
      (place_cons_le hn)

theorem Ok.ahead_step (h : Ok n s) {a : GateAction J} {j : J} (hj : j ∈ s.arrived)
    (hs : s.step a = some s') : ahead j s' ≤ ahead j s - if a.isLeave then 1 else 0 := by
  cases a with
  | arrive k => exact Ok.ahead_arrive hj hs
  | cancel k => exact h.ahead_cancel hs
  | resume k => exact h.ahead_resume hs
  | leave k => exact h.ahead_leave hs

/-- A task that has arrived stays known. -/
theorem arrived_step {a : GateAction J} {j : J} (hj : j ∈ s.arrived) (hs : s.step a = some s') :
    j ∈ s'.arrived := by
  cases a with
  | arrive k =>
    obtain ⟨-, ⟨-, rfl⟩ | ⟨-, rfl⟩⟩ := arrive_cases hs <;> exact List.mem_append_left _ hj
  | cancel k =>
    obtain ⟨turn, turn', -, -, -, rfl⟩ := cancel_cases hs
    exact hj
  | resume k =>
    obtain ⟨turn, value, holders, js, -, -, -, -, hw, -⟩ := resume_cases hs
    rw [hw.arrived]
    exact hj
  | leave k =>
    obtain ⟨-, js, hw, -⟩ := leave_cases hs
    rw [hw.arrived]
    exact hj

/-- A task that waits goes on waiting until it gets a permit, unless it is cancelled. -/
theorem Ok.granted_step (h : Ok n s) {a : GateAction J} {j : J} (ha : a ≠ .cancel j)
    (hj : j ∈ s.granted ++ pending s.waiters) (hs : s.step a = some s') :
    j ∈ s'.granted ++ pending s'.waiters := by
  cases a with
  | arrive k =>
    obtain ⟨-, ⟨-, rfl⟩ | ⟨-, rfl⟩⟩ := arrive_cases hs <;> simp only [pending_append] <;> grind
  | cancel k =>
    obtain ⟨turn, turn', hturn, -, hdone, rfl⟩ := cancel_cases hs
    obtain ⟨b, c, hq, hset, -⟩ := Assoc.exists_split h.present.of_append_left hturn
    have hk : k ≠ j := fun e => ha (e ▸ rfl)
    rw [hq] at hj
    rw [hset]
    simp only [pending_append, pending_cons, hdone, ↓reduceIte] at hj ⊢
    grind
  | resume k =>
    obtain ⟨turn, value, holders, js, hturn, hdone, -, -, hw, -⟩ := resume_cases hs
    have hpend := hw.pending
    rw [pending_erase h.present.of_append_left hturn hdone] at hpend
    rw [hw.granted, List.append_assoc, ← hpend]
    exact hj
  | leave k =>
    obtain ⟨-, js, hw, -⟩ := leave_cases hs
    rw [hw.granted, List.append_assoc, ← hw.pending]
    exact hj

/-- A task that waits, and is not cancelled, gets a permit once there have been as many releases as
there are tasks up to it in the queue. -/
theorem Ok.granted_after (h : Ok n s) {j : J} (hj : j ∈ pending s.waiters)
    {as : List (GateAction J)} (hr : (gate n).run s as = some s') (hcancel : .cancel j ∉ as)
    (hle : ahead j s ≤ as.countP GateAction.isLeave) : j ∈ s'.granted := by
  have harrived : j ∈ s.arrived := h.order.subset (List.mem_append_right _ hj)
  obtain ⟨-, hahead⟩ := Lts.run_measure (p := GateAction.isLeave)
    (I := fun s => Ok n s ∧ j ∈ s.arrived) (ahead j)
    (fun s a s' ⟨h, hj⟩ hs => ⟨⟨h.step hs, arrived_step hj hs⟩, h.ahead_step hj hs⟩) as
    ⟨h, harrived⟩ hr
  have hstays : Ok n s' ∧ j ∈ s'.granted ++ pending s'.waiters :=
    (Lts.path_of_run_forall (P := fun _ a => a ≠ .cancel j)
      (by rintro a ha _ rfl; exact hcancel ha) hr).preserves
      (I := fun s => Ok n s ∧ j ∈ s.granted ++ pending s.waiters)
      (fun s a s' ⟨h, hj⟩ ha hs => ⟨h.step hs, h.granted_step ha hj hs⟩)
      ⟨h, List.mem_append_right _ hj⟩
  rcases List.mem_append.mp hstays.2 with hg | hp
  · exact hg
  · rw [ahead, place, if_pos hp] at hahead
    omega

end

end Gate
