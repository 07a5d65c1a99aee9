import Music3.Lib.Semaphore

/-!
# The delivery slots

`async with _delivery_slot(request)` in the two routes that deliver audio, over all interleavings:
`music_generation`, which transcodes and measures in the block, and `music_result`, which only
transcodes. Both have opened `audio.wav` before the block, and `work()` closes it in its thread.

A task that is cancelled in the block leaves it at once, and its thread runs on; a thread that the
executor has not started by then never runs. A task that is cancelled outside it never starts one.

* `slots_bound`: the processes at work, and who owns the open descriptors.
* `slots_fair`: what a slot may be while a delivery waits, nobody is overtaken, and every wait ends.
-/

namespace Music3

open Gate

/-- `MAX_CONCURRENT_DELIVERIES`. -/
def maxConcurrentDeliveries : Nat := 2

/-- A run of one of the two routes. -/
structure Delivery where
  id : Nat
  /-- `music_generation`, which also measures. -/
  post : Bool
  deriving DecidableEq

/-- What the thread of a delivery does. -/
inductive Work where
  | transcode
  | measure
  deriving DecidableEq

/-- The deliveries (module doc). -/
structure Deliveries where
  /-- `app.state.delivery_slots`. -/
  slots : Gate Delivery := { value := maxConcurrentDeliveries }
  /-- The deliveries in the block, with the threads that they await. -/
  inside : List (Delivery × Work) := []
  /-- The threads that nobody awaits. -/
  orphans : List (Delivery × Work) := []
  /-- The deliveries whose `audio.wav` is open. -/
  fds : List Delivery := []

/-- What can happen. -/
inductive DeliveryAction where
  /-- A delivery comes to the block. -/
  | arrive (d : Delivery)
  /-- A delivery that waits for its slot runs. -/
  | resume (d : Delivery)
  /-- `work()` has made the temp file, and a POST goes on to `measure`. -/
  | transcoded (d : Delivery)
  /-- The thread has ended, and so has the block, with a result or an exception. -/
  | left (d : Delivery)
  /-- A delivery that waits for its slot is cancelled. -/
  | cancelWaiting (d : Delivery)
  /-- A delivery in the block is cancelled, before or after the executor has started its thread. -/
  | cancelInside (d : Delivery) (started : Bool)
  | orphanEnds (d : Delivery)

namespace DeliveryAction

/-- Nothing is cancelled. -/
def undisturbed : DeliveryAction → Bool
  | cancelWaiting _ | cancelInside _ _ => false
  | _ => true

/-- A slot is given back. -/
def frees : DeliveryAction → Bool
  | left _ | cancelInside _ _ => true
  | _ => false

/-- A thread loses its delivery. -/
def orphans : DeliveryAction → Bool
  | cancelInside _ _ => true
  | _ => false

/-- What happens to the semaphore. -/
def gate? : DeliveryAction → Option (GateAction Delivery)
  | arrive d => some (.arrive d)
  | resume d => some (.resume d)
  | left d | cancelInside d _ => some (.leave d)
  | cancelWaiting d => some (.cancel d)
  | transcoded _ | orphanEnds _ => none

end DeliveryAction

namespace Deliveries

/-- The block of a delivery that has got its slot. -/
def enter (s : Deliveries) (d : Delivery) : Deliveries :=
  if d ∈ s.slots.holders then { s with inside := s.inside ++ [(d, .transcode)] } else s

/-- One action (module doc). -/
def step (s : Deliveries) : DeliveryAction → Option Deliveries
  | .arrive d => (s.slots.step (.arrive d)).map fun slots =>
    enter { s with slots, fds := s.fds ++ [d] } d
  | .resume d => (s.slots.step (.resume d)).map fun slots => enter { s with slots } d
  | .transcoded d =>
    if d.post ∧ Assoc.get? s.inside d = some .transcode then some { s with
      inside := Assoc.set s.inside d .measure, fds := s.fds.erase d }
    else none
  | .left d =>
    match Assoc.get? s.inside d with
    | some work => (s.slots.step (.leave d)).map fun slots => { s with
        slots, inside := Assoc.erase s.inside d
        fds := if work = .transcode then s.fds.erase d else s.fds }
    | none => none
  | .cancelWaiting d => (s.slots.step (.cancel d)).map fun slots => { s with slots }
  | .cancelInside d started =>
    match Assoc.get? s.inside d with
    | some work => (s.slots.step (.leave d)).map fun slots => { s with
        slots, inside := Assoc.erase s.inside d
        orphans := if started then s.orphans ++ [(d, work)] else s.orphans }
    | none => none
  | .orphanEnds d =>
    match Assoc.get? s.orphans d with
    | some work => some { s with
        orphans := Assoc.erase s.orphans d
        fds := if work = .transcode then s.fds.erase d else s.fds }
    | none => none

/-- The deliveries whose threads read `audio.wav`. -/
def reading (s : Deliveries) : List Delivery :=
  (s.inside.filter fun p => p.2 = .transcode).map Prod.fst

end Deliveries

/-- The deliveries as a labelled system. -/
def deliveries : Lts Deliveries DeliveryAction where
  init s := s = {}
  step := Deliveries.step

namespace Deliveries

/-! ## The semaphore under the deliveries -/

section
variable {s s' : Deliveries} {a : DeliveryAction}

@[simp] theorem enter_slots (s : Deliveries) (d : Delivery) : (s.enter d).slots = s.slots := by
  unfold enter
  split <;> rfl

/-- What a step is to the semaphore. -/
theorem step_slots (hs : s.step a = some s') :
    (a.gate?.elim (some s.slots) fun b => s.slots.step b) = some s'.slots := by
  cases a with
  | arrive d | resume d | cancelWaiting d =>
    obtain ⟨slots, hslots, rfl⟩ := Option.map_eq_some_iff.mp hs
    simp [DeliveryAction.gate?, hslots]
  | transcoded d =>
    simp only [step] at hs
    split at hs <;> cases hs
    rfl
  | left d | cancelInside d _ =>
    simp only [step] at hs
    split at hs
    · obtain ⟨slots, hslots, rfl⟩ := Option.map_eq_some_iff.mp hs
      exact hslots
    · cases hs
  | orphanEnds d =>
    simp only [step] at hs
    split at hs <;> cases hs
    rfl

theorem slots_ok_step (hok : Ok maxConcurrentDeliveries s.slots) (hs : s.step a = some s') :
    Ok maxConcurrentDeliveries s'.slots := by
  have hslots := step_slots hs
  cases ha : a.gate? with
  | none =>
    rw [ha, Option.elim_none, Option.some.injEq] at hslots
    exact hslots ▸ hok
  | some b =>
    rw [ha, Option.elim_some] at hslots
    exact hok.step hslots

theorem run_slots {as : List DeliveryAction} (hr : deliveries.run s as = some s') :
    (gate maxConcurrentDeliveries).run s.slots (as.filterMap DeliveryAction.gate?) =
      some s'.slots :=
  Lts.run_filterMap (fun _ _ _ hs => step_slots hs) hr

theorem countP_frees (as : List DeliveryAction) :
    (as.filterMap DeliveryAction.gate?).countP GateAction.isLeave =
      as.countP DeliveryAction.frees := by
  rw [List.countP_filterMap]
  congr 1
  funext a
  cases a <;> rfl

/-! ## The deliveries in the block -/

/-- Every slot that is held is held by a delivery in the block. -/
def Housed (s : Deliveries) : Prop := Assoc.keys s.inside = s.slots.holders

theorem housed_arrive {d : Delivery} (hok : Ok maxConcurrentDeliveries s.slots) (h : Housed s)
    (hs : s.step (.arrive d) = some s') : Housed s' := by
  obtain ⟨slots, hslots, rfl⟩ := Option.map_eq_some_iff.mp hs
  obtain ⟨hd, ⟨-, rfl⟩ | ⟨-, rfl⟩⟩ := arrive_cases hslots
  · have hout : d ∉ s.slots.holders := fun hm => hd (hok.known d (List.mem_append_right _ hm))
    simpa [Housed, enter, hout] using h
  · simpa [Housed, enter, Assoc.keys] using h

theorem housed_leave {d : Delivery} {work : Work} {slots : Gate Delivery}
    (hok : Ok maxConcurrentDeliveries s.slots) (h : Housed s)
    (hwork : Assoc.get? s.inside d = some work) (hs : s.slots.step (.leave d) = some slots) :
    Assoc.keys (Assoc.erase s.inside d) = slots.holders := by
  obtain ⟨-, js, hw, -⟩ := leave_cases hs
  have hkeys : (Assoc.keys s.inside).Nodup := h ▸ hok.present.of_append_right
  obtain ⟨a, b, hin, -, herase⟩ := Assoc.exists_split hkeys hwork
  rw [hw.holders, ← (show Assoc.keys s.inside = s.slots.holders from h), herase]
  rw [hin] at hkeys ⊢
  simp only [Assoc.keys_append, Assoc.keys_cons] at hkeys ⊢
  have hda : d ∉ Assoc.keys a := by grind
  rw [List.erase_append_right _ hda, List.erase_cons_head]

theorem housed_step (hok : Ok maxConcurrentDeliveries s.slots) (h : Housed s)
    (hs : s.step a = some s') : Housed s' := by
  cases a with
  | arrive d => exact housed_arrive hok h hs
  | resume d =>
    obtain ⟨slots, hslots, rfl⟩ := Option.map_eq_some_iff.mp hs
    obtain ⟨turn, value, holders, js, hturn, -, -, rfl, hw, -⟩ := resume_cases hslots
    have hin : d ∈ Assoc.keys s.slots.waiters := Assoc.mem_keys.mpr (by simp [hturn])
    have hout : d ∉ s.slots.holders := fun hm => (List.nodup_append.mp hok.present).2.2 d hin d hm rfl
    have hholders : slots.holders = if turn = .woken then s.slots.holders ++ [d] else s.slots.holders :=
      hw.holders
    unfold Housed enter at *
    split at hholders <;> simp [hholders, hout, Assoc.keys] at h ⊢ <;> exact h
  | transcoded d =>
    simp only [step] at hs
    split at hs
    · rename_i hd
      cases hs
      have hkeys : d ∈ Assoc.keys s.inside := Assoc.mem_keys.mpr (by simp [hd.2])
      simpa [Housed, Assoc.keys_set, hkeys] using h
    · cases hs
  | left d | cancelInside d _ =>
    simp only [step] at hs
    split at hs
    · rename_i hwork
      obtain ⟨slots, hslots, rfl⟩ := Option.map_eq_some_iff.mp hs
      exact housed_leave hok h hwork hslots
    · cases hs
  | cancelWaiting d =>
    obtain ⟨slots, hslots, rfl⟩ := Option.map_eq_some_iff.mp hs
    obtain ⟨_, _, -, -, -, rfl⟩ := cancel_cases hslots
    exact h
  | orphanEnds d =>
    simp only [step] at hs
    split at hs <;> cases hs
    exact h

theorem inv {P : Deliveries → DeliveryAction → Prop} (h : deliveries.Reach P s) :
    Ok maxConcurrentDeliveries s.slots ∧ Housed s :=
  h.invariant (I := fun s => Ok maxConcurrentDeliveries s.slots ∧ Housed s)
    (by rintro _ rfl; exact ⟨.init, rfl⟩) fun _ _ _ ⟨hok, hhoused⟩ _ hs =>
      ⟨slots_ok_step hok hs, housed_step hok hhoused hs⟩

theorem Housed.length_inside (h : Housed s) : s.inside.length = s.slots.holders.length := by
  rw [← (show Assoc.keys s.inside = s.slots.holders from h), Assoc.keys, List.length_map]

end

/-! ## Runs without a cancellation -/

/-- What such a run keeps. -/
structure Calm (s : Deliveries) : Prop where
  ok : Ok maxConcurrentDeliveries s.slots
  housed : Housed s
  orphans : s.orphans = []
  turns : ∀ p ∈ s.slots.waiters, p.2 = .pending ∨ p.2 = .woken
  fds : s.fds.Perm (Assoc.keys s.slots.waiters ++ s.reading)

section
variable {s s' : Deliveries} {d : Delivery} {slots : Gate Delivery}

theorem reading_enter (hd : d ∈ s.slots.holders) : (s.enter d).reading = s.reading ++ [d] := by
  simp [enter, hd, reading]

/-- A delivery that no longer awaits its thread no longer reads. -/
theorem count_reading {a b : List (Delivery × Work)} {work : Work} (x : Delivery)
    (h : s.inside = a ++ (d, work) :: b) :
    s.reading.count x = (if work = .transcode then [d].count x else 0) +
      (reading { s with inside := a ++ b }).count x := by
  rw [reading, h]
  cases work <;> simp [reading, List.count_cons]
  omega

theorem Calm.arrive (h : Calm s) (hs : s.step (.arrive d) = some s') : Calm s' := by
  have hok := slots_ok_step h.ok hs
  have hhoused := housed_step h.ok h.housed hs
  have hcount := List.perm_iff_count.mp h.fds
  obtain ⟨slots, hslots, rfl⟩ := Option.map_eq_some_iff.mp hs
  obtain ⟨hd, ⟨-, rfl⟩ | ⟨-, rfl⟩⟩ := arrive_cases hslots
  · have hout : d ∉ s.slots.holders := fun hm => hd (h.ok.known d (List.mem_append_right _ hm))
    refine ⟨hok, hhoused, by simpa [enter, hout] using h.orphans, ?_, List.perm_iff_count.mpr ?_⟩
    · intro p hp
      simp only [enter_slots, List.mem_append, List.mem_singleton] at hp
      rcases hp with hp | rfl
      · exact h.turns p hp
      · exact .inl rfl
    · intro x
      have := hcount x
      simp only [enter, hout, ↓reduceIte, Assoc.keys, List.map_append, List.map_cons, List.map_nil,
        List.count_append, reading] at this ⊢
      omega
  · refine ⟨hok, hhoused, by simpa [enter] using h.orphans, by simpa using h.turns,
      List.perm_iff_count.mpr fun x => ?_⟩
    have := hcount x
    rw [reading_enter (by simp)]
    simp only [enter, List.mem_append, List.mem_singleton, or_true, ↓reduceIte, List.count_append,
      reading] at this ⊢
    omega

/-- A delivery that waits and runs has got its slot. -/
theorem Calm.resume_cases (h : Calm s) (hs : s.slots.step (.resume d) = some slots) :
    Assoc.get? s.slots.waiters d = some .woken ∧ slots.holders = s.slots.holders ++ [d] ∧
      Assoc.keys slots.waiters = Assoc.keys (Assoc.erase s.slots.waiters d) ∧
      ∀ p ∈ slots.waiters, p ∈ s.slots.waiters ∨ p.2 = .woken := by
  obtain ⟨turn, value, holders, js, hturn, hdone, -, rfl, hw, -⟩ := Gate.resume_cases hs
  have hwoken : turn = .woken := (h.turns _ (Assoc.mem_of_get? hturn)).resolve_left hdone
  subst hwoken
  refine ⟨hturn, hw.holders, hw.keys, fun p hp => ?_⟩
  exact (hw.turns p hp).imp_left fun hp => (List.mem_filter.mp hp).1

theorem Calm.resume (h : Calm s) (hs : s.step (.resume d) = some s') : Calm s' := by
  have hok := slots_ok_step h.ok hs
  have hhoused := housed_step h.ok h.housed hs
  have hcount := List.perm_iff_count.mp h.fds
  obtain ⟨slots, hslots, rfl⟩ := Option.map_eq_some_iff.mp hs
  obtain ⟨hturn, hholders, hkeys, hturns⟩ := h.resume_cases hslots
  have hin : d ∈ slots.holders := by simp [hholders]
  refine ⟨hok, hhoused, by simpa [enter, hin] using h.orphans, ?_, List.perm_iff_count.mpr ?_⟩
  · intro p hp
    rw [enter_slots] at hp
    rcases hturns p hp with hp | hp
    · exact h.turns p hp
    · exact .inr hp
  · intro x
    obtain ⟨a, b, hq, -, herase⟩ := Assoc.exists_split h.ok.present.of_append_left hturn
    have := hcount x
    rw [reading_enter hin, enter_slots, hkeys, herase]
    rw [hq] at this
    simp only [enter, hin, ↓reduceIte, Assoc.keys, List.map_append, List.map_cons, List.count_append,
      List.count_cons, List.count_nil, reading] at this ⊢
    omega

theorem Calm.transcoded (h : Calm s) (hs : s.step (.transcoded d) = some s') : Calm s' := by
  have hok := slots_ok_step h.ok hs
  have hhoused := housed_step h.ok h.housed hs
  have hcount := List.perm_iff_count.mp h.fds
  have hkeys : (Assoc.keys s.inside).Nodup := h.housed ▸ h.ok.present.of_append_right
  simp only [step] at hs
  split at hs
  · rename_i hd
    cases hs
    obtain ⟨a, b, hin, hset, -⟩ := Assoc.exists_split hkeys hd.2
    refine ⟨hok, hhoused, h.orphans, h.turns, List.perm_iff_count.mpr fun x => ?_⟩
    have hreading := count_reading x hin
    have hmeasure := count_reading (s := { s with inside := a ++ (d, .measure) :: b }) x rfl
    have := hcount x
    have hfds : (s.fds.erase d).count x = s.fds.count x - [d].count x := by
      rw [List.count_erase]
      simp [List.count_cons]
    simp only [hset, hfds, List.count_append, ↓reduceIte, reduceCtorEq] at *
    simp only [reading] at *
    omega
  · cases hs

theorem Calm.left (h : Calm s) (hs : s.step (.left d) = some s') : Calm s' := by
  have hok := slots_ok_step h.ok hs
  have hhoused := housed_step h.ok h.housed hs
  have hcount := List.perm_iff_count.mp h.fds
  have hkeys : (Assoc.keys s.inside).Nodup := h.housed ▸ h.ok.present.of_append_right
  simp only [step] at hs
  split at hs
  · rename_i work hwork
    obtain ⟨slots, hslots, rfl⟩ := Option.map_eq_some_iff.mp hs
    obtain ⟨a, b, hin, -, herase⟩ := Assoc.exists_split hkeys hwork
    obtain ⟨-, js, hw, -⟩ := leave_cases hslots
    refine ⟨hok, hhoused, h.orphans, fun p hp => ?_, List.perm_iff_count.mpr fun x => ?_⟩
    · rcases hw.turns p hp with hp | hp
      · exact h.turns p hp
      · exact .inr hp
    · have hreading := count_reading x hin
      have := hcount x
      have hfds : (s.fds.erase d).count x = s.fds.count x - [d].count x := by
        rw [List.count_erase]
        simp [List.count_cons]
      have hwaiters : Assoc.keys slots.waiters = Assoc.keys s.slots.waiters := hw.keys
      rw [herase]
      simp only [hwaiters, List.count_append] at *
      simp only [reading] at *
      split at hreading <;> rename_i hwork <;> simp only [hwork, ↓reduceIte, hfds] <;> omega
  · cases hs

theorem Calm.step (h : Calm s) {a : DeliveryAction} (ha : a.undisturbed)
    (hs : s.step a = some s') : Calm s' := by
  cases a with
  | arrive d => exact h.arrive hs
  | resume d => exact h.resume hs
  | transcoded d => exact h.transcoded hs
  | left d => exact h.left hs
  | cancelWaiting d | cancelInside d _ => cases ha
  | orphanEnds d =>
    simp only [Deliveries.step, h.orphans, Assoc.get?_nil] at hs
    cases hs

theorem calm (h : deliveries.Reach (fun _ a => a.undisturbed) s) : Calm s := by
  refine h.invariant ?_ fun _ _ _ h ha hs => h.step ha hs
  rintro _ rfl
  exact ⟨.init, rfl, rfl, by simp, .refl _⟩

theorem length_orphans_step {a : DeliveryAction} (hs : s.step a = some s') :
    s'.orphans.length ≤ s.orphans.length + if a.orphans then 1 else 0 := by
  cases a with
  | arrive d | resume d =>
    obtain ⟨slots, -, rfl⟩ := Option.map_eq_some_iff.mp hs
    unfold enter
    split <;> simp
  | transcoded d =>
    simp only [step] at hs
    split at hs <;> cases hs
    simp
  | left d =>
    simp only [step] at hs
    split at hs
    · obtain ⟨slots, -, rfl⟩ := Option.map_eq_some_iff.mp hs
      simp
    · cases hs
  | cancelWaiting d =>
    obtain ⟨slots, -, rfl⟩ := Option.map_eq_some_iff.mp hs
    simp
  | cancelInside d started =>
    simp only [step] at hs
    split at hs
    · obtain ⟨slots, -, rfl⟩ := Option.map_eq_some_iff.mp hs
      simp only [DeliveryAction.orphans, ↓reduceIte]
      split <;> simp
    · cases hs
  | orphanEnds d =>
    simp only [step] at hs
    split at hs <;> cases hs
    exact Nat.le_add_right_of_le (List.length_filter_le ..)

theorem length_orphans {as : List DeliveryAction} (hr : deliveries.run s as = some s') :
    s'.orphans.length ≤ s.orphans.length + as.countP DeliveryAction.orphans := by
  induction as generalizing s with
  | nil => cases hr; simp
  | cons a as ih =>
    obtain ⟨t, ht, hr⟩ := Option.bind_eq_some_iff.mp hr
    have := length_orphans_step ht
    have := ih hr
    rw [List.countP_cons]
    omega

end

end Deliveries

/-! ## The results -/

/-- At most two deliveries are in the block, and no more processes are at work than that and one for
each delivery that was cancelled there. Without a cancellation each open descriptor belongs to one
delivery, which waits for its slot or transcodes. -/
theorem slots_bound :
    (∀ as s, deliveries.run {} as = some s → s.inside.length ≤ maxConcurrentDeliveries ∧
      s.inside.length + s.orphans.length ≤
        maxConcurrentDeliveries + as.countP DeliveryAction.orphans) ∧
    ∀ s, deliveries.Reach (fun _ a => a.undisturbed) s →
      s.orphans = [] ∧ s.fds.Perm (Assoc.keys s.slots.waiters ++ s.reading) := by
  refine ⟨fun as s hr => ?_, fun s h => ⟨(Deliveries.calm h).orphans, (Deliveries.calm h).fds⟩⟩
  obtain ⟨hok, hhoused⟩ := Deliveries.inv ⟨{}, rfl, Lts.path_of_run hr⟩
  have hlength := hhoused.length_inside
  have hle := hok.holders_le
  have horphans := Deliveries.length_orphans hr
  simp only [List.length_nil] at horphans
  omega

/-- Each slot is free, in use, or given to a delivery that is still to run. While a delivery waits, both
are in use, or one is so given: perhaps to a delivery that has been cancelled since, and then one
may be free until that delivery runs. A delivery that runs with a slot enters, or passes it on if it
has been cancelled, and leaves none free while another waits. Slots are given in the order of arrival.
A delivery that waits, and is not cancelled, is given its slot once as many have been given back as
there are waiting deliveries up to it, itself included. -/
theorem slots_fair (s : Deliveries) (h : deliveries.Reach Lts.always s) :
    s.slots.value + credits s.slots.waiters + s.inside.length = maxConcurrentDeliveries ∧
    (pending s.slots.waiters ≠ [] → s.inside.length = maxConcurrentDeliveries ∨
      ∃ d turn, Assoc.get? s.slots.waiters d = some turn ∧ turn.credit = 1) ∧
    (∀ d turn, Assoc.get? s.slots.waiters d = some turn → turn.credit = 1 →
      ∃ s', s.step (.resume d) = some s' ∧ (d ∈ Assoc.keys s'.inside ↔ turn = .woken) ∧
        (pending s'.slots.waiters ≠ [] → s'.slots.value = 0)) ∧
    (∀ d ∈ s.slots.granted, ∀ e ∈ pending s.slots.waiters,
      s.slots.arrived.idxOf d < s.slots.arrived.idxOf e) ∧
    ∀ d ∈ pending s.slots.waiters, ∀ as s', deliveries.run s as = some s' →
      .cancelWaiting d ∉ as → ahead d s.slots ≤ as.countP DeliveryAction.frees →
      d ∈ s'.slots.granted := by
  obtain ⟨hok, hhoused⟩ := Deliveries.inv h
  refine ⟨?_, fun hp => ?_, fun d turn hturn hcredit => ?_, fun d hd e he => hok.before hd he, ?_⟩
  · rw [hhoused.length_inside]
    exact hok.permits
  · rw [hhoused.length_inside]
    exact hok.full_or_credit hp
  · obtain ⟨slots, hslots, hin, hnone⟩ := hok.resume_credit hturn hcredit
    have hs : s.step (.resume d) = some (Deliveries.enter { s with slots } d) := by
      simp [Deliveries.step, hslots]
    refine ⟨_, hs, ?_, by simpa using hnone⟩
    rw [Deliveries.housed_step hok hhoused hs, Deliveries.enter_slots]
    exact hin
  · intro d hd as s' hr hcancel hle
    refine hok.granted_after hd (Deliveries.run_slots hr) ?_ ?_
    · simp only [List.mem_filterMap, not_exists, not_and]
      intro a ha hga
      cases a <;> simp [DeliveryAction.gate?] at hga
      subst hga
      exact hcancel ha
    · rw [Deliveries.countP_frees]
      exact hle

/-- Two results in the block, and a POST that waits. -/
def Deliveries.threeArrived : Deliveries where
  slots := {
    value := 0
    waiters := [(⟨2, true⟩, .pending)]
    holders := [⟨0, false⟩, ⟨1, false⟩]
    arrived := [⟨0, false⟩, ⟨1, false⟩, ⟨2, true⟩]
    granted := [⟨0, false⟩, ⟨1, false⟩] }
  inside := [(⟨0, false⟩, .transcode), (⟨1, false⟩, .transcode)]
  fds := [⟨0, false⟩, ⟨1, false⟩, ⟨2, true⟩]

/-- The POST has its slot once one of the others has left. -/
theorem slots_fair_third : ∃ s', deliveries.run .threeArrived [.left ⟨0, false⟩] = some s' ∧
    ⟨2, true⟩ ∈ s'.slots.granted := by
  have hr : deliveries.run {} [.arrive ⟨0, false⟩, .arrive ⟨1, false⟩, .arrive ⟨2, true⟩] =
    some .threeArrived := rfl
  refine ⟨_, rfl, ?_⟩
  exact (slots_fair .threeArrived ⟨{}, rfl, Lts.path_of_run hr⟩).2.2.2.2 ⟨2, true⟩ (by decide)
    [.left ⟨0, false⟩] _ rfl (by simp) (by decide)

end Music3
