import Music3.Lib.Assoc

/-!
# A cache of promises

The promises that a program has made for its keys, which of them it has cached, and the reactions
that are to run. `ask` takes the cached promise of a key or makes and caches one; a reaction that is
added to a promise (`andThen`) is queued when the promise has settled, and `settle` settles one. A
promise that is rejected leaves the cache.

* `Ok.single`: one promise of a key at most is not rejected, and that is the cached one.
* `Ok.again`: a key has a second promise only if the first one was rejected.
* `Fate s i r W D`: the reaction `r` to the promise `i` waits, as `W` says, or it has run and left
  `D a`, where `a` is what the promise has come to. Each operation keeps it.
-/

namespace Promises

/-- A promise waits with its reactions, or has settled; `none` is a rejection. -/
inductive State (β ρ : Type) where
  | pending (reactions : List ρ)
  | settled (answer : Option β)

def State.rejected {β ρ : Type} : State β ρ → Bool
  | settled none => true
  | _ => false

structure Promise (κ β ρ : Type) where
  key : κ
  state : State β ρ

/-- The promises, in their order, the cached ones, by their number, and the queued reactions. -/
structure Cache (κ β ρ : Type) where
  made : List (Promise κ β ρ) := []
  cached : List (κ × Nat) := []
  queue : List (ρ × Option β) := []

variable {κ β ρ : Type} [DecidableEq κ]

namespace Cache

/-- The promise of a key. -/
def ask (s : Cache κ β ρ) (k : κ) : Nat × Cache κ β ρ :=
  match Assoc.get? s.cached k with
  | some i => (i, s)
  | none => (s.made.length, { s with
      made := s.made ++ [⟨k, .pending []⟩]
      cached := Assoc.set s.cached k s.made.length })

omit [DecidableEq κ] in
/-- A reaction to the promise `i`. -/
def andThen (s : Cache κ β ρ) (i : Nat) (r : ρ) : Cache κ β ρ :=
  match s.made[i]? with
  | some ⟨k, .pending rs⟩ => { s with made := s.made.set i ⟨k, .pending (rs ++ [r])⟩ }
  | some ⟨_, .settled a⟩ => { s with queue := s.queue ++ [(r, a)] }
  | none => s

/-- The promise `i` comes to `a`. -/
def settle (s : Cache κ β ρ) (i : Nat) (a : Option β) : Option (Cache κ β ρ) :=
  match s.made[i]? with
  | some ⟨k, .pending rs⟩ => some {
      made := s.made.set i ⟨k, .settled a⟩
      cached := if a.isSome then s.cached else Assoc.erase s.cached k
      queue := s.queue ++ rs.map fun r => (r, a) }
  | _ => none

/-- The keys that a promise has been made for, in their order. -/
def keys (s : Cache κ β ρ) : List κ := s.made.map Promise.key

/-- A key has a promise that is not rejected. -/
def Live (s : Cache κ β ρ) (k : κ) : Prop := ∃ p ∈ s.made, p.key = k ∧ p.state.rejected = false

instance (s : Cache κ β ρ) (k : κ) : Decidable (s.Live k) :=
  inferInstanceAs (Decidable (∃ p ∈ s.made, p.key = k ∧ p.state.rejected = false))

/-- The cached promises are those that are not rejected, and before a promise all of its key are. -/
structure Ok (s : Cache κ β ρ) : Prop where
  cached : ∀ k i, Assoc.get? s.cached k = some i ↔
    ∃ p, s.made[i]? = some p ∧ p.key = k ∧ p.state.rejected = false
  again : ∀ (i j : Nat) (p q : Promise κ β ρ), i < j → s.made[i]? = some p → s.made[j]? = some q →
    p.key = q.key → p.state.rejected = true

/-- What becomes of the reaction `r` to the promise `i` (module doc). -/
inductive Fate (s : Cache κ β ρ) (i : Nat) (r : ρ) (W : Prop) (D : Option β → Prop) : Prop
  | waits (k : κ) (rs : List ρ) : s.made[i]? = some ⟨k, .pending rs⟩ → r ∈ rs → W → Fate s i r W D
  | queued (k : κ) (a : Option β) : s.made[i]? = some ⟨k, .settled a⟩ → (r, a) ∈ s.queue → W →
      Fate s i r W D
  | ran (k : κ) (a : Option β) : s.made[i]? = some ⟨k, .settled a⟩ → D a → Fate s i r W D

/-- `r` is a reaction to the promise `i`, if to any; what is none belongs to every promise. -/
structure Owner (s : Cache κ β ρ) (i : Nat) (r : ρ) : Prop where
  pending : ∀ j k rs, s.made[j]? = some ⟨k, .pending rs⟩ → r ∈ rs → j = i
  queued : ∀ a, (r, a) ∈ s.queue → ∃ k, s.made[i]? = some ⟨k, .settled a⟩

/-- A reaction to a promise satisfies `Q` with the promise's key, also once it is queued. -/
structure Keyed (s : Cache κ β ρ) (Q : ρ → κ → Prop) : Prop where
  pending : ∀ (i : Nat) k rs r, s.made[i]? = some ⟨k, .pending rs⟩ → r ∈ rs → Q r k
  queued : ∀ r a, (r, a) ∈ s.queue → ∃ (i : Nat) (k : κ), s.made[i]? = some ⟨k, .settled a⟩ ∧ Q r k

variable {s s' : Cache κ β ρ} {i j : Nat} {k : κ} {r r' : ρ} {a : Option β} {W : Prop}
  {D : Option β → Prop}

/-! ## What the operations change -/

theorem ask_cached (h : Assoc.get? s.cached k = some i) : s.ask k = (i, s) := by
  unfold ask
  rw [h]

theorem ask_new (h : Assoc.get? s.cached k = none) : s.ask k = (s.made.length, { s with
    made := s.made ++ [⟨k, .pending []⟩], cached := Assoc.set s.cached k s.made.length }) := by
  unfold ask
  rw [h]

@[simp] theorem ask_queue : (s.ask k).2.queue = s.queue := by
  unfold ask
  split <;> rfl

theorem ask_made {p : Promise κ β ρ} (h : (s.ask k).2.made[j]? = some p) :
    s.made[j]? = some p ∨ j = s.made.length ∧ p = ⟨k, .pending []⟩ := by
  unfold ask at h
  split at h
  · exact .inl h
  · rw [List.getElem?_append] at h
    split at h
    · exact .inl h
    · rename_i hj
      obtain ⟨hz, rfl⟩ := List.getElem?_eq_some_iff.mp h
      simp only [List.length_singleton] at hz
      exact .inr ⟨by omega, by simp⟩

theorem made_ask {p : Promise κ β ρ} (h : s.made[j]? = some p) :
    (s.ask k).2.made[j]? = some p := by
  unfold ask
  split
  · exact h
  · exact List.getElem?_append_left (List.getElem?_eq_some_iff.mp h).1 ▸ h

omit [DecidableEq κ] in
/-- A reaction is added to the pending promise, or queued with what the promise has come to. -/
theorem andThen_cases {p : Promise κ β ρ} (h : s.made[i]? = some p) (r : ρ) :
    (∃ rs, p.state = .pending rs ∧
      s.andThen i r = { s with made := s.made.set i ⟨p.key, .pending (rs ++ [r])⟩ }) ∨
    ∃ a, p.state = .settled a ∧ s.andThen i r = { s with queue := s.queue ++ [(r, a)] } := by
  obtain ⟨k, rs | a⟩ := p
  · exact .inl ⟨rs, rfl, by unfold andThen; rw [h]⟩
  · exact .inr ⟨a, rfl, by unfold andThen; rw [h]⟩

theorem settle_cases (h : s.settle i a = some s') : ∃ k rs, s.made[i]? = some ⟨k, .pending rs⟩ ∧
    s' = { made := s.made.set i ⟨k, .settled a⟩
           cached := if a.isSome then s.cached else Assoc.erase s.cached k
           queue := s.queue ++ rs.map fun r => (r, a) } := by
  unfold settle at h
  split at h
  · rename_i k rs hi
    exact ⟨k, rs, hi, (Option.some.inj h).symm⟩
  · cases h

/-! ## The cache -/

/-- What the cache depends on. -/
def face (p : Promise κ β ρ) : κ × Bool := (p.key, p.state.rejected)

theorem Ok.congr (h : Ok s) (hc : s'.cached = s.cached)
    (hm : ∀ j : Nat, s'.made[j]?.map face = s.made[j]?.map face) : Ok s' := by
  have hface {j : Nat} {p : Promise κ β ρ} (hp : s'.made[j]? = some p) :
      ∃ q, s.made[j]? = some q ∧ q.key = p.key ∧ q.state.rejected = p.state.rejected := by
    have hj := hm j
    rw [hp] at hj
    obtain ⟨q, hq, he⟩ := Option.map_eq_some_iff.mp hj.symm
    exact ⟨q, hq, (Prod.ext_iff.mp he).1, (Prod.ext_iff.mp he).2⟩
  refine ⟨fun k i => ?_, fun i j p q hij hp hq hk => ?_⟩
  · rw [hc, h.cached]
    constructor
    · rintro ⟨q, hq, rfl, hr⟩
      have hj := hm i
      rw [hq] at hj
      obtain ⟨p, hp, he⟩ := Option.map_eq_some_iff.mp hj
      exact ⟨p, hp, (Prod.ext_iff.mp he).1, (Prod.ext_iff.mp he).2.trans hr⟩
    · rintro ⟨p, hp, rfl, hr⟩
      obtain ⟨q, hq, hk, hs⟩ := hface hp
      exact ⟨q, hq, hk, hs.trans hr⟩
  · obtain ⟨p', hp', hpk, hpr⟩ := hface hp
    obtain ⟨q', hq', hqk, -⟩ := hface hq
    rw [← hpr]
    exact h.again i j p' q' hij hp' hq' (hpk.trans (hk.trans hqk.symm))

omit [DecidableEq κ] in
theorem map_face_set {ps : List (Promise κ β ρ)} {p p' : Promise κ β ρ} (h : ps[i]? = some p)
    (hf : face p' = face p) (j : Nat) : (ps.set i p')[j]?.map face = ps[j]?.map face := by
  rw [List.getElem?_set]
  split
  · rename_i e
    subst e
    rw [if_pos (List.getElem?_eq_some_iff.mp h).1, h, Option.map_some, Option.map_some, hf]
  · rfl

theorem Ok.andThen (h : Ok s) (i : Nat) (r : ρ) : Ok (s.andThen i r) := by
  cases hp : s.made[i]? with
  | none =>
    unfold Cache.andThen
    rw [hp]
    exact h
  | some p =>
    obtain ⟨rs, hs, e⟩ | ⟨a, -, e⟩ := andThen_cases hp r
    · rw [e]
      exact h.congr rfl (map_face_set hp (by rw [face, face, hs]; rfl))
    · rw [e]
      exact h.congr rfl fun _ => rfl

/-- Of the promises of a key, one at most is not rejected. -/
theorem Ok.single (h : Ok s) {p q : Promise κ β ρ} (hp : s.made[i]? = some p)
    (hq : s.made[j]? = some q) (hk : p.key = q.key) (hpr : p.state.rejected = false)
    (hqr : q.state.rejected = false) : i = j := by
  have hi := (h.cached p.key i).mpr ⟨p, hp, rfl, hpr⟩
  have hj := (h.cached p.key j).mpr ⟨q, hq, hk.symm, hqr⟩
  exact Option.some.inj (hi.symm.trans hj)

theorem Ok.live_iff (h : Ok s) : s.Live k ↔ (Assoc.get? s.cached k).isSome = true := by
  rw [Option.isSome_iff_exists]
  constructor
  · rintro ⟨p, hp, hk, hr⟩
    obtain ⟨i, hi⟩ := List.mem_iff_getElem?.mp hp
    exact ⟨i, (h.cached k i).mpr ⟨p, hi, hk, hr⟩⟩
  · rintro ⟨i, hi⟩
    obtain ⟨p, hp, hk, hr⟩ := (h.cached k i).mp hi
    exact ⟨p, List.mem_of_getElem? hp, hk, hr⟩

/-- A key that is asked has a promise that is not rejected. -/
theorem Ok.ask_fst (h : Ok s) (k : κ) : ∃ p, (s.ask k).2.made[(s.ask k).1]? = some p ∧ p.key = k ∧
    p.state.rejected = false := by
  cases hc : Assoc.get? s.cached k with
  | some i =>
    rw [ask_cached hc]
    exact (h.cached k i).mp hc
  | none =>
    rw [ask_new hc]
    exact ⟨⟨k, .pending []⟩, List.getElem?_concat_length, rfl, rfl⟩

theorem Ok.ask (h : Ok s) (k : κ) : Ok (s.ask k).2 := by
  cases hc : Assoc.get? s.cached k with
  | some i =>
    rw [ask_cached hc]
    exact h
  | none =>
    rw [ask_new hc]
    have hdead (i : Nat) (p : Promise κ β ρ) (hp : s.made[i]? = some p) (hk : p.key = k) :
        p.state.rejected = true := by
      by_contra hr
      rw [(h.cached k i).mpr ⟨p, hp, hk, Bool.eq_false_iff.mpr hr⟩] at hc
      cases hc
    have hmade {j : Nat} {p : Promise κ β ρ}
        (hp : (s.made ++ [⟨k, .pending []⟩])[j]? = some p) :
        s.made[j]? = some p ∨ j = s.made.length ∧ p = ⟨k, .pending []⟩ := by
      have := ask_made (s := s) (k := k) (j := j) (p := p)
      rw [ask_new hc] at this
      exact this hp
    refine ⟨fun k' i => ?_, fun i j p q hij hp hq hk => ?_⟩
    · rw [Assoc.get?_set]
      constructor
      · intro hi
        split at hi
        · rename_i e
          obtain rfl := Option.some.inj hi
          exact ⟨_, List.getElem?_concat_length, e, rfl⟩
        · obtain ⟨p, hp, hpk, hpr⟩ := (h.cached k' i).mp hi
          exact ⟨p, List.getElem?_append_left (List.getElem?_eq_some_iff.mp hp).1 ▸ hp, hpk, hpr⟩
      · rintro ⟨p, hp, rfl, hr⟩
        obtain hp | ⟨rfl, rfl⟩ := hmade hp
        · rw [if_neg fun e => by rw [hdead i p hp e.symm] at hr; cases hr]
          exact (h.cached _ i).mpr ⟨p, hp, rfl, hr⟩
        · rw [if_pos rfl]
    · obtain hp | ⟨rfl, rfl⟩ := hmade hp
      · obtain hq | ⟨-, rfl⟩ := hmade hq
        · exact h.again i j p q hij hp hq hk
        · exact hdead i p hp hk
      · have := (List.getElem?_eq_some_iff.mp hq).1
        rw [List.length_append, List.length_singleton] at this
        omega

theorem Ok.settle (h : Ok s) (hs : s.settle i a = some s') : Ok s' := by
  obtain ⟨k, rs, hi, rfl⟩ := settle_cases hs
  have hlive : Assoc.get? s.cached k = some i := (h.cached k i).mpr ⟨_, hi, rfl, rfl⟩
  have hset (j : Nat) : (s.made.set i ⟨k, State.settled a⟩)[j]? =
      if i = j then some ⟨k, .settled a⟩ else s.made[j]? := by
    rw [List.getElem?_set]
    split
    · rw [if_pos ((by assumption : i = j) ▸ (List.getElem?_eq_some_iff.mp hi).1)]
    · rfl
  cases a with
  | some v =>
    exact h.congr rfl (map_face_set hi rfl)
  | none =>
    refine ⟨fun k' j => ?_, fun j j' p q hij hp hq hk => ?_⟩
    · simp only [Option.isSome_none, Bool.false_eq_true, if_false, Assoc.get?_erase, hset]
      constructor
      · intro hj
        split at hj
        · cases hj
        · rename_i hk
          obtain ⟨p, hp, hpk, hpr⟩ := (h.cached k' j).mp hj
          refine ⟨p, ?_, hpk, hpr⟩
          rw [if_neg fun e => hk ?_]
          · exact hp
          · subst e
            obtain rfl := Option.some.inj (hi.symm.trans hp)
            exact hpk
      · rintro ⟨p, hp, rfl, hr⟩
        split at hp
        · obtain rfl := Option.some.inj hp
          cases hr
        · rename_i hij
          rw [if_neg fun e => hij ?_]
          · exact (h.cached _ j).mpr ⟨p, hp, rfl, hr⟩
          · exact h.single hi hp e rfl hr
    · simp only [hset] at hp hq
      split at hp
      · rw [← Option.some.inj hp]
        rfl
      · split at hq
        · rename_i e
          subst e
          exact h.again j i p _ hij hp hi (hk.trans (by rw [← Option.some.inj hq]))
        · exact h.again j j' p q hij hp hq hk

/-! ## The keys that are asked for -/

theorem Ok.ask_keys (h : Ok s) (k : κ) :
    (s.ask k).2.keys = s.keys ++ if s.Live k then [] else [k] := by
  cases hc : Assoc.get? s.cached k with
  | some i =>
    rw [ask_cached hc, if_pos (h.live_iff.mpr (by rw [hc]; rfl)), List.append_nil]
  | none =>
    rw [ask_new hc, if_neg fun hl => by rw [h.live_iff, hc] at hl; cases hl]
    exact List.map_append

omit [DecidableEq κ] in
theorem keys_set {p p' : Promise κ β ρ} (h : s.made[i]? = some p) (hk : p'.key = p.key) :
    (s.made.set i p').map Promise.key = s.made.map Promise.key := by
  refine List.ext_getElem? fun j => ?_
  rw [List.getElem?_map, List.getElem?_map, List.getElem?_set]
  split
  · rename_i e
    subst e
    rw [if_pos (List.getElem?_eq_some_iff.mp h).1, h, Option.map_some, Option.map_some, hk]
  · rfl

omit [DecidableEq κ] in
@[simp] theorem andThen_keys : (s.andThen i r).keys = s.keys := by
  unfold keys
  cases hp : s.made[i]? with
  | none =>
    unfold Cache.andThen
    rw [hp]
  | some p =>
    obtain ⟨rs, -, e⟩ | ⟨a, -, e⟩ := andThen_cases hp r
    · rw [e]
      exact keys_set hp rfl
    · rw [e]

theorem settle_keys (h : s.settle i a = some s') : s'.keys = s.keys := by
  obtain ⟨k, rs, hi, rfl⟩ := settle_cases h
  exact keys_set hi rfl

omit [DecidableEq κ] in
theorem live_congr (h : ∀ j : Nat, s'.made[j]?.map face = s.made[j]?.map face) :
    s'.Live k ↔ s.Live k := by
  have hlive (s : Cache κ β ρ) : s.Live k ↔ ∃ j : Nat, s.made[j]?.map face = some (k, false) := by
    unfold Live
    simp only [Option.map_eq_some_iff, face, Prod.mk.injEq]
    constructor
    · rintro ⟨p, hp, hk⟩
      obtain ⟨j, hj⟩ := List.mem_iff_getElem?.mp hp
      exact ⟨j, p, hj, hk⟩
    · rintro ⟨j, p, hj, hk⟩
      exact ⟨p, List.mem_of_getElem? hj, hk⟩
  rw [hlive, hlive]
  exact exists_congr fun j => by rw [h j]

omit [DecidableEq κ] in
theorem andThen_live : (s.andThen i r).Live k ↔ s.Live k := by
  cases hp : s.made[i]? with
  | none =>
    unfold Cache.andThen
    rw [hp]
  | some p =>
    obtain ⟨rs, hs, e⟩ | ⟨a, -, e⟩ := andThen_cases hp r
    · rw [e]
      exact live_congr (map_face_set hp (by rw [face, face, hs]; rfl))
    · rw [e]
      exact live_congr fun _ => rfl

theorem Ok.ask_live (h : Ok s) (k k' : κ) : (s.ask k).2.Live k' ↔ s.Live k' ∨ k' = k := by
  rw [(h.ask k).live_iff, h.live_iff]
  cases hc : Assoc.get? s.cached k with
  | some i =>
    rw [ask_cached hc]
    refine ⟨.inl, fun hk => hk.elim id ?_⟩
    rintro rfl
    rw [hc]
    rfl
  | none =>
    rw [ask_new hc, Assoc.get?_set]
    by_cases hk : k = k'
    · simp [hk]
    · simp [hk, Ne.symm hk]

/-- Keys that are asked one after the other, with reactions: those without a live promise have new
ones, once each. -/
theorem Ok.asks [BEq κ] [LawfulBEq κ] {σ ι : Type} (cache : σ → Cache κ β ρ) {f : σ → ι → σ}
    {key : ι → κ}
    (hf : ∀ t x, ∃ i r, cache (f t x) = ((cache t).ask (key x)).2.andThen i r) (xs : List ι) {t : σ}
    (h : (cache t).Ok) : (cache (xs.foldl f t)).Ok ∧
      (cache (xs.foldl f t)).keys =
        (cache t).keys ++ ((xs.map key).filter fun k => ¬ (cache t).Live k).eraseDups ∧
      ∀ k, (cache (xs.foldl f t)).Live k ↔ (cache t).Live k ∨ k ∈ xs.map key := by
  induction xs generalizing t with
  | nil => exact ⟨h, (List.append_nil _).symm, by simp⟩
  | cons x xs ih =>
    obtain ⟨i, r, e⟩ := hf t x
    have hok : (cache (f t x)).Ok := e ▸ (h.ask (key x)).andThen i r
    have hlive (k : κ) : (cache (f t x)).Live k ↔ (cache t).Live k ∨ k = key x := by
      rw [e, andThen_live, h.ask_live]
    have hkeys : (cache (f t x)).keys = (cache t).keys ++ if (cache t).Live (key x) then []
        else [key x] := by
      rw [e, andThen_keys, h.ask_keys]
    obtain ⟨ho, hk, hl⟩ := ih hok
    refine ⟨ho, ?_, fun k => ?_⟩
    · rw [List.foldl_cons, hk, hkeys, List.append_assoc, List.map_cons, List.filter_cons]
      congr 1
      by_cases hx : (cache t).Live (key x)
      · simp only [hx, if_true, List.nil_append, not_true_eq_false, decide_false,
          Bool.false_eq_true, if_false]
        congr 1
        refine List.filter_congr fun k _ => decide_eq_decide.mpr (not_congr ?_)
        rw [hlive k, or_iff_left_of_imp fun e => e ▸ hx]
      · simp only [hx, if_false, not_false_eq_true, decide_true, if_true, List.eraseDups_cons,
          List.singleton_append, List.filter_filter]
        congr 2
        refine List.filter_congr fun k _ => ?_
        rw [Bool.eq_iff_iff]
        simp [hlive k, and_comm]
    · rw [List.foldl_cons, hl, hlive, List.map_cons, List.mem_cons, or_assoc]

/-! ## Reactions -/

/-- With a reaction more, if it waits. -/
def State.add (r : ρ) : State β ρ → State β ρ
  | .pending rs => .pending (rs ++ [r])
  | .settled a => .settled a

omit [DecidableEq κ] in
theorem andThen_made (i j : Nat) (r : ρ) : (s.andThen i r).made[j]? =
    s.made[j]?.map fun p => if i = j then ⟨p.key, State.add r p.state⟩ else p := by
  by_cases hij : i = j
  · subst hij
    simp only [if_true]
    cases hp : s.made[i]? with
    | none =>
      unfold Cache.andThen
      rw [hp]
      exact hp
    | some p =>
      have hlt := (List.getElem?_eq_some_iff.mp hp).1
      obtain ⟨rs, hs, e⟩ | ⟨a, hs, e⟩ := andThen_cases hp r
      · simp [e, hs, hlt, State.add]
      · rw [e, hp, Option.map_some, hs, State.add, ← hs]
  · simp only [if_neg hij, Option.map_id']
    cases hp : s.made[i]? with
    | none =>
      unfold Cache.andThen
      rw [hp]
    | some p =>
      obtain ⟨rs, -, e⟩ | ⟨a, -, e⟩ := andThen_cases hp r
      · rw [e]
        exact List.getElem?_set_ne hij
      · rw [e]

omit [DecidableEq κ] in
theorem made_andThen {p : Promise κ β ρ} (h : s.made[j]? = some p) (i : Nat) (r : ρ) :
    ∃ p', (s.andThen i r).made[j]? = some p' ∧ p'.key = p.key ∧
      p'.state.rejected = p.state.rejected := by
  refine ⟨_, by rw [andThen_made, h, Option.map_some], ?_⟩
  split
  · obtain ⟨k, rs | a⟩ := p <;> exact ⟨rfl, rfl⟩
  · exact ⟨rfl, rfl⟩

omit [DecidableEq κ] in
theorem andThen_settled (j : Nat) (r : ρ) (h : s.made[i]? = some ⟨k, .settled a⟩) :
    (s.andThen j r).made[i]? = some ⟨k, .settled a⟩ := by
  rw [andThen_made, h, Option.map_some]
  split <;> rfl

omit [DecidableEq κ] in
theorem andThen_queue (x : ρ × Option β) : x ∈ (s.andThen i r).queue ↔
    x ∈ s.queue ∨ x.1 = r ∧ ∃ k, s.made[i]? = some ⟨k, .settled x.2⟩ := by
  cases hp : s.made[i]? with
  | none =>
    unfold Cache.andThen
    simp [hp]
  | some p =>
    obtain ⟨k, st⟩ := p
    obtain ⟨rs, rfl, e⟩ | ⟨a, rfl, e⟩ := andThen_cases hp r
    · simp [e]
    · simp [e, Prod.ext_iff, eq_comm]

theorem settle_made (h : s.settle i a = some s') : ∃ k rs, s.made[i]? = some ⟨k, .pending rs⟩ ∧
    (∀ j : Nat, s'.made[j]? = if i = j then some ⟨k, .settled a⟩ else s.made[j]?) ∧
    ∀ x, x ∈ s'.queue ↔ x ∈ s.queue ∨ x.1 ∈ rs ∧ x.2 = a := by
  obtain ⟨k, rs, hi, rfl⟩ := settle_cases h
  refine ⟨k, rs, hi, fun j => ?_, fun x => ?_⟩
  · rw [List.getElem?_set]
    split
    · rename_i e
      rw [if_pos (e ▸ (List.getElem?_eq_some_iff.mp hi).1)]
    · rfl
  · simp [Prod.ext_iff, eq_comm]

/-- What has settled stays. -/
theorem settled_settle {b : Option β} (hs : s.settle i a = some s')
    (h : s.made[j]? = some ⟨k, .settled b⟩) : s'.made[j]? = some ⟨k, .settled b⟩ := by
  obtain ⟨k', rs, hi, hmade, -⟩ := settle_made hs
  rw [hmade, if_neg]
  · exact h
  · rintro rfl
    cases h.symm.trans hi

omit [DecidableEq κ] in
theorem Fate.imp {W' : Prop} {D' : Option β → Prop} (h : Fate s i r W D) (hW : W → W')
    (hD : ∀ a, D a → D' a) : Fate s i r W' D' := by
  cases h with
  | waits k rs hi hr hw => exact .waits k rs hi hr (hW hw)
  | queued k a hi hq hw => exact .queued k a hi hq (hW hw)
  | ran k a hi hd => exact .ran k a hi (hD a hd)

theorem Fate.ask (h : Fate s i r W D) (k : κ) : Fate (s.ask k).2 i r W D := by
  cases h with
  | waits k' rs hi hr hw => exact .waits k' rs (made_ask hi) hr hw
  | queued k' a hi hq hw => exact .queued k' a (made_ask hi) (by rwa [ask_queue]) hw
  | ran k' a hi hd => exact .ran k' a (made_ask hi) hd

omit [DecidableEq κ] in
theorem Fate.andThen (h : Fate s i r W D) (j : Nat) (r' : ρ) : Fate (s.andThen j r') i r W D := by
  cases h with
  | waits k rs hi hr hw =>
    by_cases hj : j = i
    · refine .waits k (rs ++ [r']) ?_ (List.mem_append_left _ hr) hw
      rw [andThen_made, hi, Option.map_some, if_pos hj]
      rfl
    · refine .waits k rs ?_ hr hw
      rw [andThen_made, hi, Option.map_some, if_neg hj]
  | queued k a hi hq hw =>
    exact .queued k a (andThen_settled j r' hi) ((andThen_queue _).mpr (.inl hq)) hw
  | ran k a hi hd => exact .ran k a (andThen_settled j r' hi) hd

omit [DecidableEq κ] in
/-- The reaction that is added waits, now or in the queue. -/
theorem Fate.added {p : Promise κ β ρ} (h : s.made[i]? = some p) (r : ρ) (hw : W) :
    Fate (s.andThen i r) i r W D := by
  obtain ⟨k, rs | a⟩ := p
  · refine .waits k (rs ++ [r]) ?_ (List.mem_append_right _ List.mem_cons_self) hw
    rw [andThen_made, h, Option.map_some, if_pos rfl]
    rfl
  · exact .queued k a (andThen_settled i r h) ((andThen_queue _).mpr (.inr ⟨rfl, k, h⟩)) hw

theorem Fate.settle (h : Fate s i r W D) (hs : s.settle j a = some s') : Fate s' i r W D := by
  obtain ⟨k, rs, hj, hmade, hqueue⟩ := settle_made hs
  cases h with
  | waits k' rs' hi hr hw =>
    by_cases hji : j = i
    · subst hji
      obtain ⟨rfl, rfl⟩ : k' = k ∧ rs' = rs := by simpa using hi.symm.trans hj
      refine .queued k' a ?_ ((hqueue _).mpr (.inr ⟨hr, rfl⟩)) hw
      rw [hmade, if_pos rfl]
    · refine .waits k' rs' ?_ hr hw
      rw [hmade, if_neg hji, hi]
  | queued k' b hi hq hw =>
    exact .queued k' b (settled_settle hs hi) ((hqueue _).mpr (.inl hq)) hw
  | ran k' b hi hd => exact .ran k' b (settled_settle hs hi) hd

omit [DecidableEq κ] in
/-- The first reaction of the queue is taken from it: that was `r`, or `r` has the fate it had. -/
theorem Fate.pop {x : ρ × Option β} {q : List (ρ × Option β)} (h : Fate s i r W D)
    (hq : s.queue = x :: q) : Fate { s with queue := q } i r W D ∨
      x.1 = r ∧ W ∧ ∃ k, s.made[i]? = some ⟨k, .settled x.2⟩ := by
  cases h with
  | waits k rs hi hr hw => exact .inl (.waits k rs hi hr hw)
  | queued k a hi hr hw =>
    rw [hq] at hr
    obtain rfl | hr := List.mem_cons.mp hr
    · exact .inr ⟨rfl, hw, k, hi⟩
    · exact .inl (.queued k a hi hr hw)
  | ran k a hi hd => exact .inl (.ran k a hi hd)

omit [DecidableEq κ] in
/-- Without a queue, a reaction waits for its promise or has run. -/
theorem Fate.done (h : Fate s i r W D) (hq : s.queue = []) :
    (∃ k rs, s.made[i]? = some ⟨k, .pending rs⟩ ∧ W) ∨
      ∃ k a, s.made[i]? = some ⟨k, .settled a⟩ ∧ D a := by
  cases h with
  | waits k rs hi hr hw => exact .inl ⟨k, rs, hi, hw⟩
  | queued k a hi hr hw =>
    rw [hq] at hr
    cases hr
  | ran k a hi hd => exact .inr ⟨k, a, hi, hd⟩

/-! ## Whose reaction it is -/

theorem Owner.ask (h : Owner s i r) (k : κ) : Owner (s.ask k).2 i r := by
  refine ⟨fun j k' rs hj hr => ?_, fun a ha => ?_⟩
  · obtain hj | ⟨-, he⟩ := ask_made hj
    · exact h.pending j k' rs hj hr
    · cases he
      cases hr
  · rw [ask_queue] at ha
    obtain ⟨k', hi⟩ := h.queued a ha
    exact ⟨k', made_ask hi⟩

omit [DecidableEq κ] in
theorem andThen_pending {k : κ} {rs : List ρ} (h : (s.andThen i r').made[j]? = some ⟨k, .pending rs⟩)
    (hr : r ∈ rs) : (∃ rs', s.made[j]? = some ⟨k, .pending rs'⟩ ∧ r ∈ rs') ∨ i = j ∧ r = r' := by
  rw [andThen_made] at h
  obtain ⟨⟨k', st⟩, hp, he⟩ := Option.map_eq_some_iff.mp h
  split at he
  · rename_i hij
    cases st with
    | settled a => cases he
    | pending rs' =>
      cases he
      obtain hr | hr := List.mem_append.mp hr
      · exact .inl ⟨rs', hp, hr⟩
      · exact .inr ⟨hij, List.mem_singleton.mp hr⟩
  · cases he
    exact .inl ⟨rs, hp, hr⟩

omit [DecidableEq κ] in
theorem Owner.andThen_self (h : Owner s i r) : Owner (s.andThen i r) i r := by
  refine ⟨fun j k rs hj hr => ?_, fun a ha => ?_⟩
  · obtain ⟨rs', hj, hr⟩ | ⟨rfl, -⟩ := andThen_pending hj hr
    · exact h.pending j k rs' hj hr
    · rfl
  · obtain ha | ⟨-, k, hi⟩ := (andThen_queue _).mp ha
    · obtain ⟨k, hi⟩ := h.queued a ha
      exact ⟨k, andThen_settled i r hi⟩
    · exact ⟨k, andThen_settled i r hi⟩

omit [DecidableEq κ] in
theorem Owner.andThen_ne (h : Owner s i r) (hr : r ≠ r') (j : Nat) : Owner (s.andThen j r') i r := by
  refine ⟨fun j' k rs hj hm => ?_, fun a ha => ?_⟩
  · obtain ⟨rs', hj, hm⟩ | ⟨-, e⟩ := andThen_pending hj hm
    · exact h.pending j' k rs' hj hm
    · exact absurd e hr
  · obtain ha | ⟨e, -⟩ := (andThen_queue _).mp ha
    · obtain ⟨k, hi⟩ := h.queued a ha
      exact ⟨k, andThen_settled j r' hi⟩
    · exact absurd e hr

theorem settle_pending {k : κ} {rs : List ρ} (hs : s.settle i a = some s')
    (h : s'.made[j]? = some ⟨k, .pending rs⟩) : s.made[j]? = some ⟨k, .pending rs⟩ := by
  obtain ⟨k', rs', -, hmade, -⟩ := settle_made hs
  rw [hmade] at h
  split at h
  · cases h
  · exact h

theorem Owner.settle (h : Owner s i r) (hs : s.settle j a = some s') : Owner s' i r := by
  obtain ⟨k, rs, hj, hmade, hqueue⟩ := settle_made hs
  refine ⟨fun j' k' rs' hj' => h.pending j' k' rs' (settle_pending hs hj'), fun b hb => ?_⟩
  obtain hb | ⟨hr, rfl⟩ := (hqueue _).mp hb
  · obtain ⟨k', hi⟩ := h.queued b hb
    exact ⟨k', settled_settle hs hi⟩
  · obtain rfl := h.pending j k rs hj hr
    exact ⟨k, by rw [hmade, if_pos rfl]⟩

omit [DecidableEq κ] in
theorem Owner.pop {x : ρ × Option β} {q : List (ρ × Option β)} (h : Owner s i r)
    (hq : s.queue = x :: q) : Owner { s with queue := q } i r :=
  ⟨h.pending, fun a ha => h.queued a (hq ▸ List.mem_cons_of_mem _ ha)⟩

/-! ## What the reactions are about -/

variable {Q : ρ → κ → Prop}

omit [DecidableEq κ] in
theorem Keyed.mono {Q' : ρ → κ → Prop} (h : Keyed s Q) (hQ : ∀ r k, Q r k → Q' r k) :
    Keyed s Q' where
  pending i k rs r hi hr := hQ r k (h.pending i k rs r hi hr)
  queued r a hm := by
    obtain ⟨i, k, hi, hq⟩ := h.queued r a hm
    exact ⟨i, k, hi, hQ r k hq⟩

theorem Keyed.ask (h : Keyed s Q) (k : κ) : Keyed (s.ask k).2 Q := by
  refine ⟨fun i k' rs r hi hr => ?_, fun r a hm => ?_⟩
  · obtain hi | ⟨-, he⟩ := ask_made hi
    · exact h.pending i k' rs r hi hr
    · cases he
      cases hr
  · rw [ask_queue] at hm
    obtain ⟨i, k', hi, hq⟩ := h.queued r a hm
    exact ⟨i, k', made_ask hi, hq⟩

omit [DecidableEq κ] in
theorem Keyed.andThen (h : Keyed s Q) {p : Promise κ β ρ} (hp : s.made[i]? = some p)
    (hr : Q r p.key) : Keyed (s.andThen i r) Q := by
  refine ⟨fun j k rs r' hj hm => ?_, fun r' a hm => ?_⟩
  · obtain ⟨rs', hj, hm⟩ | ⟨rfl, rfl⟩ := andThen_pending hj hm
    · exact h.pending j k rs' r' hj hm
    · obtain ⟨p', hp', hk, -⟩ := made_andThen hp i r'
      obtain rfl := Option.some.inj (hj.symm.trans hp')
      rwa [← hk] at hr
  · obtain hm | ⟨rfl, k, hi⟩ := (andThen_queue _).mp hm
    · obtain ⟨j, k, hj, hq⟩ := h.queued r' a hm
      exact ⟨j, k, andThen_settled i r hj, hq⟩
    · obtain rfl := Option.some.inj (hp.symm.trans hi)
      exact ⟨i, k, andThen_settled i _ hi, hr⟩

theorem Keyed.settle (h : Keyed s Q) (hs : s.settle i a = some s') : Keyed s' Q := by
  obtain ⟨k, rs, hi, hmade, hqueue⟩ := settle_made hs
  refine ⟨fun j k' rs' r hj => h.pending j k' rs' r (settle_pending hs hj), fun r b hm => ?_⟩
  obtain hm | ⟨hr, rfl⟩ := (hqueue _).mp hm
  · obtain ⟨j, k', hj, hq⟩ := h.queued r b hm
    exact ⟨j, k', settled_settle hs hj, hq⟩
  · exact ⟨i, k, by rw [hmade, if_pos rfl], h.pending i k rs r hi hr⟩

omit [DecidableEq κ] in
theorem Keyed.pop {x : ρ × Option β} {q : List (ρ × Option β)} (h : Keyed s Q)
    (hq : s.queue = x :: q) : Keyed { s with queue := q } Q :=
  ⟨h.pending, fun r a hm => h.queued r a (hq ▸ List.mem_cons_of_mem _ hm)⟩

end Cache

end Promises
