import Mathlib.Data.List.Nodup
import Mathlib.Data.List.Perm.Basic

/-!
# Association lists in insertion order

A map is the list of its items. `set` replaces the value of a key in place or appends the item,
`erase` drops it, so distinct keys stay distinct (`nodup_set`, `nodup_erase`); `get?` finds the
value of a key. With distinct keys, `get?` does not see the order of the items (`get?_perm`).
-/

namespace Assoc

variable {α β : Type} [DecidableEq α]

/-- The value of `k`. -/
def get? (d : List (α × β)) (k : α) : Option β := d.lookup k

/-- The map with `v` for `k`. -/
def set : List (α × β) → α → β → List (α × β)
  | [], k, v => [(k, v)]
  | (k', v') :: d, k, v => if k' = k then (k', v) :: d else (k', v') :: set d k v

/-- The map without `k`. -/
def erase (d : List (α × β)) (k : α) : List (α × β) := d.filter fun p => p.1 ≠ k

/-- The keys. -/
def keys (d : List (α × β)) : List α := d.map Prod.fst

omit [DecidableEq α] in
theorem keys_cons (p : α × β) (d : List (α × β)) : keys (p :: d) = p.1 :: keys d := rfl

omit [DecidableEq α] in
theorem keys_append (d d' : List (α × β)) : keys (d ++ d') = keys d ++ keys d' := by
  simp [keys]

@[simp] theorem get?_nil (k : α) : get? ([] : List (α × β)) k = none := rfl

theorem get?_cons (p : α × β) (d : List (α × β)) (k : α) :
    get? (p :: d) k = if p.1 = k then some p.2 else get? d k := by
  obtain ⟨k', v⟩ := p
  unfold get?
  rw [List.lookup_cons]
  by_cases h : k' = k
  · subst h; simp
  · simp [h, beq_false_of_ne (Ne.symm h)]

theorem get?_set (d : List (α × β)) (k : α) (v : β) (k' : α) :
    get? (set d k v) k' = if k = k' then some v else get? d k' := by
  induction d with
  | nil => simp [set, get?_cons]
  | cons p d ih =>
    obtain ⟨j, w⟩ := p
    rw [set]
    split
    · rename_i h
      subst h
      simp only [get?_cons]
      split <;> rfl
    · rename_i h
      rw [get?_cons, get?_cons, ih]
      split
      · rename_i hj
        rw [if_neg (fun e => h (hj.trans e.symm))]
      · rfl

theorem get?_erase (d : List (α × β)) (k k' : α) :
    get? (erase d k) k' = if k = k' then none else get? d k' := by
  induction d with
  | nil => simp [erase]
  | cons p d ih =>
    unfold erase at ih ⊢
    rw [List.filter_cons, get?_cons]
    by_cases hp : p.1 = k
    · simp only [hp, ne_eq, not_true_eq_false, decide_false, Bool.false_eq_true, ↓reduceIte, ih]
      split <;> rfl
    · simp only [ne_eq, hp, not_false_eq_true, decide_true, ↓reduceIte, get?_cons, ih]
      split
      · rename_i hj
        rw [if_neg (fun e => hp (hj.trans e.symm))]
      · rfl

theorem set_of_not_mem {d : List (α × β)} {k : α} (h : k ∉ keys d) (v : β) :
    set d k v = d ++ [(k, v)] := by
  induction d with
  | nil => rfl
  | cons p d ih =>
    rw [keys_cons, List.mem_cons, not_or] at h
    rw [set, if_neg (Ne.symm h.1), ih h.2]
    rfl

theorem keys_set (d : List (α × β)) (k : α) (v : β) :
    keys (set d k v) = if k ∈ keys d then keys d else keys d ++ [k] := by
  induction d with
  | nil => simp [set, keys]
  | cons p d ih =>
    obtain ⟨j, w⟩ := p
    unfold keys at ih ⊢
    rw [set]
    split
    · rename_i h; simp [h]
    · rename_i h
      rw [List.map_cons, ih, List.map_cons]
      have hk : k ≠ j := fun e => h e.symm
      by_cases hm : k ∈ d.map Prod.fst
      · rw [if_pos hm, if_pos (List.mem_cons_of_mem _ hm)]
      · rw [if_neg hm, if_neg (by simpa [hk] using hm)]; rfl

/-- An item after a key is set is an old one, or has the new value. -/
theorem mem_set {d : List (α × β)} {k : α} {v : β} {p : α × β} (h : p ∈ set d k v) :
    p ∈ d ∨ p.2 = v := by
  induction d with
  | nil =>
    right
    rw [List.mem_singleton.mp h]
  | cons q d ih =>
    rw [set] at h
    split at h <;> rcases List.mem_cons.mp h with h | h
    · exact .inr (by rw [h])
    · exact .inl (List.mem_cons_of_mem _ h)
    · exact .inl (h ▸ List.mem_cons_self)
    · exact (ih h).imp_left (List.mem_cons_of_mem _)

/-- Setting a key keeps the keys distinct. -/
theorem nodup_set {d : List (α × β)} (h : (keys d).Nodup) (k : α) (v : β) :
    (keys (set d k v)).Nodup := by
  rw [keys_set]
  split
  · exact h
  · rename_i hk
    exact List.nodup_append.mpr ⟨h, List.nodup_singleton k, by
      rintro a ha b hb rfl; exact hk (List.mem_singleton.mp hb ▸ ha)⟩

theorem nodup_erase {d : List (α × β)} (h : (keys d).Nodup) (k : α) : (keys (erase d k)).Nodup :=
  h.sublist (List.filter_sublist.map _)

theorem erase_of_not_mem {d : List (α × β)} {k : α} (h : k ∉ keys d) : erase d k = d := by
  refine List.filter_eq_self.mpr fun p hp => decide_eq_true fun e => h ?_
  exact e ▸ List.mem_map_of_mem hp

/-- At most one item has a given key. -/
theorem length_le_erase {d : List (α × β)} (h : (keys d).Nodup) (k : α) :
    d.length ≤ (erase d k).length + 1 := by
  induction d with
  | nil => simp
  | cons p d ih =>
    obtain ⟨hp, hd⟩ := List.nodup_cons.mp h
    by_cases hk : p.1 = k
    · have herase : erase (p :: d) k = d := by
        have hd := erase_of_not_mem (hk ▸ hp)
        simpa [erase, hk] using hd
      simp [herase]
    · have hcons : erase (p :: d) k = p :: erase d k := by simp [erase, hk]
      have := ih hd
      rw [hcons, List.length_cons, List.length_cons]
      omega

theorem mem_keys {d : List (α × β)} {k : α} : k ∈ keys d ↔ (get? d k).isSome = true := by
  induction d with
  | nil => simp [keys]
  | cons p d ih =>
    rw [get?_cons]
    unfold keys at ih ⊢
    rw [List.map_cons, List.mem_cons, ih]
    by_cases h : p.1 = k
    · simp [h]
    · rw [if_neg h]; simp [Ne.symm h]

theorem mem_of_get? {d : List (α × β)} {k : α} {v : β} (h : get? d k = some v) : (k, v) ∈ d := by
  induction d with
  | nil => cases h
  | cons p d ih =>
    rw [get?_cons] at h
    split at h
    · rename_i e
      cases h
      rw [← e]
      exact List.mem_cons_self
    · exact List.mem_cons_of_mem _ (ih h)

/-- With distinct keys, the items are the values that `get?` finds. -/
theorem mem_iff_get? {d : List (α × β)} (h : (keys d).Nodup) {k : α} {v : β} :
    (k, v) ∈ d ↔ get? d k = some v := by
  induction d with
  | nil => simp
  | cons p d ih =>
    obtain ⟨j, w⟩ := p
    simp only [keys, List.map_cons, List.nodup_cons] at h
    rw [get?_cons, List.mem_cons, ih h.2]
    by_cases hj : j = k
    · subst hj
      simp only [↓reduceIte, Option.some.injEq, Prod.mk.injEq, true_and]
      constructor
      · rintro (e | e)
        · exact e.symm
        · exact absurd (mem_keys.mpr (by rw [e]; rfl)) h.1
      · exact fun e => .inl e.symm
    · simp only [hj, ↓reduceIte, Prod.mk.injEq, Ne.symm hj, false_and, false_or]

/-- The item of a key, with what `set` and `erase` do to it. -/
theorem exists_split {d : List (α × β)} {k : α} {v : β} (hn : (keys d).Nodup)
    (h : get? d k = some v) : ∃ a b, d = a ++ (k, v) :: b ∧
      (∀ w, set d k w = a ++ (k, w) :: b) ∧ erase d k = a ++ b := by
  induction d with
  | nil => cases h
  | cons p d ih =>
    obtain ⟨j, w⟩ := p
    rw [keys_cons, List.nodup_cons] at hn
    rw [get?_cons] at h
    by_cases hj : j = k
    · subst hj
      rw [if_pos rfl, Option.some.injEq] at h
      subst h
      refine ⟨[], d, rfl, fun u => by simp [set], ?_⟩
      simpa [erase] using erase_of_not_mem hn.1
    · rw [if_neg hj] at h
      obtain ⟨a, b, hd, hset, herase⟩ := ih hn.2 h
      refine ⟨(j, w) :: a, b, by rw [hd, List.cons_append], fun u => ?_, ?_⟩
      · rw [set, if_neg hj, hset, List.cons_append]
      · rw [erase, List.filter_cons_of_pos (by simpa using hj), List.cons_append, ← herase, erase]

/-- A lookup in a map with distinct keys does not see the order of the items. -/
theorem get?_perm {d d' : List (α × β)} (h : d.Perm d') (hn : (keys d).Nodup) (k : α) :
    get? d k = get? d' k := by
  have hn' : (keys d').Nodup := (h.map Prod.fst).nodup_iff.mp hn
  ext v
  rw [← mem_iff_get? hn, ← mem_iff_get? hn', h.mem_iff]

end Assoc
