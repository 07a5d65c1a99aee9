import Mathlib.Data.List.Induction
import Music3.Lib.Recency

/-!
# The bounded map of the page

`lruSet` keeps a `Map` in the order of the latest settings, by deletion and insertion, and deletes
the first keys of a map that is too large.

`lru_refines`: after any settings the map holds the newest of the `latest` ones, at most `max`.
-/

namespace Music3

open Recency BoundedLog

section
variable {κ υ : Type} [DecidableEq κ]

theorem length_erase_head (key : κ) (value : υ) (rest : List (κ × υ)) :
    (Assoc.erase ((key, value) :: rest) key).length < ((key, value) :: rest).length := by
  have hle := List.length_filter_le (fun p : κ × υ => decide (p.1 ≠ key)) rest
  rw [Assoc.erase, List.filter_cons_of_neg (by simp), List.length_cons]
  exact Nat.lt_succ_of_le hle

/-- `while (map.size > max) map.delete(map.keys().next().value)`. -/
def evict (max : Nat) (map : List (κ × υ)) : List (κ × υ) :=
  match map with
  | [] => []
  | (key, value) :: rest =>
    if max < ((key, value) :: rest).length then evict max (Assoc.erase ((key, value) :: rest) key)
    else (key, value) :: rest
termination_by map.length
decreasing_by exact length_erase_head key value rest

/-- `lruSet`. -/
def lruSet (map : List (κ × υ)) (key : κ) (value : υ) (max : Nat) : List (κ × υ) :=
  let map := if key ∈ Assoc.keys map then Assoc.erase map key else map
  evict max (Assoc.set map key value)

/-- The map after some calls of `lruSet`, the first of them on an empty map. -/
def lruSets (max : Nat) (ops : List (κ × υ)) : List (κ × υ) :=
  ops.foldl (fun map op => lruSet map op.1 op.2 max) []

/-- The loop drops the oldest entries over the bound. -/
theorem evict_eq (max : Nat) {map : List (κ × υ)} (h : (Assoc.keys map).Nodup) :
    evict max map = newest max map := by
  induction map with
  | nil => simp [evict]
  | cons p rest ih =>
    obtain ⟨key, value⟩ := p
    obtain ⟨hkey, hrest⟩ := List.nodup_cons.mp h
    have herase : Assoc.erase ((key, value) :: rest) key = rest := by
      have := Assoc.erase_of_not_mem hkey
      simpa [Assoc.erase] using this
    rw [evict, herase]
    split
    · rename_i hlt
      have hdrop : rest.length + 1 - max = (rest.length - max) + 1 := by
        simp only [List.length_cons] at hlt
        omega
      rw [ih hrest, newest, newest, List.length_cons, hdrop, List.drop_succ_cons]
    · rename_i hle
      have hzero : rest.length + 1 - max = 0 := by
        simp only [List.length_cons] at hle
        omega
      rw [newest, List.length_cons, hzero, List.drop_zero]

/-- A call moves its key to the end, and drops the oldest entries. -/
theorem lruSet_eq (max : Nat) {map : List (κ × υ)} (h : (Assoc.keys map).Nodup) (key : κ)
    (value : υ) : lruSet map key value max = newest max (Assoc.erase map key ++ [(key, value)]) := by
  have hnot : key ∉ Assoc.keys (Assoc.erase map key) := by
    rw [Assoc.mem_keys, Assoc.get?_erase]
    simp
  have herase : (if key ∈ Assoc.keys map then Assoc.erase map key else map) =
      Assoc.erase map key := by
    split
    · rfl
    · rename_i hn
      exact (Assoc.erase_of_not_mem hn).symm
  rw [lruSet, herase, Assoc.set_of_not_mem hnot]
  refine evict_eq max ?_
  rw [← Assoc.set_of_not_mem hnot]
  exact Assoc.nodup_set (Assoc.nodup_erase h key) key value

section
variable {max : Nat} {map : List (κ × υ)} {key : κ} {value : υ}

theorem mem_lruSet (h : (Assoc.keys map).Nodup) {p : κ × υ} (hp : p ∈ lruSet map key value max) :
    p = (key, value) ∨ p ∈ map := by
  rw [lruSet_eq max h] at hp
  rcases List.mem_append.mp (List.mem_of_mem_drop hp) with hp | hp
  · exact Or.inr (List.mem_filter.mp hp).1
  · exact Or.inl (List.mem_singleton.mp hp)

theorem length_lruSet_le (h : (Assoc.keys map).Nodup) : (lruSet map key value max).length ≤ max := by
  rw [lruSet_eq max h, length_newest]
  exact Nat.min_le_left ..

theorem nodup_lruSet (h : (Assoc.keys map).Nodup) :
    (Assoc.keys (lruSet map key value max)).Nodup := by
  have hnot : key ∉ Assoc.keys (Assoc.erase map key) := by
    rw [Assoc.mem_keys, Assoc.get?_erase]
    simp
  rw [lruSet_eq max h, ← Assoc.set_of_not_mem hnot]
  exact (Assoc.nodup_set (Assoc.nodup_erase h key) key value).sublist ((List.drop_sublist _ _).map _)

end

/-- The map after all calls. -/
theorem lruSets_eq {max : Nat} (ops : List (κ × υ)) : lruSets max ops = newest max (latest ops) := by
  induction ops using List.reverseRecOn with
  | nil => simp [lruSets]
  | append_singleton ops p ih =>
    obtain ⟨k, v⟩ := p
    have hstep : lruSets max (ops ++ [(k, v)]) = lruSet (lruSets max ops) k v max := by
      simp [lruSets]
    have hn : (Assoc.keys (newest max (latest ops))).Nodup :=
      (nodup_latest ops).sublist ((List.drop_sublist _ _).map _)
    rw [hstep, ih, lruSet_eq max hn, latest_concat]
    exact newest_erase max (nodup_latest ops) (k, v)

theorem keys_lruSets (max : Nat) (ops : List (κ × υ)) :
    Assoc.keys (lruSets max ops) = newest max (Assoc.keys ops).dedup := by
  rw [lruSets_eq, ← keys_latest, Assoc.keys, Assoc.keys, newest, newest, List.map_drop,
    List.length_map]

/-- A key that is gone has been followed by `max` others. -/
theorem followed_of_evicted {max : Nat} {before after : List (κ × υ)} {key : κ} {value : υ}
    (hkey : key ∉ Assoc.keys after)
    (h : key ∉ Assoc.keys (lruSets max (before ++ (key, value) :: after))) :
    max ≤ (Assoc.keys after).dedup.length := by
  obtain ⟨older, hl⟩ := latest_append before value hkey
  by_contra hlt
  rw [lruSets_eq, hl] at h
  refine h (List.mem_map_of_mem (a := (key, value)) ?_)
  have hlen := length_latest after
  have hdrop : (older ++ (key, value) :: latest after).length - max ≤ older.length := by
    simp only [List.length_append, List.length_cons]
    omega
  rw [newest, List.drop_append_of_le_length hdrop]
  simp

end

/-! ## The result -/

/-- `lruSet` is a cache of the latest settings: the map holds the newest `max` of them, as many as
there are of the distinct keys, each with its latest value, and drops a key only after `max` others
have been set. -/
theorem lru_refines {κ υ : Type} [DecidableEq κ] (max : Nat) (ops : List (κ × υ)) :
    lruSets max ops = newest max (latest ops) ∧
    Assoc.keys (lruSets max ops) = newest max (Assoc.keys ops).dedup ∧
    (lruSets max ops).length = min max (Assoc.keys ops).dedup.length ∧
    ∀ before key value after, ops = before ++ (key, value) :: after → key ∉ Assoc.keys after →
      Assoc.get? (lruSets max ops) key = some value ∨
        (key ∉ Assoc.keys (lruSets max ops) ∧ max ≤ (Assoc.keys after).dedup.length) := by
  have hkeys := keys_lruSets max ops
  have hnodup : (Assoc.keys (lruSets max ops)).Nodup := by
    rw [hkeys]
    exact (List.nodup_dedup _).sublist (List.drop_sublist _ _)
  refine ⟨lruSets_eq ops, hkeys, ?_, ?_⟩
  · rw [← length_newest, ← hkeys, Assoc.keys, List.length_map]
  · rintro before key value after rfl hafter
    by_cases hmem : key ∈ Assoc.keys (lruSets max (before ++ (key, value) :: after))
    · refine .inl ?_
      obtain ⟨⟨_, v⟩, hv, rfl⟩ := List.mem_map.mp hmem
      have hget := (Assoc.mem_iff_get? hnodup).mp hv
      -- the settings hold the key once, with this value
      rw [lruSets_eq] at hv
      have hlatest := (Assoc.mem_iff_get? (nodup_latest _)).mp (List.mem_of_mem_drop hv)
      obtain ⟨older, hl⟩ := latest_append before value hafter
      have hown : (_, value) ∈ latest (before ++ (_, value) :: after) :=
        hl ▸ List.mem_append_right older List.mem_cons_self
      rw [hget, ← hlatest]
      exact (Assoc.mem_iff_get? (nodup_latest _)).mp hown
    · exact .inr ⟨hmem, followed_of_evicted hafter hmem⟩

end Music3
