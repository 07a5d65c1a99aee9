import Mathlib.Data.List.Dedup
import Music3.Lib.Assoc
import Music3.Lib.BoundedLog

/-!
# The latest settings of a map

`latest ops` is what a list of settings (a key and its value, the oldest first) amounts to: the
settings whose key is not set again, so each key once, with its latest value, in the order of the
latest settings. One setting more moves its key to the end (`latest_concat`).
-/

namespace Recency

open BoundedLog

variable {α β : Type} [DecidableEq α]

/-- The settings whose key is not set again. -/
def latest : List (α × β) → List (α × β)
  | [] => []
  | p :: ops => if p.1 ∈ Assoc.keys ops then latest ops else p :: latest ops

@[simp] theorem latest_nil : latest ([] : List (α × β)) = [] := rfl

/-- The keys are distinct: the distinct keys of all settings, in the order of the latest ones. -/
theorem keys_latest (ops : List (α × β)) : Assoc.keys (latest ops) = (Assoc.keys ops).dedup := by
  induction ops with
  | nil => rfl
  | cons p ops ih =>
    rw [latest, Assoc.keys_cons]
    split
    · rename_i hp
      rw [List.dedup_cons_of_mem hp, ih]
    · rename_i hp
      rw [List.dedup_cons_of_notMem hp, Assoc.keys_cons, ih]

theorem nodup_latest (ops : List (α × β)) : (Assoc.keys (latest ops)).Nodup := by
  rw [keys_latest]
  exact List.nodup_dedup _

theorem length_latest (ops : List (α × β)) :
    (latest ops).length = (Assoc.keys ops).dedup.length := by
  rw [← keys_latest, Assoc.keys, List.length_map]

/-- A setting moves its key to the end. -/
theorem latest_concat (ops : List (α × β)) (k : α) (v : β) :
    latest (ops ++ [(k, v)]) = Assoc.erase (latest ops) k ++ [(k, v)] := by
  induction ops with
  | nil => rfl
  | cons p ops ih =>
    have hkeys : Assoc.keys (ops ++ [(k, v)]) = Assoc.keys ops ++ [k] := List.map_append
    rw [List.cons_append, latest, latest, ih, hkeys]
    by_cases hk : p.1 = k
    · have hmem : p.1 ∈ Assoc.keys ops ++ [k] := by simp [hk]
      rw [if_pos hmem]
      split
      · rfl
      · simp [Assoc.erase, hk]
    · have hiff : p.1 ∈ Assoc.keys ops ++ [k] ↔ p.1 ∈ Assoc.keys ops := by simp [hk]
      by_cases hp : p.1 ∈ Assoc.keys ops
      · rw [if_pos (hiff.mpr hp), if_pos hp]
      · rw [if_neg (mt hiff.mp hp), if_neg hp]
        simp [Assoc.erase, hk]

/-- What is left of the settings from the latest one of `k` on. -/
theorem latest_append (before : List (α × β)) {after : List (α × β)} {k : α} (v : β)
    (hk : k ∉ Assoc.keys after) :
    ∃ older, latest (before ++ (k, v) :: after) = older ++ (k, v) :: latest after := by
  induction before with
  | nil => exact ⟨[], by rw [List.nil_append, latest, if_neg hk]; rfl⟩
  | cons p before ih =>
    obtain ⟨older, ih⟩ := ih
    rw [List.cons_append, latest]
    split
    · exact ⟨older, ih⟩
    · exact ⟨p :: older, by rw [ih]; rfl⟩

/-- Of the `n` newest items, the one that a setting moves to the end leaves room for no older one
that counts. -/
theorem newest_erase (n : Nat) {d : List (α × β)} (h : (Assoc.keys d).Nodup) (p : α × β) :
    newest n (Assoc.erase (newest n d) p.1 ++ [p]) = newest n (Assoc.erase d p.1 ++ [p]) := by
  by_cases hn : d.length ≤ n
  · have hall : newest n d = d := by
      unfold newest
      rw [show d.length - n = 0 by omega, List.drop_zero]
    rw [hall]
  · have hnodup : (Assoc.keys (newest n d)).Nodup := h.sublist ((List.drop_sublist _ _).map _)
    have hlen := length_newest (n := n) (h := d)
    have hkept := Assoc.length_le_erase hnodup p.1
    have hsplit : Assoc.erase d p.1 ++ [p] = Assoc.erase (d.take (d.length - n)) p.1 ++
        (Assoc.erase (newest n d) p.1 ++ [p]) := by
      rw [← List.append_assoc, Assoc.erase, Assoc.erase, Assoc.erase, newest, ← List.filter_append,
        List.take_append_drop]
    rw [hsplit]
    refine (newest_append ?_).symm
    simp only [List.length_append, List.length_singleton]
    omega

end Recency
