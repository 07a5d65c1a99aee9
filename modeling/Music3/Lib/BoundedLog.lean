import Mathlib.Data.List.Basic

/-!
# A log that keeps its newest entries

`newest n h` is the last `n` entries of a history `h`. `push n` is the append of a log bounded by
`n` entries: it drops the oldest entry of a full log. A log that starts empty and is only pushed
to holds `newest n` of everything ever pushed (`push_newest`), for every `n`; with `0 < n` it
always holds the last entry (`getLast?_newest`).
-/

namespace BoundedLog

variable {α : Type} {n : Nat} {h : List α} {x : α}

/-- The last `n` entries of the history `h`. -/
def newest (n : Nat) (h : List α) : List α := h.drop (h.length - n)

/-- Append `x` to a log of at most `n` entries, dropping the oldest ones over the bound. -/
def push (n : Nat) (xs : List α) (x : α) : List α := (xs ++ [x]).drop ((xs ++ [x]).length - n)

@[simp] theorem newest_nil : newest n ([] : List α) = [] := by simp [newest]

theorem length_newest : (newest n h).length = min n h.length := by
  unfold newest; rw [List.length_drop]; omega

/-- A pushed log holds the newest entries of its history. -/
theorem push_newest : push n (newest n h) x = newest n (h ++ [x]) := by
  have hl := length_newest (n := n) (h := h)
  unfold push
  rw [List.length_append, hl, List.length_singleton]
  by_cases hn : n ≤ h.length
  · rw [Nat.min_eq_left hn]
    unfold newest
    cases n with
    | zero => simp
    | succ k =>
      rw [show k + 1 + 1 - (k + 1) = 1 by omega, List.length_append, List.length_singleton,
        show h.length + 1 - (k + 1) = h.length - (k + 1) + 1 by omega,
        List.drop_append_of_le_length (by simp; omega), List.drop_append_of_le_length (by omega),
        List.drop_drop]
  · rw [Nat.min_eq_right (by omega)]
    unfold newest
    rw [List.length_append, List.length_singleton, show h.length - n = 0 by omega,
      show h.length + 1 - n = 0 by omega]
    rfl

/-- With enough entries after them, older ones do not count. -/
theorem newest_append {old : List α} (hn : n ≤ h.length) : newest n (old ++ h) = newest n h := by
  unfold newest
  rw [List.length_append, show old.length + h.length - n = old.length + (h.length - n) by omega,
    List.drop_length_add_append]

/-- The last entry is never dropped. -/
theorem getLast?_newest (hn : 0 < n) : (newest n h).getLast? = h.getLast? := by
  unfold newest
  rw [List.getLast?_drop]
  split
  · rename_i hle
    have : h = [] := List.eq_nil_of_length_eq_zero (by omega)
    subst this; rfl
  · rfl

end BoundedLog
