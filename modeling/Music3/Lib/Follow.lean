import Mathlib.Data.List.Sort
import Music3.Lib.BoundedLog

/-!
# Reading a bounded log from a cursor

The entries of a history carry the numbers `1, 2, …` (`Numbered`). A reader that has read `xs` asks
for what the log retains after the number of its last entry (`since num log (cursor num xs)`).

`Part n h xs`: `xs` is a part of the history `h`, in order, and its beginning if a log of `n`
entries has dropped nothing. A reader keeps this however it is interleaved with the appends
(`Part.concat`), and if nothing was dropped, then what it asks for is all that it has not read
(`Part.since_all`).
-/

namespace BoundedLog

variable {α : Type} {n : Nat} {h h' xs ys : List α}

section
variable (num : α → Nat)

/-- The entries carry the numbers from `1` on. -/
def Numbered (h : List α) : Prop := h.map num = List.range' 1 h.length

/-- The entries after the number `k`; all of them without one. -/
def since (log : List α) : Option Nat → List α
  | none => log
  | some k => log.filter fun x => k < num x

/-- The number of the last entry. -/
def cursor (xs : List α) : Option Nat := xs.getLast?.map num

end

/-- `xs` is a part of `h` (module doc). -/
structure Part (n : Nat) (h xs : List α) : Prop where
  sublist : xs.Sublist h
  beginning : h.length ≤ n → xs <+: h

variable {num : α → Nat}

/-! ## Numbers -/

theorem filter_lt {s : Nat} (hn : h.map num = List.range' s h.length) (k : Nat) :
    (h.filter fun x => k < num x) = h.drop (k + 1 - s) := by
  induction h generalizing s with
  | nil => rw [List.drop_nil]; rfl
  | cons x h ih =>
    rw [List.map_cons, List.length_cons, List.range'_succ, List.cons.injEq] at hn
    obtain ⟨hx, hn⟩ := hn
    rw [List.filter_cons, ih hn]
    by_cases hk : k < s
    · rw [if_pos (by rw [hx]; exact decide_eq_true hk), Nat.sub_eq_zero_of_le (by omega),
        Nat.sub_eq_zero_of_le (by omega), List.drop_zero, List.drop_zero]
    · rw [if_neg (by rw [hx]; exact mt of_decide_eq_true hk),
        show k + 1 - s = k + 1 - (s + 1) + 1 by omega, List.drop_succ_cons]

theorem filter_le {s : Nat} (hn : h.map num = List.range' s h.length) (k : Nat) :
    (h.filter fun x => num x ≤ k) = h.take (k + 1 - s) := by
  induction h generalizing s with
  | nil => rw [List.take_nil]; rfl
  | cons x h ih =>
    rw [List.map_cons, List.length_cons, List.range'_succ, List.cons.injEq] at hn
    obtain ⟨hx, hn⟩ := hn
    rw [List.filter_cons, ih hn]
    by_cases hk : s ≤ k
    · rw [if_pos (by rw [hx]; exact decide_eq_true hk),
        show k + 1 - s = k + 1 - (s + 1) + 1 by omega, List.take_succ_cons]
    · rw [if_neg (by rw [hx]; exact mt of_decide_eq_true hk), Nat.sub_eq_zero_of_le (by omega),
        Nat.sub_eq_zero_of_le (by omega), List.take_zero, List.take_zero]

namespace Numbered

theorem filter_lt (hn : Numbered num h) (k : Nat) :
    (h.filter fun x => k < num x) = h.drop k := BoundedLog.filter_lt hn k

theorem filter_le (hn : Numbered num h) (k : Nat) :
    (h.filter fun x => num x ≤ k) = h.take k := BoundedLog.filter_le hn k

/-- The numbers of a part increase. -/
theorem increasing (hn : Numbered num h) (hs : xs.Sublist h) :
    (xs.map num).Pairwise (· < ·) := by
  have : (h.map num).Pairwise (· < ·) := hn ▸ List.pairwise_lt_range'
  exact this.sublist (hs.map num)

/-- What a log retains after the number `k`. -/
theorem since_newest (hn : Numbered num h) (n k : Nat) :
    since num (newest n h) (some k) = h.drop (max k (h.length - n)) := by
  rw [since, newest, ← hn.filter_lt, List.filter_filter, ← hn.filter_lt]
  apply List.filter_congr
  intro x _
  rw [Bool.eq_iff_iff]
  simp only [Bool.and_eq_true, decide_eq_true_eq]
  omega

/-- A beginning of the history ends with its own length. -/
theorem cursor_prefix (hn : Numbered num h) (hp : xs <+: h) (hne : xs ≠ []) :
    cursor num xs = some xs.length := by
  obtain ⟨t, rfl⟩ := hp
  have hx : xs.map num = List.range' 1 xs.length := by
    rw [Numbered, List.map_append, List.length_append, ← List.range'_append_1] at hn
    exact List.append_inj_left hn (by rw [List.length_map, List.length_range'])
  obtain ⟨ys, y, rfl⟩ := (List.eq_nil_or_concat' xs).resolve_left hne
  rw [cursor, ← List.getLast?_map, hx, List.length_append, List.length_singleton,
    List.range'_concat, List.getLast?_concat]
  congr 1
  omega

end Numbered

/-! ## Parts -/

namespace Part

theorem nil : Part n h [] := ⟨List.nil_sublist h, fun _ => List.nil_prefix⟩

/-- The history grows. -/
theorem mono (hp : Part n h xs) (hh : h <+: h') : Part n h' xs :=
  ⟨hp.sublist.trans hh.sublist, fun hl => (hp.beginning (Nat.le_trans hh.length_le hl)).trans hh⟩

theorem left (hp : Part n h (xs ++ ys)) : Part n h xs :=
  ⟨(List.sublist_append_left xs ys).trans hp.sublist,
    fun hl => (List.prefix_append xs ys).trans (hp.beginning hl)⟩

/-- If the log has dropped nothing, a reader has read everything after it asked. -/
theorem since_all (hp : Part n h xs) (hn : Numbered num h) (hl : h.length ≤ n) :
    xs ++ since num (newest n h) (cursor num xs) = h := by
  have hpre := hp.beginning hl
  rcases List.eq_nil_or_concat' xs with rfl | ⟨ys, y, rfl⟩
  · show newest n h = h
    rw [newest, Nat.sub_eq_zero_of_le hl, List.drop_zero]
  · rw [hn.cursor_prefix hpre (by simp), hn.since_newest, Nat.sub_eq_zero_of_le hl, Nat.max_zero]
    obtain ⟨t, rfl⟩ := hpre
    rw [List.drop_left]

/-- The reader appends what the log retains after its cursor. -/
theorem concat (hp : Part n h xs) (hn : Numbered num h) :
    Part n h (xs ++ since num (newest n h) (cursor num xs)) := by
  refine ⟨?_, fun hl => (hp.since_all hn hl).symm ▸ List.prefix_rfl⟩
  rcases List.eq_nil_or_concat' xs with rfl | ⟨ys, y, rfl⟩
  · exact List.drop_sublist _ _
  have hc : cursor num (ys ++ [y]) = some (num y) := by rw [cursor, List.getLast?_concat]; rfl
  -- what has been read carries the numbers up to the cursor, what is retained the later ones
  have hle : ∀ x ∈ ys ++ [y], num x ≤ num y := by
    have hi := hn.increasing hp.sublist
    rw [List.map_append, List.pairwise_append] at hi
    intro x hx
    rcases List.mem_append.mp hx with hx | hx
    · exact Nat.le_of_lt (hi.2.2 _ (List.mem_map_of_mem hx) _ (by simp))
    · rw [List.mem_singleton.mp hx]
  have hread : (ys ++ [y]).Sublist (h.take (num y)) := by
    have := hp.sublist.filter fun x => num x ≤ num y
    rwa [hn.filter_le, List.filter_eq_self.mpr fun x hx => decide_eq_true (hle x hx)] at this
  have hlater : (h.drop (max (num y) (h.length - n))).Sublist (h.drop (num y)) := by
    rw [show max (num y) (h.length - n) = num y + (max (num y) (h.length - n) - num y) by omega,
      ← List.drop_drop]
    exact List.drop_sublist _ _
  have := hread.append hlater
  rwa [List.take_append_drop, ← hn.since_newest, ← hc] at this

/-- A reader that has read more asks for less. -/
theorem since_subset (hp : Part n h (xs ++ ys)) (hn : Numbered num h) (log : List α) :
    since num log (cursor num (xs ++ ys)) ⊆ since num log (cursor num xs) := by
  intro x hx
  rcases List.eq_nil_or_concat' xs with rfl | ⟨xs', a, rfl⟩
  · show x ∈ log
    cases hc : cursor num ([] ++ ys) with
    | none => rwa [hc] at hx
    | some k =>
      rw [hc] at hx
      exact (List.mem_filter.mp hx).1
  rcases List.eq_nil_or_concat' ys with rfl | ⟨ys', b, rfl⟩
  · rwa [List.append_nil] at hx
  have hlt : num a < num b := by
    have hi := hn.increasing hp.sublist
    rw [List.map_append, List.pairwise_append] at hi
    exact hi.2.2 _ (List.mem_map_of_mem (by simp)) _ (List.mem_map_of_mem (by simp))
  have ha : cursor num (xs' ++ [a]) = some (num a) := by rw [cursor, List.getLast?_concat]; rfl
  have hb : cursor num (xs' ++ [a] ++ (ys' ++ [b])) = some (num b) := by
    rw [cursor, ← List.append_assoc, List.getLast?_concat]
    rfl
  rw [hb, since, List.mem_filter, decide_eq_true_eq] at hx
  rw [ha, since, List.mem_filter, decide_eq_true_eq]
  exact ⟨hx.1, by omega⟩

end Part

end BoundedLog
