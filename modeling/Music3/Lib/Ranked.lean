import Mathlib.Data.List.Sort
import Mathlib.Order.MinMax

/-!
# Order statistics, and the cut of a stable sort

`IsNth k l m`: `m` is the `k`-th greatest element of `l`, with repetitions. It counts, so it does not
see the order of `l` (`IsNth.perm`), and it is decided by how many elements are above each value
(`IsNth.lt_iff`). The maximum is the first (`isNth_max`), and the maximum of a sorted list without
its ends the second (`isNth_trim`).

A stable sort by a key, cut after `n` elements: all that are above the `n`-th greatest key, and of
those with that key the first ones, in the order of the list (`take_sortDesc`).
-/

namespace Ranked

section
variable {α : Type} [LinearOrder α] {k : Nat} {l l' : List α} {m v : α}

/-- `m` is the `k`-th greatest element of `l` (module doc). -/
structure IsNth (k : Nat) (l : List α) (m : α) : Prop where
  reached : k ≤ l.countP fun x => m ≤ x
  above : (l.countP fun x => m < x) < k

theorem IsNth.perm (hp : l.Perm l') (h : IsNth k l m) : IsNth k l' m :=
  ⟨hp.countP_eq _ ▸ h.reached, hp.countP_eq _ ▸ h.above⟩

/-- The `k`-th greatest is above `v` if `k` elements are. -/
theorem IsNth.lt_iff (h : IsNth k l m) : v < m ↔ k ≤ l.countP fun x => v < x := by
  constructor
  · intro hv
    refine le_trans h.reached (List.countP_mono_left fun x _ hx => ?_)
    simp only [decide_eq_true_eq] at hx ⊢
    exact lt_of_lt_of_le hv hx
  · intro hk
    by_contra hv
    have hle : (l.countP fun x => v < x) ≤ l.countP fun x => m < x := by
      refine List.countP_mono_left fun x _ hx => ?_
      simp only [decide_eq_true_eq] at hx ⊢
      exact lt_of_le_of_lt (not_lt.mp hv) hx
    have := h.above
    omega

theorem IsNth.eq_of_above {m' : α} (h : IsNth k l m) (h' : IsNth k l' m')
    (hl : ∀ v, (k ≤ l.countP fun x => v < x) ↔ k ≤ l'.countP fun x => v < x) : m = m' :=
  eq_of_forall_lt_iff fun v => by rw [h.lt_iff, h'.lt_iff, hl]

theorem IsNth.unique {m' : α} (h : IsNth k l m) (h' : IsNth k l m') : m = m' :=
  h.eq_of_above h' fun _ => Iff.rfl

theorem IsNth.mem (h : IsNth k l m) : m ∈ l := by
  by_contra hm
  have heq : (l.countP fun x => m ≤ x) = l.countP fun x => m < x := by
    refine List.countP_congr fun x hx => ?_
    have hne : m ≠ x := fun e => hm (e ▸ hx)
    simp [hne.le_iff_lt]
  have h₁ := h.reached
  have h₂ := h.above
  omega

theorem IsNth.map {β : Type} [LinearOrder β] {f : α → β} (hf : StrictMono f) (h : IsNth k l m) :
    IsNth k (l.map f) (f m) := by
  constructor
  · simpa only [List.countP_map, Function.comp_def, hf.le_iff_le] using h.reached
  · simpa only [List.countP_map, Function.comp_def, hf.lt_iff_lt] using h.above

theorem max?_iff : l.max? = some m ↔ m ∈ l ∧ ∀ x ∈ l, x ≤ m :=
  have : Std.LawfulOrderMax α := { max_le_iff _ _ _ := max_le_iff, max_eq_or := max_choice }
  List.max?_eq_some_iff

theorem isNth_max (h : l.max? = some m) : IsNth 1 l m := by
  obtain ⟨hm, hle⟩ := max?_iff.mp h
  constructor
  · exact List.countP_pos_iff.mpr ⟨m, hm, by simp⟩
  · have hzero : (l.countP fun x => m < x) = 0 :=
      List.countP_eq_zero.mpr fun x hx => by simpa using hle x hx
    omega

/-- The maximum of a sorted list without its ends is the second greatest of the list. -/
theorem isNth_trim (hl : 3 ≤ l.length) (hs : l.Pairwise (· ≤ ·)) :
    ∃ m, l.tail.dropLast.max? = some m ∧ IsNth 2 l m := by
  obtain ⟨init, m, z, rfl, hinit⟩ : ∃ init m z, l = init ++ [m, z] ∧ init ≠ [] := by
    rcases List.eq_nil_or_concat' l with rfl | ⟨l, z, rfl⟩
    · simp at hl
    rcases List.eq_nil_or_concat' l with rfl | ⟨init, m, rfl⟩
    · simp at hl
    refine ⟨init, m, z, by simp, fun e => ?_⟩
    simp [e] at hl
  obtain ⟨-, hmz, hle⟩ := List.pairwise_append.mp hs
  have hmz : m ≤ z := by simpa using hmz
  have hinit_le : ∀ x ∈ init, x ≤ m := fun x hx => hle x hx m List.mem_cons_self
  refine ⟨m, ?_, ?_, ?_⟩
  · obtain ⟨x, init, rfl⟩ := List.exists_cons_of_ne_nil hinit
    have htrim : (x :: init ++ [m, z]).tail.dropLast = init ++ [m] := by
      rw [List.cons_append, List.tail_cons, show init ++ [m, z] = init ++ [m] ++ [z] by simp,
        List.dropLast_concat]
    rw [htrim, max?_iff]
    refine ⟨by simp, fun y hy => ?_⟩
    rcases List.mem_append.mp hy with hy | hy
    · exact hinit_le y (List.mem_cons_of_mem x hy)
    · exact (List.mem_singleton.mp hy).le
  · simp [List.countP_append, hmz]
  · have hzero : (init.countP fun x => m < x) = 0 :=
      List.countP_eq_zero.mpr fun x hx => by simpa using hinit_le x hx
    rw [List.countP_append, hzero, List.countP_cons, List.countP_cons]
    simp
    split <;> omega

/-- A list of `k` elements or more has a `k`-th greatest one. -/
theorem exists_isNth (hk : 0 < k) (hl : k ≤ l.length) : ∃ m, IsNth k l m := by
  have hs : (l.insertionSort (· ≥ ·)).Pairwise (· ≥ ·) := List.pairwise_insertionSort _ l
  have hp : (l.insertionSort (· ≥ ·)).Perm l := List.perm_insertionSort _ l
  generalize l.insertionSort (· ≥ ·) = s at hs hp
  rw [← hp.length_eq] at hl
  obtain ⟨m, rest, hrest⟩ : ∃ m rest, s.drop (k - 1) = m :: rest := by
    refine List.exists_cons_of_ne_nil fun e => ?_
    have := List.drop_eq_nil_iff.mp e
    omega
  rw [← List.take_append_drop (k - 1) s, hrest] at hs hp
  obtain ⟨-, htail, hcross⟩ := List.pairwise_append.mp hs
  have hlen : (s.take (k - 1)).length = k - 1 := by
    rw [List.length_take]
    omega
  refine ⟨m, IsNth.perm (l := s.take (k - 1) ++ m :: rest) hp ⟨?_, ?_⟩⟩
  · have hfront : ((s.take (k - 1)).countP fun x => m ≤ x) = k - 1 := by
      rw [List.countP_eq_length.mpr fun x hx => by simpa using hcross x hx m List.mem_cons_self,
        hlen]
    rw [List.countP_append, hfront, List.countP_cons]
    simp
    omega
  · have hback : ((m :: rest).countP fun x => m < x) = 0 := by
      refine List.countP_eq_zero.mpr fun x hx => ?_
      rcases List.mem_cons.mp hx with rfl | hx
      · simp
      · simpa using List.rel_of_pairwise_cons htail hx
    have hfront := List.countP_le_length (p := fun x : α => decide (m < x)) (l := s.take (k - 1))
    rw [List.countP_append, hback]
    omega

end

/-! ## The cut of a stable sort -/

section
variable {α β : Type} [LinearOrder α] (key : β → α)

/-- A list sorted by its keys, the greatest first, is cut by a key in three. -/
theorem sorted_cut {s : List β} (hs : s.Pairwise fun a b => key b ≤ key a) (t : α) :
    s = (s.filter fun x => t < key x) ++
      ((s.filter fun x => key x = t) ++ s.filter fun x => key x < t) := by
  induction s with
  | nil => rfl
  | cons x s ih =>
    obtain ⟨hx, hs⟩ := List.pairwise_cons.mp hs
    have ih := ih hs
    rcases lt_trichotomy t (key x) with h | h | h
    · simp only [List.filter_cons, decide_eq_true_eq, h, h.ne', h.not_gt, if_true, if_false,
        List.cons_append]
      rw [← ih]
    · have habove : (s.filter fun y => t < key y) = [] :=
        List.filter_eq_nil_iff.mpr fun y hy => by simpa [h] using hx y hy
      rw [habove, List.nil_append] at ih
      simp only [List.filter_cons, decide_eq_true_eq, h, lt_irrefl, if_true, if_false]
      rw [← h, habove, List.nil_append, List.cons_append, ← ih]
    · have habove : (s.filter fun y => t < key y) = [] :=
        List.filter_eq_nil_iff.mpr fun y hy => by simpa using (hx y hy).trans h.le
      have htied : (s.filter fun y => key y = t) = [] :=
        List.filter_eq_nil_iff.mpr fun y hy => by simpa using ((hx y hy).trans_lt h).ne
      rw [habove, htied, List.nil_append, List.nil_append] at ih
      simp only [List.filter_cons, decide_eq_true_eq, h, h.ne, h.not_gt, if_true, if_false]
      rw [habove, htied, List.nil_append, List.nil_append, ← ih]

/-- The sort by the keys, the greatest first. -/
def sortDesc (l : List β) : List β := l.insertionSort fun a b => key b ≤ key a

variable {key} {l : List β} {n : Nat} {t : α}

theorem pairwise_sortDesc (l : List β) : (sortDesc key l).Pairwise fun a b => key b ≤ key a := by
  have : Std.Total fun a b : β => key b ≤ key a := ⟨fun a b => le_total (key b) (key a)⟩
  have : IsTrans β fun a b => key b ≤ key a := ⟨fun _ _ _ h h' => h'.trans h⟩
  exact List.pairwise_insertionSort _ l

theorem perm_sortDesc (key : β → α) (l : List β) : (sortDesc key l).Perm l :=
  List.perm_insertionSort _ l

/-- The sort is stable: it keeps the order of the elements with one key. -/
theorem filter_sortDesc (l : List β) (t : α) :
    ((sortDesc key l).filter fun x => key x = t) = l.filter fun x => key x = t := by
  have : Std.Total fun a b : β => key b ≤ key a := ⟨fun a b => le_total (key b) (key a)⟩
  have : IsTrans β fun a b => key b ≤ key a := ⟨fun _ _ _ h h' => h'.trans h⟩
  have htied : (l.filter fun x => key x = t).Pairwise fun a b => key b ≤ key a := by
    refine List.pairwise_of_forall_mem_list fun a ha b hb => ?_
    have ha := (List.mem_filter.mp ha).2
    have hb := (List.mem_filter.mp hb).2
    simp only [decide_eq_true_eq] at ha hb
    rw [ha, hb]
  have hsub := (List.sublist_insertionSort htied List.filter_sublist).filter fun x => key x = t
  simp only [List.filter_filter, Bool.and_self] at hsub
  exact (hsub.eq_of_length_le (((perm_sortDesc key l).filter _).length_eq.le)).symm

/-- The keys that reach `t` are above it or at it. -/
theorem countP_reached (l : List β) (t : α) :
    ((l.map key).countP fun x => t ≤ x) =
      (l.filter fun x => t < key x).length + (l.filter fun x => key x = t).length := by
  induction l with
  | nil => rfl
  | cons x l ih =>
    rw [List.map_cons, List.countP_cons, ih, List.filter_cons, List.filter_cons]
    rcases lt_trichotomy t (key x) with h | h | h
    · simp [h, h.le, h.ne']
      omega
    · simp [h]
      omega
    · simp [h.not_ge, h.not_gt, h.ne]

/-- The first `n` elements of the sort, where `t` is the `n`-th greatest key: all that are above
it, and the first ones of those at it. -/
theorem take_sortDesc (h : IsNth n (l.map key) t) :
    ∃ newer, newer.Perm (l.filter fun x => t < key x) ∧ newer.length < n ∧
      n ≤ newer.length + (l.filter fun x => key x = t).length ∧
      (sortDesc key l).take n = newer ++ (l.filter fun x => key x = t).take (n - newer.length) := by
  have hperm := (perm_sortDesc key l).filter fun x => decide (t < key x)
  have habove : ((sortDesc key l).filter fun x => t < key x).length < n := by
    have := h.above
    rw [List.countP_map] at this
    rw [hperm.length_eq, ← List.countP_eq_length_filter]
    exact this
  have hreached : n ≤ ((sortDesc key l).filter fun x => t < key x).length +
      (l.filter fun x => key x = t).length := by
    have := h.reached
    rwa [countP_reached, ← hperm.length_eq] at this
  refine ⟨_, hperm, habove, hreached, ?_⟩
  have hcut := sorted_cut key (pairwise_sortDesc l) t
  rw [filter_sortDesc] at hcut
  conv_lhs => rw [hcut]
  rw [List.take_append, List.take_of_length_le habove.le, List.take_append_of_le_length (by omega)]

/-- How many of the first `n` elements can have a property: all that have it, and at least as many
as the others leave room for. -/
theorem countP_take_le (p : β → Bool) (l : List β) (n : Nat) :
    (l.take n).countP p ≤ min n (l.countP p) ∧
      min n l.length - (l.countP fun x => !p x) ≤ (l.take n).countP p := by
  have hsub := (List.take_sublist n l).countP_le (p := p)
  have hnot := (List.take_sublist n l).countP_le (p := fun x => !p x)
  have hall := List.length_eq_countP_add_countP p (l := l.take n)
  have hlen : (l.take n).countP p ≤ (l.take n).length := List.countP_le_length
  simp only [List.length_take] at hall hlen
  simp only [Bool.not_eq_true, Bool.decide_eq_false] at hall
  omega

/-- Where those with a property come first, as many as there are and as fit in. -/
theorem countP_take_front (p : β → Bool) (l : List β) (n : Nat) :
    ((l.filter p ++ l.filter fun x => !p x).take n).countP p = min n (l.countP p) := by
  have hfront : ((l.filter p).take n).countP p = ((l.filter p).take n).length :=
    List.countP_eq_length.mpr fun x hx => (List.mem_filter.mp (List.mem_of_mem_take hx)).2
  have hback : ((l.filter fun x => !p x).take (n - (l.filter p).length)).countP p = 0 :=
    List.countP_eq_zero.mpr fun x hx => by
      simpa using (List.mem_filter.mp (List.mem_of_mem_take hx)).2
  rw [List.take_append, List.countP_append, hfront, hback, List.length_take,
    List.countP_eq_length_filter]
  rfl

end

end Ranked
