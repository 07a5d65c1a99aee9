import Mathlib.Algebra.GroupWithZero.Nat
import Music3.Py.Paths
import Music3.Py.Rfc8259

/-!
# The same value

`Json.Same v w`: `v` and `w` are equal but for the order in which the items of a `dict` came.

`Same.reread_whole` and `same_reread`: a value without a NaN is read back from its text as the same
value iff each of its strings is `Whole`, that is, no high surrogate stands directly before a low
one. Reading joins such a pair, so the text of the value read back is shorter (`weight`).
-/

namespace Py

/-- No high surrogate directly before a low one. -/
def Whole : Str → Prop
  | [] | [_] => True
  | h :: l :: t => ¬ (isHigh h.val = true ∧ isLow l.val = true) ∧ Whole (l :: t)

theorem normStr_length_le (s : Str) : (normStr s).length ≤ s.length := by
  induction s using normStr.induct with
  | case1 | case2 => rfl
  | case3 h l t hp ih =>
    rw [normStr, if_pos hp]
    simp only [List.length_cons]
    omega
  | case4 h l t hp ih =>
    rw [normStr, if_neg hp]
    simp only [List.length_cons] at ih ⊢
    omega

/-- A string with a pair gets shorter. -/
theorem whole_of_length {s : Str} (h : (normStr s).length = s.length) : Whole s := by
  induction s using normStr.induct with
  | case1 | case2 => trivial
  | case3 a l t hp ih =>
    have := normStr_length_le t
    rw [normStr, if_pos hp] at h
    simp only [List.length_cons] at h
    omega
  | case4 a l t hp ih =>
    rw [normStr, if_neg hp] at h
    rw [Bool.and_eq_true] at hp
    exact ⟨hp, ih (by simpa using h)⟩

theorem normStr_of_whole {s : Str} (h : Whole s) : normStr s = s := by
  induction s using normStr.induct with
  | case1 | case2 => rfl
  | case3 a l t hp ih =>
    rw [Bool.and_eq_true] at hp
    exact absurd hp h.1
  | case4 a l t hp ih => rw [normStr, if_neg hp, ih h.2]

theorem whole_of_plain {s : Str} (h : plain s) : Whole s :=
  whole_of_length (congrArg List.length ((normStr_eq_plain h).mpr rfl))

theorem whole_cons_cons {h l : CodePoint} {t : Str} :
    Whole (h :: l :: t) ↔ ¬ (isHigh h.val = true ∧ isLow l.val = true) ∧ Whole (l :: t) := Iff.rfl

theorem whole_nil : Whole [] := trivial

theorem whole_singleton (c : CodePoint) : Whole [c] := trivial

attribute [irreducible] Whole

namespace Json

/-- The same value (module doc). -/
def Same (v w : Json) : Prop := v.sortKeys = w.sortKeys

/-! ## Sorted keys -/

theorem strLe_total (s t : Str) : strLe s t = true ∨ strLe t s = true := by
  induction s generalizing t with
  | nil => exact .inl rfl
  | cons a s ih =>
    cases t with
    | nil => exact .inr rfl
    | cons b t =>
      simp only [strLe, Bool.or_eq_true, Bool.and_eq_true, decide_eq_true_eq]
      rcases lt_trichotomy a b with h | rfl | h
      · exact .inl (.inl h)
      · exact (ih t).imp (fun h => .inr ⟨rfl, h⟩) fun h => .inr ⟨rfl, h⟩
      · exact .inr (.inl h)

theorem strLe_trans {s t u : Str} (h : strLe s t = true) (h' : strLe t u = true) :
    strLe s u = true := by
  induction s generalizing t u with
  | nil => rfl
  | cons a s ih =>
    cases t with
    | nil => cases h
    | cons b t =>
      cases u with
      | nil => cases h'
      | cons c u =>
        simp only [strLe, Bool.or_eq_true, Bool.and_eq_true, decide_eq_true_eq] at h h' ⊢
        rcases h with h | ⟨rfl, h⟩
        · rcases h' with h' | ⟨rfl, -⟩
          · exact .inl (lt_trans h h')
          · exact .inl h
        · rcases h' with h' | ⟨rfl, h'⟩
          · exact .inl h'
          · exact .inr ⟨rfl, ih h h'⟩

/-- The order of `sorted(d.items())`. -/
abbrev itemLe (a b : Str × Json) : Prop := strLe a.1 b.1 = true

instance : Std.Total itemLe := ⟨fun a b => strLe_total a.1 b.1⟩
instance : IsTrans (Str × Json) itemLe := ⟨fun _ _ _ => strLe_trans⟩

theorem sortItems_sorted (d : Dict) : (sortItems d).Pairwise itemLe :=
  List.pairwise_insertionSort itemLe d

theorem sortItems_of_sorted {d : Dict} (h : d.Pairwise itemLe) : sortItems d = d :=
  List.Pairwise.insertionSort_eq h

mutual
/-- Sorting twice is sorting once. -/
theorem sortKeys_sortKeys : ∀ v : Json, v.sortKeys.sortKeys = v.sortKeys
  | .arr xs => by rw [sortKeys, sortKeys, sortKeysList_sortKeys xs]
  | .obj kvs => by
    have hfix :
        sortKeysFields (sortItems (sortKeysFields kvs)) = sortItems (sortKeysFields kvs) := by
      rw [sortKeysFields_eq]
      refine List.map_congr_left (g := id) (fun p hp => ?_) |>.trans (List.map_id _)
      have hp := (sortItems_perm _).mem_iff.mp hp
      exact Prod.ext rfl (sortKeysFields_fixed kvs p hp)
    rw [sortKeys, sortKeys, hfix, sortItems_of_sorted (sortItems_sorted _)]
  | .null | .bool _ | .int _ | .float _ | .str _ => rfl
theorem sortKeysList_sortKeys : ∀ xs : List Json,
    sortKeysList (sortKeysList xs) = sortKeysList xs
  | [] => rfl
  | x :: xs => by rw [sortKeysList, sortKeysList, sortKeys_sortKeys x, sortKeysList_sortKeys xs]
theorem sortKeysFields_fixed : ∀ (kvs : Dict), ∀ p ∈ sortKeysFields kvs, p.2.sortKeys = p.2
  | [], _, hp => by cases hp
  | (k, x) :: kvs, p, hp => by
    rw [sortKeysFields, List.mem_cons] at hp
    rcases hp with rfl | hp
    · exact sortKeys_sortKeys x
    · exact sortKeysFields_fixed kvs p hp
end

mutual
/-- Sorting keeps the strings. -/
theorem mem_strings_sortKeys {s : Str} : ∀ v : Json, s ∈ v.sortKeys.strings ↔ s ∈ v.strings
  | .arr xs => by rw [sortKeys, strings, strings, mem_stringsList_sortKeys xs]
  | .obj kvs => by
    rw [sortKeys, strings, strings, ← mem_stringsFields_sortKeys kvs, mem_stringsFields,
      mem_stringsFields]
    simp only [(sortItems_perm _).mem_iff]
  | .null | .bool _ | .int _ | .float _ | .str _ => Iff.rfl
theorem mem_stringsList_sortKeys {s : Str} : ∀ xs : List Json,
    s ∈ stringsList (sortKeysList xs) ↔ s ∈ stringsList xs
  | [] => Iff.rfl
  | x :: xs => by
    rw [sortKeysList, stringsList, stringsList, List.mem_append, List.mem_append,
      mem_strings_sortKeys x, mem_stringsList_sortKeys xs]
theorem mem_stringsFields_sortKeys {s : Str} : ∀ kvs : Dict,
    s ∈ stringsFields (sortKeysFields kvs) ↔ s ∈ stringsFields kvs
  | [] => Iff.rfl
  | (k, x) :: kvs => by
    rw [sortKeysFields, stringsFields, stringsFields, List.mem_cons, List.mem_cons,
      List.mem_append, List.mem_append, mem_strings_sortKeys x, mem_stringsFields_sortKeys kvs]
theorem mem_stringsFields {s : Str} : ∀ {kvs : Dict},
    s ∈ stringsFields kvs ↔ ∃ p ∈ kvs, s = p.1 ∨ s ∈ p.2.strings
  | [] => by simp [stringsFields]
  | (k, x) :: kvs => by
    rw [stringsFields, List.mem_cons, List.mem_append, mem_stringsFields]
    simp [or_assoc]
end

theorem finiteFields_iff {d : Dict} : FiniteFields d ↔ ∀ p ∈ d, p.2.Finite := by
  induction d with
  | nil => simp [FiniteFields]
  | cons p d ih => simp [FiniteFields, ih]

mutual
theorem finite_sortKeys : ∀ v : Json, v.sortKeys.Finite ↔ v.Finite
  | .arr xs => by rw [sortKeys, Finite, Finite, finiteList_sortKeys xs]
  | .obj kvs => by
    rw [sortKeys, Finite, Finite, ← finiteFields_sortKeys kvs, finiteFields_iff, finiteFields_iff]
    simp only [(sortItems_perm _).mem_iff]
  | .null | .bool _ | .int _ | .float _ | .str _ => Iff.rfl
theorem finiteList_sortKeys : ∀ xs : List Json, FiniteList (sortKeysList xs) ↔ FiniteList xs
  | [] => Iff.rfl
  | x :: xs => by
    rw [sortKeysList, FiniteList, FiniteList, finite_sortKeys x, finiteList_sortKeys xs]
theorem finiteFields_sortKeys : ∀ kvs : Dict, FiniteFields (sortKeysFields kvs) ↔ FiniteFields kvs
  | [] => Iff.rfl
  | (k, x) :: kvs => by
    rw [sortKeysFields, FiniteFields, FiniteFields, finite_sortKeys x, finiteFields_sortKeys kvs]
end

/-! ## The length of the strings -/

mutual
/-- The characters in the strings and the keys of a value. -/
def weight : Json → Nat
  | .str s => s.length
  | .arr xs => weightList xs
  | .obj kvs => weightFields kvs
  | .null | .bool _ | .int _ | .float _ => 0
def weightList : List Json → Nat
  | [] => 0
  | x :: xs => weight x + weightList xs
def weightFields : List (Str × Json) → Nat
  | [] => 0
  | (k, x) :: kvs => k.length + weight x + weightFields kvs
end

theorem weightFields_eq (d : Dict) : weightFields d =
    (d.map fun p => p.1.length + weight p.2).sum := by
  induction d with
  | nil => rfl
  | cons p d ih => rw [weightFields, ih]; rfl

theorem weightFields_set (d : Dict) (k : Str) (x : Json) :
    weightFields (d.set k x) ≤ weightFields d + (k.length + weight x) := by
  unfold Dict.set
  induction d with
  | nil => simp [Assoc.set, weightFields]
  | cons p d ih =>
    obtain ⟨j, y⟩ := p
    rw [Assoc.set]
    split
    · simp only [weightFields]
      omega
    · simp only [weightFields]
      omega

/-- Keys that have become equal are merged. -/
theorem weightFields_ofPairs (d : Dict) : weightFields (Dict.ofPairs d) ≤ weightFields d := by
  have hset : ∀ (d acc : Dict), weightFields (d.foldl (fun d p => Dict.set d p.1 p.2) acc) ≤
      weightFields acc + weightFields d := by
    intro d
    induction d with
    | nil => exact fun acc => Nat.le_refl _
    | cons p d ih =>
      intro acc
      have := ih (Dict.set acc p.1 p.2)
      have := weightFields_set acc p.1 p.2
      rw [List.foldl_cons, weightFields]
      omega
  simpa [weightFields, Dict.ofPairs] using hset d []

mutual
theorem weight_sortKeys : ∀ v : Json, v.sortKeys.weight = v.weight
  | .arr xs => by rw [sortKeys, weight, weight, weightList_sortKeys xs]
  | .obj kvs => by
    rw [sortKeys, weight, weight, ← weightFields_sortKeys kvs, weightFields_eq, weightFields_eq]
    exact ((sortItems_perm _).map _).sum_nat
  | .null | .bool _ | .int _ | .float _ | .str _ => rfl
theorem weightList_sortKeys : ∀ xs : List Json, weightList (sortKeysList xs) = weightList xs
  | [] => rfl
  | x :: xs => by rw [sortKeysList, weightList, weightList, weight_sortKeys x,
      weightList_sortKeys xs]
theorem weightFields_sortKeys : ∀ kvs : Dict, weightFields (sortKeysFields kvs) = weightFields kvs
  | [] => rfl
  | (k, x) :: kvs => by
    rw [sortKeysFields, weightFields, weightFields, weight_sortKeys x, weightFields_sortKeys kvs]
end

mutual
/-- Reading joins pairs: what it does not make shorter is whole. -/
theorem norm_weight : ∀ v : Json, (norm v).weight ≤ v.weight ∧
    ((norm v).weight = v.weight → ∀ s ∈ v.strings, Whole s)
  | .str s => ⟨normStr_length_le s, fun h s' hs => by
      rw [strings, List.mem_singleton] at hs
      exact hs ▸ whole_of_length h⟩
  | .arr xs => normList_weight xs
  | .obj kvs => by
    obtain ⟨hle, hw⟩ := normFields_weight kvs
    have := weightFields_ofPairs (normFields kvs)
    rw [norm, weight, weight]
    exact ⟨by omega, fun h => hw (by omega)⟩
  | .null | .bool _ | .int _ | .float _ => ⟨Nat.le_refl _, fun _ s hs => by cases hs⟩
theorem normList_weight : ∀ xs : List Json, weightList (normList xs) ≤ weightList xs ∧
    (weightList (normList xs) = weightList xs → ∀ s ∈ stringsList xs, Whole s)
  | [] => ⟨Nat.le_refl _, fun _ s hs => by cases hs⟩
  | x :: xs => by
    obtain ⟨hle, hw⟩ := norm_weight x
    obtain ⟨hle', hw'⟩ := normList_weight xs
    rw [normList, weightList, weightList, stringsList, List.forall_mem_append]
    exact ⟨by omega, fun h => ⟨hw (by omega), hw' (by omega)⟩⟩
theorem normFields_weight : ∀ kvs : Dict, weightFields (normFields kvs) ≤ weightFields kvs ∧
    (weightFields (normFields kvs) = weightFields kvs → ∀ s ∈ stringsFields kvs, Whole s)
  | [] => ⟨Nat.le_refl _, fun _ s hs => by cases hs⟩
  | (k, x) :: kvs => by
    obtain ⟨hle, hw⟩ := norm_weight x
    obtain ⟨hle', hw'⟩ := normFields_weight kvs
    have hk := normStr_length_le k
    rw [normFields, weightFields, weightFields, stringsFields, List.forall_mem_cons,
      List.forall_mem_append]
    exact ⟨by omega, fun h =>
      ⟨whole_of_length (by omega), hw (by omega), hw' (by omega)⟩⟩
end

/-! ## Reading back -/

/-- What is read back as the same value has whole strings. -/
theorem Same.reread_whole {v : Json} (h : Same v.reread v) : ∀ s ∈ v.strings, Whole s := by
  have hw : (norm v.sortKeys).weight = v.sortKeys.weight := by
    rw [← weight_sortKeys (norm v.sortKeys), show (norm v.sortKeys).sortKeys = v.sortKeys from h]
  exact fun s hs => (norm_weight v.sortKeys).2 hw s ((mem_strings_sortKeys v).mpr hs)

mutual
theorem stable_of_whole : ∀ {v : Json}, v.WF → v.Finite → (∀ s ∈ v.strings, Whole s) → v.Stable
  | .str s, _, _, h => normStr_of_whole (h s (List.mem_singleton_self s))
  | .float _, _, hf, _ => if_pos hf
  | .arr _, hv, hf, h => stableList_of_whole hv hf h
  | .obj _, hv, hf, h => ⟨hv.1, stableFields_of_whole hv.2 hf h⟩
  | .null, _, _, _ | .bool _, _, _, _ | .int _, _, _, _ => trivial
theorem stableList_of_whole : ∀ {xs : List Json}, WFList xs → FiniteList xs →
    (∀ s ∈ stringsList xs, Whole s) → StableList xs
  | [], _, _, _ => trivial
  | _ :: _, hv, hf, h => by
    rw [stringsList, List.forall_mem_append] at h
    exact ⟨stable_of_whole hv.1 hf.1 h.1, stableList_of_whole hv.2 hf.2 h.2⟩
theorem stableFields_of_whole : ∀ {kvs : List (Str × Json)}, WFFields kvs → FiniteFields kvs →
    (∀ s ∈ stringsFields kvs, Whole s) → StableFields kvs
  | [], _, _, _ => trivial
  | (_, _) :: _, hv, hf, h => by
    rw [stringsFields, List.forall_mem_cons, List.forall_mem_append] at h
    exact ⟨normStr_of_whole h.1, stable_of_whole hv.1 hf.1 h.2.1,
      stableFields_of_whole hv.2 hf.2 h.2.2⟩
end

/-- A value with finite floats and whole strings is read back as the same value. -/
theorem same_reread {v : Json} (hv : v.WF) (hf : v.Finite) (h : ∀ s ∈ v.strings, Whole s) :
    Same v.reread v := by
  rw [Same, reread_of_stable (stable_of_whole hv hf h), sortKeys_sortKeys]

/-- What a path leads to in two values that are the same. -/
theorem Same.at? {v w : Json} {ks : List Str} (h : Same v w) (hv : v.WF) (hw : w.WF)
    (hk : ∀ k ∈ ks, plain k) : (v.at? ks).map sortKeys = (w.at? ks).map sortKeys := by
  have hsort : ∀ {u : Json}, u.WF → u.sortKeys.at? ks = (u.at? ks).map sortKeys := fun hu =>
    at?_image (fun h => ⟨_, rfl, fun k _ => by
      rw [get?_sortItems (ok_sortKeysFields h), get?_sortKeysFields]⟩)
      (fun v hv => by cases v <;> first | rfl | cases hv) (hu.sound hk)
  rw [← hsort hv, ← hsort hw, show v.sortKeys = w.sortKeys from h]

end Json

end Py
