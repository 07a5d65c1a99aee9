import Mathlib.Data.List.Induction
import Mathlib.Algebra.Group.Nat.Defs
import Music3.Py.Loads

/-!
# What `json.loads` returns

`loads_induct`: a property of a value and a bound on its depth that the values of the decoder have
if their parts have it (`Closed`). `closed_wf`, `closed_intsOk` and `closed_depth`: the keys of each
`dict` are distinct, each `int` has a text (the decoder refuses a longer one), and a value nests no
deeper than the limit.
-/

namespace Py

/-- A property that a container has if its parts have it, one level deeper. -/
structure Closed (Q : Nat → Json → Prop) : Prop where
  null : ∀ d, Q d .null
  bool : ∀ d b, Q d (.bool b)
  int : ∀ d n, intsOk (.int n) = true → Q d (.int n)
  float : ∀ d x, Q d (.float x)
  str : ∀ d s, Q d (.str s)
  arr : ∀ d xs, (∀ x ∈ xs, Q d x) → Q (d + 1) (.arr xs)
  obj : ∀ d kvs, Dict.Ok kvs → (∀ p ∈ kvs, Q d p.2) → Q (d + 1) (.obj kvs)

/-- What a closed property gives of a scan: an array or an object is one level above its parts. -/
def Target.Gives (Q : Nat → Json → Prop) (d : Nat) (v : Json) : Target → Prop
  | value => Q d v
  | elems acc => (∀ x ∈ acc, Q d x) → Q (d + 1) v
  | members acc => Dict.Ok acc → (∀ p ∈ acc, Q d p.2) → Q (d + 1) v

theorem closed_set {Q : Nat → Json → Prop} {d : Nat} {acc : Dict} {k : Str} {v : Json}
    (ha : ∀ p ∈ acc, Q d p.2) (hv : Q d v) : ∀ p ∈ Dict.set acc k v, Q d p.2 := by
  intro p hp
  rcases Assoc.mem_set hp with hp | hp
  · exact ha p hp
  · rw [hp]
    exact hv

/-! ## Numbers -/

theorem spanDigits_digits (s : Str) : ∀ c ∈ (spanDigits s).1, isDigit c = true := by
  induction s with
  | nil => intro c h; cases h
  | cons d s ih =>
    rw [spanDigits]
    split
    · rename_i hd
      intro c hc
      rcases List.mem_cons.mp hc with rfl | hc
      · exact hd
      · exact ih c hc
    · intro c h; cases h

theorem scanInt_digits {s i r : Str} (h : scanInt s = some (i, r)) :
    i ≠ [] ∧ ∀ c ∈ i, isDigit c = true := by
  unfold scanInt at h
  split at h
  · cases h
  split at h
  · rename_i c t hc
    cases h
    refine ⟨List.cons_ne_nil _ _, fun d hd => ?_⟩
    rw [List.mem_singleton.mp hd, hc]
    decide
  split at h
  · rename_i c t _ hc
    cases h
    refine ⟨List.cons_ne_nil _ _, fun d hd => ?_⟩
    rcases List.mem_cons.mp hd with rfl | hd
    · exact hc
    · exact spanDigits_digits t d hd
  · cases h

theorem natOf_lt {s : Str} (h : ∀ c ∈ s, isDigit c = true) : natOf s < 10 ^ s.length := by
  induction s using List.reverseRecOn with
  | nil => simp [natOf]
  | append_singleton s c ih =>
    have hs := ih fun d hd => h d (List.mem_append_left [c] hd)
    have hc := (Bool.and_eq_true_iff.mp (h c (by simp))).2
    have hle : c.val ≤ 57 := of_decide_eq_true hc
    rw [natOf_concat, List.length_append, List.length_singleton, Nat.pow_succ]
    omega

theorem intsOk_natOf {i : Str} (hne : i ≠ []) (hd : ∀ c ∈ i, isDigit c = true)
    (hl : i.length ≤ maxStrDigits) :
    intsOk (.int (natOf i)) = true ∧ intsOk (.int (-(natOf i : Int))) = true := by
  have h := natText_length_le (List.length_pos_iff.mpr hne) (natOf_lt hd)
  refine ⟨decide_eq_true ?_, decide_eq_true ?_⟩
  · rw [Int.natAbs_natCast]; exact Nat.le_trans h hl
  · rw [Int.natAbs_neg, Int.natAbs_natCast]; exact Nat.le_trans h hl

section
variable {Q : Nat → Json → Prop} {F : FloatText} (hQ : Closed Q)
include hQ

theorem scanNumber_closed {s r : Str} {v : Json} (h : scanNumber F s = .ok (v, r)) (d : Nat) :
    Q d v := by
  unfold scanNumber at h
  simp only at h
  split at h
  · cases h
  rename_i i t hi
  obtain ⟨hne, hdigits⟩ := scanInt_digits hi
  split at h
  · split at h
    · cases h
    rename_i hl
    obtain ⟨h₁, h₂⟩ := intsOk_natOf hne hdigits (Nat.not_lt.mp hl)
    split at h <;> cases h
    · exact hQ.int _ _ h₁
    · exact hQ.int _ _ h₂
  · cases h; exact hQ.float _ _

theorem scanLiteral_closed {s r : Str} {v : Json} (h : scanLiteral s = some (v, r)) (d : Nat) :
    Q d v := by
  obtain ⟨w, hw, e⟩ := Option.map_eq_some_iff.mp h
  cases e
  have hm := List.mem_of_find?_eq_some hw
  simp only [List.mem_cons, List.not_mem_nil, or_false] at hm
  rcases hm with rfl | rfl | rfl | rfl | rfl | rfl
  · exact hQ.null d
  · exact hQ.bool d _
  · exact hQ.bool d _
  · exact hQ.float d _
  · exact hQ.float d _
  · exact hQ.float d _

/-! ## Values -/

theorem Scanned.closed {g : Target} {d : Nat} {s r : Str} {v : Json} (h : Scanned F g d s v r) :
    g.Gives Q d v := by
  induction h with
  | str _ => exact hQ.str _ _
  | noMembers _ => exact hQ.obj _ _ List.nodup_nil (fun _ h => by cases h)
  | object _ ih => exact ih List.nodup_nil (fun _ h => by cases h)
  | noElems _ => exact hQ.arr _ _ (fun _ h => by cases h)
  | array _ ih => exact ih (fun _ h => by cases h)
  | literal h => exact scanLiteral_closed hQ h _
  | number h => exact scanNumber_closed hQ h _
  | lastElem _ _ ih =>
    exact fun ha =>
      hQ.arr _ _ (List.forall_mem_append.mpr ⟨ha, List.forall_mem_singleton.mpr ih⟩)
  | nextElem _ _ _ ih ih' =>
    exact fun ha =>
      ih' (List.forall_mem_append.mpr ⟨ha, List.forall_mem_singleton.mpr ih⟩)
  | lastMember _ _ _ _ ih =>
    exact fun hk ha => hQ.obj _ _ (Assoc.nodup_set hk _ _) (closed_set ha ih)
  | nextMember _ _ _ _ _ ih ih' =>
    exact fun hk ha => ih' (Assoc.nodup_set hk _ _) (closed_set ha ih)

/-- A closed property holds of what the decoder returns. -/
theorem loads_induct {limit : Nat} {s : Str} {v : Json} (h : loads F limit s = .ok v) :
    Q limit v := by
  unfold loads at h
  split at h
  · cases h
  rename_i hv
  split at h <;> cases h
  exact ((scanned _).1 hv).closed hQ

theorem loadsBytes_induct {limit : Nat} {b : Bytes} {v : Json}
    (h : loadsBytes F limit b = .ok v) : Q limit v := by
  unfold loadsBytes at h
  split at h
  · cases h
  · exact loads_induct hQ h

end

/-! ## The properties -/

theorem closed_intsOk : Closed fun _ v => intsOk v = true where
  null _ := rfl
  bool _ _ := rfl
  int _ _ h := h
  float _ _ := rfl
  str _ _ := rfl
  arr _ _ h := intsOkList_iff.mpr h
  obj _ _ _ h := intsOkFields_iff.mpr h

theorem closed_wf : Closed fun _ v => Json.WF v where
  null _ := trivial
  bool _ _ := trivial
  int _ _ _ := trivial
  float _ _ := trivial
  str _ _ := trivial
  arr _ _ h := Json.wfList_iff.mpr h
  obj _ _ hk h := ⟨hk, Json.wfFields_iff.mpr h⟩

theorem closed_depth : Closed fun d v => v.depth ≤ d where
  null d := Nat.zero_le d
  bool d _ := Nat.zero_le d
  int d _ _ := Nat.zero_le d
  float d _ := Nat.zero_le d
  str d _ := Nat.zero_le d
  arr _ _ h := Nat.succ_le_succ (Json.depthList_le.mpr h)
  obj _ _ _ h := Nat.succ_le_succ (Json.depthFields_le.mpr h)

end Py
