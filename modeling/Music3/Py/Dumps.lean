import Mathlib.Algebra.Group.Nat.Defs
import Music3.Py.Json

/-!
# `json.dumps`

With the default options and optionally `indent` and `sort_keys`: ASCII output
(`ensure_ascii`), non-finite floats as `NaN` and `Infinity` (`allow_nan`).

Two things can go wrong while the encoder walks the value, and the first one met on the walk is
what is raised (`fault`): a container nested deeper than the encoder's recursion limit
(`RecursionError`), and an `int` with more digits than `sys.get_int_max_str_digits()`
(`ValueError`). The text is `render` of the value, in which sorting has already happened.

`FloatText` is the text of a finite float (`float.__repr__`) and the float of a JSON number
(`float(s)`): the shape of the first and that it reads back are what Python documents of them.
-/

namespace Py

/-- An exception of `json.dumps` or `json.loads`: a `ValueError`, or a `RecursionError`. -/
inductive JsonError where
  | value
  | recursion
  deriving DecidableEq

def isDigit (c : CodePoint) : Bool := cp '0' ≤ c && c ≤ cp '9'

/-- Digits, and then a fraction or an exponent, or both: the text of a float, without its sign. -/
def IsFloatBody (s : Str) : Prop :=
  ∃ i f e : Str, s = i ++ f ++ e ∧ (i = [cp '0'] ∨ ∃ c t, i = c :: t ∧ cp '1' ≤ c ∧ c ≤ cp '9' ∧
      ∀ d ∈ t, isDigit d) ∧
    (f = [] ∨ ∃ t, f = cp '.' :: t ∧ t ≠ [] ∧ ∀ d ∈ t, isDigit d) ∧
    (e = [] ∨ ∃ sg t, e = cp 'e' :: sg :: t ∧ (sg = cp '+' ∨ sg = cp '-') ∧ t ≠ [] ∧
      ∀ d ∈ t, isDigit d) ∧ (f ≠ [] ∨ e ≠ [])

/-- The text of a finite float: an optional minus sign and a body. -/
def IsFloatToken (s : Str) : Prop := IsFloatBody s ∨ ∃ t, s = cp '-' :: t ∧ IsFloatBody t

/-- Python's conversions between finite floats and text (module doc). -/
structure FloatText where
  /-- `float.__repr__`. -/
  repr : PyFloat → Str
  /-- `float(s)`. -/
  ofText : Str → PyFloat
  token : ∀ x, x.isFinite = true → IsFloatToken (repr x)
  ofText_repr : ∀ x, x.isFinite = true → ofText (repr x) = x

/-- The options of one call, and the recursion limit of the encoder that serves it. -/
structure DumpOpts where
  indent : Option Nat
  sortKeys : Bool
  limit : Nat

/-- `sys.get_int_max_str_digits()`. -/
def maxStrDigits : Nat := 4300

/-! ## Text of scalars -/

/-- The decimal digits of a natural number. -/
def natText (n : Nat) : Str := (Nat.toDigits 10 n).map cp

/-- `int.__repr__`. -/
def intText (n : Int) : Str := if n < 0 then cp '-' :: natText n.natAbs else natText n.natAbs

def floatText (F : FloatText) (x : PyFloat) : Str :=
  if x.isFinite then F.repr x
  else if x = .inf then lit "Infinity" else if x = .negInf then lit "-Infinity" else lit "NaN"

/-- A lower-case hexadecimal digit. -/
def hexDigit (n : Nat) : CodePoint := if n < 10 then point (48 + n) else point (87 + n)

/-- `\uXXXX`. -/
def escape4 (n : Nat) : Str :=
  cp '\\' :: cp 'u' :: [hexDigit (n / 4096 % 16), hexDigit (n / 256 % 16), hexDigit (n / 16 % 16),
    hexDigit (n % 16)]

/-- The text of one code point inside a JSON string. -/
def escape (c : CodePoint) : Str :=
  if c = cp '"' then [cp '\\', cp '"']
  else if c = cp '\\' then [cp '\\', cp '\\']
  else if c = cp '\n' then [cp '\\', cp 'n']
  else if c = cp '\r' then [cp '\\', cp 'r']
  else if c = cp '\t' then [cp '\\', cp 't']
  else if c.val = 12 then [cp '\\', cp 'f']
  else if c.val = 8 then [cp '\\', cp 'b']
  else if 0x20 ≤ c.val ∧ c.val ≤ 0x7E then [c]
  else if c.val < 0x10000 then escape4 c.val
  else escape4 (0xD800 + (c.val - 0x10000) / 0x400) ++ escape4 (0xDC00 + (c.val - 0x10000) % 0x400)

/-- A JSON string. -/
def quote (s : Str) : Str := cp '"' :: (s.flatMap escape ++ [cp '"'])

/-! ## Text of a value -/

/-- A line break and the indentation at level `lvl`; nothing without `indent`. -/
def newline (o : DumpOpts) (lvl : Nat) : Str :=
  match o.indent with
  | none => []
  | some w => cp '\n' :: List.replicate (w * lvl) (cp ' ')

/-- The item separator: `', '`, or a comma and a line break. -/
def itemSep (o : DumpOpts) (lvl : Nat) : Str :=
  match o.indent with
  | none => [cp ',', cp ' ']
  | some _ => cp ',' :: newline o lvl

/-- The key separator `': '`. -/
def keySep : Str := [cp ':', cp ' ']

section
variable (F : FloatText) (o : DumpOpts)

mutual
/-- The text of a value at indentation level `lvl`. -/
def render (lvl : Nat) : Json → Str
  | .null => lit "null"
  | .bool true => lit "true"
  | .bool false => lit "false"
  | .int n => intText n
  | .float x => floatText F x
  | .str s => quote s
  | .arr [] => [cp '[', cp ']']
  | .arr (x :: xs) =>
    cp '[' :: (newline o (lvl + 1) ++ (render (lvl + 1) x ++ (renderElems (lvl + 1) xs ++
      (newline o lvl ++ [cp ']']))))
  | .obj [] => [cp '{', cp '}']
  | .obj ((k, x) :: kvs) =>
    cp '{' :: (newline o (lvl + 1) ++ (quote k ++ (keySep ++ (render (lvl + 1) x ++
      (renderMembers (lvl + 1) kvs ++ (newline o lvl ++ [cp '}']))))))
def renderElems (lvl : Nat) : List Json → Str
  | [] => []
  | x :: xs => itemSep o lvl ++ (render lvl x ++ renderElems lvl xs)
def renderMembers (lvl : Nat) : List (Str × Json) → Str
  | [] => []
  | (k, x) :: kvs => itemSep o lvl ++ (quote k ++ (keySep ++ (render lvl x ++ renderMembers lvl kvs)))
end

end

mutual
/-- The first exception that the encoder meets in a value, when `d` more levels of containers can
be entered. -/
def fault (d : Nat) : Json → Option JsonError
  | .arr xs => match d with
    | 0 => some .recursion
    | d + 1 => faultList d xs
  | .obj kvs => match d with
    | 0 => some .recursion
    | d + 1 => faultFields d kvs
  | .int n => if maxStrDigits < (natText n.natAbs).length then some .value else none
  | _ => none
def faultList (d : Nat) : List Json → Option JsonError
  | [] => none
  | x :: xs => (fault d x).or (faultList d xs)
def faultFields (d : Nat) : List (Str × Json) → Option JsonError
  | [] => none
  | (_, x) :: kvs => (fault d x).or (faultFields d kvs)
end

/-- `str(n)`. -/
def intStr (n : Int) : Except JsonError Str :=
  match fault 0 (.int n) with
  | some e => .error e
  | none => .ok (intText n)

/-- `json.dumps(v, indent=…, sort_keys=…)`. -/
def dumps (F : FloatText) (o : DumpOpts) (v : Json) : Except JsonError Str :=
  let v := if o.sortKeys then v.sortKeys else v
  match fault o.limit v with
  | some e => .error e
  | none => .ok (render F o 0 v)

/-! ## When the encoder fails -/

mutual
/-- Every `int` in the value has a text. -/
def intsOk : Json → Bool
  | .int n => (natText n.natAbs).length ≤ maxStrDigits
  | .arr xs => intsOkList xs
  | .obj kvs => intsOkFields kvs
  | _ => true
def intsOkList : List Json → Bool
  | [] => true
  | x :: xs => intsOk x && intsOkList xs
def intsOkFields : List (Str × Json) → Bool
  | [] => true
  | (_, x) :: kvs => intsOk x && intsOkFields kvs
end

mutual
/-- A value without overlong `int`s has a fault iff it nests too deep, and then it is
`RecursionError`. -/
theorem fault_of_intsOk : ∀ (d : Nat) (v : Json), intsOk v = true →
    fault d v = if v.depth ≤ d then none else some .recursion
  | d, .arr xs, h => by
    cases d with
    | zero => simp [fault, Json.depth]
    | succ d => simp only [fault, Json.depth, faultList_of_intsOk d xs h, Nat.add_le_add_iff_right]
  | d, .obj kvs, h => by
    cases d with
    | zero => simp [fault, Json.depth]
    | succ d => simp only [fault, Json.depth, faultFields_of_intsOk d kvs h,
      Nat.add_le_add_iff_right]
  | d, .int n, h => by
    simp only [intsOk, decide_eq_true_eq] at h
    simp [fault, Json.depth, Nat.not_lt.mpr h]
  | _, .null, _ | _, .bool _, _ | _, .float _, _ | _, .str _, _ => by simp [fault, Json.depth]
theorem faultList_of_intsOk : ∀ (d : Nat) (xs : List Json), intsOkList xs = true →
    faultList d xs = if Json.depthList xs ≤ d then none else some .recursion
  | _, [], _ => by simp [faultList, Json.depthList]
  | d, x :: xs, h => by
    simp only [intsOkList, Bool.and_eq_true] at h
    rw [faultList, fault_of_intsOk d x h.1, faultList_of_intsOk d xs h.2, Json.depthList]
    by_cases h₁ : x.depth ≤ d <;> by_cases h₂ : Json.depthList xs ≤ d <;> simp [h₁, h₂]
theorem faultFields_of_intsOk : ∀ (d : Nat) (kvs : Dict), intsOkFields kvs = true →
    faultFields d kvs = if Json.depthFields kvs ≤ d then none else some .recursion
  | _, [], _ => by simp [faultFields, Json.depthFields]
  | d, (_, x) :: kvs, h => by
    simp only [intsOkFields, Bool.and_eq_true] at h
    rw [faultFields, fault_of_intsOk d x h.1, faultFields_of_intsOk d kvs h.2, Json.depthFields]
    by_cases h₁ : x.depth ≤ d <;> by_cases h₂ : Json.depthFields kvs ≤ d <;> simp [h₁, h₂]
end

theorem intsOkList_iff {xs : List Json} : intsOkList xs = true ↔ ∀ x ∈ xs, intsOk x = true := by
  induction xs with
  | nil => simp [intsOkList]
  | cons x xs ih => simp [intsOkList, ih]

theorem intsOkFields_iff {d : Dict} : intsOkFields d = true ↔ ∀ p ∈ d, intsOk p.2 = true := by
  induction d with
  | nil => simp [intsOkFields]
  | cons p d ih => simp [intsOkFields, ih]

mutual
theorem intsOk_sortKeys : ∀ v : Json, intsOk v.sortKeys = intsOk v
  | .arr xs => by simp only [Json.sortKeys, intsOk, intsOkList_sortKeys xs]
  | .obj kvs => by
    simp only [Json.sortKeys, intsOk]
    rw [← intsOkFields_sortKeys kvs, Bool.eq_iff_iff, intsOkFields_iff, intsOkFields_iff]
    simp only [(Json.sortItems_perm _).mem_iff]
  | .null | .bool _ | .int _ | .float _ | .str _ => by simp only [Json.sortKeys]
theorem intsOkList_sortKeys : ∀ xs : List Json, intsOkList (Json.sortKeysList xs) = intsOkList xs
  | [] => rfl
  | x :: xs => by
    simp only [Json.sortKeysList, intsOkList, intsOk_sortKeys x, intsOkList_sortKeys xs]
theorem intsOkFields_sortKeys : ∀ d : Dict, intsOkFields (Json.sortKeysFields d) = intsOkFields d
  | [] => rfl
  | (_, x) :: d => by
    simp only [Json.sortKeysFields, intsOkFields, intsOk_sortKeys x, intsOkFields_sortKeys d]
end

mutual
/-- A value without a fault has no overlong `int`. -/
theorem intsOk_of_fault : ∀ (d : Nat) (v : Json), fault d v = none → intsOk v = true
  | d, .arr xs, h => by
    cases d with
    | zero => cases h
    | succ d => exact intsOkList_of_fault d xs h
  | d, .obj kvs, h => by
    cases d with
    | zero => cases h
    | succ d => exact intsOkFields_of_fault d kvs h
  | _, .int n, h => by
    rw [fault] at h
    split at h
    · cases h
    · rename_i hn; exact decide_eq_true (Nat.not_lt.mp hn)
  | _, .null, _ | _, .bool _, _ | _, .float _, _ | _, .str _, _ => rfl
theorem intsOkList_of_fault : ∀ (d : Nat) (xs : List Json), faultList d xs = none →
    intsOkList xs = true
  | _, [], _ => rfl
  | d, x :: xs, h => by
    rw [faultList, Option.or_eq_none_iff] at h
    rw [intsOkList, intsOk_of_fault d x h.1, intsOkList_of_fault d xs h.2]
    rfl
theorem intsOkFields_of_fault : ∀ (d : Nat) (kvs : Dict), faultFields d kvs = none →
    intsOkFields kvs = true
  | _, [], _ => rfl
  | d, (_, x) :: kvs, h => by
    rw [faultFields, Option.or_eq_none_iff] at h
    rw [intsOkFields, intsOk_of_fault d x h.1, intsOkFields_of_fault d kvs h.2]
    rfl
end

mutual
/-- `RecursionError` is the fault of a value that nests too deep. -/
theorem depth_of_recursion : ∀ (d : Nat) (v : Json), fault d v = some .recursion → d < v.depth
  | d, .arr xs, h => by
    cases d with
    | zero => exact Nat.succ_pos _
    | succ d => exact Nat.succ_lt_succ (depthList_of_recursion d xs h)
  | d, .obj kvs, h => by
    cases d with
    | zero => exact Nat.succ_pos _
    | succ d => exact Nat.succ_lt_succ (depthFields_of_recursion d kvs h)
  | _, .int n, h => by rw [fault] at h; split at h <;> cases h
  | _, .null, h | _, .bool _, h | _, .float _, h | _, .str _, h => by cases h
theorem depthList_of_recursion : ∀ (d : Nat) (xs : List Json), faultList d xs = some .recursion →
    d < Json.depthList xs
  | _, [], h => by cases h
  | d, x :: xs, h => by
    rw [faultList, Option.or_eq_some_iff] at h
    rcases h with h | ⟨-, h⟩
    · exact Nat.lt_of_lt_of_le (depth_of_recursion d x h) (Nat.le_max_left ..)
    · exact Nat.lt_of_lt_of_le (depthList_of_recursion d xs h) (Nat.le_max_right ..)
theorem depthFields_of_recursion : ∀ (d : Nat) (kvs : Dict), faultFields d kvs = some .recursion →
    d < Json.depthFields kvs
  | _, [], h => by cases h
  | d, (_, x) :: kvs, h => by
    rw [faultFields, Option.or_eq_some_iff] at h
    rcases h with h | ⟨-, h⟩
    · exact Nat.lt_of_lt_of_le (depth_of_recursion d x h) (Nat.le_max_left ..)
    · exact Nat.lt_of_lt_of_le (depthFields_of_recursion d kvs h) (Nat.le_max_right ..)
end

theorem intsOk_of_dumps {F : FloatText} {o : DumpOpts} {v : Json} {t : Str}
    (h : dumps F o v = .ok t) : intsOk v = true := by
  unfold dumps at h
  simp only at h
  split at h
  · cases h
  rename_i hf
  have hi := intsOk_of_fault _ _ hf
  split at hi
  · rwa [intsOk_sortKeys] at hi
  · exact hi

theorem depth_of_dumps_recursion {F : FloatText} {o : DumpOpts} {v : Json}
    (h : dumps F o v = .error .recursion) : o.limit < v.depth := by
  unfold dumps at h
  simp only at h
  split at h
  · rename_i e hf
    cases h
    have hd := depth_of_recursion _ _ hf
    split at hd
    · rwa [Json.depth_sortKeys] at hd
    · exact hd
  · cases h

/-- `dumps` of a value without overlong `int`s: it fails iff the value nests too deep. -/
theorem dumps_of_intsOk {F : FloatText} {o : DumpOpts} {v : Json} (h : intsOk v = true) :
    dumps F o v = if v.depth ≤ o.limit then
        .ok (render F o 0 (if o.sortKeys then v.sortKeys else v))
      else .error .recursion := by
  unfold dumps
  cases o.sortKeys
  · simp only [Bool.false_eq_true, ↓reduceIte, fault_of_intsOk _ _ h]
    by_cases hd : v.depth ≤ o.limit <;> simp [hd]
  · simp only [↓reduceIte, fault_of_intsOk _ _ ((intsOk_sortKeys v).trans h), Json.depth_sortKeys]
    by_cases hd : v.depth ≤ o.limit <;> simp [hd]

/-- `dumps` of a value with an overlong `int`, if it does not nest too deep. -/
theorem dumps_of_not_intsOk {F : FloatText} {o : DumpOpts} {v : Json} (h : intsOk v = false)
    (hd : v.depth ≤ o.limit) : dumps F o v = .error .value := by
  cases hdump : dumps F o v with
  | ok t => exact absurd (h.symm.trans (intsOk_of_dumps hdump)) nofun
  | error e =>
    cases e with
    | value => rfl
    | recursion => exact absurd (depth_of_dumps_recursion hdump) (Nat.not_lt.mpr hd)

theorem natText_length_le {n k : Nat} (hk : 0 < k) (h : n < 10 ^ k) : (natText n).length ≤ k := by
  unfold natText
  rw [List.length_map]
  exact (Nat.length_toDigits_le_iff (by decide) hk).mpr h

/-- A machine integer has a text. -/
theorem intsOk_of_lt {n : Nat} (h : n < 2 ^ 64) : intsOk (.int n) = true := by
  have := natText_length_le (n := n) (k := 20) (by decide) (by omega)
  rw [intsOk, Int.natAbs_natCast]
  exact decide_eq_true (by unfold maxStrDigits; omega)

end Py
