import Mathlib.Data.List.Sort
import Music3.Lib.Assoc
import Music3.Py.Str

/-!
# JSON values as Python objects

`Json` is what `json.loads` returns: `None`, `bool`, `int`, `float`, `str`, `list`, `dict`. A
`dict` is the list of its items in insertion order; `Dict.set` is `d[k] = v` and `Dict.ofPairs`
builds one item at a time, so a later item of a repeated key replaces the value in place.
A `float` is its 64 bits.
-/

namespace Py

/-- `float`: the bits of a binary64. -/
structure PyFloat where
  bits : BitVec 64
  deriving DecidableEq

namespace PyFloat

/-- Neither infinite nor a NaN: the exponent is not all ones. -/
def isFinite (x : PyFloat) : Bool := x.bits &&& 0x7FF0000000000000#64 != 0x7FF0000000000000#64

def inf : PyFloat := ⟨0x7FF0000000000000#64⟩
def negInf : PyFloat := ⟨0xFFF0000000000000#64⟩
def nan : PyFloat := ⟨0x7FF8000000000000#64⟩

/-- `x == 0.0`: plus or minus zero. -/
def isZero (x : PyFloat) : Bool := x.bits &&& 0x7FFFFFFFFFFFFFFF#64 == 0#64

end PyFloat

/-- A JSON value (module doc). -/
inductive Json where
  | null
  | bool (b : Bool)
  | int (n : Int)
  | float (x : PyFloat)
  | str (s : Str)
  | arr (xs : List Json)
  | obj (kvs : List (Str × Json))

/-- `dict[str, object]`. -/
abbrev Dict := List (Str × Json)

namespace Dict

/-- `d.get(k)`, with `none` for a missing key. -/
def get? (d : Dict) (k : Str) : Option Json := Assoc.get? d k

/-- `d.get(k)`. -/
def get (d : Dict) (k : Str) : Json := (d.get? k).getD .null

/-- `d.get(k, default)`. -/
def getD (d : Dict) (k : Str) (default : Json) : Json := (d.get? k).getD default

/-- `k in d`. -/
def has (d : Dict) (k : Str) : Bool := (d.get? k).isSome

/-- `d[k] = v`. -/
def set (d : Dict) (k : Str) (v : Json) : Dict := Assoc.set d k v

/-- `dict(pairs)`. -/
def ofPairs (ps : List (Str × Json)) : Dict := ps.foldl (fun d p => d.set p.1 p.2) []

/-- The keys are distinct: what a `dict` always satisfies. -/
def Ok (d : Dict) : Prop := (Assoc.keys d).Nodup

theorem Ok.of_keys {d : Dict} (ks : List Str) (h : Assoc.keys d = ks) (hn : ks.Nodup) : d.Ok := by
  rw [Ok, h]
  exact hn

theorem get?_cons (p : Str × Json) (d : Dict) (k : Str) :
    get? (p :: d) k = if p.1 = k then some p.2 else get? d k := Assoc.get?_cons p d k

end Dict

namespace Json

/-! ## Structure of a value -/

mutual
/-- How deep containers nest; a scalar has depth `0`. -/
def depth : Json → Nat
  | arr xs => depthList xs + 1
  | obj kvs => depthFields kvs + 1
  | _ => 0
def depthList : List Json → Nat
  | [] => 0
  | x :: xs => max (depth x) (depthList xs)
def depthFields : List (Str × Json) → Nat
  | [] => 0
  | (_, x) :: kvs => max (depth x) (depthFields kvs)
end

mutual
/-- The keys of every `dict` in the value are distinct. -/
def WF : Json → Prop
  | arr xs => WFList xs
  | obj kvs => Dict.Ok kvs ∧ WFFields kvs
  | _ => True
def WFList : List Json → Prop
  | [] => True
  | x :: xs => WF x ∧ WFList xs
def WFFields : List (Str × Json) → Prop
  | [] => True
  | (_, x) :: kvs => WF x ∧ WFFields kvs
end

theorem wfList_iff {xs : List Json} : WFList xs ↔ ∀ x ∈ xs, WF x := by
  induction xs with
  | nil => simp [WFList]
  | cons x xs ih => simp [WFList, ih]

theorem wfFields_iff {d : Dict} : WFFields d ↔ ∀ p ∈ d, WF p.2 := by
  induction d with
  | nil => simp [WFFields]
  | cons p d ih => simp [WFFields, ih]

/-- `str` order: by code points. -/
def strLe : Str → Str → Bool
  | [], _ => true
  | _ :: _, [] => false
  | a :: s, b :: t => a < b || (a = b && strLe s t)

/-- The items in the order of `sorted(d.items())`. -/
def sortItems (d : Dict) : Dict := d.insertionSort fun a b => strLe a.1 b.1 = true

mutual
/-- The value with the items of every `dict` sorted by key (`sort_keys=True`). -/
def sortKeys : Json → Json
  | arr xs => arr (sortKeysList xs)
  | obj kvs => obj (sortItems (sortKeysFields kvs))
  | null => null
  | bool b => bool b
  | int n => int n
  | float x => float x
  | str s => str s
def sortKeysList : List Json → List Json
  | [] => []
  | x :: xs => sortKeys x :: sortKeysList xs
def sortKeysFields : List (Str × Json) → List (Str × Json)
  | [] => []
  | (k, x) :: kvs => (k, sortKeys x) :: sortKeysFields kvs
end

/-- `isinstance(v, Mapping)`. -/
def asDict : Json → Option Dict
  | obj kvs => some kvs
  | _ => none

/-- `bool(v)`. -/
def truthy : Json → Bool
  | null => false
  | bool b => b
  | int n => n != 0
  | float x => !x.isZero
  | str s => !s.isEmpty
  | arr xs => !xs.isEmpty
  | obj kvs => !kvs.isEmpty

theorem sortItems_perm (d : Dict) : (sortItems d).Perm d := List.perm_insertionSort _ d

theorem sortKeysFields_eq (d : Dict) : sortKeysFields d = d.map fun p => (p.1, sortKeys p.2) := by
  induction d with
  | nil => rfl
  | cons p d ih => rw [sortKeysFields, ih]; rfl

theorem depthList_le {xs : List Json} {n : Nat} : depthList xs ≤ n ↔ ∀ x ∈ xs, depth x ≤ n := by
  induction xs with
  | nil => simp [depthList]
  | cons x xs ih => simp [depthList, ih]

theorem depthFields_le {d : Dict} {n : Nat} :
    depthFields d ≤ n ↔ ∀ p ∈ d, depth p.2 ≤ n := by
  induction d with
  | nil => simp [depthFields]
  | cons p d ih => simp [depthFields, ih]

theorem depthFields_perm {d d' : Dict} (h : d.Perm d') : depthFields d = depthFields d' := by
  apply Nat.le_antisymm <;> rw [depthFields_le] <;> intro p hp
  · exact depthFields_le.mp (Nat.le_refl _) p (h.mem_iff.mp hp)
  · exact depthFields_le.mp (Nat.le_refl _) p (h.mem_iff.mpr hp)

mutual
/-- Sorting keeps the depth. -/
theorem depth_sortKeys : ∀ v : Json, depth (sortKeys v) = depth v
  | arr xs => by simp only [sortKeys, depth, depthList_sortKeys xs]
  | obj kvs => by
    simp only [sortKeys, depth, depthFields_perm (sortItems_perm _), depthFields_sortKeys kvs]
  | null | bool _ | int _ | float _ | str _ => by simp only [sortKeys, depth]
theorem depthList_sortKeys : ∀ xs : List Json, depthList (sortKeysList xs) = depthList xs
  | [] => rfl
  | x :: xs => by simp only [sortKeysList, depthList, depth_sortKeys x, depthList_sortKeys xs]
theorem depthFields_sortKeys : ∀ d : Dict, depthFields (sortKeysFields d) = depthFields d
  | [] => rfl
  | (_, x) :: d => by
    simp only [sortKeysFields, depthFields, depth_sortKeys x, depthFields_sortKeys d]
end

end Json

end Py
