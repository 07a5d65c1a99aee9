import Music3.Py.Dumps

/-!
# `json.loads`

The decoder with its default options, on a `str` (`loads`) and on `bytes` (`loadsBytes`): a value,
or the exception that it raises. `ValueError` stands for `JSONDecodeError`, for
`UnicodeDecodeError`, and for an `int` with more than `sys.get_int_max_str_digits()` digits;
`RecursionError` is raised on entering a container nested deeper than the decoder's limit.

A string is scanned into its units first (`scanUnits`), and the `\uXXXX` escapes of a surrogate
pair are joined after that (`joinEscapes`): only two escapes next to each other form a pair.

The scanner functions take fuel, which bounds their recursion. A scan that succeeds has a derivation
(`scanned`), which consumes characters (`Scanned.length_lt`), so the fuel that `loads` gives is never
used up (`value_fuel`).
-/

namespace Py

/-- The characters of `[ \t\n\r]*`. -/
def isSpace (c : CodePoint) : Bool := c = cp ' ' || c = cp '\t' || c = cp '\n' || c = cp '\r'

/-- Drop the white space at the start. -/
def skip : Str → Str
  | [] => []
  | c :: r => if isSpace c then skip r else c :: r

/-! ## Strings -/

/-- A unit of a string: a character, or the value of a `\uXXXX` escape. -/
inductive StrUnit where
  | raw (c : CodePoint)
  | esc (n : Nat)

def hexVal (c : CodePoint) : Option Nat :=
  if cp '0' ≤ c ∧ c ≤ cp '9' then some (c.val - 48)
  else if cp 'a' ≤ c ∧ c ≤ cp 'f' then some (c.val - 87)
  else if cp 'A' ≤ c ∧ c ≤ cp 'F' then some (c.val - 55)
  else none

/-- The value of four hexadecimal digits. -/
def hex4 (a b c d : CodePoint) : Option Nat := do
  return ((← hexVal a) * 4096 + (← hexVal b) * 256 + (← hexVal c) * 16 + (← hexVal d))

/-- The character of a two-character escape. -/
def unescape (e : CodePoint) : Option CodePoint :=
  if e = cp '"' ∨ e = cp '\\' ∨ e = cp '/' then some e
  else if e = cp 'b' then some (point 8)
  else if e = cp 'f' then some (point 12)
  else if e = cp 'n' then some (cp '\n')
  else if e = cp 'r' then some (cp '\r')
  else if e = cp 't' then some (cp '\t')
  else none

/-- The units of a string up to its closing quote, and the rest of the text. -/
def scanUnits : Str → Option (List StrUnit × Str)
  | [] => none
  | c :: r =>
    if c = cp '"' then some ([], r)
    else if c = cp '\\' then
      match r with
      | [] => none
      | e :: r =>
        if e = cp 'u' then
          match r with
          | a :: b :: c :: d :: r =>
            match hex4 a b c d with
            | some n => (scanUnits r).map fun p => (.esc n :: p.1, p.2)
            | none => none
          | _ => none
        else
          match unescape e with
          | some x => (scanUnits r).map fun p => (.raw x :: p.1, p.2)
          | none => none
    else if c.val < 0x20 then none
    else (scanUnits r).map fun p => (.raw c :: p.1, p.2)

/-- The code points of the units. -/
def joinEscapes : List StrUnit → Str
  | [] => []
  | .raw c :: r => c :: joinEscapes r
  | [.esc h] => [point h]
  | .esc h :: .raw c :: r => point h :: c :: joinEscapes r
  | .esc h :: .esc l :: r =>
    if isHigh h && isLow l then point (joinPair h l) :: joinEscapes r
    else point h :: joinEscapes (.esc l :: r)

/-- A string after its opening quote. -/
def scanString (s : Str) : Except JsonError (Str × Str) :=
  match scanUnits s with
  | some (us, r) => .ok (joinEscapes us, r)
  | none => .error .value

/-! ## Numbers -/

/-- The digits at the start, and the rest. -/
def spanDigits : Str → Str × Str
  | [] => ([], [])
  | c :: r => if isDigit c then (c :: (spanDigits r).1, (spanDigits r).2) else ([], c :: r)

/-- `int(s)` for a string of digits. -/
def natOf (s : Str) : Nat := s.foldl (fun n c => n * 10 + (c.val - 48)) 0

theorem natOf_concat (s : Str) (c : CodePoint) : natOf (s ++ [c]) = natOf s * 10 + (c.val - 48) := by
  simp [natOf]

/-- The integer part of a number: `0`, or digits that do not start with one. -/
def scanInt : Str → Option (Str × Str)
  | [] => none
  | c :: r =>
    if c = cp '0' then some ([c], r)
    else if isDigit c then some (c :: (spanDigits r).1, (spanDigits r).2)
    else none

/-- The fraction of a number, if there is one. -/
def scanFrac : Str → Str × Str
  | c :: r =>
    if c = cp '.' ∧ (spanDigits r).1 ≠ [] then (c :: (spanDigits r).1, (spanDigits r).2)
    else ([], c :: r)
  | [] => ([], [])

/-- The exponent of a number, if there is one. -/
def scanExp : Str → Str × Str
  | [] => ([], [])
  | [c] => ([], [c])
  | c :: sg :: r =>
    if c = cp 'e' ∨ c = cp 'E' then
      if sg = cp '+' ∨ sg = cp '-' then
        if (spanDigits r).1 ≠ [] then (c :: sg :: (spanDigits r).1, (spanDigits r).2)
        else ([], c :: sg :: r)
      else if (spanDigits (sg :: r)).1 ≠ [] then
        (c :: (spanDigits (sg :: r)).1, (spanDigits (sg :: r)).2)
      else ([], c :: sg :: r)
    else ([], c :: sg :: r)

/-- The sign of a number, if there is one. -/
def scanSign : Str → Str × Str
  | [] => ([], [])
  | c :: r => if c = cp '-' then ([c], r) else ([], c :: r)

/-- `_match_number`. -/
def scanNumber (F : FloatText) (s : Str) : Except JsonError (Json × Str) :=
  let sg := scanSign s
  match scanInt sg.2 with
  | none => .error .value
  | some (i, r) =>
    let f := scanFrac r
    let e := scanExp f.2
    if f.1 = [] ∧ e.1 = [] then
      if maxStrDigits < i.length then .error .value
      else if sg.1 = [] then .ok (.int (natOf i), e.2)
      else .ok (.int (-(natOf i : Int)), e.2)
    else .ok (.float (F.ofText (sg.1 ++ (i ++ f.1 ++ e.1))), e.2)

/-! ## Values -/

/-- A literal at the start: its value and the rest. -/
def scanLiteral (s : Str) : Option (Json × Str) :=
  let words : List (Str × Json) := [(lit "null", .null), (lit "true", .bool true),
    (lit "false", .bool false), (lit "NaN", .float .nan), (lit "Infinity", .float .inf),
    (lit "-Infinity", .float .negInf)]
  (words.find? fun w => w.1.isPrefixOf s).map fun w => (w.2, s.drop w.1.length)

section
variable (F : FloatText)

mutual
/-- `scan_once`, when `d` more levels of containers can be entered. -/
def value : Nat → Nat → Str → Except JsonError (Json × Str)
  | 0, _, _ => .error .value
  | _ + 1, _, [] => .error .value
  | n + 1, d, c :: r =>
    if c = cp '"' then (scanString r).map fun p => (.str p.1, p.2)
    else if c = cp '{' then
      match d, skip r with
      | 0, _ => .error .recursion
      | _ + 1, [] => .error .value
      | d + 1, c' :: r' => if c' = cp '}' then .ok (.obj [], r') else members n d [] (c' :: r')
    else if c = cp '[' then
      match d, skip r with
      | 0, _ => .error .recursion
      | _ + 1, [] => .error .value
      | d + 1, c' :: r' => if c' = cp ']' then .ok (.arr [], r') else elems n d [] (c' :: r')
    else
      match scanLiteral (c :: r) with
      | some p => .ok p
      | none => scanNumber F (c :: r)
/-- The elements of an array from an element on, after the elements `acc`. -/
def elems : Nat → Nat → List Json → Str → Except JsonError (Json × Str)
  | 0, _, _, _ => .error .value
  | n + 1, d, acc, s =>
    match value n d s with
    | .error e => .error e
    | .ok (v, r) =>
      match skip r with
      | [] => .error .value
      | c :: r =>
        if c = cp ']' then .ok (.arr (acc ++ [v]), r)
        else if c = cp ',' then elems n d (acc ++ [v]) (skip r)
        else .error .value
/-- The members of an object from a key on, after the items `acc`. -/
def members : Nat → Nat → Dict → Str → Except JsonError (Json × Str)
  | 0, _, _, _ => .error .value
  | _ + 1, _, _, [] => .error .value
  | n + 1, d, acc, q :: s =>
    if q = cp '"' then
      match scanString s with
      | .error e => .error e
      | .ok (k, r) =>
        match skip r with
        | [] => .error .value
        | c :: r =>
          if c = cp ':' then
            match value n d (skip r) with
            | .error e => .error e
            | .ok (v, r) =>
              match skip r with
              | [] => .error .value
              | c :: r =>
                if c = cp '}' then .ok (.obj (acc.set k v), r)
                else if c = cp ',' then members n d (acc.set k v) (skip r)
                else .error .value
          else .error .value
    else .error .value
end

end

/-- `json.loads(s)` for a `str`. -/
def loads (F : FloatText) (limit : Nat) (s : Str) : Except JsonError Json :=
  match value F (2 * s.length + 1) limit (skip s) with
  | .error e => .error e
  | .ok (v, r) => if skip r = [] then .ok v else .error .value

/-- `json.loads(b)` for `bytes`. -/
def loadsBytes (F : FloatText) (limit : Nat) (b : Bytes) : Except JsonError Json :=
  match decode b with
  | none => .error .value
  | some s => loads F limit s

/-! ## The scanners consume -/

theorem skip_length_le (s : Str) : (skip s).length ≤ s.length := by
  induction s with
  | nil => exact Nat.le_refl _
  | cons c r ih =>
    rw [skip]
    split
    · exact Nat.le_succ_of_le ih
    · exact Nat.le_refl _

theorem spanDigits_length_le (s : Str) : (spanDigits s).2.length ≤ s.length := by
  induction s with
  | nil => exact Nat.le_refl _
  | cons c r ih =>
    rw [spanDigits]
    split
    · exact Nat.le_succ_of_le ih
    · exact Nat.le_refl _

theorem scanUnits_length {s : Str} : ∀ {us : List StrUnit} {r : Str},
    scanUnits s = some (us, r) → r.length < s.length := by
  fun_induction scanUnits s with
  | case1 | case3 | case5 | case6 | case8 | case9 => intro us r h; cases h
  | case2 t =>
    intro us r h
    cases h
    exact Nat.lt_succ_self _
  | case4 | case7 | case10 =>
    rename_i ih
    intro us r h
    obtain ⟨p, hp, e⟩ := Option.map_eq_some_iff.mp h
    cases e
    have := ih hp
    simp only [List.length_cons]
    omega

theorem scanString_length {s t r : Str} (h : scanString s = .ok (t, r)) :
    r.length < s.length := by
  unfold scanString at h
  split at h
  · rename_i us r' hu
    cases h
    exact scanUnits_length hu
  · cases h

theorem scanInt_length {s i r : Str} (h : scanInt s = some (i, r)) : r.length < s.length := by
  unfold scanInt at h
  split at h
  · cases h
  · rename_i c t
    split at h
    · cases h; exact Nat.lt_succ_self _
    · split at h
      · cases h; exact Nat.lt_succ_of_le (spanDigits_length_le t)
      · cases h

theorem scanFrac_length_le (s : Str) : (scanFrac s).2.length ≤ s.length := by
  unfold scanFrac
  split
  · rename_i c r
    split
    · exact Nat.le_succ_of_le (spanDigits_length_le r)
    · exact Nat.le_refl _
  · exact Nat.le_refl _

theorem scanExp_length_le (s : Str) : (scanExp s).2.length ≤ s.length := by
  unfold scanExp
  split
  · exact Nat.le_refl _
  · exact Nat.le_refl _
  · rename_i c sg r
    have h := spanDigits_length_le r
    have h' := spanDigits_length_le (sg :: r)
    repeat' split
    all_goals simp only [List.length_cons] at h' ⊢; omega

theorem scanSign_length_le (s : Str) : (scanSign s).2.length ≤ s.length := by
  unfold scanSign
  split
  · exact Nat.le_refl _
  · split
    · exact Nat.le_succ _
    · exact Nat.le_refl _

theorem scanNumber_length {F : FloatText} {s r : Str} {v : Json}
    (h : scanNumber F s = .ok (v, r)) : r.length < s.length := by
  unfold scanNumber at h
  simp only at h
  split at h
  · cases h
  · rename_i i t hi
    have h₁ := scanInt_length hi
    have h₂ := scanSign_length_le s
    have h₃ := scanFrac_length_le t
    have h₄ := scanExp_length_le (scanFrac t).2
    have hr : r = (scanExp (scanFrac t).2).2 := by
      split at h
      · split at h
        · cases h
        · split at h <;> (cases h; rfl)
      · cases h; rfl
    rw [hr]
    omega

theorem scanLiteral_length {s r : Str} {v : Json} (h : scanLiteral s = some (v, r)) :
    r.length < s.length := by
  obtain ⟨w, hw, e⟩ := Option.map_eq_some_iff.mp h
  cases e
  have hm := List.mem_of_find?_eq_some hw
  have hp : w.1 <+: s := by simpa using List.find?_some hw
  have hle := hp.length_le
  have hpos : 0 < w.1.length := by
    simp only [List.mem_cons, List.not_mem_nil, or_false] at hm
    rcases hm with rfl | rfl | rfl | rfl | rfl | rfl <;> decide
  rw [List.length_drop]
  omega

section
variable {F : FloatText}

/-- What a scanner function is called for. -/
inductive Target where
  | value
  /-- The rest of an array, after the elements `acc`. -/
  | elems (acc : List Json)
  /-- The rest of an object, after the items `acc`. -/
  | members (acc : Dict)

variable (F) in
/-- The derivation of a scan that succeeds: `Scanned F g d s v r` has `v` at the start of `s`, and
`r` after it. -/
inductive Scanned : Target → Nat → Str → Json → Str → Prop
  | str {d : Nat} {s x r : Str} : scanString s = .ok (x, r) →
      Scanned .value d (cp '"' :: s) (.str x) r
  | noMembers {d : Nat} {s r : Str} : skip s = cp '}' :: r →
      Scanned .value (d + 1) (cp '{' :: s) (.obj []) r
  | object {d : Nat} {s r : Str} {v : Json} : Scanned (.members []) d (skip s) v r →
      Scanned .value (d + 1) (cp '{' :: s) v r
  | noElems {d : Nat} {s r : Str} : skip s = cp ']' :: r →
      Scanned .value (d + 1) (cp '[' :: s) (.arr []) r
  | array {d : Nat} {s r : Str} {v : Json} : Scanned (.elems []) d (skip s) v r →
      Scanned .value (d + 1) (cp '[' :: s) v r
  | literal {d : Nat} {s r : Str} {v : Json} : scanLiteral s = some (v, r) →
      Scanned .value d s v r
  | number {d : Nat} {s r : Str} {v : Json} : scanNumber F s = .ok (v, r) →
      Scanned .value d s v r
  | lastElem {d : Nat} {acc : List Json} {s t r : Str} {v : Json} : Scanned .value d s v t →
      skip t = cp ']' :: r → Scanned (.elems acc) d s (.arr (acc ++ [v])) r
  | nextElem {d : Nat} {acc : List Json} {s t t' r : Str} {v w : Json} :
      Scanned .value d s v t → skip t = cp ',' :: t' →
      Scanned (.elems (acc ++ [v])) d (skip t') w r → Scanned (.elems acc) d s w r
  | lastMember {d : Nat} {acc : Dict} {s k t t' u r : Str} {v : Json} :
      scanString s = .ok (k, t) → skip t = cp ':' :: t' → Scanned .value d (skip t') v u →
      skip u = cp '}' :: r →
      Scanned (.members acc) d (cp '"' :: s) (.obj (acc.set k v)) r
  | nextMember {d : Nat} {acc : Dict} {s k t t' u u' r : Str} {v w : Json} :
      scanString s = .ok (k, t) → skip t = cp ':' :: t' → Scanned .value d (skip t') v u →
      skip u = cp ',' :: u' → Scanned (.members (acc.set k v)) d (skip u') w r →
      Scanned (.members acc) d (cp '"' :: s) w r

/-- A scan that succeeds has a derivation. -/
theorem scanned (n : Nat) :
    (∀ {d s v r}, value F n d s = .ok (v, r) → Scanned F .value d s v r) ∧
    (∀ {d acc s v r}, elems F n d acc s = .ok (v, r) → Scanned F (.elems acc) d s v r) ∧
    (∀ {d acc s v r}, members F n d acc s = .ok (v, r) → Scanned F (.members acc) d s v r) := by
  induction n with
  | zero =>
    refine ⟨fun h => ?_, fun h => ?_, fun h => ?_⟩
    · unfold value at h; cases h
    · unfold elems at h; cases h
    · unfold members at h; cases h
  | succ n ih =>
    obtain ⟨ihv, ihe, ihm⟩ := ih
    refine ⟨fun {d s v r} h => ?_, fun {d acc s v r} h => ?_, fun {d acc s v r} h => ?_⟩
    · cases s with
      | nil => unfold value at h; cases h
      | cons c t =>
        rw [value.eq_def] at h
        simp only at h
        split at h
        · rename_i hc
          subst hc
          cases hs : scanString t with
          | error e => rw [hs] at h; cases h
          | ok p =>
            rw [hs] at h
            cases h
            exact .str hs
        split at h
        · rename_i hc
          subst hc
          split at h
          · cases h
          · cases h
          · rename_i hk
            split at h
            · rename_i hc
              cases h
              exact .noMembers (hc ▸ hk)
            · exact .object (hk ▸ ihm h)
        split at h
        · rename_i hc
          subst hc
          split at h
          · cases h
          · cases h
          · rename_i hk
            split at h
            · rename_i hc
              cases h
              exact .noElems (hc ▸ hk)
            · exact .array (hk ▸ ihe h)
        split at h
        · cases h
          exact .literal ‹_›
        · exact .number h
    · rw [elems] at h
      split at h
      · cases h
      rename_i hv
      split at h
      · cases h
      rename_i hk
      split at h
      · rename_i hc
        cases h
        exact .lastElem (ihv hv) (hc ▸ hk)
      split at h
      · rename_i hc
        exact .nextElem (ihv hv) (hc ▸ hk) (ihe h)
      · cases h
    · cases s with
      | nil => unfold members at h; cases h
      | cons q s =>
        rw [members.eq_def] at h
        simp only at h
        split at h
        swap
        · cases h
        rename_i hq
        subst hq
        split at h
        · cases h
        rename_i hs
        split at h
        · cases h
        rename_i hk
        split at h
        swap
        · cases h
        rename_i hc
        subst hc
        split at h
        · cases h
        rename_i hv
        split at h
        · cases h
        rename_i hk'
        split at h
        · rename_i hc
          cases h
          exact .lastMember hs hk (ihv hv) (hc ▸ hk')
        split at h
        · rename_i hc
          exact .nextMember hs hk (ihv hv) (hc ▸ hk') (ihm h)
        · cases h

theorem skip_cons_length {s r : Str} {c : CodePoint} (h : skip s = c :: r) :
    r.length < s.length := by
  have := skip_length_le s
  rw [h] at this
  exact this

/-- A scan consumes. -/
theorem Scanned.length_lt {g : Target} {d : Nat} {s r : Str} {v : Json} (h : Scanned F g d s v r) :
    r.length < s.length := by
  induction h with
  | str h => exact Nat.lt_succ_of_lt (scanString_length h)
  | noMembers h | noElems h => exact Nat.lt_succ_of_lt (skip_cons_length h)
  | object _ ih | array _ ih =>
    exact Nat.lt_succ_of_lt (Nat.lt_of_lt_of_le ih (skip_length_le _))
  | literal h => exact scanLiteral_length h
  | number h => exact scanNumber_length h
  | lastElem _ h ih => exact Nat.lt_trans (skip_cons_length h) ih
  | @nextElem _ _ _ _ t' _ _ _ _ h _ ih ih' =>
    have h₁ := skip_cons_length h
    have h₂ := skip_length_le t'
    omega
  | @lastMember _ _ _ _ _ t' _ _ _ hs h _ h' ih =>
    have h₁ := scanString_length hs
    have h₂ := skip_cons_length h
    have h₃ := skip_length_le t'
    have h₄ := skip_cons_length h'
    simp only [List.length_cons]
    omega
  | @nextMember _ _ _ _ _ t' _ u' _ _ _ hs h _ h' _ ih ih' =>
    have h₁ := scanString_length hs
    have h₂ := skip_cons_length h
    have h₃ := skip_length_le t'
    have h₄ := skip_cons_length h'
    have h₅ := skip_length_le u'
    simp only [List.length_cons]
    omega

/-- One more unit of fuel changes nothing, from twice the length of the text on. -/
theorem fuel_succ (n : Nat) :
    (∀ d s, 2 * s.length + 1 ≤ n → value F (n + 1) d s = value F n d s) ∧
    (∀ d acc s, 2 * s.length + 2 ≤ n → elems F (n + 1) d acc s = elems F n d acc s) ∧
    (∀ d acc s, 2 * s.length + 2 ≤ n → members F (n + 1) d acc s = members F n d acc s) := by
  induction n with
  | zero => exact ⟨fun _ _ h => by omega, fun _ _ _ h => by omega, fun _ _ _ h => by omega⟩
  | succ n ih =>
    obtain ⟨ihv, ihe, ihm⟩ := ih
    refine ⟨fun d s h => ?_, fun d acc s h => ?_, fun d acc s h => ?_⟩
    · cases s with
      | nil => rw [value.eq_def, value.eq_def]
      | cons c t =>
        simp only [List.length_cons] at h
        have hsk := skip_length_le t
        rw [value.eq_def F (n + 1 + 1), value.eq_def F (n + 1)]
        simp only
        cases d with
        | zero => rfl
        | succ d =>
          cases hk : skip t with
          | nil => rfl
          | cons c' r' =>
            rw [hk] at hsk
            simp only [List.length_cons] at hsk
            simp only
            rw [ihm d [] (c' :: r') (by simp only [List.length_cons]; omega),
              ihe d [] (c' :: r') (by simp only [List.length_cons]; omega)]
    · rw [elems.eq_def F (n + 1 + 1), elems.eq_def F (n + 1)]
      simp only
      rw [ihv d s (by omega)]
      cases hv : value F n d s with
      | error e => rfl
      | ok p =>
        obtain ⟨v, r⟩ := p
        have h₁ := ((scanned n).1 hv).length_lt
        have h₂ := skip_length_le r
        simp only
        cases hk : skip r with
        | nil => rfl
        | cons c r' =>
          rw [hk] at h₂
          simp only [List.length_cons] at h₂
          have h₃ := skip_length_le r'
          simp only
          rw [ihe d (acc ++ [v]) (skip r') (by omega)]
    · cases s with
      | nil => rw [members.eq_def, members.eq_def]
      | cons q s =>
        simp only [List.length_cons] at h
        rw [members.eq_def F (n + 1 + 1), members.eq_def F (n + 1)]
        simp only
        cases hs : scanString s with
        | error e => rfl
        | ok p =>
          obtain ⟨k, r⟩ := p
          have h₁ := scanString_length hs
          have h₂ := skip_length_le r
          simp only
          cases hk : skip r with
          | nil => rfl
          | cons c r' =>
            rw [hk] at h₂
            simp only [List.length_cons] at h₂
            have h₃ := skip_length_le r'
            simp only
            rw [ihv d (skip r') (by omega)]
            cases hv : value F n d (skip r') with
            | error e => rfl
            | ok p =>
              obtain ⟨v, u⟩ := p
              have h₄ := ((scanned n).1 hv).length_lt
              have h₅ := skip_length_le u
              simp only
              cases hu : skip u with
              | nil => rfl
              | cons c' u' =>
                rw [hu] at h₅
                simp only [List.length_cons] at h₅
                have h₆ := skip_length_le u'
                simp only
                rw [ihm d (acc.set k v) (skip u') (by omega)]

/-- The fuel of `loads` is never used up: more of it gives the same result. -/
theorem value_fuel {n d : Nat} {s : Str} (h : 2 * s.length + 1 ≤ n) :
    value F n d s = value F (2 * s.length + 1) d s := by
  induction n, h using Nat.le_induction with
  | base => rfl
  | succ n hn ih => rw [(fuel_succ n).1 d s hn, ih]

/-- `loads` with any fuel that is enough. -/
theorem loads_eq (limit : Nat) {s : Str} {n : Nat} (h : 2 * s.length + 1 ≤ n) :
    loads F limit s = match value F n limit (skip s) with
      | .error e => .error e
      | .ok (v, r) => if skip r = [] then .ok v else .error .value := by
  have hl := skip_length_le s
  unfold loads
  rw [value_fuel (n := n) (by omega), value_fuel (n := 2 * s.length + 1) (by omega)]

end

end Py
