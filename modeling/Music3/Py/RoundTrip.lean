import Music3.Py.Loads
import Music3.Py.TextChars

/-!
# What `json.loads` reads from a text of `json.dumps`

* `loads_dumps`: a text that `dumps` wrote, with or without `indent`, is read back as `norm` of
  the value, if the decoder's limit admits its depth.
* `norm` is what the way through the text changes: two lone surrogates that stand next to each
  other become one character (`normStr`), a NaN loses its payload, and keys that have become equal
  are merged.
* `get?_norm`: `norm` is not seen at a plain key (`plain`: without surrogates).
* `ascii_dumps`: the text is ASCII, so `loadsBytes` reads the encoded text (`loadsBytes_dumps`).
-/

namespace Py

/-! ## What changes -/

/-- The string with each surrogate pair joined. -/
def normStr : Str → Str
  | [] => []
  | [c] => [c]
  | h :: l :: t =>
    if isHigh h.val && isLow l.val then point (joinPair h.val l.val) :: normStr t
    else h :: normStr (l :: t)

def normFloat (x : PyFloat) : PyFloat :=
  if x.isFinite then x else if x = .inf then .inf else if x = .negInf then .negInf else .nan

mutual
/-- The value after a way through its text (module doc). -/
def norm : Json → Json
  | .str s => .str (normStr s)
  | .float x => .float (normFloat x)
  | .arr xs => .arr (normList xs)
  | .obj kvs => .obj (Dict.ofPairs (normFields kvs))
  | .null => .null
  | .bool b => .bool b
  | .int n => .int n
def normList : List Json → List Json
  | [] => []
  | x :: xs => norm x :: normList xs
def normFields : List (Str × Json) → List (Str × Json)
  | [] => []
  | (k, x) :: kvs => (normStr k, norm x) :: normFields kvs
end

/-! ## White space -/

theorem skip_cons {c : CodePoint} {r : Str} (h : isSpace c = false) : skip (c :: r) = c :: r := by
  rw [skip, h]; rfl

theorem skip_spaces {w s : Str} (h : ∀ c ∈ w, isSpace c = true) : skip (w ++ s) = skip s := by
  induction w with
  | nil => rfl
  | cons c w ih =>
    rw [List.cons_append, skip, if_pos (h c (by simp)), ih fun x hx => h x (by simp [hx])]

theorem newline_space {o : DumpOpts} {lvl : Nat} : ∀ c ∈ newline o lvl, isSpace c = true := by
  intro c hc
  unfold newline at hc
  split at hc
  · cases hc
  · rcases List.mem_cons.mp hc with rfl | hc
    · decide
    · rw [List.eq_of_mem_replicate hc]; decide

theorem skip_newline {o : DumpOpts} {lvl : Nat} {s : Str} : skip (newline o lvl ++ s) = skip s :=
  skip_spaces newline_space

/-! ## Strings -/

theorem hexVal_hexDigit : ∀ n < 16, hexVal (hexDigit n) = some n := by decide

theorem hex4_escape {n : Nat} (h : n < 0x10000) :
    hex4 (hexDigit (n / 4096 % 16)) (hexDigit (n / 256 % 16)) (hexDigit (n / 16 % 16))
      (hexDigit (n % 16)) = some n := by
  unfold hex4
  rw [hexVal_hexDigit _ (by omega), hexVal_hexDigit _ (by omega), hexVal_hexDigit _ (by omega),
    hexVal_hexDigit _ (by omega)]
  simp only [Option.pure_def, Option.bind_eq_bind, Option.bind_some, Option.some.injEq]
  omega

/-- Put units in front of scanned ones. -/
def prepend (us : List StrUnit) (p : List StrUnit × Str) : List StrUnit × Str := (us ++ p.1, p.2)

theorem scanUnits_escape4 {n : Nat} (h : n < 0x10000) (t : Str) :
    scanUnits (escape4 n ++ t) = (scanUnits t).map (prepend [.esc n]) := by
  unfold escape4
  simp only [List.cons_append, List.nil_append]
  rw [scanUnits.eq_def]
  simp only [hex4_escape h, show cp '\\' ≠ cp '"' by decide, ↓reduceIte]
  rfl

/-- The characters that are not written as `\uXXXX`. -/
def isPlain (c : CodePoint) : Bool :=
  c = cp '"' || c = cp '\\' || c = cp '\n' || c = cp '\r' || c = cp '\t' || c.val = 12 ||
    c.val = 8 || (0x20 ≤ c.val && c.val ≤ 0x7E)

/-- The units that the text of a character is scanned into. -/
def units (c : CodePoint) : List StrUnit :=
  if isPlain c then [.raw c]
  else if c.val < 0x10000 then [.esc c.val]
  else [.esc (0xD800 + (c.val - 0x10000) / 0x400), .esc (0xDC00 + (c.val - 0x10000) % 0x400)]

theorem scanUnits_raw {c : CodePoint} (h₁ : c ≠ cp '"') (h₂ : c ≠ cp '\\') (h₃ : 0x20 ≤ c.val)
    (t : Str) : scanUnits (c :: t) = (scanUnits t).map (prepend [.raw c]) := by
  rw [scanUnits.eq_def]
  simp only [h₁, h₂, Nat.not_lt.mpr h₃, ↓reduceIte]
  rfl

theorem scanUnits_pair {e x : CodePoint} (hu : e ≠ cp 'u') (h : unescape e = some x) (t : Str) :
    scanUnits (cp '\\' :: e :: t) = (scanUnits t).map (prepend [.raw x]) := by
  rw [scanUnits.eq_def]
  simp only [show cp '\\' ≠ cp '"' by decide, hu, h, ↓reduceIte]
  rfl

/-- The text of a character is scanned into its units. -/
theorem scanUnits_escape (c : CodePoint) (t : Str) :
    scanUnits (escape c ++ t) = (scanUnits t).map (prepend (units c)) := by
  have hc := c.isLt
  unfold escape
  split
  · rename_i h; subst h; exact scanUnits_pair (by decide) (by decide) t
  split
  · rename_i h; subst h; exact scanUnits_pair (by decide) (by decide) t
  split
  · rename_i h; subst h; exact scanUnits_pair (by decide) (by decide) t
  split
  · rename_i h; subst h; exact scanUnits_pair (by decide) (by decide) t
  split
  · rename_i h; subst h; exact scanUnits_pair (by decide) (by decide) t
  split
  · rename_i h
    obtain rfl : c = point 12 := Fin.ext h
    exact scanUnits_pair (by decide) (by decide) t
  split
  · rename_i h
    obtain rfl : c = point 8 := Fin.ext h
    exact scanUnits_pair (by decide) (by decide) t
  rename_i h₁ h₂ h₃ h₄ h₅ h₆ h₇
  split
  · rename_i h
    have hp : isPlain c = true := by simp [isPlain, h.1, h.2]
    rw [units, if_pos hp]
    exact scanUnits_raw h₁ h₂ h.1 t
  rename_i h₈
  have hp : isPlain c = false := by
    simp only [isPlain, h₁, h₂, h₃, h₄, h₅, h₆, h₇, decide_false, Bool.or_self, Bool.false_or]
    simpa using h₈
  rw [units, hp]
  simp only [Bool.false_eq_true, ↓reduceIte]
  split
  · rename_i h; exact scanUnits_escape4 h t
  · rw [List.append_assoc, scanUnits_escape4 (by omega), scanUnits_escape4 (by omega),
      Option.map_map]
    rfl

theorem scanUnits_flatMap (s r : Str) :
    scanUnits (s.flatMap escape ++ cp '"' :: r) = some (s.flatMap units, r) := by
  induction s with
  | nil =>
    rw [List.flatMap_nil, List.nil_append, scanUnits.eq_def]
    rfl
  | cons c s ih =>
    rw [List.flatMap_cons, List.append_assoc, scanUnits_escape, ih]
    rfl

theorem joinEscapes_raw (c : CodePoint) (us : List StrUnit) :
    joinEscapes (.raw c :: us) = c :: joinEscapes us := by rw [joinEscapes]

/-- An escape that is not the first half of a pair is a character of its own. -/
theorem joinEscapes_esc {h : Nat} {us : List StrUnit}
    (hp : ∀ l r, us = .esc l :: r → (isHigh h && isLow l) = false) :
    joinEscapes (.esc h :: us) = point h :: joinEscapes us := by
  match us, hp with
  | [], _ => rfl
  | .raw c :: r, _ => rw [joinEscapes, joinEscapes]
  | .esc l :: r, hp => rw [joinEscapes, hp l r rfl]; rfl

theorem joinEscapes_pair {h l : Nat} (hh : isHigh h = true) (hl : isLow l = true)
    (us : List StrUnit) :
    joinEscapes (.esc h :: .esc l :: us) = point (joinPair h l) :: joinEscapes us := by
  rw [joinEscapes, hh, hl]; rfl

theorem point_self (c : CodePoint) : point c.val = c := by simp [point]

/-- The units of a string start with a low surrogate only if the string does. -/
theorem isLow_head {s : Str} {l : Nat} {us : List StrUnit} (h : s.flatMap units = .esc l :: us)
    (hl : isLow l = true) : ∃ c t, s = c :: t ∧ c.val = l := by
  cases s with
  | nil => cases h
  | cons c t =>
    refine ⟨c, t, rfl, ?_⟩
    have hc := c.isLt
    rw [List.flatMap_cons, units] at h
    split at h
    · cases h
    split at h
    · cases h; rfl
    · simp only [List.cons_append, List.cons.injEq, StrUnit.esc.injEq] at h
      simp only [isLow, Bool.and_eq_true, decide_eq_true_eq] at hl
      omega

/-- A character whose units are joined with nothing that follows. -/
theorem joinEscapes_units {c : CodePoint} {t : Str}
    (hp : ∀ l r, t = l :: r → (isHigh c.val && isLow l.val) = false) :
    joinEscapes (units c ++ t.flatMap units) = c :: joinEscapes (t.flatMap units) := by
  have hc := c.isLt
  unfold units
  split
  · exact joinEscapes_raw c _
  split
  · rw [List.singleton_append, joinEscapes_esc, point_self]
    intro l r hu
    by_contra hcon
    rw [Bool.not_eq_false, Bool.and_eq_true] at hcon
    obtain ⟨d, t', rfl, rfl⟩ := isLow_head hu hcon.2
    have := hp d t' rfl
    rw [hcon.1, hcon.2] at this
    cases this
  · rename_i h₁ h₂
    simp only [List.cons_append, List.nil_append]
    have hj : point (joinPair (0xD800 + (c.val - 0x10000) / 0x400)
        (0xDC00 + (c.val - 0x10000) % 0x400)) = c := by
      apply Fin.ext
      unfold joinPair
      rw [point_val] <;> omega
    rw [joinEscapes_pair, hj]
    · simp only [isHigh, Bool.and_eq_true, decide_eq_true_eq]; omega
    · simp only [isLow, Bool.and_eq_true, decide_eq_true_eq]; omega

theorem joinEscapes_flatMap (s : Str) : joinEscapes (s.flatMap units) = normStr s := by
  induction s using normStr.induct with
  | case1 => rfl
  | case2 c =>
    have := joinEscapes_units (c := c) (t := []) (fun _ _ h => by cases h)
    simpa [joinEscapes, normStr] using this
  | case3 h l t hp ih =>
    rw [normStr, if_pos hp, ← ih]
    rw [Bool.and_eq_true] at hp
    have esc : ∀ c : CodePoint, (isHigh c.val || isLow c.val) = true → units c = [.esc c.val] := by
      intro c hc
      simp only [isHigh, isLow, Bool.or_eq_true, Bool.and_eq_true, decide_eq_true_eq] at hc
      have hn : isPlain c = false := by
        rw [← Bool.not_eq_true]
        intro hpl
        have h₂ : c.val < 0x80 := by
          simp only [isPlain, Bool.or_eq_true, decide_eq_true_eq, Bool.and_eq_true] at hpl
          rcases hpl with ((((((rfl | rfl) | rfl) | rfl) | rfl) | h) | h) | h
          all_goals first | decide | omega
        omega
      rw [units, hn, if_neg (by simp), if_pos (by omega)]
    rw [List.flatMap_cons, List.flatMap_cons, esc h (by rw [hp.1]; rfl),
      esc l (by rw [hp.2, Bool.or_true])]
    exact joinEscapes_pair hp.1 hp.2 _
  | case4 h l t hp ih =>
    have hp' : (isHigh h.val && isLow l.val) = false := by simpa using hp
    rw [normStr, if_neg hp, ← ih]
    exact joinEscapes_units fun l' r e => by cases e; exact hp'

/-- A string is read back with its surrogate pairs joined. -/
theorem scanString_quote (s r : Str) :
    scanString (s.flatMap escape ++ cp '"' :: r) = .ok (normStr s, r) := by
  rw [scanString, scanUnits_flatMap]
  simp only [joinEscapes_flatMap]

/-! ## Numbers -/

/-- What can follow a value: nothing that a number could go on with. -/
def Follow (r : Str) : Prop :=
  ∀ c t, r = c :: t → isDigit c = false ∧ c ≠ cp '.' ∧ c ≠ cp 'e' ∧ c ≠ cp 'E'

theorem follow_nil : Follow [] := fun _ _ h => by cases h

theorem follow_cons {c : CodePoint} {t : Str} (h : isDigit c = false ∧ c ≠ cp '.' ∧ c ≠ cp 'e' ∧
    c ≠ cp 'E') : Follow (c :: t) := fun _ _ e => by cases e; exact h

theorem spanDigits_append {ds r : Str} (hd : ∀ c ∈ ds, isDigit c = true)
    (hr : ∀ c t, r = c :: t → isDigit c = false) : spanDigits (ds ++ r) = (ds, r) := by
  induction ds with
  | nil =>
    cases r with
    | nil => rfl
    | cons c t => rw [List.nil_append, spanDigits, hr c t rfl]; rfl
  | cons c ds ih =>
    rw [List.cons_append, spanDigits, if_pos (hd c (by simp)), ih fun x hx => hd x (by simp [hx])]

/-- Digits that do not start with a zero, or the digit zero. -/
def IsIntBody (i : Str) : Prop :=
  i = [cp '0'] ∨ ∃ c t, i = c :: t ∧ cp '1' ≤ c ∧ c ≤ cp '9' ∧ ∀ d ∈ t, isDigit d

theorem scanInt_append {i r : Str} (hi : IsIntBody i)
    (hr : ∀ c t, r = c :: t → isDigit c = false) : scanInt (i ++ r) = some (i, r) := by
  rcases hi with rfl | ⟨c, t, rfl, h₁, h₂, ht⟩
  · rfl
  · have h0 : c ≠ cp '0' := by rintro rfl; exact absurd h₁ (by decide)
    have hc : isDigit c = true := by
      simp only [isDigit, Bool.and_eq_true, decide_eq_true_eq]
      exact ⟨le_trans (by decide) h₁, h₂⟩
    rw [List.cons_append, scanInt, if_neg h0, if_pos hc, spanDigits_append ht hr]

theorem natText_eq (n : Nat) :
    natText n = if n < 10 then [point (48 + n)] else natText (n / 10) ++ [point (48 + n % 10)] := by
  have hd : ∀ k < 10, cp k.digitChar = point (48 + k) := by decide
  unfold natText
  rw [Nat.toDigits_eq_if (by decide)]
  split
  · rename_i h; rw [List.map_singleton, hd n h]
  · rw [List.map_append, List.map_singleton, hd _ (Nat.mod_lt n (by decide))]

theorem isDigit_point {k : Nat} (h : k < 10) : isDigit (point (48 + k)) = true := by
  have : ∀ k < 10, isDigit (point (48 + k)) = true := by decide
  exact this k h

theorem natText_isIntBody (n : Nat) : IsIntBody (natText n) := by
  have first : ∀ k < 10, k ≠ 0 → cp '1' ≤ point (48 + k) ∧ point (48 + k) ≤ cp '9' := by decide
  -- a positive number has no leading zero
  have pos : ∀ n : Nat, n ≠ 0 → ∃ c t, natText n = c :: t ∧ cp '1' ≤ c ∧ c ≤ cp '9' ∧
      ∀ d ∈ t, isDigit d = true := by
    intro n
    induction n using Nat.strong_induction_on with
    | _ n ih =>
      intro hn
      rw [natText_eq]
      split
      · rename_i h
        exact ⟨_, [], rfl, (first n h hn).1, (first n h hn).2, fun d hd => by cases hd⟩
      · obtain ⟨c, t, e, h₁, h₂, h₃⟩ := ih (n / 10) (by omega) (by omega)
        refine ⟨c, t ++ [point (48 + n % 10)], by rw [e]; rfl, h₁, h₂, fun d hd => ?_⟩
        rcases List.mem_append.mp hd with hd | hd
        · exact h₃ d hd
        · rw [List.mem_singleton.mp hd]
          exact isDigit_point (Nat.mod_lt n (by decide))
  by_cases h : n = 0
  · subst h; exact .inl (by decide)
  · exact .inr (pos n h)

theorem natOf_natText (n : Nat) : natOf (natText n) = n := by
  induction n using Nat.strong_induction_on with
  | _ n ih =>
    have hv : ∀ k < 10, (point (48 + k)).val - 48 = k := by decide
    rw [natText_eq]
    split
    · rename_i h
      simp [natOf, hv n h]
    · rw [natOf_concat, ih (n / 10) (by omega), hv _ (Nat.mod_lt n (by decide))]
      omega

theorem Follow.not_digit {r : Str} (h : Follow r) : ∀ c t, r = c :: t → isDigit c = false :=
  fun c t e => (h c t e).1

theorem scanFrac_none {r : Str} (h : ∀ c t, r = c :: t → c ≠ cp '.') : scanFrac r = ([], r) := by
  cases r with
  | nil => rfl
  | cons c t => rw [scanFrac, if_neg (fun hc => h c t rfl hc.1)]

theorem scanExp_none {r : Str} (h : ∀ c t, r = c :: t → c ≠ cp 'e' ∧ c ≠ cp 'E') :
    scanExp r = ([], r) := by
  match r, h with
  | [], _ => rfl
  | [c], _ => rfl
  | c :: sg :: t, h =>
    rw [scanExp, if_neg (fun hc => hc.elim (h c _ rfl).1 (h c _ rfl).2)]

theorem scanSign_none {s : Str} (h : ∀ c t, s = c :: t → c ≠ cp '-') : scanSign s = ([], s) := by
  cases s with
  | nil => rfl
  | cons c t => rw [scanSign, if_neg (h c t rfl)]

theorem IsIntBody.head {i : Str} (h : IsIntBody i) : ∃ c t, i = c :: t ∧ isDigit c = true := by
  rcases h with rfl | ⟨c, t, rfl, h₁, h₂, -⟩
  · exact ⟨_, [], rfl, by decide⟩
  · refine ⟨c, t, rfl, ?_⟩
    simp only [isDigit, Bool.and_eq_true, decide_eq_true_eq]
    exact ⟨le_trans (by decide) h₁, h₂⟩

theorem not_minus_of_digit {c : CodePoint} (h : isDigit c = true) : c ≠ cp '-' := by
  rintro rfl; exact absurd h (by decide)

/-- An integer is read back. -/
theorem scanNumber_int (F : FloatText) {n : Int} {r : Str}
    (hn : (natText n.natAbs).length ≤ maxStrDigits) (hr : Follow r) :
    scanNumber F (intText n ++ r) = .ok (.int n, r) := by
  have hi := natText_isIntBody n.natAbs
  have scan : ∀ sg : Str, scanSign (intText n ++ r) = (sg, natText n.natAbs ++ r) →
      scanNumber F (intText n ++ r) =
        .ok (.int (if sg = [] then natOf (natText n.natAbs)
          else -(natOf (natText n.natAbs) : Int)), r) := by
    intro sg hs
    unfold scanNumber
    simp only [hs, scanInt_append hi hr.not_digit, scanFrac_none fun c t e => (hr c t e).2.1,
      scanExp_none fun c t e => (hr c t e).2.2, Nat.not_lt.mpr hn, and_self, ↓reduceIte]
    split <;> rfl
  unfold intText at scan ⊢
  by_cases h : n < 0
  · rw [if_pos h] at scan ⊢
    rw [scan [cp '-'] rfl, natOf_natText]
    simp only [List.cons_ne_self, ↓reduceIte]
    congr 3
    omega
  · rw [if_neg h] at scan ⊢
    obtain ⟨c, t, e, hd⟩ := hi.head
    rw [scan [] (scanSign_none fun c' t' e' => ?_), natOf_natText]
    · simp only [↓reduceIte]
      congr 3
      omega
    · rw [e] at e'
      cases e'
      exact not_minus_of_digit hd

/-- The body of a float is scanned whole. -/
theorem scan_floatBody {b r : Str} (hb : IsFloatBody b) (hr : Follow r) :
    ∃ i f e : Str, b = i ++ f ++ e ∧ scanInt (b ++ r) = some (i, f ++ e ++ r) ∧
      scanFrac (f ++ e ++ r) = (f, e ++ r) ∧ scanExp (e ++ r) = (e, r) ∧ (f ≠ [] ∨ e ≠ []) := by
  obtain ⟨i, f, e, rfl, hi, hf, he, hne⟩ := hb
  have hexp : scanExp (e ++ r) = (e, r) := by
    rcases he with rfl | ⟨sg, t, rfl, hsg, ht, hdt⟩
    · exact scanExp_none fun c t h => (hr c t h).2.2
    · rw [List.cons_append, List.cons_append, scanExp, if_pos (.inl rfl), if_pos hsg,
        spanDigits_append hdt hr.not_digit, if_pos ht]
  -- what follows the digits of the fraction
  have hstop : ∀ c t, e ++ r = c :: t → isDigit c = false ∧ c ≠ cp '.' := by
    intro c t h
    rcases he with rfl | ⟨sg, t', rfl, -⟩
    · exact ⟨(hr c t h).1, (hr c t h).2.1⟩
    · cases h; decide
  have hfrac : scanFrac (f ++ e ++ r) = (f, e ++ r) := by
    rw [List.append_assoc]
    rcases hf with rfl | ⟨t, rfl, ht, hdt⟩
    · exact scanFrac_none fun c t h => (hstop c t h).2
    · rw [List.cons_append, scanFrac, spanDigits_append hdt fun c t h => (hstop c t h).1,
        if_pos ⟨rfl, ht⟩]
  refine ⟨i, f, e, rfl, ?_, hfrac, hexp, hne⟩
  rw [List.append_assoc, List.append_assoc, ← List.append_assoc f]
  refine scanInt_append hi fun c t h => ?_
  rcases hf with rfl | ⟨t', rfl, -⟩
  · exact (hstop c t h).1
  · cases h; decide

theorem IsFloatBody.head {b : Str} (h : IsFloatBody b) : ∃ c t, b = c :: t ∧ isDigit c = true := by
  obtain ⟨i, f, e, rfl, hi, -⟩ := h
  obtain ⟨c, t, rfl, hc⟩ := IsIntBody.head hi
  exact ⟨c, _, rfl, hc⟩

/-- The text of a float is scanned whole. -/
theorem scanNumber_token (F : FloatText) {t r : Str} (ht : IsFloatToken t) (hr : Follow r) :
    scanNumber F (t ++ r) = .ok (.float (F.ofText t), r) := by
  have scan : ∀ sg b : Str, t = sg ++ b → IsFloatBody b → scanSign (t ++ r) = (sg, b ++ r) →
      scanNumber F (t ++ r) = .ok (.float (F.ofText t), r) := by
    intro sg b e hb hs
    obtain ⟨i, f, ex, hb', h₁, h₂, h₃, hne⟩ := scan_floatBody hb hr
    have hne' : ¬ (f = [] ∧ ex = []) := fun h => hne.elim (· h.1) (· h.2)
    unfold scanNumber
    simp only [hs, h₁, h₂, h₃, hne', ↓reduceIte]
    rw [← hb', ← e]
  rcases ht with hb | ⟨b, e, hb⟩
  · obtain ⟨c, u, hc, hd⟩ := hb.head
    refine scan [] _ rfl hb (scanSign_none fun c' u' e' => ?_)
    rw [hc] at e'
    cases e'
    exact not_minus_of_digit hd
  · exact scan [cp '-'] b e hb (by rw [e]; rfl)

/-- A finite float is read back. -/
theorem scanNumber_float (F : FloatText) {x : PyFloat} {r : Str} (hx : x.isFinite = true)
    (hr : Follow r) : scanNumber F (F.repr x ++ r) = .ok (.float x, r) := by
  rw [scanNumber_token F (F.token x hx) hr, F.ofText_repr x hx]

/-! ## Values -/

/-- The start of a number: a digit, or a minus sign and a digit. -/
def IsNumberStart (s : Str) : Prop :=
  (∃ c t, s = c :: t ∧ isDigit c = true) ∨ ∃ c t, s = cp '-' :: c :: t ∧ isDigit c = true

theorem isNumberStart_int (n : Int) (r : Str) : IsNumberStart (intText n ++ r) := by
  obtain ⟨c, t, e, hd⟩ := (natText_isIntBody n.natAbs).head
  unfold intText
  split
  · exact .inr ⟨c, t ++ r, by rw [e]; rfl, hd⟩
  · exact .inl ⟨c, t ++ r, by rw [e]; rfl, hd⟩

theorem isNumberStart_token {t : Str} (ht : IsFloatToken t) (r : Str) : IsNumberStart (t ++ r) := by
  rcases ht with hb | ⟨b, e, hb⟩
  · obtain ⟨c, u, hc, hd⟩ := hb.head
    exact .inl ⟨c, u ++ r, by rw [hc]; rfl, hd⟩
  · obtain ⟨c, u, hc, hd⟩ := hb.head
    exact .inr ⟨c, u ++ r, by rw [e, hc]; rfl, hd⟩

theorem isNumberStart_float (F : FloatText) {x : PyFloat} (hx : x.isFinite = true) (r : Str) :
    IsNumberStart (F.repr x ++ r) :=
  isNumberStart_token (F.token x hx) r

theorem ne_of_digit {c : CodePoint} (h : isDigit c = true) {x : CodePoint}
    (hx : isDigit x = false) : c ≠ x := by
  rintro rfl; rw [h] at hx; cases hx

theorem scanLiteral_number {s : Str} (h : IsNumberStart s) : scanLiteral s = none := by
  have ne : ∀ {c : CodePoint}, isDigit c = true → ∀ x, isDigit x = false → (x == c) = false :=
    fun hc x hx => beq_false_of_ne (ne_of_digit hc hx).symm
  unfold scanLiteral
  rw [Option.map_eq_none_iff, List.find?_eq_none]
  intro w hw
  simp only [List.mem_cons, List.not_mem_nil, or_false] at hw
  rcases h with ⟨c, t, rfl, hc⟩ | ⟨c, t, rfl, hc⟩ <;>
    rcases hw with rfl | rfl | rfl | rfl | rfl | rfl <;>
    simp only [lit, String.reduceToList, List.map_cons, List.map_nil, List.isPrefixOf,
      Bool.and_eq_true,
      not_and, Bool.not_eq_true] <;>
    intro hb <;> first
      | (rw [ne hc _ (by decide)] at hb; cases hb)
      | exact absurd hb (by decide)
      | (intro hb'; rw [ne hc _ (by decide)] at hb'; cases hb')

section
variable {F : FloatText} {o : DumpOpts}

theorem value_number {n d : Nat} {s : Str} (h : IsNumberStart s) :
    value F (n + 1) d s = scanNumber F s := by
  have hl := scanLiteral_number h
  have head : ∃ c t, s = c :: t ∧ c ≠ cp '"' ∧ c ≠ cp '{' ∧ c ≠ cp '[' := by
    rcases h with ⟨c, t, rfl, hc⟩ | ⟨c, t, rfl, -⟩
    · exact ⟨c, t, rfl, ne_of_digit hc (by decide), ne_of_digit hc (by decide),
        ne_of_digit hc (by decide)⟩
    · exact ⟨_, _, rfl, by decide, by decide, by decide⟩
  obtain ⟨c, t, rfl, h₁, h₂, h₃⟩ := head
  rw [value.eq_def]
  simp only [h₁, h₂, h₃, hl, ↓reduceIte]

/-- What a value's text starts with: neither white space nor a closing bracket. -/
def IsStart (c : CodePoint) : Prop := isSpace c = false ∧ c ≠ cp ']' ∧ c ≠ cp '}'

theorem isStart_digit {c : CodePoint} (h : isDigit c = true) : IsStart c := by
  refine ⟨?_, ne_of_digit h (by decide), ne_of_digit h (by decide)⟩
  simp only [isSpace, ne_of_digit h (x := cp ' ') (by decide),
    ne_of_digit h (x := cp '\t') (by decide), ne_of_digit h (x := cp '\n') (by decide),
    ne_of_digit h (x := cp '\r') (by decide), decide_false, Bool.or_self]

theorem IsNumberStart.start {s : Str} (h : IsNumberStart s) : ∃ c t, s = c :: t ∧ IsStart c := by
  rcases h with ⟨c, t, rfl, hc⟩ | ⟨c, t, rfl, -⟩
  · exact ⟨c, t, rfl, isStart_digit hc⟩
  · exact ⟨_, _, rfl, by decide, by decide, by decide⟩

theorem render_start (lvl : Nat) (v : Json) : ∃ c t, render F o lvl v = c :: t ∧ IsStart c := by
  have brackets : IsStart (cp '[') ∧ IsStart (cp '{') ∧ IsStart (cp '"') := by
    refine ⟨⟨?_, ?_, ?_⟩, ⟨?_, ?_, ?_⟩, ⟨?_, ?_, ?_⟩⟩ <;> decide
  match v with
  | .null => exact ⟨_, _, rfl, by decide, by decide, by decide⟩
  | .bool true => exact ⟨_, _, rfl, by decide, by decide, by decide⟩
  | .bool false => exact ⟨_, _, rfl, by decide, by decide, by decide⟩
  | .int n =>
    rw [render]
    simpa using (isNumberStart_int n []).start
  | .float x =>
    rw [render, floatText]
    split
    · rename_i hx
      simpa using (isNumberStart_float F hx []).start
    split
    · exact ⟨_, _, rfl, by decide, by decide, by decide⟩
    split
    · exact ⟨_, _, rfl, by decide, by decide, by decide⟩
    · exact ⟨_, _, rfl, by decide, by decide, by decide⟩
  | .str s => exact ⟨_, _, rfl, brackets.2.2⟩
  | .arr [] => exact ⟨_, _, by rw [render], brackets.1⟩
  | .arr (x :: xs) => exact ⟨_, _, by rw [render], brackets.1⟩
  | .obj [] => exact ⟨_, _, by rw [render], brackets.2.1⟩
  | .obj ((k, x) :: kvs) => exact ⟨_, _, by rw [render], brackets.2.1⟩

theorem skip_render (lvl : Nat) (v : Json) (r : Str) :
    skip (render F o lvl v ++ r) = render F o lvl v ++ r := by
  obtain ⟨c, t, e, h, -⟩ := render_start (F := F) (o := o) lvl v
  rw [e]
  exact skip_cons h

/-- The rest of an array or an object after a value. -/
theorem follow_close {lvl : Nat} {c : CodePoint} (hc : c = cp ']' ∨ c = cp '}') (r : Str) :
    Follow (newline o lvl ++ c :: r) := by
  unfold newline
  split
  · exact follow_cons (by rcases hc with rfl | rfl <;> decide)
  · exact follow_cons (by decide)

theorem follow_sep (lvl : Nat) (r : Str) : Follow (itemSep o lvl ++ r) := by
  unfold itemSep
  split <;> exact follow_cons (by decide)

/-- The separator is a comma and white space. -/
theorem itemSep_eq (lvl : Nat) : ∃ w, itemSep o lvl = cp ',' :: w ∧ ∀ c ∈ w, isSpace c = true := by
  unfold itemSep
  split
  · exact ⟨[cp ' '], rfl, fun c hc => by rw [List.mem_singleton.mp hc]; decide⟩
  · exact ⟨_, rfl, newline_space⟩

mutual
/-- The fuel that reading the value's text takes. -/
def need : Json → Nat
  | .arr xs => needList xs + 1
  | .obj kvs => needFields kvs + 1
  | _ => 1
def needList : List Json → Nat
  | [] => 0
  | x :: xs => max (need x) (needList xs) + 1
def needFields : List (Str × Json) → Nat
  | [] => 0
  | (_, x) :: kvs => max (need x) (needFields kvs) + 1
end

theorem value_literal {n d : Nat} {c : CodePoint} {t r : Str} {v : Json}
    (hc : c ≠ cp '"' ∧ c ≠ cp '{' ∧ c ≠ cp '[') (h : scanLiteral (c :: t) = some (v, r)) :
    value F (n + 1) d (c :: t) = .ok (v, r) := by
  rw [value.eq_def]
  simp only [hc.1, hc.2.1, hc.2.2, h, ↓reduceIte]

theorem value_string (n d : Nat) (s r : Str) :
    value F (n + 1) d (quote s ++ r) = .ok (.str (normStr s), r) := by
  unfold quote
  rw [List.cons_append, value.eq_def]
  simp only [List.append_assoc, List.singleton_append, scanString_quote, ↓reduceIte, Except.map]

theorem value_arr {n d : Nat} {c : CodePoint} {t u : Str} (hu : skip u = c :: t)
    (hc : c ≠ cp ']') : value F (n + 1) (d + 1) (cp '[' :: u) = elems F n d [] (c :: t) := by
  rw [value.eq_def]
  simp only [show cp '[' ≠ cp '"' by decide, show cp '[' ≠ cp '{' by decide, hu, hc, ↓reduceIte]

theorem value_obj {n d : Nat} {c : CodePoint} {t u : Str} (hu : skip u = c :: t)
    (hc : c ≠ cp '}') : value F (n + 1) (d + 1) (cp '{' :: u) = members F n d [] (c :: t) := by
  rw [value.eq_def]
  simp only [show cp '{' ≠ cp '"' by decide, hu, hc, ↓reduceIte]

theorem value_float {n d : Nat} (x : PyFloat) {r : Str} (hr : Follow r) :
    value F (n + 1) d (floatText F x ++ r) = .ok (.float (normFloat x), r) := by
  unfold floatText normFloat
  split
  · rename_i hx
    rw [value_number (isNumberStart_float F hx r), scanNumber_float F hx hr]
  split
  · exact value_literal (by decide) rfl
  split
  · exact value_literal (by decide) rfl
  · exact value_literal (by decide) rfl

theorem elems_last {n d : Nat} {acc : List Json} {s t r : Str} {v : Json}
    (hv : value F n d s = .ok (v, t)) (ht : skip t = cp ']' :: r) :
    elems F (n + 1) d acc s = .ok (.arr (acc ++ [v]), r) := by
  rw [elems]
  simp only [hv, ht, ↓reduceIte]

theorem elems_more {n d : Nat} {acc : List Json} {s t r : Str} {v : Json}
    (hv : value F n d s = .ok (v, t)) (ht : skip t = cp ',' :: r) :
    elems F (n + 1) d acc s = elems F n d (acc ++ [v]) (skip r) := by
  rw [elems]
  simp only [hv, ht, show cp ',' ≠ cp ']' by decide, ↓reduceIte]

theorem members_last {n d : Nat} {acc : Dict} {k s t r : Str} {v : Json}
    (hs : skip s = s) (hv : value F n d s = .ok (v, t)) (ht : skip t = cp '}' :: r) :
    members F (n + 1) d acc (quote k ++ (keySep ++ s)) = .ok (.obj (acc.set (normStr k) v), r) := by
  unfold quote keySep
  rw [List.cons_append, members.eq_def]
  simp only [List.append_assoc, List.cons_append, List.nil_append, scanString_quote,
    ↓reduceIte, skip_cons (c := cp ':') (by decide)]
  rw [skip, if_pos (by decide), hs]
  simp only [hv, ht, ↓reduceIte]

theorem members_more {n d : Nat} {acc : Dict} {k s t r : Str} {v : Json}
    (hs : skip s = s) (hv : value F n d s = .ok (v, t)) (ht : skip t = cp ',' :: r) :
    members F (n + 1) d acc (quote k ++ (keySep ++ s)) =
      members F n d (acc.set (normStr k) v) (skip r) := by
  unfold quote keySep
  rw [List.cons_append, members.eq_def]
  simp only [List.append_assoc, List.cons_append, List.nil_append, scanString_quote,
    ↓reduceIte, skip_cons (c := cp ':') (by decide)]
  rw [skip, if_pos (by decide), hs]
  simp only [hv, ht, show cp ',' ≠ cp '}' by decide, ↓reduceIte]

/-- The elements of an array that is not empty. -/
def elemsText (F : FloatText) (o : DumpOpts) (lvl : Nat) : List Json → Str
  | [] => []
  | x :: xs => render F o lvl x ++ renderElems F o lvl xs

/-- The members of an object that is not empty. -/
def membersText (F : FloatText) (o : DumpOpts) (lvl : Nat) : List (Str × Json) → Str
  | [] => []
  | (k, x) :: kvs => quote k ++ (keySep ++ (render F o lvl x ++ renderMembers F o lvl kvs))

theorem elemsText_start (lvl : Nat) (x : Json) (xs : List Json) (u : Str) :
    ∃ c t, elemsText F o lvl (x :: xs) ++ u = c :: t ∧ IsStart c := by
  obtain ⟨c, t, e, h⟩ := render_start (F := F) (o := o) lvl x
  exact ⟨c, _, by rw [elemsText, e]; rfl, h⟩

theorem renderElems_cons (lvl : Nat) (x : Json) (xs : List Json) (u : Str) :
    ∃ w, renderElems F o lvl (x :: xs) ++ u = cp ',' :: (w ++ (elemsText F o lvl (x :: xs) ++ u)) ∧
      ∀ c ∈ w, isSpace c = true := by
  obtain ⟨w, e, h⟩ := itemSep_eq (o := o) lvl
  exact ⟨w, by simp only [renderElems, elemsText, e, List.cons_append, List.append_assoc], h⟩

theorem renderMembers_cons (lvl : Nat) (p : Str × Json) (kvs : Dict) (u : Str) :
    ∃ w, renderMembers F o lvl (p :: kvs) ++ u =
        cp ',' :: (w ++ (membersText F o lvl (p :: kvs) ++ u)) ∧ ∀ c ∈ w, isSpace c = true := by
  obtain ⟨w, e, h⟩ := itemSep_eq (o := o) lvl
  exact ⟨w, by simp only [renderMembers, membersText, e, List.cons_append, List.append_assoc], h⟩

/-- What follows an element of an array: a separator, or the end of the array. -/
theorem follow_elems (lvl lvl' : Nat) (xs : List Json) (r : Str) :
    Follow (renderElems F o lvl xs ++ (newline o lvl' ++ cp ']' :: r)) := by
  cases xs with
  | nil => exact follow_close (.inl rfl) r
  | cons x xs => rw [renderElems, List.append_assoc]; exact follow_sep lvl _

theorem follow_members (lvl lvl' : Nat) (kvs : Dict) (r : Str) :
    Follow (renderMembers F o lvl kvs ++ (newline o lvl' ++ cp '}' :: r)) := by
  cases kvs with
  | nil => exact follow_close (.inr rfl) r
  | cons p kvs =>
    obtain ⟨k, x⟩ := p
    rw [renderMembers, List.append_assoc]
    exact follow_sep lvl _

mutual
/-- The text of a value is read back as its `norm`. -/
theorem value_render : ∀ (v : Json) (lvl : Nat) {n d : Nat} {r : Str},
    v.depth ≤ d → intsOk v = true →
    need v ≤ n → Follow r → value F n d (render F o lvl v ++ r) = .ok (norm v, r)
  | .null, _, n + 1, _, _, _, _, _, _ | .bool true, _, n + 1, _, _, _, _, _, _
  | .bool false, _, n + 1, _, _, _, _, _, _ => value_literal (by decide) rfl
  | .int m, _, n + 1, _, r, _, hi, _, hr => by
    simp only [intsOk, decide_eq_true_eq] at hi
    rw [render, value_number (isNumberStart_int m r), scanNumber_int F hi hr, norm]
  | .float x, _, n + 1, _, _, _, _, _, hr => by rw [render, norm]; exact value_float x hr
  | .str s, _, n + 1, _, r, _, _, _, _ => by rw [render, norm]; exact value_string n _ s r
  | .arr [], _, n + 1, d + 1, r, _, _, _, _ => by
    rw [render, List.cons_append, List.cons_append, value.eq_def]
    simp only [skip_cons (c := cp ']') (by decide), show cp '[' ≠ cp '"' by decide,
      show cp '[' ≠ cp '{' by decide, ↓reduceIte]
    rfl
  | .obj [], _, n + 1, d + 1, r, _, _, _, _ => by
    rw [render, List.cons_append, List.cons_append, value.eq_def]
    simp only [skip_cons (c := cp '}') (by decide), show cp '{' ≠ cp '"' by decide, ↓reduceIte]
    rfl
  | .arr (x :: xs), lvl, n + 1, d + 1, r, hd, hi, hn, hr => by
    have e : render F o lvl (.arr (x :: xs)) ++ r = cp '[' :: (newline o (lvl + 1) ++
        (elemsText F o (lvl + 1) (x :: xs) ++ (newline o lvl ++ cp ']' :: r))) := by
      simp only [render, elemsText, List.cons_append, List.append_assoc, List.nil_append]
    obtain ⟨c, t, ec, hc⟩ := elemsText_start (F := F) (o := o) (lvl + 1) x xs
      (newline o lvl ++ cp ']' :: r)
    rw [e, value_arr (by rw [skip_newline, ec, skip_cons hc.1]) hc.2.1, ← ec,
      elems_render (x :: xs) (by simp) (Nat.le_of_succ_le_succ hd) hi
        (Nat.le_of_succ_le_succ hn), norm]
    rfl
  | .obj (p :: kvs), lvl, n + 1, d + 1, r, hd, hi, hn, hr => by
    have e : render F o lvl (.obj (p :: kvs)) ++ r = cp '{' :: (newline o (lvl + 1) ++
        (membersText F o (lvl + 1) (p :: kvs) ++ (newline o lvl ++ cp '}' :: r))) := by
      simp only [render, membersText, List.cons_append, List.append_assoc, List.nil_append]
    have ec : ∃ t, membersText F o (lvl + 1) (p :: kvs) ++ (newline o lvl ++ cp '}' :: r) =
        cp '"' :: t := ⟨_, rfl⟩
    obtain ⟨t, ec⟩ := ec
    rw [e, value_obj (by rw [skip_newline, ec, skip_cons (by decide)]) (by decide), ← ec,
      members_render (p :: kvs) (by simp) (Nat.le_of_succ_le_succ hd) hi
        (Nat.le_of_succ_le_succ hn), norm]
    rfl
theorem elems_render : ∀ (xs : List Json) {lvl lvl' n d : Nat} {acc : List Json} {r : Str},
    xs ≠ [] → Json.depthList xs ≤ d → intsOkList xs = true → needList xs ≤ n →
    elems F n d acc (elemsText F o lvl xs ++ (newline o lvl' ++ cp ']' :: r)) =
      .ok (.arr (acc ++ normList xs), r)
  | x :: xs, lvl, lvl', n + 1, d, acc, r, _, hd, hi, hn => by
    simp only [Json.depthList, Nat.max_le] at hd
    simp only [intsOkList, Bool.and_eq_true] at hi
    simp only [needList, Nat.add_le_add_iff_right, Nat.max_le] at hn
    have hv := value_render x lvl hd.1 hi.1 hn.1
      (follow_elems (F := F) (o := o) lvl lvl' xs r)
    rw [elemsText, List.append_assoc]
    match xs with
    | [] =>
      rw [elems_last hv]
      · rfl
      · rw [renderElems, List.nil_append, skip_newline, skip_cons (by decide)]
    | y :: ys =>
      obtain ⟨w, e, hw⟩ := renderElems_cons (F := F) (o := o) lvl y ys
        (newline o lvl' ++ cp ']' :: r)
      obtain ⟨c, t, ec, hc⟩ := elemsText_start (F := F) (o := o) lvl y ys
        (newline o lvl' ++ cp ']' :: r)
      rw [elems_more hv (by rw [e]; exact skip_cons (by decide)), skip_spaces hw, ec,
        skip_cons hc.1, ← ec, elems_render (y :: ys) (by simp) hd.2 hi.2 hn.2, List.append_assoc]
      rfl
theorem members_render : ∀ (kvs : Dict) {lvl lvl' n d : Nat} {acc : Dict} {r : Str},
    kvs ≠ [] → Json.depthFields kvs ≤ d → intsOkFields kvs = true → needFields kvs ≤ n →
    members F n d acc (membersText F o lvl kvs ++ (newline o lvl' ++ cp '}' :: r)) =
      .ok (.obj ((normFields kvs).foldl (fun (d : Dict) p => d.set p.1 p.2) acc), r)
  | (k, x) :: kvs, lvl, lvl', n + 1, d, acc, r, _, hd, hi, hn => by
    simp only [Json.depthFields, Nat.max_le] at hd
    simp only [intsOkFields, Bool.and_eq_true] at hi
    simp only [needFields, Nat.add_le_add_iff_right, Nat.max_le] at hn
    have hv := value_render x lvl hd.1 hi.1 hn.1
      (follow_members (F := F) (o := o) lvl lvl' kvs r)
    have hs := skip_render (F := F) (o := o) lvl x
      (renderMembers F o lvl kvs ++ (newline o lvl' ++ cp '}' :: r))
    rw [membersText]
    simp only [List.append_assoc]
    match kvs with
    | [] =>
      rw [members_last hs hv]
      · rfl
      · rw [renderMembers, List.nil_append, skip_newline, skip_cons (by decide)]
    | p :: ps =>
      obtain ⟨w, e, hw⟩ := renderMembers_cons (F := F) (o := o) lvl p ps
        (newline o lvl' ++ cp '}' :: r)
      have ec : ∃ t, membersText F o lvl (p :: ps) ++ (newline o lvl' ++ cp '}' :: r) =
          cp '"' :: t := ⟨_, rfl⟩
      obtain ⟨t, ec⟩ := ec
      rw [members_more hs hv (by rw [e]; exact skip_cons (by decide)), skip_spaces hw, ec,
        skip_cons (by decide), ← ec, members_render (p :: ps) (by simp) hd.2 hi.2 hn.2]
      rfl
end

/-- A text of `dumps` is read back as the value's `norm`, if the decoder admits its depth. -/
theorem loads_dumps {v : Json} {t : Str} {limit : Nat} (h : dumps F o v = .ok t)
    (hl : v.depth ≤ limit) (hi : intsOk v = true) :
    loads F limit t = .ok (norm (if o.sortKeys then v.sortKeys else v)) := by
  generalize hv : (if o.sortKeys then v.sortKeys else v) = v'
  have hd : v'.depth = v.depth := by
    rw [← hv]; split
    · exact Json.depth_sortKeys v
    · rfl
  have hi' : intsOk v' = true := by
    rw [← hv]; split
    · rw [intsOk_sortKeys, hi]
    · exact hi
  rw [dumps_of_intsOk hi, hv] at h
  split at h
  · cases h
    have hr := value_render (F := F) (o := o) v' 0
      (n := max (need v') (2 * (render F o 0 v').length + 1)) (d := limit) (hd ▸ hl) hi'
      (le_max_left _ _) follow_nil
    have hs := skip_render (F := F) (o := o) 0 v' []
    rw [List.append_nil] at hr hs
    rw [loads_eq limit (le_max_right (need v') _), hs, hr]
    rfl
  · cases h

end

/-! ## Keys -/

/-- A key without surrogates or characters above the BMP: `norm` does not see it. -/
def plain (k : Str) : Prop := ∀ c ∈ k, c.val < 0xD800

theorem plain_lit {s : String} (h : s.toList.all (fun c => c.toNat < 0xD800) = true) :
    plain (lit s) := by
  intro c hc
  obtain ⟨d, hd, rfl⟩ := List.mem_map.mp hc
  exact of_decide_eq_true (List.all_eq_true.mp h d hd)

theorem normStr_eq_plain {s k : Str} (hk : plain k) : normStr s = k ↔ s = k := by
  induction s using normStr.induct generalizing k with
  | case1 => rfl
  | case2 c => rfl
  | case3 h l t hp ih =>
    rw [normStr, if_pos hp]
    simp only [isHigh, isLow, Bool.and_eq_true, decide_eq_true_eq] at hp
    constructor <;> rintro rfl
    · have := hk (point (joinPair h.val l.val)) (by simp)
      unfold joinPair at this
      rw [point_val (by omega)] at this
      omega
    · have := hk h (by simp)
      omega
  | case4 h l t hp ih =>
    rw [normStr, if_neg hp]
    cases k with
    | nil => simp
    | cons c k =>
      rw [List.cons.injEq, List.cons.injEq, ih fun x hx => hk x (by simp [hx])]

theorem get?_normFields {kvs : Dict} (h : kvs.Ok) (acc : Dict) {k : Str} (hk : plain k) :
    Dict.get? ((normFields kvs).foldl (fun d p => d.set p.1 p.2) acc) k =
      if k ∈ Assoc.keys kvs then (kvs.get? k).map norm else acc.get? k := by
  induction kvs generalizing acc with
  | nil => rfl
  | cons p kvs ih =>
    obtain ⟨j, v⟩ := p
    rw [Dict.Ok, Assoc.keys_cons, List.nodup_cons] at h
    rw [normFields, List.foldl_cons, ih h.2, Dict.get?_cons]
    simp only [Assoc.keys_cons, List.mem_cons]
    by_cases hj : j = k
    · subst hj
      rw [if_neg h.1]
      simp only [true_or, ↓reduceIte, Option.map_some]
      unfold Dict.get? Dict.set
      rw [Assoc.get?_set, if_pos ((normStr_eq_plain hk).mpr rfl)]
    · have hj' : normStr j ≠ k := fun e => hj ((normStr_eq_plain hk).mp e)
      have hset : Dict.get? (acc.set (normStr j) (norm v)) k = acc.get? k := by
        unfold Dict.get? Dict.set
        rw [Assoc.get?_set, if_neg hj']
      simp only [hset, Ne.symm hj, hj, false_or, ↓reduceIte]

/-- `norm` keeps what a plain key leads to. -/
theorem get?_norm {kvs : Dict} (h : kvs.Ok) {k : Str} (hk : plain k) :
    Dict.get? (Dict.ofPairs (normFields kvs)) k = (kvs.get? k).map norm := by
  unfold Dict.ofPairs
  rw [get?_normFields h [] hk]
  split
  · rfl
  · rename_i hm
    have hn : kvs.get? k = none := by
      unfold Dict.get?
      rwa [Assoc.mem_keys, Option.not_isSome_iff_eq_none] at hm
    rw [hn]
    rfl

/-! ## ASCII -/

/-- Every character is ASCII and not NUL. -/
def Ascii (s : Str) : Prop := ∀ c ∈ s, isAscii c

theorem Ascii.append {s t : Str} (hs : Ascii s) (ht : Ascii t) : Ascii (s ++ t) :=
  List.forall_mem_append.mpr ⟨hs, ht⟩

theorem Ascii.cons {c : CodePoint} {s : Str} (hc : isAscii c) (hs : Ascii s) : Ascii (c :: s) :=
  List.forall_mem_cons.mpr ⟨hc, hs⟩

theorem Ascii.nil : Ascii [] := fun _ h => by cases h

instance (c : CodePoint) : Decidable (isAscii c) := inferInstanceAs (Decidable (_ ∧ _))

theorem ascii_escape4 (n : Nat) : Ascii (escape4 n) := by
  have hx : ∀ k < 16, isAscii (hexDigit k) := by decide
  unfold escape4
  refine .cons (by decide) (.cons (by decide) (.cons ?_ (.cons ?_ (.cons ?_ (.cons ?_ .nil)))))
  all_goals exact hx _ (Nat.mod_lt _ (by decide))

theorem ascii_escape (c : CodePoint) : Ascii (escape c) := by
  unfold escape
  split
  · exact .cons (by decide) (.cons (by decide) .nil)
  split
  · exact .cons (by decide) (.cons (by decide) .nil)
  split
  · exact .cons (by decide) (.cons (by decide) .nil)
  split
  · exact .cons (by decide) (.cons (by decide) .nil)
  split
  · exact .cons (by decide) (.cons (by decide) .nil)
  split
  · exact .cons (by decide) (.cons (by decide) .nil)
  split
  · exact .cons (by decide) (.cons (by decide) .nil)
  split
  · rename_i h
    exact .cons ⟨by omega, by omega⟩ .nil
  split
  · exact ascii_escape4 _
  · exact (ascii_escape4 _).append (ascii_escape4 _)

theorem ascii_quote (s : Str) : Ascii (quote s) := by
  refine .cons (by decide) (.append ?_ (.cons (by decide) .nil))
  intro c hc
  obtain ⟨x, -, hx⟩ := List.mem_flatMap.mp hc
  exact ascii_escape x c hx

theorem ascii_lit {s : String} (h : s.toList.all (fun c => 0 < c.toNat && c.toNat < 128) = true) :
    Ascii (lit s) := by
  intro x hx
  obtain ⟨c, hc, rfl⟩ := List.mem_map.mp hx
  have := List.all_eq_true.mp h c hc
  simpa [isAscii, cp] using this

theorem ascii_textChars : Ascii textChars := ascii_lit (by decide)

section
variable {F : FloatText} {o : DumpOpts}

/-- A text of `dumps` is ASCII. -/
theorem ascii_dumps {v : Json} {t : Str} (h : dumps F o v = .ok t) : Ascii t := by
  unfold dumps at h
  simp only at h
  split at h
  · cases h
  · cases h; exact render_chars F o ascii_textChars 0 _ fun s _ => ascii_quote s

/-- The encoded text is read back as the text is. -/
theorem loadsBytes_dumps {v : Json} {t : Str} {b : Bytes} {limit : Nat} (h : dumps F o v = .ok t)
    (hb : encodeUtf8 t = some b) (hl : v.depth ≤ limit) (hi : intsOk v = true) :
    loadsBytes F limit b = .ok (norm (if o.sortKeys then v.sortKeys else v)) := by
  rw [loadsBytes, decode_encodeUtf8 (ascii_dumps h) hb]
  exact loads_dumps h hl hi

end

end Py
