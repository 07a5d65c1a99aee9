import Music3.Lib.Rounding
import Music3.Py.LoadsOk
import Music3.Py.RoundTrip
import Mathlib.Algebra.Order.Field.Rat
import Mathlib.Data.List.DropRight
import Mathlib.Data.List.Induction
import Mathlib.Tactic.NormNum
import Mathlib.Tactic.Positivity

/-!
# The seed that is typed and the seed that is sent

`validateSeed` takes the text of the form's field as a number, and `submit()` writes that number into
the JSON body. On the way the digits are rounded to a significand of 53 bits (`toNumber`), and the
number is written as its shortest decimal (`numberText`).

`seed_sent`: the number sent is the number typed exactly if that is its own shortest decimal,
`Rounding.Shortest`, which is so of every number below `2 ^ 53` (`seed_sent_small`).
`seed_not_sent` is a run with another one. A seed that was sent and is put back into the form is sent
again as it was (`rerun_same`), so it is the first submission that changes it.
-/

namespace Music3

open Py Rounding

/-! ## Reading the field -/

/-- White space and line terminators of ECMAScript. -/
def isBlank (c : CodePoint) : Bool :=
  [0x9, 0xA, 0xB, 0xC, 0xD, 0x20, 0xA0, 0x1680, 0x2028, 0x2029, 0x202F, 0x205F, 0x3000,
    0xFEFF].contains c.val || (0x2000 ≤ c.val && c.val ≤ 0x200A)

/-- `s.trim()`. -/
def trim (s : Str) : Str := (s.dropWhile isBlank).rdropWhile isBlank

/-- `Number(s)` of a string of digits with the value `n`; `none` is `Infinity`. -/
def toNumber (n : Nat) : Option Nat := if round 52 n < 2 ^ 1024 then some (round 52 n) else none

/-- `parseWholeNumber`. `Number.isInteger` is false of `Infinity` alone; `-0` is `0` here, as it is
in a comparison with 0 and in JSON. -/
def parseWholeNumber (raw : Str) : Option Int :=
  let s := scanSign (trim raw)
  if s.2 ≠ [] ∧ s.2.all isDigit then
    (toNumber (natOf s.2)).map fun n => if s.1 = [] then (n : Int) else -n
  else none

/-- `validateSeed`: the value, or the message. -/
def validateSeed (raw : Str) : Except Str Nat :=
  match parseWholeNumber raw with
  | some (.ofNat n) => .ok n
  | _ => .error (lit "seed must be a whole number ≥ 0 (got \"" ++ raw ++ lit "\")")

/-- The integer that a text `-?\d+` denotes, blanks around it aside. -/
def denoted (raw : Str) : Int :=
  let s := scanSign (trim raw)
  if s.1 = [] then (natOf s.2 : Int) else -(natOf s.2 : Int)

/-! ## Writing the number -/

/-- `JSON.stringify` of a whole number: its digits, or scientific notation from 22 digits on. -/
def numberText (v : Nat) : Str :=
  if v = 0 then lit "0" else
  let c := shortest 52 v
  let s := natText (c.1 / 10 ^ c.2)
  let n := s.length + c.2
  if n ≤ 21 then s ++ List.replicate c.2 (cp '0')
  else s.take 1 ++ (if s.length = 1 then [] else cp '.' :: s.drop 1) ++ lit "e+" ++ natText (n - 1)

/-- The text that `rerunFromSidecar` puts into the form. -/
def rerunSeed (seed : Option Nat) : Str :=
  match seed with
  | some v => numberText v
  | none => lit "0"

/-- The exponent after `e`. -/
def exponentOf : Str → Int
  | _ :: c :: ds =>
    if c = cp '+' then natOf ds else if c = cp '-' then -(natOf ds : Int) else natOf (c :: ds)
  | _ => 0

/-- The number that the text of a JSON number denotes. -/
def numberValue (t : Str) : ℚ :=
  let s := scanSign t
  let i := spanDigits s.2
  let f := scanFrac i.2
  let x := scanExp f.2
  let m : ℚ := natOf (i.1 ++ f.1.drop 1) * 10 ^ exponentOf x.1 / 10 ^ (f.1.length - 1)
  if s.1 = [] then m else -m

/-! ## What is written, read back -/

theorem natOf_append (s t : Str) : natOf (s ++ t) = natOf s * 10 ^ t.length + natOf t := by
  induction t using List.reverseRecOn with
  | nil => simp [natOf]
  | append_singleton t c ih =>
    rw [← List.append_assoc, natOf_concat, natOf_concat, ih, List.length_append,
      List.length_singleton, pow_succ]
    ring

theorem natOf_zeros (k : Nat) : natOf (List.replicate k (cp '0')) = 0 := by
  induction k with
  | zero => rfl
  | succ k ih =>
    rw [List.replicate_succ', natOf_append, ih]
    rfl

theorem natText_ne_nil (n : Nat) : natText n ≠ [] := by
  obtain ⟨c, t, h, -⟩ := (natText_isIntBody n).head
  rw [h]
  exact List.cons_ne_nil c t

theorem digit_ne_minus {c : CodePoint} (h : isDigit c = true) : c ≠ cp '-' := by
  rintro rfl
  exact absurd h (by decide)

theorem scanSign_digits {s : Str} (h : ∀ c ∈ s, isDigit c = true) : scanSign s = ([], s) :=
  scanSign_none fun c _ e => digit_ne_minus (h c (e ▸ List.mem_cons_self))

theorem spanDigits_all {s : Str} (h : ∀ c ∈ s, isDigit c = true) : spanDigits s = (s, []) := by
  have := spanDigits_append h (r := []) (by simp)
  rwa [List.append_nil] at this

theorem numberValue_eq {t r : Str} {s i f x : Str × Str} (hs : scanSign t = s)
    (hi : spanDigits s.2 = i) (hf : scanFrac i.2 = f) (hx : scanExp f.2 = x) (hr : s.1 = r) :
    numberValue t =
      let m : ℚ := natOf (i.1 ++ f.1.drop 1) * 10 ^ exponentOf x.1 / 10 ^ (f.1.length - 1)
      if r = [] then m else -m := by
  subst hs hi hf hx hr
  rfl

/-- Digits alone. -/
theorem numberValue_digits {s : Str} (h : ∀ c ∈ s, isDigit c = true) :
    numberValue s = natOf s := by
  simp [numberValue, scanSign_digits h, spanDigits_all h, scanFrac, scanExp, exponentOf]

theorem scanExp_plus (x : Nat) :
    scanExp (lit "e+" ++ natText x) = (lit "e+" ++ natText x, []) := by
  change scanExp (cp 'e' :: cp '+' :: natText x) = _
  rw [scanExp, if_pos (Or.inl rfl), if_pos (Or.inl rfl), spanDigits_all (natText_digits x),
    if_pos (natText_ne_nil x)]
  rfl

theorem exponentOf_plus (x : Nat) : exponentOf (lit "e+" ++ natText x) = x := by
  change exponentOf (cp 'e' :: cp '+' :: natText x) = _
  rw [exponentOf, if_pos rfl, natOf_natText]

/-- Scientific notation. -/
theorem numberValue_scientific {s : Str} (h : ∀ c ∈ s, isDigit c = true) (hne : s ≠ []) (x : Nat) :
    numberValue (s.take 1 ++ (if s.length = 1 then [] else cp '.' :: s.drop 1) ++ lit "e+" ++
      natText x) = natOf s * 10 ^ x / 10 ^ (s.length - 1) := by
  obtain ⟨d, t, rfl⟩ := List.exists_cons_of_ne_nil hne
  have hd : isDigit d = true := h d List.mem_cons_self
  have ht : ∀ c ∈ t, isDigit c = true := fun c hc => h c (List.mem_cons_of_mem d hc)
  have hexp := scanExp_plus x
  have hval := exponentOf_plus x
  have hint {r : Str} (hr : ∀ c u, r = c :: u → isDigit c = false) :
      spanDigits ([d] ++ r) = ([d], r) := spanDigits_append (by simpa using hd) hr
  have hsign (r : Str) : scanSign (d :: r) = ([], d :: r) := by
    rw [scanSign, if_neg (digit_ne_minus hd)]
  have hafter : ∀ c u, lit "e+" ++ natText x = c :: u → isDigit c = false ∧ c ≠ cp '.' := by
    intro c u e
    obtain rfl : cp 'e' = c := (List.cons.inj e).1
    decide
  rcases eq_or_ne t [] with rfl | htne
  · have hfrac : scanFrac (lit "e+" ++ natText x) = ([], lit "e+" ++ natText x) :=
      scanFrac_none fun c u e => (hafter c u e).2
    have hdigits := hint fun c u e => (hafter c u e).1
    refine (numberValue_eq (hsign _) hdigits hfrac hexp rfl).trans ?_
    simp [hval]
  · have hlen : (d :: t).length ≠ 1 := by simpa using htne
    have hfrac : scanFrac (cp '.' :: (t ++ (lit "e+" ++ natText x))) =
        (cp '.' :: t, lit "e+" ++ natText x) := by
      have hspan := spanDigits_append ht fun c u e => (hafter c u e).1
      rw [scanFrac, hspan, if_pos ⟨rfl, htne⟩]
    have hdigits : spanDigits (d :: cp '.' :: (t ++ (lit "e+" ++ natText x))) =
        ([d], cp '.' :: (t ++ (lit "e+" ++ natText x))) := by
      refine hint fun c u e => ?_
      obtain rfl : cp '.' = c := (List.cons.inj e).1
      decide
    rw [if_neg hlen, List.append_assoc, List.append_assoc]
    refine (numberValue_eq (hsign _) hdigits hfrac hexp rfl).trans ?_
    simp [hval]

/-- The digits of the shortest decimal and its zeros. -/
theorem natOf_digits_zeros {c : Nat × Nat} (h : 10 ^ c.2 ∣ c.1) :
    natOf (natText (c.1 / 10 ^ c.2) ++ List.replicate c.2 (cp '0')) = c.1 := by
  rw [natOf_append, natOf_natText, natOf_zeros, List.length_replicate, Nat.add_zero,
    Nat.div_mul_cancel h]

theorem digits_zeros (n k : Nat) :
    ∀ d ∈ natText n ++ List.replicate k (cp '0'), isDigit d = true := by
  intro d hd
  rcases List.mem_append.mp hd with hd | hd
  · exact natText_digits n d hd
  · rw [List.eq_of_mem_replicate hd]
    decide

theorem shortest_zero : (shortest 52 0).1 = 0 := by decide +kernel

/-- The text denotes the shortest decimal. -/
theorem numberValue_numberText {v : Nat} (hv : round 52 v = v) :
    numberValue (numberText v) = (shortest 52 v).1 := by
  have hdvd := (shortest_closest hv).dvd
  unfold numberText
  split
  · rename_i h0
    subst h0
    rw [shortest_zero]
    exact numberValue_digits (natText_digits 0)
  · simp only []
    generalize shortest 52 v = c at hdvd ⊢
    split
    · rw [numberValue_digits (digits_zeros _ _), natOf_digits_zeros hdvd]
    · have hcancel : c.1 / 10 ^ c.2 * 10 ^ c.2 = c.1 := Nat.div_mul_cancel hdvd
      have hne := natText_ne_nil (c.1 / 10 ^ c.2)
      have hlen := List.length_pos_iff.mpr hne
      have hexp : (natText (c.1 / 10 ^ c.2)).length + c.2 - 1 =
          c.2 + ((natText (c.1 / 10 ^ c.2)).length - 1) := by omega
      rw [numberValue_scientific (natText_digits _) hne, natOf_natText, hexp, pow_add, ← mul_assoc,
        mul_div_assoc, div_self (by positivity), mul_one]
      exact_mod_cast hcancel

/-- No number that rounds to `v` can be written with fewer digits before its zeros. -/
theorem numberText_fewest {v M e : Nat} (hv : round 52 v = v) (h0 : v ≠ 0) (hM : 10 ^ e ∣ M)
    (hMv : round 52 M = v) :
    (natText ((shortest 52 v).1 / 10 ^ (shortest 52 v).2)).length ≤ (natText (M / 10 ^ e)).length := by
  refine natText_length_le (List.length_pos_iff.mpr (natText_ne_nil _)) ?_
  refine digits_shortest hv h0 hM hMv ?_
  have := natOf_lt (natText_digits (M / 10 ^ e))
  rwa [natOf_natText] at this

/-! ## The seed sent -/

theorem validateSeed_ok {raw : Str} {v : Nat} (h : validateSeed raw = .ok v) :
    ∃ n : Nat, denoted raw = n ∧ v = round 52 n := by
  unfold validateSeed at h
  split at h
  · rename_i w hw
    obtain rfl := Except.ok.inj h
    unfold parseWholeNumber toNumber at hw
    unfold denoted
    simp only at hw ⊢
    split at hw
    · obtain ⟨n, hn, he⟩ := Option.map_eq_some_iff.mp hw
      refine ⟨natOf (scanSign (trim raw)).2, ?_⟩
      split at hn
      · obtain rfl := Option.some.inj hn
        split at he
        · rename_i hs
          rw [if_pos hs]
          exact ⟨rfl, by simpa using he.symm⟩
        · -- the only accepted negative is zero
          rename_i hs
          have hz : round 52 (natOf (scanSign (trim raw)).2) = 0 := by
            simp only [Int.ofNat_eq_natCast] at he
            omega
          rw [if_neg hs, round_eq_zero.mp hz]
          simp only [Int.ofNat_eq_natCast] at he
          exact ⟨rfl, by simp; omega⟩
      · cases hn
    · cases hw
  · cases h

theorem numberValue_round (n : Nat) :
    numberValue (numberText (round 52 n)) = (n : Int) ↔ Shortest 52 n := by
  rw [numberValue_numberText (round_round 52 n), ← shortest_round_iff]
  exact_mod_cast Iff.rfl

/-- The number sent is the number typed exactly if that is its own shortest decimal (module doc). -/
theorem seed_sent (raw : Str) (v : Nat) (h : validateSeed raw = .ok v) :
    numberValue (numberText v) = denoted raw ↔ Shortest 52 (denoted raw).toNat := by
  obtain ⟨n, hn, rfl⟩ := validateSeed_ok h
  rw [hn, Int.toNat_natCast]
  exact numberValue_round n

/-- `42` between blanks is sent as it is. Of the integers that are rounded to `2 ^ 60`, the one that ends
with the most zeros is, and `2 ^ 60` itself is not. -/
theorem seed_sent_forty_two : numberValue (numberText 42) = denoted (lit " 42 ") ∧
    numberValue (numberText (2 ^ 60)) = denoted (lit "1152921504606847000") ∧
    numberValue (numberText (2 ^ 60)) ≠ denoted (lit "1152921504606846976") := by
  refine ⟨(seed_sent (lit " 42 ") 42 (by decide +kernel)).mpr (Shortest.of_lt (by decide +kernel)),
    ?_, ?_⟩
  · refine (seed_sent (lit "1152921504606847000") (2 ^ 60) (by decide +kernel)).mpr ?_
    exact shortest_round_iff.mp (by decide +kernel)
  · refine (seed_sent (lit "1152921504606846976") (2 ^ 60) (by decide +kernel)).not.mpr ?_
    exact shortest_round_iff.not.mp (by decide +kernel)

/-- `9007199254740993` is sent as `9007199254740992`. -/
theorem seed_not_sent :
    ¬ ∀ raw v, validateSeed raw = .ok v → numberValue (numberText v) = denoted raw := by
  intro h
  have hsent := h (lit "9007199254740993") 9007199254740992 (by decide +kernel)
  have hden : denoted (lit "9007199254740993") = 9007199254740993 := by decide +kernel
  have hshort : (shortest 52 9007199254740992).1 = 9007199254740992 := by decide +kernel
  rw [numberValue_numberText (by decide +kernel), hden, hshort] at hsent
  norm_num at hsent

/-- A seed below `2 ^ 53` is sent as it is. -/
theorem seed_sent_small {raw : Str} {v : Nat} (h : validateSeed raw = .ok v)
    (hlt : denoted raw < 2 ^ 53) : numberValue (numberText v) = denoted raw := by
  obtain ⟨n, hn, rfl⟩ := validateSeed_ok h
  rw [hn] at hlt ⊢
  exact (numberValue_round n).mpr (Shortest.of_lt (by exact_mod_cast hlt))

/-! ## Running a seed again -/

theorem isBlank_digit {c : CodePoint} (h : isDigit c = true) : isBlank c = false := by
  simp only [isDigit, Bool.and_eq_true, decide_eq_true_eq, Fin.le_def] at h
  have h0 : (cp '0').val = 48 := rfl
  have h9 : (cp '9').val = 57 := rfl
  simp only [isBlank, List.contains_eq_mem, List.mem_cons, List.not_mem_nil, Bool.or_eq_false_iff,
    Bool.and_eq_false_iff, decide_eq_false_iff_not, or_false]
  constructor
  · omega
  · omega

theorem trim_digits {s : Str} (h : ∀ c ∈ s, isDigit c = true) : trim s = s := by
  have hkeep : s.dropWhile isBlank = s :=
    List.dropWhile_eq_self_iff.mpr fun hl => by simp [isBlank_digit (h _ (List.getElem_mem hl))]
  rw [trim, hkeep]
  refine List.rdropWhile_eq_self_iff.mpr fun hl => ?_
  simp [isBlank_digit (h _ (List.getLast_mem hl))]

theorem parseWholeNumber_digits {s : Str} {v : Nat} (h : ∀ c ∈ s, isDigit c = true) (hne : s ≠ [])
    (hs : toNumber (natOf s) = some v) : parseWholeNumber s = some (.ofNat v) := by
  simp only [parseWholeNumber, trim_digits h, scanSign_digits h]
  rw [if_pos ⟨hne, List.all_eq_true.mpr h⟩, hs]
  rfl

/-- Digits are accepted, as the number they round to. -/
theorem validateSeed_digits {s : Str} {v : Nat} (h : ∀ c ∈ s, isDigit c = true) (hne : s ≠ [])
    (hs : toNumber (natOf s) = some v) : validateSeed s = .ok v := by
  rw [validateSeed, parseWholeNumber_digits h hne hs]

/-- Up to 21 digits, the text is the digits of the shortest decimal. -/
theorem numberText_plain {v : Nat} (hv : round 52 v = v) (hlt : (shortest 52 v).1 < 10 ^ 21) :
    (∀ c ∈ numberText v, isDigit c = true) ∧ numberText v ≠ [] ∧
      natOf (numberText v) = (shortest 52 v).1 := by
  rcases eq_or_ne v 0 with rfl | h0
  · rw [shortest_zero]
    exact ⟨natText_digits 0, natText_ne_nil 0, rfl⟩
  have hdvd := (shortest_closest hv).dvd
  have hc := ne_zero_of_round (shortest_closest hv).back h0
  unfold numberText
  rw [if_neg h0]
  simp only []
  generalize shortest 52 v = c at hdvd hc hlt ⊢
  have hzeros : c.2 < 21 := by
    have hle : 10 ^ c.2 ≤ c.1 := Nat.le_of_dvd (Nat.pos_of_ne_zero hc) hdvd
    exact (Nat.pow_lt_pow_iff_right (by omega)).mp (hle.trans_lt hlt)
  have hlen : (natText (c.1 / 10 ^ c.2)).length ≤ 21 - c.2 := by
    refine natText_length_le (by omega) ?_
    rw [Nat.div_lt_iff_lt_mul (Nat.pow_pos (by omega)), ← Nat.pow_add]
    rwa [Nat.sub_add_cancel hzeros.le]
  rw [if_pos (by omega)]
  exact ⟨digits_zeros _ _, List.append_ne_nil_of_left_ne_nil (natText_ne_nil _) _,
    natOf_digits_zeros hdvd⟩

/-- A seed of up to 21 digits that was sent, put back into the form, is sent again as it was. -/
theorem rerun_same {raw : Str} {v : Nat} (h : validateSeed raw = .ok v)
    (hlt : (shortest 52 v).1 < 10 ^ 21) : validateSeed (rerunSeed (some v)) = .ok v := by
  obtain ⟨n, -, hn⟩ := validateSeed_ok h
  have hv : round 52 v = v := by rw [hn, round_round]
  obtain ⟨hdigits, hne, hval⟩ := numberText_plain hv hlt
  change validateSeed (numberText v) = .ok v
  refine validateSeed_digits hdigits hne ?_
  have hback := (shortest_closest hv).back
  have hle := hback ▸ round_le_two_mul 52 (shortest 52 v).1
  rw [hval, toNumber, hback, if_pos (by omega)]

end Music3
