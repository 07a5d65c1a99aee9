import Music3.Page.Seed
import Music3.Py.Same
import Music3.Py.Utf8

/-!
# What the page writes as JSON

`JSON.stringify` of an object whose members are strings and whole numbers, as `submit()` sends it,
and what `json.loads` reads from its bytes. A string of the page is a list of code points, in which
a surrogate that is not of a pair stands alone; `JSON.stringify` escapes it, so the text always has
UTF-8 bytes.

`load_stringify`: a string is read back as it was written, and a number as its shortest decimal: an
`int`, or from `10 ^ 21` on, where it is written with an exponent, the `float` of that text.
-/

namespace Music3

open Py Rounding

/-! ## `JSON.stringify` -/

/-- The text of one code point inside a string. The escapes are those of `json.dumps`, but only
control characters and surrogates have one besides the quote and the backslash. -/
def jsEscape (c : CodePoint) : Str :=
  if c = cp '"' ∨ c = cp '\\' ∨ c.val < 0x20 then escape c
  else if isSurrogate c.val then escape4 c.val
  else [c]

/-- `JSON.stringify(s)`. -/
def jsQuote (s : Str) : Str := cp '"' :: (s.flatMap jsEscape ++ [cp '"'])

/-- The value of a member. -/
inductive JsValue where
  | text (s : Str)
  | whole (v : Nat)

def JsValue.stringify : JsValue → Str
  | text s => jsQuote s
  | whole v => numberText v

def stringifyMembers : List (Str × JsValue) → Str
  | [] => []
  | [(k, v)] => jsQuote k ++ cp ':' :: v.stringify
  | (k, v) :: p :: ms => jsQuote k ++ cp ':' :: (v.stringify ++ cp ',' :: stringifyMembers (p :: ms))

/-- `JSON.stringify` of an object. -/
def stringify (members : List (Str × JsValue)) : Str :=
  cp '\x7b' :: (stringifyMembers members ++ [cp '\x7d'])

/-- What `json.loads` makes of a value. -/
def JsValue.json : JsValue → FloatText → Json
  | text s, _ => .str (normStr s)
  | whole v, F =>
    if (shortest 52 v).1 < 10 ^ 21 then .int (shortest 52 v).1 else .float (F.ofText (numberText v))

/-- The numbers are doubles. -/
def JsValue.Double : JsValue → Prop
  | text _ => True
  | whole v => round 52 v = v

/-! ## Strings -/

/-- The unit that the text of a code point is scanned into. -/
def jsUnit (c : CodePoint) : StrUnit :=
  if c = cp '"' ∨ c = cp '\\' ∨ c.val < 0x20 then
    if isPlain c then .raw c else .esc c.val
  else if isSurrogate c.val then .esc c.val
  else .raw c

theorem scanUnits_jsEscape (c : CodePoint) (t : Str) :
    scanUnits (jsEscape c ++ t) = (scanUnits t).map (prepend [jsUnit c]) := by
  unfold jsEscape jsUnit
  split
  · rename_i h
    rw [scanUnits_escape, units]
    split
    · rfl
    · rename_i hp
      have hc : c.val < 0x10000 := by
        rcases h with rfl | rfl | h
        · decide
        · decide
        · omega
      rw [if_pos hc]
  · rename_i h
    simp only [not_or, Nat.not_lt] at h
    split
    · rename_i hs
      simp only [isSurrogate, Bool.and_eq_true, decide_eq_true_eq] at hs
      exact scanUnits_escape4 (by omega) t
    · exact scanUnits_raw h.1 h.2.1 h.2.2 t

theorem scanUnits_jsText (s r : Str) :
    scanUnits (s.flatMap jsEscape ++ cp '"' :: r) = some (s.map jsUnit, r) := by
  induction s with
  | nil =>
    rw [List.flatMap_nil, List.nil_append, scanUnits.eq_def]
    rfl
  | cons c s ih =>
    rw [List.flatMap_cons, List.append_assoc, scanUnits_jsEscape, ih]
    rfl

theorem jsUnit_cases (c : CodePoint) : jsUnit c = .raw c ∨ jsUnit c = .esc c.val := by
  unfold jsUnit
  split
  · split <;> simp
  · split <;> simp

theorem jsUnit_surrogate {c : CodePoint} (h : isSurrogate c.val = true) :
    jsUnit c = .esc c.val := by
  have hrange := h
  simp only [isSurrogate, Bool.and_eq_true, decide_eq_true_eq] at hrange
  have hq : c ≠ cp '"' := by
    rintro rfl
    exact absurd h (by decide)
  have hb : c ≠ cp '\\' := by
    rintro rfl
    exact absurd h (by decide)
  have hlow : ¬ c.val < 0x20 := by omega
  rw [jsUnit, if_neg (by simp [hq, hb, hlow]), if_pos h]

theorem isSurrogate_of_high {n : Nat} (h : isHigh n = true) : isSurrogate n = true := by
  simp only [isHigh, isSurrogate, Bool.and_eq_true, decide_eq_true_eq] at h ⊢
  omega

theorem isSurrogate_of_low {n : Nat} (h : isLow n = true) : isSurrogate n = true := by
  simp only [isLow, isSurrogate, Bool.and_eq_true, decide_eq_true_eq] at h ⊢
  omega

/-- Two code points are joined only if they are the halves of a pair. -/
theorem joinEscapes_map (s : Str) : joinEscapes (s.map jsUnit) = normStr s := by
  induction s using normStr.induct with
  | case1 => rfl
  | case2 c =>
    rcases jsUnit_cases c with h | h <;> simp [h, joinEscapes, normStr, point_self]
  | case3 h l t hp ih =>
    rw [normStr, if_pos hp, ← ih]
    rw [Bool.and_eq_true] at hp
    rw [List.map_cons, List.map_cons, jsUnit_surrogate (isSurrogate_of_high hp.1),
      jsUnit_surrogate (isSurrogate_of_low hp.2)]
    exact joinEscapes_pair hp.1 hp.2 _
  | case4 h l t hp ih =>
    rw [normStr, if_neg hp, ← ih, List.map_cons]
    rcases jsUnit_cases h with hu | hu
    · rw [hu, joinEscapes_raw]
    · rw [hu, joinEscapes_esc, point_self]
      intro l' r e
      rw [List.map_cons, List.cons.injEq] at e
      rcases jsUnit_cases l with hl | hl
      · rw [hl] at e
        cases e.1
      · rw [hl, StrUnit.esc.injEq] at e
        rw [← e.1]
        simpa using hp

theorem scanString_jsQuote (s r : Str) :
    scanString (s.flatMap jsEscape ++ cp '"' :: r) = .ok (normStr s, r) := by
  rw [scanString, scanUnits_jsText]
  simp only [joinEscapes_map]

/-! ## Numbers -/

/-- A text of digits, and what a number cannot go on with. -/
theorem scanNumber_digits (F : FloatText) {i r : Str} (hi : IsIntBody i)
    (hlen : i.length ≤ maxStrDigits) (hr : Follow r) :
    scanNumber F (i ++ r) = .ok (.int (natOf i), r) := by
  obtain ⟨c, t, hc, hdigit⟩ := hi.head
  have hsign : scanSign (i ++ r) = ([], i ++ r) := by
    refine scanSign_none fun d u e => ?_
    rw [hc, List.cons_append, List.cons.injEq] at e
    exact e.1 ▸ digit_ne_minus hdigit
  unfold scanNumber
  simp only [hsign, scanInt_append hi hr.not_digit, scanFrac_none fun c t e => (hr c t e).2.1,
    scanExp_none fun c t e => (hr c t e).2.2, Nat.not_lt.mpr hlen, and_self, ↓reduceIte]

theorem natText_head {n : Nat} (h : n ≠ 0) :
    ∃ c t, natText n = c :: t ∧ cp '1' ≤ c ∧ c ≤ cp '9' ∧ ∀ d ∈ t, isDigit d = true := by
  rcases natText_isIntBody n with h0 | h0
  · have hval := natOf_natText n
    rw [h0] at hval
    exact absurd hval.symm h
  · exact h0

/-- Up to 21 digits, a number that is not zero is written as digits and zeros. -/
theorem numberText_split {v : Nat} (hv : round 52 v = v) (h0 : v ≠ 0)
    (hlt : (shortest 52 v).1 < 10 ^ 21) : ∃ q e, q ≠ 0 ∧ (natText q).length + e ≤ 21 ∧
      numberText v = natText q ++ List.replicate e (cp '0') := by
  have hdvd := (shortest_closest hv).dvd
  have hc := ne_zero_of_round (shortest_closest hv).back h0
  have hplain := (numberText_plain hv hlt).1
  unfold numberText at hplain ⊢
  rw [if_neg h0] at hplain ⊢
  simp only [] at hplain ⊢
  generalize shortest 52 v = c at hdvd hc hplain ⊢
  split at hplain
  · rename_i hle
    refine ⟨_, _, fun hz => hc ?_, hle, if_pos hle⟩
    rw [← Nat.div_mul_cancel hdvd, hz, Nat.zero_mul]
  · -- an exponent is no digit
    have := hplain (cp 'e') (by simp [lit])
    exact absurd this (by decide)

theorem numberText_isIntBody {v : Nat} (hv : round 52 v = v) (hlt : (shortest 52 v).1 < 10 ^ 21) :
    IsIntBody (numberText v) ∧ (numberText v).length ≤ 21 := by
  rcases eq_or_ne v 0 with rfl | h0
  · exact ⟨.inl rfl, by decide⟩
  obtain ⟨q, e, hq, hle, htext⟩ := numberText_split hv h0 hlt
  have hplain := (numberText_plain hv hlt).1
  obtain ⟨d, t, ht, h1, h9, -⟩ := natText_head hq
  rw [htext] at hplain ⊢
  refine ⟨.inr ⟨d, t ++ List.replicate e (cp '0'), by rw [ht]; rfl, h1, h9, fun x hx => ?_⟩, ?_⟩
  · exact hplain x (by rw [ht]; exact List.mem_cons_of_mem _ hx)
  · simpa using hle

/-- From `10 ^ 21` on, a number is written as a float is. -/
theorem numberText_floatBody {v : Nat} (hv : round 52 v = v) (hge : 10 ^ 21 ≤ (shortest 52 v).1) :
    IsFloatBody (numberText v) := by
  have h0 : v ≠ 0 := by
    rintro rfl
    rw [shortest_zero] at hge
    exact absurd hge (by decide)
  have hdvd := (shortest_closest hv).dvd
  unfold numberText
  rw [if_neg h0]
  simp only []
  generalize shortest 52 v = c at hdvd hge ⊢
  have hcancel : c.1 / 10 ^ c.2 * 10 ^ c.2 = c.1 := Nat.div_mul_cancel hdvd
  have hq : c.1 / 10 ^ c.2 ≠ 0 := by
    intro hz
    rw [hz, Nat.zero_mul] at hcancel
    omega
  -- the digits and the zeros are more than 21
  have hlong : 21 < (natText (c.1 / 10 ^ c.2)).length + c.2 := by
    have hlt := natOf_lt (natText_digits (c.1 / 10 ^ c.2))
    rw [natOf_natText] at hlt
    have hlt := Nat.mul_lt_mul_of_pos_right hlt (Nat.pow_pos (n := c.2) (show 0 < 10 by omega))
    rw [hcancel, ← Nat.pow_add] at hlt
    exact (Nat.pow_lt_pow_iff_right (by omega)).mp (hge.trans_lt hlt)
  obtain ⟨d, t, ht, h1, h9, hdigits⟩ := natText_head hq
  rw [if_neg (by omega), ht, List.append_assoc]
  refine ⟨[d], if (d :: t).length = 1 then [] else cp '.' :: t, _, rfl, .inr ⟨d, [], rfl, h1, h9, nofun⟩,
    ?_, .inr ⟨cp '+', _, rfl, .inl rfl, natText_ne_nil _, natText_digits _⟩, .inr nofun⟩
  split
  · exact .inl rfl
  · rename_i hlen
    exact .inr ⟨t, rfl, fun e => hlen (by rw [e]; rfl), hdigits⟩

/-- A number is read as what it stands for. -/
theorem scanNumber_numberText (F : FloatText) {v : Nat} {r : Str} (hv : round 52 v = v)
    (hr : Follow r) :
    scanNumber F (numberText v ++ r) = .ok ((JsValue.whole v).json F, r) := by
  simp only [JsValue.json]
  split
  · rename_i hlt
    obtain ⟨hbody, hlen⟩ := numberText_isIntBody hv hlt
    rw [scanNumber_digits F hbody (Nat.le_trans hlen (by decide)) hr, (numberText_plain hv hlt).2.2]
  · rename_i hge
    exact scanNumber_token F (.inl (numberText_floatBody hv (Nat.not_lt.mp hge))) hr

theorem numberText_head {v : Nat} (hv : round 52 v = v) :
    ∃ c t, numberText v = c :: t ∧ isDigit c = true := by
  rcases Nat.lt_or_ge (shortest 52 v).1 (10 ^ 21) with hlt | hge
  · exact (numberText_isIntBody hv hlt).1.head
  · exact (numberText_floatBody hv hge).head

/-! ## Members -/

section
variable {F : FloatText} {v : JsValue} {r : Str}

theorem follow_comma (r : Str) : Follow (cp ',' :: r) := follow_cons (by decide)

theorem follow_brace (r : Str) : Follow (cp '\x7d' :: r) := follow_cons (by decide)

/-- A value is read as what it stands for. -/
theorem value_jsValue {n d : Nat} (hv : v.Double) (hr : Follow r) :
    value F (n + 1) d (v.stringify ++ r) = .ok (v.json F, r) := by
  cases v with
  | text s =>
    simp only [JsValue.stringify, jsQuote]
    rw [List.cons_append, value.eq_def]
    simp only [List.append_assoc, List.singleton_append, scanString_jsQuote, ↓reduceIte, Except.map]
    rfl
  | whole v =>
    obtain ⟨c, t, hc, hdigit⟩ := numberText_head hv
    have hstart : IsNumberStart (numberText v ++ r) :=
      .inl ⟨c, t ++ r, by rw [hc, List.cons_append], hdigit⟩
    rw [JsValue.stringify, value_number hstart]
    exact scanNumber_numberText F hv hr

/-- The text of a value starts with no white space. -/
theorem skip_jsValue (hv : v.Double) : skip (v.stringify ++ r) = v.stringify ++ r := by
  cases v with
  | text s => exact skip_cons (by decide)
  | whole v =>
    obtain ⟨c, t, hc, hdigit⟩ := numberText_head hv
    simp only [JsValue.stringify]
    rw [hc, List.cons_append]
    exact skip_cons (isStart_digit hdigit).1

/-- The last member. -/
theorem members_end {n d : Nat} {acc : Dict} {k : Str} (hv : v.Double) :
    members F (n + 2) d acc (jsQuote k ++ cp ':' :: (v.stringify ++ cp '\x7d' :: r)) =
      .ok (.obj (acc.set (normStr k) (v.json F)), r) := by
  unfold jsQuote
  rw [List.cons_append, members.eq_def]
  simp only [List.append_assoc, List.cons_append, List.nil_append, scanString_jsQuote, ↓reduceIte,
    skip_cons (c := cp ':') (by decide), skip_jsValue hv, value_jsValue hv (follow_brace r),
    skip_cons (c := cp '\x7d') (by decide)]

/-- A member that another follows. -/
theorem members_next {n d : Nat} {acc : Dict} {k : Str} (hv : v.Double) :
    members F (n + 2) d acc (jsQuote k ++ cp ':' :: (v.stringify ++ cp ',' :: r)) =
      members F (n + 1) d (acc.set (normStr k) (v.json F)) (skip r) := by
  unfold jsQuote
  rw [List.cons_append, members.eq_def]
  simp only [List.append_assoc, List.cons_append, List.nil_append, scanString_jsQuote, ↓reduceIte,
    skip_cons (c := cp ':') (by decide), skip_jsValue hv, value_jsValue hv (follow_comma r),
    skip_cons (c := cp ',') (by decide), show cp ',' ≠ cp '\x7d' by decide]

/-- What `json.loads` makes of the members. -/
def jsonMembers (F : FloatText) (acc : Dict) (ms : List (Str × JsValue)) : Dict :=
  ms.foldl (fun d p => d.set (normStr p.1) (p.2.json F)) acc

theorem skip_members {ms : List (Str × JsValue)} (h : ms ≠ []) :
    ∃ t, stringifyMembers ms ++ r = cp '"' :: t := by
  match ms, h with
  | [(_, _)], _ => exact ⟨_, rfl⟩
  | (_, _) :: _ :: _, _ => exact ⟨_, rfl⟩

theorem members_stringify {ms : List (Str × JsValue)} (hne : ms ≠ [])
    (hms : ∀ p ∈ ms, p.2.Double) {n d : Nat} {acc : Dict} (hn : ms.length ≤ n) :
    members F (n + 1) d acc (stringifyMembers ms ++ cp '\x7d' :: r) =
      .ok (.obj (jsonMembers F acc ms), r) := by
  induction ms generalizing n acc with
  | nil => exact absurd rfl hne
  | cons p ms ih =>
    obtain ⟨k, v⟩ := p
    obtain ⟨n, rfl⟩ := Nat.exists_eq_succ_of_ne_zero (show n ≠ 0 by simp at hn; omega)
    have hv : v.Double := hms (k, v) List.mem_cons_self
    cases ms with
    | nil =>
      simp only [stringifyMembers, List.append_assoc, List.cons_append]
      exact members_end hv
    | cons q ms =>
      obtain ⟨t, ht⟩ := skip_members (r := cp '\x7d' :: r) (List.cons_ne_nil q ms)
      simp only [stringifyMembers, List.append_assoc, List.cons_append]
      rw [members_next hv, ht, skip_cons (by decide), ← ht]
      exact ih (by simp) (fun p hp => hms p (List.mem_cons_of_mem _ hp))
        (by simpa using hn)

/-- `json.loads` of the text. -/
theorem loads_stringify {ms : List (Str × JsValue)} (hne : ms ≠ []) (hms : ∀ p ∈ ms, p.2.Double)
    {limit : Nat} (hlimit : 1 ≤ limit) :
    loads F limit (stringify ms) = .ok (.obj (jsonMembers F [] ms)) := by
  obtain ⟨d, rfl⟩ := Nat.exists_eq_succ_of_ne_zero (Nat.ne_of_gt hlimit)
  obtain ⟨t, ht⟩ := skip_members (r := [cp '\x7d']) hne
  have hvalue : value F (max (ms.length + 2) (2 * (stringify ms).length + 1)) (d + 1)
      (stringify ms) = .ok (.obj (jsonMembers F [] ms), []) := by
    obtain ⟨n, hn⟩ := Nat.exists_eq_add_of_le (Nat.le_max_left (ms.length + 2)
      (2 * (stringify ms).length + 1))
    rw [hn, show ms.length + 2 + n = ms.length + n + 1 + 1 by omega, stringify,
      value_obj (by rw [ht]; exact skip_cons (by decide)) (by decide), ← ht]
    exact members_stringify hne hms (Nat.le_add_right _ _)
  rw [loads_eq (d + 1) (Nat.le_max_right (ms.length + 2) _),
    show skip (stringify ms) = stringify ms from skip_cons (by decide), hvalue]
  rfl

end

/-! ## Bytes -/

/-- No code point of the text is a surrogate. -/
def Scalar (s : Str) : Prop := ∀ c ∈ s, isSurrogate c.val = false

instance (s : Str) : Decidable (Scalar s) :=
  inferInstanceAs (Decidable (∀ c ∈ s, isSurrogate c.val = false))

theorem scalar_cons {c : CodePoint} {s : Str} (hc : isSurrogate c.val = false) (hs : Scalar s) :
    Scalar (c :: s) :=
  List.forall_mem_cons.mpr ⟨hc, hs⟩

theorem scalar_append {s t : Str} (hs : Scalar s) (ht : Scalar t) : Scalar (s ++ t) := fun c hc =>
  (List.mem_append.mp hc).elim (hs c) (ht c)

theorem scalar_of_plain {s : Str} (h : plain s) : Scalar s := by
  intro c hc
  have := h c hc
  simp only [isSurrogate, Bool.and_eq_false_iff, decide_eq_false_iff_not]
  omega

theorem isSurrogate_ascii {c : CodePoint} (h : c.val < 0x80) : isSurrogate c.val = false := by
  simp only [isSurrogate, Bool.and_eq_false_iff, decide_eq_false_iff_not]
  omega

theorem scalar_jsEscape (c : CodePoint) : Scalar (jsEscape c) := by
  unfold jsEscape
  split
  · exact fun d hd => isSurrogate_ascii (ascii_escape c d hd).2
  · split
    · exact fun d hd => isSurrogate_ascii (ascii_escape4 _ d hd).2
    · rename_i h
      intro d hd
      rw [List.mem_singleton.mp hd]
      simpa using h

theorem scalar_jsQuote (s : Str) : Scalar (jsQuote s) := by
  refine scalar_cons (by decide) (scalar_append (fun d hd => ?_) (scalar_cons (by decide) nofun))
  obtain ⟨c, -, hc⟩ := List.mem_flatMap.mp hd
  exact scalar_jsEscape c d hc

theorem plain_digits {s : Str} (h : ∀ c ∈ s, isDigit c = true) : plain s := by
  intro c hc
  have := h c hc
  simp only [isDigit, Bool.and_eq_true, decide_eq_true_eq, Fin.le_def] at this
  have h9 : (cp '9').val = 57 := rfl
  omega

theorem plain_append {s t : Str} (hs : plain s) (ht : plain t) : plain (s ++ t) := fun c hc =>
  (List.mem_append.mp hc).elim (hs c) (ht c)

theorem plain_numberText (v : Nat) : plain (numberText v) := by
  unfold numberText
  split
  · exact plain_lit rfl
  · simp only []
    have hdigits := plain_digits (natText_digits ((shortest 52 v).1 / 10 ^ (shortest 52 v).2))
    split
    · exact plain_digits (digits_zeros _ _)
    · refine plain_append (plain_append (plain_append ?_ ?_) (plain_lit rfl))
        (plain_digits (natText_digits _))
      · exact fun c hc => hdigits c (List.mem_of_mem_take hc)
      · split
        · rintro _ ⟨⟩
        · exact List.forall_mem_cons.mpr
            ⟨by decide, fun c hc => hdigits c (List.mem_of_mem_drop hc)⟩

theorem scalar_jsValue (v : JsValue) : Scalar v.stringify := by
  cases v with
  | text s => exact scalar_jsQuote s
  | whole v => exact scalar_of_plain (plain_numberText v)

theorem scalar_stringifyMembers (ms : List (Str × JsValue)) : Scalar (stringifyMembers ms) := by
  induction ms using stringifyMembers.induct with
  | case1 => exact nofun
  | case2 k v =>
    exact scalar_append (scalar_jsQuote k) (scalar_cons (by decide) (scalar_jsValue v))
  | case3 k v p ms ih =>
    refine scalar_append (scalar_jsQuote k) (scalar_cons (by decide) ?_)
    exact scalar_append (scalar_jsValue v) (scalar_cons (by decide) ih)

theorem scalar_stringify (ms : List (Str × JsValue)) : Scalar (stringify ms) :=
  scalar_cons (by decide) (scalar_append (scalar_stringifyMembers ms) (scalar_cons (by decide) nofun))

/-- The text has UTF-8 bytes, and `json.loads` reads the members back from them. -/
theorem load_stringify {F : FloatText} {ms : List (Str × JsValue)} (hne : ms ≠ [])
    (hms : ∀ p ∈ ms, p.2.Double) {limit : Nat} (hlimit : 1 ≤ limit) :
    ∃ b, encodeUtf8 (stringify ms) = some b ∧
      loadsBytes F limit b = .ok (.obj (jsonMembers F [] ms)) := by
  obtain ⟨b, hb⟩ := Option.isSome_iff_exists.mp (encodeUtf8_isSome (scalar_stringify ms))
  obtain ⟨t, ht⟩ := skip_members (r := [cp '\x7d']) hne
  have hdecode : decode b = some (stringify ms) := by
    have htext : stringify ms = cp '\x7b' :: cp '"' :: t := by rw [stringify, ht]
    rw [htext] at hb ⊢
    exact decode_encodeUtf8_text (by decide) (by decide) hb
  refine ⟨b, hb, ?_⟩
  rw [loadsBytes, hdecode]
  exact loads_stringify hne hms hlimit

end Music3
