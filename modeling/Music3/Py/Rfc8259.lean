import Music3.Py.RoundTrip

/-!
# The grammar of JSON texts, RFC 8259

The rules of sections 2 to 7, and which texts of `json.dumps` they derive: those of the values
whose floats are all finite (`isText_render`). A `NaN` or `Infinity` stands outside of all strings,
where the grammar has no `N` and no `I`; `Outside s b`: without its strings, `s` is `b`.
-/

namespace Py.Json

mutual
/-- Every float in the value is finite. -/
def Finite : Json → Prop
  | .float x => x.isFinite = true
  | .arr xs => FiniteList xs
  | .obj kvs => FiniteFields kvs
  | .null | .bool _ | .int _ | .str _ => True
def FiniteList : List Json → Prop
  | [] => True
  | x :: xs => Finite x ∧ FiniteList xs
def FiniteFields : List (Str × Json) → Prop
  | [] => True
  | (_, x) :: kvs => Finite x ∧ FiniteFields kvs
end

end Py.Json

namespace Rfc8259

open Py

/-- `ws = *( %x20 / %x09 / %x0A / %x0D )` -/
def Ws (s : Str) : Prop := ∀ c ∈ s, c ∈ lit " \t\n\r"

def Digits (s : Str) : Prop := s ≠ [] ∧ ∀ c ∈ s, isDigit c = true

/-- `int = zero / ( digit1-9 *DIGIT )` -/
def Integer (s : Str) : Prop :=
  s = [cp '0'] ∨ ∃ c t, s = c :: t ∧ cp '1' ≤ c ∧ c ≤ cp '9' ∧ ∀ d ∈ t, isDigit d = true

/-- `frac = decimal-point 1*DIGIT` -/
def Frac (s : Str) : Prop := ∃ t, s = cp '.' :: t ∧ Digits t

/-- `exp = e [ minus / plus ] 1*DIGIT` -/
def Exp (s : Str) : Prop := ∃ e sign t, s = e :: (sign ++ t) ∧ (e = cp 'e' ∨ e = cp 'E') ∧
  (sign = [] ∨ sign = [cp '-'] ∨ sign = [cp '+']) ∧ Digits t

/-- `number = [ minus ] int [ frac ] [ exp ]` -/
def Number (s : Str) : Prop := ∃ m i f e, s = m ++ (i ++ (f ++ e)) ∧ (m = [] ∨ m = [cp '-']) ∧
  Integer i ∧ (f = [] ∨ Frac f) ∧ (e = [] ∨ Exp e)

def HexDigit (c : CodePoint) : Prop := c ∈ lit "0123456789abcdefABCDEF"

/-- `char = unescaped / escape ( … )` -/
inductive Char : Str → Prop
  /-- `unescaped = %x20-21 / %x23-5B / %x5D-10FFFF` -/
  | unescaped {c : CodePoint} : 0x20 ≤ c.val → c ≠ cp '"' → c ≠ cp '\\' → Char [c]
  | escaped {c : CodePoint} : c ∈ lit "\"\\/bfnrt" → Char [cp '\\', c]
  | hex {a b c d : CodePoint} : HexDigit a → HexDigit b → HexDigit c → HexDigit d →
      Char [cp '\\', cp 'u', a, b, c, d]

/-- `*char` -/
inductive Chars : Str → Prop
  | nil : Chars []
  | cons {c s : Str} : Char c → Chars s → Chars (c ++ s)

/-- `string = quotation-mark *char quotation-mark` -/
def QuotedString (s : Str) : Prop := ∃ t, Chars t ∧ s = cp '"' :: (t ++ [cp '"'])

/-- What is between the brackets of an array, between the braces of an object, and a value. -/
inductive Symbol where
  | value | elements | members

/-- The rules `value`, `array` and `object`. The white space that the structural characters have
around them stands with the elements and members. -/
inductive Derives : Symbol → Str → Prop
  | null : Derives .value (lit "null")
  | true : Derives .value (lit "true")
  | false : Derives .value (lit "false")
  | number {s : Str} : Number s → Derives .value s
  | string {s : Str} : QuotedString s → Derives .value s
  | emptyArray {w : Str} : Ws w → Derives .value (cp '[' :: (w ++ [cp ']']))
  | array {s : Str} : Derives .elements s → Derives .value (cp '[' :: (s ++ [cp ']']))
  | emptyObject {w : Str} : Ws w → Derives .value (cp '{' :: (w ++ [cp '}']))
  | object {s : Str} : Derives .members s → Derives .value (cp '{' :: (s ++ [cp '}']))
  | element {w v w' : Str} : Ws w → Derives .value v → Ws w' → Derives .elements (w ++ (v ++ w'))
  | moreElements {w v w' s : Str} : Ws w → Derives .value v → Ws w' → Derives .elements s →
      Derives .elements (w ++ (v ++ (w' ++ cp ',' :: s)))
  | member {w k w₁ w₂ v w₃ : Str} : Ws w → QuotedString k → Ws w₁ → Ws w₂ → Derives .value v →
      Ws w₃ → Derives .members (w ++ (k ++ (w₁ ++ cp ':' :: (w₂ ++ (v ++ w₃)))))
  | moreMembers {w k w₁ w₂ v w₃ s : Str} : Ws w → QuotedString k → Ws w₁ → Ws w₂ →
      Derives .value v → Ws w₃ → Derives .members s →
      Derives .members (w ++ (k ++ (w₁ ++ cp ':' :: (w₂ ++ (v ++ (w₃ ++ cp ',' :: s))))))

/-- `JSON-text = ws value ws` -/
def IsText (s : Str) : Prop := ∃ w v w', Ws w ∧ Derives .value v ∧ Ws w' ∧ s = w ++ (v ++ w')

theorem Ws.nil : Ws [] := fun _ h => by cases h

/-! ## Strings and numbers of `json.dumps` -/

theorem Chars.append {s t : Str} (hs : Chars s) (ht : Chars t) : Chars (s ++ t) := by
  induction hs with
  | nil => exact ht
  | cons hc _ ih => rw [List.append_assoc]; exact .cons hc ih

theorem Char.chars {s : Str} (h : Char s) : Chars s := by
  rw [← List.append_nil s]
  exact .cons h .nil

theorem escape4_char (n : Nat) : Char (escape4 n) := by
  have hx : ∀ k < 16, HexDigit (hexDigit k) := by unfold HexDigit; decide
  exact .hex (hx _ (Nat.mod_lt _ (by decide))) (hx _ (Nat.mod_lt _ (by decide)))
    (hx _ (Nat.mod_lt _ (by decide))) (hx _ (Nat.mod_lt _ (by decide)))

theorem escape_chars (c : CodePoint) : Chars (escape c) := by
  unfold escape
  split
  · exact (Char.escaped (by decide)).chars
  rename_i hq
  split
  · exact (Char.escaped (by decide)).chars
  rename_i hb
  split
  · exact (Char.escaped (by decide)).chars
  split
  · exact (Char.escaped (by decide)).chars
  split
  · exact (Char.escaped (by decide)).chars
  split
  · exact (Char.escaped (by decide)).chars
  split
  · exact (Char.escaped (by decide)).chars
  split
  · rename_i h
    exact (Char.unescaped h.1 hq hb).chars
  split
  · exact (escape4_char _).chars
  · exact (escape4_char _).chars.append (escape4_char _).chars

theorem quote_string (s : Str) : QuotedString (quote s) := by
  refine ⟨_, ?_, rfl⟩
  induction s with
  | nil => exact .nil
  | cons c s ih => rw [List.flatMap_cons]; exact (escape_chars c).append ih

theorem intText_number (n : Int) : Number (intText n) := by
  have hi : Integer (natText n.natAbs) := natText_isIntBody _
  unfold intText
  split
  · exact ⟨[cp '-'], _, [], [], by simp, .inr rfl, hi, .inl rfl, .inl rfl⟩
  · exact ⟨[], _, [], [], by simp, .inl rfl, hi, .inl rfl, .inl rfl⟩

theorem floatBody_number {s : Str} (h : IsFloatBody s) (m : Str) (hm : m = [] ∨ m = [cp '-']) :
    Number (m ++ s) := by
  obtain ⟨i, f, e, rfl, hi, hf, he, -⟩ := h
  refine ⟨m, i, f, e, by rw [List.append_assoc], hm, hi, hf.imp id ?_, he.imp id ?_⟩
  · rintro ⟨t, rfl, hne, ht⟩
    exact ⟨t, rfl, hne, ht⟩
  · rintro ⟨sg, t, rfl, hsg, hne, ht⟩
    refine ⟨cp 'e', [sg], t, rfl, .inl rfl, .inr ?_, hne, ht⟩
    rcases hsg with rfl | rfl
    · exact .inr rfl
    · exact .inl rfl

theorem floatText_number (F : FloatText) {x : PyFloat} (hx : x.isFinite = true) :
    Number (floatText F x) := by
  rw [floatText, if_pos hx]
  rcases F.token x hx with h | ⟨t, e, h⟩
  · exact floatBody_number h [] (.inl rfl)
  · rw [e]
    exact floatBody_number h [cp '-'] (.inr rfl)

/-! ## Values of `json.dumps` -/

section
variable (F : FloatText) (o : DumpOpts)

theorem newline_ws (lvl : Nat) : Ws (newline o lvl) := by
  unfold newline
  split
  · exact Ws.nil
  · refine List.forall_mem_cons.mpr ⟨by decide, fun c hc => ?_⟩
    rw [List.eq_of_mem_replicate hc]
    decide

theorem itemSep_eq (lvl : Nat) : ∃ w, Ws w ∧ itemSep o lvl = cp ',' :: w := by
  unfold itemSep
  split
  · exact ⟨[cp ' '], List.forall_mem_singleton.mpr (by decide), rfl⟩
  · exact ⟨newline o lvl, newline_ws o lvl, rfl⟩

theorem keySep_ws : Ws [cp ' '] := List.forall_mem_singleton.mpr (by decide)

mutual
/-- Without `NaN` and `Infinity` the text of a value is one of the grammar. -/
theorem render_derives (lvl : Nat) : ∀ v : Json, v.Finite → Derives .value (render F o lvl v)
  | .null, _ => by rw [render]; exact .null
  | .bool true, _ => by rw [render]; exact .true
  | .bool false, _ => by rw [render]; exact .false
  | .int n, _ => by rw [render]; exact .number (intText_number n)
  | .float x, h => by rw [render]; exact .number (floatText_number F h)
  | .str s, _ => by rw [render]; exact .string (quote_string s)
  | .arr [], _ => by rw [render]; exact .emptyArray Ws.nil
  | .obj [], _ => by rw [render]; exact .emptyObject Ws.nil
  | .arr (x :: xs), h => by
    rw [render]
    have := renderElems_derives (lvl + 1) xs h.2 (newline_ws o (lvl + 1))
      (render_derives (lvl + 1) x h.1) (newline_ws o lvl)
    simpa only [List.append_assoc] using Derives.array this
  | .obj ((k, x) :: kvs), h => by
    rw [render]
    have := renderMembers_derives (lvl + 1) kvs h.2 k (newline_ws o (lvl + 1))
      (render_derives (lvl + 1) x h.1) (newline_ws o lvl)
    simpa only [List.append_assoc] using Derives.object this
theorem renderElems_derives (lvl : Nat) : ∀ xs : List Json, Json.FiniteList xs → ∀ {w r w' : Str},
    Ws w → Derives .value r → Ws w' →
    Derives .elements (w ++ (r ++ (renderElems F o lvl xs ++ w')))
  | [], _, w, r, w', hw, hr, hw' => by
    rw [renderElems, List.nil_append]
    exact .element hw hr hw'
  | x :: xs, h, w, r, w', hw, hr, hw' => by
    obtain ⟨sep, hsep, e⟩ := itemSep_eq o lvl
    have := renderElems_derives lvl xs h.2 hsep (render_derives lvl x h.1) hw'
    rw [renderElems, e]
    simpa only [List.append_assoc, List.cons_append, List.nil_append]
      using Derives.moreElements hw hr Ws.nil this
theorem renderMembers_derives (lvl : Nat) : ∀ kvs : Dict, Json.FiniteFields kvs → ∀ (k : Str)
    {w r w' : Str}, Ws w → Derives .value r → Ws w' →
    Derives .members (w ++ (quote k ++ (keySep ++ (r ++ (renderMembers F o lvl kvs ++ w')))))
  | [], _, k, w, r, w', hw, hr, hw' => by
    rw [renderMembers, List.nil_append]
    exact .member hw (quote_string k) Ws.nil keySep_ws hr hw'
  | (j, x) :: kvs, h, k, w, r, w', hw, hr, hw' => by
    obtain ⟨sep, hsep, e⟩ := itemSep_eq o lvl
    have := renderMembers_derives lvl kvs h.2 j hsep (render_derives lvl x h.1) hw'
    rw [renderMembers, e]
    simpa only [List.append_assoc, List.cons_append, List.nil_append, keySep]
      using Derives.moreMembers hw (quote_string k) Ws.nil keySep_ws hr Ws.nil this
end

end

/-! ## Outside of the strings -/

/-- Where a reader of a text is. -/
inductive Mode where
  | outside | inString | escaped

/-- The characters outside of the strings, with the quotation marks that open them. -/
def bare : Mode → Str → Str
  | _, [] => []
  | .outside, c :: s => c :: bare (if c = cp '"' then .inString else .outside) s
  | .inString, c :: s =>
    bare (if c = cp '"' then .outside else if c = cp '\\' then .escaped else .inString) s
  | .escaped, _ :: s => bare .inString s

/-- Without its strings `s` is `b`, and `s` ends outside of them. -/
def Outside (s b : Str) : Prop := ∀ t, bare .outside (s ++ t) = b ++ bare .outside t

theorem Outside.bare_eq {s b : Str} (h : Outside s b) : bare .outside s = b := by
  simpa [bare] using h []

theorem Outside.nil : Outside [] [] := fun _ => rfl

theorem Outside.append {s t b c : Str} (hs : Outside s b) (ht : Outside t c) :
    Outside (s ++ t) (b ++ c) := fun u => by
  rw [List.append_assoc, hs, ht, List.append_assoc]

theorem Outside.cons {c : CodePoint} {s b : Str} (hc : c ≠ cp '"') (hs : Outside s b) :
    Outside (c :: s) (c :: b) := fun t => by
  rw [List.cons_append, bare, if_neg hc, hs]
  rfl

theorem Outside.plain {s : Str} (h : ∀ c ∈ s, c ≠ cp '"') : Outside s s := by
  induction s with
  | nil => exact .nil
  | cons c s ih =>
    rw [List.forall_mem_cons] at h
    exact .cons h.1 (ih h.2)

theorem bare_char {c : Str} (h : Char c) (t : Str) :
    bare .inString (c ++ t) = bare .inString t := by
  cases h with
  | unescaped _ hq hb => simp [bare, hq, hb]
  | escaped _ => simp [bare, show cp '\\' ≠ cp '"' by decide]
  | @hex a b c d ha hb hc hd =>
    have digit : ∀ c, HexDigit c → c ≠ cp '"' ∧ c ≠ cp '\\' := by
      intro c hc
      have : (lit "0123456789abcdefABCDEF").all
          (fun c => decide (c ≠ cp '"' ∧ c ≠ cp '\\')) = true := by decide
      exact of_decide_eq_true (List.all_eq_true.mp this c hc)
    simp [bare, digit a ha, digit b hb, digit c hc, digit d hd, show cp '\\' ≠ cp '"' by decide]

theorem bare_chars {c : Str} (h : Chars c) (t : Str) :
    bare .inString (c ++ t) = bare .inString t := by
  induction h with
  | nil => rfl
  | cons hc _ ih => rw [List.append_assoc, bare_char hc, ih]

theorem Outside.string {s : Str} (h : QuotedString s) : Outside s [cp '"'] := by
  obtain ⟨t, ht, rfl⟩ := h
  intro u
  rw [List.cons_append, bare, if_pos rfl, List.append_assoc, bare_chars ht]
  rfl

/-- What the grammar has outside of strings. -/
def Allowed (b : Str) : Prop := ∀ c ∈ b, c ≠ cp 'N' ∧ c ≠ cp 'I'

/-- The text has no `N` and no `I` outside of its strings. -/
def Bare (s : Str) : Prop := ∃ b, Outside s b ∧ Allowed b

theorem Bare.append {s t : Str} (hs : Bare s) (ht : Bare t) : Bare (s ++ t) := by
  obtain ⟨b, hb, hab⟩ := hs
  obtain ⟨c, hc, hac⟩ := ht
  exact ⟨b ++ c, hb.append hc, List.forall_mem_append.mpr ⟨hab, hac⟩⟩

theorem Bare.cons {c : CodePoint} {s : Str} (h : c ≠ cp '"' ∧ c ≠ cp 'N' ∧ c ≠ cp 'I')
    (hs : Bare s) : Bare (c :: s) := by
  obtain ⟨b, hb, hab⟩ := hs
  exact ⟨c :: b, hb.cons h.1, List.forall_mem_cons.mpr ⟨h.2, hab⟩⟩

theorem Bare.nil : Bare [] := ⟨[], .nil, List.forall_mem_nil _⟩

theorem Bare.of_forall {s : Str} (h : ∀ c ∈ s, c ≠ cp '"' ∧ c ≠ cp 'N' ∧ c ≠ cp 'I') : Bare s := by
  induction s with
  | nil => exact .nil
  | cons c s ih =>
    rw [List.forall_mem_cons] at h
    exact (ih h.2).cons h.1

theorem Bare.string {s : Str} (h : QuotedString s) : Bare s :=
  ⟨[cp '"'], .string h, List.forall_mem_singleton.mpr (by decide)⟩

theorem Bare.ws {s : Str} (h : Ws s) : Bare s := by
  refine .of_forall fun c hc => ?_
  have : (lit " \t\n\r").all
      (fun c => decide (c ≠ cp '"' ∧ c ≠ cp 'N' ∧ c ≠ cp 'I')) = true := by decide
  exact of_decide_eq_true (List.all_eq_true.mp this c (h c hc))

theorem Bare.digits {s : Str} (h : ∀ c ∈ s, isDigit c = true) : Bare s := by
  refine .of_forall fun c hc => ?_
  have := h c hc
  refine ⟨?_, ?_, ?_⟩
  all_goals rintro rfl; exact absurd this (by decide)

theorem Bare.number {s : Str} (h : Number s) : Bare s := by
  obtain ⟨m, i, f, e, rfl, hm, hi, hf, he⟩ := h
  refine .append ?_ (.append ?_ (.append ?_ ?_))
  · rcases hm with rfl | rfl
    · exact .nil
    · exact .cons (by decide) .nil
  · rcases hi with rfl | ⟨c, t, rfl, h₁, h₂, ht⟩
    · exact .cons (by decide) .nil
    · exact .digits (List.forall_mem_cons.mpr ⟨isDigit_of_le h₁ h₂, ht⟩)
  · rcases hf with rfl | ⟨t, rfl, -, ht⟩
    · exact .nil
    · exact .cons (by decide) (.digits ht)
  · rcases he with rfl | ⟨e, sign, t, rfl, he, hsign, -, ht⟩
    · exact .nil
    · have hsign : Bare sign := by
        rcases hsign with rfl | rfl | rfl
        · exact .nil
        · exact .cons (by decide) .nil
        · exact .cons (by decide) .nil
      rcases he with rfl | rfl
      · exact .cons (by decide) (hsign.append (.digits ht))
      · exact .cons (by decide) (hsign.append (.digits ht))

theorem Derives.bare {x : Symbol} {s : Str} (h : Derives x s) : Bare s := by
  have last : ∀ {c}, (c ≠ cp '"' ∧ c ≠ cp 'N' ∧ c ≠ cp 'I') → Bare [c] := fun h => .cons h .nil
  induction h with
  | null | true | false =>
    exact .cons (by decide) (.cons (by decide) (.cons (by decide) (by
      first | exact last (by decide) | exact .cons (by decide) (last (by decide)))))
  | number h => exact .number h
  | string h => exact .string h
  | emptyArray hw | emptyObject hw =>
    exact .cons (by decide) (.append (.ws hw) (last (by decide)))
  | array _ ih | object _ ih => exact .cons (by decide) (.append ih (last (by decide)))
  | element hw _ hw' ih => exact (Bare.ws hw).append (ih.append (.ws hw'))
  | moreElements hw _ hw' _ ih ih' =>
    exact (Bare.ws hw).append (ih.append ((Bare.ws hw').append (.cons (by decide) ih')))
  | member hw hk h₁ h₂ _ h₃ ih =>
    exact (Bare.ws hw).append ((Bare.string hk).append ((Bare.ws h₁).append
      (.cons (by decide) ((Bare.ws h₂).append (ih.append (.ws h₃))))))
  | moreMembers hw hk h₁ h₂ _ h₃ _ ih ih' =>
    exact (Bare.ws hw).append ((Bare.string hk).append ((Bare.ws h₁).append
      (.cons (by decide) ((Bare.ws h₂).append (ih.append ((Bare.ws h₃).append
        (.cons (by decide) ih')))))))

theorem IsText.bare {s : Str} (h : IsText s) : Bare s := by
  obtain ⟨w, v, w', hw, hv, hw', rfl⟩ := h
  exact (Bare.ws hw).append (hv.bare.append (.ws hw'))

/-! ## Texts with `NaN` or `Infinity` -/

/-- The text has an `N` or an `I` outside of its strings, if `p` does not hold. -/
def Betrays (p : Prop) (s : Str) : Prop := ∃ b, Outside s b ∧ (Allowed b → p)

theorem Betrays.append {p q : Prop} {s t : Str} (hs : Betrays p s) (ht : Betrays q t) :
    Betrays (p ∧ q) (s ++ t) := by
  obtain ⟨b, hb, hp⟩ := hs
  obtain ⟨c, hc, hq⟩ := ht
  refine ⟨b ++ c, hb.append hc, fun h => ?_⟩
  exact ⟨hp (List.forall_mem_append.mp h).1, hq (List.forall_mem_append.mp h).2⟩

theorem Betrays.mono {p q : Prop} {s : Str} (h : Betrays p s) (hpq : p → q) : Betrays q s := by
  obtain ⟨b, hb, hp⟩ := h
  exact ⟨b, hb, fun h => hpq (hp h)⟩

/-- A part that the grammar has. -/
theorem Bare.betrays {s : Str} (h : Bare s) : Betrays True s := by
  obtain ⟨b, hb, -⟩ := h
  exact ⟨b, hb, fun _ => trivial⟩

theorem Bare.of_betrays {p : Prop} {s : Str} (h : Bare s) (hs : Betrays p s) : p := by
  obtain ⟨b, hb, hab⟩ := h
  obtain ⟨c, hc, hp⟩ := hs
  exact hp (hc.bare_eq ▸ hb.bare_eq ▸ hab)

theorem floatText_betrays (F : FloatText) (x : PyFloat) :
    Betrays (x.isFinite = true) (floatText F x) := by
  by_cases hx : x.isFinite = true
  · exact (Bare.number (floatText_number F hx)).betrays.mono fun _ => hx
  · have name : ∀ {s}, s.all (fun c => decide (c ≠ cp '"')) = true →
        s.any (fun c => decide (c = cp 'N' ∨ c = cp 'I')) = true →
        Betrays (x.isFinite = true) s := by
      intro s hs ha
      refine ⟨s, .plain fun c hc => of_decide_eq_true (List.all_eq_true.mp hs c hc), fun h => ?_⟩
      obtain ⟨c, hc, hn⟩ := List.any_eq_true.mp ha
      exact absurd (of_decide_eq_true hn) (not_or.mpr (h c hc))
    rw [floatText, if_neg hx]
    split
    · exact name (by decide) (by decide)
    · split
      · exact name (by decide) (by decide)
      · exact name (by decide) (by decide)

section
variable (F : FloatText) (o : DumpOpts)

mutual
theorem render_betrays (lvl : Nat) : ∀ v : Json, Betrays v.Finite (render F o lvl v)
  | .float x => by rw [render]; exact floatText_betrays F x
  | .null => (render_derives F o lvl .null trivial).bare.betrays.mono fun _ => trivial
  | .bool b => (render_derives F o lvl (.bool b) trivial).bare.betrays.mono fun _ => trivial
  | .int n => (render_derives F o lvl (.int n) trivial).bare.betrays.mono fun _ => trivial
  | .str s => (render_derives F o lvl (.str s) trivial).bare.betrays.mono fun _ => trivial
  | .arr [] => (render_derives F o lvl (.arr []) trivial).bare.betrays.mono fun _ => trivial
  | .obj [] => (render_derives F o lvl (.obj []) trivial).bare.betrays.mono fun _ => trivial
  | .arr (x :: xs) => by
    have start : Betrays True (cp '[' :: newline o (lvl + 1)) :=
      (Bare.cons (by decide) (.ws (newline_ws o _))).betrays
    have stop : Betrays True (newline o lvl ++ [cp ']']) :=
      ((Bare.ws (newline_ws o _)).append (.cons (by decide) .nil)).betrays
    rw [render]
    refine (start.append ((render_betrays (lvl + 1) x).append
      ((renderElems_betrays (lvl + 1) xs).append stop))).mono fun h => ?_
    exact ⟨h.2.1, h.2.2.1⟩
  | .obj ((k, x) :: kvs) => by
    have start : Betrays True (cp '{' :: newline o (lvl + 1)) :=
      (Bare.cons (by decide) (.ws (newline_ws o _))).betrays
    have stop : Betrays True (newline o lvl ++ [cp '}']) :=
      ((Bare.ws (newline_ws o _)).append (.cons (by decide) .nil)).betrays
    have hkey : Betrays True (quote k) := (Bare.string (quote_string k)).betrays
    have hsep : Betrays True keySep := (Bare.cons (by decide) (.ws keySep_ws)).betrays
    rw [render]
    refine (start.append (hkey.append (hsep.append ((render_betrays (lvl + 1) x).append
      ((renderMembers_betrays (lvl + 1) kvs).append stop))))).mono fun h => ?_
    exact ⟨h.2.2.2.1, h.2.2.2.2.1⟩
theorem renderElems_betrays (lvl : Nat) : ∀ xs : List Json,
    Betrays (Json.FiniteList xs) (renderElems F o lvl xs)
  | [] => Bare.nil.betrays.mono fun _ => trivial
  | x :: xs => by
    obtain ⟨w, hw, e⟩ := itemSep_eq o lvl
    have hsep : Betrays True (cp ',' :: w) := (Bare.cons (by decide) (.ws hw)).betrays
    rw [renderElems, e]
    exact (hsep.append ((render_betrays lvl x).append (renderElems_betrays lvl xs))).mono fun h => h.2
theorem renderMembers_betrays (lvl : Nat) : ∀ kvs : Dict,
    Betrays (Json.FiniteFields kvs) (renderMembers F o lvl kvs)
  | [] => Bare.nil.betrays.mono fun _ => trivial
  | (k, x) :: kvs => by
    obtain ⟨w, hw, e⟩ := itemSep_eq o lvl
    have hcomma : Betrays True (cp ',' :: w) := (Bare.cons (by decide) (.ws hw)).betrays
    have hkey : Betrays True (quote k) := (Bare.string (quote_string k)).betrays
    have hsep : Betrays True keySep := (Bare.cons (by decide) (.ws keySep_ws)).betrays
    rw [renderMembers, e]
    exact (hcomma.append (hkey.append (hsep.append ((render_betrays lvl x).append
      (renderMembers_betrays lvl kvs))))).mono fun h => h.2.2.2
end

/-- The texts of `json.dumps` in the grammar. -/
theorem isText_render (v : Json) : IsText (render F o 0 v) ↔ v.Finite := by
  constructor
  · exact fun h => h.bare.of_betrays (render_betrays F o 0 v)
  · exact fun h => ⟨[], _, [], Ws.nil, render_derives F o 0 v h, Ws.nil, by simp⟩

end

end Rfc8259
