import Music3.Py.RoundTrip

/-!
# Header values as text

A header value is a byte string that is decoded as latin-1, so each byte is one character.
`isdigit` is `str.isdigit()`, which also holds of the superscript digits, and `intOf` is `int()` of
a text of digits. `intOf_decimal`: the decimal text of a number is read back.
-/

namespace Py

/-- `c.isdigit()` of a latin-1 character: the decimal digits, and `²`, `³` and `¹`. -/
def isdigitChar (b : UInt8) : Bool := (48 ≤ b && b ≤ 57) || b = 0xB2 || b = 0xB3 || b = 0xB9

/-- `s.isdigit()`. -/
def isdigit (s : Bytes) : Bool := s ≠ [] && s.all isdigitChar

/-- The number that a text of decimal digits denotes. -/
def digitsValue (s : Bytes) : Nat := s.foldl (fun n b => n * 10 + (b.toNat - 48)) 0

/-- `int(s)` of a text with `s.isdigit()`: a superscript digit is no decimal digit, and a longer
text exceeds `sys.get_int_max_str_digits()`. -/
def intOf (s : Bytes) : Except JsonError Nat :=
  if s.all (fun b => 48 ≤ b && b ≤ 57) && s.length ≤ maxStrDigits then .ok (digitsValue s)
  else .error .value

/-- The decimal text of `n` as a header value. -/
def decimal (n : Nat) : Bytes := (natText n).map fun c => c.val.toUInt8

theorem digit_toNat {c : CodePoint} (h : isDigit c = true) :
    c.val.toUInt8.toNat = c.val ∧ 48 ≤ c.val ∧ c.val ≤ 57 := by
  obtain ⟨h₀, h₉⟩ := Bool.and_eq_true_iff.mp h
  have h₀ : 48 ≤ c.val := of_decide_eq_true h₀
  have h₉ : c.val ≤ 57 := of_decide_eq_true h₉
  exact ⟨toUInt8_toNat (by omega), h₀, h₉⟩

theorem decimal_digits (n : Nat) : ∀ b ∈ decimal n, (48 ≤ b && b ≤ 57) = true := by
  intro b hb
  obtain ⟨c, hc, rfl⟩ := List.mem_map.mp hb
  obtain ⟨h, h₀, h₉⟩ := digit_toNat (natText_digits n c hc)
  rw [Bool.and_eq_true, decide_eq_true_eq, decide_eq_true_eq, UInt8.le_iff_toNat_le,
    UInt8.le_iff_toNat_le, h]
  exact ⟨h₀, h₉⟩

theorem isdigit_decimal (n : Nat) : isdigit (decimal n) = true := by
  have hne : decimal n ≠ [] := by
    obtain ⟨c, t, h, -⟩ := (natText_isIntBody n).head
    rw [decimal, h]
    exact List.cons_ne_nil _ _
  have hall : (decimal n).all isdigitChar = true := by
    rw [List.all_eq_true]
    intro b hb
    rw [isdigitChar, decimal_digits n b hb]
    rfl
  rw [isdigit, hall, Bool.and_true]
  exact decide_eq_true hne

theorem digitsValue_decimal (n : Nat) : digitsValue (decimal n) = n := by
  have general : ∀ (s : Str) (k : Nat), (∀ c ∈ s, isDigit c = true) →
      (s.map fun c => c.val.toUInt8).foldl (fun n b => n * 10 + (b.toNat - 48)) k =
        s.foldl (fun n c => n * 10 + (c.val - 48)) k := by
    intro s
    induction s with
    | nil => intro k _; rfl
    | cons c s ih =>
      intro k hs
      rw [List.map_cons, List.foldl_cons, List.foldl_cons, (digit_toNat (hs c (by simp))).1]
      exact ih _ fun d hd => hs d (List.mem_cons_of_mem _ hd)
  exact (general _ 0 (natText_digits n)).trans (natOf_natText n)

theorem intOf_decimal {n : Nat} (h : (natText n).length ≤ maxStrDigits) :
    intOf (decimal n) = .ok n := by
  have hall : (decimal n).all (fun b => 48 ≤ b && b ≤ 57) = true :=
    List.all_eq_true.mpr (decimal_digits n)
  rw [intOf, if_pos, digitsValue_decimal]
  rw [hall, Bool.true_and, decimal, List.length_map]
  exact decide_eq_true h

end Py
