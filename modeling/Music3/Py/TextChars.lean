import Music3.Py.Dumps

/-!
# The characters of a JSON text

`render_chars`: a property of characters holds throughout a text of `json.dumps` if it holds of the
digits, the punctuation and the letters of its names (`textChars`) and throughout each of its
strings (`Json.strings`). Two properties are used: to be ASCII, and not to be a certain letter.

A text without `indent` has no line breaks but those in its strings (`render_chars_line`), and a
string has none (`printable_quote`).
-/

namespace Py

mutual
/-- The strings and the keys in a value. -/
def Json.strings : Json → List Str
  | .str s => [s]
  | .arr xs => stringsList xs
  | .obj kvs => stringsFields kvs
  | .null | .bool _ | .int _ | .float _ => []
def Json.stringsList : List Json → List Str
  | [] => []
  | x :: xs => x.strings ++ stringsList xs
def Json.stringsFields : List (Str × Json) → List Str
  | [] => []
  | (k, x) :: kvs => k :: (x.strings ++ stringsFields kvs)
end

/-- What a text is made of, besides its strings. -/
def textChars : Str := lit "0123456789+-.,: \n[]{}nulltruefalseInfinityNaN"

/-- The same without the line break. -/
def lineChars : Str := lit "0123456789+-.,: []{}nulltruefalseInfinityNaN"

theorem natText_digits (n : Nat) : ∀ c ∈ natText n, isDigit c = true := by
  intro c hc
  obtain ⟨x, hx, rfl⟩ := List.mem_map.mp hc
  have := Nat.isDigit_of_mem_toDigits (by decide) (by decide) hx
  simp only [Char.isDigit, Bool.and_eq_true, decide_eq_true_eq, ge_iff_le,
    UInt32.le_iff_toNat_le] at this
  simp only [isDigit, Bool.and_eq_true, decide_eq_true_eq, Fin.le_def]
  exact this

theorem digit_mem_lineChars {c : CodePoint} (h : isDigit c = true) : c ∈ lineChars := by
  simp only [isDigit, Bool.and_eq_true, decide_eq_true_eq, Fin.le_def] at h
  have h0 : (cp '0').val = 48 := rfl
  have h9 : (cp '9').val = 57 := rfl
  have hten : ∀ k < 10, point (48 + k) ∈ lineChars := by decide
  have hc : c = point (48 + (c.val - 48)) := by
    apply Fin.ext
    rw [point_val (by omega)]
    omega
  rw [hc]
  exact hten _ (by omega)

theorem isDigit_of_le {c : CodePoint} (h₁ : cp '1' ≤ c) (h₂ : c ≤ cp '9') : isDigit c = true := by
  simp only [isDigit, Bool.and_eq_true, decide_eq_true_eq]
  exact ⟨le_trans (by decide) h₁, h₂⟩

section
variable {p : CodePoint → Prop} (hp : ∀ c ∈ lineChars, p c)
include hp

theorem chars_sub {s : Str} (h : s ⊆ lineChars) : ∀ c ∈ s, p c := fun c hc => hp c (h hc)

theorem chars_digits {s : Str} (h : ∀ c ∈ s, isDigit c = true) : ∀ c ∈ s, p c :=
  chars_sub hp fun c hc => digit_mem_lineChars (h c hc)

theorem chars_intText (n : Int) : ∀ c ∈ intText n, p c := by
  have hd := chars_digits hp (natText_digits n.natAbs)
  unfold intText
  split
  · exact List.forall_mem_cons.mpr ⟨hp _ (by decide), hd⟩
  · exact hd

theorem chars_floatBody {s : Str} (h : IsFloatBody s) : ∀ c ∈ s, p c := by
  obtain ⟨i, f, e, rfl, hi, hf, he, -⟩ := h
  refine List.forall_mem_append.mpr ⟨List.forall_mem_append.mpr ⟨?_, ?_⟩, ?_⟩
  · rcases hi with rfl | ⟨c, t, rfl, h₁, h₂, ht⟩
    · exact chars_sub hp (by decide)
    · exact chars_digits hp (List.forall_mem_cons.mpr ⟨isDigit_of_le h₁ h₂, ht⟩)
  · rcases hf with rfl | ⟨t, rfl, -, ht⟩
    · exact List.forall_mem_nil _
    · exact List.forall_mem_cons.mpr ⟨hp _ (by decide), chars_digits hp ht⟩
  · rcases he with rfl | ⟨sg, t, rfl, hsg, -, ht⟩
    · exact List.forall_mem_nil _
    · refine List.forall_mem_cons.mpr ⟨hp _ (by decide), List.forall_mem_cons.mpr ⟨?_, ?_⟩⟩
      · rcases hsg with rfl | rfl <;> exact hp _ (by decide)
      · exact chars_digits hp ht

theorem chars_floatText (F : FloatText) (x : PyFloat) : ∀ c ∈ floatText F x, p c := by
  unfold floatText
  split
  · rename_i hx
    rcases F.token x hx with h | ⟨t, e, h⟩
    · exact chars_floatBody hp h
    · rw [e]
      exact List.forall_mem_cons.mpr ⟨hp _ (by decide), chars_floatBody hp h⟩
  split
  · exact chars_sub hp (by decide)
  split <;> exact chars_sub hp (by decide)

section
variable {F : FloatText} {o : DumpOpts} (hn : ∀ lvl, ∀ c ∈ newline o lvl, p c)
include hn

theorem chars_itemSep (lvl : Nat) : ∀ c ∈ itemSep o lvl, p c := by
  unfold itemSep
  split
  · exact chars_sub hp (by decide)
  · exact List.forall_mem_cons.mpr ⟨hp _ (by decide), hn lvl⟩

mutual
theorem render_chars_of (lvl : Nat) : ∀ v : Json, (∀ s ∈ v.strings, ∀ c ∈ quote s, p c) →
    ∀ c ∈ render F o lvl v, p c
  | .null, _ | .bool true, _ | .bool false, _ => by
    simp only [render]
    exact chars_sub hp (by decide)
  | .int n, _ => by rw [render]; exact chars_intText hp n
  | .float x, _ => by rw [render]; exact chars_floatText hp F x
  | .str s, h => by rw [render]; exact h s (by rw [Json.strings]; exact List.mem_singleton_self s)
  | .arr [], _ | .obj [], _ => by
    simp only [render]
    exact chars_sub hp (by decide)
  | .arr (x :: xs), h => by
    rw [Json.strings, Json.stringsList, List.forall_mem_append] at h
    rw [render]
    simp only [List.forall_mem_cons, List.forall_mem_append]
    exact ⟨hp _ (by decide), hn _, render_chars_of _ x h.1, renderElems_chars_of _ xs h.2, hn _,
      hp _ (by decide), List.forall_mem_nil _⟩
  | .obj ((k, x) :: kvs), h => by
    rw [Json.strings, Json.stringsFields, List.forall_mem_cons, List.forall_mem_append] at h
    rw [render]
    simp only [List.forall_mem_cons, List.forall_mem_append]
    exact ⟨hp _ (by decide), hn _, h.1, chars_sub hp (by decide), render_chars_of _ x h.2.1,
      renderMembers_chars_of _ kvs h.2.2, hn _, hp _ (by decide), List.forall_mem_nil _⟩
theorem renderElems_chars_of (lvl : Nat) : ∀ xs : List Json,
    (∀ s ∈ Json.stringsList xs, ∀ c ∈ quote s, p c) → ∀ c ∈ renderElems F o lvl xs, p c
  | [], _ => List.forall_mem_nil _
  | x :: xs, h => by
    rw [Json.stringsList, List.forall_mem_append] at h
    rw [renderElems]
    simp only [List.forall_mem_append]
    exact ⟨chars_itemSep hp hn _, render_chars_of _ x h.1, renderElems_chars_of _ xs h.2⟩
theorem renderMembers_chars_of (lvl : Nat) : ∀ kvs : Dict,
    (∀ s ∈ Json.stringsFields kvs, ∀ c ∈ quote s, p c) → ∀ c ∈ renderMembers F o lvl kvs, p c
  | [], _ => List.forall_mem_nil _
  | (k, x) :: kvs, h => by
    rw [Json.stringsFields, List.forall_mem_cons, List.forall_mem_append] at h
    rw [renderMembers]
    simp only [List.forall_mem_append]
    exact ⟨chars_itemSep hp hn _, h.1, chars_sub hp (by decide), render_chars_of _ x h.2.1,
      renderMembers_chars_of _ kvs h.2.2⟩
end

end

end

section
variable {p : CodePoint → Prop} (F : FloatText) (o : DumpOpts)

theorem render_chars (hp : ∀ c ∈ textChars, p c) (lvl : Nat) (v : Json)
    (h : ∀ s ∈ v.strings, ∀ c ∈ quote s, p c) : ∀ c ∈ render F o lvl v, p c := by
  have hsub : lineChars ⊆ textChars := by decide
  refine render_chars_of (fun c hc => hp c (hsub hc)) (fun lvl => ?_) lvl v h
  unfold newline
  split
  · exact List.forall_mem_nil _
  · refine List.forall_mem_cons.mpr ⟨hp _ (by decide), fun c hc => ?_⟩
    rw [List.eq_of_mem_replicate hc]
    exact hp _ (by decide)

theorem render_chars_line (hp : ∀ c ∈ lineChars, p c) (ho : o.indent = none) (lvl : Nat) (v : Json)
    (h : ∀ s ∈ v.strings, ∀ c ∈ quote s, p c) : ∀ c ∈ render F o lvl v, p c := by
  refine render_chars_of hp (fun lvl => ?_) lvl v h
  unfold newline
  rw [ho]
  exact List.forall_mem_nil _

end

/-! ## Strings -/

theorem printable_of_all {s : Str} (h : s.all (fun c => 0x20 ≤ c.val) = true) :
    ∀ c ∈ s, 0x20 ≤ c.val := fun c hc => of_decide_eq_true (List.all_eq_true.mp h c hc)

theorem printable_hexDigit {n : Nat} (h : n < 16) : 0x20 ≤ (hexDigit n).val := by
  unfold hexDigit
  split
  · rw [point_val (by omega)]
    omega
  · rw [point_val (by omega)]
    omega

theorem printable_escape4 (n : Nat) : ∀ c ∈ escape4 n, 0x20 ≤ c.val := by
  have hdigit : ∀ k, 0x20 ≤ (hexDigit (k % 16)).val := fun k =>
    printable_hexDigit (Nat.mod_lt _ (by decide))
  simp only [escape4, List.forall_mem_cons, List.not_mem_nil, IsEmpty.forall_iff, implies_true,
    and_true, hdigit]
  exact ⟨by decide, by decide⟩

/-- The text of a string has no control characters. -/
theorem printable_quote (s : Str) : ∀ c ∈ quote s, 0x20 ≤ c.val := by
  have hescape : ∀ x : CodePoint, ∀ c ∈ escape x, 0x20 ≤ c.val := by
    intro x
    unfold escape
    repeat' split
    iterate 7 exact printable_of_all (by decide)
    · rename_i h
      simpa using h.1
    · exact printable_escape4 _
    · exact List.forall_mem_append.mpr ⟨printable_escape4 _, printable_escape4 _⟩
  simp only [quote, List.forall_mem_cons, List.forall_mem_append, List.forall_mem_flatMap]
  exact ⟨by decide, fun x _ => hescape x, by decide, List.forall_mem_nil _⟩

/-- A text without `indent` is one line. -/
theorem printable_dumps {F : FloatText} {o : DumpOpts} {v : Json} {t : Str} (ho : o.indent = none)
    (h : dumps F o v = .ok t) : ∀ c ∈ t, 0x20 ≤ c.val := by
  unfold dumps at h
  simp only at h
  split at h
  · cases h
  · cases h
    exact render_chars_line F o (printable_of_all (by decide)) ho 0 _ fun s _ => printable_quote s

end Py
