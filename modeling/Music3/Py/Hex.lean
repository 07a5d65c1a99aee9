import Music3.Py.RoundTrip

/-!
# Hexadecimal text, and `str.split`

* `unhexlify_hexText`: the digits of bytes are read back as the bytes.
* `splitText_once`: a separator whose first character is nowhere else splits a text in two.
-/

namespace Py

/-! ## Hexadecimal text -/

/-- The two hexadecimal digits of a byte, as code points. -/
def hexPair (b : UInt8) : Str := [hexDigit (b.toNat / 16), hexDigit (b.toNat % 16)]

/-- `block.hex()`. -/
def hexText (block : Bytes) : Str := block.flatMap hexPair

/-- `binascii.hexlify(block)`. -/
def hexlify (block : Bytes) : Bytes := (hexText block).map fun c => c.val.toUInt8

/-- `binascii.unhexlify(s)` of a text, `none` for `binascii.Error`. -/
def unhexlify : Str → Option Bytes
  | [] => some []
  | [_] => none
  | a :: b :: s =>
    (hexVal a).bind fun h => (hexVal b).bind fun l =>
      (unhexlify s).map ((h * 16 + l).toUInt8 :: ·)

/-- Every character is a hexadecimal digit. -/
def IsHex (s : Str) : Prop := ∀ c ∈ s, (hexVal c).isSome = true

theorem isHex_of_all {s : Str} (h : s.all (fun c => (hexVal c).isSome) = true) : IsHex s :=
  List.all_eq_true.mp h

theorem unhexlify_hexText (block : Bytes) : unhexlify (hexText block) = some block := by
  induction block with
  | nil => rfl
  | cons b block ih =>
    have hb := b.toNat_lt
    have hbyte : (b.toNat / 16 * 16 + b.toNat % 16).toUInt8 = b := by
      rw [show b.toNat / 16 * 16 + b.toNat % 16 = b.toNat by omega]
      exact UInt8.ofNat_toNat
    show unhexlify (hexDigit (b.toNat / 16) :: hexDigit (b.toNat % 16) :: hexText block) = _
    rw [unhexlify, hexVal_hexDigit _ (by omega), hexVal_hexDigit _ (by omega), ih]
    simp only [Option.bind_some, Option.map_some, hbyte]

theorem isHex_hexText (block : Bytes) : IsHex (hexText block) := by
  intro c hc
  obtain ⟨b, -, hc⟩ := List.mem_flatMap.mp hc
  have hb := b.toNat_lt
  rcases List.mem_cons.mp hc with rfl | hc
  · rw [hexVal_hexDigit _ (by omega)]; rfl
  · rw [List.mem_singleton.mp hc, hexVal_hexDigit _ (by omega)]; rfl

theorem hexText_flatten (blocks : List Bytes) :
    (blocks.map hexText).flatten = hexText blocks.flatten := by
  induction blocks with
  | nil => rfl
  | cons block blocks ih =>
    rw [List.map_cons, List.flatten_cons, List.flatten_cons, ih, hexText, hexText, hexText,
      List.flatMap_append]

theorem hexlify_flatten (blocks : List Bytes) :
    (blocks.map hexlify).flatten = hexlify blocks.flatten := by
  rw [hexlify, ← hexText_flatten, List.map_flatten, List.map_map]
  rfl

/-! ## Hexadecimal text in JSON -/

theorem hex_val {c : CodePoint} (h : (hexVal c).isSome = true) :
    48 ≤ c.val ∧ c.val ≤ 57 ∨ 97 ≤ c.val ∧ c.val ≤ 102 ∨ 65 ≤ c.val ∧ c.val ≤ 70 := by
  unfold hexVal at h
  split at h
  · rename_i hc; exact .inl hc
  split at h
  · rename_i hc; exact .inr (.inl hc)
  split at h
  · rename_i hc; exact .inr (.inr hc)
  · cases h

/-- A text that is written in JSON as it is. -/
def Literal (s : Str) : Prop := s.flatMap escape = s

theorem literal_of_range {s : Str}
    (h : ∀ c ∈ s, 48 ≤ c.val ∧ c.val ≤ 90 ∨ 97 ≤ c.val ∧ c.val ≤ 122) :
    Literal s := by
  have hc : ∀ c : CodePoint, 48 ≤ c.val ∧ c.val ≤ 90 ∨ 97 ≤ c.val ∧ c.val ≤ 122 →
      escape c = [c] := by
    intro c hc
    have hne : ∀ d : CodePoint, d.val < 48 ∨ 90 < d.val ∧ d.val < 97 → c ≠ d := by
      rintro d hd rfl
      omega
    unfold escape
    rw [if_neg (hne _ (by decide)), if_neg (hne _ (by decide)), if_neg (hne _ (by decide)),
      if_neg (hne _ (by decide)), if_neg (hne _ (by decide)), if_neg (by omega), if_neg (by omega),
      if_pos (by omega)]
  unfold Literal
  induction s with
  | nil => rfl
  | cons c s ih =>
    rw [List.flatMap_cons, hc c (h c List.mem_cons_self),
      ih fun d hd => h d (List.mem_cons_of_mem _ hd)]
    rfl

theorem IsHex.literal {s : Str} (h : IsHex s) : Literal s :=
  literal_of_range fun c hc => by have := hex_val (h c hc); omega

theorem IsHex.ascii {s : Str} (h : IsHex s) : Ascii s := fun c hc => by
  have := hex_val (h c hc)
  exact ⟨by omega, by omega⟩

/-- The letter `S` comes from itself only: the escapes have lower-case letters and digits. -/
theorem mem_escape {d : CodePoint} (h : cp 'S' ∈ escape d) : d = cp 'S' := by
  have hhex : ∀ k < 16, cp 'S' ≠ hexDigit k := by decide
  have hesc : ∀ n, cp 'S' ∉ escape4 n := by
    intro n hn
    unfold escape4 at hn
    simp only [List.mem_cons, List.not_mem_nil, or_false] at hn
    rcases hn with e | e | e | e | e | e
    · exact absurd e (by decide)
    · exact absurd e (by decide)
    all_goals exact hhex _ (Nat.mod_lt _ (by decide)) e
  unfold escape at h
  repeat' split at h
  all_goals first
    | exact absurd h (by decide)
    | exact (List.mem_singleton.mp h).symm
    | exact absurd h (hesc _)
    | exact (List.mem_append.mp h).elim (fun h => absurd h (hesc _)) fun h => absurd h (hesc _)

theorem not_mem_quote {s : Str} (h : cp 'S' ∉ s) : ∀ c ∈ quote s, c ≠ cp 'S' := by
  rintro c hc rfl
  rcases List.mem_cons.mp hc with e | hc
  · exact absurd e (by decide)
  rcases List.mem_append.mp hc with hc | hc
  · obtain ⟨d, hd, he⟩ := List.mem_flatMap.mp hc
    exact h (mem_escape he ▸ hd)
  · exact absurd (List.mem_singleton.mp hc) (by decide)

theorem IsHex.not_mem {s : Str} (h : IsHex s) : cp 'S' ∉ s := fun hm => absurd (h _ hm) (by decide)

/-! ## `str.split` -/

/-- `s.split(sep)` for a separator that is not empty: `cur` is the part so far. -/
def splitText (sep : Str) (cur : Str) (s : Str) : List Str :=
  match s with
  | [] => [cur]
  | c :: r =>
    if sep ≠ [] ∧ sep <+: c :: r then cur :: splitText sep [] ((c :: r).drop sep.length)
    else splitText sep (cur ++ [c]) r
termination_by s.length
decreasing_by
  · have := List.length_pos_iff.mpr (‹sep ≠ [] ∧ sep <+: c :: r›).1
    simp only [List.length_drop, List.length_cons]
    omega
  · simp

section
variable {c : CodePoint} {sep pre stop : Str}

theorem splitText_skip (h : c ∉ pre) (cur s : Str) :
    splitText (c :: sep) cur (pre ++ s) = splitText (c :: sep) (cur ++ pre) s := by
  induction pre generalizing cur with
  | nil => rw [List.append_nil]; rfl
  | cons d pre ih =>
    obtain ⟨hd, hpre⟩ := not_or.mp (mt List.mem_cons.mpr h)
    have hno : ¬ (c :: sep ≠ [] ∧ c :: sep <+: d :: (pre ++ s)) := fun hp =>
      hd (List.cons_prefix_cons.mp hp.2).1
    rw [List.cons_append, splitText, if_neg hno, ih hpre, List.append_assoc]
    rfl

theorem splitText_once (hpre : c ∉ pre) (hstop : c ∉ stop) :
    splitText (c :: sep) [] (pre ++ (c :: sep ++ stop)) = [pre, stop] := by
  have hyes : c :: sep ≠ [] ∧ c :: sep <+: c :: sep ++ stop :=
    ⟨List.cons_ne_nil _ _, List.prefix_append _ _⟩
  have hrest : splitText (c :: sep) [] stop = [stop] := by
    have h : splitText (c :: sep) [] (stop ++ []) = splitText (c :: sep) ([] ++ stop) [] :=
      splitText_skip hstop [] []
    rw [List.append_nil, List.nil_append] at h
    rw [h, splitText]
  rw [List.cons_append] at hyes
  rw [splitText_skip hpre, List.nil_append, List.cons_append, splitText, if_pos hyes,
    ← List.cons_append, List.drop_left, hrest]

end

end Py
