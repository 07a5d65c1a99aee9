import Music3.Py.Str

/-!
# What UTF-8 keeps

A text without surrogates is read back from its UTF-8 bytes (`decodeUtf8_encodeUtf8`), also by
`json.loads`, if it starts with two ASCII characters (`decode_encodeUtf8_text`).
-/

namespace Py

/-! ## Bytes of a code point -/

theorem byte_toNat {n : Nat} (h : n < 256) : n.toUInt8.toNat = n := Nat.mod_eq_of_lt h

theorem byte_le {n m : Nat} (h : n < 256) (hm : m < 256) : n.toUInt8 ≤ m.toUInt8 ↔ n ≤ m := by
  rw [UInt8.le_iff_toNat_le, byte_toNat h, byte_toNat hm]

theorem isTail_byte {k : Nat} (h : k < 64) : isTail (0x80 + k).toUInt8 = true := by
  have hlow : (0x80 : Nat).toUInt8 ≤ (0x80 + k).toUInt8 := (byte_le (by decide) (by omega)).mpr (by omega)
  have hhigh : (0x80 + k).toUInt8 ≤ (0xBF : Nat).toUInt8 :=
    (byte_le (by omega) (by decide)).mpr (by omega)
  exact Bool.and_eq_true_iff.mpr ⟨decide_eq_true hlow, decide_eq_true hhigh⟩

theorem decodeUtf8_one {n : Nat} (h : n < 0x80) (r : Bytes) :
    decodeUtf8 (n.toUInt8 :: r) = (decodeUtf8 r).map (point n :: ·) := by
  have hn := byte_toNat (show n < 256 by omega)
  rw [decodeUtf8.eq_def]
  simp [UInt8.lt_iff_toNat_lt, -UInt8.toNat_ofNat', hn, h]

theorem decodeUtf8_two {n k : Nat} (h : 2 ≤ n) (hn : n < 32) (hk : k < 64) (r : Bytes) :
    decodeUtf8 ((0xC0 + n).toUInt8 :: (0x80 + k).toUInt8 :: r) =
      (decodeUtf8 r).map (point (n * 64 + k) :: ·) := by
  have hlead := byte_toNat (show 0xC0 + n < 256 by omega)
  have htail := byte_toNat (show 0x80 + k < 256 by omega)
  have htail' := isTail_byte hk
  generalize (0xC0 + n).toUInt8 = a at *
  generalize (0x80 + k).toUInt8 = b at *
  have h0 : ¬ a < 0x80 := by rw [UInt8.lt_iff_toNat_lt, hlead]; simp; omega
  have h1 : 0xC2 ≤ a := by rw [UInt8.le_iff_toNat_le, hlead]; simp; omega
  have h2 : a ≤ 0xDF := by rw [UInt8.le_iff_toNat_le, hlead]; simp; omega
  rw [decodeUtf8.eq_def]
  simp only [h0, h1, h2, htail', ↓reduceIte, decide_true, Bool.and_self, hlead, htail,
    Nat.add_sub_cancel_left]

theorem decodeUtf8_three {n j k : Nat} (hn : n < 16) (hj : j < 64) (hk : k < 64)
    (h : n = 0 → 0x20 ≤ j) (r : Bytes) :
    decodeUtf8 ((0xE0 + n).toUInt8 :: (0x80 + j).toUInt8 :: (0x80 + k).toUInt8 :: r) =
      (decodeUtf8 r).map (point (n * 4096 + j * 64 + k) :: ·) := by
  have hlead := byte_toNat (show 0xE0 + n < 256 by omega)
  have hb := byte_toNat (show 0x80 + j < 256 by omega)
  have hc := byte_toNat (show 0x80 + k < 256 by omega)
  have hb' := isTail_byte hj
  have hc' := isTail_byte hk
  generalize (0xE0 + n).toUInt8 = a at *
  generalize (0x80 + j).toUInt8 = b at *
  generalize (0x80 + k).toUInt8 = c at *
  have h0 : ¬ a < 0x80 := by rw [UInt8.lt_iff_toNat_lt, hlead]; simp; omega
  have h1 : ¬ a ≤ 0xDF := by rw [UInt8.le_iff_toNat_le, hlead]; simp; omega
  have h2 : 0xE0 ≤ a := by rw [UInt8.le_iff_toNat_le, hlead]; simp
  have h3 : a ≤ 0xEF := by rw [UInt8.le_iff_toNat_le, hlead]; simp; omega
  have h4 : (a != 0xE0 || decide (0xA0 ≤ b)) = true := by
    rcases Nat.eq_zero_or_pos n with hz | hz
    · have := h hz
      have hle : 0xA0 ≤ b := by rw [UInt8.le_iff_toNat_le, hb]; simp; omega
      simp [hle]
    · have hne : a ≠ 0xE0 := by rintro rfl; simp at hlead; omega
      simp [hne]
  rw [decodeUtf8.eq_def]
  simp only [h0, h1, h2, h3, h4, hb', hc', ↓reduceIte, decide_true, decide_false, Bool.and_false,
    Bool.false_and, Bool.false_eq_true, Bool.and_self, hlead, hb, hc, Nat.add_sub_cancel_left]

theorem decodeUtf8_four {n i j k : Nat} (hn : n < 5) (hi : i < 64) (hj : j < 64) (hk : k < 64)
    (h : n = 0 → 0x10 ≤ i) (h' : n = 4 → i < 0x10) (r : Bytes) :
    decodeUtf8 ((0xF0 + n).toUInt8 :: (0x80 + i).toUInt8 :: (0x80 + j).toUInt8 ::
        (0x80 + k).toUInt8 :: r) =
      (decodeUtf8 r).map (point (n * 262144 + i * 4096 + j * 64 + k) :: ·) := by
  have hlead := byte_toNat (show 0xF0 + n < 256 by omega)
  have hb := byte_toNat (show 0x80 + i < 256 by omega)
  have hc := byte_toNat (show 0x80 + j < 256 by omega)
  have hd := byte_toNat (show 0x80 + k < 256 by omega)
  have hb' := isTail_byte hi
  have hc' := isTail_byte hj
  have hd' := isTail_byte hk
  generalize (0xF0 + n).toUInt8 = a at *
  generalize (0x80 + i).toUInt8 = b at *
  generalize (0x80 + j).toUInt8 = c at *
  generalize (0x80 + k).toUInt8 = d at *
  have h0 : ¬ a < 0x80 := by rw [UInt8.lt_iff_toNat_lt, hlead]; simp; omega
  have h1 : ¬ a ≤ 0xDF := by rw [UInt8.le_iff_toNat_le, hlead]; simp; omega
  have h2 : ¬ a ≤ 0xEF := by rw [UInt8.le_iff_toNat_le, hlead]; simp; omega
  have h3 : 0xF0 ≤ a := by rw [UInt8.le_iff_toNat_le, hlead]; simp
  have h4 : a ≤ 0xF4 := by rw [UInt8.le_iff_toNat_le, hlead]; simp; omega
  have h5 : (a != 0xF0 || decide (0x90 ≤ b)) = true := by
    rcases Nat.eq_zero_or_pos n with hz | hz
    · have := h hz
      have hle : 0x90 ≤ b := by rw [UInt8.le_iff_toNat_le, hb]; simp; omega
      simp [hle]
    · have hne : a ≠ 0xF0 := by rintro rfl; simp at hlead; omega
      simp [hne]
  have h6 : (a != 0xF4 || decide (b ≤ 0x8F)) = true := by
    by_cases hz : n = 4
    · have := h' hz
      have hle : b ≤ 0x8F := by rw [UInt8.le_iff_toNat_le, hb]; simp; omega
      simp [hle]
    · have hne : a ≠ 0xF4 := by rintro rfl; simp at hlead; omega
      simp [hne]
  rw [decodeUtf8.eq_def]
  simp only [h0, h1, h2, h3, h4, h5, h6, hb', hc', hd', ↓reduceIte, decide_true, decide_false,
    Bool.and_false, Bool.false_and, Bool.false_eq_true, Bool.and_self, hlead, hb, hc, hd,
    Nat.add_sub_cancel_left]

/-! ## Texts -/

/-- The bytes of a code point are read as that code point. -/
theorem decodeUtf8_encodePoint {c : CodePoint} {b : Bytes} (h : encodePoint c = some b) (r : Bytes) :
    decodeUtf8 (b ++ r) = (decodeUtf8 r).map (c :: ·) := by
  have hc := c.isLt
  have hpoint : point c.val = c := by simp [point]
  unfold encodePoint at h
  simp only at h
  split at h
  · rename_i h1
    cases h
    rw [List.cons_append, List.nil_append, decodeUtf8_one h1, hpoint]
  split at h
  · cases h
    have hval : c.val / 64 * 64 + c.val % 64 = c.val := by omega
    simp only [List.cons_append, List.nil_append]
    rw [decodeUtf8_two (by omega) (by omega) (by omega), hval, hpoint]
  split at h
  · cases h
  split at h
  · cases h
    have hval : c.val / 4096 * 4096 + c.val / 64 % 64 * 64 + c.val % 64 = c.val := by omega
    simp only [List.cons_append, List.nil_append]
    rw [decodeUtf8_three (by omega) (by omega) (by omega) (by omega), hval, hpoint]
  · cases h
    have hval : c.val / 262144 * 262144 + c.val / 4096 % 64 * 4096 + c.val / 64 % 64 * 64 +
        c.val % 64 = c.val := by omega
    simp only [List.cons_append, List.nil_append]
    rw [decodeUtf8_four (by omega) (by omega) (by omega) (by omega) (by omega) (by omega), hval,
      hpoint]

theorem encodeUtf8_cons {c : CodePoint} {s : Str} {b : Bytes} (h : encodeUtf8 (c :: s) = some b) :
    ∃ b₁ b₂, encodePoint c = some b₁ ∧ encodeUtf8 s = some b₂ ∧ b = b₁ ++ b₂ := by
  obtain ⟨b₁, h₁, h⟩ := Option.bind_eq_some_iff.mp h
  obtain ⟨b₂, h₂, rfl⟩ := Option.map_eq_some_iff.mp h
  exact ⟨b₁, b₂, h₁, h₂, rfl⟩

/-- A text is read back from its UTF-8 bytes. -/
theorem decodeUtf8_encodeUtf8 {s : Str} {b : Bytes} (h : encodeUtf8 s = some b) :
    decodeUtf8 b = some s := by
  induction s generalizing b with
  | nil => cases h; rfl
  | cons c s ih =>
    obtain ⟨b₁, b₂, h₁, h₂, rfl⟩ := encodeUtf8_cons h
    rw [decodeUtf8_encodePoint h₁, ih h₂]
    rfl

theorem encodePoint_isSome {c : CodePoint} (h : isSurrogate c.val = false) :
    (encodePoint c).isSome = true := by
  simp only [encodePoint, h]
  split <;> [rfl; split <;> [rfl; split <;> [simp_all; split <;> rfl]]]

/-- A text without surrogates has UTF-8 bytes. -/
theorem encodeUtf8_isSome {s : Str} (h : ∀ c ∈ s, isSurrogate c.val = false) :
    (encodeUtf8 s).isSome = true := by
  induction s with
  | nil => rfl
  | cons c s ih =>
    obtain ⟨b₁, h₁⟩ := Option.isSome_iff_exists.mp (encodePoint_isSome (h c List.mem_cons_self))
    obtain ⟨b₂, h₂⟩ := Option.isSome_iff_exists.mp (ih fun d hd => h d (List.mem_cons_of_mem _ hd))
    simp [encodeUtf8, h₁, h₂]

theorem detectEncoding_two {a b : UInt8} (r : Bytes) (ha : a ≠ 0 ∧ a < 0x80) (hb : b ≠ 0) :
    detectEncoding (a :: b :: r) = .utf8 := by
  have no : ∀ (x : UInt8) (p : Bytes), (x = 0 ∨ ¬ x < 0x80) → ¬ (x :: p) <+: a :: b :: r := by
    intro x p hx hp
    obtain rfl := (List.cons_prefix_cons.mp hp).1
    exact hx.elim ha.1 fun hn => hn ha.2
  unfold detectEncoding
  rw [if_neg, if_neg, if_neg]
  · match r with
    | [] | [_] | _ :: _ :: _ => simp [ha.1, hb]
  · exact no _ _ (.inr (by decide))
  · exact fun hp => hp.elim (no _ _ (.inr (by decide))) (no _ _ (.inr (by decide)))
  · exact fun hp => hp.elim (no _ _ (.inl rfl)) (no _ _ (.inr (by decide)))

/-- `json.loads` takes the bytes of a text that starts with two ASCII characters for UTF-8. -/
theorem decode_encodeUtf8_text {c d : CodePoint} {s : Str} {b : Bytes} (hc : isAscii c)
    (hd : isAscii d) (h : encodeUtf8 (c :: d :: s) = some b) : decode b = some (c :: d :: s) := by
  obtain ⟨b₁, b₂, h₁, h₂, rfl⟩ := encodeUtf8_cons h
  obtain ⟨b₃, b₄, h₃, h₄, rfl⟩ := encodeUtf8_cons h₂
  simp only [encodePoint, hc.2, hd.2, ↓reduceIte, Option.some.injEq] at h₁ h₃
  subst h₁ h₃
  have hne : ∀ x : CodePoint, isAscii x → x.val.toUInt8 ≠ 0 := by
    intro x hx e
    have := congrArg UInt8.toNat e
    rw [toUInt8_toNat hx.2] at this
    exact Nat.ne_of_gt hx.1 this
  have hlt : c.val.toUInt8 < 0x80 := by rw [UInt8.lt_iff_toNat_lt, toUInt8_toNat hc.2]; exact hc.2
  have hdetect := detectEncoding_two b₄ ⟨hne c hc, hlt⟩ (hne d hd)
  simp only [List.cons_append, List.nil_append] at h ⊢
  rw [decode, hdetect]
  exact decodeUtf8_encodeUtf8 h

end Py
