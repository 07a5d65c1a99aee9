import Mathlib.Data.List.Basic

/-!
# Python strings and bytes

A `str` is a list of code points, surrogates included (`json.loads` can make lone ones), so it is
not a Lean `String`. `lit` writes a Lean literal as a `str`.

`encodeUtf8` is `str.encode()` (a surrogate raises `UnicodeEncodeError`, here `none`).
`decode` is `b.decode(detect_encoding(b), 'surrogatepass')` of the `json` module; `none` is
`UnicodeDecodeError`. An ASCII text without NUL survives the way there and back
(`decode_encodeUtf8`).
-/

namespace Py

/-- A code point. -/
abbrev CodePoint := Fin 0x110000

/-- `str`. -/
abbrev Str := List CodePoint

/-- `bytes`. -/
abbrev Bytes := List UInt8

theorem char_toNat_lt (c : Char) : c.toNat < 0x110000 := by
  rcases c.valid with h | h
  · exact Nat.lt_trans h (by decide)
  · exact h.2

/-- The code point of a Lean character. -/
def cp (c : Char) : CodePoint := ⟨c.toNat, char_toNat_lt c⟩

/-- A Lean literal as a `str`. -/
def lit (s : String) : Str := s.toList.map cp

/-- The code point `n`, for `n` that is known to be one. -/
def point (n : Nat) : CodePoint := Fin.ofNat 0x110000 n

theorem point_val {n : Nat} (h : n < 0x110000) : (point n).val = n := Nat.mod_eq_of_lt h

def isHigh (n : Nat) : Bool := 0xD800 ≤ n && n ≤ 0xDBFF
def isLow (n : Nat) : Bool := 0xDC00 ≤ n && n ≤ 0xDFFF

/-- A surrogate code point. -/
def isSurrogate (n : Nat) : Bool := 0xD800 ≤ n && n ≤ 0xDFFF

/-- The code point of a surrogate pair. -/
def joinPair (h l : Nat) : Nat := 0x10000 + (h - 0xD800) * 0x400 + (l - 0xDC00)

/-! ## `str.encode()` -/

/-- The UTF-8 bytes of a code point; a surrogate has none. -/
def encodePoint (c : CodePoint) : Option Bytes :=
  let n := c.val
  if n < 0x80 then some [n.toUInt8]
  else if n < 0x800 then some [(0xC0 + n / 64).toUInt8, (0x80 + n % 64).toUInt8]
  else if isSurrogate n then none
  else if n < 0x10000 then
    some [(0xE0 + n / 4096).toUInt8, (0x80 + n / 64 % 64).toUInt8, (0x80 + n % 64).toUInt8]
  else
    some [(0xF0 + n / 262144).toUInt8, (0x80 + n / 4096 % 64).toUInt8,
      (0x80 + n / 64 % 64).toUInt8, (0x80 + n % 64).toUInt8]

/-- `s.encode()`. -/
def encodeUtf8 : Str → Option Bytes
  | [] => some []
  | c :: s => (encodePoint c).bind fun b => (encodeUtf8 s).map (b ++ ·)

/-! ## Decoding, as `json.loads` does it -/

def isTail (b : UInt8) : Bool := 0x80 ≤ b && b ≤ 0xBF

/-- `b.decode('utf-8', 'surrogatepass')`: UTF-8 without overlong forms, and the three-byte forms
of the surrogates. -/
def decodeUtf8 : Bytes → Option Str
  | [] => some []
  | a :: r =>
    if a < 0x80 then (decodeUtf8 r).map (point a.toNat :: ·)
    else match r with
    | b :: r =>
      if 0xC2 ≤ a && a ≤ 0xDF && isTail b then
        (decodeUtf8 r).map (point ((a.toNat - 0xC0) * 64 + (b.toNat - 0x80)) :: ·)
      else match r with
      | c :: r =>
        if 0xE0 ≤ a && a ≤ 0xEF && isTail b && isTail c && (a != 0xE0 || 0xA0 ≤ b) then
          (decodeUtf8 r).map (point ((a.toNat - 0xE0) * 4096 + (b.toNat - 0x80) * 64 +
            (c.toNat - 0x80)) :: ·)
        else match r with
        | d :: r =>
          if 0xF0 ≤ a && a ≤ 0xF4 && isTail b && isTail c && isTail d &&
              (a != 0xF0 || 0x90 ≤ b) && (a != 0xF4 || b ≤ 0x8F) then
            (decodeUtf8 r).map (point ((a.toNat - 0xF0) * 262144 + (b.toNat - 0x80) * 4096 +
              (c.toNat - 0x80) * 64 + (d.toNat - 0x80)) :: ·)
          else none
        | [] => none
      | [] => none
    | [] => none

/-- The 16-bit units of a UTF-16 text; an odd last byte is truncated data. -/
def units16 (be : Bool) : Bytes → Option (List Nat)
  | [] => some []
  | a :: b :: r =>
    (units16 be r).map ((if be then a.toNat * 256 + b.toNat else b.toNat * 256 + a.toNat) :: ·)
  | [_] => none

/-- The code points of UTF-16 units; a lone surrogate passes. A joined pair is no surrogate, so
the head of the rest is a low surrogate only if the next unit is one. -/
def joinUnits : List Nat → Str
  | [] => []
  | h :: r =>
    match joinUnits r with
    | l :: t => if isHigh h && isLow l.val then point (joinPair h l.val) :: t
      else point h :: l :: t
    | [] => [point h]

/-- `b.decode('utf-16-be'` or `'utf-16-le', 'surrogatepass')`. -/
def decodeUtf16 (be : Bool) (b : Bytes) : Option Str := (units16 be b).map joinUnits

/-- `b.decode('utf-32-be'` or `'utf-32-le', 'surrogatepass')`. -/
def decodeUtf32 (be : Bool) : Bytes → Option Str
  | [] => some []
  | a :: b :: c :: d :: r =>
    let n := if be then ((a.toNat * 256 + b.toNat) * 256 + c.toNat) * 256 + d.toNat
      else ((d.toNat * 256 + c.toNat) * 256 + b.toNat) * 256 + a.toNat
    if n < 0x110000 then (decodeUtf32 be r).map (point n :: ·) else none
  | _ => none

inductive Encoding where
  | utf8 | utf8Sig | utf16 | utf16be | utf16le | utf32 | utf32be | utf32le
  deriving DecidableEq

/-- `json.detect_encoding`. -/
def detectEncoding (b : Bytes) : Encoding :=
  if [0x00, 0x00, 0xFE, 0xFF] <+: b ∨ [0xFF, 0xFE, 0x00, 0x00] <+: b then .utf32
  else if [0xFE, 0xFF] <+: b ∨ [0xFF, 0xFE] <+: b then .utf16
  else if [0xEF, 0xBB, 0xBF] <+: b then .utf8Sig
  else match b with
    | b0 :: b1 :: b2 :: b3 :: _ =>
      if b0 = 0 then (if b1 ≠ 0 then .utf16be else .utf32be)
      else if b1 = 0 then (if b2 ≠ 0 ∨ b3 ≠ 0 then .utf16le else .utf32le)
      else .utf8
    | [b0, b1] => if b0 = 0 then .utf16be else if b1 = 0 then .utf16le else .utf8
    | _ => .utf8

/-- `b.decode(enc, 'surrogatepass')`. The codecs `utf-16` and `utf-32` read the byte order from
the mark that `detectEncoding` saw, and drop it. -/
def Encoding.decode (b : Bytes) : Encoding → Option Str
  | .utf8 => decodeUtf8 b
  | .utf8Sig => decodeUtf8 (b.drop 3)
  | .utf16be => decodeUtf16 true b
  | .utf16le => decodeUtf16 false b
  | .utf16 => decodeUtf16 (b.head? = some 0xFE) (b.drop 2)
  | .utf32be => decodeUtf32 true b
  | .utf32le => decodeUtf32 false b
  | .utf32 => decodeUtf32 (b.head? = some 0x00) (b.drop 4)

/-- The text that `json.loads` reads from bytes. -/
def decode (b : Bytes) : Option Str := (detectEncoding b).decode b

/-! ## ASCII -/

/-- An ASCII character other than NUL. -/
def isAscii (c : CodePoint) : Prop := 0 < c.val ∧ c.val < 0x80

theorem encodeUtf8_ascii {s : Str} (h : ∀ c ∈ s, isAscii c) :
    encodeUtf8 s = some (s.map fun c => c.val.toUInt8) := by
  induction s with
  | nil => rfl
  | cons c s ih =>
    have hc := (h c (by simp)).2
    simp [encodeUtf8, encodePoint, hc, ih fun x hx => h x (by simp [hx])]

theorem toUInt8_toNat {n : Nat} (h : n < 0x80) : n.toUInt8.toNat = n :=
  Nat.mod_eq_of_lt (by omega)

theorem decodeUtf8_ascii {s : Str} (h : ∀ c ∈ s, isAscii c) :
    decodeUtf8 (s.map fun c => c.val.toUInt8) = some s := by
  induction s with
  | nil => rfl
  | cons c s ih =>
    have hc := (h c (by simp)).2
    have hlt : c.val.toUInt8 < 0x80 := by
      rw [UInt8.lt_iff_toNat_lt, toUInt8_toNat hc]; exact hc
    rw [List.map_cons, decodeUtf8.eq_def]
    simp only [hlt, ↓reduceIte, ih fun x hx => h x (by simp [hx]), toUInt8_toNat hc, point,
      Fin.ofNat_val_eq_self, Option.map_some]

theorem detectEncoding_ascii {b : Bytes} (h : ∀ x ∈ b, x ≠ 0 ∧ x < 0x80) :
    detectEncoding b = .utf8 := by
  have no : ∀ p : Bytes, ∀ x ∈ p, (x = 0 ∨ ¬ x < 0x80) → ¬ p <+: b := by
    intro p x hx hbad hp
    obtain ⟨h0, h1⟩ := h x (hp.subset hx)
    exact hbad.elim h0 fun hn => hn h1
  unfold detectEncoding
  rw [if_neg, if_neg, if_neg]
  · match b, h with
    | [], _ => rfl
    | [_], _ => rfl
    | [b0, b1], h =>
      simp only [(h b0 (by simp)).1, (h b1 (by simp)).1, if_false]
    | [_, _, _], _ => rfl
    | b0 :: b1 :: b2 :: b3 :: _, h =>
      simp only [(h b0 (by simp)).1, (h b1 (by simp)).1, if_false]
  · exact no _ 0xEF (by simp) (.inr (by decide))
  · exact fun hp => hp.elim (no _ 0xFE (by simp) (.inr (by decide)))
      (no _ 0xFE (by simp) (.inr (by decide)))
  · exact fun hp => hp.elim (no _ 0xFE (by simp) (.inr (by decide)))
      (no _ 0xFE (by simp) (.inr (by decide)))

/-- An ASCII text without NUL is read back from its bytes. -/
theorem decode_encodeUtf8 {s : Str} {b : Bytes} (h : ∀ c ∈ s, isAscii c)
    (hb : encodeUtf8 s = some b) : decode b = some s := by
  rw [encodeUtf8_ascii h] at hb
  cases hb
  rw [decode, detectEncoding_ascii]
  · exact decodeUtf8_ascii h
  · intro x hx
    obtain ⟨c, hc, rfl⟩ := List.mem_map.mp hx
    obtain ⟨h0, h1⟩ := h c hc
    refine ⟨fun e => ?_, ?_⟩
    · have := congrArg UInt8.toNat e
      rw [toUInt8_toNat h1] at this
      exact Nat.ne_of_gt h0 this
    · rw [UInt8.lt_iff_toNat_lt, toUInt8_toNat h1]; exact h1

end Py
