import Mathlib.Algebra.Group.Nat.Defs
import Mathlib.Data.List.Basic

/-!
# Words and chunks of a RIFF file

`leVal` is the number that bytes stand for, the low byte first, and `leBytes k n` the `k` bytes of a
number. A `Chunk` is an id of four bytes and a body; in a file the size of the body stands between
the two, and a byte follows a body of odd size.
-/

namespace Riff

abbrev Bytes := List UInt8

/-- The number of some bytes, the low byte first. -/
def leVal : Bytes → Nat
  | [] => 0
  | b :: bs => b.toNat + 256 * leVal bs

/-- The low `k` bytes of a number. -/
def leBytes : Nat → Nat → Bytes
  | 0, _ => []
  | k + 1, n => (n % 256).toUInt8 :: leBytes k (n / 256)

@[simp] theorem length_leBytes (k n : Nat) : (leBytes k n).length = k := by
  induction k generalizing n with
  | zero => rfl
  | succ k ih => rw [leBytes, List.length_cons, ih]

theorem leVal_leBytes {k n : Nat} (h : n < 256 ^ k) : leVal (leBytes k n) = n := by
  induction k generalizing n with
  | zero =>
    rw [Nat.pow_zero] at h
    simp only [leBytes, leVal]
    omega
  | succ k ih =>
    rw [Nat.pow_succ] at h
    have hbyte : (n % 256).toUInt8.toNat = n % 256 :=
      UInt8.toNat_ofNat_of_lt' (Nat.mod_lt _ (by decide))
    rw [leBytes, leVal, ih (Nat.div_lt_of_lt_mul (by omega)), hbyte]
    omega

theorem leVal_inj {bs cs : Bytes} (hl : bs.length = cs.length) (h : leVal bs = leVal cs) :
    bs = cs := by
  induction bs generalizing cs with
  | nil => exact (List.eq_nil_of_length_eq_zero hl.symm).symm
  | cons b bs ih =>
    cases cs with
    | nil => cases hl
    | cons c cs =>
      simp only [leVal, List.length_cons, Nat.add_right_cancel_iff] at h hl
      have hb := b.toNat_lt
      have hc := c.toNat_lt
      rw [UInt8.toNat_inj.mp (show b.toNat = c.toNat by omega), ih hl (by omega)]

/-- The `k` bytes of a buffer from `off` on. -/
def wordAt (buf : Bytes) (off k : Nat) : Bytes := (buf.drop off).take k

/-- A word inside a part of a buffer. -/
theorem wordAt_inside {pre w post : Bytes} {off j k : Nat} (ho : off = pre.length + j)
    (hk : j + k ≤ w.length) : wordAt (pre ++ (w ++ post)) off k = wordAt w j k := by
  rw [wordAt, wordAt, ho, ← List.drop_drop, List.drop_left,
    List.drop_append_of_le_length (by omega),
    List.take_append_of_le_length (by rw [List.length_drop]; omega)]

theorem wordAt_append {pre w post : Bytes} {off k : Nat} (ho : off = pre.length)
    (hk : k = w.length) : wordAt (pre ++ (w ++ post)) off k = w := by
  rw [wordAt, ho, hk, List.drop_left, List.take_left]

/-- A chunk (module doc). -/
structure Chunk where
  id : Bytes
  body : Bytes
  pad : UInt8 := 0
  id_length : id.length = 4
  body_lt : body.length < 2 ^ 32

namespace Chunk

/-- The byte after a body of odd size. -/
def padding (c : Chunk) : Bytes := if c.body.length % 2 = 1 then [c.pad] else []

def bytes (c : Chunk) : Bytes := c.id ++ (leBytes 4 c.body.length ++ (c.body ++ c.padding))

theorem length_bytes (c : Chunk) : c.bytes.length = 8 + c.body.length + c.body.length % 2 := by
  have hp : c.padding.length = c.body.length % 2 := by
    unfold padding
    split
    · rename_i h
      exact h.symm
    · rename_i h
      rw [List.length_nil]
      omega
  simp only [bytes, List.length_append, c.id_length, length_leBytes, hp]
  omega

end Chunk

/-- A file: the id `RIFF`, its size, its form and its chunks. -/
def file (riff size form : Bytes) (chunks : List Chunk) : Bytes :=
  riff ++ (size ++ (form ++ chunks.flatMap Chunk.bytes))

end Riff
