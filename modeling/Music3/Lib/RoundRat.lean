import Mathlib.Algebra.Order.Floor.Semifield
import Mathlib.Data.Int.Log
import Mathlib.Data.Rat.Floor
import Mathlib.Tactic.FieldSimp
import Mathlib.Tactic.Linarith
import Mathlib.Tactic.Positivity
import Music3.Lib.Rounding

/-!
# Rounding a rational to a binary significand

`roundRat p x` is the number nearest to `x`, which is not negative, of those whose significand has a
leading one and `p` bits after it, and halfway between two of them the one with an even significand.
The exponent has no bounds.

* `roundRat_near`: it is near, relative to `x`.
* `roundRat_natCast`: of a whole number it is `round`.
* `floor_roundRat_mul`: the whole part of a product that is rounded twice is that of the exact one, or
  one less where that is a whole number.
-/

namespace Rounding

variable {p n : Nat} {x : ℚ}

/-- The whole number nearest to `x`; halfway between two, the even one. -/
def toNearest (x : ℚ) : Nat :=
  if x - ⌊x⌋₊ < 1 / 2 ∨ (x - ⌊x⌋₊ = 1 / 2 ∧ ⌊x⌋₊ % 2 = 0) then ⌊x⌋₊ else ⌊x⌋₊ + 1

theorem toNearest_half (hx : 0 ≤ x) : |x - toNearest x| ≤ 1 / 2 := by
  have hlow := Nat.floor_le hx
  have hhigh := Nat.lt_floor_add_one x
  unfold toNearest
  rw [abs_le]
  split
  · rename_i h
    rcases h with h | ⟨h, -⟩ <;> constructor <;> linarith
  · rename_i h
    obtain ⟨h, -⟩ := not_or.mp h
    push_cast
    constructor <;> linarith

@[simp] theorem toNearest_natCast (n : Nat) : toNearest n = n := by
  simp [toNearest]

/-- The nearest multiple is the nearest of the quotients. -/
theorem toNearest_div (u n : Nat) (hu : 0 < u) : toNearest ((n : ℚ) / u) * u = nearest u n := by
  have hu' : (0 : ℚ) < u := Nat.cast_pos.mpr hu
  have hrest : (n : ℚ) / u - (n / u : Nat) = ((n % u : Nat) : ℚ) / u := by
    have hsplit : (n : ℚ) = (n / u : Nat) * u + (n % u : Nat) := by
      exact_mod_cast (Nat.div_add_mod' n u).symm
    rw [sub_eq_iff_eq_add, div_add' _ _ _ hu'.ne', div_left_inj' hu'.ne', add_comm]
    exact hsplit
  have hlt : ((n % u : Nat) : ℚ) / u < 1 / 2 ↔ 2 * (n % u) < u := by
    rw [div_lt_div_iff₀ hu' (by norm_num)]
    norm_cast
    omega
  have heq : ((n % u : Nat) : ℚ) / u = 1 / 2 ↔ 2 * (n % u) = u := by
    rw [div_eq_div_iff hu'.ne' (by norm_num)]
    norm_cast
    omega
  unfold toNearest nearest
  rw [Nat.floor_div_eq_div, hrest]
  simp only [hlt, heq]
  split <;> rfl

/-- The gap between the numbers with `p` bits after the leading one, from the power of two that is
not above `x` to the next. -/
def gap (p : Nat) (x : ℚ) : ℚ := 2 ^ (Int.log 2 x - p)

/-- `x` rounded to a significand with `p` bits after the leading one, half to even. -/
def roundRat (p : Nat) (x : ℚ) : ℚ := toNearest (x / gap p x) * gap p x

theorem gap_pos (p : Nat) (x : ℚ) : 0 < gap p x := zpow_pos (by norm_num) _

theorem gap_le (p : Nat) (hx : 0 < x) : gap p x ≤ x / 2 ^ p := by
  have hlog : (2 : ℚ) ^ Int.log 2 x ≤ x := by exact_mod_cast Int.zpow_log_le_self one_lt_two hx
  rw [gap, zpow_sub₀ (by norm_num), zpow_natCast]
  exact div_le_div_of_nonneg_right hlog (by positivity)

@[simp] theorem roundRat_zero (p : Nat) : roundRat p 0 = 0 := by
  have hzero : toNearest 0 = 0 := toNearest_natCast 0
  rw [roundRat, zero_div, hzero, Nat.cast_zero, zero_mul]

theorem roundRat_nonneg (p : Nat) (x : ℚ) : 0 ≤ roundRat p x :=
  mul_nonneg (Nat.cast_nonneg _) (gap_pos p x).le

/-- The error is at most half a gap. -/
theorem roundRat_near (p : Nat) (hx : 0 ≤ x) : |x - roundRat p x| ≤ x / 2 ^ (p + 1) := by
  rcases hx.eq_or_lt with rfl | hpos
  · simp
  have hg := gap_pos p x
  have hsplit : x - roundRat p x = (x / gap p x - toNearest (x / gap p x)) * gap p x := by
    rw [roundRat, sub_mul, div_mul_cancel₀ _ hg.ne']
  calc |x - roundRat p x| = |x / gap p x - toNearest (x / gap p x)| * gap p x := by
        rw [hsplit, abs_mul, abs_of_pos hg]
    _ ≤ 1 / 2 * (x / 2 ^ p) := by
        gcongr
        · exact toNearest_half (div_nonneg hx hg.le)
        · exact gap_le p hpos
    _ = x / 2 ^ (p + 1) := by rw [pow_succ]; field_simp

/-- A whole number is rounded as by `round`. -/
theorem roundRat_natCast (p n : Nat) : roundRat p n = round p n := by
  rcases Nat.eq_zero_or_pos n with rfl | hn
  · simp
  have hgap : gap p (n : ℚ) = 2 ^ ((n.log2 : ℤ) - p) := by
    rw [gap, Int.log_natCast, Nat.log2_eq_log_two]
  rcases Nat.le_total p n.log2 with hle | hle
  · have hunit : gap p (n : ℚ) = (unit p n : Nat) := by
      rw [hgap, unit, ← Nat.cast_sub hle, zpow_natCast]
      push_cast
      rfl
    rw [roundRat, hunit, ← Nat.cast_mul, toNearest_div _ _ (unit_pos p n), round]
  · -- the gap is below one, and divides `n`
    have hlt : n < 2 ^ (p + 1) := Nat.lt_log2_self.trans_le (Nat.pow_le_pow_right (by omega) (by omega))
    have hdiv : (n : ℚ) / gap p n = ((n * 2 ^ (p - n.log2) : Nat) : ℚ) := by
      rw [hgap, ← neg_sub, ← Nat.cast_sub hle, zpow_neg, zpow_natCast, div_inv_eq_mul]
      push_cast
      rfl
    rw [roundRat, hdiv, toNearest_natCast, ← hdiv, div_mul_cancel₀ _ (gap_pos p _).ne',
      round_of_lt hlt]

theorem roundRat_of_lt (h : n < 2 ^ (p + 1)) : roundRat p n = n := by
  rw [roundRat_natCast, round_of_lt h]

@[simp] theorem roundRat_one (p : Nat) : roundRat p 1 = 1 := by
  have h := roundRat_of_lt (p := p) (n := 1) (Nat.one_lt_two_pow (Nat.succ_ne_zero p))
  rwa [Nat.cast_one] at h

/-! ## A product with a rounded factor -/

/-- The factor is rounded, and then the product. -/
theorem roundRat_mul_near {a : ℚ} (p : Nat) (ha : 0 ≤ a) (hx : 0 ≤ x) :
    |a * x - roundRat p (a * roundRat p x)| ≤ 3 * (a * x) / 2 ^ (p + 1) := by
  have hfactor := roundRat_near p hx
  have hprod := roundRat_near p (mul_nonneg ha (roundRat_nonneg p x))
  have htwo : roundRat p x ≤ 2 * x := by
    have hle : x / 2 ^ (p + 1) ≤ x := div_le_self hx (one_le_pow₀ one_le_two)
    have := (abs_le.mp hfactor).1
    linarith
  calc |a * x - roundRat p (a * roundRat p x)|
      ≤ |a * x - a * roundRat p x| + |a * roundRat p x - roundRat p (a * roundRat p x)| :=
        abs_sub_le _ _ _
    _ ≤ a * (x / 2 ^ (p + 1)) + a * (2 * x) / 2 ^ (p + 1) := by
        refine add_le_add ?_ (hprod.trans (by gcongr))
        rw [← mul_sub, abs_mul, abs_of_nonneg ha]
        gcongr
    _ = 3 * (a * x) / 2 ^ (p + 1) := by ring

/-! ## The whole part -/

/-- Nearer to a quotient than its denominator can tell, a number has its whole part, or the one below
where the quotient is a whole number. -/
theorem floor_near_div {a : Nat} (hn : 0 < n) (hx : 0 ≤ x) (h : |(a : ℚ) / n - x| < 1 / n) :
    ⌊x⌋₊ = a / n ∨ n ∣ a ∧ ⌊x⌋₊ + 1 = a / n := by
  have hn' : (0 : ℚ) < n := Nat.cast_pos.mpr hn
  have hone : (1 : ℚ) ≤ n := by exact_mod_cast hn
  rw [div_sub' hn'.ne', abs_div, abs_of_pos hn', div_lt_div_iff_of_pos_right hn', abs_lt] at h
  have hsplit : (a : ℚ) = (a / n : Nat) * n + (a % n : Nat) := by
    exact_mod_cast (Nat.div_add_mod' a n).symm
  have hmod : ((a % n : Nat) : ℚ) + 1 ≤ n := by exact_mod_cast Nat.mod_lt a hn
  have hnext : x < (a / n : Nat) + 1 := by
    refine lt_of_mul_lt_mul_right (?_ : x * n < _) hn'.le
    linarith
  rcases Nat.eq_zero_or_pos (a % n) with hzero | hpos
  · rw [hzero, Nat.cast_zero, add_zero] at hsplit
    rcases le_or_gt ((a / n : Nat) : ℚ) x with hle | hlt
    · exact .inl ((Nat.floor_eq_iff hx).mpr ⟨hle, hnext⟩)
    · refine .inr ⟨Nat.dvd_of_mod_eq_zero hzero, ?_⟩
      have hq : 0 < a / n := by exact_mod_cast hx.trans_lt hlt
      have hprev : ((a / n - 1 : Nat) : ℚ) = (a / n : Nat) - 1 := by
        rw [Nat.cast_sub hq, Nat.cast_one]
      have hfloor : ⌊x⌋₊ = a / n - 1 := by
        rw [Nat.floor_eq_iff hx, hprev, sub_add_cancel]
        refine ⟨le_of_mul_le_mul_right (?_ : _ ≤ x * n) hn', hlt⟩
        linarith
      omega
  · have hpos' : (1 : ℚ) ≤ (a % n : Nat) := by exact_mod_cast hpos
    refine .inl ((Nat.floor_eq_iff hx).mpr ⟨le_of_mul_le_mul_right (?_ : _ ≤ x * n) hn', hnext⟩)
    linarith

/-- The whole part of a rounded product that is a quotient of small numbers. -/
theorem floor_roundRat_mul {a : ℚ} {c : Nat} (ha : 0 ≤ a) (hx : 0 ≤ x) (hn : 0 < n)
    (heq : a * x = c / n) (hsmall : 3 * c < 2 ^ (p + 1)) :
    ⌊roundRat p (a * roundRat p x)⌋₊ = c / n ∨
      n ∣ c ∧ ⌊roundRat p (a * roundRat p x)⌋₊ + 1 = c / n := by
  have hn' : (0 : ℚ) < n := Nat.cast_pos.mpr hn
  have hsmall' : 3 * (c : ℚ) < 2 ^ (p + 1) := by exact_mod_cast hsmall
  refine floor_near_div hn (roundRat_nonneg p _) ?_
  rw [← heq]
  calc |a * x - roundRat p (a * roundRat p x)| ≤ 3 * (a * x) / 2 ^ (p + 1) :=
        roundRat_mul_near p ha hx
    _ < 1 / n := by
        rw [heq, mul_div_assoc', div_div, div_lt_div_iff₀ (by positivity) hn', one_mul,
          mul_comm (n : ℚ)]
        gcongr

end Rounding
