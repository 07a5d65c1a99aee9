import Mathlib.Data.Nat.Dist
import Mathlib.Data.Nat.Log
import Mathlib.Data.Nat.Prime.Basic
import Mathlib.Tactic.Ring

/-!
# Rounding a whole number to a binary significand, and its shortest decimal

`round p n` is the number nearest to `n` of those whose significand has a leading one and `p` bits
after it, and halfway between two of them the one with an even significand. It is monotone
(`round_mono`) and leaves such numbers alone (`round_round`).

`shortest p v` is the decimal by which such a number is written: of the numbers that round to `v`,
those with the most trailing zeros, and of these the nearest to `v`. Numbers with the most trailing
zeros are those with the fewest digits before them (`digits_shortest`). Writing the rounded `n` gives
`n` back exactly if `n` is itself that decimal (`shortest_round_iff`), in particular if `n` has no
more than `p + 1` bits (`Shortest.of_lt`).
-/

namespace Rounding

variable {p n m u v : Nat}

/-! ## The nearest multiple -/

/-- The multiple of `u` nearest to `n`; halfway between two, the even one. -/
def nearest (u n : Nat) : Nat :=
  if 2 * (n % u) < u ∨ (2 * (n % u) = u ∧ n / u % 2 = 0) then n / u * u else (n / u + 1) * u

theorem dvd_nearest (u n : Nat) : u ∣ nearest u n := by
  unfold nearest
  split <;> exact Nat.dvd_mul_left _ _

/-- The nearest multiple is at most half a unit away. -/
theorem nearest_half (hu : 0 < u) (n : Nat) : 2 * Nat.dist n (nearest u n) ≤ u := by
  have hn := Nat.div_add_mod' n u
  have hr := Nat.mod_lt n hu
  unfold nearest Nat.dist
  split
  · omega
  · rw [Nat.add_mul, Nat.one_mul]
    omega

theorem nearest_of_dvd (hu : 0 < u) (h : u ∣ n) : nearest u n = n := by
  rw [nearest, Nat.mod_eq_zero_of_dvd h, if_pos (Or.inl (by omega)), Nat.div_mul_cancel h]

theorem nearest_mono (h : n ≤ m) : nearest u n ≤ nearest u m := by
  have hq : n / u ≤ m / u := Nat.div_le_div_right h
  have low : m / u * u ≤ nearest u m := by
    unfold nearest
    split <;> apply Nat.mul_le_mul_right <;> omega
  have high : nearest u n ≤ (n / u + 1) * u := by
    unfold nearest
    split <;> apply Nat.mul_le_mul_right <;> omega
  rcases Nat.lt_or_ge (n / u) (m / u) with hlt | hge
  · exact high.trans ((Nat.mul_le_mul_right u hlt).trans low)
  · -- the same quotient: the remainders decide, and a smaller one is not rounded up alone
    have heq : n / u = m / u := Nat.le_antisymm hq hge
    have hn := Nat.div_add_mod' n u
    have hm := Nat.div_add_mod' m u
    unfold nearest
    rw [heq] at hn ⊢
    split
    · split <;> apply Nat.mul_le_mul_right <;> omega
    · rename_i hup
      rw [if_neg (by omega)]

/-! ## Rounding to a significand -/

/-- The gap between the numbers with `p` bits after the leading one, from the power of two below `n`
to the next. -/
def unit (p n : Nat) : Nat := 2 ^ (n.log2 - p)

/-- `n` rounded to a significand with `p` bits after the leading one, half to even. -/
def round (p n : Nat) : Nat := nearest (unit p n) n

theorem unit_pos (p n : Nat) : 0 < unit p n := Nat.two_pow_pos _

theorem unit_dvd {k : Nat} (h : n.log2 ≤ k) : unit p n ∣ 2 ^ k := Nat.pow_dvd_pow 2 (by omega)

theorem unit_dvd_round (p n : Nat) : unit p n ∣ round p n := dvd_nearest _ n

/-- A rounded number is a multiple of each power of two that the gap reaches. -/
theorem two_pow_dvd_round {k : Nat} (h : 2 ^ k ≤ unit p n) : 2 ^ k ∣ round p n :=
  (Nat.pow_dvd_pow 2 ((Nat.pow_le_pow_iff_right (by omega)).mp h)).trans (unit_dvd_round p n)

theorem round_half (p n : Nat) : 2 * Nat.dist n (round p n) ≤ unit p n :=
  nearest_half (unit_pos p n) n

theorem round_of_lt (h : n < 2 ^ (p + 1)) : round p n = n := by
  refine nearest_of_dvd (unit_pos p n) ?_
  have hz : n.log2 - p = 0 := by
    rcases Nat.eq_zero_or_pos n with h0 | hn
    · simp [h0]
    · have := (Nat.log2_lt hn.ne').mpr h
      omega
  rw [unit, hz]
  exact Nat.one_dvd n

@[simp] theorem round_zero (p : Nat) : round p 0 = 0 := round_of_lt (Nat.two_pow_pos _)

/-- Rounding does not cross the power of two below. -/
theorem pow_log2_le_round (hn : n ≠ 0) : 2 ^ n.log2 ≤ round p n := by
  rw [← nearest_of_dvd (unit_pos p n) (unit_dvd le_rfl)]
  exact nearest_mono (Nat.log2_self_le hn)

/-- Rounding does not cross the power of two above. -/
theorem round_le_pow_log2 (p n : Nat) : round p n ≤ 2 ^ (n.log2 + 1) := by
  rw [← nearest_of_dvd (unit_pos p n) (unit_dvd (Nat.le_succ n.log2))]
  exact nearest_mono Nat.lt_log2_self.le

theorem le_two_mul_round (p n : Nat) : n ≤ 2 * round p n := by
  rcases Nat.eq_zero_or_pos n with rfl | hn
  · exact Nat.zero_le _
  · have hlow := pow_log2_le_round (p := p) hn.ne'
    have hlt : n < 2 ^ (n.log2 + 1) := Nat.lt_log2_self
    rw [Nat.pow_succ] at hlt
    omega

theorem round_le_two_mul (p n : Nat) : round p n ≤ 2 * n := by
  rcases Nat.eq_zero_or_pos n with rfl | hn
  · simp
  · have hhigh := round_le_pow_log2 p n
    have hlow := Nat.log2_self_le hn.ne'
    rw [Nat.pow_succ] at hhigh
    omega

theorem round_mono (h : n ≤ m) : round p n ≤ round p m := by
  rcases Nat.eq_zero_or_pos n with rfl | hn
  · simp
  have hm : m ≠ 0 := by omega
  rcases Nat.lt_or_ge n.log2 m.log2 with hlt | hge
  · calc round p n ≤ 2 ^ (n.log2 + 1) := round_le_pow_log2 p n
      _ ≤ 2 ^ m.log2 := Nat.pow_le_pow_right (by omega) hlt
      _ ≤ round p m := pow_log2_le_round hm
  · have hle : n.log2 ≤ m.log2 := (Nat.le_log2 hm).mpr ((Nat.log2_self_le hn.ne').trans h)
    have hu : unit p n = unit p m := by rw [unit, unit, Nat.le_antisymm hle hge]
    rw [round, round, hu]
    exact nearest_mono h

/-- What lies between a number and another that rounds to it rounds to it. -/
theorem round_between (h : round p n = v) (h' : round p m = v) {k : Nat} (hn : n ≤ k) (hm : k ≤ m) :
    round p k = v :=
  Nat.le_antisymm (h' ▸ round_mono hm) (h ▸ round_mono hn)

theorem round_round (p n : Nat) : round p (round p n) = round p n := by
  rcases Nat.eq_zero_or_pos n with rfl | hn
  · simp
  have hlow : 2 ^ n.log2 ≤ round p n := pow_log2_le_round hn.ne'
  have hpos : round p n ≠ 0 := (lt_of_lt_of_le (Nat.two_pow_pos _) hlow).ne'
  refine nearest_of_dvd (unit_pos p _) ?_
  rcases (round_le_pow_log2 p n).lt_or_eq with hlt | heq
  · have hk : (round p n).log2 = n.log2 :=
      Nat.le_antisymm (Nat.lt_succ_iff.mp ((Nat.log2_lt hpos).mpr hlt))
        ((Nat.le_log2 hpos).mpr hlow)
    rw [unit, hk]
    exact unit_dvd_round p n
  · rw [heq]
    exact unit_dvd (by rw [Nat.log2_two_pow])

theorem round_eq_zero : round p n = 0 ↔ n = 0 := by
  refine ⟨fun h => ?_, fun h => by rw [h, round_zero]⟩
  have := le_two_mul_round p n
  omega

theorem ne_zero_of_round (h : round p n = v) (hv : v ≠ 0) : n ≠ 0 :=
  fun hn => hv (h ▸ round_eq_zero.mpr hn)

/-! ## The shortest decimal -/

/-- The nearer to `v` of its two neighbours among the multiples of `10 ^ e`, if it rounds to `v`;
else the other one, if that does. -/
def candidate (p v e : Nat) : Option Nat :=
  let lo := v / 10 ^ e * 10 ^ e
  let hi := lo + 10 ^ e
  if round p lo = v ∧ (v - lo ≤ hi - v ∨ round p hi ≠ v) then some lo
  else if round p hi = v then some hi
  else none

/-- The first candidate for the powers of ten from `10 ^ k` down, with its exponent. -/
def shortestFrom (p v : Nat) : Nat → Nat × Nat
  | 0 => (v, 0)
  | k + 1 =>
    match candidate p v (k + 1) with
    | some c => (c, k + 1)
    | none => shortestFrom p v k

/-- The number that is written for `v`, and the zeros it ends with. -/
def shortest (p v : Nat) : Nat × Nat := shortestFrom p v (v.log2 + 1)

/-- `c` is a multiple of `10 ^ e` that rounds to `v`, and none is nearer to `v`. -/
structure Closest (p v e c : Nat) : Prop where
  dvd : 10 ^ e ∣ c
  back : round p c = v
  closest : ∀ {M}, 10 ^ e ∣ M → round p M = v → Nat.dist c v ≤ Nat.dist M v

section
variable {e c M : Nat}

/-- No multiple lies between the two neighbours of `v`. -/
theorem multiple_outside {t : Nat} (h : t ∣ M) :
    M ≤ v / t * t ∨ v / t * t + t ≤ M := by
  obtain ⟨k, rfl⟩ := h
  rw [Nat.mul_comm t k]
  rcases Nat.lt_or_ge (v / t) k with hlt | hge
  · right
    calc v / t * t + t = (v / t + 1) * t := by ring
      _ ≤ k * t := Nat.mul_le_mul_right t hlt
  · exact Or.inl (Nat.mul_le_mul_right t hge)

theorem candidate_some (hv : round p v = v) (h : candidate p v e = some c) : Closest p v e c := by
  have hlow : v / 10 ^ e * 10 ^ e ≤ v := Nat.div_mul_le_self v _
  have hhigh : v < v / 10 ^ e * 10 ^ e + 10 ^ e := Nat.lt_div_mul_add (Nat.pow_pos (by omega))
  unfold candidate at h
  simp only at h
  split at h
  · rename_i hc
    obtain ⟨hback, hnear⟩ := hc
    obtain rfl := Option.some.inj h
    refine ⟨Nat.dvd_mul_left _ _, hback, fun {M} hM hMv => ?_⟩
    rcases multiple_outside (v := v) hM with hle | hge
    · unfold Nat.dist
      omega
    · -- a multiple above: then the upper neighbour rounds to `v` as well, and was not nearer
      have hup : round p (v / 10 ^ e * 10 ^ e + 10 ^ e) = v := round_between hv hMv hhigh.le hge
      have hle := hnear.resolve_right fun hne => hne hup
      unfold Nat.dist
      omega
  · rename_i hc
    split at h
    · rename_i hup
      obtain rfl := Option.some.inj h
      refine ⟨Nat.dvd_add (Nat.dvd_mul_left _ _) dvd_rfl, hup, fun {M} hM hMv => ?_⟩
      rcases multiple_outside (v := v) hM with hle | hge
      · have hdown : round p (v / 10 ^ e * 10 ^ e) = v := round_between hMv hv hle hlow
        have hlt : ¬ v - v / 10 ^ e * 10 ^ e ≤ v / 10 ^ e * 10 ^ e + 10 ^ e - v :=
          fun hle => hc ⟨hdown, Or.inl hle⟩
        unfold Nat.dist
        omega
      · unfold Nat.dist
        omega
    · cases h

theorem candidate_none (hv : round p v = v) (h : candidate p v e = none) (hM : 10 ^ e ∣ M) :
    round p M ≠ v := by
  intro hMv
  have hlow : v / 10 ^ e * 10 ^ e ≤ v := Nat.div_mul_le_self v _
  have hhigh : v < v / 10 ^ e * 10 ^ e + 10 ^ e := Nat.lt_div_mul_add (Nat.pow_pos (by omega))
  unfold candidate at h
  simp only at h
  split at h
  · cases h
  · rename_i hc
    split at h
    · cases h
    · rename_i hup
      rcases multiple_outside (v := v) hM with hle | hge
      · exact hc ⟨round_between hMv hv hle hlow, Or.inr hup⟩
      · exact hup (round_between hv hMv hhigh.le hge)

/-- The search finds a closest number, and none that rounds to `v` has more zeros among those
searched. -/
theorem shortestFrom_spec (hv : round p v = v) (k : Nat) :
    Closest p v (shortestFrom p v k).2 (shortestFrom p v k).1 ∧
      ∀ M e, e ≤ k → 10 ^ e ∣ M → round p M = v → e ≤ (shortestFrom p v k).2 := by
  induction k with
  | zero =>
    refine ⟨⟨by simp [shortestFrom], hv, fun _ _ => ?_⟩, fun _ _ h _ _ => h⟩
    simp [shortestFrom, Nat.dist_self]
  | succ k ih =>
    rw [shortestFrom]
    split
    · rename_i c hc
      exact ⟨candidate_some hv hc, fun _ _ h _ _ => h⟩
    · rename_i hc
      refine ⟨ih.1, fun M e he hM hMv => ?_⟩
      have hne : e ≠ k + 1 := by
        rintro rfl
        exact candidate_none hv hc hM hMv
      exact ih.2 M e (by omega) hM hMv

theorem shortest_closest (hv : round p v = v) :
    Closest p v (shortest p v).2 (shortest p v).1 := (shortestFrom_spec hv _).1

/-- No number that rounds to `v` ends with more zeros than the one written. -/
theorem shortest_zeros (hv : round p v = v) (h0 : v ≠ 0) (hM : 10 ^ e ∣ M) (hMv : round p M = v) :
    e ≤ (shortest p v).2 := by
  refine (shortestFrom_spec hv _).2 M e ?_ hM hMv
  -- a power of ten that divides `M` is at most `2 * v`
  have hM0 := ne_zero_of_round hMv h0
  have hpow : 2 ^ e ≤ 2 * v :=
    calc 2 ^ e ≤ 10 ^ e := Nat.pow_le_pow_left (by omega) e
      _ ≤ M := Nat.le_of_dvd (Nat.pos_of_ne_zero hM0) hM
      _ ≤ 2 * v := hMv ▸ le_two_mul_round p M
  have hlt : v < 2 ^ (v.log2 + 1) := Nat.lt_log2_self
  have hexp : 2 ^ e < 2 ^ (v.log2 + 2) := by
    rw [Nat.pow_succ 2 (v.log2 + 1)]
    omega
  have := (Nat.pow_lt_pow_iff_right (by omega)).mp hexp
  omega

/-- No number that rounds to `v` has fewer digits before its zeros than the one written. -/
theorem digits_shortest (hv : round p v = v) (h0 : v ≠ 0) (hM : 10 ^ e ∣ M) (hMv : round p M = v)
    {j : Nat} (hj : M / 10 ^ e < 10 ^ j) : (shortest p v).1 / 10 ^ (shortest p v).2 < 10 ^ j := by
  have he := shortest_zeros hv h0 hM hMv
  obtain ⟨hdvd, hback, -⟩ := shortest_closest hv
  have hM0 := ne_zero_of_round hMv h0
  rw [Nat.div_lt_iff_lt_mul (Nat.pow_pos (by omega)), ← Nat.pow_add] at hj ⊢
  have hpow : 10 ^ (j + e) ≤ 10 ^ (j + (shortest p v).2) := Nat.pow_le_pow_right (by omega) (by omega)
  by_contra hge
  -- a power of ten lies between `M` and the number written, so it rounds to `v` too
  have hten : round p (10 ^ (j + e)) = v := round_between hMv hback hj.le (by omega)
  have hzeros := shortest_zeros hv h0 dvd_rfl hten
  have hj0 : j ≠ 0 := by
    rintro rfl
    rw [Nat.zero_add] at hj
    exact absurd (Nat.le_of_dvd (Nat.pos_of_ne_zero hM0) hM) (by omega)
  have hup : 10 ^ (j + e + 1) ≤ 10 ^ (j + (shortest p v).2) :=
    Nat.pow_le_pow_right (by omega) (by omega)
  have h₁ := le_two_mul_round p (shortest p v).1
  have h₂ := round_le_two_mul p M
  rw [hback] at h₁
  rw [hMv] at h₂
  rw [Nat.pow_succ] at hup
  omega

theorem dvd_dist {t : Nat} (h : t ∣ n) (h' : t ∣ m) : t ∣ Nat.dist n m :=
  Nat.dvd_add (Nat.dvd_sub h h') (Nat.dvd_sub h' h)

theorem dvd_of_dist {t : Nat} (h : t ∣ n) (hd : t ∣ Nat.dist n m) : t ∣ m := by
  rcases Nat.le_total n m with hle | hle
  · have heq : m = n + Nat.dist n m := by unfold Nat.dist; omega
    exact heq ▸ Nat.dvd_add h hd
  · have heq : m = n - Nat.dist n m := by unfold Nat.dist; omega
    exact heq ▸ Nat.dvd_sub h hd

/-- The closest number with `e` zeros is the only one so close: of two, one below `v` and one above,
`v` is the middle, and would end with `e` zeros itself. -/
theorem Closest.eq_of_dist (hv : round p v = v) (h : Closest p v e c) (hM : 10 ^ e ∣ M)
    (hd : Nat.dist M v = Nat.dist c v) : M = c := by
  by_contra hne
  have hpos : 0 < Nat.dist c v := by
    rw [Nat.pos_iff_ne_zero]
    intro h0
    rw [h0] at hd
    exact hne ((Nat.eq_of_dist_eq_zero hd).trans (Nat.eq_of_dist_eq_zero h0).symm)
  have htwo : Nat.dist M c = 2 * Nat.dist c v := by
    unfold Nat.dist at hd ⊢
    omega
  have hten : 10 ^ e ∣ 2 * Nat.dist c v := htwo ▸ dvd_dist hM h.dvd
  have hsplit : 10 ^ e = 5 ^ e * 2 ^ e := by rw [← Nat.mul_pow]
  have hfive : 5 ^ e ∣ Nat.dist c v :=
    (Nat.Coprime.pow_left e (by decide)).dvd_of_dvd_mul_left ((Dvd.intro _ hsplit.symm).trans hten)
  -- the gap at `c` is at least `10 ^ e`, so `v` is a multiple of `2 ^ e`
  have hgap : 2 ^ e ≤ unit p c :=
    calc 2 ^ e ≤ 10 ^ e := Nat.pow_le_pow_left (by omega) e
      _ ≤ 2 * Nat.dist c v := Nat.le_of_dvd (by omega) hten
      _ ≤ unit p c := h.back ▸ round_half p c
  have htwov : 2 ^ e ∣ v := h.back ▸ two_pow_dvd_round hgap
  have htwod : 2 ^ e ∣ Nat.dist c v := dvd_dist ((Dvd.intro_left _ hsplit.symm).trans h.dvd) htwov
  have hcop : Nat.Coprime (5 ^ e) (2 ^ e) := Nat.Coprime.pow e e (by decide)
  have hd10 : 10 ^ e ∣ Nat.dist c v := hsplit ▸ hcop.mul_dvd_of_dvd_of_dvd hfive htwod
  have hv10 : 10 ^ e ∣ v := dvd_of_dist h.dvd hd10
  have := h.closest hv10 hv
  rw [Nat.dist_self] at this
  omega

end

/-! ## Numbers that are written as they are -/

/-- `n` ends with the most zeros of the numbers that round as it does, and of those that end with as
many none is nearer to the number they round to. -/
structure Shortest (p n : Nat) : Prop where
  zeros : ∀ M e, round p M = round p n → 10 ^ e ∣ M → 10 ^ e ∣ n
  closest : ∀ M, round p M = round p n → (∀ e, 10 ^ e ∣ n → 10 ^ e ∣ M) →
    Nat.dist n (round p n) ≤ Nat.dist M (round p n)

/-- What is written for the rounded `n` is `n` exactly if `n` is its own shortest decimal. -/
theorem shortest_round_iff : (shortest p (round p n)).1 = n ↔ Shortest p n := by
  have hv := round_round p n
  have hc := shortest_closest hv
  rcases eq_or_ne n 0 with rfl | hn
  · simp only [round_zero] at hc ⊢
    refine ⟨fun _ => ⟨fun _ _ _ _ => Nat.dvd_zero _, fun _ _ _ => by simp [Nat.dist_self]⟩,
      fun _ => round_eq_zero.mp hc.back⟩
  have h0 : round p n ≠ 0 := fun h => hn (round_eq_zero.mp h)
  have hmax {M e : Nat} (hM : 10 ^ e ∣ M) (hMv : round p M = round p n) :
      10 ^ e ∣ 10 ^ (shortest p (round p n)).2 :=
    Nat.pow_dvd_pow 10 (shortest_zeros hv h0 hM hMv)
  constructor
  · intro h
    rw [h] at hc
    exact ⟨fun M e hMv hM => (hmax hM hMv).trans hc.dvd,
      fun M hMv hM => hc.closest (hM _ hc.dvd) hMv⟩
  · intro h
    have hdvd := h.zeros _ _ hc.back hc.dvd
    have hle := h.closest _ hc.back fun e he => (hmax he rfl).trans hc.dvd
    exact (hc.eq_of_dist hv hdvd (Nat.le_antisymm hle (hc.closest hdvd rfl))).symm

theorem Shortest.of_lt (h : n < 2 ^ (p + 1)) : Shortest p n := by
  have honly {M : Nat} (hM : round p M = round p n) : M = n := by
    rw [round_of_lt h] at hM
    rcases Nat.lt_or_ge M (2 ^ (p + 1)) with hlt | hge
    · exact (round_of_lt hlt).symm.trans hM
    · have hpow : round p (2 ^ (p + 1)) = 2 ^ (p + 1) := by
        refine nearest_of_dvd (unit_pos p _) (unit_dvd ?_)
        rw [Nat.log2_two_pow]
      have := hpow ▸ round_mono (p := p) hge
      omega
  exact ⟨fun M e hMv hM => honly hMv ▸ hM, fun M hMv _ => (honly hMv).symm ▸ le_rfl⟩

end Rounding
