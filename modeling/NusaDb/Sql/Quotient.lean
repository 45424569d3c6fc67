import NusaDb.Sql.DecimalExact

/-!
# The digits of a quotient

`checked_div` takes the scale of a quotient from the base-10000 weights and leading digits of its
operands. These bound the ratio from below, so that the quotient has its 16 significant digits
unless `MAX_SCALE` cuts it short (`divides_iff`).
-/

namespace NusaDb.Sql.Decimal

open HalfAway Option

variable {d x y : Decimal}

/-- The first base-10000 digit and its weight bound the value from both sides. -/
lemma leading_bounds (hd : d.mantissa ≠ 0) :
    ∃ (w : Int) (f : Nat), d.weightAndFirstDigit = (w, f) ∧ 0 < f ∧ f < 10000 ∧
      f * (10000 : ℚ) ^ w ≤ |d.toRat| ∧ |d.toRat| < (f + 1) * (10000 : ℚ) ^ w := by
  have hn : d.mantissa.natAbs ≠ 0 := Int.natAbs_ne_zero.mpr hd
  have habs : |d.toRat| = d.mantissa.natAbs / 10 ^ d.scale := by
    rw [toRat, abs_div, abs_of_pos (show (0 : ℚ) < 10 ^ d.scale by positivity), Nat.cast_natAbs,
      Int.cast_abs]
  have hlow : (10 : ℚ) ^ (Nat.log 10 d.mantissa.natAbs : Int) ≤ d.mantissa.natAbs := by
    exact_mod_cast Nat.pow_log_le_self 10 hn
  have hhigh : (d.mantissa.natAbs : ℚ) < 10 ^ (Nat.log 10 d.mantissa.natAbs + 1 : Int) := by
    exact_mod_cast Nat.lt_pow_succ_log_self (by norm_num) d.mantissa.natAbs
  rw [weightAndFirstDigit, if_neg hd]
  dsimp only
  rw [habs]
  generalize Nat.log 10 d.mantissa.natAbs = l at *
  generalize d.mantissa.natAbs = n at *
  generalize hw : ((l : Int) + 1 - 1 - d.scale) / 4 = w
  generalize hk : (d.scale : Int) + 4 * w = k
  -- the weight of the leading group is that of a power of ten of the mantissa
  have hunit : (10000 : ℚ) ^ w = 10 ^ k / 10 ^ d.scale := by
    rw [← hk, zpow_add₀ (by norm_num), zpow_natCast, mul_div_cancel_left₀ _ (by positivity),
      zpow_mul]
    norm_num
  generalize hf : (if 0 ≤ k then n / 10 ^ k.natAbs else n * 10 ^ k.natAbs) = f
  have hfirst : (f : ℚ) * 10 ^ k ≤ n ∧ (n : ℚ) < (f + 1) * 10 ^ k := by
    rw [← hf]
    split_ifs with hsign
    · obtain ⟨j, rfl⟩ := Int.eq_ofNat_of_zero_le hsign
      constructor
      · exact_mod_cast Nat.div_mul_le_self n (10 ^ j)
      · exact_mod_cast (Nat.lt_mul_div_succ n (by positivity)).trans_eq (mul_comm _ _)
    obtain ⟨j, rfl⟩ : ∃ j : Nat, k = -j := ⟨k.natAbs, by omega⟩
    rw [zpow_neg, zpow_natCast, Int.natAbs_neg, Int.natAbs_natCast]
    push_cast
    constructor
    · field_simp
      exact le_rfl
    · field_simp
      linarith
  have hpos : 0 < f := by
    have hle : (10 : ℚ) ^ k ≤ 10 ^ (l : Int) := zpow_le_zpow_right₀ (by norm_num) (by omega)
    have : (0 : ℚ) < f := by nlinarith
    exact_mod_cast this
  have hlt : f < 10000 := by
    have hle : (10 : ℚ) ^ ((l : Int) + 1) ≤ 10 ^ (k + 4) :=
      zpow_le_zpow_right₀ (by norm_num) (by omega)
    rw [zpow_add₀ (by norm_num) k] at hle
    have : (f : ℚ) < 10000 := by
      nlinarith
    exact_mod_cast this
  refine ⟨w, f, by rw [if_pos (by omega)], hpos, hlt, ?_, ?_⟩
  · rw [hunit, ← mul_div_assoc]
    gcongr
    exact hfirst.1
  · rw [hunit, ← mul_div_assoc]
    gcongr
    exact hfirst.2

variable (hx : x.mantissa ≠ 0) (hy : y.mantissa ≠ 0)

include hx hy

lemma pow_weight_le_ratio :
    ∃ q : Int, (10000 : ℚ) ^ q ≤ |x.toRat / y.toRat| ∧
      (divResultScale x y < maxScale → 16 - 4 * q ≤ divResultScale x y) := by
  obtain ⟨w1, f1, hx, hpos, -, hlow, -⟩ := leading_bounds hx
  obtain ⟨w2, f2, hy', -, hlt, -, hhigh⟩ := leading_bounds hy
  have hypos : 0 < |y.toRat| := by
    rw [abs_pos, toRat]
    exact div_ne_zero (by exact_mod_cast hy) (by positivity)
  refine ⟨w1 - w2 - if f1 ≤ f2 then 1 else 0, ?_, ?_⟩
  · rw [abs_div, le_div_iff₀ hypos]
    refine le_trans ?_ hlow
    split_ifs with hle
    · have hten : (f2 + 1 : ℚ) ≤ 10000 := by exact_mod_cast hlt
      have hone : (1 : ℚ) ≤ f1 := by exact_mod_cast hpos
      calc (10000 : ℚ) ^ (w1 - w2 - 1) * |y.toRat|
          ≤ 10000 ^ (w1 - w2 - 1) * (10000 * 10000 ^ w2) := by
            gcongr
            exact hhigh.le.trans (by gcongr)
        _ = 1 * 10000 ^ w1 := by
            rw [← zpow_one_add₀ (by norm_num), ← zpow_add₀ (by norm_num), one_mul]
            congr 1
            omega
        _ ≤ f1 * 10000 ^ w1 := by gcongr
    · have hnext : (f2 + 1 : ℚ) ≤ f1 := by exact_mod_cast Nat.lt_of_not_le hle
      calc (10000 : ℚ) ^ (w1 - w2 - 0) * |y.toRat|
          ≤ 10000 ^ (w1 - w2 - 0) * ((f2 + 1) * 10000 ^ w2) := by gcongr
        _ = (f2 + 1) * 10000 ^ w1 := by
            rw [mul_left_comm, ← zpow_add₀ (by norm_num)]
            congr 2
            omega
        _ ≤ f1 * 10000 ^ w1 := by gcongr
  · simp only [divResultScale, hx, hy', maxScale]
    omega

/-- **A quotient has at least sixteen significant digits**, unless `MAX_SCALE` ends it. -/
theorem sixteen_digits (hscale : divResultScale x y < maxScale) :
    10 ^ 16 ≤ (roundAway (x.toRat / y.toRat * 10 ^ divResultScale x y)).natAbs := by
  obtain ⟨q, hq, hs⟩ := pow_weight_le_ratio hx hy
  apply le_natAbs_roundAway
  rw [abs_mul, abs_of_pos (show (0 : ℚ) < 10 ^ divResultScale x y by positivity)]
  have hten : (10000 : ℚ) ^ q = 10 ^ (4 * q) := by
    rw [zpow_mul]
    norm_num
  generalize divResultScale x y = s at *
  calc ((10 ^ 16 : Nat) : ℚ) = 10 ^ (16 : Int) := by norm_num
    _ ≤ 10 ^ (4 * q + s) := zpow_le_zpow_right₀ (by norm_num) (by omega)
    _ = 10000 ^ q * 10 ^ s := by rw [zpow_add₀ (by norm_num), zpow_natCast, hten]
    _ ≤ |x.toRat / y.toRat| * 10 ^ s := by gcongr

omit hx hy

/-- `checked_div` returns, and what it returns is the quotient, rounded, with its digits. -/
def Divides (x y : Decimal) : Prop :=
  ∃ r, x.checkedDiv y = .ok r ∧ ∀ q, r = some q → q.scale = divResultScale x y ∧
    max x.scale y.scale ≤ q.scale ∧ q.scale ≤ maxScale ∧
    q.mantissa = roundAway (x.toRat / y.toRat * 10 ^ q.scale) ∧
    (q.scale < maxScale → x.mantissa ≠ 0 → 10 ^ 15 ≤ q.mantissa.natAbs)

lemma scale_le_divResultScale (hx : x.IsFinite) (hy : y.IsFinite) :
    max x.scale y.scale ≤ divResultScale x y := by
  have hx := hx.1
  have hy := hy.1
  simp only [divResultScale, maxScale] at *
  omega

lemma eq_min_of_not_fits {m p : Int} (hm : FitsI128 m) (hp : p ≠ 0)
    (h : ¬ FitsI128 (m.tdiv p)) : m = -2 ^ 127 ∧ p = -1 := by
  have habs : (m.tdiv p).natAbs = m.natAbs / p.natAbs := Int.natAbs_tdiv m p
  rcases lt_or_ge p.natAbs 2 with hone | htwo
  · obtain rfl | rfl : p = 1 ∨ p = -1 := by omega
    · rw [Int.tdiv_one] at h
      exact absurd hm h
    rw [Int.tdiv_neg, Int.tdiv_one] at h
    simp only [FitsI128] at hm h
    omega
  · have hhalf : m.natAbs / p.natAbs ≤ m.natAbs / 2 := Nat.div_le_div_left htwo (by norm_num)
    simp only [FitsI128] at hm h
    omega

lemma divOperands_min (hx : x.IsFinite) (hy : y.IsFinite)
    (h : divOperands x y (divResultScale x y) = some (-2 ^ 127, -1)) :
    x.mantissa = -2 ^ 127 ∧ y = ⟨-1, 0⟩ := by
  have hscale := scale_le_divResultScale hx hy
  rw [divOperands] at h
  split_ifs at h with hexp
  · obtain ⟨p, hp, h⟩ := bind_eq_some_iff.mp h
    obtain ⟨m, hm, h⟩ := bind_eq_some_iff.mp h
    obtain ⟨rfl, hden⟩ := Prod.mk.inj (some.inj h)
    have hprod := checked_some hm
    rw [pow10_some hp] at hprod
    obtain ⟨hzero, hmin⟩ := of_mul_pow_eq_min hprod.symm
    refine ⟨hmin, ?_⟩
    obtain ⟨my, sy⟩ := y
    simp only [mk.injEq]
    exact ⟨hden, by simp only at *; omega⟩
  · -- the divisor is a multiple of ten
    omega

lemma checkedDiv_min : ∀ s : Fin 39, checkedDiv ⟨-2 ^ 127, s⟩ ⟨-1, 0⟩ = .error .overflow := by
  decide +kernel

/-- **A division is right unless it is of `i128::MIN` by the integer `-1`**, where it traps. -/
theorem divides_iff (hx : x.IsFinite) (hy : y.IsFinite) (hzero : y.mantissa ≠ 0) :
    Divides x y ↔ ¬ (x.mantissa = -2 ^ 127 ∧ y = ⟨-1, 0⟩) := by
  constructor
  · rintro ⟨r, hr, -⟩ ⟨hmin, rfl⟩
    obtain ⟨m, s⟩ := x
    obtain rfl : m = -2 ^ 127 := hmin
    have hs := checkedDiv_min ⟨s, Nat.lt_succ_of_le hx.1⟩
    rw [hr] at hs
    cases hs
  · intro hno
    have hnan : ¬ (x.isNan || y.isNan) = true := by simp [hx.isNan, hy.isNan]
    rcases hops : divOperands x y (divResultScale x y) with _ | ops
    · exact ⟨none, by rw [checkedDiv, if_neg hnan, if_neg hzero, hops], by simp⟩
    obtain ⟨num, den⟩ := ops
    have hfit : FitsI128 (num.tdiv den) := by
      by_contra hfit
      obtain ⟨rfl, rfl⟩ := eq_min_of_not_fits (divOperands_fits hx.2 hops)
        (divOperands_ratio hzero hops).1 hfit
      exact hno (divOperands_min hx hy hops)
    have heq : x.checkedDiv y = .ok (some ⟨quotAway num den, divResultScale x y⟩) := by
      rw [checkedDiv, if_neg hnan, if_neg hzero, hops]
      exact if_pos hfit
    refine ⟨_, heq, ?_⟩
    intro q hq
    obtain rfl := some.inj hq
    have hrounded := (checkedDiv_rounded hx.isNan hy.isNan heq).2
    refine ⟨rfl, scale_le_divResultScale hx hy, divResultScale_le x y, hrounded, ?_⟩
    intro hs hxm
    rw [hrounded]
    exact le_trans (by norm_num) (sixteen_digits hxm hzero hs)

theorem divides_two_thirds : Divides ⟨2, 0⟩ ⟨3, 0⟩ :=
  (divides_iff (by decide) (by decide) (by decide)).mpr (by decide)

/-- `i128::MIN / -1` stops the statement. -/
theorem min_by_minus_one_traps :
    checkedDiv ⟨-2 ^ 127, 0⟩ ⟨-1, 0⟩ = .error .overflow ∧ ¬ Divides ⟨-2 ^ 127, 0⟩ ⟨-1, 0⟩ := by
  have htrap : checkedDiv ⟨-2 ^ 127, 0⟩ ⟨-1, 0⟩ = .error .overflow := checkedDiv_min 0
  refine ⟨htrap, ?_⟩
  rintro ⟨r, hr, -⟩
  rw [htrap] at hr
  cases hr

end NusaDb.Sql.Decimal
