import NusaDb.Lib.HalfAway
import NusaDb.Sql.DecimalOrder

/-!
# Decimal arithmetic

The checked operations of `numeric.rs`: a sum is exact or refused, a product too while its scale is
at most `MAX_SCALE`, and rounded beyond; a quotient is rounded half away from zero at the scale
`div_result_scale` picks.
-/

namespace NusaDb.Sql

open Option HalfAway

/-- An arithmetic instruction that overflows stops the statement (`overflow-checks = true`). -/
inductive Trap where
  | overflow
deriving DecidableEq, Repr

namespace Decimal

def zero : Decimal := ⟨0, 0⟩

def checkedAdd (a b : Decimal) : Option Decimal :=
  if a.isNan || b.isNan then some nan
  else do
    let x ← a.rescale (max a.scale b.scale)
    let y ← b.rescale (max a.scale b.scale)
    let mantissa ← checked (x.mantissa + y.mantissa)
    some ⟨mantissa, max a.scale b.scale⟩

def checkedSub (a b : Decimal) : Option Decimal := a.checkedAdd b.neg

/-- `checked_mul`: past `MAX_SCALE` the product is rounded back to it. -/
def checkedMul (a b : Decimal) : Option Decimal :=
  if a.isNan || b.isNan then some nan
  else if a.scale + b.scale > 255 then none
  else do
    let product ← checked (a.mantissa * b.mantissa)
    if a.scale + b.scale > maxScale then rescale ⟨product, a.scale + b.scale⟩ maxScale
    else some ⟨product, a.scale + b.scale⟩

/-- `weight_and_first_digit`: the base-10000 weight and leading digit. -/
def weightAndFirstDigit (d : Decimal) : Int × Nat :=
  if d.mantissa = 0 then (0, 0)
  else
    let ndigits : Int := Nat.log 10 d.mantissa.natAbs + 1
    let weight := (ndigits - 1 - d.scale) / 4
    let k := d.scale + 4 * weight
    let first :=
      if 0 ≤ k then d.mantissa.natAbs / 10 ^ k.natAbs else d.mantissa.natAbs * 10 ^ k.natAbs
    (weight, if first < 2 ^ 32 then first else 0)

def divResultScale (dividend divisor : Decimal) : Nat :=
  let (weight1, first1) := dividend.weightAndFirstDigit
  let (weight2, first2) := divisor.weightAndFirstDigit
  let qweight := weight1 - weight2 - if first1 ≤ first2 then 1 else 0
  (min (max (max (max (16 - qweight * 4) dividend.scale) divisor.scale) 0) maxScale).toNat

/-- The integers `checked_div` divides, so that the quotient has `scale` fractional digits. -/
def divOperands (a b : Decimal) (scale : Nat) : Option (Int × Int) :=
  let exp : Int := scale + b.scale - a.scale
  if 0 ≤ exp then do
    let factor ← pow10 exp.natAbs
    let num ← checked (a.mantissa * factor)
    some (num, b.mantissa)
  else do
    let factor ← pow10 exp.natAbs
    let den ← checked (b.mantissa * factor)
    some (a.mantissa, den)

/-- `checked_div`. The division instruction itself traps on `i128::MIN / -1`. -/
def checkedDiv (a b : Decimal) : Except Trap (Option Decimal) :=
  if a.isNan || b.isNan then .ok (some nan)
  else if b.mantissa = 0 then .ok none
  else
    match divOperands a b (divResultScale a b) with
    | none => .ok none
    | some (num, den) =>
      if FitsI128 (num.tdiv den) then .ok (some ⟨quotAway num den, divResultScale a b⟩)
      else .error .overflow

def roundedIsqrt (a : Nat) : Nat :=
  if a - a.sqrt * a.sqrt > a.sqrt then a.sqrt + 1 else a.sqrt

/-- `sqrt_round`; `approx` is its fallback through `f64`. -/
def sqrtRound (approx : Decimal → Nat → Option Decimal) (d : Decimal) (target : Nat) :
    Option Decimal :=
  if d.isNan then some nan
  else if d.mantissa < 0 then none
  else if d.mantissa = 0 then some ⟨0, target⟩
  else
    let exp : Int := 2 * target - d.scale
    let power := 10 ^ exp.natAbs
    let radicand := if 0 ≤ exp then d.mantissa.natAbs * power else d.mantissa.natAbs / power
    if power < 2 ^ 128 ∧ radicand < 2 ^ 128 then some ⟨roundedIsqrt radicand, target⟩
    else approx d target

@[simp] lemma value_nan : value nan = ⊤ := rfl

@[simp] lemma value_zero : value zero = 0 := by
  simp [value, zero, isNan, nanScale, toRat]

variable {d : Decimal}

lemma value_of_finite (hn : d.isNan = false) : d.value = (d.toRat : WithTop ℚ) := by
  simp [value, hn]

lemma value_of_nan (hn : d.isNan = true) : d.value = ⊤ := by simp [value, hn]

lemma valid_nan : nan.Valid := .inl rfl

lemma valid_zero : zero.Valid := by decide

lemma Valid.scale_le (hd : d.Valid) (hn : d.isNan = false) : d.scale ≤ maxScale := by
  obtain h | h := hd
  · simp [hn] at h
  · exact h.1

lemma Valid.fits (hd : d.Valid) (hn : d.isNan = false) : FitsI128 d.mantissa := by
  obtain h | h := hd
  · simp [hn] at h
  · exact h.2

lemma isNan_of_scale_le (h : d.scale ≤ maxScale) : d.isNan = false := by
  simp only [isNan, nanScale, maxScale, beq_eq_false_iff_ne] at h ⊢
  omega

lemma toRat_mul_pow {target : Nat} (hle : d.scale ≤ target) :
    d.toRat * 10 ^ target = ((d.mantissa * 10 ^ (target - d.scale) : Int) : ℚ) := by
  have hpow : (10 : ℚ) ^ target = 10 ^ (target - d.scale) * 10 ^ d.scale := by
    rw [← pow_add, Nat.sub_add_cancel hle]
  rw [toRat, hpow]
  push_cast
  field_simp

def FitsUnits (q : ℚ) : Prop := -2 ^ 127 ≤ q ∧ q < 2 ^ 127

instance (q : ℚ) : Decidable (FitsUnits q) := inferInstanceAs (Decidable (_ ∧ _))

lemma fitsUnits_intCast (m : Int) : FitsUnits (m : ℚ) ↔ FitsI128 m := by
  simp only [FitsUnits, FitsI128]
  norm_cast

variable {a b : Decimal}

lemma checkedAdd_finite (ha : a.Valid) (hb : b.Valid) (han : a.isNan = false)
    (hbn : b.isNan = false) :
    a.checkedAdd b
      = if FitsUnits (a.toRat * 10 ^ max a.scale b.scale) ∧
            FitsUnits (b.toRat * 10 ^ max a.scale b.scale) ∧
            FitsUnits ((a.toRat + b.toRat) * 10 ^ max a.scale b.scale)
        then some ⟨a.mantissa * 10 ^ (max a.scale b.scale - a.scale) +
            b.mantissa * 10 ^ (max a.scale b.scale - b.scale), max a.scale b.scale⟩
        else none := by
  have hmax : max a.scale b.scale ≤ maxScale := max_le (ha.scale_le han) (hb.scale_le hbn)
  rw [checkedAdd, if_neg (by simp [han, hbn]), rescale_up han (ha.fits han) (le_max_left _ _) hmax,
    rescale_up hbn (hb.fits hbn) (le_max_right _ _) hmax, add_mul,
    toRat_mul_pow (le_max_left a.scale b.scale), toRat_mul_pow (le_max_right a.scale b.scale),
    ← Int.cast_add]
  simp only [fitsUnits_intCast]
  -- the three checks, in the order the code makes them
  split_ifs with hx hy hsum hsum hsum <;> simp_all [checked_eq]

variable {c : Decimal}

/-- A sum that fits is exact. -/
theorem checkedAdd_value (ha : a.Valid) (hb : b.Valid) (h : a.checkedAdd b = some c) :
    c.Valid ∧ c.value = a.value + b.value := by
  by_cases hnan : a.isNan = true ∨ b.isNan = true
  · have hc : c = nan := by
      rw [checkedAdd, if_pos (by simpa using hnan)] at h
      exact (some.inj h).symm
    subst hc
    refine ⟨valid_nan, ?_⟩
    obtain hn | hn := hnan
    · rw [value_of_nan hn, value_nan, top_add]
    · rw [value_of_nan hn, value_nan, add_top]
  · simp only [not_or, Bool.not_eq_true] at hnan
    obtain ⟨han, hbn⟩ := hnan
    have hmax := max_le (ha.scale_le han) (hb.scale_le hbn)
    rw [checkedAdd_finite ha hb han hbn] at h
    split_ifs at h with hfit
    have hc := some.inj h
    have hscale : c.scale = max a.scale b.scale := by rw [← hc]
    have hcn : c.isNan = false := isNan_of_scale_le (by rw [hscale]; exact hmax)
    have hunits : (c.mantissa : ℚ) = (a.toRat + b.toRat) * 10 ^ max a.scale b.scale := by
      rw [add_mul, toRat_mul_pow (le_max_left a.scale b.scale),
        toRat_mul_pow (le_max_right a.scale b.scale), ← Int.cast_add, ← hc]
    constructor
    · refine .inr ⟨by rw [hscale]; exact hmax, ?_⟩
      rw [← fitsUnits_intCast, hunits]
      exact hfit.2.2
    · rw [value_of_finite han, value_of_finite hbn, value_of_finite hcn, ← WithTop.coe_add,
        WithTop.coe_inj, toRat, hunits, hscale]
      field_simp

lemma checkedMul_value (hscale : a.scale + b.scale ≤ maxScale) (h : a.checkedMul b = some c) :
    c.Valid ∧ c.value = ((a.toRat * b.toRat : ℚ) : WithTop ℚ) ∧ c.scale = a.scale + b.scale := by
  have han : a.isNan = false := isNan_of_scale_le (by omega)
  have hbn : b.isNan = false := isNan_of_scale_le (by omega)
  rw [checkedMul, if_neg (by simp [han, hbn]), if_neg (by simp only [maxScale] at hscale; omega)]
    at h
  obtain ⟨m, hm, hc⟩ := bind_eq_some_iff.mp h
  rw [if_neg (by omega)] at hc
  rw [checked_eq] at hm
  split_ifs at hm with hfit
  obtain rfl := some.inj hm
  obtain rfl := some.inj hc
  refine ⟨.inr ⟨hscale, hfit⟩, ?_, rfl⟩
  rw [value_of_finite (isNan_of_scale_le hscale), WithTop.coe_inj]
  simp only [toRat, pow_add]
  push_cast
  field_simp

lemma rescale_down {target : Nat} (hn : d.isNan = false) (hlt : target < d.scale)
    (hspan : d.scale - target ≤ maxScale) :
    d.rescale target = some ⟨quotAway d.mantissa (10 ^ (d.scale - target)), target⟩ := by
  have hsign : ((10 : Int) ^ (d.scale - target)).sign = 1 :=
    Int.sign_eq_one_of_pos (by positivity)
  rw [rescale, if_neg (by simp [hn]), if_neg (by omega), if_neg (by omega), pow10_of_le hspan]
  simp only [bind_eq_bind, bind_some, quotAway, hsign, mul_one]

lemma fitsI128_quotAway {m p : Int} (hm : FitsI128 m) (hp : 2 ≤ p) :
    FitsI128 (quotAway m p) := by
  have habs : (m.tdiv p).natAbs ≤ m.natAbs / 2 := by
    rw [Int.natAbs_tdiv]
    exact Nat.div_le_div_left (by omega) (by norm_num)
  have hsign : m.sign * p.sign = m.sign := by
    rw [Int.sign_eq_one_of_pos (show 0 < p by omega), mul_one]
  have hone : m.sign.natAbs ≤ 1 := by
    rw [Int.natAbs_sign]
    split_ifs <;> omega
  simp only [FitsI128, quotAway, hsign] at hm ⊢
  split_ifs <;> omega

lemma checkedMul_rounded (ha : a.scale ≤ maxScale) (hb : b.scale ≤ maxScale)
    (hscale : maxScale < a.scale + b.scale) (h : a.checkedMul b = some c) :
    FitsI128 (a.mantissa * b.mantissa) ∧
      c = ⟨quotAway (a.mantissa * b.mantissa) (10 ^ (a.scale + b.scale - maxScale)), maxScale⟩ := by
  have han : a.isNan = false := isNan_of_scale_le ha
  have hbn : b.isNan = false := isNan_of_scale_le hb
  simp only [maxScale] at ha hb
  rw [checkedMul, if_neg (by simp [han, hbn]), if_neg (by omega)] at h
  obtain ⟨m, hm, hc⟩ := bind_eq_some_iff.mp h
  rw [checked_eq] at hm
  split_ifs at hm with hfit
  obtain rfl := some.inj hm
  rw [if_pos (by omega), rescale_down (by simp [isNan, nanScale]; omega) hscale
    (by simp only [maxScale]; omega)] at hc
  exact ⟨hfit, (some.inj hc).symm⟩

lemma checkedMul_valid (ha : a.Valid) (hb : b.Valid) (h : a.checkedMul b = some c) : c.Valid := by
  by_cases hnan : a.isNan = true ∨ b.isNan = true
  · rw [checkedMul, if_pos (by simpa using hnan)] at h
    obtain rfl := some.inj h
    exact valid_nan
  simp only [not_or, Bool.not_eq_true] at hnan
  rcases lt_or_ge maxScale (a.scale + b.scale) with hscale | hscale
  · obtain ⟨hfit, rfl⟩ :=
      checkedMul_rounded (ha.scale_le hnan.1) (hb.scale_le hnan.2) hscale h
    refine .inr ⟨le_rfl, fitsI128_quotAway hfit ?_⟩
    calc (2 : Int) ≤ 10 ^ 1 := by norm_num
      _ ≤ 10 ^ (a.scale + b.scale - maxScale) :=
        pow_le_pow_right₀ (by norm_num) (by omega)
  · exact (checkedMul_value hscale h).1

lemma neg_eq (hfit : FitsI128 d.mantissa) (hmin : d.mantissa ≠ -2 ^ 127) :
    d.neg = ⟨-d.mantissa, d.scale⟩ := by
  simp only [FitsI128] at hfit
  rw [neg, Int.bmod_eq_of_le] <;> (push_cast; omega)

lemma neg_nonneg (hd : d.Valid) (hn : d.isNan = false) (hm : 0 ≤ d.mantissa) :
    d.neg.Valid ∧ d.neg.isNan = false ∧ d.neg.toRat = -d.toRat := by
  have hfit := hd.fits hn
  rw [neg_eq hfit (by omega)]
  refine ⟨.inr ⟨hd.scale_le hn, ?_⟩, hn, ?_⟩
  · simp only [FitsI128] at hfit ⊢
    omega
  · simp only [toRat]
    push_cast
    ring

lemma pow10_some {k : Nat} {p : Int} (h : pow10 k = some p) : p = 10 ^ k := by
  rw [pow10, checked_eq] at h
  split_ifs at h
  exact (some.inj h).symm

lemma checked_fits {m n : Int} (h : checked m = some n) : FitsI128 n := by
  rw [checked_eq] at h
  split_ifs at h with hfit
  rwa [← some.inj h]

lemma checked_some {m n : Int} (h : checked m = some n) : n = m := by
  rw [checked_eq] at h
  split_ifs at h
  exact (some.inj h).symm

lemma divOperands_ratio {scale : Nat} {num den : Int} (hb : b.mantissa ≠ 0)
    (h : divOperands a b scale = some (num, den)) :
    den ≠ 0 ∧ (num : ℚ) / den = a.toRat / b.toRat * 10 ^ scale := by
  rw [divOperands] at h
  split_ifs at h with hexp
  · obtain ⟨p, hp, h⟩ := bind_eq_some_iff.mp h
    obtain ⟨n, hn, h⟩ := bind_eq_some_iff.mp h
    obtain ⟨rfl, rfl⟩ := Prod.mk.inj (some.inj h)
    refine ⟨hb, ?_⟩
    have hpow : (10 : ℚ) ^ ((scale + b.scale - a.scale : Int)).natAbs * 10 ^ a.scale
        = 10 ^ scale * 10 ^ b.scale := by
      rw [← pow_add, ← pow_add,
        show ((scale + b.scale - a.scale : Int)).natAbs + a.scale = scale + b.scale by omega]
    rw [checked_some hn, pow10_some hp, toRat, toRat]
    push_cast
    field_simp
    linear_combination (a.mantissa : ℚ) * hpow
  · obtain ⟨p, hp, h⟩ := bind_eq_some_iff.mp h
    obtain ⟨n, hn, h⟩ := bind_eq_some_iff.mp h
    obtain ⟨rfl, rfl⟩ := Prod.mk.inj (some.inj h)
    have hpow : (10 : ℚ) ^ ((scale + b.scale - a.scale : Int)).natAbs * 10 ^ scale * 10 ^ b.scale
        = 10 ^ a.scale := by
      rw [← pow_add, ← pow_add,
        show ((scale + b.scale - a.scale : Int)).natAbs + scale + b.scale = a.scale by omega]
    rw [checked_some hn, pow10_some hp]
    refine ⟨mul_ne_zero hb (by positivity), ?_⟩
    rw [toRat, toRat]
    push_cast
    field_simp
    linear_combination - (a.mantissa : ℚ) * hpow

lemma divOperands_fits {scale : Nat} {num den : Int} (ha : FitsI128 a.mantissa)
    (h : divOperands a b scale = some (num, den)) : FitsI128 num := by
  rw [divOperands] at h
  split_ifs at h
  all_goals
    obtain ⟨p, -, h⟩ := bind_eq_some_iff.mp h
    obtain ⟨n, hn, h⟩ := bind_eq_some_iff.mp h
    obtain ⟨rfl, rfl⟩ := Prod.mk.inj (some.inj h)
  · exact checked_fits hn
  · exact ha

lemma divResultScale_le (a b : Decimal) : divResultScale a b ≤ maxScale := by
  simp only [divResultScale, maxScale]
  omega

/-- **A quotient is the rounded ratio**, at the scale it comes with. -/
theorem checkedDiv_rounded (han : a.isNan = false) (hbn : b.isNan = false)
    (h : a.checkedDiv b = .ok (some c)) :
    c.isNan = false ∧ c.mantissa = roundAway (a.toRat / b.toRat * 10 ^ c.scale) := by
  rw [checkedDiv, if_neg (by simp [han, hbn])] at h
  split_ifs at h with hb
  · simp at h
  rcases hops : divOperands a b (divResultScale a b) with _ | ops
  · simp [hops] at h
  obtain ⟨num, den⟩ := ops
  obtain ⟨hden, hratio⟩ := divOperands_ratio hb hops
  simp only [hops] at h
  split_ifs at h
  obtain rfl := some.inj (Except.ok.inj h)
  refine ⟨isNan_of_scale_le (divResultScale_le a b), ?_⟩
  rw [← hratio]
  exact quotAway_eq num hden

end Decimal

end NusaDb.Sql
