import NusaDb.Sql.DecimalArith

/-!
# Exact decimal operations

What the operations on `NUMERIC` return, against the rationals: sums, differences, remainders and
negations are exact, products and values with fewer digits rounded half away from zero.
-/

namespace NusaDb.Sql.Decimal

open HalfAway Option Int

/-- `checked_rem`. The remainder instruction traps on `i128::MIN % -1`. -/
def checkedRem (a b : Decimal) : Except Trap (Option Decimal) :=
  if a.isNan || b.isNan then .ok (some nan)
  else if b.mantissa = 0 then .ok none
  else
    match a.rescale (max a.scale b.scale), b.rescale (max a.scale b.scale) with
    | some x, some y =>
      if x.mantissa = -2 ^ 127 ∧ y.mantissa = -1 then .error .overflow
      else .ok (some ⟨x.mantissa.tmod y.mantissa, max a.scale b.scale⟩)
    | _, _ => .ok none

def mathAbs (d : Decimal) : Decimal := if d.mantissa < 0 then d.neg else d

/-- `numeric_floor_ceil`. Negating the mantissa traps on `i128::MIN`. -/
def numericFloorCeil (d : Decimal) (ceil : Bool) : Except Trap Decimal :=
  if d.isNan then .ok d
  else if d.scale = 0 then .ok d
  else
    match pow10 d.scale with
    | none => .ok d
    | some p =>
      if ceil then
        if FitsI128 (-d.mantissa) then
          .ok ⟨(checked (-(-d.mantissa / p))).getD (2 ^ 127 - 1), 0⟩
        else .error .overflow
      else .ok ⟨d.mantissa / p, 0⟩

/-- `numeric_round`; left of the point the digits shed are counted in `u32`. -/
def numericRound (d : Decimal) (places : Int) : Option Decimal :=
  if d.isNan then some d
  else if 0 ≤ places then d.rescale (if places ≤ 255 then places.toNat else maxScale)
  else if 2 ^ 32 ≤ d.scale + places.natAbs then none
  else do
    let divisor ← pow10 (d.scale + places.natAbs)
    let unit ← pow10 places.natAbs
    let mantissa ← checked (quotAway d.mantissa divisor * unit)
    some ⟨mantissa, 0⟩

/-- `numeric_trunc`: where a power of ten overflows the value is left as it is. -/
def numericTrunc (d : Decimal) (places : Int) : Decimal :=
  if d.isNan then d
  else if places < 0 then
    if 2 ^ 32 ≤ d.scale + places.natAbs then d
    else
      match pow10 (d.scale + places.natAbs), pow10 places.natAbs with
      | some div, some mul =>
        match checked (d.mantissa.tdiv div * mul) with
        | some mantissa => ⟨mantissa, 0⟩
        | none => d
      | _, _ => d
  else
    let target := if places ≤ 255 then places.toNat else 255
    if d.scale ≤ target then d
    else
      match pow10 (d.scale - target) with
      | some div => ⟨d.mantissa.tdiv div, target⟩
      | none => d

/-- A number: an `i128` mantissa with at most `MAX_SCALE` fractional digits. -/
def IsFinite (d : Decimal) : Prop := d.scale ≤ maxScale ∧ FitsI128 d.mantissa

instance (d : Decimal) : Decidable d.IsFinite := inferInstanceAs (Decidable (_ ∧ _))

def Denotes (d : Decimal) (q : ℚ) : Prop := d.value = (q : WithTop ℚ)

variable {d x y z : Decimal} {q : ℚ} {n : Nat}

lemma denotes_iff (h : d.scale < nanScale) : d.Denotes q ↔ d.toRat = q := by
  rw [Denotes, value_of_finite (by simp [isNan, h.ne]), WithTop.coe_inj]

lemma denotes_whole (m : Int) : Denotes ⟨m, 0⟩ q ↔ (m : ℚ) = q := by
  rw [denotes_iff (show 0 < 255 by decide), toRat, pow_zero, div_one]

lemma IsFinite.valid (hd : d.IsFinite) : d.Valid := .inr hd

lemma IsFinite.isNan (hd : d.IsFinite) : d.isNan = false := isNan_of_scale_le hd.1

lemma IsFinite.denotes_iff (hd : d.IsFinite) : d.Denotes q ↔ d.toRat = q :=
  Decimal.denotes_iff (lt_of_le_of_lt hd.1 (by decide))

lemma IsFinite.neg (hd : d.IsFinite) : d.neg.IsFinite :=
  ⟨hd.1, le_bmod (by decide), bmod_lt (by decide)⟩

lemma toRat_mul_pow_of_le (hle : n ≤ d.scale) :
    d.toRat * 10 ^ n = (d.mantissa : ℚ) / ((10 ^ (d.scale - n) : Int) : ℚ) := by
  have hpow : (10 : ℚ) ^ d.scale = 10 ^ (d.scale - n) * 10 ^ n := by
    rw [← pow_add, Nat.sub_add_cancel hle]
  rw [toRat, hpow]
  push_cast
  field_simp

/-- Each operation on one operand returns the number it names. -/
structure Exact (d : Decimal) : Prop where
  neg : d.neg.Denotes (-d.toRat)
  abs : d.mathAbs.Denotes |d.toRat|
  floor : ∀ z, d.numericFloorCeil false = .ok z → z.Denotes ⌊d.toRat⌋
  ceil : ∀ z, d.numericFloorCeil true = .ok z → z.Denotes ⌈d.toRat⌉
  rescale : ∀ n < d.scale, d.rescale n = some ⟨roundAway (d.toRat * 10 ^ n), n⟩

lemma floor_toRat (d : Decimal) : ⌊d.toRat⌋ = d.mantissa / 10 ^ d.scale := by
  have h := Rat.floor_intCast_div_natCast d.mantissa (10 ^ d.scale)
  push_cast at h
  exact h

lemma ediv_between (m : Int) {p : Int} (hp : 0 < p) : min m 0 ≤ m / p ∧ m / p ≤ max m 0 := by
  rcases le_total 0 m with h | h
  · exact ⟨min_le_of_right_le (ediv_nonneg h hp.le), le_max_of_le_left (ediv_le_self p h)⟩
  refine ⟨min_le_of_left_le ((Int.le_ediv_iff_mul_le hp).mpr ?_),
    le_max_of_le_right (Int.ediv_nonpos_of_nonpos_of_neg h hp)⟩
  nlinarith

section

variable (hd : d.IsFinite)

include hd

lemma numericFloorCeil_floor (h : d.numericFloorCeil false = .ok z) : z.Denotes ⌊d.toRat⌋ := by
  rw [numericFloorCeil, if_neg (by simp [hd.isNan]), pow10_of_le hd.1] at h
  simp only [Bool.false_eq_true, if_false] at h
  rw [floor_toRat]
  split_ifs at h with hs
  · obtain rfl := Except.ok.inj h
    rw [hs, pow_zero, ediv_one, hd.denotes_iff, toRat, hs, pow_zero, div_one]
  · obtain rfl := Except.ok.inj h
    rw [denotes_whole]

lemma numericFloorCeil_ceil (h : d.numericFloorCeil true = .ok z) : z.Denotes ⌈d.toRat⌉ := by
  -- `-floor(-x)`
  have hceil : ⌈d.toRat⌉ = -(-d.mantissa / 10 ^ d.scale) := by
    have hneg := floor_toRat ⟨-d.mantissa, d.scale⟩
    rw [← hneg, ← ceil_neg]
    simp [toRat, neg_div]
  rw [numericFloorCeil, if_neg (by simp [hd.isNan]), pow10_of_le hd.1] at h
  simp only [if_true] at h
  rw [hceil]
  split_ifs at h with hs hfit
  · obtain rfl := Except.ok.inj h
    rw [hs, pow_zero, ediv_one, neg_neg, hd.denotes_iff, toRat, hs, pow_zero, div_one]
  obtain rfl := Except.ok.inj h
  have hbetween := ediv_between (-d.mantissa) (show (0 : Int) < 10 ^ d.scale by positivity)
  have hmin := hd.2
  rw [checked_eq, if_pos (by simp only [FitsI128] at *; omega), getD_some, denotes_whole]

lemma exact_iff_mantissa : d.Exact ↔ d.mantissa ≠ -2 ^ 127 := by
  constructor
  · intro h hmin
    have hself : d.neg = d := by
      obtain ⟨m, s⟩ := d
      subst hmin
      rfl
    have hzero : d.toRat = -d.toRat := by
      have := h.neg
      rwa [hself, hd.denotes_iff] at this
    have : (d.mantissa : ℚ) / 10 ^ d.scale = 0 := by
      simp only [toRat] at hzero
      linarith
    simp [hmin] at this
  · intro hmin
    have hneg : d.neg.Denotes (-d.toRat) := by
      rw [hd.neg.denotes_iff, neg_eq hd.2 hmin]
      simp [toRat, neg_div]
    refine ⟨hneg, ?_, fun _ => numericFloorCeil_floor hd, fun _ => numericFloorCeil_ceil hd, ?_⟩
    · have hpow : (0 : ℚ) < 10 ^ d.scale := by positivity
      rw [mathAbs]
      split_ifs with hsign
      · have hsign : (d.mantissa : ℚ) < 0 := by exact_mod_cast hsign
        rwa [abs_of_neg (show d.toRat < 0 from div_neg_of_neg_of_pos hsign hpow)]
      · have hsign : 0 ≤ (d.mantissa : ℚ) := by exact_mod_cast not_lt.mp hsign
        rw [hd.denotes_iff, abs_of_nonneg (show 0 ≤ d.toRat from div_nonneg hsign hpow.le)]
    · intro n hlt
      rw [rescale_down hd.isNan hlt (le_trans (Nat.sub_le _ _) hd.1), quotAway_eq _ (by positivity),
        toRat_mul_pow_of_le hlt.le]

end

/-- Each operation on two operands returns the number it names, and `checked_rem` returns. -/
structure ExactPair (x y : Decimal) : Prop where
  add : ∀ z, x.checkedAdd y = some z → z.Denotes (x.toRat + y.toRat)
  sub : ∀ z, x.checkedSub y = some z → z.Denotes (x.toRat - y.toRat)
  rem : ∃ r, x.checkedRem y = .ok r ∧
    ∀ z, r = some z → z.Denotes (x.toRat - y.toRat * towardZero (x.toRat / y.toRat))
  mul : ∀ z, x.checkedMul y = some z → x.scale + y.scale ≤ maxScale →
    z.Denotes (x.toRat * y.toRat)
  mulRounded : ∀ z, x.checkedMul y = some z → maxScale < x.scale + y.scale →
    z = ⟨roundAway (x.toRat * y.toRat * 10 ^ maxScale), maxScale⟩

lemma of_mul_pow_eq_min {m : Int} (h : m * 10 ^ n = -2 ^ 127) : n = 0 ∧ m = -2 ^ 127 := by
  cases n with
  | zero => exact ⟨rfl, by simpa using h⟩
  | succ n =>
    rw [pow_succ, ← mul_assoc] at h
    omega

section

variable (hx : x.IsFinite) (hy : y.IsFinite)

include hx hy

lemma checkedAdd_exact (h : x.checkedAdd y = some z) : z.Denotes (x.toRat + y.toRat) := by
  rw [Denotes, (checkedAdd_value hx.valid hy.valid h).2, value_of_finite hx.isNan,
    value_of_finite hy.isNan, WithTop.coe_add]

lemma checkedMul_roundAway (h : x.checkedMul y = some z) (hscale : maxScale < x.scale + y.scale) :
    z = ⟨roundAway (x.toRat * y.toRat * 10 ^ maxScale), maxScale⟩ := by
  obtain ⟨-, rfl⟩ := checkedMul_rounded hx.1 hy.1 hscale h
  have hprod : x.toRat * y.toRat = toRat ⟨x.mantissa * y.mantissa, x.scale + y.scale⟩ := by
    simp only [toRat, pow_add]
    push_cast
    field_simp
  rw [hprod, toRat_mul_pow_of_le hscale.le, quotAway_eq _ (by positivity)]

lemma checkedRem_cases :
    x.checkedRem y = .ok none ∨ ∃ a b : Int, FitsI128 a ∧ b ≠ 0 ∧
      (x.mantissa ≠ -2 ^ 127 → a ≠ -2 ^ 127) ∧
      x.toRat * 10 ^ max x.scale y.scale = a ∧ y.toRat * 10 ^ max x.scale y.scale = b ∧
      x.checkedRem y = if a = -2 ^ 127 ∧ b = -1 then .error .overflow
        else .ok (some ⟨a.tmod b, max x.scale y.scale⟩) := by
  have hmax : max x.scale y.scale ≤ maxScale := max_le hx.1 hy.1
  rw [checkedRem, if_neg (by simp [hx.isNan, hy.isNan]), rescale_up hx.isNan hx.2 (le_max_left _ _)
    hmax, rescale_up hy.isNan hy.2 (le_max_right _ _) hmax]
  split_ifs with hzero hfx hfy
  · exact .inl rfl
  · exact .inr ⟨_, _, hfx, mul_ne_zero hzero (by positivity), fun hm h => hm (of_mul_pow_eq_min h).2,
      toRat_mul_pow (le_max_left _ _), toRat_mul_pow (le_max_right _ _), rfl⟩
  all_goals exact .inl rfl

lemma checkedRem_exact (hmin : x.mantissa ≠ -2 ^ 127) :
    ∃ r, x.checkedRem y = .ok r ∧
      ∀ z, r = some z → z.Denotes (x.toRat - y.toRat * towardZero (x.toRat / y.toRat)) := by
  obtain h | ⟨a, b, -, hb, ha, hxa, hyb, h⟩ := checkedRem_cases hx hy
  · exact ⟨none, h, by simp⟩
  rw [if_neg (fun htrap => ha hmin htrap.1)] at h
  refine ⟨_, h, ?_⟩
  intro z hz
  obtain rfl := some.inj hz
  have hpow : (10 : ℚ) ^ max x.scale y.scale ≠ 0 := by positivity
  have hratio : x.toRat / y.toRat = (a : ℚ) / b := by
    rw [← hxa, ← hyb, mul_div_mul_right _ _ hpow]
  rw [denotes_iff (lt_of_le_of_lt (max_le hx.1 hy.1) (by decide)), hratio, ← tdiv_eq a hb, toRat,
    tmod_def, eq_comm, eq_div_iff hpow, sub_mul, hxa, mul_right_comm, hyb]
  push_cast
  ring

lemma exactPair_of_mantissa (hxm : x.mantissa ≠ -2 ^ 127) (hym : y.mantissa ≠ -2 ^ 127) :
    ExactPair x y where
  add _ := checkedAdd_exact hx hy
  sub z h := by
    have hsub := checkedAdd_exact hx hy.neg h
    rw [neg_eq hy.2 hym] at hsub
    simpa [toRat, neg_div, sub_eq_add_neg] using hsub
  rem := checkedRem_exact hx hy hxm
  mul _ h hscale := (checkedMul_value hscale h).2.1
  mulRounded _ := checkedMul_roundAway hx hy

/-- **The operations are exact off `i128::MIN`**, and only there. -/
theorem exact_iff :
    x.Exact ∧ y.Exact ∧ ExactPair x y ↔ x.mantissa ≠ -2 ^ 127 ∧ y.mantissa ≠ -2 ^ 127 := by
  rw [exact_iff_mantissa hx, exact_iff_mantissa hy]
  constructor
  · rintro ⟨hxm, hym, -⟩
    exact ⟨hxm, hym⟩
  · rintro ⟨hxm, hym⟩
    exact ⟨hxm, hym, exactPair_of_mantissa hx hy hxm hym⟩

end

theorem exact_of_seven_and_two :
    Exact ⟨7, 0⟩ ∧ Exact ⟨-2, 1⟩ ∧ ExactPair ⟨7, 0⟩ ⟨-2, 1⟩ :=
  (exact_iff (by decide) (by decide)).mpr (by decide)

/-- `0 - i128::MIN` comes out as `i128::MIN`, and the remainder of `i128::MIN` by `-1` traps. -/
theorem min_subtracted_from_zero :
    checkedSub ⟨0, 0⟩ ⟨-2 ^ 127, 0⟩ = some ⟨-2 ^ 127, 0⟩ ∧
      checkedRem ⟨-2 ^ 127, 0⟩ ⟨-1, 0⟩ = .error .overflow ∧
      ¬ (Exact ⟨0, 0⟩ ∧ Exact ⟨-2 ^ 127, 0⟩ ∧ ExactPair ⟨0, 0⟩ ⟨-2 ^ 127, 0⟩) := by
  refine ⟨by decide, by decide, ?_⟩
  rintro ⟨-, h, -⟩
  exact (exact_iff_mantissa (by decide)).mp h rfl

/-- At `places` both are the multiple of `10 ^ (-places)` the rounding picks. -/
structure RoundsAt (d : Decimal) (places : Int) : Prop where
  trunc : (d.numericTrunc places).Denotes (towardZero (d.toRat * 10 ^ places) * 10 ^ (-places))
  round : ∀ z, d.numericRound places = some z →
    z.Denotes (roundAway (d.toRat * 10 ^ places) * 10 ^ (-places))

lemma pow10_le_of_some {p : Int} (h : pow10 n = some p) : n ≤ maxScale := by
  by_contra hn
  have hle : (10 : Int) ^ (maxScale + 1) ≤ 10 ^ n := pow_le_pow_right₀ (by norm_num) (by omega)
  simp only [maxScale] at hle
  rw [pow10, checked_eq, if_neg (by simp only [FitsI128]; omega)] at h
  cases h

lemma toRat_mul_zpow_neg (d : Decimal) (n : Nat) :
    d.toRat * 10 ^ (-(n : Int)) = (d.mantissa : ℚ) / ((10 ^ (d.scale + n) : Int) : ℚ) := by
  rw [zpow_neg, zpow_natCast, toRat]
  push_cast
  rw [pow_add]
  field_simp

section

variable (hd : d.IsFinite)

include hd

lemma rescale_grow (hle : d.scale ≤ n) (h : d.rescale n = some z) : z.Denotes d.toRat := by
  have hmax := hd.1
  rcases hle.eq_or_lt with rfl | hlt
  · rw [rescale, if_neg (by simp [hd.isNan]), if_pos rfl] at h
    obtain rfl := some.inj h
    exact hd.denotes_iff.mpr rfl
  rw [rescale, if_neg (by simp [hd.isNan]), if_neg (by omega), if_pos hlt] at h
  obtain ⟨p, hp, h⟩ := bind_eq_some_iff.mp h
  obtain ⟨m, hm, h⟩ := bind_eq_some_iff.mp h
  obtain rfl := some.inj h
  have hn := pow10_le_of_some hp
  rw [denotes_iff (show n < 255 by simp only [maxScale] at *; omega), toRat, checked_some hm,
    pow10_some hp, ← toRat_mul_pow hle]
  field_simp

lemma numericTrunc_natCast :
    d.numericTrunc n = if d.scale ≤ n then d
      else ⟨d.mantissa.tdiv (10 ^ (d.scale - n)), n⟩ := by
  have hmax := hd.1
  simp only [maxScale] at hmax
  rw [numericTrunc, if_neg (by simp [hd.isNan]), if_neg (by omega)]
  dsimp only
  split_ifs with hbig hle hle' hle' <;> try omega
  · rfl
  · rw [toNat_natCast, pow10_of_le (by simp only [maxScale]; omega)]
  · rfl

lemma RoundsAt.of_nonneg : RoundsAt d n := by
  have hmax := hd.1
  simp only [maxScale] at hmax
  rcases lt_or_ge n d.scale with hlt | hge
  · -- the digits from the place on are dropped
    have hspan : d.scale - n ≤ maxScale := by simp only [maxScale]; omega
    have hscale : n < nanScale := by simp only [nanScale]; omega
    refine ⟨?_, ?_⟩
    · rw [numericTrunc_natCast hd, if_neg (by omega), denotes_iff hscale, zpow_neg, zpow_natCast,
        toRat_mul_pow_of_le hlt.le, tdiv_eq _ (by positivity)]
      rfl
    · intro z hz
      rw [numericRound, if_neg (by simp [hd.isNan]), if_pos (by omega), if_pos (by omega),
        toNat_natCast, rescale_down hd.isNan hlt hspan] at hz
      obtain rfl := some.inj hz
      rw [denotes_iff hscale, zpow_neg, zpow_natCast, toRat_mul_pow_of_le hlt.le,
        ← quotAway_eq _ (by positivity)]
      rfl
  · -- the number is a multiple already
    have hwhole := toRat_mul_pow hge
    have hself : ((d.mantissa * 10 ^ (n - d.scale) : Int) : ℚ) * 10 ^ (-(n : Int)) = d.toRat := by
      rw [← hwhole, zpow_neg, zpow_natCast]
      field_simp
    refine ⟨?_, ?_⟩
    · rw [numericTrunc_natCast hd, if_pos hge, zpow_natCast, hwhole, towardZero_intCast, hself]
      exact hd.denotes_iff.mpr rfl
    · intro z hz
      rw [numericRound, if_neg (by simp [hd.isNan]), if_pos (by omega)] at hz
      rw [zpow_natCast, hwhole, roundAway_intCast, hself]
      exact rescale_grow hd (by simp only [maxScale]; split_ifs <;> omega) hz

variable (hn : 0 < n)

include hn

lemma tdiv_mul_fits : FitsI128 (d.mantissa.tdiv (10 ^ (d.scale + n)) * 10 ^ n) := by
  have hle : (d.mantissa.tdiv (10 ^ (d.scale + n)) * 10 ^ n).natAbs ≤ d.mantissa.natAbs := by
    rw [natAbs_mul, natAbs_tdiv, Int.natAbs_pow, Int.natAbs_pow, pow_add]
    exact le_trans (Nat.mul_le_mul_left _ (Nat.le_mul_of_pos_left _ (by positivity)))
      (Nat.div_mul_le_self _ _)
  -- a multiple of ten is not `2 ^ 127`
  obtain ⟨k, rfl⟩ : ∃ k, n = k + 1 := ⟨n - 1, by omega⟩
  have hfit := hd.2
  rw [pow_succ, ← mul_assoc] at hle ⊢
  simp only [FitsI128] at hfit ⊢
  omega

lemma numericTrunc_neg :
    d.numericTrunc (-(n : Int)) = if d.scale + n ≤ maxScale
      then ⟨d.mantissa.tdiv (10 ^ (d.scale + n)) * 10 ^ n, 0⟩ else d := by
  rw [numericTrunc, if_neg (by simp [hd.isNan]), if_pos (by omega), Int.natAbs_neg,
    Int.natAbs_natCast]
  rcases lt_or_ge maxScale (d.scale + n) with hbig | hsmall
  · rw [if_neg (by omega : ¬ d.scale + n ≤ maxScale)]
    cases hp : pow10 (d.scale + n) with
    | none => split_ifs <;> rfl
    | some p => exact absurd (pow10_le_of_some hp) (by omega)
  · have hmax : d.scale + n < 2 ^ 32 := by simp only [maxScale] at hsmall; omega
    rw [if_neg (by omega), if_pos hsmall, pow10_of_le hsmall, pow10_of_le (by omega)]
    simp only [checked_eq, if_pos (tdiv_mul_fits hd hn)]

/-- Left of the point both are right just for places within `MAX_SCALE` of the last digit. -/
lemma roundsAt_neg_iff :
    RoundsAt d (-(n : Int)) ↔ d.mantissa = 0 ∨ d.scale + n ≤ maxScale := by
  have hratio := toRat_mul_zpow_neg d n
  have hshed : (10 : Int) ^ (d.scale + n) ≠ 0 := by positivity
  have hround : ∀ z, d.numericRound (-(n : Int)) = some z →
      z.Denotes (roundAway (d.toRat * 10 ^ (-(n : Int))) * 10 ^ (- -(n : Int))) := by
    intro z hz
    rw [numericRound, if_neg (by simp [hd.isNan]), if_neg (by omega), natAbs_neg,
      natAbs_natCast] at hz
    split_ifs at hz
    obtain ⟨p, hp, hz⟩ := bind_eq_some_iff.mp hz
    obtain ⟨u, hu, hz⟩ := bind_eq_some_iff.mp hz
    obtain ⟨m, hm, hz⟩ := bind_eq_some_iff.mp hz
    obtain rfl := some.inj hz
    rw [denotes_whole, checked_some hm, pow10_some hp, pow10_some hu, quotAway_eq _ hshed, hratio,
      neg_neg, zpow_natCast]
    push_cast
    rfl
  have htrunc : (d.numericTrunc (-(n : Int))).Denotes
        (towardZero (d.toRat * 10 ^ (-(n : Int))) * 10 ^ (- -(n : Int))) ↔
      (d.numericTrunc (-(n : Int))).Denotes
        ((d.mantissa.tdiv (10 ^ (d.scale + n)) * 10 ^ n : Int) : ℚ) := by
    rw [hratio, ← tdiv_eq _ hshed, neg_neg, zpow_natCast]
    push_cast
    rfl
  have hiff : RoundsAt d (-(n : Int)) ↔ _ := ⟨fun h => htrunc.mp h.trunc,
    fun h => ⟨htrunc.mpr h, hround⟩⟩
  rw [hiff, numericTrunc_neg hd hn]
  split_ifs with hsmall
  · simp only [denotes_whole, hsmall, or_true]
  -- every digit is shed: the multiple is zero
  have hzero : d.mantissa.tdiv (10 ^ (d.scale + n)) = 0 := by
    have hle : (10 : Int) ^ (maxScale + 1) ≤ 10 ^ (d.scale + n) :=
      pow_le_pow_right₀ (by norm_num) (by omega)
    have hfit := hd.2
    simp only [maxScale, FitsI128] at hle hfit
    rw [← natAbs_eq_zero, natAbs_tdiv]
    exact Nat.div_eq_of_lt (by omega)
  rw [hzero, hd.denotes_iff]
  simp [toRat, hsmall]

end

/-- **`ROUND` and `TRUNC` are right at every place count** that sheds at most `MAX_SCALE` digits. -/
theorem roundsAt_iff (hd : d.IsFinite) (places : Int) :
    RoundsAt d places ↔ d.mantissa = 0 ∨ d.scale - places ≤ maxScale := by
  have hmax := hd.1
  obtain ⟨n, rfl | rfl⟩ := Int.eq_nat_or_neg places
  · exact iff_of_true (.of_nonneg hd) (.inr (by omega))
  rcases Nat.eq_zero_or_pos n with rfl | hn
  · exact iff_of_true (.of_nonneg (n := 0) hd) (.inr (by omega))
  · rw [roundsAt_neg_iff hd hn]
    omega

theorem roundsAt_hundreds : RoundsAt ⟨123456, 2⟩ (-2) :=
  (roundsAt_iff (by decide) (-2)).mpr (by decide)

/-- `TRUNC(5, -39)` is `5`. -/
theorem five_kept_left_of_point :
    numericTrunc ⟨5, 0⟩ (-39) = ⟨5, 0⟩ ∧ ¬ RoundsAt ⟨5, 0⟩ (-39) := by
  refine ⟨by decide, ?_⟩
  rw [show (-39 : Int) = -((39 : Nat) : Int) by rfl, roundsAt_neg_iff (by decide) (by decide)]
  decide

end NusaDb.Sql.Decimal
