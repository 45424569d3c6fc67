import Mathlib

/-!
# Rounding half away from zero, and toward zero

The nearest integer to a rational, ties away from zero, and the integer division that computes it:
truncate, then step away from zero once twice the remainder reaches the divisor. Both are odd, so
each is settled among the naturals.
-/

namespace NusaDb.HalfAway

open Int

def roundAway (x : ℚ) : ℤ := if x < 0 then -round (-x) else round x

def quotAway (num den : ℤ) : ℤ :=
  if (num.tmod den).natAbs * 2 ≥ den.natAbs then num.tdiv den + num.sign * den.sign
  else num.tdiv den

def towardZero (x : ℚ) : ℤ := if x < 0 then -⌊-x⌋ else ⌊x⌋

lemma odd_of_zero (f : ℚ → ℤ) (hf : f 0 = 0) (x : ℚ) :
    (if -x < 0 then -f (- -x) else f (-x)) = -(if x < 0 then -f (-x) else f x) := by
  rcases lt_trichotomy x 0 with h | rfl | h
  · rw [if_neg (by linarith), if_pos h, neg_neg]
  · simp [hf]
  · rw [if_pos (by linarith), if_neg (by linarith), neg_neg]

lemma roundAway_neg (x : ℚ) : roundAway (-x) = -roundAway x := odd_of_zero round (by simp) x

lemma towardZero_neg (x : ℚ) : towardZero (-x) = -towardZero x :=
  odd_of_zero floor (by simp) x

lemma le_natAbs_roundAway {x : ℚ} {m : ℕ} (h : (m : ℚ) ≤ |x|) : m ≤ (roundAway x).natAbs := by
  have hround : ∀ y : ℚ, (m : ℚ) ≤ y → (m : ℤ) ≤ round y := by
    intro y hy
    rw [round_eq, le_floor]
    push_cast
    linarith
  rw [roundAway]
  split_ifs with hx
  · have := hround (-x) (by rwa [← abs_of_neg hx])
    omega
  · have := hround x (by rwa [← abs_of_nonneg (not_lt.mp hx)])
    omega

lemma quotient_eq {f : ℚ → ℤ} {q : ℤ → ℤ → ℤ} (hf : ∀ x, f (-x) = -f x) (hleft : ∀ n d, q (-n) d =
    -q n d) (hright : ∀ n d, q n (-d) = -q n d) (hnat : ∀ n d : ℕ, 0 < d → q n d = f ((n : ℚ) / d))
    (num : ℤ) {den : ℤ} (hden : den ≠ 0) : q num den = f ((num : ℚ) / den) := by
  -- each sign is taken out of both sides
  obtain ⟨n, rfl | rfl⟩ := Int.eq_nat_or_neg num <;> obtain ⟨d, rfl | rfl⟩ := Int.eq_nat_or_neg den
  · simpa using hnat n d (by omega)
  · rw [hright, hnat n d (by omega)]
    push_cast
    rw [div_neg, hf]
  · rw [hleft, hnat n d (by omega)]
    push_cast
    rw [neg_div, hf]
  · rw [hleft, hright, hnat n d (by omega)]
    push_cast
    rw [neg_div_neg_eq, neg_neg]

lemma tdiv_eq (num : ℤ) {den : ℤ} (hden : den ≠ 0) :
    num.tdiv den = towardZero ((num : ℚ) / den) := by
  apply quotient_eq towardZero_neg Int.neg_tdiv Int.tdiv_neg _ num hden
  intro n d _
  rw [towardZero, if_neg (not_lt.mpr (by positivity)), Int.tdiv_eq_ediv_of_nonneg (by omega)]
  exact (Rat.floor_intCast_div_natCast n d).symm

@[simp] lemma towardZero_intCast (n : ℤ) : towardZero n = n := by
  simpa using (tdiv_eq n one_ne_zero).symm

@[simp] lemma roundAway_intCast (n : ℤ) : roundAway n = n := by
  rw [roundAway]
  split_ifs
  · rw [← cast_neg, round_intCast, neg_neg]
  · exact round_intCast n

lemma quotAway_neg_left (num den : ℤ) : quotAway (-num) den = -quotAway num den := by
  simp only [quotAway, Int.neg_tmod, Int.neg_tdiv, Int.natAbs_neg, Int.sign_neg]
  split_ifs <;> ring

lemma quotAway_neg_right (num den : ℤ) : quotAway num (-den) = -quotAway num den := by
  simp only [quotAway, Int.tmod_neg, Int.tdiv_neg, Int.natAbs_neg, Int.sign_neg]
  split_ifs <;> ring

lemma quotAway_natCast (n : ℕ) {d : ℕ} (hd : 0 < d) :
    quotAway n d = round ((n : ℚ) / d) := by
  have hmod : (n : ℤ).tmod d = ((n % d : ℕ) : ℤ) := by simp [tmod_eq_emod_of_nonneg]
  have hdiv : (n : ℤ).tdiv d = ((n / d : ℕ) : ℤ) := by simp [tdiv_eq_ediv_of_nonneg]
  have hsplit : (d : ℚ) * ((n / d : ℕ) : ℚ) + ((n % d : ℕ) : ℚ) = n := by
    exact_mod_cast Nat.div_add_mod n d
  have hpos : (0 : ℚ) < d := by exact_mod_cast hd
  rw [round_eq, eq_comm, floor_eq_iff, quotAway, hmod, hdiv, natAbs_natCast,
    natAbs_natCast]
  have hratio : (n : ℚ) / d = ((n / d : ℕ) : ℚ) + ((n % d : ℕ) : ℚ) / d := by
    field_simp
    linarith
  have hlt : ((n % d : ℕ) : ℚ) < d := by exact_mod_cast Nat.mod_lt n hd
  split_ifs with h
  · -- a dividend whose remainder is at least half the divisor is positive
    have hn : 0 < n := by
      rcases Nat.eq_zero_or_pos n with rfl | hn
      · simp at h
        omega
      · exact hn
    have hsign : ((n : ℤ)).sign * ((d : ℤ)).sign = 1 := by
      rw [sign_eq_one_of_pos (by exact_mod_cast hn),
        sign_eq_one_of_pos (by exact_mod_cast hd), one_mul]
    have hhalf : (1 : ℚ) / 2 ≤ ((n % d : ℕ) : ℚ) / d := by
      rw [div_le_div_iff₀ (by norm_num) hpos]
      have hcast : (d : ℚ) ≤ ((n % d : ℕ) : ℚ) * 2 := by exact_mod_cast h
      linarith
    have hone : ((n % d : ℕ) : ℚ) / d < 1 := by rwa [div_lt_one hpos]
    rw [hsign, cast_add, cast_one, cast_natCast]
    constructor <;> linarith
  · have hhalf : ((n % d : ℕ) : ℚ) / d < 1 / 2 := by
      rw [div_lt_div_iff₀ hpos (by norm_num)]
      have hcast : ((n % d : ℕ) : ℚ) * 2 < d := by exact_mod_cast not_le.mp h
      linarith
    have hzero : 0 ≤ ((n % d : ℕ) : ℚ) / d := by positivity
    rw [cast_natCast]
    constructor <;> linarith

/-- **The integer quotient is the rounded ratio.** -/
theorem quotAway_eq (num : ℤ) {den : ℤ} (hden : den ≠ 0) :
    quotAway num den = roundAway ((num : ℚ) / den) := by
  apply quotient_eq roundAway_neg quotAway_neg_left quotAway_neg_right _ num hden
  intro n d hd
  rw [quotAway_natCast n hd, roundAway, if_neg (not_lt.mpr (by positivity))]

end NusaDb.HalfAway
