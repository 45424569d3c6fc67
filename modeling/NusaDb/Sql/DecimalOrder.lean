import NusaDb.Sql.Value

/-!
# The order of decimals

`Decimal::compare` aligns the operands to the larger scale and compares mantissas; where that leaves
`i128`, the mantissas as they stand.
-/

namespace NusaDb.Sql

namespace Decimal

def maxScale : Nat := 38

def FitsI128 (m : Int) : Prop := -2 ^ 127 ≤ m ∧ m < 2 ^ 127

instance (m : Int) : Decidable (FitsI128 m) := inferInstanceAs (Decidable (_ ∧ _))

/-- What a `NUMERIC` may hold: a `NaN`, or an `i128` with at most `MAX_SCALE` fractional digits. -/
def Valid (d : Decimal) : Prop := d.isNan = true ∨ d.scale ≤ maxScale ∧ FitsI128 d.mantissa

instance (d : Decimal) : Decidable d.Valid := inferInstanceAs (Decidable (_ ∨ _))

def toRat (d : Decimal) : ℚ := d.mantissa / 10 ^ d.scale

/-- The number a decimal denotes, `NaN` above every rational. -/
def value (d : Decimal) : WithTop ℚ := if d.isNan then ⊤ else (d.toRat : WithTop ℚ)

def trimLoop (mantissa : Int) : Nat → Decimal
  | 0 => ⟨mantissa, 0⟩
  | scale + 1 =>
    if mantissa.tmod 10 = 0 then trimLoop (mantissa.tdiv 10) scale else ⟨mantissa, scale + 1⟩

def trimScale (d : Decimal) : Decimal :=
  if d.isNan then nan else trimLoop d.mantissa d.scale

lemma checked_eq (m : Int) : checked m = if FitsI128 m then some m else none := rfl

lemma pow10_of_le {k : Nat} (hk : k ≤ maxScale) : pow10 k = some (10 ^ k) := by
  have hle : (10 : Int) ^ k ≤ 10 ^ maxScale := pow_le_pow_right₀ (by norm_num) hk
  have hpos : (0 : Int) < 10 ^ k := by positivity
  have hmax : (10 : Int) ^ maxScale < 2 ^ 127 := by norm_num [maxScale]
  rw [pow10, checked_eq, if_pos]
  exact ⟨by omega, by omega⟩

lemma rescale_up {d : Decimal} {target : Nat} (hn : d.isNan = false) (hd : FitsI128 d.mantissa)
    (hle : d.scale ≤ target) (htarget : target ≤ maxScale) :
    d.rescale target
      = if FitsI128 (d.mantissa * 10 ^ (target - d.scale))
        then some ⟨d.mantissa * 10 ^ (target - d.scale), target⟩ else none := by
  rcases Nat.eq_or_lt_of_le hle with heq | hlt
  · subst heq
    simp [rescale, hn, hd]
  rw [rescale, if_neg (by simp [hn]), if_neg (by omega), if_pos hlt,
    pow10_of_le (show target - d.scale ≤ maxScale by omega)]
  simp only [Option.bind_eq_bind, Option.bind_some, checked_eq]
  split_ifs <;> rfl

variable {a b : Decimal}

lemma compare_of_scale_le (han : a.isNan = false) (hbn : b.isNan = false)
    (ha : FitsI128 a.mantissa) (hb : FitsI128 b.mantissa) (hle : a.scale ≤ b.scale)
    (hscale : b.scale ≤ maxScale) :
    a.compare b
      = if FitsI128 (a.mantissa * 10 ^ (b.scale - a.scale))
        then Ord.compare (a.mantissa * 10 ^ (b.scale - a.scale)) b.mantissa
        else Ord.compare a.mantissa b.mantissa := by
  have hb' : b.rescale b.scale = some b := by
    rw [rescale_up hbn hb le_rfl hscale]
    simp [hb]
  simp only [compare, han, hbn, Nat.max_eq_right hle, rescale_up han ha hle hscale, hb']
  split_ifs <;> rfl

lemma compare_swap (a b : Decimal) : (a.compare b).swap = b.compare a := by
  simp only [compare]
  cases a.isNan <;> cases b.isNan <;> try rfl
  simp only [Nat.max_comm b.scale]
  cases a.rescale (max a.scale b.scale) <;> cases b.rescale (max a.scale b.scale) <;>
    exact Std.OrientedOrd.eq_swap.symm

lemma compare_toRat (hle : a.scale ≤ b.scale) :
    Ord.compare a.toRat b.toRat
      = Ord.compare (a.mantissa * 10 ^ (b.scale - a.scale)) b.mantissa := by
  have hpow : (10 : ℚ) ^ b.scale = 10 ^ (b.scale - a.scale) * 10 ^ a.scale := by
    rw [← pow_add, Nat.sub_add_cancel hle]
  have hscaled : a.toRat = ((a.mantissa * 10 ^ (b.scale - a.scale) : Int) : ℚ) / 10 ^ b.scale := by
    rw [toRat, hpow]
    push_cast
    field_simp
  have hmono : StrictMono fun m : Int => (m : ℚ) / 10 ^ b.scale := by
    intro m n hmn
    show (m : ℚ) / 10 ^ b.scale < n / 10 ^ b.scale
    gcongr
  rw [hscaled, ← cmp_eq_compare, ← cmp_eq_compare]
  exact hmono.cmp_map_eq _ _

lemma compare_value_finite (han : a.isNan = false) (hbn : b.isNan = false) :
    Ord.compare a.value b.value = Ord.compare a.toRat b.toRat := by
  simp only [value, han, hbn, Bool.false_eq_true, if_false]
  rw [← cmp_eq_compare, ← cmp_eq_compare]
  exact WithTop.coe_strictMono.cmp_map_eq _ _

/-- By mantissa alone, `a` is on the side of `b` its sign puts it on. -/
def Outweighs (a b : Decimal) : Prop :=
  (0 < a.mantissa → b.mantissa < a.mantissa) ∧ (a.mantissa < 0 → a.mantissa < b.mantissa)

/-- The pair is ordered correctly: with the other's scale each mantissa is an `i128`, or by mantissa
alone it already is on its side of the other. -/
def Comparable (a b : Decimal) : Prop :=
  a.isNan = true ∨ b.isNan = true ∨
    (FitsI128 (a.mantissa * 10 ^ (b.scale - a.scale)) ∨ Outweighs a b) ∧
    (FitsI128 (b.mantissa * 10 ^ (a.scale - b.scale)) ∨ Outweighs b a)

lemma Comparable.symm (h : Comparable a b) : Comparable b a := by
  obtain ha | hb | ⟨hab, hba⟩ := h
  · exact .inr (.inl ha)
  · exact .inl hb
  · exact .inr (.inr ⟨hba, hab⟩)

/-- A mantissa that left `i128` is beyond every `i128`, on the side of its sign. -/
lemma compare_overflowed {m n p : Int} (hp : 0 < p) (hm : ¬ FitsI128 (m * p)) (hn : FitsI128 n)
    (hfit : FitsI128 m) :
    Ord.compare m n = Ord.compare (m * p) n ↔ (0 < m → n < m) ∧ (m < 0 → m < n) := by
  obtain hneg | rfl | hpos := lt_trichotomy m 0
  · have hlt : m * p < n := by
      have hle : m * p ≤ m := by nlinarith
      simp only [FitsI128, not_and_or, not_le, not_lt] at hm hn hfit
      omega
    rw [compare_lt_iff_lt.mpr hlt, compare_lt_iff_lt]
    constructor
    · exact fun h => ⟨fun h' => by omega, fun _ => h⟩
    · exact fun h => h.2 hneg
  · exact absurd (by simp [FitsI128]) hm
  · have hgt : n < m * p := by
      have hle : m ≤ m * p := by nlinarith
      simp only [FitsI128, not_and_or, not_le, not_lt] at hm hn hfit
      omega
    rw [compare_gt_iff_gt.mpr hgt, compare_gt_iff_gt]
    constructor
    · exact fun h => ⟨fun _ => h, fun h' => by omega⟩
    · exact fun h => h.1 hpos

lemma compare_value_iff_of_scale_le (han : a.isNan = false) (hbn : b.isNan = false)
    (ha : FitsI128 a.mantissa) (hb : FitsI128 b.mantissa) (hle : a.scale ≤ b.scale)
    (hscale : b.scale ≤ maxScale) : a.compare b = Ord.compare a.value b.value ↔ Comparable a b := by
  have hsecond : FitsI128 (b.mantissa * 10 ^ (a.scale - b.scale)) := by
    rw [Nat.sub_eq_zero_of_le hle, pow_zero, mul_one]
    exact hb
  rw [compare_value_finite han hbn, compare_toRat hle, compare_of_scale_le han hbn ha hb hle hscale]
  simp only [Comparable, han, hbn, Bool.false_eq_true, false_or, hsecond, true_or, and_true]
  by_cases hfit : FitsI128 (a.mantissa * 10 ^ (b.scale - a.scale))
  · simp [hfit]
  · simp only [hfit, if_false, false_or]
    exact compare_overflowed (by positivity) hfit hb ha

lemma value_compare_swap (a b : Decimal) :
    (Ord.compare a.value b.value).swap = Ord.compare b.value a.value :=
  Std.OrientedOrd.eq_swap.symm

/-- **One pair.** The answer is the order of the numbers exactly when the pair is comparable. -/
theorem compare_value_iff (ha : a.Valid) (hb : b.Valid) :
    a.compare b = Ord.compare a.value b.value ↔ Comparable a b := by
  cases han : a.isNan <;> cases hbn : b.isNan
  · obtain h | ⟨hsa, hfa⟩ := ha
    · exact absurd h (by simp [han])
    obtain h | ⟨hsb, hfb⟩ := hb
    · exact absurd h (by simp [hbn])
    rcases le_total a.scale b.scale with hle | hle
    · exact compare_value_iff_of_scale_le han hbn hfa hfb hle hsb
    -- the mirrored pair, both answers turned round
    have hmirror := compare_value_iff_of_scale_le hbn han hfb hfa hle hsa
    rw [← compare_swap, ← value_compare_swap, Ordering.swap_inj] at hmirror
    rw [hmirror]
    exact ⟨Comparable.symm, Comparable.symm⟩
  · have hgt : a.value < b.value := by simp [value, han, hbn]
    simp [compare, han, hbn, Comparable, compare_lt_iff_lt.mpr hgt]
  · have hgt : b.value < a.value := by simp [value, han, hbn]
    simp [compare, han, hbn, Comparable, compare_gt_iff_gt.mpr hgt]
  · simp [compare, han, hbn, Comparable, value]

/-- A trimmed form: no fractional digits, or a last one that is not zero. -/
def Trimmed (d : Decimal) : Prop := d.scale = 0 ∨ ¬ (10 : Int) ∣ d.mantissa

lemma trimLoop_trimmed (m : Int) (s : Nat) : Trimmed (trimLoop m s) := by
  induction s generalizing m with
  | zero => exact .inl rfl
  | succ s ih =>
    rw [trimLoop]
    split_ifs with h
    · exact ih _
    · exact .inr fun hdvd => h (Int.tmod_eq_zero_of_dvd hdvd)

lemma toRat_trimLoop (m : Int) (s : Nat) : (trimLoop m s).toRat = toRat ⟨m, s⟩ := by
  induction s generalizing m with
  | zero => rfl
  | succ s ih =>
    rw [trimLoop]
    split_ifs with h
    · obtain ⟨k, rfl⟩ := Int.dvd_of_tmod_eq_zero h
      rw [ih, Int.mul_tdiv_cancel_left _ (by norm_num)]
      simp only [toRat, pow_succ]
      push_cast
      field_simp
    · rfl

lemma Trimmed.eq_of_toRat (ha : Trimmed a) (hb : Trimmed b) (h : a.toRat = b.toRat) : a = b := by
  wlog hle : a.scale ≤ b.scale generalizing a b
  · exact (this hb ha h.symm (Nat.le_of_not_le hle)).symm
  have hm : a.mantissa * 10 ^ (b.scale - a.scale) = b.mantissa := by
    have heq := compare_toRat hle
    rw [h, compare_eq_iff_eq.mpr rfl] at heq
    exact compare_eq_iff_eq.mp heq.symm
  rcases Nat.eq_or_lt_of_le hle with hscale | hlt
  · cases a
    simp_all
  -- one more digit would be a zero
  obtain hzero | hdvd := hb
  · omega
  refine absurd ?_ hdvd
  rw [← hm]
  exact Dvd.dvd.mul_left (dvd_pow_self 10 (by omega)) _

lemma trimLoop_isNan {m : Int} {s : Nat} (hs : s ≤ maxScale) : (trimLoop m s).isNan = false := by
  have hscale : ∀ (s : Nat) (m : Int), (trimLoop m s).scale ≤ s := by
    intro s
    induction s with
    | zero => exact fun m => le_rfl
    | succ s ih =>
      intro m
      rw [trimLoop]
      split_ifs
      · exact (ih _).trans (Nat.le_succ s)
      · exact le_rfl
  have hbound := hscale s m
  simp only [isNan, nanScale, maxScale, beq_eq_false_iff_ne] at hs ⊢
  omega

lemma trimScale_eq_iff (ha : a.Valid) (hb : b.Valid) :
    a.trimScale = b.trimScale ↔ a.value = b.value := by
  have hfinite : ∀ {d : Decimal}, d.Valid → d.isNan = false → d.scale ≤ maxScale := by
    intro d hd hn
    obtain h | h := hd
    · exact absurd h (by simp [hn])
    · exact h.1
  cases han : a.isNan <;> cases hbn : b.isNan <;>
    simp only [trimScale, value, han, hbn, if_true, if_false, Bool.false_eq_true]
  · rw [WithTop.coe_inj]
    constructor
    · intro h
      rw [← toRat_trimLoop a.mantissa, h, toRat_trimLoop b.mantissa]
    · intro h
      apply (trimLoop_trimmed _ _).eq_of_toRat (trimLoop_trimmed _ _)
      rw [toRat_trimLoop, toRat_trimLoop]
      exact h
  · refine iff_of_false (fun h => ?_) WithTop.coe_ne_top
    have hne := trimLoop_isNan (m := a.mantissa) (hfinite ha han)
    rw [h] at hne
    cases hne
  · refine iff_of_false (fun h => ?_) WithTop.top_ne_coe
    have hne := trimLoop_isNan (m := b.mantissa) (hfinite hb hbn)
    rw [← h] at hne
    cases hne

end Decimal

abbrev Number := { d : Decimal // d.Valid }

/-- `compare` is the order of the numbers in `dom`. -/
structure OrderOfNumbers (dom : Set Number) : Prop where
  byValue : ∀ a ∈ dom, ∀ b ∈ dom, a.1.compare b.1 = Ord.compare a.1.value b.1.value
  total : Ordered (fun a b : Number => a.1.compare b.1) (· ∈ dom)
  nanLast : ∀ a ∈ dom, ∀ b ∈ dom,
    a.1.isNan = true → a.1.compare b.1 = if b.1.isNan then .eq else .gt
  trimmed : ∀ a ∈ dom, ∀ b ∈ dom, a.1.compare b.1 = .eq ↔ a.1.trimScale = b.1.trimScale

/-- **Numbers are put in order exactly when no alignment that overflows is decided wrongly.** -/
theorem compare_orders_iff (dom : Set Number) :
    OrderOfNumbers dom ↔ ∀ a ∈ dom, ∀ b ∈ dom, a.1.Comparable b.1 := by
  constructor
  · intro h a ha b hb
    exact (Decimal.compare_value_iff a.2 b.2).mp (h.byValue a ha b hb)
  · intro h
    have hvalue : ∀ a ∈ dom, ∀ b ∈ dom, a.1.compare b.1 = Ord.compare a.1.value b.1.value :=
      fun a ha b hb => (Decimal.compare_value_iff a.2 b.2).mpr (h a ha b hb)
    refine ⟨hvalue, ⟨WithTop ℚ, inferInstance, fun a => a.1.value, ?_⟩, ?_, ?_⟩
    · intro a b ha hb
      exact hvalue a ha b hb
    · intro a _ b _ hnan
      cases hb : b.1.isNan <;> simp [Decimal.compare, hnan, hb]
    · intro a ha b hb
      rw [hvalue a ha b hb, compare_eq_iff_eq]
      exact (Decimal.trimScale_eq_iff a.2 b.2).symm

/-- Neither pair can be aligned: `10000000000` sorts below `0.2` written with 38 digits, and `2`
equals `0.00000000000000000000000000000000000002`. -/
theorem ten_billion_below_one_fifth :
    (⟨10 ^ 10, 0⟩ : Decimal).Valid ∧ (⟨2 * 10 ^ 37, 38⟩ : Decimal).Valid ∧
      Decimal.compare ⟨10 ^ 10, 0⟩ ⟨2 * 10 ^ 37, 38⟩ = .lt ∧
      Decimal.toRat ⟨2 * 10 ^ 37, 38⟩ < Decimal.toRat ⟨10 ^ 10, 0⟩ ∧
      Decimal.compare ⟨2, 0⟩ ⟨2, 38⟩ = .eq ∧
      Decimal.trimScale ⟨2, 0⟩ ≠ Decimal.trimScale ⟨2, 38⟩ := by
  refine ⟨by decide, by decide, by decide, ?_, by decide, by decide⟩
  norm_num [Decimal.toRat]

end NusaDb.Sql
