import NusaDb.Lib.Fallible
import NusaDb.Lib.LexOrder
import NusaDb.Sql.DecimalArith
import NusaDb.Sql.IndexKey

/-!
# Index keys embed SQL order

The first difference of two fields decides, whatever follows them (`Separates`). What follows starts
with one of three bytes or is empty (`IsTail`), which is why the byte `0xFF` after an escaped `0x00`
is safe.
-/

namespace NusaDb.Sql

open List LexOrder Fallible
open Decimal (maxScale FitsI128)

variable {F I R : Type}

/-! ## What a key is to embed -/

/-- The types a key column may have, `FLOAT` left out. -/
inductive KeyType where
  | bool
  | int
  | numeric
  | text
  | json
  | bytes
  | date
  | time
  | timeTz
  | timestamp
  | timestampTz
  | uuid
  | macaddr
  | macaddr8
  | enum
deriving DecidableEq, Repr

def Signed (bits : Nat) (v : Int) : Prop := -2 ^ (bits - 1) ≤ v ∧ v < 2 ^ (bits - 1)

inductive HasType : KeyType → SqlValue F (Scalar I R) → Prop where
  | null (ty : KeyType) : HasType ty .null
  | bool (b : Bool) : HasType .bool (.bool b)
  | int {v : Int} (h : Signed 64 v) : HasType .int (.int v)
  | numeric {d : Decimal} (h : d.Valid) : HasType .numeric (.numeric d)
  | text (s : List UInt8) : HasType .text (.other (.text s))
  | json (s : List UInt8) : HasType .json (.other (.json s))
  | bytes (b : List UInt8) : HasType .bytes (.other (.bytes b))
  | date {v : Int} (h : Signed 32 v) : HasType .date (.other (.date v))
  | time {v : Int} (h : Signed 64 v) : HasType .time (.other (.time v))
  | timeTz {v : Int} (h : Signed 64 v) : HasType .timeTz (.other (.timeTz v))
  | timestamp {v : Int} (h : Signed 64 v) : HasType .timestamp (.other (.timestamp v))
  | timestampTz {v : Int} (h : Signed 64 v) : HasType .timestampTz (.other (.timestampTz v))
  | uuid {b : List UInt8} (h : b.length = 16) : HasType .uuid (.other (.uuid b))
  | macaddr {b : List UInt8} (h : b.length = 6) : HasType .macaddr (.other (.macaddr b))
  | macaddr8 {b : List UInt8} (h : b.length = 8) : HasType .macaddr8 (.other (.macaddr8 b))
  | enum {n : Nat} (h : n < 2 ^ 32) : HasType .enum (.other (.enum n))

/-- The order of a column: numbers by value, byte strings by their bytes. -/
def scalarOrder : Scalar I R → Scalar I R → Ordering
  | .text a, .text b | .json a, .json b | .bytes a, .bytes b => compare a b
  | .uuid a, .uuid b | .macaddr a, .macaddr b | .macaddr8 a, .macaddr8 b => compare a b
  | .date a, .date b | .time a, .time b | .timeTz a, .timeTz b => compare a b
  | .timestamp a, .timestamp b | .timestampTz a, .timestampTz b => compare a b
  | .enum a, .enum b => compare a b
  | _, _ => .eq

def columnOrder : SqlValue F (Scalar I R) → SqlValue F (Scalar I R) → Ordering
  | .null, .null => .eq
  | .null, _ => .lt
  | _, .null => .gt
  | .bool a, .bool b => compare a b
  | .int a, .int b => compare a b
  | .numeric a, .numeric b => compare a.value b.value
  | .other a, .other b => scalarOrder a b
  | _, _ => .eq

def tupleOrder : List (SqlValue F (Scalar I R)) → List (SqlValue F (Scalar I R)) → Ordering
  | a :: as, b :: bs => (columnOrder a b).then (tupleOrder as bs)
  | _, _ => .eq

abbrev KeyTuple (F I R : Type) (tys : List KeyType) :=
  { vs : List (SqlValue F (Scalar I R)) // List.Forall₂ HasType tys vs }

/-! ## Separation -/

lemma compare_cons_self (b : UInt8) (x y : List UInt8) :
    compare (b :: x) (b :: y) = compare x y := by
  have hself : compare b b = .eq := Std.compare_self
  rw [List.compare_cons_cons, hself, Ordering.eq_then]

variable {a b : UInt8}

lemma compare_cons_lt (h : a.toNat < b.toNat) (x y : List UInt8) :
    compare (a :: x) (b :: y) = .lt := by
  rw [List.compare_cons_cons, UInt8.compare_eq_toNat_compare_toNat, Nat.compare_eq_lt.mpr h]
  rfl

lemma compare_cons_gt (h : b.toNat < a.toNat) (x y : List UInt8) :
    compare (a :: x) (b :: y) = .gt := by
  rw [List.compare_cons_cons, UInt8.compare_eq_toNat_compare_toNat, Nat.compare_eq_gt.mpr h]
  rfl

def HeadLe (n : Nat) (r : List UInt8) : Prop := ∀ t ∈ r.head?, t.toNat ≤ n

abbrev IsTail := HeadLe 2

lemma headLe_nil {n : Nat} : HeadLe n [] := by
  intro t ht
  cases ht

lemma headLe_cons {n : Nat} {t : UInt8} (ht : t.toNat ≤ n) (x : List UInt8) : HeadLe n (t :: x) := by
  intro u hu
  cases hu
  exact ht

lemma HeadLe.append {r s : List UInt8} (hr : HeadLe 1 r) (hs : IsTail s) : IsTail (r ++ s) := by
  cases r with
  | nil => exact hs
  | cons t r => exact headLe_cons ((hr t rfl).trans (by decide)) _

/-- Whatever follows, the two encodings decide as `c` says, or not at all. -/
def Separates (x y : List UInt8) (c : Ordering) : Prop :=
  ∀ r s, IsTail r → IsTail s → compare (x ++ r) (y ++ s) = c.then (compare r s)

lemma separates_of_length {x y : List UInt8} (h : x.length = y.length) :
    Separates x y (compare x y) :=
  fun r s _ _ => compare_append h r s

lemma Separates.cons {x y : List UInt8} {c : Ordering} (h : Separates x y c) (b : UInt8) :
    Separates (b :: x) (b :: y) c := by
  intro r s hr hs
  rw [cons_append, cons_append, compare_cons_self, h r s hr hs]

lemma separates_of_lt (h : a.toNat < b.toNat) (x y : List UInt8) :
    Separates (a :: x) (b :: y) .lt :=
  fun r s _ _ => compare_cons_lt h (x ++ r) (y ++ s)

lemma separates_of_gt (h : b.toNat < a.toNat) (x y : List UInt8) :
    Separates (a :: x) (b :: y) .gt :=
  fun r s _ _ => compare_cons_gt h (x ++ r) (y ++ s)

/-! ## Byte strings -/

lemma toNat_pos (h : b ≠ 0) : (0 : UInt8).toNat < b.toNat :=
  pos_of_ne_zero fun hzero => h (UInt8.toNat_inj.mp hzero)

/-- The terminator sorts below whatever a longer string goes on with: a nonzero byte, or the `0xFF`
of an escaped zero, which no tail starts with. -/
lemma compare_terminator {bs r s : List UInt8} (hr : IsTail r) :
    compare (0 :: r) (encodeOrderedBytes (b :: bs) ++ s) = .lt := by
  rw [encodeOrderedBytes]
  split_ifs with hb
  · show compare (0 :: r) (0 :: 255 :: (encodeOrderedBytes bs ++ s)) = .lt
    rw [compare_cons_self]
    cases r with
    | nil => rfl
    | cons t r =>
      have ht : t.toNat ≤ 2 := hr t rfl
      exact compare_cons_lt (show t.toNat < 255 by omega) r _
  · exact compare_cons_lt (toNat_pos hb) r _

lemma separates_orderedBytes (x y : List UInt8) :
    Separates (encodeOrderedBytes x) (encodeOrderedBytes y) (compare x y) := by
  intro r s hr hs
  induction x generalizing y with
  | nil =>
    cases y with
    | nil => exact compare_cons_self 0 r s
    | cons b y => exact compare_terminator hr
  | cons a x ih =>
    cases y with
    | nil =>
      have hlt : compare (0 :: s) (encodeOrderedBytes (a :: x) ++ r) = .lt := compare_terminator hs
      show compare (encodeOrderedBytes (a :: x) ++ r) (0 :: s) = .gt
      rw [Std.OrientedOrd.eq_swap, hlt]
      rfl
    | cons b y =>
      -- both bytes escaped, one of them, or none
      by_cases ha : a = 0 <;> by_cases hb : b = 0 <;>
        simp only [encodeOrderedBytes, ha, hb, if_true, if_false, cons_append, nil_append]
      · rw [compare_cons_self, compare_cons_self, compare_cons_self, ih y]
      · rw [compare_cons_lt (toNat_pos hb), compare_cons_lt (toNat_pos hb)]
        rfl
      · rw [compare_cons_gt (toNat_pos ha), compare_cons_gt (toNat_pos ha)]
        rfl
      · rw [List.compare_cons_cons, List.compare_cons_cons, ih y, Ordering.then_assoc]

/-! ## Fixed widths -/

lemma toBeBytes_eq (width n : Nat) :
    toBeBytes width n = (positional 256 width n).map UInt8.ofNat := by
  induction width generalizing n with
  | zero => rfl
  | succ width ih => rw [toBeBytes, positional, ih, map_append, map_singleton]

variable {n : Nat}

lemma compare_ofNat {m : Nat} (hm : m < 256) (hn : n < 256) :
    compare (UInt8.ofNat m) (UInt8.ofNat n) = compare m n := by
  rw [UInt8.compare_eq_toNat_compare_toNat, UInt8.toNat_ofNat_of_lt' hm,
    UInt8.toNat_ofNat_of_lt' hn]

lemma separates_toBeBytes {width m : Nat} (hm : m < 256 ^ width) (hn : n < 256 ^ width) :
    Separates (toBeBytes width m) (toBeBytes width n) (compare m n) := by
  have hcompare : compare (toBeBytes width m) (toBeBytes width n) = compare m n := by
    rw [toBeBytes_eq, toBeBytes_eq, compare_map, compare_positional hm hn]
    intro a ha b hb
    exact compare_ofNat (mem_positional_lt (by norm_num) ha) (mem_positional_lt (by norm_num) hb)
  rw [← hcompare]
  apply separates_of_length
  simp [toBeBytes_eq]

lemma xor_two_pow {k : Nat} (h : n < 2 ^ k) : n ^^^ 2 ^ k = n + 2 ^ k := by
  have hor := Nat.two_pow_add_eq_or_of_lt h 1
  rw [mul_one] at hor
  rw [add_comm, hor]
  apply Nat.eq_of_testBit_eq
  intro i
  rw [Nat.testBit_xor, Nat.testBit_or, Nat.testBit_two_pow]
  by_cases hi : k = i
  · subst hi
    rw [Nat.testBit_lt_two_pow h]
    simp
  · simp [hi]

lemma flipSign_eq {k : Nat} {v : Int} (hv : Signed (k + 1) v) :
    (flipSign (k + 1) v : Int) = v + 2 ^ k := by
  obtain ⟨hlo, hhi⟩ := hv
  rw [Nat.add_sub_cancel] at hlo hhi
  have hpow : (2 : Int) ^ (k + 1) = 2 ^ k + 2 ^ k := by rw [pow_succ]; ring
  have hcast : ((2 ^ k : Nat) : Int) = 2 ^ k := by push_cast; rfl
  rw [flipSign, Nat.add_sub_cancel]
  rcases le_or_gt 0 v with h | h
  · have hmod : v % 2 ^ (k + 1) = v := Int.emod_eq_of_lt h (by omega)
    rw [hmod, xor_two_pow (by omega)]
    omega
  -- below zero the bit is set, and flipping it takes it away
  have hmod : (v % 2 ^ (k + 1)).toNat = (v + 2 ^ k).toNat + 2 ^ k := by
    rw [← Int.add_emod_right, Int.emod_eq_of_lt (by omega) (by omega), hpow]
    omega
  rw [hmod, ← xor_two_pow (by omega), Nat.xor_assoc, Nat.xor_self, Nat.xor_zero]
  omega

lemma compare_natCast (m n : Nat) : compare (m : Int) (n : Int) = compare m n := by
  rw [← cmp_eq_compare, ← cmp_eq_compare]
  exact Nat.strictMono_cast.cmp_map_eq m n

lemma compare_add_right (a b c : Int) : compare (a + c) (b + c) = compare a b := by
  rw [← cmp_eq_compare, ← cmp_eq_compare]
  exact cmp_add_right a b c

lemma separates_flipSign {k width : Nat} (hwidth : 2 ^ (k + 1) = 256 ^ width) {v w : Int}
    (hv : Signed (k + 1) v) (hw : Signed (k + 1) w) :
    Separates (toBeBytes width (flipSign (k + 1) v)) (toBeBytes width (flipSign (k + 1) w))
      (compare v w) := by
  have hbound : ∀ {u : Int}, Signed (k + 1) u → flipSign (k + 1) u < 256 ^ width := by
    intro u hu
    have heq := flipSign_eq hu
    obtain ⟨hlo, hhi⟩ := hu
    rw [Nat.add_sub_cancel] at hhi
    rw [← hwidth]
    zify
    omega
  have hcompare : compare (flipSign (k + 1) v) (flipSign (k + 1) w) = compare v w := by
    rw [← compare_natCast, flipSign_eq hv, flipSign_eq hw, compare_add_right]
  rw [← hcompare]
  exact separates_toBeBytes (hbound hv) (hbound hw)

/-! ## Decimals -/

def asciiDigit (d : Nat) : UInt8 := UInt8.ofNat (48 + d)

lemma decimalText_of_lt (h : n < 10) : decimalText n = [asciiDigit n] := by
  interval_cases n <;> rfl

lemma decimalText_step (h : 10 ≤ n) :
    decimalText n = decimalText (n / 10) ++ [asciiDigit (n % 10)] := by
  have hmod : n % 10 < 10 := Nat.mod_lt n (by norm_num)
  have hdigits := Nat.toDigits_append_toDigits (b := 10) (n := n / 10) (d := n % 10) (by norm_num)
    (by omega) hmod
  rw [Nat.div_add_mod] at hdigits
  rw [← decimalText_of_lt hmod, decimalText, decimalText, decimalText, ← hdigits, map_append]

lemma pad_decimalText (width n : Nat) (hwidth : 0 < width) (h : n < 10 ^ width) :
    (decimalText n).length ≤ width ∧
      replicate (width - (decimalText n).length) 48 ++ decimalText n
        = (positional 10 width n).map asciiDigit := by
  induction width generalizing n with
  | zero => omega
  | succ width ih =>
    rcases lt_or_ge n 10 with hn | hn
    · rw [decimalText_of_lt hn, positional, Nat.div_eq_of_lt hn, Nat.mod_eq_of_lt hn,
        positional_zero, map_append, map_replicate]
      exact ⟨by simp, rfl⟩
    have hpos : 0 < width := by
      by_contra hzero
      rw [Nat.eq_zero_of_not_pos hzero] at h
      omega
    obtain ⟨hlen, hpad⟩ := ih (n / 10) hpos (Nat.div_lt_of_lt_mul (by rwa [pow_succ'] at h))
    rw [decimalText_step hn, positional, map_append, ← hpad, length_append]
    refine ⟨by simpa using hlen, ?_⟩
    rw [length_singleton, Nat.add_sub_add_right, append_assoc]
    rfl

/-- The digit columns of `encode_numeric` are one number, counted in units of the last column. -/
lemma numeric_columns {scale : Nat} (hn : n < 10 ^ numericIntDigits)
    (hscale : scale ≤ numericFracDigits) :
    replicate (numericIntDigits - (splitDigits (decimalText n) scale).1.length) 48 ++
        (splitDigits (decimalText n) scale).1 ++ (splitDigits (decimalText n) scale).2 ++
        replicate (numericFracDigits - (splitDigits (decimalText n) scale).2.length) 48
      = (positional 10 (numericIntDigits + numericFracDigits)
          (n * 10 ^ (numericFracDigits - scale))).map asciiDigit := by
  obtain ⟨hlen, hpad⟩ := pad_decimalText (numericIntDigits + scale) n (by simp [numericIntDigits])
    (hn.trans_le (Nat.pow_le_pow_right (by norm_num) (by omega)))
  have hfrac : (splitDigits (decimalText n) scale).2.length = scale := by
    rw [splitDigits]
    split_ifs with h
    · simp only [length_drop]
      omega
    · simp only [length_append, length_replicate]
      omega
  have hint : replicate (numericIntDigits - (splitDigits (decimalText n) scale).1.length) 48 ++
        (splitDigits (decimalText n) scale).1 ++ (splitDigits (decimalText n) scale).2
      = (positional 10 (numericIntDigits + scale) n).map asciiDigit := by
    rw [← hpad, splitDigits]
    split_ifs with h
    · rw [append_assoc, take_append_drop, length_take,
        show numericIntDigits - min ((decimalText n).length - scale) (decimalText n).length
          = numericIntDigits + scale - (decimalText n).length by omega]
    · rw [append_nil, length_nil, ← append_assoc, replicate_append_replicate,
        show numericIntDigits - 0 + (scale - (decimalText n).length)
          = numericIntDigits + scale - (decimalText n).length by omega]
  rw [hint, hfrac, show numericIntDigits + numericFracDigits
      = numericIntDigits + scale + (numericFracDigits - scale) by omega,
    positional_mul_pow (by norm_num), map_append, map_replicate]
  rfl

def magnitude (d : Decimal) : Nat := d.mantissa.natAbs * 10 ^ (numericFracDigits - d.scale)

variable {d : Decimal}

lemma encodeNumeric_finite (hd : d.Valid) (hn : d.isNan = false) :
    magnitude d < 10 ^ (numericIntDigits + numericFracDigits) ∧
      encodeNumeric d = .ok (if d.mantissa < 0
        then 0 :: (positional 10 (numericIntDigits + numericFracDigits) (magnitude d)).map
          fun c => UInt8.ofNat (57 - c)
        else 2 :: (positional 10 (numericIntDigits + numericFracDigits) (magnitude d)).map
          asciiDigit) := by
  have hscale : d.scale ≤ numericFracDigits := hd.scale_le hn
  have habs : d.mantissa.natAbs < 10 ^ numericIntDigits := by
    have hfit := hd.fits hn
    simp only [FitsI128, numericIntDigits] at hfit ⊢
    omega
  constructor
  · rw [pow_add]
    exact Nat.mul_lt_mul_of_lt_of_le habs (Nat.pow_le_pow_right (by norm_num) (Nat.sub_le _ _))
      (by positivity)
  · simp only [encodeNumeric, hn, Bool.false_eq_true, if_false, not_lt.mpr hscale]
    rw [numeric_columns habs hscale]
    by_cases hneg : d.mantissa < 0
    · have hmap : ∀ c, c < 10 → emit true (asciiDigit c) = UInt8.ofNat (57 - c) := by decide
      have hcolumns : ∀ cs : List Nat, (∀ c ∈ cs, c < 10) →
          (cs.map asciiDigit).map (emit true) = cs.map fun c => UInt8.ofNat (57 - c) := by
        intro cs hcs
        rw [map_map]
        exact map_congr_left fun c hc => hmap c (hcs c hc)
      simp only [hneg, decide_true, if_true]
      rw [hcolumns _ fun c hc => mem_positional_lt (by norm_num) hc]
      rfl
    · have hid : ∀ cs : List UInt8, cs.map (emit false) = cs := fun cs => map_id cs
      simp only [hneg, decide_false, Bool.false_eq_true, if_false, hid]
      rfl

lemma compare_value_units {a b : Decimal} (ha : a.Valid) (hb : b.Valid) (han : a.isNan = false)
    (hbn : b.isNan = false) :
    compare a.value b.value = compare (a.mantissa * 10 ^ (numericFracDigits - a.scale))
      (b.mantissa * 10 ^ (numericFracDigits - b.scale)) := by
  have hmono : StrictMono fun q : ℚ => q * 10 ^ numericFracDigits := by
    intro p q hpq
    show p * 10 ^ numericFracDigits < q * 10 ^ numericFracDigits
    gcongr
  have hcast : StrictMono fun m : Int => (m : ℚ) := Int.cast_strictMono
  rw [Decimal.compare_value_finite han hbn, ← cmp_eq_compare, ← cmp_eq_compare,
    ← hmono.cmp_map_eq, ← hcast.cmp_map_eq]
  show cmp (a.toRat * 10 ^ numericFracDigits) (b.toRat * 10 ^ numericFracDigits) = _
  rw [Decimal.toRat_mul_pow (show a.scale ≤ numericFracDigits from ha.scale_le han),
    Decimal.toRat_mul_pow (show b.scale ≤ numericFracDigits from hb.scale_le hbn)]

lemma units_nonneg (h : ¬ d.mantissa < 0) :
    d.mantissa * 10 ^ (numericFracDigits - d.scale) = (magnitude d : Int) := by
  rw [magnitude]
  push_cast
  rw [abs_of_nonneg (not_lt.mp h)]

lemma units_neg (h : d.mantissa < 0) :
    d.mantissa * 10 ^ (numericFracDigits - d.scale) = -(magnitude d : Int) := by
  rw [magnitude]
  push_cast
  rw [abs_of_neg h]
  ring

lemma magnitude_pos (h : d.mantissa < 0) : 0 < magnitude d :=
  Nat.mul_pos (by omega) (by positivity)

lemma compare_columns {m : Nat} (hm : m < 10 ^ (numericIntDigits + numericFracDigits))
    (hn : n < 10 ^ (numericIntDigits + numericFracDigits)) :
    compare ((positional 10 (numericIntDigits + numericFracDigits) m).map asciiDigit)
        ((positional 10 (numericIntDigits + numericFracDigits) n).map asciiDigit) = compare m n ∧
      compare ((positional 10 (numericIntDigits + numericFracDigits) m).map
          fun c => UInt8.ofNat (57 - c))
        ((positional 10 (numericIntDigits + numericFracDigits) n).map
          fun c => UInt8.ofNat (57 - c)) = (compare m n).swap := by
  have hdigit : ∀ {k d : Nat}, d ∈ positional 10 (numericIntDigits + numericFracDigits) k → d < 10 :=
    fun h => mem_positional_lt (by norm_num) h
  rw [← compare_positional hm hn]
  constructor
  · apply compare_map
    intro a ha b hb
    have ha := hdigit ha
    have hb := hdigit hb
    rw [asciiDigit, asciiDigit, compare_ofNat (by omega) (by omega), Nat.compare_eq_ite_lt,
      Nat.compare_eq_ite_lt]
    simp
  · apply compare_map_swap (by simp)
    intro a ha b hb
    have ha := hdigit ha
    rw [compare_ofNat (by omega) (by omega), ← Std.OrientedOrd.eq_swap, Nat.compare_eq_ite_lt,
      Nat.compare_eq_ite_lt]
    split_ifs <;> first | rfl | omega

lemma separates_finite {a b : Decimal} (ha : a.Valid) (hb : b.Valid) (han : a.isNan = false)
    (hbn : b.isNan = false) :
    ∃ x y, encodeNumeric a = .ok x ∧ encodeNumeric b = .ok y ∧
      Separates x y (compare a.value b.value) := by
  obtain ⟨hma, hea⟩ := encodeNumeric_finite ha han
  obtain ⟨hmb, heb⟩ := encodeNumeric_finite hb hbn
  obtain ⟨hup, hdown⟩ := compare_columns hma hmb
  refine ⟨_, _, hea, heb, ?_⟩
  rw [compare_value_units ha hb han hbn]
  by_cases hna : a.mantissa < 0 <;> by_cases hnb : b.mantissa < 0
  · rw [if_pos hna, if_pos hnb, units_neg hna, units_neg hnb]
    have hneg : compare (-(magnitude a : Int)) (-(magnitude b : Int))
        = (compare (magnitude a) (magnitude b)).swap := by
      rw [← Std.OrientedOrd.eq_swap, ← compare_natCast, ← cmp_eq_compare, ← cmp_eq_compare]
      exact StrictAnti.cmp_map_eq (fun _ _ h => neg_lt_neg h) _ _
    rw [hneg, ← hdown]
    exact (separates_of_length (by simp)).cons 0
  · have hlt := magnitude_pos hna
    rw [if_pos hna, if_neg hnb, units_neg hna, units_nonneg hnb, compare_lt_iff_lt.mpr (by omega)]
    exact separates_of_lt (by decide) _ _
  · have hgt := magnitude_pos hnb
    rw [if_neg hna, if_pos hnb, units_nonneg hna, units_neg hnb, compare_gt_iff_gt.mpr (by omega)]
    exact separates_of_gt (by decide) _ _
  · rw [if_neg hna, if_neg hnb, units_nonneg hna, units_nonneg hnb, compare_natCast, ← hup]
    exact (separates_of_length (by simp)).cons 2

lemma encodeNumeric_nan (hn : d.isNan = true) :
    encodeNumeric d = .ok (3 :: replicate (numericIntDigits + numericFracDigits) 48) := by
  simp [encodeNumeric, hn]

lemma encodeNumeric_tag (hd : d.Valid) (hn : d.isNan = false) :
    ∃ t x, encodeNumeric d = .ok (t :: x) ∧ t.toNat < 3 := by
  rw [(encodeNumeric_finite hd hn).2]
  split_ifs
  · exact ⟨_, _, rfl, by decide⟩
  · exact ⟨_, _, rfl, by decide⟩

/-- **Decimals are in the order of their numbers**, `NaN` above them. -/
theorem separates_encodeNumeric {a b : Decimal} (ha : a.Valid) (hb : b.Valid) :
    ∃ x y, encodeNumeric a = .ok x ∧ encodeNumeric b = .ok y ∧
      Separates x y (compare a.value b.value) := by
  cases han : a.isNan <;> cases hbn : b.isNan
  · exact separates_finite ha hb han hbn
  · obtain ⟨t, x, hx, ht⟩ := encodeNumeric_tag ha han
    refine ⟨_, _, hx, encodeNumeric_nan hbn, ?_⟩
    rw [Decimal.value_of_finite han, Decimal.value_of_nan hbn,
      compare_lt_iff_lt.mpr (WithTop.coe_lt_top _)]
    exact separates_of_lt ht _ _
  · obtain ⟨t, y, hy, ht⟩ := encodeNumeric_tag hb hbn
    refine ⟨_, _, encodeNumeric_nan han, hy, ?_⟩
    rw [Decimal.value_of_nan han, Decimal.value_of_finite hbn,
      compare_gt_iff_gt.mpr (WithTop.coe_lt_top _)]
    exact separates_of_gt ht _ _
  · refine ⟨_, _, encodeNumeric_nan han, encodeNumeric_nan hbn, ?_⟩
    have hself : ∀ x : List UInt8, compare x x = .eq := fun x => Std.compare_self
    rw [Decimal.value_of_nan han, Decimal.value_of_nan hbn, compare_eq_iff_eq.mpr rfl,
      ← hself (3 :: replicate (numericIntDigits + numericFracDigits) 48)]
    exact separates_of_length rfl

/-! ## Fields and tuples -/

variable (op : Unopened F I R)

lemma separates_payload {ty : KeyType} {a b : SqlValue F (Scalar I R)} (ha : HasType ty a)
    (hb : HasType ty b) (hna : a ≠ .null) (hnb : b ≠ .null) :
    ∃ x y, op.encodeField a = .ok (1 :: x) ∧ op.encodeField b = .ok (1 :: y) ∧
      Separates x y (columnOrder a b) := by
  cases ha <;> cases hb <;> try exact absurd rfl ‹_›
  case bool.bool p q =>
    refine ⟨_, _, rfl, rfl, ?_⟩
    cases p <;> cases q <;> exact separates_of_length rfl
  case numeric.numeric d hd e he =>
    obtain ⟨x, y, hx, hy, hsep⟩ := separates_encodeNumeric hd he
    exact ⟨x, y, map_eq_ok.mpr ⟨x, hx, rfl⟩, map_eq_ok.mpr ⟨y, hy, rfl⟩, hsep⟩
  case text.text s t | json.json s t | bytes.bytes s t =>
    exact ⟨_, _, rfl, rfl, separates_orderedBytes s t⟩
  case int.int v hv w hw | time.time v hv w hw | timeTz.timeTz v hv w hw
      | timestamp.timestamp v hv w hw | timestampTz.timestampTz v hv w hw
      | date.date v hv w hw =>
    exact ⟨_, _, rfl, rfl, separates_flipSign (by norm_num) hv hw⟩
  case uuid.uuid s hs t ht | macaddr.macaddr s hs t ht | macaddr8.macaddr8 s hs t ht =>
    exact ⟨_, _, rfl, rfl, separates_of_length (hs.trans ht.symm)⟩
  case enum.enum m hm n hn => exact ⟨_, _, rfl, rfl, separates_toBeBytes hm hn⟩

/-- Both have a field, with a tag before it, and the fields decide as the column order does. -/
def FieldsSeparate (a b : SqlValue F (Scalar I R)) : Prop :=
  ∃ t x u y, op.encodeField a = .ok (t :: x) ∧ op.encodeField b = .ok (u :: y) ∧
    t.toNat ≤ 1 ∧ u.toNat ≤ 1 ∧ Separates (t :: x) (u :: y) (columnOrder a b)

lemma separates_encodeField {ty : KeyType} {a b : SqlValue F (Scalar I R)} (ha : HasType ty a)
    (hb : HasType ty b) : FieldsSeparate op a b := by
  by_cases hna : a = .null <;> by_cases hnb : b = .null
  · subst hna hnb
    exact ⟨0, [], 0, [], rfl, rfl, by decide, by decide, separates_of_length rfl⟩
  · subst hna
    obtain ⟨x, -, hx, -, -⟩ := separates_payload op hb hb hnb hnb
    have horder : columnOrder .null b = .lt := by
      cases b <;> first | exact absurd rfl hnb | rfl
    rw [FieldsSeparate, horder]
    exact ⟨0, [], 1, x, rfl, hx, by decide, by decide, separates_of_lt (by decide) _ _⟩
  · subst hnb
    obtain ⟨x, -, hx, -, -⟩ := separates_payload op ha ha hna hna
    have horder : columnOrder a .null = .gt := by
      cases a <;> first | exact absurd rfl hna | rfl
    rw [FieldsSeparate, horder]
    exact ⟨1, x, 0, [], hx, rfl, by decide, by decide, separates_of_gt (by decide) _ _⟩
  · obtain ⟨x, y, hx, hy, hsep⟩ := separates_payload op ha hb hna hnb
    exact ⟨1, x, 1, y, hx, hy, by decide, by decide, hsep.cons 1⟩

lemma forall₂_of_common {α γ : Type} {P : γ → α → Prop} {Q : α → α → Prop} {cs : List γ}
    {as bs : List α} (h : ∀ c ∈ cs, ∀ a b, P c a → P c b → Q a b) (ha : Forall₂ P cs as)
    (hb : Forall₂ P cs bs) : Forall₂ Q as bs := by
  induction ha generalizing bs with
  | nil =>
    cases hb
    exact .nil
  | cons hca _ ih =>
    cases hb with
    | cons hcb hbs =>
      exact .cons (h _ mem_cons_self _ _ hca hcb) (ih (fun c hc => h c (mem_cons_of_mem _ hc)) hbs)

variable {bs as : List (SqlValue F (Scalar I R))} {tys : List KeyType}

/-- Tuples of any length, by induction on the columns; a key starts with a tag. -/
lemma separates_encodeIndexKey (h : Forall₂ (FieldsSeparate op) as bs) :
    ∃ x y, op.encodeIndexKey as = .ok x ∧ op.encodeIndexKey bs = .ok y ∧ HeadLe 1 x ∧ HeadLe 1 y ∧
      Separates x y (tupleOrder as bs) := by
  induction h with
  | nil => exact ⟨[], [], rfl, rfl, headLe_nil, headLe_nil, separates_of_length rfl⟩
  | cons hfields _ ih =>
    obtain ⟨t, x, u, y, hx, hy, ht, hu, hsep⟩ := hfields
    obtain ⟨r, s, hr, hs, htr, hts, hrest⟩ := ih
    refine ⟨t :: x ++ r, u :: y ++ s, ?_, ?_, headLe_cons ht _, headLe_cons hu _, ?_⟩
    · exact bind_eq_ok.mpr ⟨_, hx, bind_eq_ok.mpr ⟨_, hr, rfl⟩⟩
    · exact bind_eq_ok.mpr ⟨_, hy, bind_eq_ok.mpr ⟨_, hs, rfl⟩⟩
    · intro v w hv hw
      rw [append_assoc, append_assoc, hsep _ _ (htr.append hv) (hts.append hw), hrest v w hv hw,
        tupleOrder, Ordering.then_assoc]

section

variable (ha : List.Forall₂ HasType tys as) (hb : List.Forall₂ HasType tys bs)

include ha hb

lemma fieldsSeparate_of_typed : Forall₂ (FieldsSeparate op) as bs :=
  forall₂_of_common (P := HasType) (fun _ _ _ _ => separates_encodeField op) ha hb

lemma tupleOrder_eq_iff :
    tupleOrder as bs = .eq ↔ Forall₂ (fun a b => columnOrder a b = .eq) as bs := by
  induction ha generalizing bs with
  | nil =>
    cases hb
    simp [tupleOrder]
  | cons _ _ ih =>
    cases hb with
    | cons _ hbs => rw [tupleOrder, Ordering.then_eq_eq, ih hbs, forall₂_cons]

end

/-- **Index keys embed SQL order.** Every tuple of key columns has a key; two keys compare byte by
byte as the tuples do column by column, and are equal only when all columns are. -/
theorem index_key_order (tys : List KeyType) (as bs : KeyTuple F I R tys) :
    ∃ x y, op.encodeIndexKey as.1 = .ok x ∧ op.encodeIndexKey bs.1 = .ok y ∧
      compare x y = tupleOrder as.1 bs.1 ∧
      (x = y ↔ List.Forall₂ (fun a b => columnOrder a b = .eq) as.1 bs.1) := by
  obtain ⟨x, y, hx, hy, -, -, hsep⟩ :=
    separates_encodeIndexKey op (fieldsSeparate_of_typed op as.2 bs.2)
  have hcompare : compare x y = tupleOrder as.1 bs.1 := by
    simpa using hsep [] [] headLe_nil headLe_nil
  refine ⟨x, y, hx, hy, hcompare, ?_⟩
  rw [← tupleOrder_eq_iff as.2 bs.2, ← hcompare, Std.compare_eq_iff_eq]

end NusaDb.Sql
