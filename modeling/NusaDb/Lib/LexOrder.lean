import Mathlib

/-!
# Lexicographic order of lists

Comparing lists by their first difference: how it goes over concatenation, over maps that keep or
turn round the order of the elements, and for numbers written with a fixed number of digits.
-/

namespace NusaDb.LexOrder

open List

variable {α β : Type} [Ord α] [Ord β]

lemma compare_append {x y : List α} (h : x.length = y.length) (r s : List α) :
    compare (x ++ r) (y ++ s) = (compare x y).then (compare r s) := by
  induction x generalizing y with
  | nil =>
    obtain rfl := length_eq_zero_iff.mp h.symm
    rfl
  | cons a x ih =>
    cases y with
    | nil => simp at h
    | cons b y =>
      rw [List.cons_append, List.cons_append, List.compare_cons_cons, List.compare_cons_cons,
        ih (by simpa using h), Ordering.then_assoc]

lemma compare_map {f : α → β} {x y : List α}
    (h : ∀ a ∈ x, ∀ b ∈ y, compare (f a) (f b) = compare a b) :
    compare (x.map f) (y.map f) = compare x y := by
  induction x generalizing y with
  | nil => cases y <;> rfl
  | cons a x ih =>
    cases y with
    | nil => rfl
    | cons b y =>
      rw [List.map_cons, List.map_cons, List.compare_cons_cons, List.compare_cons_cons,
        h a mem_cons_self b mem_cons_self,
        ih fun c hc d hd => h c (mem_cons_of_mem a hc) d (mem_cons_of_mem b hd)]

lemma compare_map_swap {f : α → β} {x y : List α} (hlen : x.length = y.length)
    (h : ∀ a ∈ x, ∀ b ∈ y, compare (f a) (f b) = (compare a b).swap) :
    compare (x.map f) (y.map f) = (compare x y).swap := by
  induction x generalizing y with
  | nil =>
    obtain rfl := length_eq_zero_iff.mp hlen.symm
    rfl
  | cons a x ih =>
    cases y with
    | nil => simp at hlen
    | cons b y =>
      rw [List.map_cons, List.map_cons, List.compare_cons_cons, List.compare_cons_cons,
        h a mem_cons_self b mem_cons_self,
        ih (by simpa using hlen)
          fun c hc d hd => h c (mem_cons_of_mem a hc) d (mem_cons_of_mem b hd),
        Ordering.swap_then]

/-- The last `width` digits of `n`, the most significant first. -/
def positional (base : Nat) : Nat → Nat → List Nat
  | 0, _ => []
  | width + 1, n => positional base width (n / base) ++ [n % base]

@[simp] lemma length_positional (base width n : Nat) :
    (positional base width n).length = width := by
  induction width generalizing n with
  | zero => rfl
  | succ width ih => simp [positional, ih]

lemma mem_positional_lt {base : Nat} (hbase : 0 < base) {width n d : Nat}
    (h : d ∈ positional base width n) : d < base := by
  induction width generalizing n with
  | zero => cases h
  | succ width ih =>
    obtain h | h := mem_append.mp h
    · exact ih h
    · rw [mem_singleton.mp h]
      exact Nat.mod_lt n hbase

lemma compare_div_mod (base m n : Nat) :
    (compare (m / base) (n / base)).then (compare (m % base) (n % base)) = compare m n := by
  have hm := Nat.div_add_mod m base
  have hn := Nat.div_add_mod n base
  rcases lt_trichotomy (m / base) (n / base) with h | h | h
  · have hlt : m < n := by
      by_contra hle
      exact absurd (Nat.div_le_div_right (not_lt.mp hle)) (not_le.mpr h)
    rw [Nat.compare_eq_lt.mpr h, Nat.compare_eq_lt.mpr hlt]
    rfl
  · rw [h] at hm
    rw [h, Nat.compare_eq_eq.mpr rfl, Ordering.eq_then]
    rcases lt_trichotomy (m % base) (n % base) with hr | hr | hr
    · rw [Nat.compare_eq_lt.mpr hr, Nat.compare_eq_lt.mpr (by omega)]
    · rw [Nat.compare_eq_eq.mpr hr, Nat.compare_eq_eq.mpr (by omega)]
    · rw [Nat.compare_eq_gt.mpr hr, Nat.compare_eq_gt.mpr (by omega)]
  · have hgt : n < m := by
      by_contra hle
      exact absurd (Nat.div_le_div_right (not_lt.mp hle)) (not_le.mpr h)
    rw [Nat.compare_eq_gt.mpr h, Nat.compare_eq_gt.mpr hgt]
    rfl

lemma compare_positional {base width m n : Nat} (hm : m < base ^ width) (hn : n < base ^ width) :
    compare (positional base width m) (positional base width n) = compare m n := by
  induction width generalizing m n with
  | zero =>
    rw [Nat.lt_one_iff.mp hm, Nat.lt_one_iff.mp hn]
    rfl
  | succ width ih =>
    rw [positional, positional, compare_append (by simp),
      ih (Nat.div_lt_of_lt_mul (by rwa [pow_succ'] at hm))
        (Nat.div_lt_of_lt_mul (by rwa [pow_succ'] at hn)),
      List.compare_cons_cons, ← compare_div_mod base m n]
    simp

lemma positional_zero (base width : Nat) : positional base width 0 = replicate width 0 := by
  induction width with
  | zero => rfl
  | succ width ih => rw [positional, Nat.zero_div, Nat.zero_mod, ih, ← replicate_succ']

lemma positional_mul_pow {base : Nat} (hbase : 0 < base) (width k n : Nat) :
    positional base (width + k) (n * base ^ k)
      = positional base width n ++ replicate k 0 := by
  induction k with
  | zero => simp
  | succ k ih =>
    rw [← add_assoc, positional, pow_succ, ← mul_assoc, Nat.mul_div_cancel _ hbase,
      Nat.mul_mod_left, ih, append_assoc, ← replicate_succ']

end NusaDb.LexOrder
