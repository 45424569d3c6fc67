import NusaDb.SetOps.Combine

/-!
# Multiset semantics of the set operations

What the operators should return, the linear fallbacks return, and the hashed paths agree as long as
keys tell apart what `group_keys_equal` tells apart and every row that has to be found has a key.
-/

namespace NusaDb.SetOps

open List Sql Multiplicity

variable {F I R : Type}

/-- How often SQL wants a row that occurs `l` times on the left and `r` times on the right. -/
def multiplicity (setOp : SetOp) (all : Bool) (l r : Nat) : Nat :=
  match setOp, all with
  | .union, true => l + r
  | .union, false => if 0 < l + r then 1 else 0
  | .intersect, true => min l r
  | .intersect, false => if 0 < l ∧ 0 < r then 1 else 0
  | .except, true => l - r
  | .except, false => if 0 < l ∧ r = 0 then 1 else 0

def candidates (setOp : SetOp) (left right : List (Row F I R)) : List (Row F I R) :=
  match setOp with
  | .union => left ++ right
  | .intersect | .except => left

/-- Every operator returns each class of equal rows as often as SQL wants it, in order, by whichever
path. -/
structure SetSemantics (op : Unopened F I R) (left right : List (Row F I R)) : Prop where
  classes : EquivOn (groupKeysEqual op) (· ∈ left ++ right)
  counts : ∀ setOp all, ∀ x ∈ left ++ right,
    (combineSet op setOp all left right).countP (groupKeysEqual op x)
      = multiplicity setOp all (left.countP (groupKeysEqual op x))
          (right.countP (groupKeysEqual op x))
  ordered : ∀ setOp all, (combineSet op setOp all left right).Sublist (candidates setOp left right)
  agree : ∀ setOp all, combineSet op setOp all left right = combineLinear op setOp all left right

/-- Wherever the rows are hashed, their keys do for `group_keys_equal`. -/
structure KeysTell (op : Unopened F I R) (left right : List (Row F I R)) : Prop where
  both : hashSafe (left ++ right) = true →
    Distinguishes (groupKeysEqual op) (rowKey op) (left ++ right)
  within : hashSafe left = true → Distinguishes (groupKeysEqual op) (rowKey op) left
  found : hashSafe (dedupe (groupKeysEqual op) left ++ right) = true →
    ∀ x ∈ dedupe (groupKeysEqual op) left, Finds (groupKeysEqual op) (rowKey op) right x

variable {op : Unopened F I R} {left right : List (Row F I R)}

lemma hashSafe_append {xs ys : List (Row F I R)} :
    hashSafe (xs ++ ys) = (hashSafe xs && hashSafe ys) := all_append

section Linear

variable (h : EquivOn (groupKeysEqual op) (· ∈ left ++ right)) {x : Row F I R}
  (hx : x ∈ left ++ right)

include h hx

lemma presentLinear_eq {y : Row F I R} (hy : y ∈ left ++ right)
    (hxy : groupKeysEqual op x y = true) :
    presentLinear op right y = decide (0 < right.countP (groupKeysEqual op x)) := by
  rw [presentLinear, Bool.eq_iff_iff, any_eq_true, decide_eq_true_iff, countP_pos_iff]
  refine exists_congr fun r => and_congr_right fun hr => ?_
  have hr' : r ∈ left ++ right := mem_append_right left hr
  rw [h.comm hr' hy, h.congr hx hy hr' hxy]

lemma countP_filter_present (keep : Bool) :
    ((dedupe (groupKeysEqual op) left).filter (presentLinear op right · == keep)).countP
        (groupKeysEqual op x)
      = if 0 < left.countP (groupKeysEqual op x) ∧
            decide (0 < right.countP (groupKeysEqual op x)) = keep then 1 else 0 := by
  have hleft : ∀ y ∈ left, y ∈ left ++ right := fun y hy => mem_append_left right hy
  have hcount := countP_dedupe (groupKeysEqual op) h hleft hx
  rw [countP_filter]
  have hclass : ∀ y ∈ dedupe (groupKeysEqual op) left,
      (groupKeysEqual op x y && presentLinear op right y == keep) = (groupKeysEqual op x y &&
            decide (0 < right.countP (groupKeysEqual op x)) == keep) := by
    intro y hy
    have hy' := hleft y ((dedupe_sublist (groupKeysEqual op) left).mem hy)
    cases hxy : groupKeysEqual op x y with
    | false => rfl
    | true => rw [presentLinear_eq h hx hy' hxy]
  rw [countP_congr fun y hy => by rw [hclass y hy]]
  by_cases hkeep : decide (0 < right.countP (groupKeysEqual op x)) = keep
  · simp only [hkeep, beq_self_eq_true, Bool.and_true, and_true]
    exact hcount
  have hne : (decide (0 < right.countP (groupKeysEqual op x)) == keep) = false :=
    beq_eq_false_iff_ne.mpr hkeep
  simp only [hne, hkeep, Bool.and_false, and_false, if_false, countP_false]
  rfl

lemma countP_consumeLinear (keep : Bool) :
    (consumeLinear op left right keep).countP (groupKeysEqual op x)
      = if keep then min (left.countP (groupKeysEqual op x)) (right.countP (groupKeysEqual op x))
        else left.countP (groupKeysEqual op x) - right.countP (groupKeysEqual op x) := by
  have hright : ∀ y ∈ right, y ∈ left ++ right := fun y hy => mem_append_right left hy
  rw [consumeLinear, countP_consume h (fun y hy => mem_append_left right hy) hx keep
    (keysIn_foldl_bump hright), available_foldl_bump h hright hx]

lemma countP_combineLinear (setOp : SetOp) (all : Bool) :
    (combineLinear op setOp all left right).countP (groupKeysEqual op x)
      = multiplicity setOp all (left.countP (groupKeysEqual op x))
          (right.countP (groupKeysEqual op x)) := by
  cases setOp <;> cases all
  case union.true => exact countP_append
  case union.false =>
    have hcount := countP_dedupe (groupKeysEqual op) h (fun y hy => hy) hx
    rw [countP_append] at hcount
    exact hcount
  case intersect.true => exact countP_consumeLinear h hx true
  case intersect.false =>
    have hcount := countP_filter_present h hx true
    simp only [decide_eq_true_iff] at hcount
    exact hcount
  case except.true => exact countP_consumeLinear h hx false
  case except.false =>
    have hcount := countP_filter_present h hx false
    simp only [decide_eq_false_iff_not, not_lt, Nat.le_zero] at hcount
    exact hcount

end Linear

lemma combineLinear_sublist (setOp : SetOp) (all : Bool) :
    (combineLinear op setOp all left right).Sublist (candidates setOp left right) := by
  cases setOp <;> cases all
  case union.true => exact Sublist.refl _
  case union.false => exact dedupe_sublist _ _
  case intersect.true | except.true => exact consume_sublist _ _ _ _
  case intersect.false | except.false => exact filter_sublist.trans (dedupe_sublist _ _)

lemma dedupeRows_eq {rows : List (Row F I R)}
    (hkeys : hashSafe rows = true → Distinguishes (groupKeysEqual op) (rowKey op) rows) :
    dedupeRows op rows = dedupe (groupKeysEqual op) rows := by
  rw [dedupeRows]
  split_ifs with hsafe
  · exact dedupeKeyed_eq (respects_rowKey hsafe) (hkeys hsafe)
  · rfl

section Agreement

variable (h : EquivOn (groupKeysEqual op) (· ∈ left ++ right)) (htell : KeysTell op left right)

include h htell

lemma filterByMembership_eq (keep : Bool) :
    filterByMembership op (dedupe (groupKeysEqual op) left) right keep
      = (dedupe (groupKeysEqual op) left).filter (presentLinear op right · == keep) := by
  rw [filterByMembership]
  split_ifs with hsafe
  · apply filter_congr
    intro x hx
    have hx' := mem_append_left right ((dedupe_sublist _ left).mem hx)
    rw [(htell.found hsafe x hx).present fun y hy => respects_rowKey hsafe x
      (mem_append_left right hx) y (mem_append_right _ hy),
      presentLinear_eq h hx' hx' (h.refl x hx')]
    congr 1
    rw [Bool.eq_iff_iff, any_eq_true, decide_eq_true_iff, countP_pos_iff]
  · rfl

lemma consumeMatching_eq (keep : Bool) :
    consumeMatching op left right keep = consumeLinear op left right keep := by
  rw [consumeMatching]
  split_ifs with hsafe
  · have hin : ∀ x ∈ left, x ∈ left ++ right := fun x hx => mem_append_left right hx
    have hinr : ∀ y ∈ right, y ∈ left ++ right := fun y hy => mem_append_right left hy
    have hleft : hashSafe left = true := by
      rw [hashSafe_append, Bool.and_eq_true] at hsafe
      exact hsafe.1
    have hresp : Respects (groupKeysEqual op) (rowKey op) (left ++ right) := respects_rowKey hsafe
    have hcounts := countsAgree_countKeys h hin hinr
      (fun x hx y hy => hresp x (hin x hx) y (hinr y hy))
      (fun x hx y hy => htell.both hsafe x (hin x hx) y (hinr y hy)) ?_
    · exact consume_eq (fun _ _ hagree _ hy =>
        hagree.take h hin (respects_rowKey hleft) (htell.within hleft) hy) hcounts
    · intro x hx hkey y hy
      -- the row kept for `x` has no key either, so it has no equal row on the right
      obtain ⟨z, hz, hxz⟩ := exists_mem_dedupe (groupKeysEqual op) h hin hx
      have hsub := dedupe_sublist (groupKeysEqual op) left
      have hz' : z ∈ left ++ right := hin z (hsub.mem hz)
      have hfirsts : hashSafe (dedupe (groupKeysEqual op) left ++ right) = true := by
        refine all_eq_true.mpr fun r hr => all_eq_true.mp hsafe r ?_
        exact (hsub.append (Sublist.refl right)).mem hr
      rw [h.congr (hin x hx) hz' (hinr y hy) hxz]
      exact (htell.found hfirsts z hz).keyless ((hresp x (hin x hx) z hz' hxz).symm.trans hkey) y hy
  · rfl

lemma combineSet_eq (setOp : SetOp) (all : Bool) :
    combineSet op setOp all left right = combineLinear op setOp all left right := by
  cases setOp <;> cases all
  case union.true => rfl
  case union.false => exact dedupeRows_eq htell.both
  case intersect.true => exact consumeMatching_eq h htell true
  case except.true => exact consumeMatching_eq h htell false
  case intersect.false | except.false =>
    rw [combineSet, combineLinear, dedupeRows_eq htell.within, filterByMembership_eq h htell]

end Agreement

variable {x : Row F I R} (h : SetSemantics op left right)

include h

namespace SetSemantics

lemma exists_mem (setOp : SetOp) (all : Bool) (hx : x ∈ left ++ right)
    (hpos : 0 < multiplicity setOp all (left.countP (groupKeysEqual op x))
      (right.countP (groupKeysEqual op x))) :
    ∃ y ∈ combineSet op setOp all left right, groupKeysEqual op x y = true := by
  rw [← h.counts setOp all x hx] at hpos
  exact countP_pos_iff.mp hpos

lemma both (hsafe : hashSafe (left ++ right) = true) :
    Distinguishes (groupKeysEqual op) (rowKey op) (left ++ right) := by
  refine distinguishes_of_kept h.classes (fun x hx => hx) (respects_rowKey hsafe) ?_
  intro x hx
  have hpos : 0 < (left ++ right).countP (groupKeysEqual op x) :=
    countP_pos_iff.mpr ⟨x, hx, h.classes.refl x hx⟩
  rw [countP_append] at hpos
  have hmem := h.exists_mem .union false hx (by simp only [multiplicity, if_pos hpos]; omega)
  rwa [combineSet, dedupeRows, if_pos hsafe] at hmem

/-- Every row of the left is kept by `INTERSECT` or by `EXCEPT`, so `dedupe_rows` kept it. -/
lemma within (hsafe : hashSafe left = true) :
    Distinguishes (groupKeysEqual op) (rowKey op) left := by
  have hin : ∀ x ∈ left, x ∈ left ++ right := fun x hx => mem_append_left right hx
  have hkept : ∀ keep, ∀ y ∈ filterByMembership op (dedupeRows op left) right keep,
      y ∈ dedupeKeyed (groupKeysEqual op) (rowKey op) left := by
    intro keep y hy
    rw [filterByMembership, dedupeRows, if_pos hsafe] at hy
    split_ifs at hy <;> exact mem_of_mem_filter hy
  refine distinguishes_of_kept h.classes hin (respects_rowKey hsafe) ?_
  intro x hx
  have hpos : 0 < left.countP (groupKeysEqual op x) :=
    countP_pos_iff.mpr ⟨x, hx, h.classes.refl x (hin x hx)⟩
  by_cases hright : right.countP (groupKeysEqual op x) = 0
  · obtain ⟨y, hy, hxy⟩ := h.exists_mem .except false (hin x hx)
      (by simp only [multiplicity, if_pos (And.intro hpos hright)]; omega)
    exact ⟨y, hkept false y hy, hxy⟩
  · obtain ⟨y, hy, hxy⟩ := h.exists_mem .intersect false (hin x hx)
      (by simp only [multiplicity, if_pos (And.intro hpos (pos_of_ne_zero hright))]; omega)
    exact ⟨y, hkept true y hy, hxy⟩

lemma found (hsafe : hashSafe (dedupe (groupKeysEqual op) left ++ right) = true)
    (hx : x ∈ dedupe (groupKeysEqual op) left) : Finds (groupKeysEqual op) (rowKey op) right x := by
  have hsub := dedupe_sublist (groupKeysEqual op) left
  have hin : ∀ y ∈ dedupe (groupKeysEqual op) left, y ∈ left ++ right :=
    fun y hy => mem_append_left right (hsub.mem hy)
  have hout : combineSet op .intersect false left right
      = (dedupe (groupKeysEqual op) left).filter (presentKeyed (rowKey op) right · == true) := by
    rw [combineSet, dedupeRows_eq h.within, filterByMembership, if_pos hsafe]
  have hcount := h.counts .intersect false x (hin x hx)
  have hself : groupKeysEqual op x x = true := h.classes.refl x (hin x hx)
  have hleft : 0 < left.countP (groupKeysEqual op x) :=
    countP_pos_iff.mpr ⟨x, hsub.mem hx, hself⟩
  constructor
  · intro key hkey hright
    have hpresent : presentKeyed (rowKey op) right x = true :=
      (presentKeyed_iff right x).mpr ⟨key, hkey, hright⟩
    have hpos : 0 < (combineSet op .intersect false left right).countP (groupKeysEqual op x) := by
      rw [hout]
      exact countP_pos_iff.mpr ⟨x, mem_filter.mpr ⟨hx, by simp [hpresent]⟩, hself⟩
    rw [hcount, multiplicity] at hpos
    split_ifs at hpos with hboth
    · exact countP_pos_iff.mp hboth.2
    · omega
  · intro hkey r hr
    by_contra hsame
    have hright : 0 < right.countP (groupKeysEqual op x) :=
      countP_pos_iff.mpr ⟨r, hr, by simpa using hsame⟩
    obtain ⟨y, hy, hxy⟩ := h.exists_mem .intersect false (hin x hx)
      (by simp only [multiplicity, if_pos (And.intro hleft hright)]; omega)
    rw [hout, mem_filter, beq_iff_eq, presentKeyed_iff] at hy
    obtain ⟨hyfirst, key, hykey, -⟩ := hy
    rw [← respects_rowKey hsafe x (mem_append_left right hx) y
      (mem_append_left right hyfirst) hxy, hkey] at hykey
    exact absurd hykey (by simp)

end SetSemantics

omit h

/-- The set operations follow SQL exactly where comparing equal is an equivalence on the rows and,
where they are hashed, their keys do for it. -/
theorem set_semantics_iff (op : Unopened F I R) (left right : List (Row F I R)) :
    SetSemantics op left right
      ↔ EquivOn (groupKeysEqual op) (· ∈ left ++ right) ∧ KeysTell op left right := by
  constructor
  · intro h
    exact ⟨h.classes, fun hsafe => h.both hsafe, fun hsafe => h.within hsafe,
      fun hsafe x hx => h.found hsafe hx⟩
  · rintro ⟨hclasses, htell⟩
    refine ⟨hclasses, ?_, ?_, combineSet_eq hclasses htell⟩
    · intro setOp all x hx
      rw [combineSet_eq hclasses htell]
      exact countP_combineLinear hclasses hx setOp all
    · intro setOp all
      rw [combineSet_eq hclasses htell]
      exact combineLinear_sublist setOp all

def openedTypes : Unopened Unit (Fin (2 ^ 32)) Empty where
  floatTotalCmp := fun _ _ => .eq
  intToFloat := fun _ => ()
  decimalToFloat := fun _ => ()
  networkCmp := Ord.compare
  compareRest := fun _ _ => .eq
  restRank := fun _ => 0
  floatKey := fun _ => none

/-- `SELECT '1'::bit(1) INTERSECT SELECT '1'::bit(1)` returns nothing: a bit string is classed as
hash-safe, and has no key. -/
theorem intersect_loses_bit_string :
    combineSet openedTypes .intersect false [[.other (.bit [true])]] [[.other (.bit [true])]] = [] ∧
      ¬ SetSemantics openedTypes [[.other (.bit [true])]] [[.other (.bit [true])]] := by
  have hempty : combineSet openedTypes .intersect false [[.other (.bit [true])]]
      [[.other (.bit [true])]] = [] := by decide
  refine ⟨hempty, fun h => ?_⟩
  have hcount := h.counts .intersect false [.other (.bit [true])] (by simp)
  exact absurd hcount (by decide)

end NusaDb.SetOps
