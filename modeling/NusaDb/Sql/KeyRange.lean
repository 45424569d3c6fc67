import NusaDb.Sql.KeyOrder
import NusaDb.Sql.Scan

/-!
# Key ranges

`encode_key_range` turns the bounds of an index scan into bytes. A bound that names only the leading
columns stands for every key that starts with it; a key goes on with a tag, and the byte `0x02` is
past every tag, whatever the bytes of the last column are.
-/

namespace NusaDb.Sql

open List LexOrder Fallible

variable {F I R : Type}

namespace Unopened

variable (op : Unopened F I R)

/-- The closure `encode`; the byte is `PAST_PREFIX`. -/
def encodeBound (values : List (SqlValue F (Scalar I R))) (past : Bool) :
    Except KeyError (List UInt8) := do
  let key ← op.encodeIndexKey values
  .ok (if past then key ++ [0x02] else key)

def encodeLo (keyColumns : Nat) :
    Bound (List (SqlValue F (Scalar I R))) → Except KeyError (Bound (List UInt8))
  | .unbounded => .ok .unbounded
  | .included values => (op.encodeBound values false).map .included
  | .excluded values =>
    if values.length < keyColumns then (op.encodeBound values true).map .included
    else (op.encodeBound values false).map .excluded

def encodeHi (keyColumns : Nat) :
    Bound (List (SqlValue F (Scalar I R))) → Except KeyError (Bound (List UInt8))
  | .unbounded => .ok .unbounded
  | .included values =>
    if values.length < keyColumns then (op.encodeBound values true).map .excluded
    else (op.encodeBound values false).map .included
  | .excluded values => (op.encodeBound values false).map .excluded

def encodeKeyRange (lo hi : Bound (List (SqlValue F (Scalar I R)))) (keyColumns : Nat) :
    Except KeyError (Bound (List UInt8) × Bound (List UInt8)) := do
  let lo ← op.encodeLo keyColumns lo
  let hi ← op.encodeHi keyColumns hi
  .ok (lo, hi)

end Unopened

abbrev KeyPrefix (F I R : Type) (tys : List KeyType) :=
  { vs : List (SqlValue F (Scalar I R)) // List.Forall₂ HasType (tys.take vs.length) vs }

def bare {tys : List KeyType} :
    Bound (KeyPrefix F I R tys) → Bound (List (SqlValue F (Scalar I R)))
  | .unbounded => .unbounded
  | .included p => .included p.1
  | .excluded p => .excluded p.1

/-- `cmp b` says where the bound's value stands to what is looked at. -/
def AtLeast {α : Type} (cmp : α → Ordering) : Bound α → Prop
  | .unbounded => True
  | .included b => cmp b ≠ .gt
  | .excluded b => cmp b = .lt

def AtMost {α : Type} (cmp : α → Ordering) : Bound α → Prop
  | .unbounded => True
  | .included b => cmp b ≠ .lt
  | .excluded b => cmp b = .gt

/-- Where the prefix stands to the tuple's leading columns. -/
def KeyTuple.place {tys : List KeyType} (t : KeyTuple F I R tys) (p : KeyPrefix F I R tys) : Ordering :=
  tupleOrder p.1 (t.1.take p.1.length)

lemma KeyPrefix.length_eq {tys : List KeyType} (p : KeyPrefix F I R tys) (t : KeyTuple F I R tys)
    (h : ¬p.1.length < tys.length) : p.1.length = t.1.length := by
  rw [← t.2.length_eq, ← p.2.length_eq, take_of_length_le (not_lt.mp h)]

variable (op : Unopened F I R) {tys : List KeyType}

lemma encodeIndexKey_append {as bs : List (SqlValue F (Scalar I R))} {x y : List UInt8}
    (hx : op.encodeIndexKey as = .ok x) (hy : op.encodeIndexKey bs = .ok y) :
    op.encodeIndexKey (as ++ bs) = .ok (x ++ y) := by
  induction as generalizing x with
  | nil =>
    cases hx
    exact hy
  | cons a as ih =>
    obtain ⟨field, hfield, hx⟩ := bind_eq_ok.mp hx
    obtain ⟨rest, hrest, hx⟩ := bind_eq_ok.mp hx
    cases hx
    rw [append_assoc]
    exact bind_eq_ok.mpr ⟨field, hfield, bind_eq_ok.mpr ⟨_, ih hrest, rfl⟩⟩

/-- Where an encoded prefix stands to a key, alone and with the byte past every tag, if the columns
compare as `c`; `whole` where it names all columns. -/
structure Placed (x key : List UInt8) (c : Ordering) (whole : Prop) : Prop where
  past : compare (x ++ [0x02]) key = c.then .gt
  whole : whole → compare x key = c
  alone : compare x key = c ∨ c = .eq ∧ compare x key = .lt

lemma compare_prefix {as bs : List (SqlValue F (Scalar I R))} {key : List UInt8} {c : Ordering}
    (hkey : op.encodeIndexKey bs = .ok key)
    (hlead : Forall₂ (FieldsSeparate op) as (bs.take as.length))
    (hfields : Forall₂ (FieldsSeparate op) bs bs)
    (hc : tupleOrder as (bs.take as.length) = c) :
    ∃ x, op.encodeIndexKey as = .ok x ∧ Placed x key c (as.length = bs.length) := by
  -- the key is `y`, of as many columns as the prefix has, and `r`, which starts with a tag
  obtain ⟨x, y, hx, hy, -, -, hsep⟩ := separates_encodeIndexKey op hlead
  obtain ⟨r, -, hr, -, hhead, -⟩ := separates_encodeIndexKey op (forall₂_drop as.length hfields)
  have happend := encodeIndexKey_append op hy hr
  rw [take_append_drop, hkey] at happend
  cases happend
  rw [hc] at hsep
  have htail : IsTail r := by simpa using hhead.append headLe_nil
  have hcompare : compare x (y ++ r) = c.then (compare [] r) := by
    have hsep := hsep [] r headLe_nil htail
    rwa [append_nil] at hsep
  refine ⟨x, hx, ?_, fun hlen => ?_, ?_⟩
  · rw [hsep [0x02] r (headLe_cons (by decide) []) htail]
    cases r with
    | nil => rfl
    | cons u r =>
      rw [compare_cons_gt (lt_of_le_of_lt (hhead u rfl) (by decide))]
  · rw [hlen, drop_length] at hr
    cases hr
    simpa using hcompare
  · rw [hcompare]
    cases c <;> cases r <;> simp

section

variable (t : KeyTuple F I R tys) {key : List UInt8} (hkey : op.encodeIndexKey t.1 = .ok key)

include hkey

lemma compare_bound (p : KeyPrefix F I R tys) :
    ∃ x, op.encodeIndexKey p.1 = .ok x ∧ Placed x key (t.place p) (p.1.length = t.1.length) :=
  compare_prefix op hkey (fieldsSeparate_of_typed op p.2 (forall₂_take _ t.2))
    (fieldsSeparate_of_typed op t.2 t.2) rfl

omit hkey in
lemma gt_iff {c d : Ordering} (h : c = d ∨ d = .eq ∧ c = .lt) : c = .gt ↔ d = .gt := by
  rcases h with rfl | ⟨rfl, rfl⟩
  · rfl
  · decide

omit hkey in
lemma map_encodeBound {values : List (SqlValue F (Scalar I R))} {x : List UInt8}
    (hx : op.encodeIndexKey values = .ok x) (past : Bool) (f : List UInt8 → Bound (List UInt8)) :
    (op.encodeBound values past).map f = .ok (f (if past then x ++ [0x02] else x)) :=
  map_eq_ok.mpr ⟨_, bind_eq_ok.mpr ⟨x, hx, rfl⟩, rfl⟩

variable (b : Bound (KeyPrefix F I R tys))

lemma encodeLo_exact : ∃ e, op.encodeLo tys.length (bare b) = .ok e ∧
    (AtLeast (compare · key) e ↔ AtLeast t.place b) := by
  cases b with
  | unbounded => exact ⟨_, rfl, Iff.rfl⟩
  | included p =>
    obtain ⟨x, hx, hplaced⟩ := compare_bound op t hkey p
    exact ⟨_, map_encodeBound op hx false _, not_congr (gt_iff hplaced.alone)⟩
  | excluded p =>
    obtain ⟨x, hx, hplaced⟩ := compare_bound op t hkey p
    by_cases hlen : p.1.length < tys.length
    · refine ⟨_, (if_pos hlen).trans (map_encodeBound op hx true _), ?_⟩
      show compare (x ++ [0x02]) key ≠ .gt ↔ t.place p = .lt
      rw [hplaced.past]
      cases t.place p <;> decide
    · refine ⟨_, (if_neg hlen).trans (map_encodeBound op hx false _), ?_⟩
      show compare x key = .lt ↔ t.place p = .lt
      rw [hplaced.whole (p.length_eq t hlen)]

lemma encodeHi_exact : ∃ e, op.encodeHi tys.length (bare b) = .ok e ∧
    (AtMost (compare · key) e ↔ AtMost t.place b) := by
  cases b with
  | unbounded => exact ⟨_, rfl, Iff.rfl⟩
  | included p =>
    obtain ⟨x, hx, hplaced⟩ := compare_bound op t hkey p
    by_cases hlen : p.1.length < tys.length
    · refine ⟨_, (if_pos hlen).trans (map_encodeBound op hx true _), ?_⟩
      show compare (x ++ [0x02]) key = .gt ↔ t.place p ≠ .lt
      rw [hplaced.past]
      cases t.place p <;> decide
    · refine ⟨_, (if_neg hlen).trans (map_encodeBound op hx false _), ?_⟩
      show compare x key ≠ .lt ↔ t.place p ≠ .lt
      rw [hplaced.whole (p.length_eq t hlen)]
  | excluded p =>
    obtain ⟨x, hx, hplaced⟩ := compare_bound op t hkey p
    exact ⟨_, map_encodeBound op hx false _, gt_iff hplaced.alone⟩

end

/-- **Encoded key ranges are exact**: a key lies in the range exactly when the leading columns of
its tuple satisfy the bounds in column order. -/
theorem key_range_exact (tys : List KeyType) (t : KeyTuple F I R tys)
    (lo hi : Bound (KeyPrefix F I R tys)) :
    ∃ key range, op.encodeIndexKey t.1 = .ok key ∧
      op.encodeKeyRange (bare lo) (bare hi) tys.length = .ok range ∧
      (AtLeast (compare · key) range.1 ∧ AtMost (compare · key) range.2 ↔
        AtLeast t.place lo ∧ AtMost t.place hi) := by
  obtain ⟨key, -, hkey, -⟩ := separates_encodeIndexKey op (fieldsSeparate_of_typed op t.2 t.2)
  obtain ⟨l, hl, hlo⟩ := encodeLo_exact op t hkey lo
  obtain ⟨h, hh, hhi⟩ := encodeHi_exact op t hkey hi
  exact ⟨key, (l, h), hkey, bind_eq_ok.mpr ⟨l, hl, bind_eq_ok.mpr ⟨h, hh, rfl⟩⟩, and_congr hlo hhi⟩

end NusaDb.Sql
