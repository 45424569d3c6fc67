import NusaDb.Lib.Keyed
import NusaDb.Sql.IndexKey

/-!
# Set operations (`executor/ops.rs`)

`UNION`, `INTERSECT` and `EXCEPT` of two lists of rows. Where every value is classed as hash-safe the
rows are told apart by their index keys, otherwise by `group_keys_equal` one pair at a time.
-/

namespace NusaDb.SetOps

open Sql Multiplicity Unopened Bool

variable {F I R : Type}

abbrev Row (F I R : Type) := List (SqlValue F (Scalar I R))

inductive SetOp where
  | union
  | intersect
  | except
deriving DecidableEq, Repr

def isHashSafeValue : SqlValue F (Scalar I R) → Bool
  | .null | .bool _ | .int _ => true
  | .other (.text _) | .other (.date _) | .other (.time _) | .other (.timestamp _)
  | .other (.timestampTz _) | .other (.uuid _) | .other (.macaddr _) | .other (.macaddr8 _)
  | .other (.inet _) | .other (.bit _) => true
  | .float _ | .numeric _ => false
  | .other (.json _) | .other (.bytes _) | .other (.timeTz _) | .other (.enum _)
  | .other (.rest _) => false

def hashSafe (rows : List (Row F I R)) : Bool := rows.all (·.all isHashSafeValue)

variable (op : Unopened F I R)

/-- Not distinct: `NULL` is the same as `NULL`, other values compare equal. -/
def notDistinct : SqlValue F (Scalar I R) → SqlValue F (Scalar I R) → Bool
  | .null, .null => true
  | .null, _ => false
  | _, .null => false
  | a, b => op.types.compare a b == .eq

def groupKeysEqual : Row F I R → Row F I R → Bool
  | [], [] => true
  | a :: as, b :: bs => notDistinct op a b && groupKeysEqual as bs
  | _, _ => false

def rowKey (row : Row F I R) : Option (List UInt8) := (op.encodeIndexKey row).toOption

def dedupeRows (rows : List (Row F I R)) : List (Row F I R) :=
  if hashSafe rows then dedupeKeyed (groupKeysEqual op) (rowKey op) rows
  else dedupe (groupKeysEqual op) rows

def presentLinear (right : List (Row F I R)) (row : Row F I R) : Bool :=
  right.any (groupKeysEqual op · row)

def filterByMembership (left right : List (Row F I R)) (keepPresent : Bool) : List (Row F I R) :=
  if hashSafe (left ++ right) then
    left.filter (presentKeyed (rowKey op) right · == keepPresent)
  else left.filter (presentLinear op right · == keepPresent)

def consumeLinear (left right : List (Row F I R)) (keepMatched : Bool) : List (Row F I R) :=
  consume (takeOne (groupKeysEqual op)) keepMatched (right.foldl (bump (groupKeysEqual op)) []) left

/-- `consume_matching`, with `consume_matching_hashed` for hash-safe rows. -/
def consumeMatching (left right : List (Row F I R)) (keepMatched : Bool) : List (Row F I R) :=
  if hashSafe (left ++ right) then
    consume (takeKey (rowKey op)) keepMatched (countKeys (rowKey op) right) left
  else consumeLinear op left right keepMatched

def combineSet (setOp : SetOp) (all : Bool) (left right : List (Row F I R)) : List (Row F I R) :=
  match setOp, all with
  | .union, true => left ++ right
  | .union, false => dedupeRows op (left ++ right)
  | .intersect, true => consumeMatching op left right true
  | .intersect, false => filterByMembership op (dedupeRows op left) right true
  | .except, true => consumeMatching op left right false
  | .except, false => filterByMembership op (dedupeRows op left) right false

def combineLinear (setOp : SetOp) (all : Bool) (left right : List (Row F I R)) :
    List (Row F I R) :=
  match setOp, all with
  | .union, true => left ++ right
  | .union, false => dedupe (groupKeysEqual op) (left ++ right)
  | .intersect, true => consumeLinear op left right true
  | .intersect, false =>
    (dedupe (groupKeysEqual op) left).filter (presentLinear op right · == true)
  | .except, true => consumeLinear op left right false
  | .except, false =>
    (dedupe (groupKeysEqual op) left).filter (presentLinear op right · == false)

variable {op}

lemma encodeScalar_eq {s t : Scalar I R} (hcmp : op.compareScalar s t = .eq)
    (hs : isHashSafeValue (.other s : SqlValue F (Scalar I R)) = true)
    (ht : isHashSafeValue (.other t : SqlValue F (Scalar I R)) = true) :
    (encodeScalar s : Except KeyError (List UInt8)) = encodeScalar t := by
  cases s <;> simp only [isHashSafeValue, false_eq_true] at hs <;> cases t <;>
    simp only [isHashSafeValue, false_eq_true] at ht <;>
    simp only [compareScalar, scalarRank, Std.compare_eq_iff_eq] at hcmp <;>
    first
      | rfl
      | rw [hcmp]
      | exact absurd hcmp (by decide)

lemma two_lt_scalarRank (op : Unopened F I R) {s : Scalar I R}
    (hs : isHashSafeValue (.other s : SqlValue F (Scalar I R)) = true) : 2 < op.scalarRank s := by
  cases s <;> first | simp [isHashSafeValue] at hs; done | simp [scalarRank]

lemma encodeField_eq {a b : SqlValue F (Scalar I R)} (hsame : notDistinct op a b = true)
    (ha : isHashSafeValue a = true) (hb : isHashSafeValue b = true) :
    op.encodeField a = op.encodeField b := by
  -- floats and decimals are not hash-safe, and values of two other types differ in rank
  cases a <;> cases b <;>
    simp only [isHashSafeValue, false_eq_true] at ha hb <;>
    simp only [notDistinct, Types.compare, Types.rank, beq_iff_eq, Std.compare_eq_iff_eq,
      false_eq_true] at hsame
  case null.null => rfl
  case bool.bool => rw [hsame]
  case int.int => rw [hsame]
  case bool.int => omega
  case int.bool => omega
  case bool.other | int.other =>
    have hrank := two_lt_scalarRank op hb
    simp only [types] at hsame
    omega
  case other.bool | other.int =>
    have hrank := two_lt_scalarRank op ha
    simp only [types] at hsame
    omega
  case other.other s t =>
    rw [encodeField, encodeField, encodeScalar_eq hsame ha hb]

lemma respects_rowKey {rows : List (Row F I R)} (hsafe : hashSafe rows = true) :
    Respects (groupKeysEqual op) (rowKey op) rows := by
  intro a ha b hb hsame
  replace ha := List.all_eq_true.mp hsafe a ha
  replace hb := List.all_eq_true.mp hsafe b hb
  suffices h : op.encodeIndexKey a = op.encodeIndexKey b by rw [rowKey, rowKey, h]
  fun_induction groupKeysEqual op a b with
  | case1 => rfl
  | case2 a as b bs ih =>
    simp only [List.all_cons, and_eq_true] at ha hb hsame
    rw [encodeIndexKey, encodeIndexKey, encodeField_eq hsame.1 ha.1 hb.1,
      ih hsame.2 ha.2 hb.2]
  | case3 => simp at hsame

end NusaDb.SetOps
