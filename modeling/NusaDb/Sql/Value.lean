import NusaDb.Lib.LittleEndian

/-!
# SQL values

The values of a row (`ast::Value`), how two compare (`eval::compare`), how one is cast
(`eval::cast_value`) and how a tuple is written (`row::encode`). Booleans, integers and decimals are
opened; floats and the remaining types come in through `Types`.
-/

namespace NusaDb.Sql

/-- `mantissa * 10^(-scale)`. -/
structure Decimal where
  mantissa : Int
  scale : Nat
deriving DecidableEq, Repr

namespace Decimal

def nanScale : Nat := 255

def nan : Decimal := ⟨0, nanScale⟩

def isNan (d : Decimal) : Bool := d.scale == nanScale

def ofInt (n : Int) : Decimal := ⟨n, 0⟩

def checked (m : Int) : Option Int := if -2 ^ 127 ≤ m ∧ m < 2 ^ 127 then some m else none

def pow10 (exp : Nat) : Option Int := checked (10 ^ exp)

/-- Re-scale to `target` fractional digits, half away from zero when shrinking. -/
def rescale (d : Decimal) (target : Nat) : Option Decimal :=
  if d.isNan then some nan
  else if target = d.scale then some d
  else if d.scale < target then do
    let factor ← pow10 (target - d.scale)
    let mantissa ← checked (d.mantissa * factor)
    some ⟨mantissa, target⟩
  else do
    let factor ← pow10 (d.scale - target)
    let q := d.mantissa.tdiv factor
    let r := d.mantissa.tmod factor
    some ⟨if r.natAbs * 2 ≥ factor.natAbs then q + d.mantissa.sign else q, target⟩

/-- By numeric value, `NaN` last. Where the two cannot be aligned the mantissas are compared. -/
def compare (a b : Decimal) : Ordering :=
  match a.isNan, b.isNan with
  | true, true => .eq
  | true, false => .gt
  | false, true => .lt
  | false, false =>
    match a.rescale (max a.scale b.scale), b.rescale (max a.scale b.scale) with
    | some x, some y => Ord.compare x.mantissa y.mantissa
    | _, _ => Ord.compare a.mantissa b.mantissa

def neg (d : Decimal) : Decimal := ⟨(-d.mantissa).bmod (2 ^ 128), d.scale⟩

def fitsI64 (n : Int) : Option Int := if -2 ^ 63 ≤ n ∧ n < 2 ^ 63 then some n else none

def toI64 (d : Decimal) : Option Int := do
  let factor ← pow10 d.scale
  fitsI64 (d.mantissa.tdiv factor)

def toI64Rounded (d : Decimal) : Option Int := do
  let whole ← d.rescale 0
  whole.toI64

def requiredPrecision (d : Decimal) : Nat :=
  if d.isNan then 0
  else
    let intPart := d.mantissa.natAbs / 10 ^ d.scale
    (if intPart = 0 then 0 else Nat.log 10 intPart + 1) + d.scale

/-- `cast_to_numeric`: into `NUMERIC(precision, scale)`, unconstrained when the precision is 0. -/
def castToNumeric (d : Decimal) (precision scale : Nat) : Option Decimal :=
  if d.isNan then some d
  else if precision = 0 then some d
  else do
    let rescaled ← d.rescale scale
    if rescaled.requiredPrecision > precision then none else some rescaled

end Decimal

/-- `ast::Value`, over the floats `F` and the values `O` of the types not opened here. -/
inductive SqlValue (F O : Type) where
  | null
  | bool (b : Bool)
  | int (n : Int)
  | float (f : F)
  | numeric (d : Decimal)
  | other (o : O)
deriving DecidableEq, Repr

/-- `ColumnType`, over the types `T` not opened here (`FLOAT` and `TEXT` among them). -/
inductive ColumnType (T : Type) where
  | bool
  | smallInt
  | int
  | bigInt
  | numeric (precision scale : Nat)
  | other (t : T)
deriving DecidableEq, Repr

def ColumnType.intValueBounds {T : Type} : ColumnType T → Option (Int × Int)
  | .smallInt => some (-2 ^ 15, 2 ^ 15 - 1)
  | .int => some (-2 ^ 31, 2 ^ 31 - 1)
  | _ => none

/-- What the types not opened here bring: the arms of `compare`, `cast_value` and `encode_value`
that concern them. -/
structure Types (F O T : Type) where
  floatTotalCmp : F → F → Ordering
  intToFloat : Int → F
  decimalToFloat : Decimal → F
  floatNeg : F → F
  compareOther : O → O → Ordering
  typeRank : O → Nat
  castOther : SqlValue F O → ColumnType T → Option (SqlValue F O)
  encodeOther : SqlValue F O → ColumnType T → Option (List (Fin 256))

namespace Types

variable {F O T : Type} (ts : Types F O T)

def rank : SqlValue F O → Nat
  | .null => 0
  | .bool _ => 1
  | .int _ => 2
  | .float _ => 3
  | .numeric _ => 4
  | .other o => ts.typeRank o

/-- `eval::compare`: `NULL` above every value, numbers by value, the rest within their type. -/
def compare : SqlValue F O → SqlValue F O → Ordering
  | .null, .null => .eq
  | .null, _ => .gt
  | _, .null => .lt
  | .bool a, .bool b => Ord.compare a b
  | .float a, .float b => ts.floatTotalCmp a b
  | .int a, .float b => ts.floatTotalCmp (ts.intToFloat a) b
  | .float a, .int b => ts.floatTotalCmp a (ts.intToFloat b)
  | .numeric a, .numeric b => a.compare b
  | .numeric a, .int b => a.compare (.ofInt b)
  | .int a, .numeric b => (Decimal.ofInt a).compare b
  | .numeric a, .float b => ts.floatTotalCmp (ts.decimalToFloat a) b
  | .float a, .numeric b => ts.floatTotalCmp a (ts.decimalToFloat b)
  | .int a, .int b => Ord.compare a b
  | .other a, .other b => ts.compareOther a b
  | a, b => Ord.compare (ts.rank a) (ts.rank b)

/-- The conversion arms of `cast_value`, before the width check. -/
def convert (v : SqlValue F O) (target : ColumnType T) : Option (SqlValue F O) :=
  match v, target with
  | .bool b, .bool => some (.bool b)
  | .int n, .bool => some (.bool (n != 0))
  | .int n, .smallInt | .int n, .int | .int n, .bigInt => some (.int n)
  | .bool b, .smallInt | .bool b, .int | .bool b, .bigInt => some (.int b.toNat)
  | .numeric d, .smallInt | .numeric d, .int | .numeric d, .bigInt => d.toI64Rounded.map .int
  | .numeric d, .numeric precision scale => (d.castToNumeric precision scale).map .numeric
  | .int n, .numeric precision scale =>
    ((Decimal.ofInt n).castToNumeric precision scale).map .numeric
  | v, target => ts.castOther v target

/-- `cast_value`; `none` is a cast error. An integer is checked against the declared width. -/
def castValue (v : SqlValue F O) (target : ColumnType T) : Option (SqlValue F O) :=
  match v with
  | .null => some .null
  | v =>
    match ts.convert v target with
    | some (.int n) =>
      match target.intValueBounds with
      | some (lo, hi) => if n < lo ∨ n > hi then none else some (.int n)
      | none => some (.int n)
    | result => result

def signedBytes (width : Nat) (n : Int) : List (Fin 256) :=
  leBytes width (n % 256 ^ width).toNat

def encodeValue (v : SqlValue F O) (ty : ColumnType T) : Option (List (Fin 256)) :=
  match v, ty with
  | .bool b, .bool => some (leBytes 1 b.toNat)
  | .int n, .smallInt | .int n, .int | .int n, .bigInt => some (signedBytes 8 n)
  | .numeric d, .numeric precision scale => do
    let d ← d.castToNumeric precision scale
    some (signedBytes 16 d.mantissa ++ leBytes 1 d.scale)
  | .int n, .numeric precision scale => do
    let d ← (Decimal.ofInt n).castToNumeric precision scale
    some (signedBytes 16 d.mantissa ++ leBytes 1 d.scale)
  | v, ty => ts.encodeOther v ty

/-- `row::encode`: a tag byte a value, then the value. -/
def encode : List (SqlValue F O) → List (ColumnType T) → Option (List (Fin 256))
  | [], [] => some []
  | .null :: row, _ :: schema => do
    let rest ← encode row schema
    some (leBytes 1 0 ++ rest)
  | v :: row, ty :: schema => do
    let bytes ← ts.encodeValue v ty
    let rest ← encode row schema
    some (leBytes 1 1 ++ bytes ++ rest)
  | _, _ => none

end Types

/-- On `dom` the comparison is that of a linear order. -/
def Ordered {V : Type} (cmp : V → V → Ordering) (dom : V → Prop) : Prop :=
  ∃ (L : Type) (_ : LinearOrder L) (place : V → L),
    ∀ a b, dom a → dom b → cmp a b = Ord.compare (place a) (place b)

def IsInt {F O : Type} : SqlValue F O → Prop
  | .null => True
  | .int _ => True
  | _ => False

/-- Where an integer stands, with `NULL` above them all. -/
def intPlace {F O : Type} : SqlValue F O → WithTop Int
  | .int n => n
  | _ => ⊤

lemma Types.ordered_int {F O T : Type} (ts : Types F O T) : Ordered ts.compare IsInt := by
  refine ⟨WithTop Int, inferInstance, intPlace, ?_⟩
  intro a b ha hb
  cases a <;> cases b <;> try exact False.elim ‹_›
  case null.null => rfl
  case null.int n => exact (compare_gt_iff_gt.mpr (WithTop.coe_lt_top n)).symm
  case int.null n => exact (compare_lt_iff_lt.mpr (WithTop.coe_lt_top n)).symm
  case int.int m n =>
    show Ord.compare m n = Ord.compare (m : WithTop Int) (n : WithTop Int)
    rw [← cmp_eq_compare, ← cmp_eq_compare]
    exact (WithTop.coe_strictMono.cmp_map_eq m n).symm

end NusaDb.Sql
