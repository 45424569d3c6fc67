import NusaDb.Lib.Worklist
import NusaDb.Partition.Bound

/-!
# Partition pruning

`prune_partitions` (`analyzer/select.rs`) reads comparisons of key columns with constants off the
conjuncts of a `WHERE` clause, and drops the partitions whose bound `partition_excluded` finds empty
under one of them, with the subtree below. What the analyzer puts around operands is the parameter
`coerce`; an expression that pruning does not look into is a function of the row.
-/

namespace NusaDb.Partition

open NusaDb.Sql

abbrev Row (F O : Type) := String → SqlValue F O

/-- `ast::BinaryOp`, the operators that pruning does not read by what they compute. -/
inductive BinaryOp (V : Type) where
  | and
  | eq
  | lt
  | ltEq
  | gt
  | gtEq
  | other (f : V → V → Option V)

inductive Expr (F O : Type) where
  | literal (v : SqlValue F O)
  | column (name : String)
  | qualifiedColumn (table name : String)
  | negate (expr : Expr F O)
  | binary (left : Expr F O) (op : BinaryOp (SqlValue F O)) (right : Expr F O)
  | between (expr low high : Expr F O) (negated symmetric : Bool)
  | other (f : Row F O → Option (SqlValue F O))

inductive PruneOp where
  | eq
  | lt
  | ltEq
  | gt
  | gtEq
deriving DecidableEq, Repr

structure PruneConstraint (V : Type) where
  keyIndex : Nat
  op : PruneOp
  value : V

section Evaluation

variable {F O T : Type} (ts : Types F O T)

def opHolds (x : SqlValue F O) (op : PruneOp) (v : SqlValue F O) : Bool :=
  match op with
  | .eq => ts.compare x v == .eq
  | .lt => ts.compare x v == .lt
  | .ltEq => ts.compare x v != .gt
  | .gt => ts.compare x v == .gt
  | .gtEq => ts.compare x v != .lt

def applyAnd : SqlValue F O → SqlValue F O → SqlValue F O
  | .bool false, _ => .bool false
  | _, .bool false => .bool false
  | .bool true, .bool true => .bool true
  | _, _ => .null

def applyComparison (op : PruneOp) (left right : SqlValue F O) : SqlValue F O :=
  if isNull left || isNull right then .null else .bool (opHolds ts left op right)

def applyBetween (negated symmetric : Bool) (v l h : SqlValue F O) : SqlValue F O :=
  if isNull v || isNull l || isNull h then .null
  else
    let (l, h) := if symmetric && ts.compare l h == .gt then (h, l) else (l, h)
    .bool ((ts.compare v l != .lt && ts.compare v h != .gt) ^^ negated)

def applyNegate : SqlValue F O → Option (SqlValue F O)
  | .null => some .null
  | .int n => (Decimal.fitsI64 (-n)).map .int
  | .float f => some (.float (ts.floatNeg f))
  | .numeric d => some (.numeric d.neg)
  | _ => none

def toPruneOp {V : Type} : BinaryOp V → Option PruneOp
  | .eq => some .eq
  | .lt => some .lt
  | .ltEq => some .ltEq
  | .gt => some .gt
  | .gtEq => some .gtEq
  | _ => none

def flipPruneOp : PruneOp → PruneOp
  | .eq => .eq
  | .lt => .gt
  | .ltEq => .gtEq
  | .gt => .lt
  | .gtEq => .ltEq

/-- What the analyzer makes of an operand's value, given the operands it is compared with. -/
abbrev Coerce (F O : Type) := Expr F O → List (Expr F O) → SqlValue F O → Option (SqlValue F O)

/-- `eval::eval` of the analyzed predicate; `none` is an error. -/
def Expr.eval (coerce : Coerce F O) (baseQual : String) (row : Row F O) :
    Expr F O → Option (SqlValue F O)
  | .literal v => some v
  | .column name => some (row name)
  | .qualifiedColumn table name => if table = baseQual then some (row name) else none
  | .negate expr => do
    let v ← expr.eval coerce baseQual row
    applyNegate ts v
  | .binary left op right => do
    let l ← left.eval coerce baseQual row
    let r ← right.eval coerce baseQual row
    match op, toPruneOp op with
    | .and, _ => some (applyAnd l r)
    | _, some cmp => do
      let l ← coerce left [right] l
      let r ← coerce right [left] r
      some (applyComparison ts cmp l r)
    | .other f, _ => f l r
    | _, none => none
  | .between expr low high negated symmetric => do
    let v ← expr.eval coerce baseQual row
    let l ← low.eval coerce baseQual row
    let h ← high.eval coerce baseQual row
    let v ← coerce expr [low, high] v
    let l ← coerce low [expr, high] l
    let h ← coerce high [expr, low] h
    some (applyBetween ts negated symmetric v l h)
  | .other f => f row

def keyColumnIndex (keyCols : List String) (baseQual : String) : Expr F O → Option Nat
  | .column name => keyCols.findIdx? (· == name)
  | .qualifiedColumn table name =>
    if table = baseQual then keyCols.findIdx? (· == name) else none
  | _ => none

/-- `prune_const`: a literal that is not `NULL`, or a negated number. -/
def pruneConst : Expr F O → Option (SqlValue F O)
  | .literal .null => none
  | .literal v => some v
  | .negate expr =>
    match pruneConst expr with
    | some (.int n) => some (.int (-n))
    | some (.float f) => some (.float (ts.floatNeg f))
    | some (.numeric d) => some (.numeric d.neg)
    | _ => none
  | _ => none

/-- `key_constraint`: the first side that is a key column decides. -/
def keyConstraint (keyCols : List String) (baseQual : String) (left : Expr F O)
    (op : BinaryOp (SqlValue F O)) (right : Expr F O) : Option (PruneConstraint (SqlValue F O)) := do
  let pruneOp ← toPruneOp op
  match keyColumnIndex keyCols baseQual left with
  | some keyIndex => (pruneConst ts right).map fun value => ⟨keyIndex, pruneOp, value⟩
  | none =>
    match keyColumnIndex keyCols baseQual right with
    | some keyIndex => (pruneConst ts left).map fun value => ⟨keyIndex, flipPruneOp pruneOp, value⟩
    | none => none

def collectPruneConstraints (keyCols : List String) (baseQual : String) :
    Expr F O → List (PruneConstraint (SqlValue F O))
  | .binary left .and right =>
    collectPruneConstraints keyCols baseQual left ++ collectPruneConstraints keyCols baseQual right
  | .binary left op right => (keyConstraint ts keyCols baseQual left op right).toList
  | .between expr low high false false =>
    match keyColumnIndex keyCols baseQual expr with
    | some keyIndex =>
      ((pruneConst ts low).map fun value => ⟨keyIndex, .gtEq, value⟩).toList ++
        ((pruneConst ts high).map fun value => ⟨keyIndex, .ltEq, value⟩).toList
    | none => []
  | _ => []

/-- The constant of a constraint in its key column's type; `none` if it has no value there. -/
def castKey (value : SqlValue F O) (ty : ColumnType T) : Option (SqlValue F O) :=
  match ts.castValue value ty with
  | some .null => none
  | result => result

/-- `range_excludes`: no key of `[lo, hi)` satisfies `key op v`. -/
def rangeExcludes (lo hi : RangeEdge (SqlValue F O)) (op : PruneOp) (v : SqlValue F O) : Bool :=
  match op with
  | .eq => !(cmpValueEdge ts v lo != .lt && cmpValueEdge ts v hi == .lt)
  | .lt => cmpValueEdge ts v lo != .gt
  | .ltEq => cmpValueEdge ts v lo == .lt
  | .gt | .gtEq => cmpValueEdge ts v hi != .lt

/-- `leading_range_excludes`: no leading value of the closed `[lo0, hi0]` satisfies `key op v`. -/
def leadingRangeExcludes (lo0 hi0 : RangeEdge (SqlValue F O)) (op : PruneOp) (v : SqlValue F O) : Bool :=
  match op with
  | .eq => !(cmpValueEdge ts v lo0 != .lt && cmpValueEdge ts v hi0 != .gt)
  | .lt => cmpValueEdge ts v lo0 != .gt
  | .ltEq => cmpValueEdge ts v lo0 == .lt
  | .gt => cmpValueEdge ts v hi0 != .lt
  | .gtEq => cmpValueEdge ts v hi0 == .gt

/-- Whether a constraint on key column `index`, its constant read at `ty`, passes `test`. -/
def PruneConstraint.proves (index : Nat) (ty : ColumnType T) (test : PruneOp → SqlValue F O → Bool)
    (c : PruneConstraint (SqlValue F O)) : Bool :=
  c.keyIndex == index && (castKey ts c.value ty).any (test c.op)

def partitionExcluded (bound : PartitionBound (SqlValue F O))
    (constraints : List (PruneConstraint (SqlValue F O))) (keyTys : List (ColumnType T)) : Bool :=
  match keyTys with
  | [] => false
  | leadTy :: restTys =>
    let multi := !restTys.isEmpty
    match bound with
    | .range (lo0 :: los) (hi0 :: his) =>
      if constraints.any (PruneConstraint.proves ts 0 leadTy
          (if multi then leadingRangeExcludes ts lo0 hi0 else rangeExcludes ts lo0 hi0)) then true
      else
        let leadingPinned := compareEdgeTuples ts [lo0] [hi0] == .eq
        let queryPinsLeading := constraints.any (PruneConstraint.proves ts 0 leadTy
          fun op v => op == .eq && cmpValueEdge ts v lo0 == .eq)
        if multi && leadingPinned && queryPinsLeading then
          match restTys, los, his with
          | secondTy :: more, lo1 :: _, hi1 :: _ =>
            -- the second column is bounded exactly only when it is the last one
            constraints.any (PruneConstraint.proves ts 1 secondTy
              (if more.isEmpty then rangeExcludes ts lo1 hi1 else leadingRangeExcludes ts lo1 hi1))
          | _, _, _ => false
        else false
    | .range _ _ => false
    | .list values =>
      constraints.any (PruneConstraint.proves ts 0 leadTy
        fun op v => !values.any fun x => opHolds ts x op v)
    | .hash modulus remainder =>
      !multi && constraints.any (PruneConstraint.proves ts 0 leadTy
        fun op v => op == .eq && !accepts ts [v] (.hash modulus remainder) keyTys)
    | .default => false

end Evaluation

/-- The key of a partitioned table: its columns with their types, at least one. -/
structure Key (T : Type) where
  lead : String × ColumnType T
  rest : List (String × ColumnType T)

namespace Key

variable {F O T : Type}

def columns (key : Key T) : List String := key.lead.1 :: key.rest.map Prod.fst

def types (key : Key T) : List (ColumnType T) := key.lead.2 :: key.rest.map Prod.snd

def ofRow (key : Key T) (row : Row F O) : List (SqlValue F O) := key.columns.map row

end Key

structure PartitionEntry (V : Type) where
  parent : String
  table : String
  bound : PartitionBound V

/-- The partition catalog: the keys of the partitioned tables and their partitions. -/
structure Catalog (F O T : Type) where
  keys : String → Option (Key T)
  partitions : List (PartitionEntry (SqlValue F O))

namespace Catalog

variable {F O T : Type} (ts : Types F O T) (cat : Catalog F O T)

def children (table : String) : List String :=
  (cat.partitions.filter (·.parent == table)).map (·.table)

def descendants (table : String) : List String :=
  (Worklist.closure cat.children (cat.partitions.length + 1) table).dropLast.reverse

def partitionsToPrune (parent : String) (constraints : List (PruneConstraint (SqlValue F O))) :
    List String :=
  match cat.keys parent with
  | none => []
  | some key =>
    (cat.partitions.filter fun p =>
      p.parent == parent && partitionExcluded ts p.bound constraints key.types).map (·.table)

def pushNew (dropped : List String) (sub : String) : List String :=
  if dropped.contains sub then dropped else dropped ++ [sub]

/-- The loop that drops the subtree of each dropped table, `fuel` rounds at most. -/
def expandDropped : Nat → Nat → List String → List String
  | 0, _, dropped => dropped
  | fuel + 1, index, dropped =>
    match dropped[index]? with
    | none => dropped
    | some name => expandDropped fuel (index + 1) ((cat.descendants name).foldl pushNew dropped)

/-- `prune_partitions`. A table is dropped once, so the dropped tables and the partitions bound the
rounds of the loop. -/
def prunePartitions (parent : String) (descendants : List String) (filter : Option (Expr F O))
    (baseQual : String) : List String :=
  match filter, cat.keys parent with
  | some filter, some key =>
    let constraints := collectPruneConstraints ts key.columns baseQual filter
    if constraints.isEmpty then descendants
    else
      let dropped := cat.partitionsToPrune ts parent constraints
      if dropped.isEmpty then descendants
      else
        let dropped := cat.expandDropped (dropped.length + cat.partitions.length) 0 dropped
        descendants.filter fun d => !dropped.contains d
  | _, _ => descendants

end Catalog

end NusaDb.Partition
