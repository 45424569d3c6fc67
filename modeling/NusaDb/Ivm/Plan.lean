import NusaDb.Sql.Scan

/-!
# Views that are maintained incrementally

`CREATE MATERIALIZED VIEW … WITH (incremental = true)` admits a body that is a single table with a
filter and a projection (`ivm_base_table`), and asks of each expression that it be stable.

* `exprIsIvmStable` is that check. It looks at the kind of each node (`expr_all`) and at the
  functions that are called, not at what else a value may depend on.
* `projectIfMatch` evaluates the filter and the projection on one base row. What a node computes
  from its operands in a session is `Evaluator.apply`.
* `SelectPlan.scan` is what a run of the body reads. The check passes over three parts of a plan:
  `sample`, `row_lock` and `modifying_ctes`, with which a run of the body no longer reads the base
  table row by row.
-/

namespace NusaDb.Ivm

open NusaDb.Sql

inductive NodeKind (Fn : Type) where
  | outerColumn
  | aggregateRef
  | scalarUdf
  | nusaCall
  | setReturning
  | scalarSubquery
  | exists
  | inSubquery
  | quantifiedSubquery
  | scalarFunction (func : Fn)
  | binary
  | isDistinctFrom
  | quantifiedArray
  | unary
  | isNull
  | isJson
  | isBool
  | cast
  | inList
  | between
  | overlaps
  | like
  | similarTo
  | regexMatch
  | case
  | coalesce
  | arrayLiteral
  | crypto
  | subscript
  | arraySlice
  | composite
deriving DecidableEq

/-- `TypedExpr`: `info` holds what else a node carries (its operator, its target type, ...). -/
inductive TypedExpr (V Fn I : Type) where
  | literal (value : V)
  | column (index : Nat)
  | node (kind : NodeKind Fn) (info : I) (args : List (TypedExpr V Fn I))

abbrev Row (V : Type) := List V

/-- What the model takes from the evaluator. `S` is a session: its user and its settings. -/
structure Evaluator (V S Fn I : Type) where
  /-- `is_volatile_scalar_func`, with the number of arguments. -/
  isVolatileScalarFunc : Fn → Nat → Bool
  /-- The value of a node under the session's settings, from what its operands gave. -/
  apply : NodeKind Fn → I → S → List (Option V) → Option V
  isTrue : V → Bool
  /-- `==`, by which `delete_one_matching` compares. -/
  same : V → V → Bool
  /-- `eval::compare(a, b) == Equal`, the equality of `GROUP BY`. It is no coarser than `==` in
  general: the `VECTOR`s of `0.0` and of `-0.0` are `==` and not in one group. -/
  groupEq : V → V → Bool

variable {V S Fn I : Type} (ev : Evaluator V S Fn I)

/-- The arms of `expr_all` that refuse a node, and the function check. -/
def NodeKind.incrementalizes (kind : NodeKind Fn) (arity : Nat) : Bool :=
  match kind with
  | .outerColumn | .aggregateRef | .scalarUdf | .nusaCall | .setReturning | .scalarSubquery
  | .exists | .inSubquery | .quantifiedSubquery => false
  | .scalarFunction func => !ev.isVolatileScalarFunc func arity
  | _ => true

mutual

def exprIsIvmStable : TypedExpr V Fn I → Bool
  | .literal _ => true
  | .column _ => true
  | .node kind _ args => kind.incrementalizes ev args.length && allIvmStable args

def allIvmStable : List (TypedExpr V Fn I) → Bool
  | [] => true
  | expr :: exprs => exprIsIvmStable expr && allIvmStable exprs

end

mutual

/-- `eval::eval` under the session's settings; `none` is an error. -/
def eval (settings : S) (row : Row V) : TypedExpr V Fn I → Option V
  | .literal value => some value
  | .column index => row[index]?
  | .node kind info args => ev.apply kind info settings (evalAll settings row args)

def evalAll (settings : S) (row : Row V) : List (TypedExpr V Fn I) → List (Option V)
  | [] => []
  | expr :: exprs => eval settings row expr :: evalAll settings row exprs

end

/-- What `ivm_base_table` refuses in a body. -/
inductive Clause where
  | fromCte
  | joins
  | distinct
  | distinctOn
  | groupKeys
  | groupingSets
  | aggregates
  | windows
  | having
  | limit
  | offset
  | recursiveCtes
deriving DecidableEq, Repr

/-- `row_lock`: whether a row that another transaction holds is skipped or fails the statement. -/
structure RowLock where
  skipLocked : Bool

/-- A body with its filter, its projection, the clauses that are refused and the parts that the
check passes over; the order is left out, since the view's rows are compared as a multiset. -/
structure SelectPlan (V Fn I : Type) where
  table : Option String
  clauses : List Clause
  filter : Option (TypedExpr V Fn I)
  projection : List (TypedExpr V Fn I)
  sample : Option TableSample
  rowLock : Option RowLock
  /-- What each data-modifying CTE leaves of the base table's rows; it runs before the body. -/
  modifyingCtes : List (List (Row V) → List (Row V))

def ivmBaseTable (body : SelectPlan V Fn I) : Option String := do
  let table ← body.table
  if !body.clauses.isEmpty then none
  else if body.filter.any fun f => !exprIsIvmStable ev f then none
  else if !allIvmStable ev body.projection then none
  else some table

def projectRow (settings : S) (row : Row V) : List (TypedExpr V Fn I) → Option (Row V)
  | [] => some []
  | expr :: exprs => do
    let value ← eval ev settings row expr
    let rest ← projectRow settings row exprs
    some (value :: rest)

/-- `project_if_match`: the view row of a base row, `some none` if the filter rejects it. -/
def projectIfMatch (settings : S) (select : SelectPlan V Fn I) (baseRow : Row V) :
    Option (Option (Row V)) :=
  match select.filter with
  | none => (projectRow ev settings baseRow select.projection).map some
  | some filter => do
    let value ← eval ev settings baseRow filter
    if ev.isTrue value then (projectRow ev settings baseRow select.projection).map some
    else some none

/-- What a run of the body meets beside the base rows: the clock, which seeds a sample, and the rows
that other transactions hold locked, by their place in the scan. -/
structure Moment where
  now : BitVec 64
  locked : Nat → Bool

/-- `LockRows` over the rows that match: those that others hold are left out or fail the run. -/
def RowLock.apply (lock : RowLock) (isMatch : Row V → Bool) (locked : Nat → Bool)
    (rows : List (Row V)) : Option (List (Row V)) :=
  let held := fun entry : Row V × Nat => isMatch entry.1 && locked entry.2
  if lock.skipLocked then some ((rows.zipIdx.filter fun entry => !held entry).map Prod.fst)
  else if rows.zipIdx.any held then none
  else some rows

namespace SelectPlan

variable (body : SelectPlan V Fn I)

/-- The base rows that a run of the body reads. -/
def scan (settings : S) (moment : Moment) (base : List (Row V)) : Option (List (Row V)) :=
  let rows := body.modifyingCtes.foldl (fun rows cte => cte rows) base
  let rows := match body.sample with
    | none => rows
    | some sample => sample.keep moment.now rows
  match body.rowLock with
  | none => some rows
  | some lock =>
    lock.apply (fun row => body.filter.all fun f => (eval ev settings row f).any ev.isTrue)
      moment.locked rows

/-- The body has none of the parts that the check passes over. -/
structure RowByRow : Prop where
  sample : body.sample = none
  rowLock : body.rowLock = none
  modifyingCtes : body.modifyingCtes = []

lemma RowByRow.scan_eq {body : SelectPlan V Fn I} (h : body.RowByRow) (settings : S)
    (moment : Moment) (base : List (Row V)) : body.scan ev settings moment base = some base := by
  simp only [scan, h.sample, h.rowLock, h.modifyingCtes, List.foldl_nil]

end SelectPlan

def sameRow : Row V → Row V → Bool
  | [], [] => true
  | a :: as, b :: bs => ev.same a b && sameRow as bs
  | _, _ => false

def groupEqRow : Row V → Row V → Bool
  | [], [] => true
  | a :: as, b :: bs => ev.groupEq a b && groupEqRow as bs
  | _, _ => false

end NusaDb.Ivm
