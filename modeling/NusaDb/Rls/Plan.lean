import NusaDb.Rls.Expr
import NusaDb.Sql.Scan

/-!
# A single-table `SELECT` under row-level security

The policies become one predicate conjoined to the statement's filter (`apply_rls`), the filter is
folded, an index may narrow the scan (`try_index_scan`) or answer a sort
(`try_ordered_index_scan`), and the filter passes on rows of the scan (`FilterSource::try_next`).
What stands above the filter is a function of what it hands on, errors included: `Select.above`.
Taken as they are: the estimates of `ANALYZE` and the encoding of index keys.
-/

namespace NusaDb.Rls

open NusaDb.Sql

/-! ## Policies -/

inductive PolicyCommand where
  | all
  | select
  | insert
  | update
  | delete
deriving DecidableEq, Repr

section

variable {F O T X N E Out : Type} (ev : Evaluator F O T X N E)

/-- A predicate that `analyze_predicate` has checked against the table. -/
structure Predicate (columns : List (Column T)) where
  expr : TypedExpr F O X N
  typed : wellTyped ev columns expr
  bool : isBool ev columns expr

structure Policy (columns : List (Column T)) where
  command : PolicyCommand
  roles : List String
  permissive : Bool
  usingPredicate : Option (Predicate ev columns)

def foldBool (acc : Option (TypedExpr F O X N)) (next : TypedExpr F O X N) (op : BinaryOp X) :
    TypedExpr F O X N :=
  match acc with
  | none => next
  | some acc => .binary acc op next

def Policy.applies {columns : List (Column T)} (policy : Policy ev columns) (command : PolicyCommand)
    (user : String) : Bool :=
  (policy.command == .all || policy.command == command) &&
    (policy.roles.isEmpty || policy.roles.any (· == user))

/-- One round of `combine_rls_policies`: the permissive and the restrictive predicate so far. -/
def combineStep {columns : List (Column T)} (command : PolicyCommand) (user : String)
    (acc : Option (TypedExpr F O X N) × Option (TypedExpr F O X N)) (policy : Policy ev columns) :
    Option (TypedExpr F O X N) × Option (TypedExpr F O X N) :=
  if policy.applies ev command user then
    match policy.usingPredicate with
    | none => acc
    | some typed =>
      if policy.permissive then (some (foldBool acc.1 typed.expr .or), acc.2)
      else (acc.1, some (foldBool acc.2 typed.expr .and))
  else acc

/-- `combine_rls_policies`: the permissive policies grant, by default nothing, and the restrictive
ones narrow. -/
def combineRlsPolicies {columns : List (Column T)} (command : PolicyCommand) (user : String)
    (policies : List (Policy ev columns)) : TypedExpr F O X N :=
  let (permissive, restrictive) := policies.foldl (combineStep ev command user) (none, none)
  let granted := permissive.getD (.literal (.bool false))
  match restrictive with
  | none => granted
  | some restr => .binary granted .and restr

structure Session where
  user : String
  superuser : Bool

/-! ## Tables and statements -/

/-- The key of an index: columns, or expressions with their types. -/
inductive IndexKey (F O T X N : Type) where
  | columns (ordinals : List Nat)
  | exprs (exprs : List (TypedExpr F O X N × ColumnType T))

structure IndexMeta (F O T X N : Type) where
  name : String
  key : IndexKey F O T X N
  unique : Bool

structure ScanStats (F O X N : Type) where
  selectivity : TypedExpr F O X N → F
  prefersIndexScan : F → Bool

/-- The arithmetic of the estimates, the types that index keys are encoded by, and the encoding. -/
structure Planner (F O T X N E : Type) extends Evaluator F O T X N E where
  one : F
  mul : F → F → F
  lt : F → F → Bool
  sameExpr : TypedExpr F O X N → TypedExpr F O X N → Bool
  /-- The arm of `is_index_safe_value` for the types not opened. -/
  indexSafeOther : O → Bool
  /-- `runtime_type_of(v).physical() == ty.physical()`. -/
  sameAsColumn : SqlValue F O → ColumnType T → Bool
  encodeIndexKey : List (SqlValue F O) → List (Fin 256)

end

variable {F O T X N E Out : Type} (pl : Planner F O T X N E)

structure Table where
  columns : List (Column T)
  rlsEnabled : Bool
  policies : List (Policy pl.toEvaluator columns)
  indexes : List (IndexMeta F O T X N)
  stats : Option (ScanStats F O X N)

structure RowOf (columns : List (Column T)) (row : Row F O) : Prop where
  typed : RowTyped pl.toEvaluator columns row
  length : row.length = columns.length
  notNull : ∀ (i : Nat) (c : Column T) (v : SqlValue F O), columns[i]? = some c →
    c.nullable = false → row[i]? = some v → v ≠ .null

structure OrderByKey (F O X N : Type) where
  expr : TypedExpr F O X N
  ascending : Bool

structure Select (Out : Type) (table : Table pl) where
  filter : Option (Predicate pl.toEvaluator table.columns)
  orderBy : List (OrderByKey F O X N)
  /-- Nothing (aggregate, `HAVING`, window, set-returning projection) stands between the filter and
  the sort. -/
  sortsTheScan : Bool
  /-- `top_n_cap`: `offset + limit` where a plain `LIMIT` bounds the sort. -/
  topN : Option Nat
  /-- `TABLESAMPLE`, and the statement's clock, which seeds a sample that is not `REPEATABLE`. -/
  sample : Option TableSample
  now : BitVec 64
  /-- `FOR UPDATE` and `FOR SHARE`: `LockRows` evaluates the filter on every row of the table, locks
  the rows it finds and runs the rest over those. -/
  lockRows : Option (List (Row F O) → Except E Out)
  /-- `run_vector_knn`, where an HNSW index answers the `ORDER BY` (approximately, from a graph over
  all rows of the table). -/
  vectorKnn : Option (List (Row F O) → Except E Out)
  /-- Everything above the filter, with the sort keys that are still to be applied. -/
  above : List (OrderByKey F O X N) → List (Except E (Row F O)) → Except E Out

/-- `apply_rls`: the statement's filter first, the policies' predicate after it. -/
def applyRls (session : Session) (table : Table pl) (filter : Option (TypedExpr F O X N)) :
    Option (TypedExpr F O X N) :=
  if session.superuser || !table.rlsEnabled then filter
  else
    let policy := combineRlsPolicies pl.toEvaluator .select session.user table.policies
    match filter with
    | none => some policy
    | some existing => some (.binary existing .and policy)

/-! ## Index scans -/

inductive ScanDirection where
  | forward
  | backward
deriving DecidableEq, Repr

structure IndexScan (F O T X N : Type) where
  index : IndexMeta F O T X N
  lo : Sql.Bound (List (SqlValue F O))
  hi : Sql.Bound (List (SqlValue F O))
  keyColumns : Nat
  uniquePoint : Bool
  direction : ScanDirection
  limit : Option Nat

inductive KeyPart (F O X N : Type) where
  | column (ordinal : Nat)
  | expr (key : TypedExpr F O X N)

def KeyPart.is (part : KeyPart F O X N) (expr : TypedExpr F O X N) : Bool :=
  match part, expr with
  | .column col, .column ordinal => ordinal == col
  | .column _, _ => false
  | .expr key, expr => pl.sameExpr expr key

def flipComparison : BinaryOp X → Option (BinaryOp X)
  | .eq => some .eq
  | .lt => some .gt
  | .ltEq => some .gtEq
  | .gt => some .lt
  | .gtEq => some .ltEq
  | _ => none

/-- `KeyPart::op_literal`: `part <op> literal`, or `literal <op> part` flipped. -/
def KeyPart.opLiteral (part : KeyPart F O X N) :
    TypedExpr F O X N → Option (BinaryOp X × SqlValue F O)
  | .binary left op (.literal value) =>
    if part.is pl left then some (op, value)
    else
      match left with
      | .literal value' =>
        if part.is pl (.literal value) then (flipComparison op).map (·, value') else none
      | _ => none
  | .binary (.literal value) op right =>
    if part.is pl right then (flipComparison op).map (·, value) else none
  | _ => none

def isIndexSafeValue : SqlValue F O → Bool
  | .bool _ => true
  | .int _ => true
  | .numeric _ => true
  | .other o => pl.indexSafeOther o
  | _ => false

def coerceIndexBound (value : SqlValue F O) (target : ColumnType T) : Option (SqlValue F O) :=
  match value, target with
  | .numeric d, .numeric _ _ => some (.numeric d)
  | .int n, .numeric _ _ => some (.numeric (.ofInt n))
  | v, col => if pl.sameAsColumn v col then some v else none

/-- `collect_and_conjuncts` and `split_conjuncts`. -/
def splitConjuncts : TypedExpr F O X N → List (TypedExpr F O X N)
  | .binary left .and right => splitConjuncts left ++ splitConjuncts right
  | expr => [expr]

def rebuildAnd : List (TypedExpr F O X N) → Option (TypedExpr F O X N)
  | [] => none
  | first :: rest => some (rest.foldl (fun acc next => .binary acc .and next) first)

structure ColumnBounds (F O : Type) where
  eq : Option (SqlValue F O)
  lo : Option (SqlValue F O × Bool)
  hi : Option (SqlValue F O × Bool)
  eqSelectivity : F
  rangeSelectivity : F

def conjunctSelectivity (stats : Option (ScanStats F O X N)) (conjunct : TypedExpr F O X N) : F :=
  match stats with
  | some ctx => ctx.selectivity conjunct
  | none => pl.one

/-- The bounds a comparison adds; the first bound on each side stays. -/
def ColumnBounds.add (found : ColumnBounds F O) (op : BinaryOp X) (value : SqlValue F O) :
    ColumnBounds F O :=
  match op with
  | .eq => { found with eq := found.eq.or (some value) }
  | .gt => { found with lo := found.lo.or (some (value, false)) }
  | .gtEq => { found with lo := found.lo.or (some (value, true)) }
  | .lt => { found with hi := found.hi.or (some (value, false)) }
  | .ltEq => { found with hi := found.hi.or (some (value, true)) }
  | _ => found

def KeyPart.betweenBounds (part : KeyPart F O X N) :
    TypedExpr F O X N → Option (SqlValue F O × SqlValue F O)
  | .between operand (.literal low) (.literal high) false false =>
    if part.is pl operand && isIndexSafeValue pl low && isIndexSafeValue pl high then
      some (low, high)
    else none
  | _ => none

/-- One round of `key_part_bounds`. -/
def keyPartStep (part : KeyPart F O X N) (stats : Option (ScanStats F O X N))
    (found : ColumnBounds F O) (conjunct : TypedExpr F O X N) : ColumnBounds F O :=
  match part.betweenBounds pl conjunct with
  | some (low, high) =>
    { found with
      rangeSelectivity :=
        if stats.isSome then pl.mul found.rangeSelectivity (conjunctSelectivity pl stats conjunct)
        else found.rangeSelectivity
      lo := found.lo.or (some (low, true))
      hi := found.hi.or (some (high, true)) }
  | none =>
    match part.opLiteral pl conjunct with
    | none => found
    | some (op, value) =>
      if isIndexSafeValue pl value then
        let sel := conjunctSelectivity pl stats conjunct
        let found := match op with
          | .eq => { found with eqSelectivity := pl.mul found.eqSelectivity sel }
          | _ => { found with rangeSelectivity := pl.mul found.rangeSelectivity sel }
        found.add op value
      else found

def keyPartBounds (conjuncts : List (TypedExpr F O X N)) (part : KeyPart F O X N)
    (stats : Option (ScanStats F O X N)) : ColumnBounds F O :=
  conjuncts.foldl (keyPartStep pl part stats) ⟨none, none, none, pl.one, pl.one⟩

/-- The parts of an index's key with their types; a column index stops at a column the table does
not have. -/
def IndexMeta.parts (columns : List (Column T)) (index : IndexMeta F O T X N) :
    List (KeyPart F O X N × ColumnType T) :=
  match index.key with
  | .columns ordinals =>
    (ordinals.map fun i => (i, columns[i]?)).takeWhile (fun p => p.2.isSome)
      |>.filterMap fun p => p.2.map fun c => (.column p.1, c.ty)
  | .exprs exprs => exprs.map fun e => (.expr e.1, e.2)

abbrev RangeSide (F O : Type) := Option (SqlValue F O × Bool)

def coerceSide (ty : ColumnType T) (side : RangeSide F O) : RangeSide F O :=
  side.bind fun b => (coerceIndexBound pl b.1 ty).map (·, b.2)

/-- The bounded prefix of an index's key: equalities on the leading parts, then at most one range.
-/
structure BoundPrefix (F O : Type) where
  values : List (SqlValue F O)
  range : Option (RangeSide F O × RangeSide F O)
  selectivity : F

def boundParts (conjuncts : List (TypedExpr F O X N)) (stats : Option (ScanStats F O X N)) :
    List (KeyPart F O X N × ColumnType T) → BoundPrefix F O → BoundPrefix F O
  | [], acc => acc
  | (part, ty) :: parts, acc =>
    let found := keyPartBounds pl conjuncts part stats
    match found.eq.bind fun v => coerceIndexBound pl v ty with
    | some keyVal =>
      boundParts conjuncts stats parts
        { acc with
          values := acc.values ++ [keyVal]
          selectivity := pl.mul acc.selectivity found.eqSelectivity }
    | none =>
      let lo := coerceSide pl ty found.lo
      let hi := coerceSide pl ty found.hi
      if lo.isSome || hi.isSome then
        { acc with
          range := some (lo, hi)
          selectivity := pl.mul acc.selectivity found.rangeSelectivity }
      else acc

def sideBound (values : List (SqlValue F O)) (side : RangeSide F O) : Sql.Bound (List (SqlValue F O)) :=
  match side with
  | some (value, true) => .included (values ++ [value])
  | some (value, false) => .excluded (values ++ [value])
  | none => if values.isEmpty then .unbounded else .included values

/-- A usable index: its rank (unique point, equalities, a range), the estimate and the scan. -/
structure Candidate (F O T X N : Type) where
  uniquePoint : Bool
  equalities : Nat
  hasRange : Bool
  selectivity : F
  scan : IndexScan F O T X N

/-- The body of `try_index_scan`'s loop over the indexes. -/
def candidate (columns : List (Column T)) (filter : TypedExpr F O X N)
    (stats : Option (ScanStats F O X N)) (index : IndexMeta F O T X N) :
    Option (Candidate F O T X N) :=
  let parts := index.parts columns
  let found := boundParts pl (splitConjuncts filter) stats parts ⟨[], none, pl.one⟩
  if found.values.isEmpty && found.range.isNone then none
  else if stats.any fun ctx => !ctx.prefersIndexScan found.selectivity then none
  else
    let (loSide, hiSide) := found.range.getD (none, none)
    let uniquePoint := index.unique && found.range.isNone && found.values.length == parts.length
    some {
      uniquePoint := uniquePoint
      equalities := found.values.length
      hasRange := found.range.isSome
      selectivity := found.selectivity
      scan := {
        index := index
        lo := sideBound found.values loSide
        hi := sideBound found.values hiSide
        keyColumns := parts.length
        uniquePoint := uniquePoint
        direction := .forward
        limit := none } }

/-- Where a candidate stands: unique points first, then equalities, then a range. -/
def Candidate.rank (c : Candidate F O T X N) : Bool ×ₗ Nat ×ₗ Bool :=
  toLex (c.uniquePoint, toLex (c.equalities, c.hasRange))

/-- `better`: a higher rank, or the same with a lower estimate. -/
def Candidate.better (c best : Candidate F O T X N) : Bool :=
  decide (best.rank < c.rank) || (decide (c.rank = best.rank) && pl.lt c.selectivity best.selectivity)

def pickBetter (best : Option (Candidate F O T X N)) (c : Candidate F O T X N) :
    Option (Candidate F O T X N) :=
  match best with
  | none => some c
  | some b => if c.better pl b then some c else some b

def tryIndexScan (columns : List (Column T)) (indexes : List (IndexMeta F O T X N))
    (filter : TypedExpr F O X N) (stats : Option (ScanStats F O X N)) :
    Option (IndexScan F O T X N) :=
  let best := (indexes.filterMap (candidate pl columns filter stats)).foldl (pickBetter pl) none
  best.map (·.scan)

/-! ## Sorts that an index answers -/

/-- `ordered_scan_keys`: bare `NOT NULL` columns, all in one direction. -/
def orderedScanColumns (columns : List (Column T)) (ascending : Bool) :
    List (OrderByKey F O X N) → Option (List Nat)
  | [] => some []
  | key :: keys =>
    if key.ascending != ascending then none
    else
      match key.expr with
      | .column ordinal =>
        match columns[ordinal]? with
        | some c =>
          if c.nullable then none
          else (orderedScanColumns columns ascending keys).map (ordinal :: ·)
        | none => none
      | _ => none

def orderedScanKeys (columns : List (Column T)) (orderBy : List (OrderByKey F O X N)) :
    Option (ScanDirection × List Nat) := do
  let first ← orderBy.head?
  let cols ← orderedScanColumns columns first.ascending orderBy
  some (if first.ascending then .forward else .backward, cols)

def orderedScanDirection (columns : List (Column T)) (orderBy : List (OrderByKey F O X N)) :
    Option (ScanDirection × Nat) :=
  match orderedScanKeys columns orderBy with
  | some (direction, [col]) => some (direction, col)
  | _ => none

def opBounds : BinaryOp X → Option (Nat × Nat)
  | .eq => some (1, 1)
  | .gt => some (1, 0)
  | .gtEq => some (1, 0)
  | .lt => some (0, 1)
  | .ltEq => some (0, 1)
  | _ => none

/-- The lower and the upper bounds a conjunct puts on `col`, `none` if it does something else. -/
def rangeSides (col : Nat) (ty : ColumnType T) (conjunct : TypedExpr F O X N) : Option (Nat × Nat) :=
  match (KeyPart.column col).betweenBounds pl conjunct with
  | some (low, high) =>
    if (coerceIndexBound pl low ty).isSome && (coerceIndexBound pl high ty).isSome then some (1, 1)
    else none
  | none =>
    match (KeyPart.column col).opLiteral pl conjunct with
    | some (op, value) =>
      if isIndexSafeValue pl value && (coerceIndexBound pl value ty).isSome then opBounds op
      else none
    | none => none

def predicateIsExactlyTheIndexRange (columns : List (Column T)) (predicate : TypedExpr F O X N)
    (col : Nat) : Bool :=
  match columns[col]? with
  | none => false
  | some c =>
    match (splitConjuncts predicate).mapM (rangeSides pl col c.ty) with
    | none => false
    | some sides => decide ((sides.map (·.1)).sum ≤ 1 ∧ (sides.map (·.2)).sum ≤ 1)

structure Base (F O T X N : Type) where
  scan : Option (IndexScan F O T X N)
  predicate : Option (TypedExpr F O X N)

/-- The filtered sequential scan of `try_ordered_index_scan`, lifted onto an index of the ordering
column. -/
def liftScan (columns : List (Column T)) (indexes : List (IndexMeta F O T X N)) (orderCol : Nat)
    (predicate : TypedExpr F O X N) : Option (IndexScan F O T X N) :=
  (indexes.filter fun i => match i.key with | .columns cols => cols == [orderCol] | _ => false)
    |>.findSome? fun i => tryIndexScan pl columns [i] predicate none

/-- `try_ordered_index_scan`: the base with a capped scan in the order asked for. -/
def tryOrderedIndexScan (columns : List (Column T)) (indexes : List (IndexMeta F O T X N))
    (base : Base F O T X N) (orderBy : List (OrderByKey F O X N)) (topN : Option Nat)
    (locking : Bool) : Option (Base F O T X N) := do
  if locking then none
  let cap ← topN
  match base.predicate with
  | some predicate =>
    let (direction, orderCol) ← orderedScanDirection columns orderBy
    let scan ← base.scan.or (liftScan pl columns indexes orderCol predicate)
    match scan.index.key with
    | .columns cols =>
      if cols == [orderCol] && predicateIsExactlyTheIndexRange pl columns predicate orderCol then
        some ⟨some { scan with direction := direction, limit := some cap }, some predicate⟩
      else none
    | .exprs _ => none
  | none =>
    let (direction, orderCols) ← orderedScanKeys columns orderBy
    let index ← indexes.find? fun i => match i.key with
      | .columns cols => orderCols.isPrefixOf cols
      | .exprs _ => false
    some ⟨some {
      index := index, lo := .unbounded, hi := .unbounded
      keyColumns := (index.parts columns).length, uniquePoint := false
      direction := direction, limit := some cap }, none⟩

/-- The statement's filter after `apply_rls` and folding; a `TRUE` is dropped. -/
def plannedFilter (session : Session) (table : Table pl) (select : Select pl Out table) :
    Option (TypedExpr F O X N) :=
  ((applyRls pl session table (select.filter.map (·.expr))).map
    (foldExpr pl.toEvaluator)).filter (asBool · ≠ some true)

/-- The scan, narrowed where an index matches, and the filter above it, rebuilt from its conjuncts.
-/
def plainBase (session : Session) (table : Table pl) (select : Select pl Out table) :
    Base F O T X N where
  scan := (plannedFilter pl session table select).bind fun f =>
    tryIndexScan pl table.columns table.indexes f table.stats
  predicate := (plannedFilter pl session table select).bind fun f => rebuildAnd (splitConjuncts f)

/-- `plan_select`: the base and the sort keys left to apply. A sample stands between the scan and
the filter, where `try_ordered_index_scan` looks for the bare scan. -/
def planSelect (session : Session) (table : Table pl) (select : Select pl Out table) :
    Base F O T X N × List (OrderByKey F O X N) :=
  if select.sortsTheScan && !select.orderBy.isEmpty && select.sample.isNone then
    match tryOrderedIndexScan pl table.columns table.indexes (plainBase pl session table select)
      select.orderBy select.topN select.lockRows.isSome with
    | some ordered => (ordered, [])
    | none => (plainBase pl session table select, select.orderBy)
  else (plainBase pl session table select, select.orderBy)

/-! ## Execution -/

def IndexMeta.keyOf (index : IndexMeta F O T X N) (row : Row F O) : List (SqlValue F O) :=
  match index.key with
  | .columns ordinals => ordinals.map fun i => row[i]?.getD .null
  | .exprs exprs => exprs.map fun e => (eval pl.toEvaluator row e.1).toOption.getD .null

/-- `PAST_PREFIX`: a byte past every tag that can follow a prefix. -/
def pastPrefix : List (Fin 256) := leBytes 1 2

/-- `encode_key_range`: a bound on a proper prefix covers every key that starts with it. -/
def encodeLo (keyColumns : Nat) : Sql.Bound (List (SqlValue F O)) → Sql.Bound (List (Fin 256))
  | .unbounded => .unbounded
  | .included values => .included (pl.encodeIndexKey values)
  | .excluded values =>
    if values.length < keyColumns then .included (pl.encodeIndexKey values ++ pastPrefix)
    else .excluded (pl.encodeIndexKey values)

def encodeHi (keyColumns : Nat) : Sql.Bound (List (SqlValue F O)) → Sql.Bound (List (Fin 256))
  | .unbounded => .unbounded
  | .included values =>
    if values.length < keyColumns then .excluded (pl.encodeIndexKey values ++ pastPrefix)
    else .included (pl.encodeIndexKey values)
  | .excluded values => .excluded (pl.encodeIndexKey values)

namespace IndexScan

variable (scan : IndexScan F O T X N)

def encodedKey (row : Row F O) : List (Fin 256) := pl.encodeIndexKey (scan.index.keyOf pl row)

def inRange (row : Row F O) : Bool :=
  (encodeLo pl scan.keyColumns scan.lo).below (scan.encodedKey pl row) &&
    (encodeHi pl scan.keyColumns scan.hi).above (scan.encodedKey pl row)

/-- `walk_rows`: the rows of the range by key, ascending or descending. In both directions rows with
one key come in the order of their ids, which is that of the table. -/
def entries (rows : List (Row F O)) : List (Row F O) :=
  match scan.direction with
  | .forward =>
    (rows.filter (scan.inRange pl)).insertionSort
      fun a b => scan.encodedKey pl a ≤ scan.encodedKey pl b
  | .backward =>
    (rows.filter (scan.inRange pl)).insertionSort
      fun a b => scan.encodedKey pl b ≤ scan.encodedKey pl a

/-- `index_scan_source`. -/
def rows (rows : List (Row F O)) : List (Row F O) :=
  match scan.limit with
  | some cap => (scan.entries pl rows).take cap
  | none => scan.entries pl rows

end IndexScan

def Base.scanned (base : Base F O T X N) (rows : List (Row F O)) : List (Row F O) :=
  match base.scan with
  | none => rows
  | some scan => scan.rows pl rows

/-- What `FilterSource` makes of one row: it is handed on, dropped, or its predicate's error is. -/
def Base.verdict (base : Base F O T X N) (row : Row F O) : Option (Except E (Row F O)) :=
  match base.predicate with
  | none => some (.ok row)
  | some predicate =>
    match eval pl.toEvaluator row predicate with
    | .error e => some (.error e)
    | .ok (.bool true) => some (.ok row)
    | .ok _ => none

/-- What the filter hands on of the rows that come to it. -/
def Base.filtered (base : Base F O T X N) (rows : List (Row F O)) : List (Except E (Row F O)) :=
  rows.filterMap (base.verdict pl)

variable {table : Table pl} (select : Select pl Out table)

def Select.sampled (rows : List (Row F O)) : List (Row F O) :=
  match select.sample with
  | none => rows
  | some sample => sample.keep select.now rows

/-- The stream above the filter. `TABLESAMPLE` draws among the rows of the scan, before the policies
have hidden any. -/
def Select.stream (session : Session) (rows : List (Row F O)) : List (Except E (Row F O)) :=
  let base := (planSelect pl session table select).1
  base.filtered pl (select.sampled pl (base.scanned pl rows))

def Select.outcome (session : Session) (rows : List (Row F O)) : Except E Out :=
  match select.lockRows, select.vectorKnn with
  | some locked, _ => locked rows
  | none, some search => search rows
  | none, none => select.above (planSelect pl session table select).2 (select.stream pl session rows)

end NusaDb.Rls
