import NusaDb.Sql.DecimalArith

/-!
# Aggregate accumulators

`fold_value` and `finalize_aggregate` (`executor/agg.rs`) for `COUNT`, `SUM`, `AVG`, `MIN`, `MAX`,
`VARIANCE` and `STDDEV`. The `f64` moments and the `INTERVAL` total are one value `moments`, folded
and read by `Env`; no exact result reads them.
-/

namespace NusaDb.Agg

open List Sql

inductive AggregateFunc where
  | count
  | sum
  | avg
  | min
  | max
  | stddev
  | variance
  | stddevPop
  | varPop
deriving DecidableEq, Repr

inductive Error where
  | argumentOutOfDomain (message : String)
  | trap (t : Trap)
deriving DecidableEq, Repr

def numericOverflow : Error := .argumentOutOfDomain "numeric aggregate overflow"

structure AggregateCall (T : Type) where
  func : AggregateFunc
  arg : Option (ColumnType T)
  resultTy : ColumnType T
  distinct : Bool

def isInteger {T : Type} : ColumnType T → Bool
  | .smallInt | .int | .bigInt => true
  | _ => false

def isNumeric {T : Type} : ColumnType T → Bool
  | .numeric _ _ => true
  | _ => false

def AggregateCall.integerArg {T : Type} (call : AggregateCall T) : Bool :=
  call.arg.any isInteger

structure Acc (F O X : Type) where
  count : Int
  intSum : Int
  decSum : Option Decimal
  decSumSq : Option Decimal
  min : Option (SqlValue F O)
  max : Option (SqlValue F O)
  laterTiesWin : Bool
  anySeen : Bool
  distinctSeen : List (SqlValue F O)
  moments : X

/-- What is not opened: comparing and hashing values, and the inexact moments. -/
structure Env (F O T X : Type) where
  ts : Types F O T
  distinctHash : SqlValue F O → UInt64
  noMoments : X
  foldMoments : AggregateFunc → X → SqlValue F O → X
  finalizeMoments : AggregateCall T → Acc F O X → Except Error (SqlValue F O)
  sqrtApprox : Decimal → Nat → Option Decimal

variable {F O T X : Type} (env : Env F O T X)

def Env.emptyAcc : Acc F O X := ⟨0, 0, none, none, none, none, false, false, [], env.noMoments⟩

def valueAsDecimal : SqlValue F O → Option Decimal
  | .int i => some (.ofInt i)
  | .numeric d => some d
  | _ => none

def countUp (count : Int) : Except Error Int :=
  if count + 1 < 2 ^ 63 then .ok (count + 1) else .error (.trap .overflow)

def addInt (intSum : Int) : SqlValue F O → Int
  | .int i => (intSum + i).bmod (2 ^ 128)
  | _ => intSum

/-- One term added to a decimal total: after an overflow as at the start, the term is added to zero. -/
def addTerm (total term : Option Decimal) : Option Decimal :=
  term.bind fun t => (total.getD .zero).checkedAdd t

def square (d : Decimal) : Option Decimal := d.checkedMul d

/-- A decimal total after one more value; values that are not exact numbers leave it alone. -/
def addDecimal (term : Decimal → Option Decimal) (total : Option Decimal) (v : SqlValue F O) :
    Option Decimal :=
  match valueAsDecimal v with
  | some d => addTerm total (term d)
  | none => total

/-- Whether `value` replaces the extremum kept so far, `keep` being the order that does. -/
def Env.replaces (keep : Ordering) (tie : Bool) (cur : Option (SqlValue F O)) (value : SqlValue F O) :
    Bool :=
  match cur with
  | none => true
  | some cur =>
    env.ts.compare value cur == keep || (tie && env.ts.compare value cur == .eq)

def Env.accumulate (func : AggregateFunc) (acc : Acc F O X) (value : SqlValue F O) :
    Except Error (Acc F O X) :=
  match func with
  | .count => do
    let count ← countUp acc.count
    .ok { acc with count := count }
  | .sum | .avg => do
    let count ← countUp acc.count
    .ok { acc with
      moments := env.foldMoments func acc.moments value
      intSum := addInt acc.intSum value
      decSum := addDecimal some acc.decSum value
      count := count }
  | .min =>
    .ok (if env.replaces .lt acc.laterTiesWin acc.min value then { acc with min := some value }
      else acc)
  | .max =>
    .ok (if env.replaces .gt acc.laterTiesWin acc.max value then { acc with max := some value }
      else acc)
  | .stddev | .variance | .stddevPop | .varPop => do
    let count ← countUp acc.count
    .ok { acc with
      moments := env.foldMoments func acc.moments value
      decSum := addDecimal some acc.decSum value
      decSumSq := addDecimal square acc.decSumSq value
      count := count }

/-- Whether a `DISTINCT` call has folded an equal value: one in the same bucket that compares
equal. -/
def Env.alreadySeen (seen : List (SqlValue F O)) (value : SqlValue F O) : Bool :=
  seen.any fun s => env.distinctHash s == env.distinctHash value && env.ts.compare s value == .eq

def Acc.meet (acc : Acc F O X) (distinct : Bool) (value : SqlValue F O) : Acc F O X :=
  { acc with
    distinctSeen := if distinct then acc.distinctSeen ++ [value] else acc.distinctSeen
    anySeen := true }

def Env.foldValue (call : AggregateCall T) (acc : Acc F O X) (value : SqlValue F O) :
    Except Error (Acc F O X) :=
  match value with
  | .null => .ok acc
  | value =>
    if call.distinct && env.alreadySeen acc.distinctSeen value then .ok acc
    else env.accumulate call.func (acc.meet call.distinct value) value

def Env.foldValues (call : AggregateCall T) (values : List (SqlValue F O)) :
    Except Error (Acc F O X) :=
  values.foldlM (env.foldValue call) env.emptyAcc

def orOverflow {α : Type} : Option α → Except Error α
  | some a => .ok a
  | none => .error numericOverflow

def divide (a b : Decimal) : Except Error Decimal :=
  match a.checkedDiv b with
  | .error t => .error (.trap t)
  | .ok q => orOverflow q

/-- `N·Σx² − (Σx)²`. -/
def varianceNumerator (n : Int) (sum sumSq : Decimal) : Option Decimal := do
  let nSxx ← (Decimal.ofInt n).checkedMul sumSq
  let sx2 ← sum.checkedMul sum
  nSxx.checkedSub sx2

def varianceDivisor (n : Int) (sample : Bool) : Int := if sample then n * (n - 1) else n * n

def Env.numericVariance (acc : Acc F O X) (sample sqrt : Bool) : Except Error (SqlValue F O) := do
  let sum ← orOverflow acc.decSum
  let sumSq ← orOverflow acc.decSumSq
  let numerator ← orOverflow (varianceNumerator acc.count sum sumSq)
  if numerator.mantissa ≤ 0 then .ok (.numeric .zero)
  else do
    let variance ← divide numerator (.ofInt (varianceDivisor acc.count sample))
    if sqrt then do
      let root ← orOverflow (variance.sqrtRound env.sqrtApprox variance.scale)
      .ok (.numeric root)
    else .ok (.numeric variance)

/-- The total `AVG` divides: the integer one for an integer argument, else the decimal one. -/
def Acc.exactTotal (acc : Acc F O X) (call : AggregateCall T) : Except Error Decimal :=
  if call.integerArg then .ok (.ofInt acc.intSum) else orOverflow acc.decSum

def Env.finalizeAggregate (acc : Acc F O X) (call : AggregateCall T) :
    Except Error (SqlValue F O) :=
  match call.func with
  | .count => .ok (.int acc.count)
  | .sum =>
    if !acc.anySeen then .ok .null
    else if isNumeric call.resultTy then
      if call.integerArg then .ok (.numeric (.ofInt acc.intSum))
      else (orOverflow acc.decSum).map .numeric
    else if isInteger call.resultTy then
      (orOverflow (Decimal.fitsI64 acc.intSum)).map .int
    else env.finalizeMoments call acc
  | .avg =>
    if acc.count = 0 then .ok .null
    else if isNumeric call.resultTy then do
      let sum ← acc.exactTotal call
      let avg ← divide sum (.ofInt acc.count)
      .ok (.numeric avg)
    else env.finalizeMoments call acc
  | .min => .ok (acc.min.getD .null)
  | .max => .ok (acc.max.getD .null)
  | .stddev | .variance =>
    if acc.count < 2 then .ok .null
    else if isNumeric call.resultTy then env.numericVariance acc true (call.func == .stddev)
    else env.finalizeMoments call acc
  | .stddevPop | .varPop =>
    if acc.count < 1 then .ok .null
    else if isNumeric call.resultTy then env.numericVariance acc false (call.func == .stddevPop)
    else env.finalizeMoments call acc

def Env.aggregate (call : AggregateCall T) (values : List (SqlValue F O)) :
    Except Error (SqlValue F O) := do
  let acc ← env.foldValues call values
  env.finalizeAggregate acc call

/-- The values `fold_value` passes over: `NULL`, and for a `DISTINCT` call a value equal to one folded
before. -/
def Env.skips (distinct : Bool) (seen : List (SqlValue F O)) : SqlValue F O → Bool
  | .null => true
  | value => distinct && env.alreadySeen seen value

def Env.counted (distinct : Bool) (seen : List (SqlValue F O)) :
    List (SqlValue F O) → List (SqlValue F O)
  | [] => []
  | value :: rest =>
    if env.skips distinct seen value then Env.counted distinct seen rest
    else value :: Env.counted distinct (if distinct then seen ++ [value] else seen) rest

def Env.take (call : AggregateCall T) (acc : Acc F O X) (value : SqlValue F O) :
    Except Error (Acc F O X) :=
  env.accumulate call.func (acc.meet call.distinct value) value

lemma Env.foldValue_eq (call : AggregateCall T) (acc : Acc F O X) (value : SqlValue F O) :
    env.foldValue call acc value
      = if env.skips call.distinct acc.distinctSeen value then .ok acc
        else env.take call acc value := by
  cases value <;> rfl

lemma Env.accumulate_distinctSeen {func : AggregateFunc} {acc acc' : Acc F O X}
    {value : SqlValue F O} (h : env.accumulate func acc value = .ok acc') :
    acc'.distinctSeen = acc.distinctSeen := by
  cases func <;> simp only [Env.accumulate, countUp] at h <;> split_ifs at h <;> cases h <;> rfl

lemma Env.foldlM_foldValue (call : AggregateCall T) (values : List (SqlValue F O)) :
    ∀ acc : Acc F O X, values.foldlM (env.foldValue call) acc
      = (env.counted call.distinct acc.distinctSeen values).foldlM (env.take call) acc := by
  induction values with
  | nil => exact fun acc => rfl
  | cons v rest ih =>
    intro acc
    rw [foldlM_cons, env.foldValue_eq, Env.counted]
    by_cases hskip : env.skips call.distinct acc.distinctSeen v = true
    · rw [if_pos hskip, if_pos hskip]
      exact ih acc
    rw [if_neg hskip, if_neg hskip, foldlM_cons]
    cases htake : env.take call acc v with
    | error e => rfl
    | ok acc' =>
      have hnext := env.accumulate_distinctSeen htake
      show rest.foldlM (env.foldValue call) acc' = _
      rw [ih acc', hnext]
      rfl

lemma Env.mem_counted {distinct : Bool} {v : SqlValue F O} {values : List (SqlValue F O)} :
    ∀ {seen}, v ∈ env.counted distinct seen values → v ∈ values ∧ v ≠ .null := by
  induction values with
  | nil => exact fun h => absurd h not_mem_nil
  | cons w rest ih =>
    intro seen h
    rw [Env.counted] at h
    by_cases hskip : env.skips distinct seen w = true
    · rw [if_pos hskip] at h
      exact ⟨mem_cons_of_mem _ (ih h).1, (ih h).2⟩
    rw [if_neg hskip] at h
    obtain rfl | h := mem_cons.mp h
    · refine ⟨mem_cons_self, ?_⟩
      rintro rfl
      exact hskip rfl
    · exact ⟨mem_cons_of_mem _ (ih h).1, (ih h).2⟩

end NusaDb.Agg
