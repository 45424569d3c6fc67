import Mathlib

/-!
# What a scan is given

Two things decide which rows of its table a scan hands on, before any predicate is evaluated.

* An index range has a `Bound` on either side (`std::ops::Bound`). The keys are arbitrary here: the
  planner bounds lists of values, the executor their encodings.
* `TABLESAMPLE` (`PhysicalOperator::Sample`) draws a number for each row the scan yields and keeps
  the row if the number falls below the fraction asked for. The draws depend on the seed and on the
  row's place in the scan alone, so a row more or less at the front moves every draw behind it.
-/

namespace NusaDb.Sql

inductive Bound (α : Type) where
  | unbounded
  | included (key : α)
  | excluded (key : α)

namespace Bound

variable {α : Type} [LinearOrder α]

/-- A key that is not below a lower bound. -/
def below (bound : Bound α) (key : α) : Bool :=
  match bound with
  | .unbounded => true
  | .included b => decide (b ≤ key)
  | .excluded b => decide (b < key)

/-- A key that is not past an upper bound. -/
def above (bound : Bound α) (key : α) : Bool :=
  match bound with
  | .unbounded => true
  | .included b => decide (key ≤ b)
  | .excluded b => decide (key < b)

end Bound

/-- `ast::TableSample`. The fraction is the number that `percent / 100.0` comes to; a `REPEATABLE`
seed is given by its bits. -/
structure TableSample where
  fraction : ℚ
  seed : Option (BitVec 64)
deriving DecidableEq

namespace TableSample

/-- The step of the generator's state, and the mask of a seed that is taken from the clock. -/
def gamma : BitVec 64 := 0x9E3779B97F4A7C15#64

/-- The output function of splitmix64. -/
def mix (state : BitVec 64) : BitVec 64 :=
  let z := (state ^^^ (state >>> 30)) * 0xBF58476D1CE4E5B9#64
  let z := (z ^^^ (z >>> 27)) * 0x94D049BB133111EB#64
  z ^^^ (z >>> 31)

/-- A number in `[0, 1)`: the upper 53 bits, which a double holds exactly. -/
def uniform (state : BitVec 64) : ℚ := ((mix state >>> 11).toNat : ℚ) / 2 ^ 53

/-- One draw for each row. -/
def draw {α : Type} (fraction : ℚ) : BitVec 64 → List α → List α
  | _, [] => []
  | state, row :: rows =>
    let state := state + gamma
    if uniform state < fraction then row :: draw fraction state rows
    else draw fraction state rows

/-- The rows that `PhysicalOperator::Sample` keeps; `now` is `statement_now_micros`, which seeds a
sample without `REPEATABLE`. -/
def keep {α : Type} (sample : TableSample) (now : BitVec 64) (rows : List α) : List α :=
  if sample.fraction ≤ 0 then []
  else if 1 ≤ sample.fraction then rows
  else draw sample.fraction (sample.seed.getD (now ^^^ gamma)) rows

end TableSample

end NusaDb.Sql
