import NusaDb.Lib.Fallible
import NusaDb.Lib.StableSort
import NusaDb.Sql.Value

/-!
# External merge sort (`executor/spill_sort.rs`)

The input is cut into runs as a memory budget fills, every run is sorted and written to disk, and a
heap of the runs' heads merges them. An input the budget holds is sorted in memory.
-/

namespace NusaDb.Spill

open Sql

variable {E F O T R B : Type}

inductive NullOrdering where
  | default
  | first
  | last
deriving DecidableEq, Repr

/-- An `ORDER BY` key: its expression evaluated on a row, its direction and where `NULL` goes. -/
structure OrderByKey (E F O R : Type) where
  expr : R → Except E (SqlValue F O)
  ascending : Bool
  nulls : NullOrdering

def isNull : SqlValue F O → Bool
  | .null => true
  | _ => false

def compareOrderKey (ts : Types F O T) (a b : SqlValue F O) (ascending : Bool)
    (nulls : NullOrdering) : Ordering :=
  if isNull a ≠ isNull b ∧ nulls ≠ .default then
    if isNull a = decide (nulls = .first) then .lt else .gt
  else if ascending then ts.compare a b else (ts.compare a b).swap

/-- How a row is written to a run and read back (`spill/codec.rs`). A row that came back from disk
comes back the same from then on. -/
structure Codec (E R B : Type) where
  encodeRow : R → Except E B
  decodeRow : B → Except E R
  again : ∀ {row row' : R} {bytes : B}, encodeRow row = .ok bytes → decodeRow bytes = .ok row' →
    ∃ bytes', encodeRow row' = .ok bytes' ∧ decodeRow bytes' = .ok row'

def Codec.RoundTrips (codec : Codec E R B) (row : R) : Prop :=
  ∃ bytes, codec.encodeRow row = .ok bytes ∧ codec.decodeRow bytes = .ok row

structure MemBudget where
  used : Nat
  limit : Nat

/-- `MemBudget::admit`. An empty budget admits any row, and a limit of 0 admits them all. -/
def MemBudget.admitBytes (budget : MemBudget) (bytes : Nat) : Bool × MemBudget :=
  if budget.limit ≠ 0 ∧ budget.used ≠ 0 ∧ budget.used + bytes > budget.limit then (false, budget)
  else (true, { budget with used := budget.used + bytes })

/-- What a sort works with: its keys, the size of a row in memory and the codec of its runs. -/
structure Sorter (E F O T R B : Type) where
  types : Types F O T
  keys : List (OrderByKey E F O R)
  rowBytes : R → Nat
  codec : Codec E R B

namespace Sorter

variable (s : Sorter E F O T R B)

def Admits (budget : MemBudget) : List R → Prop
  | [] => True
  | row :: rows =>
    (budget.admitBytes (s.rowBytes row)).1 = true ∧ Admits (budget.admitBytes (s.rowBytes row)).2 rows

/-- The rows of the runs that are spilled as the input is read, and those left in the buffer. -/
def cutRuns (budget : MemBudget) (buf : List R) : List R → List (List R) × List R
  | [] => ([], buf)
  | row :: rows =>
    if (budget.admitBytes (s.rowBytes row)).1 then
      cutRuns (budget.admitBytes (s.rowBytes row)).2 (buf ++ [row]) rows
    else
      -- the refused row opens the next buffer, and a budget that was reset admits it
      let later := cutRuns ({ budget with used := 0 }.admitBytes (s.rowBytes row)).2 [row] rows
      (buf :: later.1, later.2)

def evalKeys (row : R) : Except E (List (SqlValue F O)) := s.keys.mapM (·.expr row)

def compareUnder (ts : Types F O T) : List (OrderByKey E F O R) → List (SqlValue F O) →
    List (SqlValue F O) → Ordering
  | key :: keys, a :: as, b :: bs =>
    (compareOrderKey ts a b key.ascending key.nulls).then (compareUnder ts keys as bs)
  | _, _, _ => .eq

/-- The comparison of two rows by their evaluated keys, in the sort and in the heap alike. -/
def compareKeys (a b : List (SqlValue F O)) : Ordering := compareUnder s.types s.keys a b

def headLE (a b : List (SqlValue F O) × R) : Bool := (s.compareKeys a.1 b.1).isLE

def decorate (row : R) : Except E (List (SqlValue F O) × R) :=
  (s.evalKeys row).map fun keys => (keys, row)

def sortRows (rows : List R) : Except E (List R) := do
  let decorated ← rows.mapM s.decorate
  return (decorated.insertionSort (s.headLE · ·)).map (·.2)

def spillRun (buf : List R) : Except E (List B) := do
  let sorted ← s.sortRows buf
  sorted.mapM s.codec.encodeRow

/-- The rows of a run with their keys. The cursor reads a run row by row as it needs them. -/
def readRun (file : List B) : Except E (List (List (SqlValue F O) × R)) := do
  let rows ← file.mapM s.codec.decodeRow
  rows.mapM s.decorate

/-- `sorted_rows`, drained. A head precedes another by its keys, and of equal heads the one of the
earlier run does. -/
def sortedRows (limit : Nat) (rows : List R) : Except E (List R) :=
  let cut := s.cutRuns { used := 0, limit } [] rows
  if cut.1 = [] then s.sortRows cut.2
  else do
    let files ← (cut.1 ++ if cut.2 = [] then [] else [cut.2]).mapM s.spillRun
    let runs ← files.mapM s.readRun
    return (mergeRuns s.headLE rows.length runs).map (·.2)

end Sorter

end NusaDb.Spill
