import Mathlib.Data.List.Lex
import Mathlib.Data.Prod.Lex
import Mathlib.Data.List.Dedup
import NusaDb.Lib.OrdMap
import NusaDb.Lib.ListLast
import NusaDb.Btree.Mvcc

/-!
# Index entries

An index maps every `(key, row)` pair to the visibility ranges of that entry, and every row to its
one alive key. A key move dead-stamps the alive range under the old key and opens one under the new;
a key that comes back earns a second range.

Pages, the overflow of large entries and the merge of the two are one ordered map here. The dead set
is read off the entries (`deadPairs`).
-/

namespace NusaDb

abbrev Key := List Byte

structure EntryMeta where
  xmin : TxnId
  xmax : TxnId
  deriving DecidableEq, Repr

structure EntryKey where
  key : Key
  row : RowId
  deriving DecidableEq, Repr

namespace EntryKey

def toPair (e : EntryKey) : Key ×ₗ RowId := toLex (e.key, e.row)

lemma toPair_injective : Function.Injective toPair := by
  intro a b h
  have hp : (a.key, a.row) = (b.key, b.row) := toLex.injective h
  cases a
  cases b
  simpa using hp

instance : LinearOrder EntryKey := LinearOrder.lift' toPair toPair_injective

end EntryKey

inductive Bound where
  | included (key : Key)
  | excluded (key : Key)
  | unbounded
  deriving DecidableEq, Repr

def Bound.admitsFrom : Bound → Key → Bool
  | .included lo, k => decide (lo ≤ k)
  | .excluded lo, k => decide (lo < k)
  | .unbounded, _ => true

def Bound.admitsTo : Bound → Key → Bool
  | .included hi, k => decide (k ≤ hi)
  | .excluded hi, k => decide (k < hi)
  | .unbounded, _ => true

def indexRangeIsEmpty : Bound → Bound → Bool
  | .included l, .included h => decide (h < l)
  | .included l, .excluded h => decide (h ≤ l)
  | .excluded l, .excluded h => decide (h ≤ l)
  | .excluded l, .included h => decide (h ≤ l)
  | _, _ => false

structure IndexData where
  entries : OrdMap EntryKey (List EntryMeta)
  alive : OrdMap RowId Key

/-- What `applyInsert` did: nothing (the alive entry carries the key), or a new range, with the old
key whose alive range it dead-stamped. -/
inductive AppliedInsert where
  | noop
  | inserted (stamped : Option Key)
  deriving DecidableEq, Repr

namespace IndexData

def create : IndexData := ⟨OrdMap.empty, OrdMap.empty⟩

def entryVisible (metas : List EntryMeta) (view : ReadView) : Bool :=
  metas.any fun m => view.sees m.xmin && (m.xmax == noXmax || !view.sees m.xmax)

def load (d : IndexData) (key : Key) (row : RowId) : Option (List EntryMeta) :=
  d.entries.get? ⟨key, row⟩

def save (d : IndexData) (key : Key) (row : RowId) (metas : List EntryMeta) : IndexData :=
  { d with
    entries :=
      if metas.isEmpty then d.entries.erase ⟨key, row⟩ else d.entries.insert ⟨key, row⟩ metas }

def aliveKey (d : IndexData) (row : RowId) : Option Key := d.alive.get? row

def setAlive (d : IndexData) (row : RowId) (key : Key) : IndexData :=
  { d with alive := d.alive.insert row key }

def clearAlive (d : IndexData) (row : RowId) : IndexData :=
  { d with alive := d.alive.erase row }

def scan (d : IndexData) (lo hi : Bound) : List (EntryKey × List EntryMeta) :=
  d.entries.toList.filter fun e => lo.admitsFrom e.1.key && hi.admitsTo e.1.key

/-- The rows of the greatest key left in the range, ascending, then the keys below it. Every round
takes one key. -/
def walkRowsBackward (d : IndexData) (lo : Bound) : Nat → Bound → List (EntryKey × List EntryMeta)
  | 0, _ => []
  | fuel + 1, hi =>
    match (d.scan lo hi).getLast? with
    | none => []
    | some (last, _) =>
      d.scan (.included last.key) (.included last.key) ++
        walkRowsBackward d lo fuel (.excluded last.key)

/-- The entries within `lo..hi`: keys ascending (descending when `backward`), the rows under one key
ascending in both directions. -/
def walkRows (d : IndexData) (lo hi : Bound) (backward : Bool) :
    List (EntryKey × List EntryMeta) :=
  if backward then walkRowsBackward d lo (d.entries.toList.length + 1) hi else d.scan lo hi

def deadPairs (d : IndexData) : List EntryKey :=
  (d.entries.toList.filter fun e => e.2.any fun m => m.xmax != noXmax).map Prod.fst

def rowsFor (d : IndexData) (key : Key) : List (RowId × List EntryMeta) :=
  (d.scan (.included key) (.included key)).map fun e => (e.1.row, e.2)

/-- Stamp the alive range of `row` under `oldKey` dead, as of `txn`. -/
def stampAlive (d : IndexData) (oldKey : Key) (row : RowId) (txn : TxnId) : IndexData :=
  match d.load oldKey row with
  | none => d
  | some metas =>
    d.save oldKey row (modifyLast (fun m => m.xmax == noXmax) (fun m => { m with xmax := txn })
      metas)

def pushAlive (d : IndexData) (key : Key) (row : RowId) (range : EntryMeta) : IndexData :=
  (d.save key row ((d.load key row).getD [] ++ [range])).setAlive row key

/-- One entry insert by `txn`: a no-op over the row's alive entry, a key move otherwise. -/
def applyInsert (d : IndexData) (key : Key) (row : RowId) (txn : TxnId) :
    IndexData × AppliedInsert :=
  match d.aliveKey row with
  | some oldKey =>
    if oldKey = key then (d, .noop)
    else ((d.stampAlive oldKey row txn).pushAlive key row ⟨txn, noXmax⟩, .inserted (some oldKey))
  | none => (d.pushAlive key row ⟨txn, noXmax⟩, .inserted none)

def clearAliveAt (d : IndexData) (key : Key) (row : RowId) : IndexData :=
  if d.aliveKey row = some key then d.clearAlive row else d

/-- Remove the alive range `txn` pushed: the inverse of an insert. -/
def removeInserted (d : IndexData) (key : Key) (row : RowId) (txn : TxnId) : IndexData :=
  let d' := match d.load key row with
    | none => d
    | some metas =>
      d.save key row (eraseLast (fun m => m.xmin == txn && m.xmax == noXmax) metas)
  d'.clearAliveAt key row

/-- Physical entry removal: drop the row's alive range under `key`; also the removed range. -/
def applyDelete (d : IndexData) (key : Key) (row : RowId) : IndexData × Option EntryMeta :=
  match d.load key row with
  | none => (d, none)
  | some metas =>
    match findLast? (fun m => m.xmax == noXmax) metas with
    | none => (d, none)
    | some removed =>
      ((d.save key row (eraseLast (fun m => m.xmax == noXmax) metas)).clearAliveAt key row,
        some removed)

/-- Revive the range `txn` dead-stamped and point the row-to-key map back at it. -/
def applyUnstamp (d : IndexData) (key : Key) (row : RowId) (txn : TxnId) : IndexData :=
  match d.load key row with
  | none => d
  | some metas =>
    if metas.any fun m => m.xmax == txn then
      (d.save key row
        (modifyLast (fun m => m.xmax == txn) (fun m => { m with xmax := noXmax }) metas)).setAlive
          row key
    else d

/-- Push a removed range back; only an alive range re-earns the row-to-key slot. -/
def restoreDeleted (d : IndexData) (key : Key) (row : RowId) (range : EntryMeta) : IndexData :=
  let d' := d.save key row ((d.load key row).getD [] ++ [range])
  if range.xmax = noXmax then d'.setAlive row key else d'

/-- Drop from one entry what purge may: every range of a removed row, and every range whose
dead-stamp is settled. -/
def purgeEntry (removed : List RowId) (settled : TxnId → Bool) (d : IndexData) (e : EntryKey) :
    IndexData :=
  match d.load e.key e.row with
  | none => d
  | some metas =>
    let kept := metas.filter fun m =>
      !(removed.contains e.row || (m.xmax != noXmax && settled m.xmax))
    if kept.length = metas.length then d else d.save e.key e.row kept

/-- Reclaim what purge may, visiting the dead set and the removed rows' alive entries. -/
def purge (d : IndexData) (removed : List RowId) (settled : TxnId → Bool) : IndexData :=
  let ofRemoved := removed.filterMap fun row => (d.aliveKey row).map fun key => ⟨key, row⟩
  let targets := (d.deadPairs ++ ofRemoved).dedup
  removed.foldl clearAlive (targets.foldl (purgeEntry removed settled) d)

end IndexData

end NusaDb
