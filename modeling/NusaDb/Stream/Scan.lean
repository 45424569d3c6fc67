import NusaDb.Btree.Run

/-!
# Streaming scans

Outside `SERIALIZABLE` a table scan, and a forward scan of an index range, keeps the view it was
opened under and reads a batch at a time, any other call between two. Its view counts as pinned for
purge, its own transaction taken for unseen; before that transaction changes what the scan has still
to read, the scan is read to its end into its buffer. Reading cannot fail here.
-/

namespace NusaDb

/-- When a batch ends: the rows in the buffer, the tuple bytes and the entries it visited. -/
structure BatchLimits where
  rows : Nat
  bytes : Nat
  visits : Nat

/-- An index range a stream walks in place of the table's row-id order. -/
structure IndexRange where
  index : IndexId
  lo : Bound
  hi : Bound
  /-- The last entry the previous batch visited. -/
  resume : Option EntryKey

structure StreamState where
  table : TableId
  view : ReadView
  /-- The first row id a table scan does not read (`end`): the table's next one at open. -/
  stop : RowId
  /-- The first row id the next batch reads from. -/
  cursor : RowId
  done : Bool
  buffered : List (Tid × Tuple)
  index : Option IndexRange

structure Batch where
  buffered : List (Tid × Tuple)
  bytes : Nat
  visits : Nat

namespace Batch

def visit (b : Batch) (row : Option (Tid × Tuple)) : Batch :=
  match row with
  | none => { b with visits := b.visits + 1 }
  | some r =>
    { buffered := b.buffered ++ [r], bytes := b.bytes + r.2.length, visits := b.visits + 1 }

def full (b : Batch) (limits : BatchLimits) : Bool :=
  decide (limits.rows ≤ b.buffered.length) || decide (limits.bytes ≤ b.bytes) ||
    decide (limits.visits ≤ b.visits)

/-- Visit entries until the batch is full; also the entry it was full at. -/
def fill {α : Type} (limits : BatchLimits) (resolve : α → Option (Tid × Tuple)) :
    List α → Batch → Batch × Option α
  | [], b => (b, none)
  | a :: rest, b =>
    let b := b.visit (resolve a)
    if b.full limits then (b, some a) else fill limits resolve rest b

end Batch

def IndexData.scanAfter (d : IndexData) (after : EntryKey) (hi : Bound) :
    List (EntryKey × List EntryMeta) :=
  d.entries.toList.filter fun e => decide (after < e.1) && hi.admitsTo e.1.key

def IndexRange.walk (range : IndexRange) (d : IndexData) : List (EntryKey × List EntryMeta) :=
  match range.resume with
  | none => d.scan range.lo range.hi
  | some after => d.scanAfter after range.hi

namespace Engine

def resolveRow (e : Engine) (view : ReadView) (p : RowId × Version) : Option (Tid × Tuple) :=
  (visibleTuple p.2 e.reclaim.arena view).map fun tuple => (tidOf p.1, tuple)

/-- What a view sees of an index entry: the entry's ranges first, then the row. -/
def resolveEntry (e : Engine) (t : Table) (view : ReadView) (p : EntryKey × List EntryMeta) :
    Option (Tid × Tuple) :=
  if IndexData.entryVisible p.2 view then
    (t.rows.get? p.1.row).bind fun leaf =>
      (visibleTuple leaf e.reclaim.arena view).map fun tuple => (tidOf p.1.row, tuple)
  else none

end Engine

namespace StreamState

/-- The rows the next batch of a table scan may visit: from the cursor up to `stop`. -/
def walk (st : StreamState) (t : Table) : List (RowId × Version) :=
  (t.rows.toList.filter fun p => decide (st.cursor ≤ p.1)).takeWhile fun p => decide (p.1 < st.stop)

def fillFromIndex (e : Engine) (limits : BatchLimits) (st : StreamState) (range : IndexRange) :
    StreamState :=
  match e.indexes.get? range.index, e.tables.get? st.table with
  | some idx, some t =>
    match Batch.fill limits (e.resolveEntry t st.view) (range.walk idx.data)
        ⟨st.buffered, 0, 0⟩ with
    | (b, some last) =>
      { st with buffered := b.buffered, index := some { range with resume := some last.1 } }
    | (b, none) =>
      { st with buffered := b.buffered, index := some { range with resume := none }, done := true }
  | _, _ => { st with done := true }

def fill (e : Engine) (limits : BatchLimits) (st : StreamState) : StreamState :=
  match st.index with
  | some range => st.fillFromIndex e limits range
  | none =>
    match e.tables.get? st.table with
    | none => { st with done := true }
    | some t =>
      match Batch.fill limits (e.resolveRow st.view) (st.walk t) ⟨st.buffered, 0, 0⟩ with
      | (b, some last) => { st with buffered := b.buffered, cursor := last.1 + 1 }
      | (b, none) => { st with buffered := b.buffered, done := true }

def left (e : Engine) (st : StreamState) : Nat :=
  match st.index with
  | some range =>
    match e.indexes.get? range.index with
    | none => 0
    | some idx => (range.walk idx.data).length
  | none =>
    match e.tables.get? st.table with
    | none => 0
    | some t => (st.walk t).length

/-- Read batches until `stop` or the end. A batch that is not the last visits an entry, so a round
for each entry left and one more suffice. -/
def fillUntil (e : Engine) (limits : BatchLimits) (stop : StreamState → Bool) :
    Nat → StreamState → StreamState
  | 0, st => st
  | rounds + 1, st =>
    if st.done || stop st then st else fillUntil e limits stop rounds (st.fill e limits)

def drain (e : Engine) (limits : BatchLimits) (st : StreamState) : StreamState :=
  fillUntil e limits (fun _ => false) (st.left e + 1) st

/-- The next row: from the buffer, reading batches while it is empty. -/
def tryNext (e : Engine) (limits : BatchLimits) (st : StreamState) :
    StreamState × Option (Tid × Tuple) :=
  let st := fillUntil e limits (fun st => !st.buffered.isEmpty) (st.left e + 1) st
  ({ st with buffered := st.buffered.tail }, st.buffered.head?)

def whole (table : TableId) (view : ReadView) (rows : List (Tid × Tuple)) : StreamState where
  table := table
  view := view
  stop := 0
  cursor := 0
  done := true
  buffered := rows
  index := none

end StreamState

/-- The view purge takes for pinned while a scan under `view` is open: nothing its own transaction
does counts as seen. Its `own` id (`u64::MAX`) is the reserved id here. -/
def ReadView.pin (view : ReadView) : ReadView :=
  { own := noXmax, active := view.own :: view.active, horizon := view.horizon }

structure OpenScan where
  pin : ReadView
  txn : TxnId
  table : TableId
  index : Bool

/-- The engine with the streams it has handed out (`streams`) and those of them that are registered
with purge (`views`). -/
structure ScanEngine where
  engine : Engine
  limits : BatchLimits
  views : OrdMap Nat OpenScan
  streams : OrdMap Nat StreamState
  nextKey : Nat

namespace ScanEngine

def start (e : Engine) (limits : BatchLimits) : ScanEngine where
  engine := e
  limits := limits
  views := OrdMap.empty
  streams := OrdMap.empty
  nextKey := 0

def handOut (s : ScanEngine) (st : StreamState) : ScanEngine × Nat :=
  ({ s with streams := s.streams.insert s.nextKey st, nextKey := s.nextKey + 1 }, s.nextKey)

def register (s : ScanEngine) (txn : TxnId) (st : StreamState) : ScanEngine × Nat :=
  { s with
    views := s.views.insert s.nextKey ⟨st.view.pin, txn, st.table, st.index.isSome⟩ }.handOut st

def materialise (s : ScanEngine) (table : TableId) (view : ReadView)
    (read : Engine × Except Error (List (Tid × Tuple))) : ScanEngine × Except Error Nat :=
  match read with
  | (e, .error err) => ({ s with engine := e }, .error err)
  | (e, .ok rows) =>
    let (s, key) := { s with engine := e }.handOut (.whole table view rows)
    (s, .ok key)

def openTable (s : ScanEngine) (txn : TxnId) (table : TableId) : ScanEngine × Except Error Nat :=
  match s.engine.tables.get? table with
  | none => (s, .error (tableNotFound table))
  | some t =>
    match s.engine.txns.txns.get? txn with
    | none => (s, .error (unknownTxn txn))
    | some state =>
      -- A serializable scan records every row it reads, so it reads the table at open.
      if state.level = .serializable then
        s.materialise table state.pinned (s.engine.scan txn table)
      else
        let (s, key) := s.register txn
          { table := table
            view := state.pinned
            stop := t.nextRowId
            cursor := 0
            done := false
            buffered := []
            index := none }
        (s, .ok key)

/-- Whether an index scan is read at open although its transaction is not serializable. -/
def readsAtOpen (lo hi : Bound) (backward : Bool) (limit : Option Nat) : Bool :=
  limit.isSome || backward || indexRangeIsEmpty lo hi ||
    match lo, hi with
    | .included l, .included h => decide (l = h)
    | _, _ => false

def openIndex (s : ScanEngine) (txn : TxnId) (index : IndexId) (lo hi : Bound) (backward : Bool)
    (limit : Option Nat) : ScanEngine × Except Error Nat :=
  match s.engine.indexes.get? index with
  | none => (s, .error (indexNotFound index))
  | some idx =>
    match s.engine.tables.get? idx.table with
    | none => (s, .error (tableNotFound idx.table))
    | some _ =>
      match s.engine.txns.txns.get? txn with
      | none => (s, .error (unknownTxn txn))
      | some state =>
        if state.level = .serializable ∨ readsAtOpen lo hi backward limit then
          s.materialise idx.table state.pinned (s.engine.indexScan txn index lo hi backward limit)
        else
          let (s, key) := s.register txn
            { table := idx.table
              view := state.pinned
              stop := 0
              cursor := 0
              done := false
              buffered := []
              index := some ⟨index, lo, hi, none⟩ }
          (s, .ok key)

def read (s : ScanEngine) (key : Nat) : ScanEngine :=
  { s with streams := s.streams.modify key fun st =>
      if st.done then st else st.fill s.engine s.limits }

def next (s : ScanEngine) (key : Nat) : ScanEngine × Option (Tid × Tuple) :=
  match s.streams.get? key with
  | none => (s, none)
  | some st =>
    let (st, row) := st.tryNext s.engine s.limits
    ({ s with streams := s.streams.insert key st }, row)

def close (s : ScanEngine) (key : Nat) : ScanEngine :=
  { s with views := s.views.erase key, streams := s.streams.erase key }

/-- Read to its end every registered stream that `which` names. -/
def drainWhere (s : ScanEngine) (which : OpenScan → Bool) : ScanEngine :=
  let keys := (s.views.toList.filter fun p => which p.2).map Prod.fst
  { s with streams := keys.foldl (fun m key =>
      m.modify key fun st => st.drain s.engine s.limits) s.streams }

def drainOpenScans (s : ScanEngine) (txn : TxnId) (table : Option TableId) : ScanEngine :=
  s.drainWhere fun scan => decide (scan.txn = txn) && table.all fun t => decide (scan.table = t)

def drainOpenIndexScans (s : ScanEngine) (txn : TxnId) (table : TableId) : ScanEngine :=
  s.drainWhere fun scan =>
    scan.index && decide (scan.txn = txn) && decide (scan.table = table)

/-- At the end of a transaction its streams are read to their ends and unpinned. -/
def finishOpenScans (s : ScanEngine) (txn : TxnId) : ScanEngine :=
  let s := s.drainOpenScans txn none
  { s with views := ⟨s.views.toList.filter fun p => decide (p.2.txn ≠ txn), s.views.sorted.filter _⟩ }

/-- What a call does to the open streams before it does anything else. -/
def beforeCall (s : ScanEngine) : Op → ScanEngine
  | .update txn table _ tuple =>
    if maxUserTuple < tuple.length then s else s.drainOpenScans txn (some table)
  | .delete txn table _ => s.drainOpenScans txn (some table)
  | .rollbackTo txn _ => s.drainOpenScans txn none
  | .commit txn => s.finishOpenScans txn
  | .rollback txn => s.finishOpenScans txn
  | .prepareTxn txn _ _ _ => s.finishOpenScans txn
  | .indexInsert txn index _ _ => beforeEntry s txn index
  | .indexInsertBatch txn index entries => if entries.isEmpty then s else beforeEntry s txn index
  | .indexDelete txn index _ _ => beforeEntry s txn index
  | _ => s
where
  /-- An entry change by an open transaction on an index that exists. -/
  beforeEntry (s : ScanEngine) (txn : TxnId) (index : IndexId) : ScanEngine :=
    if s.engine.txns.txns.contains txn then
      match s.engine.indexes.get? index with
      | none => s
      | some idx => s.drainOpenIndexScans txn idx.table
    else s

/-- The settlement snapshot of a purge pass, open streams included. -/
def purgeSnapshot (s : ScanEngine) : PurgeSnapshot :=
  { s.engine.purgeSnapshot with
    pinned := s.engine.purgeSnapshot.pinned ++ s.views.values.map OpenScan.pin }

def purgeStart (s : ScanEngine) : ScanEngine × Nat :=
  let e := s.engine
  ({ s with engine := { e with
      passes := e.passes.insert e.nextPass ⟨s.purgeSnapshot, .tables e.tables.keys⟩
      nextPass := e.nextPass + 1 } },
    e.nextPass)

def call (s : ScanEngine) (op : Op) : ScanEngine × Outcome :=
  match op with
  | .purgeStart => let (s, id) := s.purgeStart; (s, .ok (.pass id))
  | op =>
    let s := s.beforeCall op
    let (e, out) := s.engine.step op
    ({ s with engine := e }, out)

end ScanEngine

inductive ScanOp where
  | call (op : Op)
  | openTable (txn : TxnId) (table : TableId)
  | openIndex (txn : TxnId) (index : IndexId) (lo hi : Bound) (backward : Bool)
      (limit : Option Nat)
  /-- One batch, as a call of `next` or a drain under way reads it. -/
  | read (key : Nat)
  | next (key : Nat)
  | close (key : Nat)

inductive ScanOutcome where
  | call (out : Outcome)
  | opened (key : Except Error Nat)
  | row (row : Option (Tid × Tuple))
  | unit
  deriving DecidableEq

namespace ScanEngine

def step (s : ScanEngine) : ScanOp → ScanEngine × ScanOutcome
  | .call op => let (s, out) := s.call op; (s, .call out)
  | .openTable txn table => let (s, r) := s.openTable txn table; (s, .opened r)
  | .openIndex txn index lo hi backward limit =>
    let (s, r) := s.openIndex txn index lo hi backward limit; (s, .opened r)
  | .read key => (s.read key, .unit)
  | .next key => let (s, r) := s.next key; (s, .row r)
  | .close key => (s.close key, .unit)

def run (s : ScanEngine) : List ScanOp → ScanEngine × List (ScanOp × ScanOutcome)
  | [] => (s, [])
  | op :: ops =>
    let (s', out) := s.step op
    let (s'', trace) := s'.run ops
    (s'', (op, out) :: trace)

end ScanEngine

end NusaDb
