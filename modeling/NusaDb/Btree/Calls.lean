import NusaDb.Btree.Engine

/-!
# Row, index and transaction-end calls

The calls that write rows and index entries, the scans, the undo of writes with the compensations a
savepoint rollback logs, and commit with its serializable read check.
-/

namespace NusaDb

namespace Engine

def insert (e : Engine) (txn : TxnId) (table : TableId) (tuple : Tuple) :
    Engine × Except Error Tid :=
  if maxUserTuple < tuple.length then (e, .error (tupleTooLarge tuple.length))
  else
    match e.tables.get? table with
    | none => (e, .error (tableNotFound table))
    | some t =>
      if !e.txns.txns.contains txn then (e, .error (unknownTxn txn))
      else
        match e.txns.lockTableIntention txn table with
        | .error err => (e, .error err)
        | .ok d =>
          let row := t.nextRowId
          let e := { e with
            txns := d
            tables := e.tables.insert table
              { t with
                rows := t.rows.insert row ⟨RowMeta.fresh txn, tuple⟩
                nextRowId := row + 1
                purgeGen := t.purgeGen + 1 } }
          ((e.pushUndo txn (.inserted table row)).log (.insert txn table row tuple),
            .ok (tidOf row))

def batchLogBytes : Nat := 64 * 1024 * 1024 / 2

/-- Runs of at most `batchLogBytes` framed bytes, at least one tuple each. `run` is the one being
filled, newest tuple first, `bytes` its size. -/
def batchRuns : List Tuple → List Tuple → Nat → List (List Tuple)
  | [], run, _ => if run.isEmpty then [] else [run.reverse]
  | tuple :: rest, run, bytes =>
    let next := tuple.length + 4
    if !run.isEmpty && decide (batchLogBytes < bytes + next) then
      run.reverse :: batchRuns rest [tuple] next
    else batchRuns rest (tuple :: run) (bytes + next)

def batchRecords (txn : TxnId) (table : TableId) : RowId → List (List Tuple) → List WalRecord
  | _, [] => []
  | first, run :: runs =>
    .insertBatch txn table first run :: batchRecords txn table (first + run.length) runs

def insertRows (txn : TxnId) (table : TableId) : Engine → RowId → List Tuple → Engine
  | e, _, [] => e
  | e, row, tuple :: rest =>
    let e := { e with tables := e.tables.modify table fun t =>
      { t with rows := t.rows.insert row ⟨RowMeta.fresh txn, tuple⟩ } }
    insertRows txn table (e.pushUndo txn (.inserted table row)) (row + 1) rest

def insertBatch (e : Engine) (txn : TxnId) (table : TableId) (tuples : List Tuple) :
    Engine × Except Error (List Tid) :=
  if tuples.isEmpty then (e, .ok [])
  else
    match tuples.find? fun tuple => decide (maxUserTuple < tuple.length) with
    | some tuple => (e, .error (tupleTooLarge tuple.length))
    | none =>
      match e.tables.get? table with
      | none => (e, .error (tableNotFound table))
      | some t =>
        if !e.txns.txns.contains txn then (e, .error (unknownTxn txn))
        else
          match e.txns.lockTableIntention txn table with
          | .error err => (e, .error err)
          | .ok d =>
            let first := t.nextRowId
            let e := { e with
              txns := d
              tables := e.tables.insert table
                { t with nextRowId := first + tuples.length, purgeGen := t.purgeGen + 1 } }
            let e := insertRows txn table e first tuples
            let records := batchRecords txn table first (batchRuns tuples [] 0)
            ({ e with wal := e.wal ++ records },
              .ok ((List.range tuples.length).map fun i => tidOf (first + i)))

def update (e : Engine) (txn : TxnId) (table : TableId) (tid : Tid) (tuple : Tuple) :
    Engine × Except Error Tid :=
  if maxUserTuple < tuple.length then (e, .error (tupleTooLarge tuple.length))
  else
    match e.tables.get? table with
    | none => (e, .error (tableNotFound table))
    | some _ =>
      match e.lockRow txn table tid true with
      | (e, .error err) => (e, .error err)
      | (e, .ok ()) =>
        let row := rowIdOf tid
        let e := e.writeRows table id
        match e.leaf table row with
        | none => (e, .error (tupleNotFound tid))
        | some old =>
          match e.txns.admitWrite txn old.header tid with
          | .error err => (e, .error err)
          | .ok () =>
            -- Park the superseded version, then install the new one over it.
            let (reclaim, undoIdx) := e.reclaim.park old
            let e := { e with reclaim := reclaim }.writeRows table fun rows =>
              rows.insert row ⟨⟨txn, noXmax, some undoIdx⟩, tuple⟩
            ((e.pushUndo txn (.updated table row old undoIdx)).log (.update txn table row tuple),
              .ok tid)

def delete (e : Engine) (txn : TxnId) (table : TableId) (tid : Tid) : Engine × Except Error Unit :=
  match e.tables.get? table with
  | none => (e, .error (tableNotFound table))
  | some _ =>
    match e.lockRow txn table tid true with
    | (e, .error err) => (e, .error err)
    | (e, .ok ()) =>
      let row := rowIdOf tid
      let e := e.writeRows table id
      match e.leaf table row with
      | none => (e, .error (tupleNotFound tid))
      | some old =>
        match e.txns.admitWrite txn old.header tid with
        | .error err => (e, .error err)
        | .ok () =>
          -- Only the header changes: the delete is a stamp on the newest version.
          let e := e.writeRows table fun rows =>
            rows.insert row { old with header := { old.header with xmax := txn } }
          ((e.pushUndo txn (.deleted table row old)).log (.delete txn table row), .ok ())

def visibleRows (e : Engine) (t : Table) (view : ReadView) : List (Tid × Tuple) :=
  t.rows.toList.filterMap fun p =>
    (visibleTuple p.2 e.reclaim.arena view).map fun tuple => (tidOf p.1, tuple)

def scan (e : Engine) (txn : TxnId) (table : TableId) :
    Engine × Except Error (List (Tid × Tuple)) :=
  match e.tables.get? table with
  | none => (e, .error (tableNotFound table))
  | some t =>
    match e.txns.txns.get? txn with
    | none => (e, .error (unknownTxn txn))
    | some state =>
      let rows := e.visibleRows t state.pinned
      if state.level = .serializable then
        -- The rows read, and the table as a full-scan predicate.
        ({ e with txns := e.txns.modifyTxn txn fun s =>
            { s with
              predicateReads := table :: s.predicateReads
              reads := rows.map (fun r => (table, rowIdOf r.1)) ++ s.reads } },
          .ok rows)
      else (e, .ok rows)

def scanCommitted (e : Engine) (txn : TxnId) (table : TableId) :
    Except Error (List (Tid × Tuple)) :=
  match e.tables.get? table with
  | none => .error (tableNotFound table)
  | some t =>
    if e.txns.txns.contains txn then .ok (e.visibleRows t (e.txns.freshView txn))
    else .error (unknownTxn txn)

/-- Whether `key` maps, through an alive range, to another row whose newest version is not deleted. -/
def duplicateKey (e : Engine) (idx : IndexState) (key : Key) (row : RowId) : Bool :=
  (idx.data.rowsFor key).any fun (other, metas) =>
    other != row && metas.any (fun m => m.xmax == noXmax) &&
      match e.leaf idx.table other with
      | none => false
      | some v => v.header.xmax == noXmax

def indexInsert (e : Engine) (txn : TxnId) (index : IndexId) (key : Key) (tid : Tid) :
    Engine × Except Error Unit :=
  if !e.txns.txns.contains txn then (e, .error (unknownTxn txn))
  else
    let row := rowIdOf tid
    match e.indexes.get? index with
    | none => (e, .error (indexNotFound index))
    | some idx =>
      if idx.unique && !idx.backing && e.duplicateKey idx key row then
        (e, .error (.constraintViolation
          ("duplicate key violates unique index " ++ idx.name)))
      else
        let applied := idx.data.applyInsert key row txn
        let e := e.modifyIndex index fun _ => applied.1
        -- A same-key re-insert changed nothing, so nothing may be undone.
        let e := match applied.2 with
          | .noop => e
          | .inserted stamped => e.pushUndo txn (.indexInserted index key row stamped)
        (e.log (.indexInsert txn index row key), .ok ())

def indexInsertEach (e : Engine) (txn : TxnId) (index : IndexId) :
    List (Key × Tid) → Engine × Except Error Unit
  | [] => (e, .ok ())
  | (key, tid) :: rest =>
    match e.indexInsert txn index key tid with
    | (e, .error err) => (e, .error err)
    | (e, .ok ()) => indexInsertEach e txn index rest

def indexInsertBatch (e : Engine) (txn : TxnId) (index : IndexId) (entries : List (Key × Tid)) :
    Engine × Except Error Unit :=
  e.indexInsertEach txn index (entries.mergeSort fun a b => decide (a.1 ≤ b.1))

def indexDelete (e : Engine) (txn : TxnId) (index : IndexId) (key : Key) (tid : Tid) :
    Engine × Except Error Unit :=
  if !e.txns.txns.contains txn then (e, .error (unknownTxn txn))
  else
    let row := rowIdOf tid
    match e.indexes.get? index with
    | none => (e, .error (indexNotFound index))
    | some idx =>
      match idx.data.applyDelete key row with
      | (_, none) => (e, .ok ())
      | (data, some range) =>
        let e := (e.modifyIndex index fun _ => data).pushUndo txn (.indexDeleted index key row range)
        (e.log (.indexDelete txn index row key), .ok ())

/-- The two visibility hops of an index walk: the entry's ranges, then the base row. -/
def resolveEntries (e : Engine) (t : Table) (view : ReadView)
    (entries : List (EntryKey × List EntryMeta)) : List (Tid × Tuple) :=
  entries.filterMap fun (at_, metas) =>
    if IndexData.entryVisible metas view then
      (t.rows.get? at_.row).bind fun leaf =>
        (visibleTuple leaf e.reclaim.arena view).map fun tuple => (tidOf at_.row, tuple)
    else none

def indexScan (e : Engine) (txn : TxnId) (index : IndexId) (lo hi : Bound) (backward : Bool)
    (limit : Option Nat) : Engine × Except Error (List (Tid × Tuple)) :=
  match e.indexes.get? index with
  | none => (e, .error (indexNotFound index))
  | some idx =>
    match e.tables.get? idx.table with
    | none => (e, .error (tableNotFound idx.table))
    | some t =>
      match e.txns.txns.get? txn with
      | none => (e, .error (unknownTxn txn))
      | some state =>
        let entries :=
          if indexRangeIsEmpty lo hi then [] else idx.data.walkRows lo hi backward
        let all := e.resolveEntries t state.pinned entries
        -- The cap is checked after a row is taken, so a limit of zero still takes one.
        let rows := match limit with
          | none => all
          | some cap => all.take (max cap 1)
        if state.level = .serializable then
          ({ e with txns := e.txns.modifyTxn txn fun s =>
              { s with reads := rows.map (fun r => (idx.table, rowIdOf r.1)) ++ s.reads } },
            .ok rows)
        else (e, .ok rows)

def indexScanCommitted (e : Engine) (txn : TxnId) (index : IndexId) (lo hi : Bound) :
    Except Error (List (Tid × Tuple)) :=
  if !e.txns.txns.contains txn then .error (unknownTxn txn)
  else
    match e.indexes.get? index with
    | none => .error (indexNotFound index)
    | some idx =>
      match e.tables.get? idx.table with
      | none => .error (tableNotFound idx.table)
      | some t =>
        .ok (e.resolveEntries t (e.txns.freshView txn)
          (if indexRangeIsEmpty lo hi then [] else idx.data.scan lo hi))

end Engine

end NusaDb
