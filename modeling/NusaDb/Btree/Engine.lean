import NusaDb.Btree.Txn

/-!
# The engine: rows, index entries and transactions

State of the clustered engine and its calls, each atomic. A call returns the next state next to its
result, since a refused call may have taken locks. Rows live in one ordered map per table, each as
its newest version. Left out: the memory ceilings, standby mode, page reclamation, schema changes,
and the reading of a non-serializable scan in batches.
-/

namespace NusaDb

structure PreparedLock where
  id : LockId
  exclusive : Bool
  deriving DecidableEq, Repr

/-- The log records of row and index changes, transaction ends and prepares. -/
inductive WalRecord where
  | insert (txn : TxnId) (table : TableId) (row : RowId) (tuple : Tuple)
  | insertBatch (txn : TxnId) (table : TableId) (firstRow : RowId) (tuples : List Tuple)
  | update (txn : TxnId) (table : TableId) (row : RowId) (tuple : Tuple)
  | delete (txn : TxnId) (table : TableId) (row : RowId)
  | indexInsert (txn : TxnId) (index : IndexId) (row : RowId) (key : Key)
  | indexDelete (txn : TxnId) (index : IndexId) (row : RowId) (key : Key)
  | indexUnstamp (txn : TxnId) (index : IndexId) (row : RowId) (key : Key)
  | prepareBegin (txn : TxnId)
  | prepare (txn : TxnId) (gid owner database : String) (locks : List PreparedLock)
  | commitTxn (txn : TxnId)
  | abortTxn (txn : TxnId)
  deriving DecidableEq, Repr

structure Table where
  name : String
  rows : OrdMap RowId Version
  nextRowId : RowId
  purgeGen : Nat
  /-- The generation of the last sweep that left nothing for a later pass (`u64::MAX`, at first,
  is `none`). -/
  purgeCleanGen : Option Nat

structure IndexState where
  table : TableId
  name : String
  unique : Bool
  /-- Whether a constraint of the table is backed by this index. -/
  backing : Bool
  data : IndexData

/-- The undo arena, the free slots, and the slots orphaned by undone updates with who undid them. -/
structure UndoDomain where
  arena : Arena
  free : List Nat
  orphans : List (Nat × TxnId)

/-- The views, active transactions and id horizon a purge pass judges by. -/
structure PurgeSnapshot where
  pinned : List ReadView
  active : List TxnId
  horizon : TxnId

/-- Where a purge pass stands between two of its critical sections. -/
inductive PurgePhase where
  | tables (todo : List TableId)
  /-- Sweeping the rows of `table` from row id `cursor` on. -/
  | sweep (table : TableId) (todo : List TableId) (sweptGen : Nat) (leftForLater : Bool)
      (cursor : RowId) (removed : List RowId)
  /-- Sweeping these indexes of `table`; `yielding` says whether the pass stops after them. -/
  | index (table : TableId) (todo : List TableId) (removed : List RowId)
      (indexes : List IndexId) (yielding : Bool)
  | orphans

structure PurgePass where
  snapshot : PurgeSnapshot
  phase : PurgePhase

structure Engine where
  tables : OrdMap TableId Table
  indexes : OrdMap IndexId IndexState
  txns : TxnDomain
  reclaim : UndoDomain
  passes : OrdMap Nat PurgePass
  nextPass : Nat
  /-- How many prepared transactions may wait at once. -/
  maxPrepared : Nat
  wal : List WalRecord

namespace UndoDomain

/-- Park a superseded version: a freed slot is reused before the arena grows. -/
def park (u : UndoDomain) (v : Version) : UndoDomain × Nat :=
  match u.free with
  | i :: free => ({ u with arena := u.arena.set i (some v), free := free }, i)
  | [] => ({ u with arena := u.arena ++ [some v] }, u.arena.length)

def pushOrphan (u : UndoDomain) (slot : Nat) (txn : TxnId) : UndoDomain :=
  { u with orphans := u.orphans ++ [(slot, txn)] }

end UndoDomain

def Table.create (name : String) : Table :=
  { name := name
    rows := OrdMap.empty
    nextRowId := 0
    purgeGen := 0
    purgeCleanGen := none }

def IndexState.create (table : TableId) (name : String) (unique backing : Bool) : IndexState :=
  { table := table
    name := name
    unique := unique
    backing := backing
    data := IndexData.create }

namespace Engine

def create (tables : List (TableId × Table)) (indexes : List (IndexId × IndexState))
    (maxPrepared : Nat) : Engine :=
  { tables := tables.foldl (fun m p => m.insert p.1 p.2) OrdMap.empty
    indexes := indexes.foldl (fun m p => m.insert p.1 p.2) OrdMap.empty
    txns := TxnDomain.init
    reclaim := ⟨[], [], []⟩
    passes := OrdMap.empty
    nextPass := 0
    maxPrepared := maxPrepared
    wal := [] }

def leaf (e : Engine) (table : TableId) (row : RowId) : Option Version :=
  (e.tables.get? table).bind fun t => t.rows.get? row

def modifyTable (e : Engine) (table : TableId) (f : Table → Table) : Engine :=
  { e with tables := e.tables.modify table f }

/-- Change rows of `table` under its writer latch, which counts the change. -/
def writeRows (e : Engine) (table : TableId) (f : OrdMap RowId Version → OrdMap RowId Version) :
    Engine :=
  e.modifyTable table fun t => { t with rows := f t.rows, purgeGen := t.purgeGen + 1 }

def modifyIndex (e : Engine) (index : IndexId) (f : IndexData → IndexData) : Engine :=
  { e with indexes := e.indexes.modify index fun i => { i with data := f i.data } }

def pushUndo (e : Engine) (txn : TxnId) (op : UndoOp) : Engine :=
  { e with txns := e.txns.modifyTxn txn fun t => { t with undo := op :: t.undo } }

def log (e : Engine) (record : WalRecord) : Engine :=
  { e with wal := e.wal ++ [record] }

def begin (e : Engine) (level : IsolationLevel) : Engine × TxnId :=
  let id := e.txns.nextTxnId
  let d := { e.txns with nextTxnId := id + 1, active := id :: e.txns.active }
  let state : TxnState :=
    { undo := []
      savepoints := []
      level := level
      pinned := d.freshView id
      reads := []
      predicateReads := []
      locks := []
      writeVersionsAtBegin :=
        if level = .serializable then d.tableWriteVersionsFinished else fun _ => 0
      prepared := none }
  ({ e with txns := { d with txns := d.txns.insert id state } }, id)

def beginStatement (e : Engine) (txn : TxnId) : Engine :=
  match e.txns.txns.get? txn with
  | none => e
  | some state =>
    if state.level = .readCommitted ∨ state.level = .readUncommitted then
      { e with txns := e.txns.modifyTxn txn fun t => { t with pinned := e.txns.freshView txn } }
    else e

def savepoint (e : Engine) (txn : TxnId) (name : String) : Engine × Except Error Unit :=
  match e.txns.txns.get? txn with
  | none => (e, .error (unknownTxn txn))
  | some _ =>
    -- A same-named savepoint replaces the older one.
    ({ e with txns := e.txns.modifyTxn txn fun t =>
        { t with savepoints := (name, t.undo.length) :: t.savepoints.filter (·.1 ≠ name) } },
      .ok ())

def releaseSavepoint (e : Engine) (txn : TxnId) (name : String) : Engine × Except Error Unit :=
  match e.txns.txns.get? txn with
  | none => (e, .error (unknownTxn txn))
  | some state =>
    match state.savepoints.dropWhile (·.1 ≠ name) with
    | [] => (e, .error (savepointNotFound name))
    | _ :: older =>
      ({ e with txns := e.txns.modifyTxn txn fun t => { t with savepoints := older } }, .ok ())

def lockUnder (e : Engine) (txn : TxnId) (table : TableId) (id : LockId) (exclusive : Bool) :
    Engine × Except Error Unit :=
  if !e.txns.txns.contains txn then (e, .error (unknownTxn txn))
  else
    match e.txns.lockTableIntention txn table with
    | .error err => (e, .error err)
    | .ok d =>
      match d.acquireLock txn id exclusive with
      | .error err => ({ e with txns := d }, .error err)
      | .ok d' => ({ e with txns := d' }, .ok ())

def rowLock (table : TableId) (tid : Tid) : LockId := .row table tid.page tid.slot

def lockRow (e : Engine) (txn : TxnId) (table : TableId) (tid : Tid) (exclusive : Bool) :
    Engine × Except Error Unit :=
  e.lockUnder txn table (rowLock table tid) exclusive

inductive LockedRow where
  | unchanged
  | updated (tuple : Tuple)
  | deleted
  deriving DecidableEq, Repr

/-- Lock a row and report what it is now against what the snapshot saw. -/
def lockRowCurrent (e : Engine) (txn : TxnId) (table : TableId) (tid : Tid) (exclusive : Bool) :
    Engine × Except Error LockedRow :=
  match e.lockUnder txn table (rowLock table tid) exclusive with
  | (e', .error err) => (e', .error err)
  | (e', .ok ()) =>
    match e'.txns.viewFor txn with
    | .error err => (e', .error err)
    | .ok snapshot =>
      match e'.tables.get? table with
      | none => (e', .error (tableNotFound table))
      | some t =>
        match t.rows.get? (rowIdOf tid) with
        | none => (e', .ok .deleted)
        | some v =>
          if v.header.xmax ≠ noXmax then (e', .ok .deleted)
          else if snapshot.sees v.header.xmin then (e', .ok .unchanged)
          else (e', .ok (.updated v.tuple))

def lockKey (e : Engine) (txn : TxnId) (table : TableId) (hash : Nat) (exclusive : Bool) :
    Engine × Except Error Unit :=
  e.lockUnder txn table (.key table hash) exclusive

def tableLabel (e : Engine) (table : TableId) : String :=
  match e.tables.get? table with
  | none => s!"#{table}"
  | some t => t.name

/-- The refusal of an exclusive table lock: by name when a prepared transaction is in the way. -/
def ddlConflict (e : Engine) (table : TableId) (conflict : Error) : Error :=
  let holder := (e.txns.locks (.table table)).keys.find? fun h =>
    ((e.txns.txns.get? h).bind TxnState.prepared).isSome
  let gid := holder.bind fun h => (e.txns.preparedGids.toList.find? fun p => p.2 = h).map Prod.fst
  match gid with
  | none => conflict
  | some gid =>
    .objectInUse ("table \"" ++ e.tableLabel table ++ "\" is in use by prepared transaction \"" ++
      gid ++ "\"; finish it with COMMIT PREPARED or ROLLBACK PREPARED first")

def lockTable (e : Engine) (txn : TxnId) (table : TableId) (exclusive : Bool) :
    Engine × Except Error Unit :=
  if !e.txns.txns.contains txn then (e, .error (unknownTxn txn))
  else
    match e.txns.acquireLock txn (.table table) exclusive with
    | .ok d => ({ e with txns := d }, .ok ())
    | .error conflict =>
      (e, .error (if exclusive then e.ddlConflict table conflict else conflict))

end Engine

end NusaDb
