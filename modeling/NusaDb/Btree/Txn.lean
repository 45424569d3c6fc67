import Mathlib.Data.String.Basic
import NusaDb.Btree.Index

/-!
# Transactions and locks

The open transactions with their undo lists, savepoints, read views and read sets, the no-wait lock
table, and the write versions the serializable check consults.

A vector that grows at its end is a list with its newest element first: an undo list of length `n`
drops to a mark `m` by dropping its first `n - m` elements. Hash maps with a default are functions,
others ordered maps; hash sets are lists.
-/

namespace NusaDb

inductive IoKind where
  | notFound
  | invalidInput
  | invalidData
  | alreadyExists
  | quotaExceeded
  | permissionDenied
  | unsupported
  deriving DecidableEq, Repr

inductive Error where
  | io (kind : IoKind) (message : String)
  | tableNotFound (name : String)
  | unknownTransaction (txn : TxnId)
  | serializationConflict (txn : TxnId)
  | constraintViolation (message : String)
  | objectInUse (message : String)
  deriving DecidableEq, Repr

inductive IsolationLevel where
  | readUncommitted
  | readCommitted
  | repeatableRead
  | serializable
  deriving DecidableEq, Repr

/-- The treaty's tuple id. The row id is its page; its slot is always written as `0`. -/
structure Tid where
  page : RowId
  slot : Nat
  deriving DecidableEq, Repr

def tidOf (row : RowId) : Tid := ⟨row, 0⟩

def rowIdOf (tid : Tid) : RowId := tid.page

def unknownTxn (txn : TxnId) : Error := .unknownTransaction txn

def tableNotFound (table : TableId) : Error := .tableNotFound s!"table id {table}"

def tupleNotFound (tid : Tid) : Error :=
  .io .notFound ("nusadb-btree: no row at tid Tid \x7b page: PageId(" ++ toString tid.page ++
    "), slot: SlotIdx(" ++ toString tid.slot ++ ") \x7d")

def indexNotFound (index : IndexId) : Error :=
  .io .notFound s!"nusadb-btree: no index with id {index}"

def savepointNotFound (name : String) : Error :=
  .io .notFound s!"savepoint {name} does not exist"

def maxUserTuple : Nat := 32 * 1024 * 1024

def tupleTooLarge (len : Nat) : Error :=
  .io .invalidInput
    s!"nusadb-btree: tuple of {len} bytes exceeds the maximum row size of {maxUserTuple} bytes"

def isPrepared (txn : TxnId) : Error :=
  .io .invalidInput
    s!"transaction {txn} is prepared; finish it with COMMIT PREPARED or ROLLBACK PREPARED"

inductive LockId where
  | row (table : TableId) (page : RowId) (slot : Nat)
  | key (table : TableId) (hash : Nat)
  | table (table : TableId)
  deriving DecidableEq, Repr

abbrev LockHolders := OrdMap TxnId Bool

/-- The inverse of one applied write. Row changes carry the version they replaced. -/
inductive UndoOp where
  | inserted (table : TableId) (row : RowId)
  | updated (table : TableId) (row : RowId) (old : Version) (undoIdx : Nat)
  | deleted (table : TableId) (row : RowId) (old : Version)
  | indexInserted (index : IndexId) (key : Key) (row : RowId) (stamped : Option Key)
  | indexDeleted (index : IndexId) (key : Key) (row : RowId) (range : EntryMeta)
  deriving DecidableEq, Repr

def UndoOp.rowOf : UndoOp → Option (TableId × RowId)
  | .inserted table row => some (table, row)
  | .updated table row _ _ => some (table, row)
  | .deleted table row _ => some (table, row)
  | .indexInserted .. => none
  | .indexDeleted .. => none

def UndoOp.rowTable (op : UndoOp) : Option TableId := op.rowOf.map Prod.fst

structure PreparedMeta where
  gid : String
  owner : String
  database : String
  seq : Nat
  deriving DecidableEq, Repr

structure TxnState where
  /-- Newest first. -/
  undo : List UndoOp
  /-- Newest first, each with the length the undo list had. -/
  savepoints : List (String × Nat)
  level : IsolationLevel
  pinned : ReadView
  reads : List (TableId × RowId)
  predicateReads : List TableId
  locks : List LockId
  writeVersionsAtBegin : TableId → Nat
  prepared : Option PreparedMeta

structure TxnDomain where
  txns : OrdMap TxnId TxnState
  active : List TxnId
  nextTxnId : TxnId
  locks : LockId → LockHolders
  tableWriteVersionsStaged : TableId → Nat
  tableWriteVersionsFinished : TableId → Nat
  preparedGids : OrdMap String TxnId
  nextPrepareSeq : Nat

namespace TxnDomain

/-- No transaction; id `0` is reserved for `noXmax`. -/
def init : TxnDomain where
  txns := OrdMap.empty
  active := []
  nextTxnId := 1
  locks := fun _ => OrdMap.empty
  tableWriteVersionsStaged := fun _ => 0
  tableWriteVersionsFinished := fun _ => 0
  preparedGids := OrdMap.empty
  nextPrepareSeq := 0

def modifyTxn (d : TxnDomain) (txn : TxnId) (f : TxnState → TxnState) : TxnDomain :=
  { d with txns := d.txns.modify txn f }

def touchedTables (d : TxnDomain) (txn : TxnId) : List TableId :=
  match d.txns.get? txn with
  | none => []
  | some state => (state.undo.filterMap UndoOp.rowTable).dedup

def bump (versions : TableId → Nat) (tables : List TableId) : TableId → Nat :=
  fun table => if table ∈ tables then versions table + 1 else versions table

def bumpStagedVersions (d : TxnDomain) (txn : TxnId) : TxnDomain :=
  { d with tableWriteVersionsStaged := bump d.tableWriteVersionsStaged (d.touchedTables txn) }

def bumpFinishedVersions (d : TxnDomain) (txn : TxnId) : TxnDomain :=
  { d with tableWriteVersionsFinished := bump d.tableWriteVersionsFinished (d.touchedTables txn) }

/-- A view taken now for `own`: other active transactions and later ids are invisible. -/
def freshView (d : TxnDomain) (own : TxnId) : ReadView :=
  ⟨own, d.active.filter (· ≠ own), d.nextTxnId⟩

def viewFor (d : TxnDomain) (txn : TxnId) : Except Error ReadView :=
  match d.txns.get? txn with
  | none => .error (unknownTxn txn)
  | some state => .ok state.pinned

def otherActive (d : TxnDomain) (txn id : TxnId) : Bool := id != txn && d.active.contains id

/-- Whether `txn`'s snapshot cannot see `stamp`; an unknown transaction has nothing unseen. -/
def unseenBy (d : TxnDomain) (txn stamp : TxnId) : Bool :=
  match d.txns.get? txn with
  | none => false
  | some state => !state.pinned.sees stamp

/-- No-wait write admission for `txn` against a row whose newest version is `m`. -/
def admitWrite (d : TxnDomain) (txn : TxnId) (m : RowMeta) (tid : Tid) : Except Error Unit :=
  if d.otherActive txn m.xmin then .error (.serializationConflict txn)
  else if m.xmax ≠ noXmax then
    if d.otherActive txn m.xmax || d.unseenBy txn m.xmax then .error (.serializationConflict txn)
    else .error (tupleNotFound tid)
  else if d.unseenBy txn m.xmin then .error (.serializationConflict txn)
  else .ok ()

def setHolders (d : TxnDomain) (id : LockId) (holders : LockHolders) : TxnDomain :=
  { d with locks := fun id' => if id' = id then holders else d.locks id' }

/-- Acquire `id` for `txn`, no-wait. A refusal leaves the domain as it was. -/
def acquireLock (d : TxnDomain) (txn : TxnId) (id : LockId) (exclusive : Bool) :
    Except Error TxnDomain :=
  if !d.txns.contains txn then .error (unknownTxn txn)
  else
    let holders := d.locks id
    match holders.get? txn with
    | some heldExclusive =>
      if heldExclusive || !exclusive then .ok d
      else if holders.keys.length = 1 then .ok (d.setHolders id (holders.insert txn true))
      else .error (.serializationConflict txn)
    | none =>
      let compatible := if exclusive then holders.keys.isEmpty else holders.values.all (!·)
      if compatible then
        .ok ((d.setHolders id (holders.insert txn exclusive)).modifyTxn txn
          fun t => { t with locks := id :: t.locks })
      else .error (.serializationConflict txn)

def releaseLocks (d : TxnDomain) (txn : TxnId) (held : List LockId) : TxnDomain :=
  held.foldl (fun d id => d.setHolders id ((d.locks id).erase txn)) d

def lockTableIntention (d : TxnDomain) (txn : TxnId) (table : TableId) : Except Error TxnDomain :=
  d.acquireLock txn (.table table) false

def finishCommit (d : TxnDomain) (txn : TxnId) : TxnDomain :=
  let d' := match d.txns.get? txn with
    | none => d
    | some state => { d with txns := d.txns.erase txn }.releaseLocks txn state.locks
  { d' with active := d'.active.filter (· ≠ txn) }

end TxnDomain

end NusaDb
