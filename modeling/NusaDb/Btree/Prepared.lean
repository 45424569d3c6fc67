import NusaDb.Btree.Purge

/-!
# Prepared transactions

`prepareTxn` writes the transaction's program, read off its undo list, between two markers and parks
it: it stays active with its locks but belongs to no session, until `finishPrepared` ends it by
name. Transactions here change rows and index entries; the refusals and records of schema, sequence
and statistics changes, of temporary objects and of a standby are not modelled.
-/

namespace NusaDb

def maxGidBytes : Nat := 200

def unknownGid (gid : String) : Error :=
  .io .notFound ("prepared transaction with identifier \"" ++ gid ++ "\" does not exist")

def corruptRow (row : RowId) : Error :=
  .io .invalidData s!"nusadb-btree: row {row} has no decodable version header"

namespace Engine

def heldLocks (d : TxnDomain) (txn : TxnId) : List PreparedLock :=
  match d.txns.get? txn with
  | none => []
  | some state => state.locks.reverse.map fun id => ⟨id, ((d.locks id).get? txn).getD false⟩

/-- A row's tuple right after one of the changes to it: what the next change in `later` saved, or
the row's current version. -/
def afterTuple (e : Engine) (later : List UndoOp) (table : TableId) (row : RowId) :
    Except Error Tuple :=
  match later.find? fun op => decide (op.rowOf = some (table, row)) with
  | some (.updated _ _ old _) => .ok old.tuple
  | some (.deleted _ _ old) => .ok old.tuple
  | some _ => .error (corruptRow row)
  | none =>
    match e.tables.get? table with
    | none => .error (tableNotFound table)
    | some t =>
      match t.rows.get? row with
      | none => .error (corruptRow row)
      | some v => .ok v.tuple

/-- The canonical record of one change; none when its table or index is gone. -/
def recordOf (e : Engine) (txn : TxnId) (later : List UndoOp) :
    UndoOp → Except Error (List WalRecord)
  | .inserted table row =>
    if e.tables.contains table then
      (e.afterTuple later table row).map fun tuple => [.insert txn table row tuple]
    else .ok []
  | .updated table row _ _ =>
    if e.tables.contains table then
      (e.afterTuple later table row).map fun tuple => [.update txn table row tuple]
    else .ok []
  | .deleted table row _ => .ok (if e.tables.contains table then [.delete txn table row] else [])
  | .indexInserted index key row _ =>
    .ok (if e.indexes.contains index then [.indexInsert txn index row key] else [])
  | .indexDeleted index key row _ =>
    .ok (if e.indexes.contains index then [.indexDelete txn index row key] else [])

def programFrom (e : Engine) (txn : TxnId) : List UndoOp → Except Error (List WalRecord)
  | [] => .ok []
  | op :: later =>
    match e.recordOf txn later op with
    | .error err => .error err
    | .ok records => (e.programFrom txn later).map fun rest => records ++ rest

def programOf (e : Engine) (txn : TxnId) (undo : List UndoOp) : Except Error (List WalRecord) :=
  e.programFrom txn undo.reverse

def prepareRefusal (e : Engine) (gid : String) : Option Error :=
  if maxGidBytes < gid.utf8ByteSize then
    some (.io .invalidData
      ("transaction identifier \"" ++ gid ++ "\" is longer than " ++ toString maxGidBytes ++
        " bytes"))
  else if e.txns.preparedGids.contains gid then
    some (.io .alreadyExists ("transaction identifier \"" ++ gid ++ "\" is already in use"))
  else if e.maxPrepared = 0 then
    some (.io .invalidInput
      "prepared transactions are disabled (the maximum number of prepared transactions is 0)")
  else if e.maxPrepared ≤ e.txns.preparedGids.keys.length then
    some (.io .quotaExceeded
      ("maximum number of prepared transactions reached (" ++ toString e.maxPrepared ++
        "); finish one with COMMIT PREPARED or ROLLBACK PREPARED, or raise the limit"))
  else none

def prepareRecords (txn : TxnId) (info : PreparedMeta) (locks : List PreparedLock)
    (program : List WalRecord) : List WalRecord :=
  .prepareBegin txn :: program ++ [.prepare txn info.gid info.owner info.database locks]

/-- `PREPARE TRANSACTION`. On any refusal the transaction is rolled back. -/
def prepareTxn (e : Engine) (txn : TxnId) (gid owner database : String) :
    Engine × Except Error Unit :=
  match e.txns.txns.get? txn with
  | none => (e, .error (unknownTxn txn))
  | some state =>
    if state.prepared.isSome then (e, .error (isPrepared txn))
    else
      match e.prepareRefusal gid with
      | some err => (e.abort txn state, .error err)
      | none =>
        if e.serializableReadConflict txn then
          (e.abort txn state, .error (.serializationConflict txn))
        else
          let d := { e.txns with nextPrepareSeq := e.txns.nextPrepareSeq + 1 }
          match e.programOf txn state.undo with
          | .error err => ({ e with txns := d }.abort txn state, .error err)
          | .ok program =>
            let info : PreparedMeta := ⟨gid, owner, database, e.txns.nextPrepareSeq⟩
            let records := prepareRecords txn info (heldLocks e.txns txn) program
            -- From here it counts as committed for other transactions' read checks.
            let d := d.bumpStagedVersions txn
            let d := { d with preparedGids := d.preparedGids.insert gid txn }.modifyTxn txn fun t =>
              { t with prepared := some info, reads := [], predicateReads := [] }
            ({ e with txns := d, wal := e.wal ++ records }, .ok ())

def finishTxn (e : Engine) (gid : String) (txn : TxnId) (commit : Bool) : Engine :=
  let d := { e.txns with preparedGids := e.txns.preparedGids.erase gid }
  let e := { e with txns := d }.log (if commit then .commitTxn txn else .abortTxn txn)
  -- The finished instant moves either way, evening out the staged bump of the prepare.
  let e := { e with txns := e.txns.bumpFinishedVersions txn }
  if commit then { e with txns := e.txns.finishCommit txn }
  else
    match e.txns.txns.get? txn with
    | none => e
    | some state => (e.takeTxn txn).abortWith txn state false

/-- `COMMIT PREPARED` (`commit`) or `ROLLBACK PREPARED` of the transaction named `gid`. -/
def finishPrepared (e : Engine) (gid : String) (owner : Option String) (commit : Bool) :
    Engine × Except Error Unit :=
  match e.txns.preparedGids.get? gid with
  | none => (e, .error (unknownGid gid))
  | some txn =>
    let preparedBy := ((e.txns.txns.get? txn).bind TxnState.prepared).map PreparedMeta.owner
    if owner.isSome ∧ preparedBy ≠ owner then
      (e, .error (.io .permissionDenied
        ("only the role that prepared transaction \"" ++ gid ++ "\" (" ++
          preparedBy.getD "unknown" ++ ") or a superuser may finish it")))
    else (e.finishTxn gid txn commit, .ok ())

end Engine

end NusaDb
