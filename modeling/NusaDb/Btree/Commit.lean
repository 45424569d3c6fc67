import NusaDb.Btree.Calls

/-!
# Undo, rollback and commit

Every end of a transaction and the partial undo of a savepoint rollback apply the inverses newest
first (`undoOps`). A savepoint rollback also logs them, since the transaction may still commit;
replay leaves an aborted transaction out.
-/

namespace NusaDb

namespace Engine

def undoOp (txn : TxnId) (e : Engine) : UndoOp → Engine
  | .inserted table row => e.writeRows table fun rows => rows.erase row
  | .updated table row old undoIdx =>
    -- Restoring `old` disconnects the parked slot from every chain: purge frees it later.
    { e.writeRows table (fun rows => rows.modify row fun _ => old) with
      reclaim := e.reclaim.pushOrphan undoIdx txn }
  | .deleted table row old =>
    -- The undo pointer is the current header's, not `old`'s: purge may have freed that chain.
    e.writeRows table fun rows =>
      rows.modify row fun v => { v with header := { v.header with xmax := old.header.xmax } }
  | .indexInserted index key row stamped =>
    e.modifyIndex index fun data =>
      let data := data.removeInserted key row txn
      match stamped with
      | none => data
      | some oldKey => data.applyUnstamp oldKey row txn
  | .indexDeleted index key row range =>
    e.modifyIndex index fun data => data.restoreDeleted key row range

def undoOps (e : Engine) (txn : TxnId) (ops : List UndoOp) : Engine :=
  ops.foldl (undoOp txn) e

def compensation (txn : TxnId) : UndoOp → List WalRecord
  | .inserted table row => [.delete txn table row]
  | .updated table row old _ =>
    if old.header.xmax = noXmax then [.update txn table row old.tuple] else [.delete txn table row]
  | .deleted table row old =>
    if old.header.xmax = noXmax then [.update txn table row old.tuple] else [.delete txn table row]
  | .indexInserted index key row stamped =>
    .indexDelete txn index row key ::
      match stamped with
      | none => []
      | some oldKey => [.indexUnstamp txn index row oldKey]
  | .indexDeleted index key row _ => [.indexInsert txn index row key]

def logCompensations (e : Engine) (txn : TxnId) (undone : List UndoOp) : Engine :=
  { e with wal := e.wal ++ undone.flatMap (compensation txn) }

def rollbackTo (e : Engine) (txn : TxnId) (name : String) : Engine × Except Error Unit :=
  match e.txns.txns.get? txn with
  | none => (e, .error (unknownTxn txn))
  | some state =>
    match state.savepoints.dropWhile (·.1 ≠ name) with
    | [] => (e, .error (savepointNotFound name))
    | (_, mark) :: older =>
      -- The savepoint itself stays; the later ones go.
      let tail := state.undo.take (state.undo.length - mark)
      let e := { e with txns := e.txns.modifyTxn txn fun t =>
        { t with
          savepoints := (name, mark) :: older
          undo := t.undo.drop (t.undo.length - mark) } }
      ((e.logCompensations txn tail).undoOps txn tail, .ok ())

/-- Undo `txn`'s writes, then let it leave the active set and drop its locks. -/
def abortWith (e : Engine) (txn : TxnId) (state : TxnState) (logMarker : Bool) : Engine :=
  let e := e.undoOps txn state.undo
  let d := { e.txns with active := e.txns.active.filter (· ≠ txn) }.releaseLocks txn state.locks
  let e := { e with txns := d }
  if logMarker then e.log (.abortTxn txn) else e

def takeTxn (e : Engine) (txn : TxnId) : Engine :=
  { e with txns := { e.txns with txns := e.txns.txns.erase txn } }

def abort (e : Engine) (txn : TxnId) (state : TxnState) : Engine :=
  (e.takeTxn txn).abortWith txn state true

def rollback (e : Engine) (txn : TxnId) : Engine × Except Error Unit :=
  match e.txns.txns.get? txn with
  | none => (e, .error (unknownTxn txn))
  | some state =>
    if state.prepared.isSome then (e, .error (isPrepared txn))
    else (e.abort txn state, .ok ())

/-- Whether a stamp is a concurrent write, committed or prepared: not `txn`'s own, unseen by its
snapshot, and not still running. -/
def conflicting (e : Engine) (txn : TxnId) (pinned : ReadView) (stamp : TxnId) : Bool :=
  stamp != txn && !pinned.sees stamp &&
    (!e.txns.active.contains stamp || e.txns.preparedGids.values.contains stamp)

/-- Walk one read row's versions from the newest down to the one the snapshot sees. -/
def readConflictLoop (arena : Arena) (pinned : ReadView) (conflicts : TxnId → Bool) :
    Nat → RowMeta → Bool
  | 0, _ => false
  | fuel + 1, m =>
    if conflicts m.xmin || (m.xmax != noXmax && conflicts m.xmax) then true
    else if pinned.sees m.xmin then false
    else
      match m.undo with
      | none => false
      | some i =>
        match arena.slot i with
        | none => false
        | some prev => readConflictLoop arena pinned conflicts fuel prev.header

/-- Whether a row the transaction read has been created or deleted since by a concurrent committer,
or a table it scanned has a row whose newest version such a one created. -/
def serializableReadConflict (e : Engine) (txn : TxnId) : Bool :=
  match e.txns.txns.get? txn with
  | none => false
  | some state =>
    if state.level ≠ .serializable ∨ (state.reads.isEmpty ∧ state.predicateReads.isEmpty) then false
    else
      -- A table whose write version has not moved had no concurrent committer.
      let writeMoved := fun table =>
        e.txns.tableWriteVersionsStaged table != state.writeVersionsAtBegin table
      let reads := state.reads.filter fun r => writeMoved r.1
      let predicateReads := state.predicateReads.filter writeMoved
      let conflicts := e.conflicting txn state.pinned
      (reads.any fun r =>
        match e.leaf r.1 r.2 with
        | none => false
        | some v =>
          readConflictLoop e.reclaim.arena state.pinned conflicts (e.reclaim.arena.length + 1)
            v.header) ||
      predicateReads.any fun table =>
        match e.tables.get? table with
        | none => false
        | some t => t.rows.values.any fun v => conflicts v.header.xmin

/-- End a transaction whose commit marker is durable: both version instants move, then its
writes become visible. -/
def publishCommit (e : Engine) (txn : TxnId) : Engine :=
  let d := (e.txns.bumpStagedVersions txn).bumpFinishedVersions txn
  { e with txns := d.finishCommit txn }

def commit (e : Engine) (txn : TxnId) : Engine × Except Error Unit :=
  match e.txns.txns.get? txn with
  | none => (e, .error (unknownTxn txn))
  | some state =>
    if state.prepared.isSome then (e, .error (isPrepared txn))
    else if e.serializableReadConflict txn then
      (e.abort txn state, .error (.serializationConflict txn))
    else if state.undo.isEmpty then
      -- A transaction that wrote nothing needs no marker.
      ({ e with txns := e.txns.finishCommit txn }, .ok ())
    else ((e.log (.commitTxn txn)).publishCommit txn, .ok ())

end Engine

end NusaDb
