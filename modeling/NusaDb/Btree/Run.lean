import NusaDb.Btree.Prepared

/-!
# Runs

The engine's calls as one type, `step` running one of them, and the runs of a list of calls with
their results.
-/

namespace NusaDb

inductive Op where
  | begin (level : IsolationLevel)
  | beginStatement (txn : TxnId)
  | insert (txn : TxnId) (table : TableId) (tuple : Tuple)
  | insertBatch (txn : TxnId) (table : TableId) (tuples : List Tuple)
  | update (txn : TxnId) (table : TableId) (tid : Tid) (tuple : Tuple)
  | delete (txn : TxnId) (table : TableId) (tid : Tid)
  | scan (txn : TxnId) (table : TableId)
  | scanCommitted (txn : TxnId) (table : TableId)
  | indexInsert (txn : TxnId) (index : IndexId) (key : Key) (tid : Tid)
  | indexInsertBatch (txn : TxnId) (index : IndexId) (entries : List (Key × Tid))
  | indexDelete (txn : TxnId) (index : IndexId) (key : Key) (tid : Tid)
  | indexScan (txn : TxnId) (index : IndexId) (lo hi : Bound) (backward : Bool)
      (limit : Option Nat)
  | indexScanCommitted (txn : TxnId) (index : IndexId) (lo hi : Bound)
  | savepoint (txn : TxnId) (name : String)
  | rollbackTo (txn : TxnId) (name : String)
  | releaseSavepoint (txn : TxnId) (name : String)
  | commit (txn : TxnId)
  | rollback (txn : TxnId)
  | prepareTxn (txn : TxnId) (gid owner database : String)
  | finishPrepared (gid : String) (owner : Option String) (commit : Bool)
  | lockRow (txn : TxnId) (table : TableId) (tid : Tid) (exclusive : Bool)
  | lockRowCurrent (txn : TxnId) (table : TableId) (tid : Tid) (exclusive : Bool)
  | lockKey (txn : TxnId) (table : TableId) (hash : Nat) (exclusive : Bool)
  | lockTable (txn : TxnId) (table : TableId) (exclusive : Bool)
  | purgeStart
  | purgeStep (pass : Nat) (pressure : Bool)

inductive Value where
  | unit
  | txn (id : TxnId)
  | tid (tid : Tid)
  | tids (tids : List Tid)
  | rows (rows : List (Tid × Tuple))
  | locked (row : Engine.LockedRow)
  | pass (pass : Nat)
  deriving DecidableEq, Repr

abbrev Outcome := Except Error Value

namespace Engine

def step (e : Engine) : Op → Engine × Outcome
  | .begin level => let (e, id) := e.begin level; (e, .ok (.txn id))
  | .beginStatement txn => (e.beginStatement txn, .ok .unit)
  | .insert txn table tuple =>
    let (e, r) := e.insert txn table tuple; (e, r.map .tid)
  | .insertBatch txn table tuples =>
    let (e, r) := e.insertBatch txn table tuples; (e, r.map .tids)
  | .update txn table tid tuple =>
    let (e, r) := e.update txn table tid tuple; (e, r.map .tid)
  | .delete txn table tid =>
    let (e, r) := e.delete txn table tid; (e, r.map fun _ => .unit)
  | .scan txn table => let (e, r) := e.scan txn table; (e, r.map .rows)
  | .scanCommitted txn table => (e, (e.scanCommitted txn table).map .rows)
  | .indexInsert txn index key tid =>
    let (e, r) := e.indexInsert txn index key tid; (e, r.map fun _ => .unit)
  | .indexInsertBatch txn index entries =>
    let (e, r) := e.indexInsertBatch txn index entries; (e, r.map fun _ => .unit)
  | .indexDelete txn index key tid =>
    let (e, r) := e.indexDelete txn index key tid; (e, r.map fun _ => .unit)
  | .indexScan txn index lo hi backward limit =>
    let (e, r) := e.indexScan txn index lo hi backward limit; (e, r.map .rows)
  | .indexScanCommitted txn index lo hi =>
    (e, (e.indexScanCommitted txn index lo hi).map .rows)
  | .savepoint txn name => let (e, r) := e.savepoint txn name; (e, r.map fun _ => .unit)
  | .rollbackTo txn name => let (e, r) := e.rollbackTo txn name; (e, r.map fun _ => .unit)
  | .releaseSavepoint txn name =>
    let (e, r) := e.releaseSavepoint txn name; (e, r.map fun _ => .unit)
  | .commit txn => let (e, r) := e.commit txn; (e, r.map fun _ => .unit)
  | .rollback txn => let (e, r) := e.rollback txn; (e, r.map fun _ => .unit)
  | .prepareTxn txn gid owner database =>
    let (e, r) := e.prepareTxn txn gid owner database; (e, r.map fun _ => .unit)
  | .finishPrepared gid owner commit =>
    let (e, r) := e.finishPrepared gid owner commit; (e, r.map fun _ => .unit)
  | .lockRow txn table tid exclusive =>
    let (e, r) := e.lockRow txn table tid exclusive; (e, r.map fun _ => .unit)
  | .lockRowCurrent txn table tid exclusive =>
    let (e, r) := e.lockRowCurrent txn table tid exclusive; (e, r.map .locked)
  | .lockKey txn table hash exclusive =>
    let (e, r) := e.lockKey txn table hash exclusive; (e, r.map fun _ => .unit)
  | .lockTable txn table exclusive =>
    let (e, r) := e.lockTable txn table exclusive; (e, r.map fun _ => .unit)
  | .purgeStart => let (e, id) := e.purgeStart; (e, .ok (.pass id))
  | .purgeStep pass pressure => (e.purgeStep pass pressure, .ok .unit)

def run (e : Engine) : List Op → Engine × List (Op × Outcome)
  | [] => (e, [])
  | op :: ops =>
    let (e', out) := e.step op
    let (e'', trace) := e'.run ops
    (e'', (op, out) :: trace)

-- reading the committed state changes nothing
example (e : Engine) (txn : TxnId) (table : TableId) : (e.step (.scanCommitted txn table)).1 = e := by
  simp only [step]

end Engine

end NusaDb
