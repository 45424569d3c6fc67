import NusaDb.Btree.Run

/-!
# Histories

What a run did, told without versions, stamps, arena or locks: the transactions that committed, in
commit order, each with its surviving writes, and those still open. A history is built from calls
and outcomes alone (`History.record`).
-/

namespace NusaDb

abbrev Loc := TableId × RowId

structure Write where
  loc : Loc
  value : Option Tuple
  deriving DecidableEq, Repr

structure OpenTxn where
  level : IsolationLevel
  /-- How many transactions had committed when the current read view was taken. -/
  snap : Nat
  /-- Writes not undone, newest first. -/
  writes : List Write
  /-- Savepoints, newest first, with the number of writes before each. -/
  marks : List (String × Nat)

structure Committed where
  txn : TxnId
  level : IsolationLevel
  snap : Nat
  writes : List Write

structure History where
  /-- In commit order, oldest first. -/
  commits : List Committed
  running : OrdMap TxnId OpenTxn
  gids : OrdMap String TxnId

namespace History

def init : History := ⟨[], OrdMap.empty, OrdMap.empty⟩

def modify (h : History) (txn : TxnId) (f : OpenTxn → OpenTxn) : History :=
  { h with running := h.running.modify txn f }

def write (h : History) (txn : TxnId) (w : Write) : History :=
  h.modify txn fun o => { o with writes := w :: o.writes }

def drop (h : History) (txn : TxnId) : History :=
  { h with running := h.running.erase txn }

def commit (h : History) (txn : TxnId) : History :=
  match h.running.get? txn with
  | none => h
  | some o =>
    { h with
      commits := h.commits ++ [⟨txn, o.level, o.snap, o.writes⟩]
      running := h.running.erase txn }

def refresh (h : History) (txn : TxnId) : History :=
  h.modify txn fun o =>
    if o.level = .readCommitted ∨ o.level = .readUncommitted then
      { o with snap := h.commits.length }
    else o

def mark (h : History) (txn : TxnId) (name : String) : History :=
  h.modify txn fun o =>
    { o with marks := (name, o.writes.length) :: o.marks.filter (·.1 ≠ name) }

def backTo (h : History) (txn : TxnId) (name : String) : History :=
  h.modify txn fun o =>
    match o.marks.dropWhile (·.1 ≠ name) with
    | [] => o
    | (n, m) :: older =>
      { o with
        marks := (n, m) :: older
        writes := o.writes.drop (o.writes.length - m) }

def release (h : History) (txn : TxnId) (name : String) : History :=
  h.modify txn fun o => { o with marks := (o.marks.dropWhile (·.1 ≠ name)).tail }

/-- A commit or prepare refused because the transaction is unknown or prepared changes nothing; any
other refusal rolled it back. -/
def record (h : History) : Op × Outcome → History
  | (.begin level, .ok (.txn id)) =>
    { h with running := h.running.insert id ⟨level, h.commits.length, [], []⟩ }
  | (.beginStatement txn, .ok _) => h.refresh txn
  | (.insert txn table tuple, .ok (.tid tid)) =>
    h.write txn ⟨(table, rowIdOf tid), some tuple⟩
  | (.insertBatch txn table tuples, .ok (.tids tids)) =>
    (tids.zip tuples).foldl
      (fun h p => h.write txn ⟨(table, rowIdOf p.1), some p.2⟩) h
  | (.update txn table tid tuple, .ok _) => h.write txn ⟨(table, rowIdOf tid), some tuple⟩
  | (.delete txn table tid, .ok _) => h.write txn ⟨(table, rowIdOf tid), none⟩
  | (.savepoint txn name, .ok _) => h.mark txn name
  | (.rollbackTo txn name, .ok _) => h.backTo txn name
  | (.releaseSavepoint txn name, .ok _) => h.release txn name
  | (.commit txn, .ok _) => h.commit txn
  | (.commit txn, .error (.serializationConflict _)) => h.drop txn
  | (.rollback txn, .ok _) => h.drop txn
  | (.prepareTxn txn gid _ _, .ok _) => { h with gids := h.gids.insert gid txn }
  | (.prepareTxn txn _ _ _, .error err) =>
    if err = unknownTxn txn ∨ err = isPrepared txn then h else h.drop txn
  | (.finishPrepared gid _ commit, .ok _) =>
    match h.gids.get? gid with
    | none => h
    | some txn =>
      let h := { h with gids := h.gids.erase gid }
      if commit then h.commit txn else h.drop txn
  | _ => h

def of (trace : List (Op × Outcome)) : History :=
  trace.foldl record init

/-- The last of these newest-first writes to `loc`: the outer `none` means there is none. -/
def lastWrite (writes : List Write) (loc : Loc) : Option (Option Tuple) :=
  (writes.find? fun w => decide (w.loc = loc)).map Write.value

/-- What a row holds after these commits: the write of the last of them that wrote it. -/
def committedValue (commits : List Committed) (loc : Loc) : Option Tuple :=
  (commits.reverse.findSome? fun c => lastWrite c.writes loc).join

def visible (h : History) (txn : TxnId) (loc : Loc) : Option Tuple :=
  match h.running.get? txn with
  | none => none
  | some o =>
    match lastWrite o.writes loc with
    | some value => value
    | none => committedValue (h.commits.take o.snap) loc

structure Ver where
  txn : TxnId
  value : Option Tuple
  deriving DecidableEq, Repr

def versionsOf (txn : TxnId) (writes : List Write) (loc : Loc) : List Ver :=
  (writes.filter fun w => decide (w.loc = loc)).map fun w => ⟨txn, w.value⟩

def pending (h : History) (loc : Loc) : List Ver :=
  h.running.toList.flatMap fun p => versionsOf p.1 p.2.writes loc

def committed (h : History) (loc : Loc) : List Ver :=
  h.commits.reverse.flatMap fun c => versionsOf c.txn c.writes loc

def versions (h : History) (loc : Loc) : List Ver :=
  h.pending loc ++ h.committed loc

end History

end NusaDb
