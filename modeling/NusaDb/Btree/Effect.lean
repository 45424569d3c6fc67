import NusaDb.Btree.Arena

/-!
# What one call can do

`Effect e op out e'`: a call leaves the state alone but for locks (`quiet`), or makes one of the
changes below, with what it checked before. Every invariant of runs is proved once for each way
(`Engine.step_effect`), never by going through the calls' own code.
-/

namespace NusaDb

open Option OrdMap Engine TxnDomain

def Table.content (t : Table) : String × OrdMap RowId Version × RowId :=
  (t.name, t.rows, t.nextRowId)

def TxnState.sansLocks (s : TxnState) : TxnState := { s with locks := [] }

namespace TxnState

def mark (name : String) (s : TxnState) : TxnState :=
  { s with savepoints := (name, s.undo.length) :: s.savepoints.filter (·.1 ≠ name) }

def release (name : String) (s : TxnState) : TxnState :=
  { s with savepoints := (s.savepoints.dropWhile (·.1 ≠ name)).tail }

/-- Back to the savepoint `name`, which was set when the undo list had `mark` entries. -/
def backTo (name : String) (mark : Nat) (s : TxnState) : TxnState :=
  { s with
    savepoints := s.savepoints.dropWhile (·.1 ≠ name)
    undo := s.undo.drop (s.undo.length - mark) }

end TxnState

/-- The states differ in locks, purge generations and the prepare counter only. -/
structure Engine.Quiet (e e' : Engine) : Prop where
  tables : ∀ table, (e'.tables.get? table).map Table.content =
    (e.tables.get? table).map Table.content
  indexes : e'.indexes = e.indexes
  reclaim : e'.reclaim = e.reclaim
  passes : e'.passes = e.passes
  wal : e'.wal = e.wal
  txn : ∀ t, (e'.txns.txns.get? t).map TxnState.sansLocks =
    (e.txns.txns.get? t).map TxnState.sansLocks
  active : e'.txns.active = e.txns.active
  next : e'.txns.nextTxnId = e.txns.nextTxnId
  staged : e'.txns.tableWriteVersionsStaged = e.txns.tableWriteVersionsStaged
  finished : e'.txns.tableWriteVersionsFinished = e.txns.tableWriteVersionsFinished
  gids : e'.txns.preparedGids = e.txns.preparedGids
  maxPrepared : e'.maxPrepared = e.maxPrepared

namespace Engine

def putUpdate (e : Engine) (txn : TxnId) (table : TableId) (row : RowId) (old : Version)
    (tuple : Tuple) : Engine :=
  (({ e with reclaim := (e.reclaim.park old).1 }.writeRows table fun rows =>
      rows.insert row ⟨⟨txn, noXmax, some (e.reclaim.park old).2⟩, tuple⟩).pushUndo txn
    (.updated table row old (e.reclaim.park old).2)).log (.update txn table row tuple)

def putDelete (e : Engine) (txn : TxnId) (table : TableId) (row : RowId) (old : Version) : Engine :=
  ((e.writeRows table fun rows =>
      rows.insert row { old with header := { old.header with xmax := txn } }).pushUndo txn
    (.deleted table row old)).log (.delete txn table row)

/-- The new row, the entry that undoes it and the record of it; the other writes are alike. -/
def putInsert (e : Engine) (txn : TxnId) (table : TableId) (row : RowId) (tuple : Tuple) : Engine :=
  ((e.modifyTable table fun t =>
      { t with
        rows := t.rows.insert row ⟨RowMeta.fresh txn, tuple⟩
        nextRowId := row + 1
        purgeGen := t.purgeGen + 1 }).pushUndo txn (.inserted table row)).log
    (.insert txn table row tuple)

def putBatch (e : Engine) (txn : TxnId) (table : TableId) (first : RowId) (tuples : List Tuple) :
    Engine :=
  let e₁ := insertRows txn table (e.modifyTable table fun t =>
    { t with nextRowId := first + tuples.length, purgeGen := t.purgeGen + 1 }) first tuples
  { e₁ with wal := e₁.wal ++ batchRecords txn table first (batchRuns tuples [] 0) }

/-- What a serializable transaction read, as its commit will check it. -/
def noteReads (e : Engine) (txn : TxnId) (tables : List TableId) (rows : List (TableId × RowId)) :
    Engine :=
  { e with txns := e.txns.modifyTxn txn fun s =>
      { s with
        predicateReads := tables ++ s.predicateReads
        reads := rows ++ s.reads } }

/-- Prepared: out of the way of conflict checks, its program logged. -/
def park (e : Engine) (txn : TxnId) (info : PreparedMeta) (program : List WalRecord) : Engine :=
  let d := { e.txns with nextPrepareSeq := e.txns.nextPrepareSeq + 1 }.bumpStagedVersions txn
  { e with
    txns := { d with preparedGids := d.preparedGids.insert info.gid txn }.modifyTxn txn fun t =>
      { t with prepared := some info, reads := [], predicateReads := [] }
    wal := e.wal ++ prepareRecords txn info (heldLocks e.txns txn) program }

/-- The state after a rollback to a savepoint, `tail` being what was written since. -/
def undoTo (e : Engine) (txn : TxnId) (name : String) (mark : Nat) (tail : List UndoOp) : Engine :=
  (logCompensations { e with txns := e.txns.modifyTxn txn (TxnState.backTo name mark) } txn
    tail).undoOps txn tail

/-- The state after a commit; a transaction that wrote nothing logs no marker. -/
def finish (e : Engine) (txn : TxnId) (undo : List UndoOp) : Engine :=
  { e with wal := e.wal ++ if undo.isEmpty then [] else [WalRecord.commitTxn txn] }.publishCommit txn

end Engine

/-- The ways. `hq` is for the locks taken before the change; `hrec` says what the call means. -/
inductive Effect (e : Engine) : Op → Outcome → Engine → Prop
  | quiet {op : Op} {out : Outcome} {e' : Engine} (hq : e.Quiet e')
      (hrec : ∀ h : History, h.record (op, out) = h) : Effect e op out e'
  | begin (level : IsolationLevel) :
      Effect e (.begin level) (.ok (.txn e.txns.nextTxnId)) (e.begin level).1
  | beginStatement (txn : TxnId) :
      Effect e (.beginStatement txn) (.ok .unit) (e.beginStatement txn)
  | insert {txn : TxnId} {table : TableId} {tuple : Tuple} {e₁ : Engine} {t : Table} {s : TxnState}
      (hq : e.Quiet e₁) (hs : e₁.txns.txns.get? txn = some s)
      (ht : e₁.tables.get? table = some t) :
      Effect e (.insert txn table tuple) (.ok (.tid (tidOf t.nextRowId)))
        (e₁.putInsert txn table t.nextRowId tuple)
  | insertBatch {txn : TxnId} {table : TableId} {tuples : List Tuple} {e₁ : Engine} {t : Table}
      {s : TxnState} (hq : e.Quiet e₁) (hs : e₁.txns.txns.get? txn = some s)
      (ht : e₁.tables.get? table = some t) :
      Effect e (.insertBatch txn table tuples)
        (.ok (.tids ((List.range tuples.length).map fun i => tidOf (t.nextRowId + i))))
        (e₁.putBatch txn table t.nextRowId tuples)
  | update {txn : TxnId} {table : TableId} {tid : Tid} {tuple : Tuple} {e₁ : Engine} {old : Version}
      {s : TxnState} (hq : e.Quiet e₁) (hs : e₁.txns.txns.get? txn = some s)
      (hold : e₁.leaf table (rowIdOf tid) = some old)
      (hadm : e₁.txns.admitWrite txn old.header tid = .ok ()) :
      Effect e (.update txn table tid tuple) (.ok (.tid tid))
        (e₁.putUpdate txn table (rowIdOf tid) old tuple)
  | delete {txn : TxnId} {table : TableId} {tid : Tid} {e₁ : Engine} {old : Version}
      {s : TxnState} (hq : e.Quiet e₁) (hs : e₁.txns.txns.get? txn = some s)
      (hold : e₁.leaf table (rowIdOf tid) = some old)
      (hadm : e₁.txns.admitWrite txn old.header tid = .ok ()) :
      Effect e (.delete txn table tid) (.ok .unit) (e₁.putDelete txn table (rowIdOf tid) old)
  | scan {txn : TxnId} {table : TableId} {t : Table} {s : TxnState}
      (ht : e.tables.get? table = some t) (hs : e.txns.txns.get? txn = some s)
      (hlevel : s.level = .serializable) :
      Effect e (.scan txn table) (.ok (.rows (e.visibleRows t s.pinned)))
        (e.noteReads txn [table]
          ((e.visibleRows t s.pinned).map fun r => (table, rowIdOf r.1)))
  | indexScan {txn : TxnId} {index : IndexId} {lo hi : Bound} {backward : Bool} {limit : Option Nat}
      {out : Outcome} {s : TxnState} (rows : List (TableId × RowId))
      (hs : e.txns.txns.get? txn = some s) :
      Effect e (.indexScan txn index lo hi backward limit) out (e.noteReads txn [] rows)
  | indexInsert {txn : TxnId} {index : IndexId} {key : Key} {tid : Tid} :
      Effect e (.indexInsert txn index key tid) ((e.indexInsert txn index key tid).2.map fun _ =>
        .unit) (e.indexInsert txn index key tid).1
  | indexInsertBatch {txn : TxnId} {index : IndexId} {entries : List (Key × Tid)} :
      Effect e (.indexInsertBatch txn index entries)
        ((e.indexInsertBatch txn index entries).2.map fun _ => .unit)
        (e.indexInsertBatch txn index entries).1
  | indexDelete {txn : TxnId} {index : IndexId} {key : Key} {tid : Tid} :
      Effect e (.indexDelete txn index key tid) ((e.indexDelete txn index key tid).2.map fun _ =>
        .unit) (e.indexDelete txn index key tid).1
  | savepoint {txn : TxnId} {name : String} {s : TxnState}
      (hs : e.txns.txns.get? txn = some s) :
      Effect e (.savepoint txn name) (.ok .unit)
        { e with txns := e.txns.modifyTxn txn (TxnState.mark name) }
  | releaseSavepoint {txn : TxnId} {name : String} {s : TxnState}
      (hs : e.txns.txns.get? txn = some s) :
      Effect e (.releaseSavepoint txn name) (.ok .unit)
        { e with txns := e.txns.modifyTxn txn (TxnState.release name) }
  | rollbackTo {txn : TxnId} {name : String} {s : TxnState} {mark : Nat}
      {older : List (String × Nat)} (hs : e.txns.txns.get? txn = some s)
      (hdrop : s.savepoints.dropWhile (·.1 ≠ name) = (name, mark) :: older) :
      Effect e (.rollbackTo txn name) (.ok .unit)
        (e.undoTo txn name mark (s.undo.take (s.undo.length - mark)))
  | commit {txn : TxnId} {s : TxnState} (hs : e.txns.txns.get? txn = some s)
      (hprepared : s.prepared = none) (hclean : e.serializableReadConflict txn = false) :
      Effect e (.commit txn) (.ok .unit) (e.finish txn s.undo)
  | abort {op : Op} {out : Outcome} {txn : TxnId} {s : TxnState} {e₁ : Engine} (hq : e.Quiet e₁)
      (hs : e₁.txns.txns.get? txn = some s) (hprepared : s.prepared = none)
      (hrec : ∀ h : History, h.record (op, out) = h.drop txn) : Effect e op out (e₁.abort txn s)
  | prepareTxn {txn : TxnId} {info : PreparedMeta} {s : TxnState} {program : List WalRecord}
      (hs : e.txns.txns.get? txn = some s) (hprepared : s.prepared = none)
      (hnew : e.txns.preparedGids.get? info.gid = none)
      (hclean : e.serializableReadConflict txn = false)
      (hprogram : e.programOf txn s.undo = .ok program) :
      Effect e (.prepareTxn txn info.gid info.owner info.database) (.ok .unit)
        (e.park txn info program)
  | finishPrepared {gid : String} {owner : Option String} {commit : Bool} {txn : TxnId}
      (hgid : e.txns.preparedGids.get? gid = some txn) :
      Effect e (.finishPrepared gid owner commit) (.ok .unit) (e.finishTxn gid txn commit)
  | purgeStart : Effect e .purgeStart (.ok (.pass e.nextPass)) e.purgeStart.1
  | purgeStep (pass : Nat) (pressure : Bool) :
      Effect e (.purgeStep pass pressure) (.ok .unit) (e.purgeStep pass pressure)

lemma TxnDomain.modifyTxn_congr {txn : TxnId} (d : TxnDomain) {f g : TxnState → TxnState}
    {s : TxnState} (hs : d.txns.get? txn = some s) (hfg : f s = g s) :
    d.modifyTxn txn f = d.modifyTxn txn g := by
  unfold TxnDomain.modifyTxn
  rw [modify_congr fun t htxn => ?_]
  rw [hs] at htxn
  cases htxn
  exact hfg

lemma Engine.Quiet.refl (e : Engine) : e.Quiet e :=
  ⟨fun _ => rfl, rfl, rfl, rfl, rfl, fun _ => rfl, rfl, rfl, rfl, rfl, rfl, rfl⟩

/-- A call that fails, or only reads, changes nothing. -/
lemma Effect.still {e : Engine} {op : Op} {out : Outcome}
    (hrec : ∀ h : History, h.record (op, out) = h) : Effect e op out e :=
  .quiet (.refl e) hrec

/-! ## Locks leave everything else alone

A call that fails after taking a lock keeps it, so its effect is `quiet` rather than nothing.
-/

namespace Engine

variable {e e' : Engine}

lemma Quiet.trans {e'' : Engine} (h1 : e.Quiet e') (h2 : e'.Quiet e'') : e.Quiet e'' where
  tables table := (h2.tables table).trans (h1.tables table)
  indexes := h2.indexes.trans h1.indexes
  reclaim := h2.reclaim.trans h1.reclaim
  passes := h2.passes.trans h1.passes
  wal := h2.wal.trans h1.wal
  txn t := (h2.txn t).trans (h1.txn t)
  active := h2.active.trans h1.active
  next := h2.next.trans h1.next
  staged := h2.staged.trans h1.staged
  finished := h2.finished.trans h1.finished
  gids := h2.gids.trans h1.gids
  maxPrepared := h2.maxPrepared.trans h1.maxPrepared

lemma Quiet.setHolders (e : Engine) (id : LockId) (holders : LockHolders) :
    e.Quiet { e with txns := e.txns.setHolders id holders } :=
  ⟨fun _ => rfl, rfl, rfl, rfl, rfl, fun _ => rfl, rfl, rfl, rfl, rfl, rfl, rfl⟩

lemma Quiet.modifyLocks (e : Engine) (txn : TxnId) (f : TxnState → TxnState)
    (hf : ∀ s, (f s).sansLocks = s.sansLocks) :
    e.Quiet { e with txns := e.txns.modifyTxn txn f } := by
  refine ⟨fun _ => rfl, rfl, rfl, rfl, rfl, ?_, rfl, rfl, rfl, rfl, rfl, rfl⟩
  exact fun _ => map_get?_modify_self hf ..

variable {txn : TxnId} {exclusive : Bool}

/-- The lock was held in a sufficient mode, was upgraded by its only holder, or is new to the
transaction and compatible with its holders. -/
lemma acquireLock_ok {id : LockId} {d d' : TxnDomain}
    (hok : d.acquireLock txn id exclusive = .ok d') :
    ((d.locks id).get? txn).isSome ∧ d' = d ∨
      ((d.locks id).get? txn = some false ∧ (d.locks id).keys.length = 1 ∧
        d' = d.setHolders id ((d.locks id).insert txn true)) ∨
      ((d.locks id).get? txn = none ∧
        (∀ t m, (d.locks id).get? t = some m → exclusive = false ∧ m = false) ∧
        d' = (d.setHolders id ((d.locks id).insert txn exclusive)).modifyTxn txn
          fun s => { s with locks := id :: s.locks }) := by
  unfold acquireLock at hok
  split at hok
  case isTrue => cases hok
  dsimp only at hok
  split at hok
  case h_1 m hm =>
    cases m with
    | true =>
      cases hok
      exact .inl ⟨by rw [hm]; rfl, rfl⟩
    | false =>
      split at hok
      case isTrue =>
        cases hok
        exact .inl ⟨by rw [hm]; rfl, rfl⟩
      case isFalse =>
        split at hok
        case isTrue hlen =>
          cases hok
          exact .inr (.inl ⟨hm, hlen, rfl⟩)
        case isFalse => cases hok
  case h_2 hnone =>
    generalize hc : (if exclusive = true then _ else _) = compatible at hok
    split at hok
    case isFalse => cases hok
    case isTrue hcompat =>
      subst hc
      cases hok
      refine .inr (.inr ⟨hnone, fun t m hm => ?_, rfl⟩)
      cases exclusive with
      | true =>
        have hkey : t ∈ (d.locks id).keys := mem_keys.mpr (by rw [hm]; rfl)
        rw [if_pos rfl, List.isEmpty_iff] at hcompat
        rw [hcompat] at hkey
        cases hkey
      | false =>
        rw [if_neg Bool.false_ne_true, List.all_eq_true] at hcompat
        have hshared := hcompat m (mem_values.mpr ⟨t, hm⟩)
        exact ⟨rfl, by simpa using hshared⟩

lemma Quiet.acquireLock {id : LockId} {d : TxnDomain}
    (hok : e.txns.acquireLock txn id exclusive = .ok d) : e.Quiet { e with txns := d } := by
  rcases acquireLock_ok hok with ⟨-, rfl⟩ | ⟨-, -, rfl⟩ | ⟨-, -, rfl⟩
  · exact Quiet.refl e
  · exact Quiet.setHolders e id _
  · exact (Quiet.setHolders e id _).trans (Quiet.modifyLocks _ txn _ fun _ => rfl)

lemma acquireLock_open {d d' : TxnDomain} {id : LockId}
    (hok : d.acquireLock txn id exclusive = .ok d') : ∃ s, d.txns.get? txn = some s := by
  unfold acquireLock at hok
  split at hok
  · cases hok
  · rename_i hopen
    exact get?_of_contains hopen

lemma Quiet.open_iff (hq : e.Quiet e') (txn : TxnId) :
    (∃ s, e'.txns.txns.get? txn = some s) ↔ ∃ s, e.txns.txns.get? txn = some s := by
  have hsome : (e'.txns.txns.get? txn).isSome = (e.txns.txns.get? txn).isSome := by
    rw [← isSome_map (f := TxnState.sansLocks), hq.txn, isSome_map]
  rw [← isSome_iff_exists, ← isSome_iff_exists, hsome]

variable {table : TableId} {e₁ : Engine} {r : Except Error Unit}

lemma Quiet.lockUnder {id : LockId} (hlock : e.lockUnder txn table id exclusive = (e₁, r)) :
    e.Quiet e₁ ∧ (r = .ok () → ∃ s, e.txns.txns.get? txn = some s) := by
  unfold Engine.lockUnder at hlock
  split at hlock
  · cases hlock
    exact ⟨Quiet.refl e, nofun⟩
  rename_i hopen
  split at hlock
  · cases hlock
    exact ⟨Quiet.refl e, nofun⟩
  rename_i d hd
  have hq : e.Quiet { e with txns := d } := Quiet.acquireLock hd
  split at hlock
  · cases hlock
    exact ⟨hq, fun _ => get?_of_contains hopen⟩
  rename_i d' hd'
  cases hlock
  exact ⟨hq.trans (Quiet.acquireLock (e := { e with txns := d }) hd'),
    fun _ => get?_of_contains hopen⟩

lemma lockRowCurrent_fst (e : Engine) (txn : TxnId) (table : TableId) (tid : Tid)
    (exclusive : Bool) :
    (e.lockRowCurrent txn table tid exclusive).1 = (e.lockRow txn table tid exclusive).1 := by
  unfold lockRowCurrent lockRow
  obtain ⟨e₁, r⟩ := e.lockUnder txn table (rowLock table tid) exclusive
  cases r with
  | error err => rfl
  | ok =>
    dsimp only
    split
    · rfl
    split
    · rfl
    split
    · rfl
    split
    · rfl
    split <;> rfl

lemma Quiet.touch (e : Engine) (table : TableId) : e.Quiet (e.writeRows table id) := by
  refine ⟨?_, rfl, rfl, rfl, rfl, fun _ => rfl, rfl, rfl, rfl, rfl, rfl, rfl⟩
  apply map_get?_modify_self
  exact fun _ => rfl

/-! ## Every call has one of the effects

Each proof goes through the checks of its call in the order of the source: a failed check is a quiet
effect, and what the passed ones found is handed to the effect.
-/

/-- The call `op`, as `Engine.step` runs it, has one of the effects. -/
def HasEffect (e : Engine) (op : Op) : Prop := Effect e op (e.step op).2 (e.step op).1

/-- A write starts by locking its row and making the table its own. -/
lemma Quiet.lockRow_touch {tid : Tid} (hlock : e.lockRow txn table tid true = (e₁, .ok ())) :
    e.Quiet (e₁.writeRows table id) ∧
      ∃ s, (e₁.writeRows table id).txns.txns.get? txn = some s := by
  obtain ⟨hq, hopen⟩ := Quiet.lockUnder hlock
  exact ⟨hq.trans (Quiet.touch e₁ table), (hq.open_iff txn).mpr (hopen rfl)⟩

variable (e txn table)

lemma insert_effect (tuple : Tuple) : e.HasEffect (.insert txn table tuple) := by
  simp only [HasEffect, step, insert]
  split
  · exact .still fun _ => rfl
  split
  · exact .still fun _ => rfl
  rename_i t ht
  split
  · exact .still fun _ => rfl
  split
  · exact .still fun _ => rfl
  rename_i d hd
  have hq : e.Quiet { e with txns := d } := Quiet.acquireLock hd
  obtain ⟨s, hs⟩ := (hq.open_iff txn).mpr (acquireLock_open hd)
  have heff : Effect e (.insert txn table tuple) _ _ := .insert hq hs ht
  unfold putInsert modifyTable at heff
  rw [← insert_eq_modify ht] at heff
  exact heff

lemma insertBatch_effect (tuples : List Tuple) : e.HasEffect (.insertBatch txn table tuples) := by
  simp only [HasEffect, step, insertBatch]
  split
  · exact .still fun _ => rfl
  split
  · exact .still fun _ => rfl
  split
  · exact .still fun _ => rfl
  rename_i t ht
  split
  · exact .still fun _ => rfl
  split
  · exact .still fun _ => rfl
  rename_i d hd
  have hq : e.Quiet { e with txns := d } := Quiet.acquireLock hd
  obtain ⟨s, hs⟩ := (hq.open_iff txn).mpr (acquireLock_open hd)
  have heff : Effect e (.insertBatch txn table tuples) _ _ := .insertBatch hq hs ht
  unfold putBatch modifyTable at heff
  rw [← insert_eq_modify ht] at heff
  exact heff

lemma update_effect (tid : Tid) (tuple : Tuple) : e.HasEffect (.update txn table tid tuple) := by
  simp only [HasEffect, step, update]
  split
  · exact .still fun _ => rfl
  split
  · exact .still fun _ => rfl
  split
  · rename_i e₁ err hlock
    exact .quiet (Quiet.lockUnder hlock).1 fun _ => rfl
  rename_i e₁ hlock
  obtain ⟨hq, s, hs⟩ := Quiet.lockRow_touch hlock
  split
  · exact .quiet hq fun _ => rfl
  rename_i old hold
  split
  · exact .quiet hq fun _ => rfl
  · rename_i hadm
    exact .update hq hs hold hadm

lemma delete_effect (tid : Tid) : e.HasEffect (.delete txn table tid) := by
  simp only [HasEffect, step, delete]
  split
  · exact .still fun _ => rfl
  split
  · rename_i e₁ err hlock
    exact .quiet (Quiet.lockUnder hlock).1 fun _ => rfl
  rename_i e₁ hlock
  obtain ⟨hq, s, hs⟩ := Quiet.lockRow_touch hlock
  split
  · exact .quiet hq fun _ => rfl
  rename_i old hold
  split
  · exact .quiet hq fun _ => rfl
  · rename_i hadm
    exact .delete hq hs hold hadm

lemma scan_effect : e.HasEffect (.scan txn table) := by
  simp only [HasEffect, step, scan]
  split
  · exact .still fun _ => rfl
  rename_i t ht
  split
  · exact .still fun _ => rfl
  rename_i s hs
  split
  · rename_i hlevel
    exact .scan ht hs hlevel
  · exact .still fun _ => rfl

lemma indexScan_effect (index : IndexId) (lo hi : Bound) (backward : Bool) (limit : Option Nat) :
    e.HasEffect (.indexScan txn index lo hi backward limit) := by
  simp only [HasEffect, step, indexScan]
  split
  · exact .still fun _ => rfl
  split
  · exact .still fun _ => rfl
  split
  · exact .still fun _ => rfl
  rename_i s hs
  split
  · exact .indexScan _ hs
  · exact .still fun _ => rfl

variable (name : String)

lemma savepoint_effect : e.HasEffect (.savepoint txn name) := by
  simp only [HasEffect, step, savepoint]
  split
  · exact .still fun _ => rfl
  · rename_i s hs
    exact .savepoint hs

lemma releaseSavepoint_effect : e.HasEffect (.releaseSavepoint txn name) := by
  simp only [HasEffect, step, releaseSavepoint]
  split
  · exact .still fun _ => rfl
  rename_i s hs
  split
  · exact .still fun _ => rfl
  · rename_i p older hdrop
    have hsame : (e.txns.modifyTxn txn fun t => { t with savepoints := older }) =
        e.txns.modifyTxn txn (TxnState.release name) := by
      refine e.txns.modifyTxn_congr hs ?_
      unfold TxnState.release
      rw [hdrop]
      rfl
    rw [hsame]
    exact .releaseSavepoint hs

lemma fst_of_dropWhile {marks older : List (String × Nat)} {name : String} {p : String × Nat}
    (hdrop : marks.dropWhile (·.1 ≠ name) = p :: older) : p.1 = name := by
  have hhead := List.head?_dropWhile_not (fun q : String × Nat => decide (q.1 ≠ name)) marks
  rw [hdrop] at hhead
  simpa using hhead

lemma rollbackTo_effect : e.HasEffect (.rollbackTo txn name) := by
  simp only [HasEffect, step, rollbackTo]
  split
  · exact .still fun _ => rfl
  rename_i s hs
  split
  · exact .still fun _ => rfl
  rename_i n mark older hdrop
  obtain rfl : n = name := fst_of_dropWhile hdrop
  have hsame : (e.txns.modifyTxn txn fun t => { t with
      savepoints := (n, mark) :: older
      undo := t.undo.drop (t.undo.length - mark) }) =
      e.txns.modifyTxn txn (TxnState.backTo n mark) := by
    refine e.txns.modifyTxn_congr hs ?_
    unfold TxnState.backTo
    rw [hdrop]
  rw [hsame]
  exact .rollbackTo hs hdrop

lemma bump_nil (versions : TableId → Nat) : bump versions [] = versions := by
  funext table
  simp [bump]

variable {e txn} in
/-- With nothing written, a full commit comes to the short one of the source. -/
lemma finish_of_nil {s : TxnState} (hs : e.txns.txns.get? txn = some s) (hundo : s.undo = []) :
    e.finish txn s.undo = { e with txns := e.txns.finishCommit txn } := by
  have htouched : ∀ d : TxnDomain, d.txns = e.txns.txns → d.touchedTables txn = [] := by
    intro d hd
    simp [touchedTables, hd, hs, hundo]
  unfold finish publishCommit bumpFinishedVersions
    bumpStagedVersions
  rw [htouched _ rfl, bump_nil, htouched _ rfl, bump_nil, hundo]
  simp

lemma commit_effect : e.HasEffect (.commit txn) := by
  simp only [HasEffect, step, commit]
  split
  · exact .still fun _ => rfl
  rename_i s hs
  split
  · exact .still fun _ => rfl
  rename_i hprep
  have hprepared : s.prepared = none := by simpa using hprep
  split
  · exact .abort (Quiet.refl e) hs hprepared fun _ => rfl
  rename_i hconf
  have hclean : e.serializableReadConflict txn = false := by simpa using hconf
  have heff := Effect.commit hs hprepared hclean
  split
  · rename_i hundo
    rw [finish_of_nil hs (List.isEmpty_iff.mp hundo)] at heff
    exact heff
  rename_i hundo
  unfold finish at heff
  rw [if_neg hundo] at heff
  exact heff

lemma rollback_effect : e.HasEffect (.rollback txn) := by
  simp only [HasEffect, step, rollback]
  split
  · exact .still fun _ => rfl
  rename_i s hs
  split
  · exact .still fun _ => rfl
  · rename_i hprep
    exact .abort (Quiet.refl e) hs (by simpa using hprep) fun _ => rfl

lemma finishPrepared_effect (gid : String) (owner : Option String) (commit : Bool) :
    e.HasEffect (.finishPrepared gid owner commit) := by
  simp only [HasEffect, step, finishPrepared]
  split
  · exact .still fun _ => rfl
  rename_i txn hgid
  split
  · exact .still fun _ => rfl
  · exact .finishPrepared hgid

variable {err : Error} {e txn table}

/-- A refused prepare aborts; only the two errors it is told from here leave the transaction open.
-/
lemma prepareRefusal_ne {gid : String} (hrefusal : e.prepareRefusal gid = some err) (txn : TxnId) :
    err ≠ unknownTxn txn ∧ err ≠ isPrepared txn := by
  unfold prepareRefusal at hrefusal
  split at hrefusal
  · cases hrefusal
    exact ⟨nofun, nofun⟩
  split at hrefusal
  · cases hrefusal
    exact ⟨nofun, nofun⟩
  split at hrefusal
  · cases hrefusal
    refine ⟨nofun, ?_⟩
    intro heq
    -- both are invalid input: the texts differ in their first letter
    have htext := (Error.io.inj heq).2
    have hletter := congrArg (fun text : String => text.toList.head?) htext
    rw [String.toList_append, String.toList_append] at hletter
    have hpt : some 'p' = some 't' := hletter
    exact absurd hpt (by decide)
  · split at hrefusal
    · cases hrefusal
      exact ⟨nofun, nofun⟩
    · cases hrefusal

lemma afterTuple_ne {later : List UndoOp} {row : RowId}
    (herr : e.afterTuple later table row = .error err) (txn : TxnId) :
    err ≠ unknownTxn txn ∧ err ≠ isPrepared txn := by
  unfold afterTuple at herr
  split at herr
  · cases herr
  · cases herr
  · cases herr
    exact ⟨nofun, nofun⟩
  split at herr
  · cases herr
    exact ⟨nofun, nofun⟩
  split at herr
  · cases herr
    exact ⟨nofun, nofun⟩
  · cases herr

lemma map_eq_error {α β : Type} {r : Except Error α} {f : α → β} (h : r.map f = .error err) :
    r = .error err := by
  cases r with
  | error e =>
    cases h
    rfl
  | ok a => cases h

lemma programFrom_ne {ops : List UndoOp} (herr : e.programFrom txn ops = .error err) :
    err ≠ unknownTxn txn ∧ err ≠ isPrepared txn := by
  induction ops with
  | nil => cases herr
  | cons op later ih =>
    unfold programFrom at herr
    split at herr
    · rename_i err' hrec
      cases herr
      -- only the tuple of an insert or update can be missing
      cases op <;> simp only [recordOf] at hrec
      case inserted | updated =>
        split at hrec
        · exact afterTuple_ne (map_eq_error hrec) txn
        · cases hrec
      all_goals cases hrec
    · exact ih (map_eq_error herr)

lemma record_prepare_refused (gid owner database : String)
    (hne : err ≠ unknownTxn txn ∧ err ≠ isPrepared txn) (h : History) :
    h.record (.prepareTxn txn gid owner database, .error err) = h.drop txn :=
  if_neg (not_or.mpr hne)

lemma prepareTxn_effect (e : Engine) (txn : TxnId) (gid owner database : String) :
    e.HasEffect (.prepareTxn txn gid owner database) := by
  simp only [HasEffect, step, prepareTxn]
  split
  · exact .still fun _ => if_pos (.inl rfl)
  rename_i s hs
  split
  · exact .still fun _ => if_pos (.inr rfl)
  rename_i hprep
  have hprepared : s.prepared = none := by simpa using hprep
  split
  · rename_i err hrefusal
    exact .abort (Quiet.refl e) hs hprepared
      (record_prepare_refused gid owner database (prepareRefusal_ne hrefusal txn))
  rename_i hrefusal
  split
  · exact .abort (Quiet.refl e) hs hprepared
      (record_prepare_refused gid owner database ⟨nofun, nofun⟩)
  rename_i hconf
  split
  · rename_i err hprogram
    refine .abort ?_ hs hprepared
      (record_prepare_refused gid owner database (programFrom_ne hprogram))
    exact ⟨fun _ => rfl, rfl, rfl, rfl, rfl, fun _ => rfl, rfl, rfl, rfl, rfl, rfl, rfl⟩
  rename_i program hprogram
  have hnew : e.txns.preparedGids.get? gid = none := by
    unfold prepareRefusal at hrefusal
    split at hrefusal
    · cases hrefusal
    split at hrefusal
    · cases hrefusal
    · rename_i hin
      simpa [contains] using hin
  let info : PreparedMeta := ⟨gid, owner, database, e.txns.nextPrepareSeq⟩
  have hfree : e.txns.preparedGids.get? info.gid = none := hnew
  exact .prepareTxn hs hprepared hfree (by simpa using hconf) hprogram

/-- **Every call has one of the effects.** -/
theorem step_effect (e : Engine) (op : Op) : Effect e op (e.step op).2 (e.step op).1 := by
  cases op with
  | begin level => exact .begin level
  | beginStatement txn => exact .beginStatement txn
  | insert txn table tuple => exact e.insert_effect txn table tuple
  | insertBatch txn table tuples => exact e.insertBatch_effect txn table tuples
  | update txn table tid tuple => exact e.update_effect txn table tid tuple
  | delete txn table tid => exact e.delete_effect txn table tid
  | scan txn table => exact e.scan_effect txn table
  | scanCommitted | indexScanCommitted => exact .still fun _ => rfl
  | indexInsert txn index key tid => exact .indexInsert
  | indexInsertBatch txn index entries => exact .indexInsertBatch
  | indexDelete txn index key tid => exact .indexDelete
  | indexScan txn index lo hi backward limit =>
    exact e.indexScan_effect txn index lo hi backward limit
  | savepoint txn name => exact e.savepoint_effect txn name
  | rollbackTo txn name => exact e.rollbackTo_effect txn name
  | releaseSavepoint txn name => exact e.releaseSavepoint_effect txn name
  | commit txn => exact e.commit_effect txn
  | rollback txn => exact e.rollback_effect txn
  | prepareTxn txn gid owner database => exact e.prepareTxn_effect txn gid owner database
  | finishPrepared gid owner commit => exact e.finishPrepared_effect gid owner commit
  | lockRow | lockKey => exact .quiet (Quiet.lockUnder rfl).1 fun _ => rfl
  | lockRowCurrent txn table tid exclusive =>
    refine .quiet ?_ fun _ => rfl
    simp only [step, lockRowCurrent_fst]
    exact (Quiet.lockUnder rfl).1
  | lockTable txn table exclusive =>
    refine .quiet ?_ fun _ => rfl
    simp only [step, lockTable]
    split
    · exact Quiet.refl e
    split
    · rename_i d hd
      exact Quiet.acquireLock hd
    · exact Quiet.refl e
  | purgeStart => exact .purgeStart
  | purgeStep pass pressure => exact .purgeStep pass pressure

end Engine

end NusaDb
