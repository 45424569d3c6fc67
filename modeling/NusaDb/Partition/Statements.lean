import NusaDb.Partition.Attach

/-!
# Statements over partitioned tables

The statements that change partitions or write rows (`executor/ddl.rs`, `executor/dml.rs`). One that
fails is undone as a whole. What a statement meets is an argument of it: the stored rows an upsert
conflicts with, the matches of an `UPDATE` with their new images, and what the row triggers make of
a row. A row is named by its table and its position there.

Triggers come in at three points. `BEFORE UPDATE` triggers run before the bound of the new image is
checked, so the images given here are what they left. `BEFORE INSERT` triggers run in the leaf,
after the row has been routed there, and nothing looks at the bound again. A `BEFORE DELETE` trigger
may keep a row from moving.
-/

namespace NusaDb.Partition

open NusaDb.Sql

inductive OnConflict (F O : Type) where
  /-- No row holds the key: the proposed row is inserted. -/
  | none
  /-- `DO NOTHING`, or a `DO UPDATE` whose `WHERE` does not hold. -/
  | nothing
  /-- `DO UPDATE` of the row at this place. -/
  | update (leaf : String) (index : Nat) (row : Row F O)

/-- The row triggers of a statement, by table and position: the row as the `BEFORE INSERT` triggers
leave it (`none` skips it), and whether a `BEFORE DELETE` trigger skips a row that is to move. -/
structure RowTriggers (F O : Type) where
  beforeInsert : String → Nat → Row F O → Option (Row F O)
  beforeDelete : String → Nat → Bool

/-- No trigger. -/
def RowTriggers.silent {F O : Type} : RowTriggers F O where
  beforeInsert := fun _ _ row => some row
  beforeDelete := fun _ _ => false

structure Change (F O : Type) where
  leaf : String
  index : Nat
  row : Row F O

inductive Statement (F O T : Type) where
  /-- `CREATE TABLE name .. [PARTITION BY ..]` -/
  | createTable (name : String) (partitionBy : Option (Key T × Strategy))
  /-- `CREATE TABLE name PARTITION OF parent .. [PARTITION BY ..]` -/
  | createPartition (name parent : String) (bound : PartitionBound (SqlValue F O))
      (partitionBy : Option (Key T × Strategy))
  | attachPartition (parent partition : String) (bound : PartitionBound (SqlValue F O))
  | detachPartition (parent partition : String)
  /-- `INSERT`, with what `ON CONFLICT` finds for each row of a leaf's bucket. -/
  | insert (table : String) (rows : List (Row F O)) (conflicts : String → Nat → OnConflict F O)
      (triggers : RowTriggers F O)
  /-- `UPDATE`, of a parent or of a table itself. -/
  | update (viaParent : Bool) (changes : List (Change F O)) (triggers : RowTriggers F O)
  /-- `MERGE INTO table`: the deleted rows, the updated rows and the inserted ones. -/
  | merge (table : String) (deletes : List Nat) (updates : List (Nat × Row F O))
      (inserts : List (Row F O)) (triggers : RowTriggers F O)
  /-- The referential actions that a write on a referenced table has on this one. -/
  | referentialActions (changes : List (Change F O))
  | delete (rows : List (String × Nat))

inductive StatementError where
  | tableExists (name : String)
  | tableNotFound (name : String)
  | register (error : RegisterError)
  | attach (error : AttachError)
  | route (error : RouteError)
  /-- The error of a key on the way up from a table. -/
  | key
  /-- "table .. is already a partition of .." -/
  | alreadyPartition (partition parent : String)
  /-- "a table cannot be attached as a partition of itself" -/
  | itself
  /-- "attaching .. under .. would create a partition cycle" -/
  | cycle (partition parent : String)
  /-- "table .. is not a partition of .." -/
  | notPartitionOf (partition parent : String)
  /-- "the inserted row does not belong to partition .." (`23514`) -/
  | notInPartition (table : String)
  /-- "new row for relation .. violates partition constraint" (`23514`) -/
  | leavesPartition (table : String)
  /-- "invalid ON CONFLICT DO UPDATE: the assignment would move the row out of partition .." -/
  | upsertMoves (table : String)
  /-- "MERGE into the partitioned table .. is not supported" (`0A000`) -/
  | mergeIntoPartitioned (table : String)
  | rowNotFound
deriving DecidableEq, Repr

abbrev Store (F O : Type) := String → List (Row F O)

namespace Store

variable {F O : Type} (store : Store F O)

def insert (table : String) (row : Row F O) : Store F O :=
  Function.update store table (store table ++ [row])

def update (table : String) (index : Nat) (row : Row F O) : Store F O :=
  Function.update store table ((store table).set index row)

def delete (table : String) (index : Nat) : Store F O :=
  Function.update store table ((store table).eraseIdx index)

variable {store} {table t : String} {index : Nat} {row r : Row F O}

lemma mem_insert (h : r ∈ store.insert table row t) : r ∈ store t ∨ (t = table ∧ r = row) := by
  rw [insert, Function.update_apply] at h
  split at h
  next ht =>
    subst ht
    rcases List.mem_append.mp h with h | h
    · exact .inl h
    · exact .inr ⟨rfl, List.mem_singleton.mp h⟩
  next => exact .inl h

lemma mem_update (h : r ∈ store.update table index row t) :
    r ∈ store t ∨ (t = table ∧ r = row) := by
  rw [update, Function.update_apply] at h
  split at h
  next ht =>
    subst ht
    rcases List.mem_or_eq_of_mem_set h with h | h
    · exact .inl h
    · exact .inr ⟨rfl, h⟩
  next => exact .inl h

lemma mem_delete (h : r ∈ store.delete table index t) : r ∈ store t := by
  rw [delete, Function.update_apply] at h
  split at h
  next ht =>
    subst ht
    exact List.mem_of_mem_eraseIdx h
  next => exact h

end Store

/-- The partition catalog with the strategies of its parents, the tables and their rows. -/
structure State (F O T : Type) where
  catalog : Catalog F O T
  strategy : String → Strategy
  tables : List String
  rows : Store F O

variable {F O T : Type} (ly : Layout F O T)

def updateInPlace (store : Store F O) (change : Change F O) : Except StatementError (Store F O) :=
  if change.index < (store change.leaf).length then
    .ok (store.update change.leaf change.index change.row)
  else .error .rowNotFound

/-- What is left of an insert in its leaf: the triggers there and the write. -/
def insertInto (leaf : String) (i : Nat) (row : Row F O) (triggers : RowTriggers F O)
    (store : Store F O) : Store F O :=
  match triggers.beforeInsert leaf i row with
  | some row => store.insert leaf row
  | none => store

/-- `upsert_rows` and `insert_rows`, for one row of the bucket of `leaf`. -/
def insertRow (cat : Catalog F O T) (leaf : String) (triggers : RowTriggers F O) (i : Nat)
    (row : Row F O) (store : Store F O) : OnConflict F O → Except StatementError (Store F O)
  | .none => .ok (insertInto leaf i row triggers store)
  | .nothing => .ok store
  | .update holder index row =>
    match cat.boundViolation ly maxDepth holder row with
    | none => .error .key
    | some true => .error (.upsertMoves holder)
    | some false => updateInPlace store ⟨holder, index, row⟩

def insertBucket (cat : Catalog F O T) (leaf : String) (conflicts : Nat → OnConflict F O)
    (triggers : RowTriggers F O) :
    List (Row F O) → Nat → Store F O → Except StatementError (Store F O)
  | [], _, store => .ok store
  | row :: rows, i, store => do
    let store ← insertRow ly cat leaf triggers i row store (conflicts i)
    insertBucket cat leaf conflicts triggers rows (i + 1) store

def insertBuckets (cat : Catalog F O T) (conflicts : String → Nat → OnConflict F O)
    (triggers : RowTriggers F O) :
    Buckets F O → Store F O → Except StatementError (Store F O)
  | [], store => .ok store
  | (leaf, rows) :: buckets, store => do
    let store ← insertBucket ly cat leaf (conflicts leaf) triggers rows 0 store
    insertBuckets cat conflicts triggers buckets store

def insertTargets (cat : Catalog F O T) (table : String) (rows : List (Row F O)) :
    Except StatementError (Buckets F O) :=
  match cat.keys table with
  | some key => (cat.routeRowsToLeaves ly table key rows).mapError .route
  | none => .ok [(table, rows)]

def insertIntoPartitionTree (cat : Catalog F O T) (table : String) (rows : List (Row F O))
    (conflicts : String → Nat → OnConflict F O) (triggers : RowTriggers F O) (store : Store F O) :
    Except StatementError (Store F O) :=
  match rows.mapM (cat.boundViolation ly maxDepth table) with
  | none => .error .key
  | some outside =>
    if outside.contains true then .error (.notInPartition table)
    else do
      let buckets ← insertTargets ly cat table rows
      insertBuckets ly cat conflicts triggers buckets store

/-- `move_rows_across_partitions`, for one row: deleted here and inserted in the leaf that routing
from the topmost table finds. -/
def moveRow (cat : Catalog F O T) (triggers : RowTriggers F O) (store : Store F O)
    (change : Change F O) : Except StatementError (Store F O) :=
  if triggers.beforeDelete change.leaf change.index then .ok store
  else if change.index < (store change.leaf).length then do
    let root := cat.topmost cat.walkFuel change.leaf
    let leaf ← (cat.routeRowToLeaf ly maxDepth root change.row).mapError .route
    .ok (insertInto leaf change.index change.row triggers (store.delete change.leaf change.index))
  else .error .rowNotFound

/-- One row of `run_update`: in place, or moved where the statement came through a parent. -/
def updateRow (cat : Catalog F O T) (viaParent : Bool) (triggers : RowTriggers F O)
    (store : Store F O) (change : Change F O) : Except StatementError (Store F O) :=
  match cat.boundViolation ly maxDepth change.leaf change.row with
  | none => .error .key
  | some true =>
    if viaParent then moveRow ly cat triggers store change
    else .error (.leavesPartition change.leaf)
  | some false => updateInPlace store change

/-- `run_merge`: the deletes, then the updates in place, then the inserts. -/
def mergeInto (cat : Catalog F O T) (table : String) (deletes : List Nat)
    (updates : List (Nat × Row F O)) (inserts : List (Row F O)) (triggers : RowTriggers F O)
    (store : Store F O) : Except StatementError (Store F O) :=
  if (cat.keys table).isSome then .error (.mergeIntoPartitioned table)
  else do
    let store := deletes.foldl (fun store index => store.delete table index) store
    let store ← updates.foldlM (fun store u => updateInPlace store ⟨table, u.1, u.2⟩) store
    insertIntoPartitionTree ly cat table inserts (fun _ _ => .none) triggers store

namespace State

variable (s : State F O T)

def withTable (name : String) (partitionBy : Option (Key T × Strategy)) : State F O T :=
  { s with
    catalog := { s.catalog with
      keys := Function.update s.catalog.keys name (partitionBy.map Prod.fst) }
    strategy := match partitionBy with
      | some (_, strategy) => Function.update s.strategy name strategy
      | none => s.strategy
    tables := name :: s.tables }

def withPartition (parent name : String) (bound : PartitionBound (SqlValue F O)) :
    Except StatementError (State F O T) :=
  match registerPartition ly.toTypes s.catalog s.strategy parent name bound with
  | .error err => .error (.register err)
  | .ok entry => .ok { s with catalog := s.catalog.recordPartition entry }

def attachPartition (parent partition : String) (bound : PartitionBound (SqlValue F O)) :
    Except StatementError (State F O T) :=
  if parent ∉ s.tables then .error (.tableNotFound parent)
  else if partition ∉ s.tables then .error (.tableNotFound partition)
  else
    match s.catalog.entryOf partition with
    | some entry => .error (.alreadyPartition partition entry.parent)
    | none =>
      if partition = parent then .error .itself
      else if s.catalog.meetsAbove partition s.catalog.walkFuel parent then
        .error (.cycle partition parent)
      else do
        let s' ← s.withPartition ly parent partition bound
        (s'.catalog.validateAttachRows ly partition (s.rows partition) maxDepth partition
          parent).mapError .attach
        .ok s'

def detachPartition (parent partition : String) : Except StatementError (State F O T) :=
  match s.catalog.entryOf partition with
  | some entry =>
    if entry.parent = parent then
      .ok { s with catalog := s.catalog.removePartitionEntry partition }
    else .error (.notPartitionOf partition parent)
  | none => .error (.notPartitionOf partition parent)

def withRows (store : Store F O) : State F O T := { s with rows := store }

def execute : Statement F O T → Except StatementError (State F O T)
  | .createTable name partitionBy =>
    if name ∈ s.tables then .error (.tableExists name) else .ok (s.withTable name partitionBy)
  | .createPartition name parent bound partitionBy =>
    if name ∈ s.tables then .error (.tableExists name)
    else if parent ∉ s.tables then .error (.tableNotFound parent)
    else (s.withTable name partitionBy).withPartition ly parent name bound
  | .attachPartition parent partition bound => s.attachPartition ly parent partition bound
  | .detachPartition parent partition => s.detachPartition parent partition
  | .insert table rows conflicts triggers =>
    if table ∉ s.tables then .error (.tableNotFound table)
    else (insertIntoPartitionTree ly s.catalog table rows conflicts triggers s.rows).map s.withRows
  | .update viaParent changes triggers =>
    (changes.foldlM (updateRow ly s.catalog viaParent triggers) s.rows).map s.withRows
  | .merge table deletes updates inserts triggers =>
    if table ∉ s.tables then .error (.tableNotFound table)
    else (mergeInto ly s.catalog table deletes updates inserts triggers s.rows).map s.withRows
  | .referentialActions changes => (changes.foldlM updateInPlace s.rows).map s.withRows
  | .delete rows => .ok (s.withRows (rows.foldl (fun store r => store.delete r.1 r.2) s.rows))

def step (statement : Statement F O T) : State F O T :=
  match s.execute ly statement with
  | .ok s' => s'
  | .error _ => s

def run (s : State F O T) (statements : List (Statement F O T)) : State F O T :=
  statements.foldl (step ly) s

end State

def State.empty : State F O T where
  catalog := { keys := fun _ => none, partitions := [] }
  strategy := fun _ => .range
  tables := []
  rows := fun _ => []

end NusaDb.Partition
