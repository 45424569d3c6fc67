import NusaDb.Btree.Commit

/-!
# Purge

A pass takes a settlement snapshot, sweeps each table's rows in batches, then that table's indexes,
and frees the orphaned slots at the end. `purgeStep` runs one critical section; several passes may
be under way. `pressure` says whether changed pages fill the page cache when the pass checks.
-/

namespace NusaDb

/-- Whether the snapshot vouches for a stamp: minted before the horizon, not active, and seen by
every pinned view. -/
def PurgeSnapshot.settled (s : PurgeSnapshot) (x : TxnId) : Bool :=
  decide (x < s.horizon) && !s.active.contains x && s.pinned.all fun v => v.sees x

namespace UndoDomain

/-- Free the chain from slot `i` down. Each round empties an occupied slot, so the arena's length
bounds the rounds. -/
def freeChainLoop : Nat → UndoDomain → Option Nat → UndoDomain
  | 0, u, _ => u
  | _ + 1, u, none => u
  | fuel + 1, u, some i =>
    match u.arena.slot i with
    | none => u
    | some v =>
      freeChainLoop fuel { u with arena := u.arena.set i none, free := i :: u.free } v.header.undo

def freeChain (u : UndoDomain) (i : Option Nat) : UndoDomain :=
  freeChainLoop u.arena.length u i

/-- Free one orphaned slot if its abort is settled; keep it queued otherwise. -/
def purgeOrphan (settled : TxnId → Bool) (u : UndoDomain) (orphan : Nat × TxnId) : UndoDomain :=
  if settled orphan.2 then
    match u.arena.slot orphan.1 with
    | none => u
    | some _ => { u with arena := u.arena.set orphan.1 none, free := orphan.1 :: u.free }
  else u.pushOrphan orphan.1 orphan.2

def purgeOrphans (u : UndoDomain) (settled : TxnId → Bool) : UndoDomain :=
  u.orphans.foldl (purgeOrphan settled) { u with orphans := [] }

end UndoDomain

namespace Engine

def purgeRowBatch : Nat := 4096

def purgeSnapshot (e : Engine) : PurgeSnapshot :=
  { pinned := e.txns.txns.values.map fun t => t.pinned
    active := e.txns.active
    horizon := e.txns.nextTxnId }

/-- Reclaim what one row offers, `header` being its header when the batch was read: the row once its
delete is settled, or the history below a settled version. -/
def purgeRow (settled : TxnId → Bool) (table : TableId) (e : Engine) (row : RowId)
    (header : RowMeta) : Engine :=
  if header.xmax ≠ noXmax ∧ settled header.xmax then
    { e with reclaim := e.reclaim.freeChain header.undo }.modifyTable table fun t =>
      { t with rows := t.rows.erase row }
  else if header.undo ≠ none ∧ settled header.xmin then
    { e with reclaim := e.reclaim.freeChain header.undo }.modifyTable table fun t =>
      { t with rows := t.rows.modify row fun v =>
          { v with header := { header with undo := none } } }
  else e

def purgeRemoves (settled : TxnId → Bool) (header : RowMeta) : Bool :=
  header.xmax != noXmax && settled header.xmax

/-- Whether a later pass has work on this row: a delete or an older version some view may need. -/
def purgeLeaves (settled : TxnId → Bool) (header : RowMeta) : Bool :=
  (header.xmax != noXmax && !settled header.xmax) ||
    (header.xmax == noXmax && header.undo.isSome && !settled header.xmin)

def purgeBatch (t : Table) (cursor : RowId) : List (RowId × Version) :=
  (t.rows.toList.filter fun p => decide (cursor ≤ p.1)).take purgeRowBatch

def indexesOf (e : Engine) (table : TableId) : List IndexId :=
  (e.indexes.toList.filter fun i => decide (i.2.table = table)).map Prod.fst

def purgeRows (settled : TxnId → Bool) (table : TableId) (e : Engine)
    (batch : List (RowId × Version)) : Engine :=
  batch.foldl (fun e p => purgeRow settled table e p.1 p.2.header) e

/-- One critical section of a pass: the next state and where the pass stands then, or `none` when
it is over. -/
def purgeAdvance (e : Engine) (s : PurgeSnapshot) (pressure : Bool) :
    PurgePhase → Engine × Option PurgePhase
  | .tables [] => (e, some .orphans)
  | .tables (table :: todo) =>
    if pressure then (e, some .orphans)
    else
      match e.tables.get? table with
      | none => (e, some (.tables todo))
      | some t =>
        -- Rows unchanged since a sweep that left nothing are not read again.
        if t.purgeCleanGen = some t.purgeGen then
          (e, some (.index table todo [] (e.indexesOf table) false))
        else (e, some (.sweep table todo t.purgeGen false 0 []))
  | .sweep table todo sweptGen leftForLater cursor removed =>
    if pressure then (e, some (.index table todo removed (e.indexesOf table) true))
    else
      match e.tables.get? table with
      | none => (e, some (.tables todo))
      | some t =>
        let batch := purgeBatch t cursor
        let left := leftForLater || batch.any fun p => purgeLeaves s.settled p.2.header
        let gone := (batch.filter fun p => purgeRemoves s.settled p.2.header).map Prod.fst
        let e := purgeRows s.settled table e batch
        if batch.length < purgeRowBatch then
          (if left then e else e.modifyTable table fun t => { t with purgeCleanGen := some sweptGen },
            some (.index table todo (gone ++ removed) (e.indexesOf table) false))
        else
          match batch.getLast? with
          | some last => (e, some (.sweep table todo sweptGen left (last.1 + 1) (gone ++ removed)))
          | none => (e, some (.index table todo (gone ++ removed) (e.indexesOf table) false))
  | .index table todo removed (index :: rest) yielding =>
    (e.modifyIndex index fun data => data.purge removed s.settled,
      some (.index table todo removed rest yielding))
  | .index _ todo _ [] yielding =>
    if yielding || pressure then (e, some .orphans) else (e, some (.tables todo))
  | .orphans => ({ e with reclaim := e.reclaim.purgeOrphans s.settled }, none)

def purgeStart (e : Engine) : Engine × Nat :=
  ({ e with
      passes := e.passes.insert e.nextPass ⟨e.purgeSnapshot, .tables e.tables.keys⟩
      nextPass := e.nextPass + 1 },
    e.nextPass)

def purgeStep (e : Engine) (pass : Nat) (pressure : Bool) : Engine :=
  match e.passes.get? pass with
  | none => e
  | some p =>
    match e.purgeAdvance p.snapshot pressure p.phase with
    | (e, none) => { e with passes := e.passes.erase pass }
    | (e, some phase) => { e with passes := e.passes.insert pass { p with phase := phase } }

end Engine

end NusaDb
