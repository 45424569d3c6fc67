import NusaDb.Rollback.Points
import NusaDb.Rollback.Reads

/-!
# Rollback is exact
-/

namespace NusaDb

open Engine

/-- The histories of a run without the row and index calls that `txn` makes in its middle part. -/
def Engine.historiesWithout (e : Engine) (txn : TxnId) (pre mid post : List Op) : History × History :=
  let hk := e.histories (.init, .init) pre
  let hk := (e.run pre).1.historyBut (Op.writtenBy txn) hk mid
  (e.run (pre ++ mid)).1.histories hk post

/-- Every scan of an open transaction returns what the histories say: a table scan the visible rows
in row-id order, an index scan the positions whose entries are seen, in the order of the walk, with
their visible tuples. -/
structure ScansRead (ixs : IndexId → Prop) (e : Engine) (hk : History × History) : Prop where
  running : ∀ t, (e.txns.txns.get? t).isSome = (hk.1.running.get? t).isSome
  scan : ∀ reader table, (hk.1.running.get? reader).isSome → (e.tables.get? table).isSome →
    ∃ rows, (e.step (.scan reader table)).2 = .ok (.rows rows) ∧
      (rows.Pairwise fun a b => rowIdOf a.1 < rowIdOf b.1) ∧
      ∀ tid tuple, (tid, tuple) ∈ rows ↔
        tid = tidOf (rowIdOf tid) ∧ hk.1.visible reader (table, rowIdOf tid) = some tuple
  indexScan : ∀ reader index table, ixs index → e.indexTable index = some table →
    (hk.1.running.get? reader).isSome → (e.tables.get? table).isSome → ∀ lo hi backward,
      ∃ found, IndexReads hk.1 hk.2 reader index table lo hi backward found ∧
        ∀ limit, (e.step (.indexScan reader index lo hi backward limit)).2 =
          .ok (.rows (limited limit (found.map fun q => (tidOf q.1.row, q.2))))

variable {ixs : IndexId → Prop} {e : Engine} {h k : History} {txn : TxnId} {point : Point}

lemma Traced.scansRead (ht : Traced ixs e h k) : ScansRead ixs e (h, k) where
  running t := by
    have hcore := ht.inv.running t
    unfold core at hcore
    rwa [Option.isSome_map] at hcore
  scan _ _ hopen htable := ht.inv.scan_reads hopen htable
  indexScan _ _ _ hix htab hopen htable lo hi backward :=
    ht.keys.indexScan_reads ht.inv hix htab hopen htable lo hi backward

lemma Engine.undo_locks (e : Engine) (point : Point) (txn : TxnId) :
    LockMoves txn e.txns (e.step (point.undo txn)).1.txns := by
  cases point with
  | start => exact .rollback e txn
  | savepoint name => exact .rollbackTo e txn name

lemma Traced.locksKept (ht : Traced ixs e h k) (hlocks : e.LocksOk) {op : Op}
    (hset : point.SetBy txn op (e.step op).2) (mid : List Op)
    (hok : ((e.run (op :: mid)).1.step (point.undo txn)).2.isOk = true) :
    (e.step op).1.LocksKept txn ((e.run (op :: mid)).1.step (point.undo txn)).1 := by
  cases point with
  | start =>
    -- a transaction that begins holds nothing
    obtain ⟨⟨level, rfl⟩, hout⟩ := hset
    obtain rfl : e.txns.nextTxnId = txn := by
      cases hout
      rfl
    intro id held hheld
    have hlt := hlocks e.txns.nextTxnId id (by
      change e.lockOf e.txns.nextTxnId id = some held at hheld
      rw [hheld]
      rfl)
    exact absurd hlt (lt_irrefl _)
  | savepoint name =>
    obtain ⟨-, -, htxn⟩ := ht.beside hset
    have hinv := ht.inv.step op
    obtain ⟨s, hs, -⟩ := rollbackTo_ok hok
    have hopen : txn ∈ ((e.step op).1.run mid).1.txns.active :=
      (hinv.run mid).active_of_open txn (Option.isSome_iff_exists.mpr ⟨s, hs⟩)
    refine (hinv.locksKept_run htxn mid hopen).trans fun id held hheld => ⟨held, ?_, fun h => h⟩
    have hsame := rollbackTo_locks ((e.step op).1.run mid).1 txn name
    exact (congrArg (fun l => (l id).get? txn) hsame).trans hheld

/-- **Rollback is exact.** Let a transaction set a savepoint and go back to it, or begin and roll
back, in a run whose transactions touch index entries only of rows they have written. From then on
every scan returns what it should if the transaction's row and index calls in between had not
happened. Other transactions' locks are left alone, and the transaction has those it had. -/
theorem rollback_exact (hf : e.Fresh) (point : Point) (txn : TxnId) (pre mid post : List Op)
    (first : Op) (hset : point.SetBy txn first ((e.run pre).1.step first).2)
    (hreset : ∀ op ∈ mid, ¬point.ResetBy txn op)
    (hundo : ((e.run (pre ++ [first] ++ mid)).1.step (point.undo txn)).2.isOk = true)
    (hcovers : e.CoversKeysAll ixs .init (pre ++ [first] ++ mid ++ point.undo txn :: post)) :
    ScansRead ixs (e.run (pre ++ [first] ++ mid ++ point.undo txn :: post)).1
        (e.historiesWithout txn (pre ++ [first]) mid (point.undo txn :: post)) ∧
      (∀ t, t ≠ txn → ∀ id,
        (e.run (pre ++ [first] ++ mid ++ [point.undo txn])).1.lockOf t id =
          (e.run (pre ++ [first] ++ mid)).1.lockOf t id) ∧
      (e.run (pre ++ [first])).1.LocksKept txn
        (e.run (pre ++ [first] ++ mid ++ [point.undo txn])).1 := by
  have hpre := (coversKeysAll_append (k := .init) _ _ hcovers).1
  obtain ⟨hcpre, hcmid⟩ : e.CoversKeysAll ixs .init pre ∧
      (e.run pre).1.CoversKeysAll ixs (e.histories (.init, .init) pre).1 ([first] ++ mid) := by
    rw [List.append_assoc] at hpre
    exact coversKeysAll_append pre _ hpre
  have ht := (Traced.init hf).run pre hcpre
  have hmid : (e.run (pre ++ [first] ++ mid)).1 = ((e.run pre).1.run (first :: mid)).1 := by
    rw [List.append_assoc, run_append]
    rfl
  have hfirst : (e.run (pre ++ [first])).1 = ((e.run pre).1.step first).1 := run_append ..
  have hlast : (e.run (pre ++ [first] ++ mid ++ [point.undo txn])).1 =
      (((e.run pre).1.run (first :: mid)).1.step (point.undo txn)).1 := by
    rw [run_append, hmid]
    rfl
  rw [hmid] at hundo
  rw [hlast, hmid, hfirst]
  refine ⟨?_, fun t htxn id => ?_, ?_⟩
  · -- the histories of the run are those without the calls
    have hsame : e.historiesWithout txn (pre ++ [first]) mid (point.undo txn :: post) =
        e.histories (.init, .init) (pre ++ [first] ++ mid ++ point.undo txn :: post) := by
      have hone : e.histories (.init, .init) (pre ++ [first]) =
          (e.run pre).1.histories (e.histories (.init, .init) pre) [first] :=
        historyBut_append ..
      have hsplit : ∀ hk, (e.run (pre ++ [first] ++ mid)).1.histories hk (point.undo txn :: post) =
          ((e.run pre).1.run (first :: mid)).1.histories hk (point.undo txn :: post) := by
        intro hk
        rw [hmid]
      unfold Engine.historiesWithout
      rw [hsplit, hfirst, hone]
      refine (ht.erased_eq hset mid hcmid hreset hundo post).trans ?_
      unfold Engine.histories
      rw [historyBut_append _ _ _ (pre ++ [first] ++ mid), List.append_assoc pre,
        historyBut_append _ _ _ pre, ← List.append_assoc, hmid]
      rfl
    rw [hsame]
    exact ((Traced.init hf).run _ hcovers).scansRead
  · exact (undo_locks _ point txn).locks.1 t htxn id
  · exact ht.locksKept (((Inv.init hf).lockTable_run (.init hf) pre).locksOk ht.inv) hset mid hundo

/-- A row's key is moved after a savepoint, another transaction enters a row and commits, and a
purge pass runs, before the first goes back and commits. -/
theorem rollback_exact_moved_key :
    let pre : List Op :=
      [.begin .readCommitted, .insert 1 1 [7], .indexInsert 1 5 [7] (tidOf 0), .commit 1,
        .begin .readCommitted, .begin .readCommitted]
    let mid : List Op :=
      [.update 2 1 (tidOf 0) [8], .indexInsert 2 5 [8] (tidOf 0), .insert 3 1 [9],
        .indexInsert 3 5 [9] (tidOf 1), .commit 3, .purgeStart, .purgeStep 0 false, .purgeStep 0 false]
    let post : List Op := [.commit 2, .begin .readCommitted]
    let first : Op := .savepoint 2 "s"
    let undo : Op := .rollbackTo 2 "s"
    ScansRead (· = 5) (indexedEngine.run (pre ++ [first] ++ mid ++ undo :: post)).1
        (indexedEngine.historiesWithout 2 (pre ++ [first]) mid (undo :: post)) ∧
      (∀ t, t ≠ 2 → ∀ id, (indexedEngine.run (pre ++ [first] ++ mid ++ [undo])).1.lockOf t id =
        (indexedEngine.run (pre ++ [first] ++ mid)).1.lockOf t id) ∧
      (indexedEngine.run (pre ++ [first])).1.LocksKept 2
        (indexedEngine.run (pre ++ [first] ++ mid ++ [undo])).1 :=
  rollback_exact (create_fresh (by simp [Table.create]) (by simp [IndexState.create]))
    (.savepoint "s") 2 _ _ _ _ ⟨rfl, by decide +kernel⟩ (by simp [Point.ResetBy]) (by decide +kernel) (by decide +kernel)

/-- Two transactions enter keys for a row neither has written. The first goes back to its savepoint
and commits, the second rolls back and revives the first one's entry: a later index scan returns the
row, which it does not without the undone call. -/
theorem rollback_leaves_undone_entry :
    let pre : List Op :=
      [.begin .readCommitted, .insert 1 1 [7], .commit 1, .begin .readCommitted,
        .begin .readCommitted, .savepoint 2 "s"]
    let undone : Op := .indexInsert 2 5 [1] (tidOf 0)
    let post : List Op :=
      [.indexInsert 3 5 [2] (tidOf 0), .rollbackTo 2 "s", .rollback 3, .commit 2,
        .begin .readCommitted]
    let scan : Op := .indexScan 4 5 .unbounded .unbounded false none
    ((indexedEngine.run (pre ++ [undone] ++ post)).2.map Prod.snd).eraseIdx 6 =
        (indexedEngine.run (pre ++ post)).2.map Prod.snd ∧
      ((indexedEngine.run (pre ++ [undone] ++ post)).1.step scan).2 = .ok (.rows [(tidOf 0, [7])]) ∧
      ((indexedEngine.run (pre ++ post)).1.step scan).2 = .ok (.rows []) := by
  decide +kernel

end NusaDb
