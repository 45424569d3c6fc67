import NusaDb.Btree.EntryCalls
import NusaDb.Btree.Sweep

/-!
# Every call keeps the invariant

One lemma for each effect a call may have.
-/

namespace NusaDb

open List Option Function Engine OrdMap History TxnDomain

open History (Ver)

variable {e e' e1 : Engine} {h : History} {txn : TxnId} {s : TxnState} {table : TableId}
  {row : RowId} {S : Sight} {P : TxnId → Prop}

variable (hinv : Inv e h S P) (hs : e.txns.txns.get? txn = some s)

/-! ## Observations of the changed state -/

lemma Engine.Quiet.core (hq : e.Quiet e') : e'.core = e.core := by
  funext t
  have hsans : ∀ o : Option TxnState,
      o.map TxnState.core = (o.map TxnState.sansLocks).map TxnState.core := by
    intro o
    rw [Option.map_map]
    rfl
  unfold Engine.core
  rw [hsans, hq.txn, ← hsans]

lemma Engine.Quiet.leafAt (hq : e.Quiet e') : e'.leafAt = e.leafAt := by
  funext loc
  have hrows : ∀ o : Option Table, (o.bind fun t => t.rows.get? loc.2) =
      (o.map Table.content).bind fun c => c.2.1.get? loc.2 := by
    intro o
    cases o <;> rfl
  unfold Engine.leafAt Engine.leaf
  rw [hrows, hq.tables, ← hrows]

lemma Engine.Quiet.nextRow (hq : e.Quiet e') : e'.nextRow = e.nextRow := by
  funext table
  have hnext : ∀ o : Option Table, o.map Table.nextRowId =
      (o.map Table.content).map fun c => c.2.2 := by
    intro o
    rw [Option.map_map]
    rfl
  unfold Engine.nextRow
  rw [hnext, hq.tables, ← hnext]

lemma Engine.Quiet.same (hq : e.Quiet e') : e.Same e' where
  leaf := hq.leafAt
  reclaim := hq.reclaim
  core := hq.core
  active := hq.active
  next := hq.next
  gids := hq.gids
  nextRow := hq.nextRow
  passes id p hp := ⟨id, p, hq.passes ▸ hp, rfl⟩

include hs in
lemma Engine.core_of_get? : e.core txn = some s.core := by
  unfold core
  rw [hs]
  rfl

include hinv hs in
lemma Inv.opened : ∃ o, e.core txn = some s.core ∧ h.running.get? txn = some o := by
  have hc := core_of_get? hs
  obtain ⟨o, ho⟩ := hinv.running_of_core hc
  exact ⟨o, hc, ho⟩

include hs in
lemma Engine.core_modifyTxn (f : TxnState → TxnState) :
    core { e with txns := e.txns.modifyTxn txn f } =
      Function.update e.core txn (some (f s).core) := by
  funext t
  show ((e.txns.txns.modify txn f).get? t).map TxnState.core = _
  rw [get?_modify]
  by_cases ht : txn = t
  · subst ht
    rw [if_pos rfl, hs, update_self]
    rfl
  · rw [if_neg ht, update_of_ne (Ne.symm ht)]
    rfl

include hs in
lemma Engine.core_pushUndo (op : UndoOp) : (e.pushUndo txn op).core =
      Function.update e.core txn (some { s.core with undo := op :: s.core.undo }) :=
  core_modifyTxn hs _

lemma TxnDomain.releaseLocks_fields (d : TxnDomain) (txn : TxnId) (held : List LockId) :
    (d.releaseLocks txn held).txns = d.txns ∧ (d.releaseLocks txn held).active = d.active ∧
      (d.releaseLocks txn held).nextTxnId = d.nextTxnId ∧
      (d.releaseLocks txn held).preparedGids = d.preparedGids := by
  induction held generalizing d with
  | nil => exact ⟨rfl, rfl, rfl, rfl⟩
  | cons id held ih =>
    obtain ⟨htxns, hactive, hnext, hgids⟩ := ih (d.setHolders id ((d.locks id).erase txn))
    exact ⟨htxns, hactive, hnext, hgids⟩

lemma Engine.core_erase {d : TxnDomain} (hd : d.txns = e.txns.txns.erase txn)
    (he : e'.txns.txns = d.txns) : e'.core = Function.update e.core txn none := by
  funext t
  unfold core
  rw [he, hd, get?_erase]
  by_cases ht : txn = t
  · subst ht
    rw [if_pos rfl, update_self]
    rfl
  · rw [if_neg ht, update_of_ne (Ne.symm ht)]

lemma mem_filter_ne {active : List TxnId} (t : TxnId) :
    t ∈ active.filter (· ≠ txn) ↔ t ∈ active ∧ t ≠ txn := by
  rw [mem_filter, decide_eq_true_eq]

/-! ## Row writes -/

lemma Engine.table_of_leaf {v : Version} (hv : e.leaf table row = some v) :
    (e.tables.get? table).isSome := by
  cases ht : e.tables.get? table with
  | none => rw [leaf, ht] at hv; cases hv
  | some t => rfl

variable {n : RowId}

lemma Inv.row_lt (hinv : Inv e h S P) {v : Version} (hv : e.leafAt (table, row) = some v)
    (hn : e.nextRow table = some n) : row < n := by
  by_contra hle
  have hnil := hinv.fresh table n row hn (Nat.le_of_not_lt hle)
  obtain ⟨slots, hstore⟩ := hinv.store
  have hnone := (hstore.leaf_none_of_vers_nil hnil).1
  rw [hv] at hnone
  cases hnone

lemma Inv.not_writes_of_nil (hinv : Inv e h S P) {loc : Loc} (hnil : h.versions loc = []) :
    ∀ t o, h.running.get? t = some o → ¬Writes o.writes loc := by
  intro t o ho hw
  have hv := versions_eq_of_sole ho (hinv.sole ho hw)
  rw [hnil] at hv
  exact writes_iff_filter.mp hw (map_eq_nil_iff.mp (append_eq_nil_iff.mp hv.symm).1)

include hinv hs in
lemma Inv.stored_insertAt (tuple : Tuple)
    (hnil : h.versions (table, row) = []) (hcore : e'.core = update e.core txn
      (some { s.core with undo := .inserted table row :: s.core.undo })) (hleaf : e'.leafAt =
      update e.leafAt (table, row) (some ⟨RowMeta.fresh txn, tuple⟩))
    (hreclaim : e'.reclaim = e.reclaim) :
    e'.Stored P (h.write txn ⟨(table, row), some tuple⟩) := by
  obtain ⟨o, hc, ho⟩ := hinv.opened hs
  have hnone := hinv.not_writes_of_nil hnil
  have hnopend : e.pendAt txn (table, row) = [] := by
    by_contra hne
    rw [pendAt_of_core hc] at hne
    exact hnone txn o ho (((hinv.txn txn _ o hc ho).opsAt_ne_nil_iff _).mp hne)
  have hpend := pendAt_push hc
    (show (UndoOp.inserted table row).rowOf = some (table, row) from rfl) hcore
  rw [hnopend] at hpend
  have hvers : (h.write txn ⟨(table, row), some tuple⟩).versions =
      update h.versions (table, row) [⟨txn, some tuple⟩] := by
    rw [versions_write ho fun t' o' ho' _ => hnone t' o' ho', hnil]
  obtain ⟨slots, hst⟩ := hinv.store
  refine ⟨slots, ?_⟩
  rw [hvers, hleaf, hreclaim]
  exact hst.insertRow hnil (hinv.open_not_settled hc) tuple hpend

include hinv hs in
lemma Inv.insertAt (tuple : Tuple) (hnil : h.versions (table, row) = [])
    (hm : e.CoreMove txn { s.core with undo := .inserted table row :: s.core.undo } e')
    (hgids : e'.txns.preparedGids = e.txns.preparedGids)
    (hleaf : e'.leafAt =
      update e.leafAt (table, row) (some ⟨RowMeta.fresh txn, tuple⟩))
    (hreclaim : e'.reclaim = e.reclaim)
    (hrow : ∀ table' n', e'.nextRow table' = some n' →
      ∃ n, e.nextRow table' = some n ∧ n ≤ n' ∧ (table = table' → row < n')) :
    Inv e' (h.write txn ⟨(table, row), some tuple⟩) S P := by
  obtain ⟨o, hc, ho⟩ := hinv.opened hs
  have hcommitted : h.committed (table, row) = [] := (append_eq_nil_iff.mp hnil).2
  refine hinv.write hc ho hgids (show (UndoOp.inserted table row).rowOf = _ from rfl) hm
    (fun t' o' ho' _ => hinv.not_writes_of_nil hnil t' o' ho') ?_
    (hinv.stored_insertAt hs tuple hnil hm.core hleaf hreclaim) hrow
  intro i k hk hw
  have hmem : k ∈ h.commits.reverse := mem_reverse.mpr (mem_of_getElem? hk)
  have hno := flatMap_eq_nil_iff.mp hcommitted k hmem
  exact absurd (map_eq_nil_iff.mp hno) (writes_iff_filter.mp hw)

variable {t : Table}

lemma Engine.nextRow_of_table (ht : e.tables.get? table = some t) :
    e.nextRow table = some t.nextRowId := by
  unfold nextRow
  rw [ht]
  rfl

lemma Engine.nextRow_raise (ht : e.tables.get? table = some t) {f : Table → Table}
    (hf : (f t).nextRowId = n) (table' : TableId) :
    (e.modifyTable table f).nextRow table' = if table = table' then some n else e.nextRow table' := by
  unfold nextRow modifyTable
  rw [get?_modify]
  by_cases htab : table = table'
  · subst htab
    rw [if_pos rfl, if_pos rfl, ht]
    exact congrArg some hf
  · rw [if_neg htab, if_neg htab]

include hinv hs in
lemma Inv.putInsert (ht : e.tables.get? table = some t) (tuple : Tuple) :
    Inv (e.putInsert txn table t.nextRowId tuple)
      (h.write txn ⟨(table, t.nextRowId), some tuple⟩) S P := by
  have hnext := nextRow_of_table ht
  have hnil := hinv.fresh table _ _ hnext (le_rfl)
  refine hinv.insertAt hs tuple hnil ⟨core_pushUndo hs _, rfl, rfl, rfl⟩ rfl
    (leafAt_insert (fun _ => rfl) (by rw [ht]; rfl)) rfl ?_
  intro table' n' hn'
  have hraise : (e.putInsert txn table t.nextRowId tuple).nextRow table' =
      if table = table' then some (t.nextRowId + 1) else e.nextRow table' :=
    nextRow_raise ht rfl table'
  rw [hraise] at hn'
  split at hn'
  · rename_i htab
    cases hn'
    exact ⟨t.nextRowId, htab ▸ hnext, Nat.le_succ _, fun _ => Nat.lt_succ_self _⟩
  · rename_i htab
    exact ⟨n', hn', le_rfl, fun heq => absurd heq htab⟩

/-- One row of a batch: a row and its undo entry, below the already raised next row id. -/
def Engine.insertRow (e : Engine) (txn : TxnId) (table : TableId) (row : RowId) (tuple : Tuple) :
    Engine :=
  (e.modifyTable table fun t =>
    { t with rows := t.rows.insert row ⟨RowMeta.fresh txn, tuple⟩ }).pushUndo txn
      (.inserted table row)

lemma Engine.insertRow_nextRow (e : Engine) (txn : TxnId) (table : TableId) (row : RowId)
    (tuple : Tuple) : (e.insertRow txn table row tuple).nextRow = e.nextRow :=
  nextRow_modifyTable fun _ => rfl

lemma Engine.insertRow_leafAt (hn : e.nextRow table = some n) (tuple : Tuple) :
    (e.insertRow txn table row tuple).leafAt =
      Function.update e.leafAt (table, row) (some ⟨RowMeta.fresh txn, tuple⟩) := by
  refine leafAt_insert (fun _ => rfl) ?_
  unfold nextRow at hn
  rw [← isSome_map, hn]
  rfl

include hs in
lemma Engine.get?_pushUndo (op : UndoOp) :
    (e.pushUndo txn op).txns.txns.get? txn = some { s with undo := op :: s.undo } := by
  show (e.txns.txns.modify txn _).get? txn = _
  rw [get?_modify, if_pos rfl, hs]
  rfl

include hinv hs in
lemma Inv.insertRow (hn : e.nextRow table = some n) (hlt : row < n) (tuple : Tuple)
    (hnil : h.versions (table, row) = []) :
    Inv (e.insertRow txn table row tuple) (h.write txn ⟨(table, row), some tuple⟩) S P := by
  refine hinv.insertAt hs tuple hnil ⟨core_pushUndo hs _, rfl, rfl, rfl⟩ rfl
    (insertRow_leafAt hn tuple) rfl ?_
  intro table' n' hn'
  rw [insertRow_nextRow] at hn'
  refine ⟨n', hn', le_rfl, ?_⟩
  intro heq
  subst heq
  rw [hn] at hn'
  cases hn'
  exact hlt

include hinv hs in
lemma Inv.insertRow_free (tuple : Tuple) (hfree : ∀ r, row ≤ r → h.versions (table, r) = []) :
    ∀ r, row + 1 ≤ r → (h.write txn ⟨(table, row), some tuple⟩).versions (table, r) = [] := by
  intro r hr
  obtain ⟨o, -, ho⟩ := hinv.opened hs
  have hne : ((table, r) : Loc) ≠ (table, row) := by
    intro heq
    exact ne_of_gt hr (Prod.mk.inj heq).2
  rw [versions_write ho fun t' o' ho' _ =>
      hinv.not_writes_of_nil (hfree row (le_rfl)) t' o' ho', update_of_ne hne]
  exact hfree r (Nat.le_of_succ_le hr)

lemma tids_of_batch (row : RowId) (n : Nat) :
    ((range (n + 1)).map fun i => tidOf (row + i)) =
      tidOf row :: (List.range n).map fun i => tidOf (row + 1 + i) := by
  rw [List.range_succ_eq_map, List.map_cons, List.map_map]
  congr 1
  refine map_congr_left fun i _ => ?_
  show tidOf (row + (i + 1)) = _
  rw [add_assoc, add_comm 1 i]

/-- The history after the rows of a batch, entered one after another from row id `row` on. -/
def History.writeBatch (h : History) (txn : TxnId) (table : TableId) (row : RowId)
    (tuples : List Tuple) : History :=
  (((List.range tuples.length).map fun i => tidOf (row + i)).zip tuples).foldl
    (fun h p => h.write txn ⟨(table, rowIdOf p.1), some p.2⟩) h

include hinv hs in
lemma Inv.insertRows (hn : e.nextRow table = some n) (tuples : List Tuple)
    (hle : row + tuples.length ≤ n) (hfree : ∀ r, row ≤ r → h.versions (table, r) = []) :
    Inv (insertRows txn table e row tuples) (h.writeBatch txn table row tuples) S P := by
  induction tuples generalizing e h s row with
  | nil => exact hinv
  | cons tuple rest ih =>
    rw [length_cons] at hle
    have hnil := hfree row (le_rfl)
    have hinv' := hinv.insertRow hs hn (show row < n by lia) tuple hnil
    have hbatch : h.writeBatch txn table row (tuple :: rest) =
        (h.write txn ⟨(table, row), some tuple⟩).writeBatch txn table (row + 1) rest := by
      unfold writeBatch
      rw [length_cons, tids_of_batch, zip_cons_cons, foldl_cons]
      rfl
    rw [hbatch]
    exact ih hinv' (get?_pushUndo hs (.inserted table row))
      ((e.insertRow_nextRow txn table row tuple) ▸ hn) (by lia)
      (hinv.insertRow_free hs tuple hfree)

def Engine.raiseNext (e : Engine) (table : TableId) (next : RowId) : Engine :=
  e.modifyTable table fun t => { t with nextRowId := next, purgeGen := t.purgeGen + 1 }

lemma Engine.raiseNext_nextRow (ht : e.tables.get? table = some t) (next : RowId)
    (table' : TableId) : (e.raiseNext table next).nextRow table' =
      if table = table' then some next else e.nextRow table' :=
  nextRow_raise ht rfl table'

lemma Engine.raiseNext_leafAt (e : Engine) (table : TableId) (next : RowId) :
    (e.raiseNext table next).leafAt = e.leafAt :=
  leafAt_keep fun _ => rfl

include hinv

lemma Inv.raiseNext (ht : e.tables.get? table = some t) {next : RowId} (hle : t.nextRowId ≤ next) :
    Inv (e.raiseNext table next) h S P := by
  refine hinv.ofStore rfl rfl rfl rfl ?_ hinv.passes (by rw [raiseNext_leafAt]; exact hinv.store)
  intro table' n' hn'
  rw [raiseNext_nextRow ht] at hn'
  split at hn'
  · rename_i htab
    cases hn'
    exact ⟨t.nextRowId, htab ▸ nextRow_of_table ht, hle⟩
  · exact ⟨n', hn', le_rfl⟩

include hs

lemma Inv.putBatch (ht : e.tables.get? table = some t) (tuples : List Tuple) :
    Inv (e.putBatch txn table t.nextRowId tuples)
      (h.writeBatch txn table t.nextRowId tuples) S P := by
  have hraised := hinv.raiseNext ht (Nat.le_add_right t.nextRowId tuples.length)
  have hrows := hraised.insertRows hs (by rw [raiseNext_nextRow ht, if_pos rfl]) tuples
    (le_rfl) fun r hr => hinv.fresh table _ r (nextRow_of_table ht) hr
  exact hrows.congr ⟨rfl, rfl, rfl, rfl, rfl, rfl, rfl, fun id p hp => ⟨id, p, hp, rfl⟩⟩

variable {old : Version} {tid : Tid} (hold : e.leaf table row = some old)
  (hadm : e.txns.admitWrite txn old.header tid = .ok ())

include hold hadm

lemma Inv.stored_putUpdate (tuple : Tuple) :
    (e.putUpdate txn table row old tuple).Stored P (h.write txn ⟨(table, row), some tuple⟩) := by
  obtain ⟨o, hc, ho⟩ := hinv.opened hs
  have hleaf : e.leafAt (table, row) = some old := hold
  have hok := hinv.admitted hleaf hadm
  have hpend := pendAt_push hc
    (show (UndoOp.updated table row old (e.reclaim.park old).2).rowOf = some (table, row) from rfl)
    (show (e.putUpdate txn table row old tuple).core = _ from core_pushUndo hs _)
  obtain ⟨slots, hst⟩ := hinv.store
  have hrow := hst.updateRow hleaf hok.live (hinv.open_not_settled hc) hok.others tuple hpend
  have hleaf' : (e.putUpdate txn table row old tuple).leafAt = update e.leafAt (table, row)
        (some ⟨⟨txn, noXmax, some (e.reclaim.park old).2⟩, tuple⟩) :=
    leafAt_insert (fun _ => rfl) (table_of_leaf hold)
  unfold Stored
  rw [hleaf', versions_write ho hok.sole]
  exact ⟨_, hrow⟩

lemma Inv.changeRow {op : UndoOp} {new : Option Tuple} (hop : op.rowOf = some (table, row))
    (hm : e.CoreMove txn { s.core with undo := op :: s.core.undo } e')
    (hgids : e'.txns.preparedGids = e.txns.preparedGids) (hnext : e'.nextRow = e.nextRow)
    (hcov : h.Covers txn (table, row)) (hstored : e'.Stored P (h.write txn ⟨(table, row), new⟩)) :
    Inv e' (h.write txn ⟨(table, row), new⟩) S P := by
  obtain ⟨o, hc, ho⟩ := hinv.opened hs
  have hok := hinv.admitted (show e.leafAt (table, row) = some old from hold) hadm
  refine hinv.write hc ho hgids hop hm hok.sole (fun i k => hcov o i k ho) hstored ?_
  intro table' n' hn'
  rw [hnext] at hn'
  exact ⟨n', hn', le_rfl, fun (heq : table = table') => hinv.row_lt hold (heq ▸ hn')⟩

lemma Inv.putUpdate (hcov : h.Covers txn (table, row)) (tuple : Tuple) :
    Inv (e.putUpdate txn table row old tuple) (h.write txn ⟨(table, row), some tuple⟩) S P :=
  hinv.changeRow hs hold hadm rfl ⟨core_pushUndo hs _, rfl, rfl, rfl⟩ rfl
    (nextRow_modifyTable fun _ => rfl) hcov (hinv.stored_putUpdate hs hold hadm tuple)

lemma Inv.stored_putDelete :
    (e.putDelete txn table row old).Stored P (h.write txn ⟨(table, row), none⟩) := by
  obtain ⟨o, hc, ho⟩ := hinv.opened hs
  have hleaf : e.leafAt (table, row) = some old := hold
  have hok := hinv.admitted hleaf hadm
  have hpend := pendAt_push hc
    (show (UndoOp.deleted table row old).rowOf = some (table, row) from rfl)
    (show (e.putDelete txn table row old).core = _ from core_pushUndo hs _)
  obtain ⟨slots, hst⟩ := hinv.store
  have hrow := hst.deleteRow hleaf hok.live (hinv.open_not_settled hc) hok.others hpend
  have hleaf' : (e.putDelete txn table row old).leafAt = update e.leafAt (table, row)
        (some { old with header := { old.header with xmax := txn } }) :=
    leafAt_insert (fun _ => rfl) (table_of_leaf hold)
  refine ⟨slots, ?_⟩
  rw [hleaf', versions_write ho hok.sole]
  exact hrow

lemma Inv.putDelete (hcov : h.Covers txn (table, row)) :
    Inv (e.putDelete txn table row old) (h.write txn ⟨(table, row), none⟩) S P :=
  hinv.changeRow hs hold hadm rfl ⟨core_pushUndo hs _, rfl, rfl, rfl⟩ rfl
    (nextRow_modifyTable fun _ => rfl) hcov (hinv.stored_putDelete hs hold hadm)

omit hs hold hadm

/-! ## Index entries -/

variable (index : IndexId)

include hs in
lemma Inv.changeEntry
    (f : IndexData → IndexData) {q : Pos} {ops : List UndoOp} (hops : OneAt q ops)
    (wal : List WalRecord) :
    Inv { (e.modifyIndex index f).pushAll txn ops with wal := wal } h S P := by
  have hsame : e.Same { e.modifyIndex index f with wal := wal } :=
    ⟨rfl, rfl, rfl, rfl, rfl, rfl, rfl, fun id p hp => ⟨id, p, hp, rfl⟩⟩
  rcases hops with rfl | ⟨op, rfl, hop⟩
  · rw [pushAll_nil]
    exact hinv.congr hsame
  refine (hinv.congr hsame).pushIndex (core_of_get? hs) rfl ?_
    ⟨core_pushUndo hs op, rfl, rfl, rfl⟩ ⟨rfl, rfl, rfl⟩
  cases op <;> first | rfl | cases hop

lemma Inv.indexInsert (key : Key) (tid : Tid) : Inv (e.indexInsert txn index key tid).1 h S P := by
  rcases e.indexInsert_cases txn index key tid with ⟨err, heq⟩ | ⟨s, i, hs, -, heq⟩ <;> rw [heq]
  · exact hinv
  · exact hinv.changeEntry hs index _ (RowEntries.oneAt_insertOps ..) _

omit hinv in
lemma Engine.indexInsertEach_induct {P : Engine → Prop} {index : IndexId}
    (hstep : ∀ e key tid, P e → P (e.indexInsert txn index key tid).1)
    (entries : List (Key × Tid)) (he : P e) : P (e.indexInsertEach txn index entries).1 := by
  induction entries generalizing e with
  | nil => exact he
  | cons entry rest ih =>
    obtain ⟨key, tid⟩ := entry
    have hone := hstep e key tid he
    unfold indexInsertEach
    split
    · rename_i heq
      rw [heq] at hone
      exact hone
    · rename_i heq
      rw [heq] at hone
      exact ih hone

lemma Inv.indexDelete (key : Key) (tid : Tid) : Inv (e.indexDelete txn index key tid).1 h S P := by
  rcases e.indexDelete_cases txn index key tid with ⟨r, heq⟩ | ⟨s, i, hs, -, heq⟩ <;> rw [heq]
  · exact hinv
  · exact hinv.changeEntry hs index _ (RowEntries.oneAt_deleteOps ..) _

/-! ## Reads, statements and savepoints -/

lemma Inv.ofCore (f : TxnState → TxnState) (hf : ∀ s, (f s).core = s.core) :
    Inv { e with txns := e.txns.modifyTxn txn f } h S P := by
  refine hinv.congr ⟨rfl, rfl, ?_, rfl, rfl, rfl, rfl, fun id p hp => ⟨id, p, hp, rfl⟩⟩
  exact funext fun _ => map_get?_modify_self hf ..

omit hinv in
lemma Inv.beginStatement (hinv : Inv e h ReadView.sees P) (txn : TxnId) :
    Inv (e.beginStatement txn) (h.refresh txn) ReadView.sees P := by
  unfold Engine.beginStatement
  cases hs : e.txns.txns.get? txn with
  | none =>
    have hnone : h.running.get? txn = none := by
      have hsome := hinv.running txn
      rw [core, hs] at hsome
      exact not_isSome_iff_eq_none.mp (by rw [← hsome]; exact Bool.false_ne_true)
    have hsame : h.refresh txn = h := by
      refine h.modify_eq_self fun o ho => ?_
      rw [hnone] at ho
      cases ho
    rw [hsame]
    exact hinv
  | some s =>
    obtain ⟨o, hc, ho⟩ := hinv.opened hs
    have hlevel : s.level = o.level := (hinv.txn txn _ o hc ho).level
    dsimp only
    by_cases hrc : s.level = .readCommitted ∨ s.level = .readUncommitted
    · rw [if_pos hrc]
      refine Inv.refresh hc ho hinv _ ?_ ⟨core_modifyTxn hs _, rfl, rfl, rfl⟩ ⟨rfl, rfl, rfl⟩ rfl
      rw [if_pos (hlevel ▸ hrc)]
    have hsame : h.refresh txn = h := by
      refine h.modify_eq_self fun o' ho' => ?_
      rw [ho] at ho'
      cases ho'
      exact if_neg (hlevel ▸ hrc)
    rw [if_neg hrc, hsame]
    exact hinv

include hs

lemma Inv.savepoint (name : String) :
    Inv { e with txns := e.txns.modifyTxn txn (TxnState.mark name) } (h.mark txn name) S P := by
  obtain ⟨o, hc, ho⟩ := hinv.opened hs
  have hr := hinv.txn txn _ o hc ho
  exact hinv.modifyMarks hc ho (by rfl) _ ⟨core_modifyTxn hs _, rfl, rfl, rfl⟩ ⟨rfl, rfl, rfl⟩ rfl rfl rfl
    (fun _ => rfl) ⟨hr.level, hr.undo.mark name, hr.own, hr.snapLe, hr.sees, hr.base⟩

lemma Inv.releaseSavepoint (name : String) :
    Inv { e with txns := e.txns.modifyTxn txn (TxnState.release name) } (h.release txn name) S P := by
  obtain ⟨o, hc, ho⟩ := hinv.opened hs
  have hr := hinv.txn txn _ o hc ho
  exact hinv.modifyMarks hc ho (by rfl) _ ⟨core_modifyTxn hs _, rfl, rfl, rfl⟩ ⟨rfl, rfl, rfl⟩ rfl rfl rfl
    (fun _ => rfl) ⟨hr.level, hr.undo.release name, hr.own, hr.snapLe, hr.sees, hr.base⟩

variable {older : List (String × Nat)}

omit hinv in
lemma Engine.undoTo_fields {name : String} {mark : Nat} (tail : List UndoOp)
    (hdrop : s.savepoints.dropWhile (·.1 ≠ name) = (name, mark) :: older) :
    let e' := e.undoTo txn name mark tail
    let undone := e.undoOps txn tail
    e.CoreMove txn { s.core with
        savepoints := (name, mark) :: older
        undo := s.undo.drop (s.undo.length - mark) } e' ∧
      e'.txns.preparedGids = e.txns.preparedGids ∧ e'.nextRow = e.nextRow ∧
      e'.leafAt = undone.leafAt ∧ e'.reclaim = undone.reclaim := by
  let e1 := Engine.logCompensations
    { e with txns := e.txns.modifyTxn txn (TxnState.backTo name mark) } txn tail
  obtain ⟨htxns, hpasses, hnext⟩ := undoOps_frame e1 txn tail
  have hcore : e1.core = _ := core_modifyTxn hs (TxnState.backTo name mark)
  rw [← hdrop, show e.undoTo txn name mark tail = e1.undoOps txn tail from rfl]
  refine ⟨⟨?_, ?_, ?_, ?_⟩, ?_, hnext, undoOps_rows txn tail
    (show e1.leafAt = e.leafAt from rfl) (show e1.reclaim = e.reclaim from rfl)⟩
  · unfold Engine.core
    rw [htxns]
    exact hcore
  · rw [htxns]
    rfl
  · rw [htxns]
    rfl
  · rw [hpasses]
    rfl
  · rw [htxns]
    rfl

lemma Inv.rollbackTo {name : String} {mark : Nat}
    (hdrop : s.savepoints.dropWhile (·.1 ≠ name) = (name, mark) :: older) :
    Inv (e.undoTo txn name mark (s.undo.take (s.undo.length - mark))) (h.backTo txn name) S P := by
  obtain ⟨o, hc, ho⟩ := hinv.opened hs
  obtain ⟨hmove, hgids, hnext, hleaf, hreclaim⟩ := undoTo_fields hs _ hdrop
  exact hinv.backTo hc ho hdrop hleaf hreclaim hmove hgids hnext

/-! ## Transactions begin and end -/

omit hinv hs

lemma Engine.core_begin (e : Engine) (level : IsolationLevel) :
    (e.begin level).1.core = Function.update e.core e.txns.nextTxnId
      (some ⟨[], [], level, (e.begin level).1.txns.freshView e.txns.nextTxnId, none⟩) := by
  funext t
  show ((e.txns.txns.insert e.txns.nextTxnId _).get? t).map TxnState.core = _
  rw [get?_insert]
  by_cases ht : e.txns.nextTxnId = t
  · subst ht
    rw [if_pos rfl, update_self]
    rfl
  · rw [if_neg ht, update_of_ne (Ne.symm ht)]
    rfl

include hinv

lemma Inv.beginTxn (level : IsolationLevel)
    (hview : ∀ x, S ((e.begin level).1.txns.freshView e.txns.nextTxnId) x = true ↔
      x = e.txns.nextTxnId ∨
        (x < (e.begin level).1.txns.nextTxnId ∧ x ∉ (e.begin level).1.txns.active)) :
    Inv (e.begin level).1 { h with
      running := h.running.insert e.txns.nextTxnId ⟨level, h.commits.length, [], []⟩ } S P :=
  hinv.begin level rfl rfl (e.core_begin level) rfl rfl rfl rfl ⟨rfl, rfl, rfl⟩ hview

include hs in
lemma Inv.gid_ne (hprepared : s.prepared = none) :
    ∀ gid t, e.txns.preparedGids.get? gid = some t →
      e.txns.preparedGids.get? gid = some t ∧ t ≠ txn := by
  intro gid t ht
  refine ⟨ht, ?_⟩
  rintro rfl
  obtain ⟨c, info, hc, hinfo, _⟩ := hinv.prepared gid t ht
  rw [core_of_get? hs] at hc
  cases hc
  rw [TxnState.core, hprepared] at hinfo
  cases hinfo

variable {o : OpenTxn} {h' : History} (ho : h.running.get? txn = some o)
  (hrun : h'.running = h.running.erase txn)

include ho hrun

lemma Inv.versions_commitTxn
    (hcommits : h'.commits = h.commits ++ [⟨txn, o.level, o.snap, o.writes⟩]) :
    h'.versions = h.versions := by
  funext loc
  rw [← versions_commit ho fun hw => hinv.sole ho hw, commit_eq ho]
  unfold versions pending committed
  rw [hrun, hcommits]
  rfl

lemma Inv.stored_commitTxn (hcommits : h'.commits = h.commits ++ [⟨txn, o.level, o.snap, o.writes⟩])
    (hcore : e'.core = update e.core txn none) (hleaf : e'.leafAt = e.leafAt)
    (hreclaim : e'.reclaim = e.reclaim) : e'.Stored P h' := by
  obtain ⟨slots, hs⟩ := hinv.store
  refine ⟨slots, ?_⟩
  rw [hinv.versions_commitTxn ho hrun hcommits, hleaf, hreclaim, pendAt_erase hcore]
  refine hs.forget fun t loc => ?_
  by_cases ht : t = txn
  · exact .inl (if_pos ht)
  · exact .inr (if_neg ht)

variable {c : TxnCore} (hc : e.core txn = some c)

include hc

lemma Inv.commitTxn (hcommits : h'.commits = h.commits ++ [⟨txn, o.level, o.snap, o.writes⟩])
    (hcl : e.Closes txn e') (hleaf : e'.leafAt = e.leafAt) (hreclaim : e'.reclaim = e.reclaim)
    (hgids : h'.gids = e'.txns.preparedGids) : Inv e' h' S P := by
  refine hinv.endTxn hc ho hrun (.inr hcommits) hcl
    (hinv.stored_commitTxn ho hrun hcommits hcl.core hleaf hreclaim) ?_ hgids
  intro loc hnil
  rw [hinv.versions_commitTxn ho hrun hcommits]
  exact hnil

lemma Inv.versions_abortTxn (hcommits : h'.commits = h.commits) (loc : Loc) :
    h'.versions loc = (h.versions loc).drop (opsAt loc c.undo).length := by
  rw [length_opsAt_eq (hinv.txn txn c o hc ho).locs, ← versions_drop ho fun hw => hinv.sole ho hw]
  unfold versions pending committed
  rw [hrun, hcommits]
  rfl

lemma Inv.stored_abortTxn (hcommits : h'.commits = h.commits) (hcore : e'.core = update e.core txn none)
    (hleaf : e'.leafAt = (e.undoOps txn c.undo).leafAt)
    (hreclaim : e'.reclaim = (e.undoOps txn c.undo).reclaim) : e'.Stored P h' := by
  obtain ⟨slots, hs⟩ := hinv.store
  unfold Stored
  rw [funext (hinv.versions_abortTxn ho hrun hc hcommits), hleaf, hreclaim, pendAt_erase hcore]
  exact undoOps_store txn c.undo [] hs fun loc => by
    rw [pendAt_of_core hc, append_nil]

lemma Inv.abortTxn (hcommits : h'.commits = h.commits)
    (hcl : e.Closes txn e') (hleaf : e'.leafAt = (e.undoOps txn c.undo).leafAt)
    (hreclaim : e'.reclaim = (e.undoOps txn c.undo).reclaim)
    (hgids : h'.gids = e'.txns.preparedGids) : Inv e' h' S P := by
  refine hinv.endTxn hc ho hrun (.inl hcommits) hcl
    (hinv.stored_abortTxn ho hrun hc hcommits hcl.core hleaf hreclaim) ?_ hgids
  intro loc hnil
  rw [hinv.versions_abortTxn ho hrun hc hcommits, hnil, drop_nil]

omit hinv ho hrun hc

lemma TxnDomain.finishCommit_fields {d : TxnDomain} (hs : d.txns.get? txn = some s) :
    (d.finishCommit txn).txns = d.txns.erase txn ∧
      (d.finishCommit txn).active = d.active.filter (· ≠ txn) ∧
      (d.finishCommit txn).nextTxnId = d.nextTxnId ∧
      (d.finishCommit txn).preparedGids = d.preparedGids := by
  unfold finishCommit
  rw [hs]
  obtain ⟨htxns, hactive, hnext, hgids⟩ :=
    releaseLocks_fields { d with txns := d.txns.erase txn } txn s.locks
  exact ⟨htxns, congrArg (filter fun t => decide (t ≠ txn)) hactive, hnext, hgids⟩

lemma Engine.Closes.of_fields (htxns : e'.txns.txns = e.txns.txns.erase txn)
    (hactive : e'.txns.active = e.txns.active.filter (· ≠ txn))
    (hnext : e'.txns.nextTxnId = e.txns.nextTxnId) (hpasses : e'.passes = e.passes)
    (hrow : e'.nextRow = e.nextRow) {gids : OrdMap String TxnId}
    (hgids : e'.txns.preparedGids = gids) (hother : ∀ gid t, gids.get? gid = some t →
      e.txns.preparedGids.get? gid = some t ∧ t ≠ txn) : e.Closes txn e' where
  core := core_erase htxns rfl
  active t := by
    rw [hactive]
    exact mem_filter_ne t
  next := hnext
  passes := hpasses
  nextRow := hrow
  prepared gid t ht := hother gid t (hgids ▸ ht)

include hinv hs in
lemma Inv.finish (hprepared : s.prepared = none) : Inv (e.finish txn s.undo) (h.commit txn) S P := by
  obtain ⟨o, hc, ho⟩ := hinv.opened hs
  obtain ⟨htxns, hactive, hnext, hgids⟩ := finishCommit_fields
    (d := (e.txns.bumpStagedVersions txn).bumpFinishedVersions txn) hs
  rw [commit_eq ho]
  exact hinv.commitTxn ho rfl hc rfl
    (.of_fields htxns hactive hnext rfl rfl hgids (hinv.gid_ne hs hprepared)) rfl rfl
    (hinv.gids.trans hgids.symm)

lemma Engine.abortWith_fields (e : Engine) (txn : TxnId) (s : TxnState) (logMarker : Bool) :
    (e.abortWith txn s logMarker).txns.txns = e.txns.txns ∧
      (e.abortWith txn s logMarker).txns.active = e.txns.active.filter (· ≠ txn) ∧
      (e.abortWith txn s logMarker).txns.nextTxnId = e.txns.nextTxnId ∧
      (e.abortWith txn s logMarker).txns.preparedGids = e.txns.preparedGids ∧
      (e.abortWith txn s logMarker).passes = e.passes ∧
      (e.abortWith txn s logMarker).nextRow = e.nextRow ∧
      (e.abortWith txn s logMarker).leafAt = (e.undoOps txn s.undo).leafAt ∧
      (e.abortWith txn s logMarker).reclaim = (e.undoOps txn s.undo).reclaim := by
  obtain ⟨hundone, hpasses, hrow⟩ := undoOps_frame e txn s.undo
  obtain ⟨htxns, hactive, hnext, hgids⟩ := releaseLocks_fields
    { (e.undoOps txn s.undo).txns with
      active := (e.undoOps txn s.undo).txns.active.filter (· ≠ txn) } txn s.locks
  rw [hundone] at htxns hactive hnext hgids
  unfold abortWith
  dsimp only
  rw [hundone]
  split
  · exact ⟨htxns, hactive, hnext, hgids, hpasses, hrow, rfl, rfl⟩
  · exact ⟨htxns, hactive, hnext, hgids, hpasses, hrow, rfl, rfl⟩

include hinv hs in
lemma Inv.abort (hprepared : s.prepared = none) : Inv (e.abort txn s) (h.drop txn) S P := by
  obtain ⟨o, hc, ho⟩ := hinv.opened hs
  obtain ⟨htxns, hactive, hnext, hgids, hpasses, hrow, hleaf, hreclaim⟩ :=
    abortWith_fields (e.takeTxn txn) txn s true
  have hrows := undoOps_rows txn s.undo (show (e.takeTxn txn).leafAt = e.leafAt from rfl)
    (show (e.takeTxn txn).reclaim = e.reclaim from rfl)
  exact hinv.abortTxn ho rfl hc rfl
    (.of_fields htxns hactive hnext hpasses hrow hgids (hinv.gid_ne hs hprepared))
    (hleaf.trans hrows.1) (hreclaim.trans hrows.2) (hinv.gids.trans hgids.symm)

/-! ## Prepared transactions -/

lemma Inv.parkTxn (hinv : Inv e h S P) (hc : e.core txn = some c) (hprepared : c.prepared = none)
    (info : PreparedMeta) (hm : e.CoreMove txn { c with prepared := some info } e')
    (hrows : e.RowsStay e')
    (hgids : e'.txns.preparedGids = e.txns.preparedGids.insert info.gid txn) :
    Inv e' { h with gids := h.gids.insert info.gid txn } S P := by
  obtain ⟨o, ho⟩ := hinv.running_of_core hc
  have hr := hinv.txn txn c o hc ho
  have hstored : e'.Stored P h :=
    Stored.congr hinv.store hrows.leaf hrows.reclaim (pendAt_keep hc hm.core fun _ => rfl) rfl
  refine hinv.modifyTxn hc ho hm (h.running.modify_id txn).symm rfl
    ⟨hr.level, hr.undo, hr.own, hr.snapLe, hr.sees, hr.base⟩
    (fun x => hinv.later txn c x hc) (fun t => hinv.unseen txn c t hc) hstored
    (hrows.nextRow ▸ hinv.fresh) ?_ ?_
  · rw [hgids, ← hinv.gids]
  · intro gid t ht
    rw [hgids, get?_insert] at ht
    split at ht
    · rename_i hgid
      cases ht
      exact ⟨_, info, by rw [hm.core, update_self], rfl, hgid⟩
    obtain ⟨k, info', hk, hinfo, hname⟩ := hinv.prepared gid t ht
    have hne : t ≠ txn := by
      rintro rfl
      rw [hc] at hk
      cases hk
      rw [hprepared] at hinfo
      cases hinfo
    exact ⟨k, info', by rw [hm.core, update_of_ne hne, hk], hinfo, hname⟩

include hinv hs in
lemma Inv.park (hprepared : s.prepared = none) (info : PreparedMeta) (program : List WalRecord) :
    Inv (e.park txn info program) { h with gids := h.gids.insert info.gid txn } S P :=
  hinv.parkTxn (core_of_get? hs) hprepared info ⟨core_modifyTxn hs _, rfl, rfl, rfl⟩ ⟨rfl, rfl, rfl⟩
    rfl

variable {gid : String}

lemma Inv.gid_erase (hinv : Inv e h S P) (hgid : e.txns.preparedGids.get? gid = some txn) :
    ∀ gid' t, (e.txns.preparedGids.erase gid).get? gid' = some t →
      e.txns.preparedGids.get? gid' = some t ∧ t ≠ txn := by
  intro gid' t ht
  rw [get?_erase] at ht
  split at ht
  · cases ht
  rename_i hne
  refine ⟨ht, ?_⟩
  rintro rfl
  obtain ⟨c, info, hc, hinfo, hname⟩ := hinv.prepared gid t hgid
  obtain ⟨c', info', hc', hinfo', hname'⟩ := hinv.prepared gid' t ht
  rw [hc] at hc'
  cases hc'
  rw [hinfo] at hinfo'
  cases hinfo'
  exact hne (hname.symm.trans hname')

lemma Engine.finishTxn_none (hs : e.txns.txns.get? txn = none) : e.finishTxn gid txn false =
      { e with
        txns := bumpFinishedVersions
          { e.txns with preparedGids := e.txns.preparedGids.erase gid } txn
        wal := e.wal ++ [.abortTxn txn] } := by
  have hnone : (bumpFinishedVersions
      { e.txns with preparedGids := e.txns.preparedGids.erase gid } txn).txns.get? txn = none := hs
  unfold finishTxn log
  rw [if_neg Bool.false_ne_true, if_neg Bool.false_ne_true, hnone]

lemma Engine.finishTxn_abort (hs : e.txns.txns.get? txn = some s) :
    let d := { e.txns with preparedGids := e.txns.preparedGids.erase gid }
    e.finishTxn gid txn false = (({ e with txns := d.bumpFinishedVersions txn }.log
      (.abortTxn txn)).takeTxn txn).abortWith txn s false := by
  have hsome : (bumpFinishedVersions
      { e.txns with preparedGids := e.txns.preparedGids.erase gid } txn).txns.get? txn = some s := hs
  unfold finishTxn log
  rw [if_neg Bool.false_ne_true, if_neg Bool.false_ne_true, hsome]

lemma Inv.finishTxn (hinv : Inv e h S P) (hgid : e.txns.preparedGids.get? gid = some txn)
    (commit : Bool) :
    Inv (e.finishTxn gid txn commit)
      (if commit then { h with gids := h.gids.erase gid }.commit txn
        else { h with gids := h.gids.erase gid }.drop txn) S P := by
  obtain ⟨c, info, hc, hinfo, hname⟩ := hinv.prepared gid txn hgid
  obtain ⟨s, hs, rfl⟩ := map_eq_some_iff.mp hc
  obtain ⟨o, ho⟩ := hinv.running_of_core hc
  let d := bumpFinishedVersions
    { e.txns with preparedGids := e.txns.preparedGids.erase gid } txn
  have hsd : d.txns.get? txn = some s := hs
  cases commit with
  | true =>
    obtain ⟨htxns, hactive, hnext, hgids⟩ := finishCommit_fields hsd
    have hcommit : ({ h with gids := h.gids.erase gid } : History).commit txn = _ :=
      commit_eq (h := { h with gids := h.gids.erase gid }) ho
    rw [if_pos rfl, hcommit]
    refine hinv.commitTxn ho rfl hc rfl
      (.of_fields htxns hactive hnext rfl rfl hgids (hinv.gid_erase hgid)) rfl rfl ?_
    show h.gids.erase gid = preparedGids (finishCommit d txn)
    rw [hgids, hinv.gids]
    rfl
  | false =>
    let e1 : Engine := ({ e with txns := d }.log (.abortTxn txn)).takeTxn txn
    have heq : e.finishTxn gid txn false = e1.abortWith txn s false := finishTxn_abort hs
    obtain ⟨htxns, hactive, hnext, hgids, hpasses, hrow, hleaf, hreclaim⟩ :=
      abortWith_fields e1 txn s false
    have hrows := undoOps_rows txn s.undo (show e1.leafAt = e.leafAt from rfl)
      (show e1.reclaim = e.reclaim from rfl)
    rw [heq]
    refine hinv.abortTxn ho rfl hc rfl
      (.of_fields htxns hactive hnext hpasses hrow hgids (hinv.gid_erase hgid))
      (hleaf.trans hrows.1) (hreclaim.trans hrows.2) ?_
    rw [hgids, ← show h.gids.erase gid = e1.txns.preparedGids from
      congrArg (fun m => m.erase gid) hinv.gids]
    rfl

/-! ## Steps and runs -/

/-- What the views of the next call see, as far as it matters to the invariant: one taken at a begin
sees what has ended, and an admitted write is to a row whose committed writers are covered. -/
structure Sight.Fits (S : Sight) (e : Engine) (h : History) : Prop where
  begin : ∀ level x, S ((e.begin level).1.txns.freshView e.txns.nextTxnId) x = true ↔
    x = e.txns.nextTxnId ∨
      (x < (e.begin level).1.txns.nextTxnId ∧ x ∉ (e.begin level).1.txns.active)
  write : ∀ e₁ txn s loc old tid, e.Quiet e₁ → e₁.txns.txns.get? txn = some s →
    e₁.leafAt loc = some old → e₁.txns.admitWrite txn old.header tid = .ok () → h.Covers txn loc

/-- **Every effect keeps the invariant**, for any notion of sight and any transactions that purge may
go by. A statement that takes a view and a purge pass that starts from the views are apart. -/
theorem Inv.effect {op : Op} {out : Outcome} (hinv : Inv e h S P) (hfits : S.Fits e h)
    (heff : Effect e op out e') (hview : ∀ txn, op ≠ .beginStatement txn)
    (hstart : op ≠ .purgeStart) : Inv e' (h.record (op, out)) S P := by
  cases heff with
  | quiet hq hrec =>
    rw [hrec]
    exact hinv.congr hq.same
  | begin level => exact hinv.beginTxn level (hfits.begin level)
  | beginStatement txn => exact absurd rfl (hview txn)
  | insert hq hs ht => exact (hinv.congr hq.same).putInsert hs ht _
  | insertBatch hq hs ht => exact (hinv.congr hq.same).putBatch hs ht _
  | update hq hs hold hadm =>
    exact (hinv.congr hq.same).putUpdate hs hold hadm (hfits.write _ _ _ _ _ _ hq hs hold hadm) _
  | delete hq hs hold hadm =>
    exact (hinv.congr hq.same).putDelete hs hold hadm (hfits.write _ _ _ _ _ _ hq hs hold hadm)
  | scan | indexScan => exact hinv.ofCore _ fun _ => rfl
  | indexInsert => exact hinv.indexInsert _ _ _
  | indexInsertBatch =>
    exact indexInsertEach_induct (P := fun e => Inv e h S P)
      (fun e key tid he => he.indexInsert _ key tid) _ hinv
  | indexDelete => exact hinv.indexDelete _ _ _
  | savepoint hs => exact hinv.savepoint hs _
  | releaseSavepoint hs => exact hinv.releaseSavepoint hs _
  | rollbackTo hs hdrop => exact hinv.rollbackTo hs hdrop
  | commit hs hprepared hclean => exact hinv.finish hs hprepared
  | abort hq hs hprepared hrec =>
    rw [hrec]
    exact (hinv.congr hq.same).abort hs hprepared
  | prepareTxn hs hprepared hnew hclean hprogram => exact hinv.park hs hprepared _ _
  | @finishPrepared gid owner commit txn hgid =>
    have hname := hinv.gids ▸ hgid
    have hend := hinv.finishTxn hgid commit
    simp only [record, hname]
    exact hend
  | purgeStart => exact absurd rfl hstart
  | purgeStep pass pressure => exact hinv.purgeStep pass pressure

lemma Inv.fits (hinv : Inv e h ReadView.sees P) : Sight.Fits ReadView.sees e h where
  begin _ _ := freshView_sees_iff ..
  write _ _ _ _ _ _ hq hs hold hadm := (hinv.congr hq.same).covers (core_of_get? hs) hold hadm

/-- **Every call but the start of a pass keeps the invariant**, with the history extended by the call
and purge going by the transactions it went by before. -/
theorem Inv.keep (hinv : Inv e h ReadView.sees P) {op : Op} (hstart : op ≠ .purgeStart) :
    Inv (e.step op).1 (h.record (op, (e.step op).2)) ReadView.sees P := by
  by_cases hview : ∃ txn, op = .beginStatement txn
  · obtain ⟨txn, rfl⟩ := hview
    exact hinv.beginStatement txn
  · exact hinv.effect hinv.fits (e.step_effect op) (fun txn heq => hview ⟨txn, heq⟩) hstart

/-! ## Fresh engines -/

structure Engine.Fresh (e : Engine) : Prop where
  rows : ∀ table t, e.tables.get? table = some t → t.rows = OrdMap.empty
  data : ∀ index i, e.indexes.get? index = some i → i.data = IndexData.create
  txns : e.txns = TxnDomain.init
  reclaim : e.reclaim = ⟨[], [], []⟩
  passes : e.passes = OrdMap.empty
  wal : e.wal = []

lemma OrdMap.get?_foldl_insert {α β : Type} [LinearOrder α] (l : List (α × β)) (m : OrdMap α β)
    {k : α} {v : β} (hk : (l.foldl (fun m p => m.insert p.1 p.2) m).get? k = some v) :
    (k, v) ∈ l ∨ m.get? k = some v := by
  induction l generalizing m with
  | nil => exact .inr hk
  | cons p l ih =>
    rcases ih (m.insert p.1 p.2) hk with hmem | hget
    · exact .inl (mem_cons_of_mem _ hmem)
    rw [get?_insert] at hget
    split at hget
    · rename_i heq
      cases hget
      subst heq
      exact .inl mem_cons_self
    · exact .inr hget

lemma Engine.create_fresh {tables : List (TableId × Table)}
    {indexes : List (IndexId × IndexState)} {maxPrepared : Nat}
    (hrows : ∀ p ∈ tables, p.2.rows = empty)
    (hdata : ∀ p ∈ indexes, p.2.data = IndexData.create) :
    (create tables indexes maxPrepared).Fresh where
  rows table t ht := by
    rcases get?_foldl_insert _ _ ht with hmem | hget
    · exact hrows _ hmem
    · cases hget
  data index i hi := by
    rcases get?_foldl_insert _ _ hi with hmem | hget
    · exact hdata _ hmem
    · cases hget
  txns := rfl
  reclaim := rfl
  passes := rfl
  wal := rfl

/-- An empty store keeps an empty history. -/
lemma Inv.init (hf : e.Fresh) : Inv e init := by
  have hcore : ∀ t, e.core t = none := by
    intro t
    rw [core, hf.txns]
    rfl
  have hleaf : e.leafAt = fun _ => none := by
    funext loc
    unfold leafAt leaf
    cases ht : e.tables.get? loc.1 with
    | none => rfl
    | some t =>
      show t.rows.get? loc.2 = none
      rw [hf.rows loc.1 t ht]
      rfl
  have hactive : e.txns.active = [] := by rw [hf.txns]; rfl
  have hgids : e.txns.preparedGids = empty := by rw [hf.txns]; rfl
  have hpend : e.pendAt = fun _ _ => [] := by
    funext t loc
    unfold pendAt
    rw [hcore]
  have hno : ∀ {t : TxnId} {c : TxnCore}, e.core t = some c → False := by
    intro t c hc
    rw [hcore] at hc
    cases hc
  refine ⟨?_, fun t c o hc => (hno hc).elim, ?_, ?_, ?_, fun t c x hc => (hno hc).elim,
    fun t c t' hc => (hno hc).elim, (fun k hk => nomatch hk), nodup_nil, fun x hx => hx.ended, ?_, fun _ _ _ _ _ => rfl,
    ?_, hgids.symm, ?_⟩
  · intro t
    rw [hcore]
    rfl
  · intro t
    rw [hactive, hcore]
    simp
  · rw [hactive]
    exact fun t ht => nomatch ht
  · rw [hf.txns]
    exact Nat.one_pos
  · refine ⟨fun _ => [], ?_⟩
    rw [hleaf, hf.reclaim, hpend]
    exact StoreInv.init e.Settled
  · intro id p x hp
    rw [hf.passes] at hp
    cases hp
  · intro gid t ht
    rw [hgids] at ht
    cases ht

end NusaDb
