import NusaDb.Lib.MarkedLog
import NusaDb.Btree.Store
import NusaDb.Btree.Versions

/-!
# The engine's invariant

`Inv e h` ties an engine to the history of its run: the same transactions are open, each view sees
exactly those committed when it was taken, every row's versions are its surviving writes, and purge
goes by transactions that have ended. It reads the engine through a few observations only, so a call
that leaves them keeps it (`Inv.congr`).

The invariant has two parameters besides, and its moves hold for any value of them.

* What a view sees, `ReadView.sees` unless it says otherwise. `Btree.FreshReads` takes another notion,
  to follow runs in which a transaction goes back to an older view.
* The transactions purge goes by, those that every open view sees unless it says otherwise.
  `Stream.Held` takes those that the pin of one view sees, to show that the pin keeps rows for it.
-/

namespace NusaDb

open List Engine OrdMap

open History (Ver)

/-- What a view is taken to see. -/
abbrev Sight := ReadView → TxnId → Bool

/-- The part of a transaction's state that reading, writing and undoing depend on. -/
structure TxnCore where
  undo : List UndoOp
  savepoints : List (String × Nat)
  level : IsolationLevel
  pinned : ReadView
  prepared : Option PreparedMeta

def TxnState.core (s : TxnState) : TxnCore :=
  ⟨s.undo, s.savepoints, s.level, s.pinned, s.prepared⟩

def opsAt (loc : Loc) (ops : List UndoOp) : List UndoOp :=
  ops.filter fun op => decide (op.rowOf = some loc)

namespace Engine

def leafAt (e : Engine) (loc : Loc) : Option Version := e.leaf loc.1 loc.2

def core (e : Engine) (txn : TxnId) : Option TxnCore := (e.txns.txns.get? txn).map TxnState.core

def pendAt (e : Engine) (txn : TxnId) (loc : Loc) : List UndoOp :=
  match e.core txn with
  | none => []
  | some c => opsAt loc c.undo

/-- The transaction is no longer open, and not one to come. -/
def Ended (e : Engine) (x : TxnId) : Prop :=
  x < e.txns.nextTxnId ∧ x ∉ e.txns.active

def viewOf (e : Engine) (txn : TxnId) : Option ReadView :=
  (e.txns.txns.get? txn).map TxnState.pinned

/-- Every open view sees the stamp, and so will every later one. -/
def Settled (e : Engine) (x : TxnId) : Prop :=
  x < e.txns.nextTxnId ∧ x ∉ e.txns.active ∧
    ∀ txn view, e.viewOf txn = some view → view.sees x = true

lemma Settled.ended {e : Engine} {x : TxnId} (hx : e.Settled x) : e.Ended x :=
  ⟨hx.1, hx.2.1⟩

def nextRow (e : Engine) (table : TableId) : Option RowId :=
  (e.tables.get? table).map Table.nextRowId

structure Same (e e' : Engine) : Prop where
  leaf : e'.leafAt = e.leafAt
  reclaim : e'.reclaim = e.reclaim
  core : e'.core = e.core
  active : e'.txns.active = e.txns.active
  next : e'.txns.nextTxnId = e.txns.nextTxnId
  gids : e'.txns.preparedGids = e.txns.preparedGids
  nextRow : e'.nextRow = e.nextRow
  passes : ∀ id p, e'.passes.get? id = some p →
    ∃ id' p', e.passes.get? id' = some p' ∧ p.snapshot = p'.snapshot

end Engine

/-- An undo list and the writes of the history name the same rows, now and at each savepoint. -/
structure UndoRep (undo : List UndoOp) (savepoints : List (String × Nat)) (writes : List Write)
    (marks : List (String × Nat)) : Prop where
  rel : MarkedLog.Rel (fun ops ws => ops.filterMap UndoOp.rowOf = ws.map Write.loc)
    (.ofCounts undo savepoints) (.ofCounts writes marks)
  counts : MarkedLog.CountsOk undo savepoints
  writeCounts : MarkedLog.CountsOk writes marks

structure TxnRep (h : History) (txn : TxnId) (c : TxnCore) (o : OpenTxn)
    (S : Sight := ReadView.sees) : Prop where
  level : c.level = o.level
  undo : UndoRep c.undo c.savepoints o.writes o.marks
  own : c.pinned.own = txn
  snapLe : o.snap ≤ h.commits.length
  sees : ∀ i k, h.commits[i]? = some k → (S c.pinned k.txn = true ↔ i < o.snap)
  /-- Nobody has committed a write to a row this transaction has written since its view. -/
  base : ∀ loc, Writes o.writes loc → ∀ i k, h.commits[i]? = some k → Writes k.writes loc →
    i < o.snap

structure Inv (e : Engine) (h : History) (S : Sight := ReadView.sees)
    (P : TxnId → Prop := e.Settled) : Prop where
  running : ∀ txn, (e.core txn).isSome = (h.running.get? txn).isSome
  txn : ∀ txn c o, e.core txn = some c → h.running.get? txn = some o → TxnRep h txn c o S
  active : ∀ txn, txn ∈ e.txns.active ↔ (e.core txn).isSome
  activeRange : ∀ txn ∈ e.txns.active, 0 < txn ∧ txn < e.txns.nextTxnId
  nextPos : 0 < e.txns.nextTxnId
  later : ∀ txn c x, e.core txn = some c → e.txns.nextTxnId ≤ x → S c.pinned x = false
  unseen : ∀ txn c txn', e.core txn = some c → txn' ∈ e.txns.active → txn' ≠ txn →
    S c.pinned txn' = false
  commits : ∀ k ∈ h.commits, 0 < k.txn ∧ k.txn < e.txns.nextTxnId ∧ k.txn ∉ e.txns.active
  commitsNodup : (h.commits.map Committed.txn).Nodup
  /-- Purge goes by transactions that have ended. -/
  ended : ∀ x, P x → e.Ended x
  store : ∃ slots, StoreInv e.leafAt e.reclaim P h.versions e.pendAt slots
  fresh : ∀ table n row, e.nextRow table = some n → n ≤ row → h.versions (table, row) = []
  passes : ∀ id p x, e.passes.get? id = some p → p.snapshot.settled x = true → P x
  gids : h.gids = e.txns.preparedGids
  prepared : ∀ gid txn, e.txns.preparedGids.get? gid = some txn →
    ∃ c info, e.core txn = some c ∧ c.prepared = some info ∧ info.gid = gid

variable {e e' : Engine} {h : History} {txn : TxnId} {loc : Loc} {S : Sight}
  {P P' : TxnId → Prop}

lemma Engine.viewOf_of_core {c : TxnCore} (hc : e.core txn = some c) :
    e.viewOf txn = some c.pinned := by
  obtain ⟨s, hs, rfl⟩ := Option.map_eq_some_iff.mp hc
  unfold viewOf
  rw [hs]
  rfl

lemma Engine.pendAt_congr (hcore : e'.core = e.core) : e'.pendAt = e.pendAt := by
  funext t loc
  simp only [pendAt, hcore]

lemma Inv.ofStore (hinv : Inv e h S P) (hcore : e'.core = e.core)
    (hactive : e'.txns.active = e.txns.active) (hnext : e'.txns.nextTxnId = e.txns.nextTxnId)
    (hgids : e'.txns.preparedGids = e.txns.preparedGids)
    (hrow : ∀ table n', e'.nextRow table = some n' → ∃ n, e.nextRow table = some n ∧ n ≤ n')
    (hpasses : ∀ id p x, e'.passes.get? id = some p → p.snapshot.settled x = true → P x)
    (hstore : ∃ slots, StoreInv e'.leafAt e'.reclaim P h.versions e.pendAt slots) :
    Inv e' h S P := by
  have hpend := pendAt_congr hcore
  refine ⟨?_, ?_, ?_, ?_, ?_, ?_, ?_, ?_, hinv.commitsNodup, ?_, ?_, ?_, hpasses, ?_, ?_⟩
  · rw [hcore]; exact hinv.running
  · rw [hcore]; exact hinv.txn
  · rw [hcore, hactive]; exact hinv.active
  · rw [hactive, hnext]; exact hinv.activeRange
  · rw [hnext]; exact hinv.nextPos
  · rw [hcore, hnext]; exact hinv.later
  · rw [hcore, hactive]; exact hinv.unseen
  · rw [hactive, hnext]; exact hinv.commits
  · unfold Ended; rw [hactive, hnext]; exact hinv.ended
  · rw [hpend]; exact hstore
  · intro table n' row hn' hle
    obtain ⟨n, hn, hnn⟩ := hrow table n' hn'
    exact hinv.fresh table n row hn (le_trans hnn hle)
  · rw [hgids]; exact hinv.gids
  · rw [hgids, hcore]; exact hinv.prepared

lemma Inv.congr (hinv : Inv e h S P) (hs : e.Same e') : Inv e' h S P := by
  refine hinv.ofStore hs.core hs.active hs.next hs.gids ?_ ?_ ?_
  · rw [hs.nextRow]
    exact fun _ n hn => ⟨n, hn, le_refl n⟩
  · intro id p x hp hx
    obtain ⟨id', p', hp', hsnap⟩ := hs.passes id p hp
    exact hinv.passes id' p' x hp' (hsnap ▸ hx)
  · rw [hs.leaf, hs.reclaim]
    exact hinv.store

lemma TxnRep.congr {h' : History} {c : TxnCore} {o : OpenTxn} (hr : TxnRep h txn c o S)
    (hcommits : h'.commits = h.commits) : TxnRep h' txn c o S := by
  obtain ⟨level, undo, own, snapLe, sees, base⟩ := hr
  rw [← hcommits] at snapLe sees base
  exact ⟨level, undo, own, snapLe, sees, base⟩

variable {table : TableId} {f : Table → Table} {g : OrdMap RowId Version → OrdMap RowId Version}

lemma Engine.leafAt_modifyTable (hf : ∀ t, (f t).rows = g t.rows) (loc : Loc) :
    (e.modifyTable table f).leafAt loc =
      if loc.1 = table then (e.tables.get? table).bind fun t => (g t.rows).get? loc.2
      else e.leafAt loc := by
  unfold leafAt leaf modifyTable
  rw [get?_modify]
  by_cases ht : table = loc.1
  · subst ht
    rw [if_pos rfl, if_pos rfl]
    cases e.tables.get? loc.1 with
    | none => rfl
    | some t => simp [hf]
  · rw [if_neg ht, if_neg (Ne.symm ht)]

lemma Engine.nextRow_modifyTable (hf : ∀ t, (f t).nextRowId = t.nextRowId) :
    (e.modifyTable table f).nextRow = e.nextRow :=
  funext fun _ => map_get?_modify_self hf ..

variable {row : RowId}

namespace Engine

lemma leafAt_modifyTable_row {l : Option Version} (hf : ∀ t, (f t).rows = g t.rows)
    (hrow : ∀ t, e.tables.get? table = some t → (g t.rows).get? row = l)
    (hnone : e.tables.get? table = none → l = none)
    (hother : ∀ rows row', row' ≠ row → (g rows).get? row' = rows.get? row') :
    (e.modifyTable table f).leafAt = Function.update e.leafAt (table, row) l := by
  funext loc
  obtain ⟨table', row'⟩ := loc
  rw [leafAt_modifyTable hf]
  by_cases ht : table' = table
  · subst ht
    rw [if_pos rfl]
    by_cases hr : row' = row
    · subst hr
      rw [Function.update_self]
      cases htab : e.tables.get? table' with
      | none => exact (hnone htab).symm
      | some t => exact hrow t htab
    · rw [Function.update_of_ne (fun heq => hr (Prod.mk.inj heq).2)]
      unfold leafAt leaf
      cases e.tables.get? table' with
      | none => rfl
      | some t => exact hother t.rows row' hr
  · rw [if_neg ht, Function.update_of_ne (fun heq => ht (Prod.mk.inj heq).1)]

lemma leafAt_eq_of_table {t : Table} (ht : e.tables.get? table = some t) (row : RowId) :
    e.leafAt (table, row) = t.rows.get? row := by
  simp [leafAt, leaf, ht]

lemma leafAt_eq_none_of_table (ht : e.tables.get? table = none) (row : RowId) :
    e.leafAt (table, row) = none := by
  simp [leafAt, leaf, ht]

lemma leafAt_erase (hf : ∀ t, (f t).rows = t.rows.erase row) :
    (e.modifyTable table f).leafAt = Function.update e.leafAt (table, row) none :=
  leafAt_modifyTable_row (g := fun rows => rows.erase row) hf
    (fun _ _ => get?_erase_self ..) (fun _ => rfl)
    (fun rows row' hne => by rw [get?_erase, if_neg (Ne.symm hne)])

lemma leafAt_modify {k : Version → Version} (hf : ∀ t, (f t).rows = t.rows.modify row k) :
    (e.modifyTable table f).leafAt =
      Function.update e.leafAt (table, row) ((e.leafAt (table, row)).map k) := by
  refine leafAt_modifyTable_row (g := fun rows => rows.modify row k) hf ?_ ?_ ?_
  · intro t ht
    rw [leafAt_eq_of_table ht, get?_modify, if_pos rfl]
  · intro ht
    rw [leafAt_eq_none_of_table ht]
    rfl
  · intro rows row' hne
    rw [get?_modify, if_neg (Ne.symm hne)]

lemma leafAt_insert {v : Version} (hf : ∀ t, (f t).rows = t.rows.insert row v)
    (ht : (e.tables.get? table).isSome) :
    (e.modifyTable table f).leafAt = Function.update e.leafAt (table, row) (some v) := by
  refine leafAt_modifyTable_row (g := fun rows => rows.insert row v) hf ?_ ?_ ?_
  · intro t _
    rw [get?_insert_self]
  · intro hnone
    rw [hnone] at ht
    cases ht
  · intro rows row' hne
    rw [get?_insert, if_neg (Ne.symm hne)]

lemma leafAt_keep (hf : ∀ t, (f t).rows = t.rows) :
    (e.modifyTable table f).leafAt = e.leafAt := by
  funext loc
  rw [leafAt_modifyTable (g := fun rows => rows) hf]
  by_cases ht : loc.1 = table
  · subst ht
    rw [if_pos rfl]
    rfl
  · rw [if_neg ht]

end Engine

variable {ops : List UndoOp}

lemma opsAt_cons_self {op : UndoOp} (h : op.rowOf = some loc) :
    opsAt loc (op :: ops) = op :: opsAt loc ops := by
  simp [opsAt, h]

lemma opsAt_cons_other {op : UndoOp} (h : op.rowOf ≠ some loc) :
    opsAt loc (op :: ops) = opsAt loc ops := by
  simp [opsAt, h]

lemma length_opsAt_eq {writes : List Write}
    (h : ops.filterMap UndoOp.rowOf = writes.map Write.loc) (loc : Loc) :
    (opsAt loc ops).length = (writes.filter fun w => decide (w.loc = loc)).length := by
  have h1 : (opsAt loc ops).length =
      ((ops.filterMap UndoOp.rowOf).filter fun l => decide (l = loc)).length := by
    clear h
    induction ops with
    | nil => rfl
    | cons op ops ih =>
      rcases hrow : op.rowOf with _ | l
      · rw [opsAt_cons_other (by rw [hrow]; simp), ih, filterMap_cons_none hrow]
      rw [filterMap_cons_some hrow]
      by_cases hl : l = loc
      · subst hl
        rw [opsAt_cons_self hrow, filter_cons_of_pos (by simp), length_cons, length_cons, ih]
      · rw [opsAt_cons_other (by rw [hrow]; simpa using hl),
          filter_cons_of_neg (by simpa using hl), ih]
  rw [h1, h, filter_map, length_map]
  rfl

variable {o : OpenTxn}

lemma TxnRep.locs {c : TxnCore} (hr : TxnRep h txn c o S) :
    c.undo.filterMap UndoOp.rowOf = o.writes.map Write.loc :=
  hr.undo.rel.items

lemma TxnRep.opsAt_ne_nil_iff {c : TxnCore} (hr : TxnRep h txn c o S) (loc : Loc) :
    opsAt loc c.undo ≠ [] ↔ Writes o.writes loc := by
  rw [writes_iff_filter, ← length_pos_iff, ← length_pos_iff, length_opsAt_eq hr.locs]

lemma Inv.writer (hinv : Inv e h S P) {txn' : TxnId} {o' : OpenTxn} (ho : h.running.get? txn = some o)
    (ho' : h.running.get? txn' = some o') (hw : Writes o.writes loc) (hw' : Writes o'.writes loc) :
    txn = txn' := by
  obtain ⟨slots, hstore⟩ := hinv.store
  have key : ∀ {t : TxnId} {p : OpenTxn}, h.running.get? t = some p → Writes p.writes loc →
      e.pendAt t loc ≠ [] := by
    intro t p hp hwp
    have hsome : (e.core t).isSome := by
      rw [hinv.running, hp]
      rfl
    obtain ⟨c, hc⟩ := Option.isSome_iff_exists.mp hsome
    simp only [pendAt, hc]
    exact ((hinv.txn t c p hc hp).opsAt_ne_nil_iff loc).mpr hwp
  exact hstore.writer txn txn' loc (key ho hw) (key ho' hw')

lemma Inv.sole (hinv : Inv e h S P) (ho : h.running.get? txn = some o) (hw : Writes o.writes loc) :
    h.Sole txn loc := by
  intro t o' ht hne hw'
  exact hne (hinv.writer ht ho hw' hw)

lemma Engine.core_of_pend (hpend : e.pendAt txn loc ≠ []) : (e.core txn).isSome := by
  unfold pendAt at hpend
  split at hpend
  · exact absurd rfl hpend
  · rename_i c hc
    rw [hc]
    rfl

/-- Purge may go by more transactions, as long as they have ended. -/
lemma Inv.widen (hinv : Inv e h S P) (hP : ∀ x, P x → P' x) (hended : ∀ x, P' x → e.Ended x) :
    Inv e h S P' := by
  obtain ⟨slots, hstore⟩ := hinv.store
  refine { hinv with
    ended := hended
    store := ⟨slots, hstore.mono hP fun t loc hpend hset => ?_⟩
    passes := fun id p x hp hx => hP x (hinv.passes id p x hp hx) }
  exact (hended t hset).2 ((hinv.active t).mpr (core_of_pend hpend))

end NusaDb
