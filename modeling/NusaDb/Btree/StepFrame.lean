import NusaDb.Btree.Thin

/-!
# What calls leave alone

Every call but purge keeps the tables, the indexes and the passes under way, and lets transaction
ids only grow (`Engine.Frame`, `Engine.frame_step`). Every call but `begin` and `begin_statement`
leaves the open transactions with the views they have (`Engine.views_step`). So a settled transaction
stays settled (`Engine.settled_step`), and with that every call and every run keeps the invariant
(`Inv.step`, `Inv.run`). The lemmas on dead rows rest on these facts and not on the calls' own code.
-/

namespace NusaDb

open List Option Engine OrdMap TxnDomain

variable {e e' : Engine} {h : History} {txn : TxnId}

/-! ## The views of open transactions -/

/-- The open transactions are among those before, with the views they had. -/
def Engine.Pins (e e' : Engine) : Prop :=
  ∀ t v, e'.viewOf t = some v → e.viewOf t = some v

lemma Engine.core_of_viewOf {t : TxnId} {v : ReadView} (hv : e.viewOf t = some v) :
    ∃ c, e.core t = some c ∧ c.pinned = v := by
  obtain ⟨s, hs, rfl⟩ := map_eq_some_iff.mp hv
  exact ⟨s.core, core_of_get? hs, rfl⟩

lemma Engine.pins_of_eq (htxns : e'.txns.txns = e.txns.txns) : e.Pins e' := by
  intro t v hv
  unfold viewOf at hv ⊢
  rwa [htxns] at hv

lemma Engine.pins_of_modify {f : TxnState → TxnState}
    (htxns : e'.txns.txns = e.txns.txns.modify txn f) (hf : ∀ s, (f s).pinned = s.pinned) :
    e.Pins e' := by
  intro t v hv
  unfold viewOf at hv ⊢
  rwa [htxns, map_get?_modify_self hf] at hv

lemma Engine.pins_of_erase (htxns : e'.txns.txns = e.txns.txns.erase txn) : e.Pins e' := by
  intro t v hv
  unfold viewOf at hv ⊢
  rw [htxns, get?_erase] at hv
  split at hv
  · cases hv
  · exact hv

lemma Engine.Quiet.pins (hq : e.Quiet e') : e.Pins e' := by
  intro t v hv
  have hlocks : ∀ o : Option TxnState,
      o.map TxnState.pinned = (o.map TxnState.sansLocks).map TxnState.pinned := by
    intro o
    rw [Option.map_map]
    rfl
  unfold viewOf at hv ⊢
  rwa [hlocks, hq.txn, ← hlocks] at hv

def Op.isPurge : Op → Bool
  | .purgeStart => true
  | .purgeStep .. => true
  | _ => false

/-- The transaction for which a call takes a view. -/
def Op.taker (next : TxnId) : Op → Option TxnId
  | .begin _ => some next
  | .beginStatement txn => some txn
  | _ => none

/-! ## Calls other than purge -/

/-- What a call other than purge keeps: tables, indexes and passes under way; transaction ids go up,
a new transaction has a new one, and nobody but `taker` gets a view. -/
structure Engine.Frame (e e' : Engine) (taker : Option TxnId := none) : Prop where
  tables : ∀ table, (e'.tables.get? table).isSome = (e.tables.get? table).isSome
  indexSign : e'.indexSign = e.indexSign
  passes : e'.passes = e.passes
  next : e.txns.nextTxnId ≤ e'.txns.nextTxnId
  active : ∀ t ∈ e'.txns.active, t ∈ e.txns.active ∨ e.txns.nextTxnId ≤ t
  views : ∀ t v, some t ≠ taker → e'.viewOf t = some v → e.viewOf t = some v

lemma Engine.Frame.same (htables : e'.tableSign = e.tableSign)
    (hindex : e'.indexSign = e.indexSign) (hpasses : e'.passes = e.passes)
    (hnext : e'.txns.nextTxnId = e.txns.nextTxnId)
    (hactive : ∀ t ∈ e'.txns.active, t ∈ e.txns.active) (hpins : e.Pins e') : e.Frame e' where
  tables table := by
    have hsign := congrFun htables table
    unfold tableSign at hsign
    rw [← isSome_map (f := Table.sign), hsign, isSome_map]
  indexSign := hindex
  passes := hpasses
  next := le_of_eq hnext.symm
  active t ht := .inl (hactive t ht)
  views t v _ := hpins t v

/-- A change of the transactions alone that leaves views where they are. -/
lemma Engine.Frame.txns {d : TxnDomain} (hnext : d.nextTxnId = e.txns.nextTxnId)
    (hactive : d.active = e.txns.active) (hpins : e.Pins { e with txns := d }) :
    e.Frame { e with txns := d } :=
  .same rfl rfl rfl hnext (fun _ ht => hactive ▸ ht) hpins

lemma Engine.Frame.refl (e : Engine) : e.Frame e :=
  .txns rfl rfl fun _ _ hv => hv

lemma Engine.Frame.mono (hframe : e.Frame e') (taker : Option TxnId) : e.Frame e' taker :=
  { hframe with views := fun t v _ => hframe.views t v (some_ne_none t) }

lemma Engine.Frame.trans {e'' : Engine} (h1 : e.Frame e') (h2 : e'.Frame e'') : e.Frame e'' where
  tables table := (h2.tables table).trans (h1.tables table)
  indexSign := h2.indexSign.trans h1.indexSign
  passes := h2.passes.trans h1.passes
  next := le_trans h1.next h2.next
  active t ht := by
    rcases h2.active t ht with hold | hnew
    · exact h1.active t hold
    · exact .inr (le_trans h1.next hnew)
  views t v ht hv := h1.views t v ht (h2.views t v ht hv)

lemma Engine.Quiet.frame (hq : e.Quiet e') : e.Frame e' :=
  .same hq.tableSign hq.indexSign hq.passes hq.next (fun _ ht => hq.active ▸ ht) hq.pins

lemma Engine.frame_modifyTable {table : TableId} {f : Table → Table}
    (htables : e'.tables = (e.modifyTable table f).tables) (hindexes : e'.indexes = e.indexes)
    (hpasses : e'.passes = e.passes) (hnext : e'.txns.nextTxnId = e.txns.nextTxnId)
    (hactive : e'.txns.active = e.txns.active) (hpins : e.Pins e') : e.Frame e' where
  tables table' := by
    rw [htables]
    exact OrdMap.isSome_get?_modify e.tables table table' f
  indexSign := by
    unfold indexSign
    rw [hindexes]
  passes := hpasses
  next := le_of_eq hnext.symm
  active t ht := .inl (hactive ▸ ht)
  views t v _ := hpins t v

lemma Engine.frame_insertRows (txn : TxnId) (table : TableId) (tuples : List Tuple) (e : Engine)
    (row : RowId) : e.Frame (insertRows txn table e row tuples) := by
  induction tuples generalizing e row with
  | nil => exact .refl e
  | cons tuple rest ih =>
    refine Frame.trans ?_ (ih _ _)
    exact frame_modifyTable rfl rfl rfl rfl rfl (pins_of_modify rfl fun _ => rfl)

lemma Engine.frame_modifyIndex {f : IndexData → IndexData} (htables : e'.tables = e.tables)
    (hindexes : e'.indexes = (e.modifyIndex index f).indexes) (hpasses : e'.passes = e.passes)
    (hnext : e'.txns.nextTxnId = e.txns.nextTxnId) (hactive : e'.txns.active = e.txns.active)
    (hpins : e.Pins e') : e.Frame e' := by
  refine .same ?_ ?_ hpasses hnext (fun t ht => hactive ▸ ht) hpins
  · unfold tableSign
    rw [htables]
  · rw [← e.indexSign_modifyIndex index f]
    unfold indexSign
    rw [hindexes]

variable (e txn) (index : IndexId) (key : Key) (tid : Tid)

lemma Engine.indexSign_indexInsert :
    (e.indexInsert txn index key tid).1.indexSign = e.indexSign := by
  rcases e.indexInsert_cases txn index key tid with ⟨err, heq⟩ | ⟨s, i, -, -, heq⟩ <;> rw [heq]
  exact e.indexSign_modifyIndex index fun d => (d.applyInsert key (rowIdOf tid) txn).1

lemma Engine.frame_indexInsert : e.Frame (e.indexInsert txn index key tid).1 := by
  rcases e.indexInsert_cases txn index key tid with ⟨err, heq⟩ | ⟨s, i, -, -, heq⟩ <;> rw [heq]
  · exact .refl e
  · exact frame_modifyIndex (f := fun d => (d.applyInsert key (rowIdOf tid) txn).1)
      rfl rfl rfl rfl rfl (pins_of_modify rfl fun _ => rfl)

lemma Engine.frame_indexDelete : e.Frame (e.indexDelete txn index key tid).1 := by
  rcases e.indexDelete_cases txn index key tid with ⟨r, heq⟩ | ⟨s, i, -, -, heq⟩ <;> rw [heq]
  · exact .refl e
  · exact frame_modifyIndex (f := fun d => (d.applyDelete key (rowIdOf tid)).1)
      rfl rfl rfl rfl rfl (pins_of_modify rfl fun _ => rfl)

lemma Engine.frame_undoOps (ops : List UndoOp) : e.Frame (e.undoOps txn ops) := by
  obtain ⟨htables, hindexes, -⟩ := e.undoOps_signs txn ops
  obtain ⟨htxns, hpasses, -⟩ := e.undoOps_frame txn ops
  exact .same htables hindexes hpasses (by rw [htxns]) (fun t ht => htxns ▸ ht)
    (pins_of_eq (by rw [htxns]))

lemma Engine.frame_abortWith (s : TxnState) (logMarker : Bool) :
    e.Frame ((e.takeTxn txn).abortWith txn s logMarker) := by
  obtain ⟨htxns, hactive, hnext, -, hpasses, -⟩ := (e.takeTxn txn).abortWith_fields txn s logMarker
  obtain ⟨htables, hindexes, -⟩ := (e.takeTxn txn).undoOps_signs txn s.undo
  have hsigns : ((e.takeTxn txn).abortWith txn s logMarker).tableSign = e.tableSign ∧
      ((e.takeTxn txn).abortWith txn s logMarker).indexSign = e.indexSign := by
    unfold abortWith
    split
    · exact ⟨htables, hindexes⟩
    · exact ⟨htables, hindexes⟩
  refine .same hsigns.1 hsigns.2 hpasses hnext (fun t ht => ?_) (pins_of_erase htxns)
  rw [hactive] at ht
  exact ((mem_filter_ne t).mp ht).1

variable {e txn}

lemma Engine.frame_finishCommit {d : TxnDomain} (htxns : d.txns = e.txns.txns)
    (hactive : d.active = e.txns.active) (hnext : d.nextTxnId = e.txns.nextTxnId)
    (htables : e'.tables = e.tables) (hindexes : e'.indexes = e.indexes)
    (hpasses : e'.passes = e.passes) (he : e'.txns = d.finishCommit txn) : e.Frame e' := by
  have hfields : (d.finishCommit txn).active = d.active.filter (· ≠ txn) ∧
      (d.finishCommit txn).nextTxnId = d.nextTxnId ∧ e.Pins e' := by
    cases hs : d.txns.get? txn with
    | none =>
      unfold finishCommit at he ⊢
      rw [hs] at he ⊢
      exact ⟨rfl, rfl, pins_of_eq (by rw [he, ← htxns])⟩
    | some s =>
      obtain ⟨htxns', hactive', hnext', -⟩ := finishCommit_fields hs
      have herase : e'.txns.txns = e.txns.txns.erase txn := by rw [he, htxns', htxns]
      exact ⟨hactive', hnext', pins_of_erase herase⟩
  obtain ⟨hactive', hnext', hpins⟩ := hfields
  refine .same ?_ ?_ hpasses (by rw [he, hnext', hnext]) (fun t ht => ?_) hpins
  · unfold tableSign
    rw [htables]
  · unfold indexSign
    rw [hindexes]
  · rw [he, hactive', hactive] at ht
    exact ((mem_filter_ne t).mp ht).1

/-- **A call other than purge keeps tables, indexes and passes, and the views of all transactions but
its own.** -/
theorem Engine.frame_step (e : Engine) (op : Op) (hop : op.isPurge = false) :
    e.Frame (e.step op).1 (op.taker e.txns.nextTxnId) := by
  have heff := e.step_effect op
  generalize (e.step op).2 = out at heff
  generalize (e.step op).1 = e' at heff ⊢
  cases heff with
  | quiet hq hrec => exact hq.frame.mono _
  | begin level =>
    refine ⟨fun _ => rfl, rfl, rfl, Nat.le_succ _, fun t ht => ?_, fun t v ht hv => ?_⟩
    · rcases mem_cons.mp ht with rfl | hold
      · exact .inr (le_rfl)
      · exact .inl hold
    · change ((e.txns.txns.insert e.txns.nextTxnId _).get? t).map TxnState.pinned = some v at hv
      rwa [get?_insert, if_neg fun heq => ht (congrArg some heq.symm)] at hv
  | beginStatement txn =>
    unfold beginStatement
    split
    · exact (Frame.refl e).mono _
    split
    · refine ⟨fun _ => rfl, rfl, rfl, le_rfl, fun _ ht => .inl ht, fun t v ht hv => ?_⟩
      change ((e.txns.txns.modify txn _).get? t).map TxnState.pinned = some v at hv
      rwa [get?_modify, if_neg fun heq => ht (congrArg some heq.symm)] at hv
    · exact (Frame.refl e).mono _
  | insert hq hs ht | update hq hs hold hadm | delete hq hs hold hadm =>
    exact hq.frame.trans (frame_modifyTable rfl rfl rfl rfl rfl (pins_of_modify rfl fun _ => rfl))
  | @insertBatch txn table tuples e1 t s hq hs ht =>
    have hnext : e1.Frame (e1.modifyTable table fun t' =>
        { t' with nextRowId := t.nextRowId + tuples.length, purgeGen := t'.purgeGen + 1 }) :=
      frame_modifyTable rfl rfl rfl rfl rfl (pins_of_eq rfl)
    have hrows := hnext.trans (frame_insertRows txn table tuples _ t.nextRowId)
    exact hq.frame.trans (hrows.trans (.same rfl rfl rfl rfl (fun _ ht => ht) (pins_of_eq rfl)))
  | scan | indexScan | savepoint | releaseSavepoint =>
    exact .txns rfl rfl (pins_of_modify rfl fun _ => rfl)
  | prepareTxn =>
    exact .same rfl rfl rfl rfl (fun _ ht => ht) (pins_of_modify rfl fun _ => rfl)
  | indexInsert => exact e.frame_indexInsert ..
  | indexInsertBatch =>
    refine indexInsertEach_induct (P := fun d => e.Frame d) ?_ _ (.refl e)
    intro d key tid hd
    exact hd.trans (d.frame_indexInsert ..)
  | indexDelete => exact e.frame_indexDelete ..
  | @rollbackTo txn name s mark older hs hdrop =>
    refine Frame.trans ?_ (frame_undoOps _ txn _)
    exact .same rfl rfl rfl rfl (fun _ ht => ht) (pins_of_modify rfl fun _ => rfl)
  | @commit txn s hs hprepared hclean =>
    let d := (e.txns.bumpStagedVersions txn).bumpFinishedVersions txn
    exact frame_finishCommit (d := d) rfl rfl rfl rfl rfl rfl rfl
  | @abort _ _ txn s e1 hq hs hprepared hrec =>
    exact (hq.frame.trans (e1.frame_abortWith txn s true)).mono _
  | @finishPrepared gid owner commit txn hgid =>
    cases commit with
    | true =>
      let d := bumpFinishedVersions
        { e.txns with preparedGids := e.txns.preparedGids.erase gid } txn
      exact frame_finishCommit (d := d) rfl rfl rfl rfl rfl rfl rfl
    | false =>
      cases hs : e.txns.txns.get? txn with
      | none =>
        rw [finishTxn_none hs]
        exact .same rfl rfl rfl rfl (fun _ ht => ht) (pins_of_eq rfl)
      | some s =>
        rw [finishTxn_abort hs]
        refine Frame.trans ?_ (frame_abortWith _ txn s false)
        exact .same rfl rfl rfl rfl (fun _ ht => ht) (pins_of_eq rfl)
  | purgeStart | purgeStep => cases hop

lemma Engine.purge_txns (e : Engine) {op : Op} (hop : op.isPurge = true) :
    (e.step op).1.txns = e.txns := by
  cases op with
  | purgeStart => rfl
  | purgeStep pass pressure => exact e.purgeStep_txns pass pressure
  | _ => cases hop

/-- Transaction ids only grow, and a transaction that becomes active has a new one. -/
lemma Engine.ids_step (e : Engine) (op : Op) : e.txns.nextTxnId ≤ (e.step op).1.txns.nextTxnId ∧
    ∀ t ∈ (e.step op).1.txns.active, t ∈ e.txns.active ∨ e.txns.nextTxnId ≤ t := by
  cases hop : op.isPurge with
  | false => exact ⟨(e.frame_step op hop).next, (e.frame_step op hop).active⟩
  | true =>
    rw [e.purge_txns hop]
    exact ⟨le_rfl, fun t ht => .inl ht⟩

/-- **Only `begin` and `begin_statement` pin a view**, and for their own transaction: the others that
are open after a call were so before it, with the views they have. -/
theorem Engine.views_step (e : Engine) (op : Op) {t : TxnId} {v : ReadView}
    (ht : some t ≠ op.taker e.txns.nextTxnId) (hv : (e.step op).1.viewOf t = some v) :
    e.viewOf t = some v := by
  cases hop : op.isPurge with
  | false => exact (e.frame_step op hop).views t v ht hv
  | true =>
    unfold viewOf at hv ⊢
    rwa [e.purge_txns hop] at hv

/-! ## Settled transactions -/

lemma Engine.settled_modifyTxn {f : TxnState → TxnState} (hf : ∀ s, (f s).pinned = s.pinned) :
    Settled { e with txns := e.txns.modifyTxn txn f } = e.Settled := by
  have hview : viewOf { e with txns := e.txns.modifyTxn txn f } = e.viewOf :=
    funext fun _ => map_get?_modify_self hf ..
  unfold Settled
  rw [hview]
  rfl

/-- **A settled transaction stays settled**: an open view is one that was open before, or one just
taken, and a new view sees whatever has ended. -/
theorem Engine.settled_step (e : Engine) (op : Op) :
    ∀ x, e.Settled x → (e.step op).1.Settled x := by
  intro x hx
  obtain ⟨hnext, hactive⟩ := e.ids_step op
  refine ⟨lt_of_lt_of_le hx.1 hnext, ?_, ?_⟩
  · intro hmem
    rcases hactive x hmem with hold | hnew
    · exact hx.2.1 hold
    · exact absurd hx.1 (not_lt.mpr hnew)
  intro t view hview
  have hkept : some t ≠ op.taker e.txns.nextTxnId → view.sees x = true := fun ht =>
    hx.2.2 t view (e.views_step op ht hview)
  cases op with
  | begin level =>
    change ((e.txns.txns.insert e.txns.nextTxnId _).get? t).map TxnState.pinned = some view at hview
    rw [get?_insert] at hview
    split at hview
    · cases hview
      refine (freshView_sees_iff ..).mpr (.inr ⟨Nat.lt_succ_of_lt hx.1, ?_⟩)
      intro hmem
      rcases mem_cons.mp hmem with heq | hmem
      · exact absurd hx.1 (heq ▸ lt_irrefl _)
      · exact hx.2.1 hmem
    · exact hx.2.2 t view hview
  | beginStatement txn =>
    change (e.beginStatement txn).viewOf t = some view at hview
    unfold Engine.beginStatement at hview
    split at hview
    · exact hx.2.2 t view hview
    split at hview
    · change ((e.txns.txns.modify txn _).get? t).map TxnState.pinned = some view at hview
      rw [get?_modify] at hview
      split at hview
      · obtain ⟨s, hs, rfl⟩ := map_eq_some_iff.mp hview
        obtain ⟨s', -, rfl⟩ := map_eq_some_iff.mp hs
        exact (freshView_sees_iff ..).mpr (.inr hx.ended)
      · exact hx.2.2 t view hview
    · exact hx.2.2 t view hview
  | _ => exact hkept (some_ne_none t)

/-! ## Runs -/

/-- **Every call keeps the invariant**, with the history extended by the call. -/
theorem Inv.step (hinv : Inv e h) (op : Op) : Inv (e.step op).1 (h.record (op, (e.step op).2)) := by
  by_cases hstart : op = .purgeStart
  · subst hstart
    exact hinv.purgeStart
  · exact (hinv.keep hstart).widen (e.settled_step op) fun x hx => hx.ended

/-- **A whole run keeps the invariant**, purge calls among the others. -/
theorem Inv.run (hinv : Inv e h) (ops : List Op) :
    Inv (e.run ops).1 ((e.run ops).2.foldl History.record h) := by
  induction ops generalizing e h with
  | nil => exact hinv
  | cons op ops ih => exact ih (hinv.step op)

/-- Every state a run reaches from a fresh engine agrees with the run's history. -/
lemma Inv.reachable (hf : e.Fresh) (ops : List Op) :
    Inv (e.run ops).1 (History.of (e.run ops).2) :=
  (Inv.init hf).run ops

end NusaDb
