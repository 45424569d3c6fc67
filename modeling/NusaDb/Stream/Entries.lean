import NusaDb.Stream.Held

/-!
# Index entries under a held view

A range that a transaction enters, stamps dead or takes back shows to a view only if the view sees
the transaction, and purge drops entries of rows that no held view sees. Only an entry taken out by
hand is gone for every view at once.
-/

namespace NusaDb

open List Option Engine OrdMap

open History (Ver)
open IndexData RowEntries

/-- The undo entry puts a range of the index back that was taken out by hand. -/
def UndoOp.restoresAt (index : IndexId) : UndoOp → Bool
  | .indexDeleted index' _ _ _ => index' == index
  | _ => false

namespace Engine

/-- No open transaction has taken an entry of the index out by hand. -/
def NoneTaken (index : IndexId) (e : Engine) : Prop :=
  ∀ t s, e.txns.txns.get? t = some s → ∀ u ∈ s.undo, u.restoresAt index = false

def entrySeen (e : Engine) (view : ReadView) (index : IndexId) (k : EntryKey) : Bool :=
  (e.entriesAt (index, k.row)).any fun r => IndexData.entryVisible (r.ranges k.key) view

/-- What a view reads through an entry: the row, if it sees the entry. -/
def entryAt (e : Engine) (view : ReadView) (table : TableId) (index : IndexId) (k : EntryKey) :
    Option Tuple :=
  if e.entrySeen view index k then e.visibleAt view (table, k.row) else none

def UndoFrame (e e' : Engine) : Prop :=
  ∀ t s', e'.txns.txns.get? t = some s' → ∀ u ∈ s'.undo,
    u.entryOf = none ∨ ∃ s, e.txns.txns.get? t = some s ∧ u ∈ s.undo

/-- What other calls do to index entries: they take some of one transaction's changes back, if any. -/
structure EntryFrame (e : Engine) (op : Op) (e' : Engine) : Prop where
  undo : e.UndoFrame e'
  entries : ∃ t ops,
    (∀ u ∈ ops, op.changes e.txns.preparedGids = some t ∧
      ∃ s, e.txns.txns.get? t = some s ∧ u ∈ s.undo) ∧
    ∀ pos, e'.entriesAt pos =
      (e.entriesAt pos).map fun r => (entryOps pos ops).foldl (RowEntries.undone t) r

end Engine

variable {e e' e'' : Engine} {h : History} {txn : TxnId} {s : TxnState} {view : ReadView}
  {index : IndexId} {op : Op} {r : RowEntries} {key : Key}

/-! ## Undo lists -/

lemma Engine.UndoFrame.refl (e : Engine) : e.UndoFrame e :=
  fun _ s hs _ hu => .inr ⟨s, hs, hu⟩

lemma Engine.UndoFrame.trans (h1 : e.UndoFrame e') (h2 : e'.UndoFrame e'') : e.UndoFrame e'' := by
  intro t s'' hs'' u hu
  rcases h2 t s'' hs'' u hu with hrow | ⟨s', hs', hu'⟩
  · exact .inl hrow
  · exact h1 t s' hs' u hu'

lemma Engine.Quiet.undoFrame (hq : e.Quiet e') : e.UndoFrame e' := by
  intro t s' hs' u hu
  have hsans := hq.txn t
  rw [hs'] at hsans
  obtain ⟨s, hs, heq⟩ := map_eq_some_iff.mp hsans.symm
  have hundo : s.sansLocks.undo = s'.sansLocks.undo := congrArg TxnState.undo heq
  exact .inr ⟨s, hs, hundo ▸ hu⟩

lemma Engine.UndoFrame.modifyTxn {f : TxnState → TxnState}
    (htxns : e'.txns.txns = e.txns.txns.modify txn f)
    (hf : ∀ s, ∀ u ∈ (f s).undo, u.entryOf = none ∨ u ∈ s.undo) : e.UndoFrame e' := by
  intro t s' hs' u hu
  rw [htxns, get?_modify] at hs'
  split at hs'
  · rename_i ht
    obtain ⟨s, hs, rfl⟩ := map_eq_some_iff.mp hs'
    rcases hf s u hu with hrow | hold
    · exact .inl hrow
    · exact .inr ⟨s, ht ▸ hs, hold⟩
  · exact .inr ⟨s', hs', hu⟩

lemma Engine.UndoFrame.erase (htxns : e'.txns.txns = e.txns.txns.erase txn) : e.UndoFrame e' := by
  intro t s' hs' u hu
  rw [htxns, get?_erase] at hs'
  split at hs'
  · cases hs'
  · exact .inr ⟨s', hs', hu⟩

lemma Engine.UndoFrame.push {u : UndoOp} (hu : u.entryOf = none)
    (htxns : e'.txns = (e.pushUndo txn u).txns) : e.UndoFrame e' := by
  refine .modifyTxn (congrArg TxnDomain.txns htxns) ?_
  intro s u' hu'
  rcases mem_cons.mp hu' with rfl | hold
  · exact .inl hu
  · exact .inr hold

lemma Engine.undoFrame_insertRows (txn : TxnId) (table : TableId) (tuples : List Tuple)
    (e : Engine) (row : RowId) :
    e.UndoFrame (insertRows txn table e row tuples) ∧
      (insertRows txn table e row tuples).indexes = e.indexes := by
  induction tuples generalizing e row with
  | nil => exact ⟨.refl e, rfl⟩
  | cons tuple rest ih =>
    let e1 := (e.modifyTable table fun t =>
      { t with rows := t.rows.insert row ⟨RowMeta.fresh txn, tuple⟩ }).pushUndo txn
        (.inserted table row)
    obtain ⟨hrest, hindexes⟩ := ih e1 (row + 1)
    exact ⟨UndoFrame.trans (.push (u := .inserted table row) rfl rfl) hrest, hindexes⟩

/-! ## Calls that are not about entries -/

lemma Engine.EntryFrame.keep (hundo : e.UndoFrame e') (hindexes : e'.indexes = e.indexes) :
    e.EntryFrame op e' := by
  refine ⟨hundo, 0, [], fun u hu => absurd hu not_mem_nil, fun pos => ?_⟩
  unfold entriesAt
  rw [hindexes]
  show _ = Option.map (fun r => r) _
  rw [Option.map_id']

lemma Engine.EntryFrame.abort {e1 : Engine} (hs : e.txns.txns.get? txn = some s)
    (hop : op.changes e.txns.preparedGids = some txn)
    (htxns : e1.txns.txns = e.txns.txns.erase txn) (hindexes : e1.indexes = e.indexes)
    (logMarker : Bool) : e.EntryFrame op (e1.abortWith txn s logMarker) := by
  refine ⟨.erase (((e1.abortWith_fields txn s logMarker).1).trans htxns), txn, s.undo, ?_, ?_⟩
  · exact fun u hu => ⟨hop, s, hs, hu⟩
  · intro pos
    rw [(e1.abortWith_entries txn s logMarker pos).2]
    unfold entriesAt
    rw [hindexes]

lemma Inv.changes_of_drop {P : TxnId → Prop} (hinv : Inv e h ReadView.sees P) {out : Outcome}
    (hs : e.txns.txns.get? txn = some s)
    (hrec : h.record (op, out) = h.drop txn) : op.changes e.txns.preparedGids = some txn := by
  obtain ⟨o, -, ho⟩ := hinv.opened hs
  have hgone : (h.drop txn).running.get? txn = none := get?_erase_self ..
  by_contra hne
  rw [← hinv.gids] at hne
  by_cases hbegin : ∀ level, op = .begin level → out ≠ .ok (.txn txn)
  · obtain ⟨o', ho', -⟩ := History.running_record_other ho hne hbegin
    rw [hrec, hgone] at ho'
    cases ho'
  rw [not_forall] at hbegin
  obtain ⟨level, hlevel⟩ := hbegin
  rw [not_forall] at hlevel
  obtain ⟨rfl, hout⟩ := hlevel
  rw [not_not] at hout
  have hnew : (h.record (.begin level, out)).running.get? txn =
      some ⟨level, h.commits.length, [], []⟩ := by
    rw [hout]
    exact get?_insert_self ..
  rw [hrec, hgone] at hnew
  cases hnew

/-- Calls without key events leave every entry as it was, but for those they undo. -/
lemma Inv.entryFrame_step (hinv : Inv e h) (hev : e.keyEvents op = none)
    (hop : op.isPurge = false) : e.EntryFrame op (e.step op).1 := by
  have heff := e.step_effect op
  generalize (e.step op).2 = out at heff
  generalize (e.step op).1 = e' at heff ⊢
  cases heff with
  | quiet hq hrec => exact .keep hq.undoFrame hq.indexes
  | begin level =>
    refine .keep (fun t s' hs' u hu => ?_) rfl
    change (e.txns.txns.insert e.txns.nextTxnId _).get? t = some s' at hs'
    rw [get?_insert] at hs'
    split at hs'
    · cases hs'
      cases hu
    · exact .inr ⟨s', hs', hu⟩
  | beginStatement txn =>
    unfold Engine.beginStatement
    split
    · exact .keep (.refl e) rfl
    split
    · exact .keep (.modifyTxn rfl fun _ _ hu => .inr hu) rfl
    · exact .keep (.refl e) rfl
  | @insert txn table tuple e1 t s hq hs ht =>
    exact .keep (hq.undoFrame.trans (.push (u := .inserted table t.nextRowId) rfl rfl)) hq.indexes
  | @insertBatch txn table tuples e1 t s hq hs ht =>
    obtain ⟨hundo, hindexes⟩ := undoFrame_insertRows txn table tuples
      (e1.modifyTable table fun t' =>
        { t' with nextRowId := t.nextRowId + tuples.length, purgeGen := t'.purgeGen + 1 })
      t.nextRowId
    exact .keep (hq.undoFrame.trans hundo) (hindexes.trans hq.indexes)
  | @update txn table tid tuple e1 old s hq hs hold hadm =>
    exact .keep (hq.undoFrame.trans
      (.push (u := .updated table (rowIdOf tid) old (e1.reclaim.park old).2) rfl rfl)) hq.indexes
  | @delete txn table tid e1 old s hq hs hold hadm =>
    exact .keep (hq.undoFrame.trans (.push (u := .deleted table (rowIdOf tid) old) rfl rfl))
      hq.indexes
  | scan | indexScan | savepoint | releaseSavepoint =>
    exact .keep (.modifyTxn rfl fun _ _ hu => .inr hu) rfl
  | indexInsert | indexInsertBatch | indexDelete => cases hev
  | @rollbackTo txn name s mark older hs hdrop =>
    unfold Engine.undoTo
    refine ⟨?_, txn, s.undo.take (s.undo.length - mark), fun u hu => ?_, fun pos => ?_⟩
    · refine .modifyTxn (congrArg TxnDomain.txns (undoOps_frame _ txn _).1) ?_
      exact fun t u hu => .inr (mem_of_mem_drop hu)
    · exact ⟨rfl, s, hs, mem_of_mem_take hu⟩
    · rw [undoOps_entriesAt]
      rfl
  | @commit txn s hs hprepared hclean =>
    have hfields := TxnDomain.finishCommit_fields
      (d := (e.txns.bumpStagedVersions txn).bumpFinishedVersions txn) (show _ = some s from hs)
    exact .keep (.erase hfields.1) rfl
  | @abort op out txn s e1 hq hs hprepared hrec =>
    have hchanges := (hinv.congr hq.same).changes_of_drop hs (hrec h)
    have hframe : e1.EntryFrame op ((e1.takeTxn txn).abortWith txn s true) := by
      refine .abort hs hchanges ?_ ?_ true
      all_goals rfl
    obtain ⟨hundo, t, ops, hops, hentries⟩ := hframe
    refine ⟨hq.undoFrame.trans hundo, t, ops, fun u hu => ?_, fun pos => ?_⟩
    · obtain ⟨ht, s', hs', hmem⟩ := hops u hu
      rw [hq.gids] at ht
      -- the undo list is the one before the quiet change
      have hsans := hq.txn t
      rw [hs'] at hsans
      obtain ⟨s0, hs0, heq⟩ := map_eq_some_iff.mp hsans.symm
      have hundo0 : s0.sansLocks.undo = s'.sansLocks.undo := congrArg TxnState.undo heq
      exact ⟨ht, s0, hs0, hundo0 ▸ hmem⟩
    · have hpos := hentries pos
      rw [hq.entriesAt] at hpos
      exact hpos
  | @prepareTxn txn info s program hs hprepared hnew hclean hprogram =>
    exact .keep (.modifyTxn rfl fun _ _ hu => .inr hu) rfl
  | @finishPrepared gid owner commit txn hgid =>
    obtain ⟨c, -, hc, -⟩ := hinv.prepared gid txn hgid
    obtain ⟨s, hs, rfl⟩ := map_eq_some_iff.mp hc
    cases commit with
    | true =>
      have hfields := TxnDomain.finishCommit_fields (d := TxnDomain.bumpFinishedVersions
        { e.txns with preparedGids := e.txns.preparedGids.erase gid } txn) (show _ = some s from hs)
      exact .keep (.erase hfields.1) rfl
    | false =>
      rw [finishTxn_abort hs]
      refine .abort hs ?_ ?_ ?_ false
      · exact hgid
      all_goals rfl
  | purgeStart | purgeStep => cases hop

/-! ## What a view sees of an entry -/

def RowEntries.SeenAlike (view : ReadView) (r r' : RowEntries) : Prop :=
  ∀ key, IndexData.entryVisible (r'.ranges key) view = IndexData.entryVisible (r.ranges key) view

namespace RowEntries

lemma SeenAlike.trans {r' r'' : RowEntries} (h1 : SeenAlike view r r')
    (h2 : SeenAlike view r' r'') : SeenAlike view r r'' :=
  fun key => (h2 key).trans (h1 key)

lemma seenAlike_set {metas : List EntryMeta} (hmetas : entryVisible metas view = entryVisible
    (r.ranges key) view) : SeenAlike view r (r.set key metas) := by
  intro key'
  show entryVisible (Function.update r.ranges key metas key') view = _
  by_cases hk : key' = key
  · rw [hk, Function.update_self, hmetas]
  · rw [Function.update_of_ne hk]

variable (hsees : view.sees txn = false)

include hsees

lemma seenAlike_stamp : SeenAlike view r (r.stamp key txn) := by
  refine seenAlike_set (any_modifyLast (fun m hm => ?_) _)
  simp [hsees, hm]

lemma seenAlike_push : SeenAlike view r (r.push key ⟨txn, noXmax⟩) := by
  have hset : SeenAlike view r (r.set key (r.ranges key ++ [⟨txn, noXmax⟩])) := by
    refine seenAlike_set ?_
    unfold entryVisible
    rw [any_append, any_cons, any_nil, hsees, Bool.false_and, Bool.or_false, Bool.or_false]
  exact hset

lemma seenAlike_insert : SeenAlike view r (r.insert key txn).1 := by
  unfold insert
  split
  · split
    · exact fun _ => rfl
    · exact (seenAlike_stamp hsees).trans (seenAlike_push hsees)
  · exact seenAlike_push hsees

lemma seenAlike_removeInserted : SeenAlike view r (r.removeInserted key txn) := by
  have hset : SeenAlike view r
      (r.set key (eraseLast (fun m => m.xmin == txn && m.xmax == noXmax) (r.ranges key))) := by
    refine seenAlike_set (any_eraseLast (fun m hm => ?_) _)
    rw [Bool.and_eq_true, beq_iff_eq] at hm
    rw [hm.1, hsees, Bool.false_and]
  unfold removeInserted clearAt
  split
  · exact hset
  · exact hset

lemma seenAlike_unstamp : SeenAlike view r (r.unstamp key txn) := by
  unfold unstamp
  split
  · have hset : SeenAlike view r (r.set key
        (modifyLast (fun m => m.xmax == txn) (fun m => { m with xmax := noXmax }) (r.ranges key))) := by
      refine seenAlike_set (any_modifyLast (fun m hm => ?_) _)
      rw [beq_iff_eq] at hm
      simp [hm, hsees]
    exact hset
  · exact fun _ => rfl

lemma seenAlike_undone {u : UndoOp} {pos : Pos} (hpos : u.entryOf = some pos)
    (hu : u.restoresAt pos.1 = false) : SeenAlike view r (r.undone txn u) := by
  cases u with
  | indexInserted index key row stamped =>
    cases stamped with
    | none => exact seenAlike_removeInserted hsees
    | some oldKey => exact (seenAlike_removeInserted hsees).trans (seenAlike_unstamp hsees)
  | indexDeleted index key row range =>
    cases hpos
    rw [UndoOp.restoresAt, beq_self_eq_true] at hu
    cases hu
  | inserted | updated | deleted => cases hpos

lemma seenAlike_foldl_undone {pos : Pos} {ops : List UndoOp}
    (hops : ∀ u ∈ ops, u.entryOf = some pos ∧ u.restoresAt pos.1 = false) :
    SeenAlike view r (ops.foldl (undone txn) r) := by
  induction ops generalizing r with
  | nil => exact fun _ => rfl
  | cons u ops ih =>
    obtain ⟨hpos, hu⟩ := hops u mem_cons_self
    exact (seenAlike_undone hsees hpos hu).trans (ih fun u' hu' => hops u' (mem_cons_of_mem _ hu'))

end RowEntries

lemma Engine.entrySeen_of_alike {k : EntryKey} {f : RowEntries → RowEntries}
    (hentries : e'.entriesAt (index, k.row) = (e.entriesAt (index, k.row)).map f)
    (hf : ∀ r, SeenAlike view r (f r)) :
    e'.entrySeen view index k = e.entrySeen view index k := by
  unfold entrySeen
  rw [hentries]
  cases e.entriesAt (index, k.row) with
  | none => rfl
  | some r => exact hf r k.key

lemma Engine.entrySeen_indexInsert (hsees : view.sees txn = false) (index' : IndexId) (key : Key)
    (tid : Tid) (k : EntryKey) :
    (e.indexInsert txn index' key tid).1.entrySeen view index k = e.entrySeen view index k := by
  rcases e.indexInsert_cases txn index' key tid with ⟨err, heq⟩ | ⟨s, i, -, -, heq⟩ <;> rw [heq]
  have hentries : (e.putEntry txn index' key (rowIdOf tid)
      (i.data.rowEntries (rowIdOf tid))).entriesAt (index, k.row) = _ :=
    entriesAt_putEntry _ _ _
  split at hentries
  · exact entrySeen_of_alike hentries fun r => seenAlike_insert hsees
  · unfold entrySeen
    rw [hentries]

lemma Engine.indexInsert_closed (hnone : e.txns.txns.get? txn = none) (index : IndexId) (key : Key)
    (tid : Tid) : (e.indexInsert txn index key tid).1 = e := by
  rcases e.indexInsert_cases txn index key tid with ⟨err, heq⟩ | ⟨s, i, hs, -, -⟩
  · rw [heq]
  · rw [hnone] at hs
    cases hs

/-! ## Runs in which no entry is taken out -/

lemma UndoOp.restoresAt_of_row {u : UndoOp} (hu : u.entryOf = none) : u.restoresAt index = false := by
  cases u with
  | indexDeleted => cases hu
  | _ => rfl

variable (hno : e.NoneTaken index)

include hno

lemma Engine.NoneTaken.frame (hframe : e.UndoFrame e') : e'.NoneTaken index := by
  intro t s' hs' u hu
  rcases hframe t s' hs' u hu with hrow | ⟨s, hs, hold⟩
  · exact UndoOp.restoresAt_of_row hrow
  · exact hno t s hs u hold

lemma Engine.NoneTaken.pushAll {ops : List UndoOp} (hops : ∀ u ∈ ops, u.restoresAt index = false)
    (htxns : e'.txns.txns = e.txns.txns.modify txn fun t => { t with undo := ops ++ t.undo }) :
    e'.NoneTaken index := by
  intro t s' hs' u hu
  rw [htxns, get?_modify] at hs'
  split at hs'
  · obtain ⟨s, hs, rfl⟩ := map_eq_some_iff.mp hs'
    rcases mem_append.mp hu with hnew | hold
    · exact hops u hnew
    · exact hno txn s hs u hold
  · exact hno t s' hs' u hu

lemma Engine.NoneTaken.indexInsert (index' : IndexId) (key : Key) (tid : Tid) :
    (e.indexInsert txn index' key tid).1.NoneTaken index := by
  rcases e.indexInsert_cases txn index' key tid with ⟨err, heq⟩ | ⟨s, i, -, -, heq⟩ <;> rw [heq]
  · exact hno
  refine hno.pushAll ?_ rfl
  intro u hu
  unfold insertOps at hu
  split at hu
  · cases hu
  · rw [mem_singleton.mp hu]
    rfl

lemma Engine.NoneTaken.indexDelete {index' : IndexId} (hne : (index' == index) = false)
    (key : Key) (tid : Tid) : (e.indexDelete txn index' key tid).1.NoneTaken index := by
  rcases e.indexDelete_cases txn index' key tid with ⟨r, heq⟩ | ⟨s, i, -, -, heq⟩ <;> rw [heq]
  · exact hno
  refine hno.pushAll ?_ rfl
  intro u hu
  unfold deleteOps at hu
  split at hu
  · cases hu
  · rw [mem_singleton.mp hu]
    exact hne

lemma Engine.NoneTaken.step (hinv : Inv e h) (hop : op.deletesFrom index = false) :
    (e.step op).1.NoneTaken index := by
  cases op with
  | indexInsert txn index' key tid => exact hno.indexInsert index' key tid
  | indexInsertBatch txn index' entries =>
    exact indexInsertEach_induct (P := fun d => d.NoneTaken index)
      (fun d key tid hd => hd.indexInsert index' key tid) _ hno
  | indexDelete txn index' key tid => exact hno.indexDelete hop key tid
  | purgeStart => exact hno
  | purgeStep pass pressure =>
    intro t s hs
    change (e.purgeStep pass pressure).txns.txns.get? t = some s at hs
    rw [e.purgeStep_txns pass pressure] at hs
    exact hno t s hs
  | _ => exact hno.frame (hinv.entryFrame_step rfl rfl).undo

omit hno

lemma Engine.NoneTaken.init (hf : e.Fresh) : e.NoneTaken index := by
  intro t s hs
  rw [hf.txns] at hs
  cases hs

/-! ## Entries under a held view -/

variable {writes : List Write} {past : List Committed} {table : TableId}

variable (hh : Held e h txn view writes past)

include hh

lemma Held.unseen (hinv : Inv e h) {t : TxnId} {s : TxnState} (hs : e.txns.txns.get? t = some s)
    (ht : t ≠ txn) : view.sees t = false := by
  refine hh.others t ?_ ht
  rw [hinv.active, core_of_get? hs]
  rfl

lemma Held.entrySeen_purgeStep (hok : e.PassesOk h) (htable : e.indexTable index = some table)
    (pass : Nat) (pressure : Bool) (k : EntryKey) (hlive : ¬DeadFor view h (table, k.row)) :
    (e.purgeStep pass pressure).entrySeen view index k = e.entrySeen view index k := by
  have hpos : ∀ g, e.indexSign index = some g → ¬DeadFor view h (g.1, k.row) := by
    intro g hg hdead
    obtain ⟨i, hi, rfl⟩ := map_eq_some_iff.mp hg
    unfold indexTable at htable
    rw [hi] at htable
    cases htable
    exact hlive hdead
  have hsome : ((e.purgeStep pass pressure).entriesAt (index, k.row)).isSome =
      (e.entriesAt (index, k.row)).isSome := by
    have hsign := congrArg isSome (congrFun (e.purgeStep_signs pass pressure).2.1 index)
    unfold indexSign at hsign
    rw [isSome_map, isSome_map] at hsign
    unfold entriesAt
    rw [isSome_map, isSome_map, hsign]
  unfold entrySeen
  cases hr : (e.purgeStep pass pressure).entriesAt (index, k.row) with
  | none =>
    rw [hr] at hsome
    rw [isSome_eq_false_iff.mp hsome.symm |> isNone_iff_eq_none.mp]
  | some r =>
    obtain ⟨r0, hr0, hthin⟩ := purgeStep_thins
      (fun p hp => ⟨fun x => hh.inv.passes pass p x hp, hh.rows pass p hp⟩) hok hpos hr
    rw [hr0]
    have hr₀thin := hthin r0 ⟨rfl, fun key => Thinned.refl _ _⟩
    exact entryVisible_thin (fun x hx => hh.sees_of_pin hx) (hr₀thin.ranges k.key)

/-- **Calls of others leave what the view sees of an entry**, if it sees the row. -/
theorem Held.entrySeen_step (hinv : Inv e h) (hok : e.PassesOk h) (hno : e.NoneTaken index)
    (hne : op.changes e.txns.preparedGids ≠ some txn) (hdel : op.deletesFrom index = false)
    (htable : e.indexTable index = some table) (k : EntryKey)
    (hlive : ¬DeadFor view h (table, k.row)) :
    (e.step op).1.entrySeen view index k = e.entrySeen view index k := by
  have hplain : e.keyEvents op = none → op.isPurge = false →
      (e.step op).1.entrySeen view index k = e.entrySeen view index k := by
    intro hev hop
    obtain ⟨-, t, ops, hops, hentries⟩ := hinv.entryFrame_step hev hop
    refine entrySeen_of_alike (hentries (index, k.row)) fun r => ?_
    cases hat : entryOps (index, k.row) ops with
    | nil => exact fun _ => rfl
    | cons u rest =>
      have hmem : ∀ u' ∈ u :: rest, u' ∈ ops ∧ u'.entryOf = some (index, k.row) := by
        intro u' hu'
        rw [← hat] at hu'
        exact ⟨(mem_filter.mp hu').1, of_decide_eq_true (mem_filter.mp hu').2⟩
      obtain ⟨hchanges, s, hs, -⟩ := hops u (hmem u mem_cons_self).1
      have ht : t ≠ txn := by
        rintro rfl
        exact hne hchanges
      have hrest : ∀ u' ∈ u :: rest,
          u'.entryOf = some (index, k.row) ∧ u'.restoresAt index = false := by
        intro u' hu'
        obtain ⟨hop', hpos⟩ := hmem u' hu'
        obtain ⟨-, s', hs', hundo⟩ := hops u' hop'
        exact ⟨hpos, hno t s' hs' u' hundo⟩
      exact seenAlike_foldl_undone (hh.unseen hinv hs ht) hrest
  -- a transaction that is open is one the view does not see; any other is refused
  have hopen : ∀ t, t ≠ txn → view.sees t = false ∨ e.txns.txns.get? t = none := by
    intro t ht
    cases hs : e.txns.txns.get? t with
    | none => exact .inr rfl
    | some s => exact .inl (hh.unseen hinv hs ht)
  cases op with
  | indexInsert t index' key tid =>
    rcases hopen t (fun ht => hne (congrArg some ht)) with hsees | hnone
    · exact entrySeen_indexInsert hsees index' key tid k
    · exact congrArg (entrySeen · view index k) (indexInsert_closed hnone index' key tid)
  | indexInsertBatch t index' entries =>
    rcases hopen t (fun ht => hne (congrArg some ht)) with hsees | hnone
    · exact indexInsertEach_induct
        (P := fun d => d.entrySeen view index k = e.entrySeen view index k)
        (fun d key tid hd => (entrySeen_indexInsert hsees index' key tid k).trans hd) _ rfl
    have hsame : (e.indexInsertBatch t index' entries).1 = e :=
      indexInsertEach_induct (P := fun d => d = e) (fun d key tid hd => by
        rw [hd]
        exact indexInsert_closed hnone index' key tid) _ rfl
    exact congrArg (entrySeen · view index k) hsame
  | indexDelete t index' key tid =>
    have hindex : index' ≠ index := beq_eq_false_iff_ne.mp hdel
    show (e.indexDelete t index' key tid).1.entrySeen view index k = _
    rcases e.indexDelete_cases t index' key tid with ⟨r, heq⟩ | ⟨s, i, -, -, heq⟩ <;> rw [heq]
    have hentries : (e.dropEntry t index' key (rowIdOf tid)
        (i.data.rowEntries (rowIdOf tid))).entriesAt (index, k.row) = _ :=
      entriesAt_dropEntry _ _ _
    rw [if_neg fun hpos => hindex (Prod.mk.inj hpos).1] at hentries
    unfold entrySeen
    rw [hentries]
  | purgeStart => rfl
  | purgeStep pass pressure => exact hh.entrySeen_purgeStep hok htable pass pressure k hlive
  | _ => exact hplain rfl rfl

/-- **What the view reads through an entry does not change.** -/
theorem Held.entryAt_step (hinv : Inv e h) (hok : e.PassesOk h) (hno : e.NoneTaken index)
    (hne : op.changes e.txns.preparedGids ≠ some txn) (hstart : op ≠ .purgeStart)
    (hdel : op.deletesFrom index = false) (htable : e.indexTable index = some table) (k : EntryKey) :
    (e.step op).1.entryAt view table index k = e.entryAt view table index k := by
  have hrow : (e.step op).1.visibleAt view (table, k.row) = e.visibleAt view (table, k.row) := by
    rw [(hh.step hinv hok hne hstart).visibleAt_eq, hh.visibleAt_eq]
  unfold entryAt
  rw [hrow]
  by_cases hlive : DeadFor view h (table, k.row)
  · rw [hh.visibleAt_dead hlive, ite_self, ite_self]
  · rw [hh.entrySeen_step hinv hok hno hne hdel htable k hlive]

end NusaDb
