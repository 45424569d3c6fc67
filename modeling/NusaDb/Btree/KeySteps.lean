import NusaDb.Btree.KeyInv

/-!
# Every call keeps the agreement of indexes and key histories

One lemma for each thing a call can do to entries and to the undo entries kept for them.
-/

namespace NusaDb

open List Option Engine OrdMap History Bool

open History (Ver)
open RowEntries

variable {ixs : IndexId → Prop} {purges : Prop} {e e' : Engine} {h h' k k' : History} {txn : TxnId}
  {pos : Pos} {ko : OpenTxn} {s : TxnState}

/-! ## What calls leave alone -/

lemma Engine.entryLog_modifyTxn_same (e : Engine) (txn : TxnId) {f : TxnState → TxnState}
    (hf : ∀ s, (f s).undo = s.undo ∧ (f s).savepoints = s.savepoints) (pos : Pos) :
    entryLog { e with txns := e.txns.modifyTxn txn f } pos = e.entryLog pos := by
  have hlog : ∀ s, e.txns.txns.get? txn = some s → (f s).entryLog pos = id (s.entryLog pos) := by
    intro s _
    unfold TxnState.entryLog
    rw [(hf s).1, (hf s).2]
    rfl
  rw [e.entryLog_modifyTxn txn hlog]
  funext t
  split
  · rename_i ht
    rw [← ht, map_id_apply]
  · rfl

lemma Engine.entryLog_noteReads (e : Engine) (txn : TxnId) (tables : List TableId)
    (rows : List (TableId × RowId)) (pos : Pos) :
    (e.noteReads txn tables rows).entryLog pos = e.entryLog pos :=
  e.entryLog_modifyTxn_same txn (f := fun s => { s with
    predicateReads := tables ++ s.predicateReads
    reads := rows ++ s.reads }) (fun _ => ⟨rfl, rfl⟩) pos

lemma Engine.abortWith_entries (e : Engine) (txn : TxnId) (s : TxnState) (logMarker : Bool)
    (pos : Pos) :
    (e.abortWith txn s logMarker).entryLog pos = e.entryLog pos ∧
      (e.abortWith txn s logMarker).entriesAt pos = (e.entriesAt pos).map fun r =>
      (entryOps pos s.undo).foldl (undone txn) r := by
  constructor
  · funext t
    unfold entryLog
    rw [(e.abortWith_fields txn s logMarker).1]
  · rw [← e.undoOps_entriesAt txn s.undo pos]
    unfold abortWith
    split <;> rfl

lemma Engine.entryLog_insertRows (txn : TxnId) (table : TableId) (tuples : List Tuple)
    (e : Engine) (row : RowId) (hle : e.MarksLe txn) (pos : Pos) :
    (insertRows txn table e row tuples).entryLog pos = e.entryLog pos ∧
      (insertRows txn table e row tuples).indexes = e.indexes := by
  induction tuples generalizing e row with
  | nil => exact ⟨rfl, rfl⟩
  | cons tuple rest ih =>
    let e1 : Engine := { e with tables := e.tables.modify table fun t =>
      { t with rows := t.rows.insert row ⟨RowMeta.fresh txn, tuple⟩ } }
    have hle1 : e1.MarksLe txn := hle
    obtain ⟨hlog, hindexes⟩ :=
      ih (e1.pushUndo txn (.inserted table row)) (row + 1) (hle1.pushUndo _)
    have hpush : (e1.pushUndo txn (.inserted table row)).entryLog pos = e1.entryLog pos :=
      entryLog_pushUndo_other hle1 nofun
    exact ⟨hlog.trans hpush, hindexes⟩

lemma Engine.entryLog_put {e1 e2 : Engine} (hq : e.Quiet e1) (hinv : Inv e h)
    (htxns : e2.txns = e1.txns) {op : UndoOp} (hop : op.entryOf = none) (pos : Pos) :
    (e2.pushUndo txn op).entryLog pos = e.entryLog pos := by
  have hinv1 := hinv.congr hq.same
  have hle : e2.MarksLe txn := by
    unfold MarksLe
    rw [htxns]
    exact hinv1.marksLe txn
  have hsame : e2.entryLog pos = e1.entryLog pos := by
    funext t
    unfold entryLog
    rw [htxns]
  rw [entryLog_pushUndo_other hle (by rw [hop]; exact nofun), hsame, hq.entryLog]

/-! ## Calls that leave entries alone -/

/-- The call takes the key history to `k'`, which the row history still covers, and what was settled
or dead stays so. -/
structure KeyMove (ixs : IndexId → Prop) (e : Engine) (h : History) (e' : Engine) (h' k' : History) :
    Prop where
  cover : KeyCover e'.indexTable ixs h' k'
  settled : ∀ x, e.Settled x → e'.Settled x
  dead : ∀ pos, e.DeadAt h pos → e'.DeadAt h' pos

lemma KeyInv.carry (hm : KeyMove ixs e h e' h' k')
    (hlogs : ∀ pos, ixs pos.1 → ∀ t ko log, k'.running.get? t = some ko →
      e'.entryLog pos t = some log → MarkedLog.Rel (Entered k' pos t) ko.log log)
    (hentries : ∀ pos, ixs pos.1 → ¬(purges ∧ e.DeadAt h pos) → ∀ r, e'.entriesAt pos = some r →
      r.Thin (Droppable e.Settled) (replay (k'.versions pos))) :
    KeyInv ixs purges e' h' k' where
  cover := hm.cover
  logs := hlogs
  entries pos hix hnot r hr :=
    (hentries pos hix (fun hd => hnot ⟨hd.1, hm.dead pos hd.2⟩) r hr).mono
      fun _ hdrop => ⟨hdrop.1, hm.settled _ hdrop.2⟩

variable (hkey : KeyInv ixs purges e h k)

include hkey

lemma KeyInv.keep (hm : KeyMove ixs e h e' h' k')
    (hentries : ∀ pos, e'.entriesAt pos = e.entriesAt pos)
    (hlog : ∀ pos, e'.entryLog pos = e.entryLog pos) (hrun : ∀ t ko', k'.running.get? t = some ko' →
      ∃ ko, k.running.get? t = some ko ∧ ko'.log = ko.log) (hcommits : k'.commits = k.commits)
    (hvers : ∀ pos, k'.versions pos = k.versions pos) : KeyInv ixs purges e' h' k' := by
  refine .carry hm (fun pos hix t ko' log hko' hl => ?_) fun pos hix hnot r hr => ?_
  · obtain ⟨ko, hko, heq⟩ := hrun t ko' hko'
    rw [hlog pos] at hl
    have hrel := hkey.logs pos hix t ko log hko hl
    unfold Entered committed at hrel ⊢
    rw [hcommits, heq]
    exact hrel
  · rw [hentries] at hr
    rw [hvers]
    exact hkey.entries pos hix hnot r hr

lemma KeyInv.begin (hinv : Inv e h) (level : IsolationLevel) (n : Nat)
    (hm : KeyMove ixs e h (e.begin level).1 h'
      { k with running := k.running.insert e.txns.nextTxnId ⟨level, n, [], []⟩ }) :
    KeyInv ixs purges (e.begin level).1 h'
      { k with running := k.running.insert e.txns.nextTxnId ⟨level, n, [], []⟩ } := by
  have hnew : k.running.get? e.txns.nextTxnId = none := by
    cases hko : k.running.get? e.txns.nextTxnId with
    | none => rfl
    | some ko =>
      exact absurd (hinv.activeRange _ (hkey.active hinv hko)).2 (lt_irrefl _)
  refine .carry hm (fun pos hix t ko log hko hl => ?_) fun pos hix hnot r hr => ?_
  · change ((e.txns.txns.insert e.txns.nextTxnId _).get? t).map _ = some log at hl
    rw [get?_insert] at hko hl
    split at hko
    · rename_i ht
      rw [if_pos ht] at hl
      cases hko
      cases hl
      exact ⟨rfl, .nil⟩
    · rename_i ht
      rw [if_neg ht] at hl
      exact hkey.logs pos hix t ko log hko hl
  · rw [versions_begin hnew rfl]
    exact hkey.entries pos hix hnot r hr

/-! ## Savepoints -/

lemma KeyInv.marks {f : OpenTxn → OpenTxn} {g : TxnState → TxnState}
    (hm : KeyMove ixs e h { e with txns := e.txns.modifyTxn txn g } h' (k.modify txn f))
    (hwrites : ∀ o, (f o).writes = o.writes) (hrel : ∀ pos (o : OpenTxn) (s : TxnState),
      MarkedLog.Rel (Entered k pos txn) o.log (s.entryLog pos) →
      MarkedLog.Rel (Entered k pos txn) (f o).log ((g s).entryLog pos)) :
    KeyInv ixs purges { e with txns := e.txns.modifyTxn txn g } h' (k.modify txn f) := by
  refine .carry hm (fun pos hix t ko log hko hl => ?_) fun pos hix hnot r hr => ?_
  · rw [running_modify] at hko
    change ((e.txns.txns.modify txn g).get? t).map _ = some log at hl
    rw [get?_modify] at hl
    split at hko
    · rename_i ht
      subst ht
      rw [if_pos rfl, Option.map_map] at hl
      obtain ⟨o, ho, rfl⟩ := map_eq_some_iff.mp hko
      obtain ⟨s, hs, rfl⟩ := map_eq_some_iff.mp hl
      exact hrel pos o s (hkey.logs pos hix txn o _ ho (by unfold entryLog; rw [hs]; rfl))
    · rename_i ht
      rw [if_neg ht] at hl
      exact hkey.logs pos hix t ko log hko hl
  · rw [versions_modify_of_eq fun o _ => by rw [hwrites]]
    exact hkey.entries pos hix hnot r hr

/-! ## Undoing -/

lemma KeyInv.entries_undone (hinv : Inv e h) (hix : ixs pos.1) (hnot : ¬(purges ∧ e.DeadAt h pos))
    (hko : k.running.get? txn = some ko) {r : RowEntries} (hr : e.entriesAt pos = some r)
    {newer older : List Write} (hsplit : ko.writes = newer ++ older) {ops : List UndoOp}
    (hops : (replay (k.committed pos)).putAllOps pos txn (valuesAt pos ko.writes) =
      ops ++ (replay (k.committed pos)).putAllOps pos txn (valuesAt pos older))
    {vers : List Ver}
    (hsole : k.Sole txn pos → vers = versionsOf txn older pos ++ k.committed pos)
    (hsame : ¬Writes ko.writes pos → vers = k.versions pos) :
    (ops.foldl (RowEntries.undone txn) r).Thin (Droppable e.Settled) (RowEntries.replay vers) := by
  by_cases hw : Writes ko.writes pos
  · rw [hsole (hkey.writer hinv hix hko hw).1, versionsOf_eq_values, replay_append]
    exact hkey.undone hinv hix hko hw hr hsplit hops
  -- the transaction has no events here, so it has nothing to undo
  have hnone : valuesAt pos older = [] := by
    refine valuesAt_sublist_nil ?_ hw
    rw [hsplit]
    exact sublist_append_right ..
  rw [valuesAt_eq_nil hw, hnone] at hops
  obtain rfl : ops = [] := (append_eq_nil_iff.mp hops.symm).1
  rw [hsame hw]
  exact hkey.entries pos hix hnot r hr

lemma KeyInv.running_of_get? (hinv : Inv e h) (hs : e.txns.txns.get? txn = some s) :
    ∃ ko, k.running.get? txn = some ko := by
  obtain ⟨o, -, ho⟩ := hinv.opened hs
  exact hkey.cover.keys_of_running ho
variable (gids : OrdMap String TxnId)

lemma KeyInv.abort (hinv : Inv e h)
    (hs : e.txns.txns.get? txn = some s)
    (hm : KeyMove ixs e h e' h' { k.drop txn with gids := gids })
    (hlog : ∀ pos t, e'.entryLog pos t = if txn = t then none else e.entryLog pos t)
    (hentries : ∀ pos, e'.entriesAt pos =
      (e.entriesAt pos).map fun r => (entryOps pos s.undo).foldl (RowEntries.undone txn) r) :
    KeyInv ixs purges e' h' { k.drop txn with gids := gids } := by
  obtain ⟨ko, hko⟩ := hkey.running_of_get? hinv hs
  refine .carry hm (fun pos hix t ko' log hko' hl => ?_) fun pos hix hnot r hr => ?_
  · change (k.running.erase txn).get? t = some ko' at hko'
    rw [get?_erase] at hko'
    rw [hlog pos t] at hl
    split at hko'
    · cases hko'
    rename_i ht
    rw [if_neg ht] at hl
    exact hkey.logs pos hix t ko' log hko' hl
  · rw [hentries pos] at hr
    obtain ⟨r0, hr0, rfl⟩ := map_eq_some_iff.mp hr
    have hrel := hkey.logs pos hix txn ko (s.entryLog pos) hko
      (by unfold entryLog; rw [hs]; rfl)
    have hitems : entryOps pos s.undo = _ := hrel.items
    refine hkey.entries_undone hinv hix hnot hko hr0 (append_nil ko.writes).symm ?_
      (fun hsole => ?_) fun hno => ?_
    · rw [hitems]
      exact (append_nil _).symm
    · show (k.drop txn).pending pos ++ k.committed pos = _
      rw [pending_drop_of_sole hsole]
      rfl
    · show (k.drop txn).pending pos ++ k.committed pos = _
      rw [pending_drop_of_not_writes fun o' ho' => by
        rw [hko] at ho'
        cases ho'
        exact hno]
      rfl

/-- Back to a savepoint, entries and key history drop the same events. -/
lemma KeyInv.backTo (hinv : Inv e h) (hs : e.txns.txns.get? txn = some s) {name : String}
    {mark : Nat} {older : List (String × Nat)}
    (hdrop : s.savepoints.dropWhile (·.1 ≠ name) = (name, mark) :: older)
    (hm : KeyMove ixs e h e' h' (k.backTo txn name))
    (hlog : ∀ pos t, e'.entryLog pos t =
      if txn = t then some ((s.backTo name mark).entryLog pos) else e.entryLog pos t)
    (hentries : ∀ pos, e'.entriesAt pos = (e.entriesAt pos).map fun r =>
      (entryOps pos (s.undo.take (s.undo.length - mark))).foldl (RowEntries.undone txn) r) :
    KeyInv ixs purges e' h' (k.backTo txn name) := by
  obtain ⟨ko, hko⟩ := hkey.running_of_get? hinv hs
  have hback : k.backTo txn name = k.modify txn (OpenTxn.backTo name) := rfl
  obtain ⟨hkolog, -, newer, hsplit⟩ := OpenTxn.backTo_spec (hkey.cover.countsKeys txn ko hko) name
  have hrel : ∀ pos, ixs pos.1 → MarkedLog.Rel (Entered k pos txn) ko.log (s.entryLog pos) :=
    fun pos hix => hkey.logs pos hix txn ko _ hko (by unfold entryLog; rw [hs]; rfl)
  have hcut := fun pos => TxnState.entryLog_backTo (hinv.countsOk hs) hdrop pos
  refine .carry hm (fun pos hix t ko' log hko' hl => ?_) fun pos hix hnot r hr => ?_
  · rw [hback, running_modify] at hko'
    rw [hlog pos t] at hl
    split at hko'
    · rename_i ht
      subst ht
      rw [if_pos rfl] at hl
      rw [hko] at hko'
      cases hko'
      cases hl
      rw [hkolog, (hcut pos).1]
      exact (hrel pos hix).backTo name
    · rename_i ht
      rw [if_neg ht] at hl
      exact hkey.logs pos hix t ko' log hko' hl
  · rw [hentries pos] at hr
    obtain ⟨r0, hr0, rfl⟩ := map_eq_some_iff.mp hr
    have hitems : entryOps pos s.undo = _ := (hrel pos hix).items
    have hkept : ((s.entryLog pos).backTo name).items = _ := ((hrel pos hix).backTo name).items
    refine hkey.entries_undone hinv hix hnot hko hr0 hsplit ?_ (fun hsole => ?_) fun hno => ?_
    · rw [← hkolog] at hkept
      exact hitems.symm.trans ((hcut pos).2.trans (congrArg _ hkept))
    · exact versions_modify_of_sole hko hsole
    rw [hback]
    refine versions_modify_of_eq fun o' ho' => ?_
    rw [hko] at ho'
    cases ho'
    rw [versionsOf_eq_values, versionsOf_eq_values, valuesAt_eq_nil hno,
      valuesAt_sublist_nil (by rw [hsplit]; exact sublist_append_right ..) hno]

/-! ## Committing -/

lemma KeyInv.commit (hinv : Inv e h)
    (hs : e.txns.txns.get? txn = some s)
    (hm : KeyMove ixs e h e' h' (({ k with gids := gids } : History).commit txn))
    (hlog : ∀ pos t, e'.entryLog pos t = if txn = t then none else e.entryLog pos t)
    (hindexes : e'.indexes = e.indexes) :
    KeyInv ixs purges e' h' (({ k with gids := gids } : History).commit txn) := by
  obtain ⟨ko, hko⟩ := hkey.running_of_get? hinv hs
  have hko' : ({ k with gids := gids } : History).running.get? txn = some ko := hko
  refine .carry hm (fun pos hix t kt log hkt hl => ?_) fun pos hix hnot r hr => ?_
  · rw [hlog pos t] at hl
    rw [commit_eq hko'] at hkt
    change (k.running.erase txn).get? t = some kt at hkt
    rw [get?_erase] at hkt
    split at hkt
    · cases hkt
    rename_i ht
    rw [if_neg ht] at hl
    have hrel := hkey.logs pos hix t kt log hkt hl
    refine hrel.mono_sublist kt.saved_sublist fun x y hsub hxy => ?_
    unfold Entered at hxy ⊢
    rw [hxy, committed_commit hko']
    by_cases hw : Writes ko.writes pos
    · -- the position is the committing transaction's, so `t` has no events there
      have hno : ¬Writes kt.writes pos :=
        (hkey.writer hinv hix hko hw).1 t kt hkt fun heq => ht heq.symm
      rw [valuesAt_sublist_nil hsub hno]
      rfl
    · rw [versionsOf_eq_nil hw]
      rfl
  · have hentries : e.entriesAt pos = some r := by
      unfold entriesAt at hr ⊢
      rw [← hindexes]
      exact hr
    rw [versions_commit hko' fun hw => (hkey.writer hinv hix hko hw).1]
    exact hkey.entries pos hix hnot r hentries

/-! ## Key events -/

variable (hinv : Inv e h)

include hinv

namespace KeyInv

/-- One key event: the entries of one position, the undo entry and the key history change together.
-/
lemma event (hs : e.txns.txns.get? txn = some s) {index : IndexId} {i : IndexState}
    (hi : e.indexes.get? index = some i) {row : RowId} {v : Option Key} {f : IndexData → IndexData}
    {g : RowEntries → RowEntries} {ops : List UndoOp} {wal : List WalRecord}
    (hw : ∀ o, h.running.get? txn = some o → Covers e.indexTable ixs o.writes [⟨(index, row), v⟩])
    (hf : ∀ d row', (f d).rowEntries row' =
      if row' = row then g (d.rowEntries row) else d.rowEntries row')
    (hone : OneAt (index, row) ops)
    (hput : ∀ R : RowEntries, R.Ok → (i.data.rowEntries row).Thin (Droppable e.Settled) R →
      (g (i.data.rowEntries row)).Thin (Droppable e.Settled) (R.put txn v) ∧
        ops = R.putOps (index, row) txn v) :
    KeyInv ixs purges { (e.modifyIndex index f).pushAll txn ops with wal := wal } h
      (k.write txn ⟨(index, row), v⟩) := by
  have hsign : ((e.modifyIndex index f).pushAll txn ops).indexSign = e.indexSign :=
    e.indexSign_modifyIndex index f
  have hle : (e.modifyIndex index f).MarksLe txn := hinv.marksLe txn
  have hset : ((e.modifyIndex index f).pushAll txn ops).Settled = e.Settled :=
    settled_modifyTxn (e := e.modifyIndex index f) fun _ => rfl
  have hm : KeyMove ixs e h { (e.modifyIndex index f).pushAll txn ops with wal := wal } h
      (k.write txn ⟨(index, row), v⟩) := by
    refine ⟨?_, fun x hx => hset ▸ hx, fun pos hd => deadAt_congr (h := h) hsign hset ▸ hd⟩
    have htable := indexTable_of_sign hsign
    exact htable ▸ hkey.cover.writeKey hw
  have hr0 := entriesAt_of_index hi row
  obtain ⟨o, -, ho⟩ := hinv.opened hs
  obtain ⟨ko, hko⟩ := hkey.running_of_get? hinv hs
  -- on an index in question the row is the transaction's own
  have hown : ixs index → k.Sole txn (index, row) ∧ ¬e.DeadAt h (index, row) := by
    intro hix
    obtain ⟨table, htab, hwrites⟩ := hw o ho _ mem_cons_self hix
    exact hkey.sole_of_row hinv hix htab ho hwrites
  have hreplay := fun hix : ixs index => replay_of_sole hko (hown hix).1
  have hthin := fun hix : ixs index =>
    hput _ (.replay (hkey.txn_ne hinv (index, row)))
      (hkey.entries (index, row) hix (fun hd => (hown hix).2 hd.2) _ hr0)
  have hother : ∀ {pos : Pos}, (index, row) ≠ pos → ∀ keys : List Write,
      valuesAt pos (⟨(index, row), v⟩ :: keys) = valuesAt pos keys := by
    intro pos hne keys
    unfold valuesAt
    rw [filter_cons_of_neg (by simpa using hne)]
  refine .carry hm (fun pos hix t ko' log hko' hl => ?_) fun pos hix hnot r hr => ?_
  · change ((e.modifyIndex index f).pushAll txn ops).entryLog pos t = some log at hl
    rw [entryLog_pushAll hle hone] at hl
    change (k.modify txn _).running.get? t = some ko' at hko'
    rw [running_modify] at hko'
    split at hko'
    · rename_i ht
      rw [if_pos ht] at hl
      subst ht
      rw [hko] at hko'
      cases hko'
      obtain ⟨log0, hlog0, rfl⟩ := map_eq_some_iff.mp hl
      have hrel := hkey.logs pos hix txn ko log0 hko hlog0
      have hpushed : OpenTxn.log { ko with writes := ⟨(index, row), v⟩ :: ko.writes } =
          ko.log.push [⟨(index, row), v⟩] :=
        ko.log_push (hkey.cover.countsKeys txn ko hko) [⟨(index, row), v⟩]
      rw [hpushed]
      refine hrel.push ?_
      show _ = putAllOps _ pos txn (valuesAt pos (⟨(index, row), v⟩ :: ko.writes))
      have hitems : log0.items = _ := hrel.items
      by_cases hp : (index, row) = pos
      · subst hp
        have hself : valuesAt (index, row) (⟨(index, row), v⟩ :: ko.writes) =
            v :: valuesAt (index, row) ko.writes := by
          unfold valuesAt
          rw [filter_cons_of_pos (by simp), map_cons]
        rw [if_pos rfl, hself, hitems, (hthin hix).2, hreplay hix]
        rfl
      · rw [if_neg hp, hother hp]
        exact hitems
    · rename_i ht
      rw [if_neg ht] at hl
      exact hkey.logs pos hix t ko' log hko' hl
  · change (e.modifyIndex index f).entriesAt pos = some r at hr
    rw [entriesAt_modifyIndex_row hf] at hr
    by_cases hp : (index, row) = pos
    · subst hp
      rw [if_pos rfl, hr0] at hr
      cases hr
      have hnew : (k.write txn ⟨(index, row), v⟩).versions (index, row) =
          ⟨txn, v⟩ :: k.versions (index, row) := by
        rw [versions_write hko (hown hix).1]
        exact Function.update_self ..
      rw [hnew]
      exact (hthin hix).1
    · rw [if_neg hp] at hr
      have hsame : (k.write txn ⟨(index, row), v⟩).versions pos = k.versions pos := by
        refine versions_modify_of_eq fun o' _ => ?_
        exact versionsOf_cons_other hp
      rw [hsame]
      exact hkey.entries pos hix hnot r hr

lemma indexInsertEach (index : IndexId) (entries : List (Key × Tid))
    (hw : ∀ o, h.running.get? txn = some o →
      Covers e.indexTable ixs o.writes (e.enteredEach txn index entries)) :
    KeyInv ixs purges (e.indexInsertEach txn index entries).1 h
      (k.writeAll txn (e.enteredEach txn index entries)) := by
  induction entries generalizing e k with
  | nil => exact hkey
  | cons entry rest ih =>
    obtain ⟨key, tid⟩ := entry
    have hinv1 : Inv (e.indexInsert txn index key tid).1 h :=
      hinv.step (.indexInsert txn index key tid)
    have hsign := indexTable_of_sign (e.indexSign_indexInsert txn index key tid)
    unfold indexInsertEach enteredEach
    unfold enteredEach at hw
    rcases e.indexInsert_cases txn index key tid with ⟨err, heq⟩ | ⟨s, i, hs, hi, heq⟩
    · rw [heq]
      exact hkey
    rw [heq] at hinv1 hsign hw ⊢
    refine ih ?_ hinv1 fun o ho => ?_
    · refine hkey.event (g := fun r => (r.insert key txn).1) hinv hs hi
        (fun o ho w hmem => hw o ho w ?_)
        (fun d row' => d.rowEntries_applyInsert key (rowIdOf tid) row' txn)
        (oneAt_insertOps _ index key (rowIdOf tid) txn) fun R hR hthin => ?_
      · rw [mem_singleton.mp hmem]
        exact mem_cons_self
      · obtain ⟨hins, happlied⟩ := hthin.insert (fun m hm => hm.1) key txn
        refine ⟨hins, ?_⟩
        show insertOps _ index key _ txn = insertOps R index key _ txn
        unfold insertOps
        rw [happlied]
    · rw [hsign]
      exact fun w hmem => hw o ho w (mem_cons_of_mem _ hmem)

/-- A removal is an event only where it finds a live entry of the key. -/
lemma indexDelete (index : IndexId) (key : Key) (tid : Tid)
    (hw : ∀ o, h.running.get? txn = some o → Covers e.indexTable ixs o.writes
      (if e.removesEntry txn index key (rowIdOf tid) then [⟨(index, rowIdOf tid), none⟩] else [])) :
    KeyInv ixs purges (e.indexDelete txn index key tid).1 h (k.writeAll txn
      (if e.removesEntry txn index key (rowIdOf tid) then
        [⟨(index, rowIdOf tid), none⟩] else [])) := by
  rw [indexDelete_eq]
  have hnone : e.removesEntry txn index key (rowIdOf tid) = false →
      KeyInv ixs purges e h (k.writeAll txn (if e.removesEntry txn index key (rowIdOf tid) then
        [⟨(index, rowIdOf tid), none⟩] else [])) := by
    intro hno
    rw [hno]
    exact hkey
  split
  · rename_i hclosed
    refine hnone ?_
    unfold removesEntry
    rw [not_eq_true'] at hclosed
    rw [hclosed, Bool.false_and]
  rename_i hopen
  rw [not_eq_true, not_eq_false'] at hopen
  cases hi : e.indexes.get? index with
  | none =>
    refine hnone ?_
    unfold removesEntry entriesAt
    rw [hi, map_none, Bool.and_false]
  | some i =>
    have hremoves : e.removesEntry txn index key (rowIdOf tid) =
        ((i.data.rowEntries (rowIdOf tid)).delete key).2.isSome := by
      unfold removesEntry
      rw [hopen, Bool.true_and, entriesAt_of_index hi (rowIdOf tid)]
    obtain ⟨s, hs⟩ := isSome_iff_exists.mp hopen
    rw [hremoves] at hw ⊢
    cases hfound : ((i.data.rowEntries (rowIdOf tid)).delete key).2 with
    | none =>
      dsimp only
      rw [dropEntry_none hi hfound]
      exact hkey
    | some range =>
      rw [hfound] at hw
      refine hkey.event (g := fun r => (r.delete key).1) hinv hs hi hw
        (fun d row' => d.rowEntries_applyDelete key (rowIdOf tid) row')
        (oneAt_deleteOps _ index key (rowIdOf tid)) fun R hR hthin => ?_
      obtain ⟨hdel, hremoved⟩ := hthin.delete (fun m hm => hm.1) key
      have halive : R.alive = some key := by
        by_contra hne
        rw [hR.delete_eq_none hne, hfound] at hremoved
        cases hremoved
      have hput : R.put txn none = (R.delete key).1 := by
        unfold put
        rw [halive]
      have hops : R.putOps (index, rowIdOf tid) txn none = R.deleteOps index key (rowIdOf tid) := by
        unfold putOps
        rw [halive]
      rw [hput, hops]
      refine ⟨hdel, ?_⟩
      unfold deleteOps
      rw [hremoved]

/-! ## Purge -/

lemma purgeStep (hok : e.PassesOk h) (hpurges : purges) (pass : Nat) (pressure : Bool) :
    KeyInv ixs purges (e.purgeStep pass pressure) h k := by
  have hset := e.settled_step (.purgeStep pass pressure)
  have hdead : ∀ pos, e.DeadAt h pos → (e.purgeStep pass pressure).DeadAt h pos :=
    fun pos hd => hd.step hinv (.purgeStep pass pressure)
  have hsign := indexTable_of_sign (e.purgeStep_signs pass pressure).2.1
  have hcover := hkey.cover
  rw [← hsign] at hcover
  refine .carry ⟨hcover, hset, hdead⟩ (fun pos hix t ko log hko hl => ?_) fun pos hix hnot r hr => ?_
  · unfold entryLog at hl
    rw [e.purgeStep_txns pass pressure] at hl
    exact hkey.logs pos hix t ko log hko hl
  · obtain ⟨r0, hr0, hthin⟩ := hinv.purgeStep_thins hok (fun hd => hnot ⟨hpurges, hd⟩) hr
    exact hthin _ (hkey.entries pos hix hnot r0 hr0)

/-! ## Steps and runs -/

/-- A call without key events moves both histories alike, by the ways of `Effect`. -/
lemma step_plain (hok : e.PassesOk h) {op : Op} (hev : e.keyEvents op = none)
    (hpurge : op.isPurge = true → purges) :
    KeyInv ixs purges (e.step op).1 (h.record (op, (e.step op).2))
      (if op.writesRows then k else k.record (op, (e.step op).2)) := by
  have heff := e.step_effect op
  have hm : KeyMove ixs e h (e.step op).1 (h.record (op, (e.step op).2))
      (if op.writesRows then k else k.record (op, (e.step op).2)) := by
    refine ⟨?_, e.settled_step op, fun pos hd => hd.step hinv op⟩
    rw [indexTable_of_sign (e.indexSign_step op)]
    exact hkey.cover.recordPlain op _
  generalize (e.step op).2 = out at heff hm ⊢
  generalize (e.step op).1 = e' at heff hm ⊢
  -- a call that leaves entries, logs and key events alone
  have hkeep : (if op.writesRows then k else k.record (op, out)) = k → e'.indexes = e.indexes →
      (∀ pos, e'.entryLog pos = e.entryLog pos) → KeyInv ixs purges e' (h.record (op, out))
        (if op.writesRows then k else k.record (op, out)) := by
    intro hk hindexes hlog
    rw [hk] at hm ⊢
    refine hkey.keep hm (fun pos => ?_) hlog (fun t ko hko => ⟨ko, hko, rfl⟩) rfl
      fun _ => rfl
    unfold entriesAt
    rw [hindexes]
  cases heff with
  | quiet hq hrec =>
    refine hkeep ?_ hq.indexes fun pos => by rw [hq.entryLog]
    rw [hrec k, ite_self]
  | begin level => exact hkey.begin hinv level _ hm
  | beginStatement txn =>
    have hview : ∀ o : OpenTxn, (if o.level = .readCommitted ∨ o.level = .readUncommitted then
        { o with snap := k.commits.length } else o).log = o.log := by
      intro o
      split <;> rfl
    have hfields : (e.beginStatement txn).indexes = e.indexes ∧
        ∀ pos, (e.beginStatement txn).entryLog pos = e.entryLog pos := by
      unfold beginStatement
      split
      · exact ⟨rfl, fun _ => rfl⟩
      split
      · exact ⟨rfl, e.entryLog_modifyTxn_same txn fun _ => ⟨rfl, rfl⟩⟩
      · exact ⟨rfl, fun _ => rfl⟩
    refine hkey.keep hm (fun pos => ?_) hfields.2 (fun t ko' hko' => ?_) rfl
      fun pos => ?_
    · unfold entriesAt
      rw [hfields.1]
    · change (k.refresh txn).running.get? t = some ko' at hko'
      unfold refresh at hko'
      rw [running_modify] at hko'
      split at hko'
      · rename_i ht
        obtain ⟨ko, hko, rfl⟩ := map_eq_some_iff.mp hko'
        exact ⟨ko, ht ▸ hko, hview ko⟩
      · exact ⟨ko', hko', rfl⟩
    · refine versions_modify_of_eq fun o _ => ?_
      split <;> rfl
  | @insert txn table tuple e1 t s hq hs ht =>
    exact hkeep rfl hq.indexes fun pos => entryLog_put hq hinv rfl rfl pos
  | @insertBatch txn table tuples e1 t s hq hs ht =>
    have hrows := fun pos => entryLog_insertRows txn table tuples (e1.modifyTable table fun t' =>
        { t' with nextRowId := t.nextRowId + tuples.length, purgeGen := t'.purgeGen + 1 })
      t.nextRowId ((hinv.congr hq.same).marksLe txn) pos
    exact hkeep rfl ((hrows (0, 0)).2.trans hq.indexes) fun pos =>
      ((hrows pos).1.trans (show _ = e1.entryLog pos from rfl)).trans (by rw [hq.entryLog])
  | @update txn table tid tuple e1 old s hq hs hold hadm
  | @delete txn table tid e1 old s hq hs hold hadm =>
    exact hkeep rfl hq.indexes fun pos => entryLog_put hq hinv rfl rfl pos
  | scan | indexScan =>
    exact hkeep rfl rfl fun pos => e.entryLog_noteReads _ _ _ pos
  | indexInsert | indexInsertBatch | indexDelete => cases hev
  | @savepoint txn name s hs =>
    refine hkey.marks (g := TxnState.mark name) hm (fun _ => rfl)
      fun pos o s hrel => ?_
    rw [o.log_mark, s.entryLog_mark]
    exact hrel.mark name
  | @releaseSavepoint txn name s hs =>
    refine hkey.marks (g := TxnState.release name) hm (fun _ => rfl)
      fun pos o s hrel => ?_
    rw [o.log_release, s.entryLog_release]
    exact hrel.release name
  | @rollbackTo txn name s mark older hs hdrop =>
    refine hkey.backTo hinv hs hdrop hm (fun pos t => ?_) fun pos => ?_
    · unfold Engine.entryLog undoTo
      rw [(undoOps_frame _ txn _).1]
      show ((e.txns.txns.modify txn _).get? t).map _ = _
      rw [get?_modify, hs]
      split <;> rfl
    · unfold undoTo
      rw [undoOps_entriesAt]
      rfl
  | @commit txn s hs hprepared hclean =>
    have hfields := TxnDomain.finishCommit_fields
      (d := (e.txns.bumpStagedVersions txn).bumpFinishedVersions txn) (show _ = some s from hs)
    refine hkey.commit k.gids hinv hs hm (fun pos t => ?_) rfl
    exact congrFun (entryLog_erase hfields.1 pos) t
  | @abort op out txn s e1 hq hs hprepared hrec =>
    obtain ⟨o, -, ho⟩ := (hinv.congr hq.same).opened hs
    -- a call that writes rows drops no transaction
    have hplain : op.writesRows = false := by
      by_contra hrows
      rw [not_eq_false] at hrows
      have hrun := (hkey.cover.recordRows hrows out).running txn
      rw [hkey.cover.running txn, ho, hrec h] at hrun
      change true = ((h.running.erase txn).get? txn).isSome at hrun
      rw [get?_erase, if_pos rfl] at hrun
      cases hrun
    have hk : (if op.writesRows then k else k.record (op, out)) = k.drop txn := by
      rw [hplain, if_neg Bool.false_ne_true, hrec k]
    rw [hk] at hm ⊢
    obtain ⟨s0, hs0, hsans⟩ := map_eq_some_iff.mp ((hq.txn txn).symm.trans (by rw [hs]; rfl))
    have hundo : s.undo = s0.undo := (congrArg TxnState.undo hsans).symm
    refine hkey.abort k.gids hinv hs0 hm (fun pos t => ?_) fun pos => ?_
    · rw [← hq.entryLog]
      exact (congrFun ((e1.takeTxn txn).abortWith_entries txn s true pos).1 t).trans
        (congrFun (entryLog_erase rfl pos) t)
    · rw [← hq.entriesAt, ← hundo]
      exact ((e1.takeTxn txn).abortWith_entries txn s true pos).2
  | @prepareTxn txn info s program hs hprepared hnew hclean hprogram =>
    refine hkey.keep hm (fun _ => rfl) (fun pos => ?_)
      (fun t ko hko => ⟨ko, hko, rfl⟩) rfl fun _ => rfl
    let d : TxnDomain :=
      { { e.txns with nextPrepareSeq := e.txns.nextPrepareSeq + 1 }.bumpStagedVersions txn with
        preparedGids := e.txns.preparedGids.insert info.gid txn }
    exact entryLog_modifyTxn_same { e with txns := d } txn (f := fun t =>
      { t with prepared := some info, reads := [], predicateReads := [] }) (fun _ => ⟨rfl, rfl⟩) pos
  | @finishPrepared gid owner commit txn hgid =>
    obtain ⟨c, -, hc, -⟩ := hinv.prepared gid txn hgid
    obtain ⟨s, hs, rfl⟩ := map_eq_some_iff.mp hc
    have hname : k.gids.get? gid = some txn := by
      rw [hkey.cover.gids, hinv.gids]
      exact hgid
    have hrec : ∀ c, k.record (.finishPrepared gid owner c, .ok .unit) =
        if c then ({ k with gids := k.gids.erase gid } : History).commit txn
        else ({ k with gids := k.gids.erase gid } : History).drop txn := by
      intro c
      simp only [record, hname]
    rw [if_neg (show ¬(Op.finishPrepared gid owner commit).writesRows = true from false_ne_true),
      hrec commit] at hm ⊢
    cases commit with
    | true =>
      have hfields := TxnDomain.finishCommit_fields (d := TxnDomain.bumpFinishedVersions
        { e.txns with preparedGids := e.txns.preparedGids.erase gid } txn) (show _ = some s from hs)
      refine hkey.commit _ hinv hs hm (fun pos t => ?_) rfl
      exact congrFun (entryLog_erase hfields.1 pos) t
    | false =>
      rw [finishTxn_abort hs] at hm ⊢
      refine hkey.abort _ hinv hs hm (fun pos t => ?_) fun pos => ?_
      · exact (congrFun (abortWith_entries _ txn s false pos).1 t).trans
          (congrFun (entryLog_erase rfl pos) t)
      · exact (abortWith_entries _ txn s false pos).2
  | purgeStart =>
    exact hkeep rfl rfl fun _ => rfl
  | purgeStep pass pressure => exact hkey.purgeStep hinv hok (hpurge rfl) pass pressure

/-- **Every call keeps the agreement.** -/
theorem step (hok : e.PassesOk h) (op : Op) (hdisc : e.CoversKeys ixs h op)
    (hpurge : op.isPurge = true → purges) :
    KeyInv ixs purges (e.step op).1 (h.record (op, (e.step op).2)) (k.recordKeys e op) := by
  unfold recordKeys
  rcases hev : e.keyEvents op with _ | ev
  · exact hkey.step_plain hinv hok hev hpurge
  obtain ⟨txn, ws⟩ := ev
  have hw := hdisc txn ws hev
  cases op with
  | indexInsert txn' index key tid =>
    cases hev
    have hone := hkey.indexInsertEach hinv index [(key, tid)] hw
    have heq : (e.indexInsertEach txn index [(key, tid)]).1 =
        (e.indexInsert txn index key tid).1 := by
      unfold Engine.indexInsertEach
      split
      · rename_i hcall
        rw [hcall]
      rename_i hcall
      rw [hcall]
      rfl
    rw [heq] at hone
    exact hone
  | indexInsertBatch txn' index entries =>
    cases hev
    exact hkey.indexInsertEach hinv index _ hw
  | indexDelete txn' index key tid =>
    cases hev
    exact hkey.indexDelete hinv index key tid hw
  | _ => cases hev

end KeyInv

end NusaDb
