import NusaDb.Btree.Steps

/-!
# Undo entries, one index position at a time

What a transaction's undo list and savepoints hold for one position of an index (`EntryLog`):
undoing a stretch of the list undoes the position's share of it (`Engine.undoOps_entriesAt`).
-/

namespace NusaDb

open List Option Engine OrdMap TxnState MarkedLog

def entryOps (pos : Pos) (ops : List UndoOp) : List UndoOp :=
  ops.filter fun op => decide (op.entryOf = some pos)

/-- A position's share of a transaction's undo list, and of what was there at each savepoint. -/
abbrev EntryLog := MarkedLog String UndoOp

def TxnState.entryLog (pos : Pos) (s : TxnState) : EntryLog :=
  (MarkedLog.ofCounts s.undo s.savepoints).map (entryOps pos)

/-- A position's entries after one undo entry for it is applied. -/
def RowEntries.undone (txn : TxnId) (r : RowEntries) : UndoOp → RowEntries
  | .indexInserted _ key _ stamped =>
    match stamped with
    | none => r.removeInserted key txn
    | some oldKey => (r.removeInserted key txn).unstamp oldKey txn
  | .indexDeleted _ key _ range => r.restore key range
  | .inserted .. => r
  | .updated .. => r
  | .deleted .. => r

namespace Engine

def entryLog (e : Engine) (pos : Pos) (txn : TxnId) : Option EntryLog :=
  (e.txns.txns.get? txn).map (TxnState.entryLog pos)

def entriesAt (e : Engine) (pos : Pos) : Option RowEntries :=
  (e.indexes.get? pos.1).map fun i => i.data.rowEntries pos.2

def MarksLe (e : Engine) (txn : TxnId) : Prop :=
  ∀ s, e.txns.txns.get? txn = some s → ∀ p ∈ s.savepoints, p.2 ≤ s.undo.length

end Engine

section

variable {e : Engine} {h : History} {txn : TxnId} {s : TxnState} {op : UndoOp} {pos : Pos}

lemma entryOps_append (pos : Pos) (ops ops' : List UndoOp) :
    entryOps pos (ops ++ ops') = entryOps pos ops ++ entryOps pos ops' :=
  filter_append ..

lemma entryOps_cons_self {ops : List UndoOp} (hop : op.entryOf = some pos) :
    entryOps pos (op :: ops) = op :: entryOps pos ops :=
  filter_cons_of_pos (by simpa using hop)

lemma entryOps_cons_other {ops : List UndoOp} (hop : op.entryOf ≠ some pos) :
    entryOps pos (op :: ops) = entryOps pos ops :=
  filter_cons_of_neg (by simpa using hop)

lemma Inv.marksLe {S : Sight} {P : TxnId → Prop} (hinv : Inv e h S P) (txn : TxnId) : e.MarksLe txn := by
  intro s hs p hp
  obtain ⟨o, hc, ho⟩ := hinv.opened hs
  exact (hinv.txn txn s.core o hc ho).undo.counts.le p hp

lemma Inv.countsOk (hinv : Inv e h) (hs : e.txns.txns.get? txn = some s) :
    CountsOk s.undo s.savepoints := by
  obtain ⟨o, hc, ho⟩ := hinv.opened hs
  exact (hinv.txn txn s.core o hc ho).undo.counts

lemma TxnState.entryLog_push (hle : ∀ p ∈ s.savepoints, p.2 ≤ s.undo.length) (op : UndoOp)
    (pos : Pos) :
    entryLog pos { s with undo := op :: s.undo } =
      (entryLog pos s).push (entryOps pos [op]) := by
  unfold entryLog
  rw [← singleton_append, ofCounts_push hle]
  unfold MarkedLog.map MarkedLog.push
  rw [entryOps_append]

lemma Engine.entryLog_pushUndo (hle : e.MarksLe txn) (op : UndoOp) (pos : Pos) (t : TxnId) :
    (e.pushUndo txn op).entryLog pos t =
      if txn = t then (e.entryLog pos txn).map fun log =>
        log.push (entryOps pos [op])
      else e.entryLog pos t := by
  show ((e.txns.txns.modify txn _).get? t).map _ = _
  rw [get?_modify]
  by_cases ht : txn = t
  · rw [if_pos ht, if_pos ht, entryLog]
    cases hs : e.txns.txns.get? txn with
    | none => rfl
    | some s =>
      rw [map_some, map_some, map_some, map_some, entryLog_push (hle s hs) op pos]
  · rw [if_neg ht, if_neg ht]
    rfl

lemma Engine.entryLog_pushUndo_other (hle : e.MarksLe txn) (hop : op.entryOf ≠ some pos) :
    (e.pushUndo txn op).entryLog pos = e.entryLog pos := by
  funext t
  rw [entryLog_pushUndo hle]
  split
  · rename_i ht
    rw [entryOps_cons_other hop, ← ht]
    cases e.entryLog pos txn <;> rfl
  · rfl

lemma Engine.MarksLe.pushUndo (hle : e.MarksLe txn) (op : UndoOp) :
    (e.pushUndo txn op).MarksLe txn := by
  intro s' hs'
  change (e.txns.txns.modify txn _).get? txn = some s' at hs'
  rw [get?_modify, if_pos rfl] at hs'
  obtain ⟨s, hs, rfl⟩ := map_eq_some_iff.mp hs'
  exact fun p hp => Nat.le_succ_of_le (hle s hs p hp)

lemma TxnState.entryLog_mark (s : TxnState) (name : String) (pos : Pos) :
    (s.mark name).entryLog pos = (s.entryLog pos).mark name := by
  unfold entryLog mark
  rw [ofCounts_mark, map_mark]

lemma TxnState.entryLog_release (s : TxnState) (name : String) (pos : Pos) :
    (s.release name).entryLog pos = (s.entryLog pos).release name := by
  unfold entryLog release
  rw [ofCounts_release, map_release]

lemma TxnState.entryLog_backTo (hok : CountsOk s.undo s.savepoints) {name n : String}
    {mark : Nat} {older : List (String × Nat)}
    (hdrop : s.savepoints.dropWhile (·.1 ≠ name) = (n, mark) :: older) (pos : Pos) :
    (s.backTo name mark).entryLog pos = (s.entryLog pos).backTo name ∧
      entryOps pos s.undo =
        entryOps pos (s.undo.take (s.undo.length - mark)) ++ ((s.entryLog pos).backTo name).items := by
  have hback : (s.backTo name mark).entryLog pos = (s.entryLog pos).backTo name := by
    unfold entryLog backTo
    rw [hdrop, ofCounts_backTo hok hdrop, map_backTo]
  refine ⟨hback, ?_⟩
  rw [← hback]
  show _ = _ ++ entryOps pos (s.undo.drop (s.undo.length - mark))
  rw [← entryOps_append, take_append_drop]

lemma Engine.entriesAt_modifyIndex (e : Engine) (index : IndexId) (f : IndexData → IndexData)
    (pos : Pos) :
    (e.modifyIndex index f).entriesAt pos =
      if index = pos.1 then (e.indexes.get? index).map fun i => (f i.data).rowEntries pos.2
      else e.entriesAt pos := by
  unfold entriesAt modifyIndex
  rw [get?_modify]
  by_cases hi : index = pos.1
  · rw [if_pos hi, if_pos hi, Option.map_map]
    rfl
  · rw [if_neg hi, if_neg hi]

lemma Engine.entriesAt_modifyIndex_row {index : IndexId} {row : RowId} {f : IndexData → IndexData}
    {g : RowEntries → RowEntries}
    (hf : ∀ d row', (f d).rowEntries row' =
      if row' = row then g (d.rowEntries row) else d.rowEntries row') (pos : Pos) :
    (e.modifyIndex index f).entriesAt pos =
      if (index, row) = pos then (e.entriesAt pos).map g else e.entriesAt pos := by
  rw [entriesAt_modifyIndex]
  by_cases hi : index = pos.1
  · rw [if_pos hi]
    by_cases hr : row = pos.2
    · rw [if_pos (Prod.ext hi hr), Engine.entriesAt, Option.map_map, hi]
      congr 1
      funext i
      rw [hf, if_pos hr.symm, hr]
      rfl
    · rw [if_neg fun heq => hr (congrArg Prod.snd heq), entriesAt, hi]
      congr 1
      funext i
      rw [hf, if_neg (Ne.symm hr)]
  · rw [if_neg hi, if_neg fun heq => hi (congrArg Prod.fst heq)]

lemma Engine.undoOp_entriesAt (e : Engine) (txn : TxnId) (op : UndoOp) (pos : Pos) :
    (e.undoOp txn op).entriesAt pos =
      if op.entryOf = some pos then (e.entriesAt pos).map fun r => r.undone txn op
      else e.entriesAt pos := by
  cases op with
  | inserted | updated | deleted => rfl
  | indexInserted index key row stamped =>
    rw [UndoOp.entryOf]
    simp only [some_inj]
    refine entriesAt_modifyIndex_row (g := fun r => r.undone txn _) ?_ pos
    intro d row'
    cases stamped with
    | none => exact d.rowEntries_removeInserted key row row' txn
    | some oldKey =>
      show ((d.removeInserted key row txn).applyUnstamp oldKey row txn).rowEntries row' = _
      rw [IndexData.rowEntries_applyUnstamp, IndexData.rowEntries_removeInserted,
        IndexData.rowEntries_removeInserted, if_pos rfl]
      split <;> rfl
  | indexDeleted index key row range =>
    rw [UndoOp.entryOf]
    simp only [some_inj]
    exact entriesAt_modifyIndex_row (g := fun r => r.undone txn _)
      (fun d row' => d.rowEntries_restoreDeleted key row row' range) pos

/-- **Undoing a list undoes each position's share of it.** -/
theorem Engine.undoOps_entriesAt (e : Engine) (txn : TxnId) (ops : List UndoOp) (pos : Pos) :
    (e.undoOps txn ops).entriesAt pos =
      (e.entriesAt pos).map fun r => (entryOps pos ops).foldl (RowEntries.undone txn) r := by
  unfold undoOps
  induction ops generalizing e with
  | nil => simp [entryOps]
  | cons op ops ih =>
    rw [foldl_cons, ih, undoOp_entriesAt]
    by_cases hop : op.entryOf = some pos
    · rw [if_pos hop, entryOps_cons_self hop, Option.map_map]
      rfl
    · rw [if_neg hop, entryOps_cons_other hop]

end

variable {e : Engine} {h : History} {txn : TxnId} {index : IndexId} {key : Key} {tid : Tid}
  {i : IndexState} {pos : Pos}

lemma Engine.entriesAt_of_index (hi : e.indexes.get? index = some i) (row : RowId) :
    e.entriesAt (index, row) = some (i.data.rowEntries row) := by
  rw [entriesAt, hi]
  rfl

lemma Engine.entriesAt_putEntry (r : RowEntries) (row : RowId) (pos : Pos) :
    (e.putEntry txn index key row r).entriesAt pos =
      if (index, row) = pos then (e.entriesAt pos).map fun r => (r.insert key txn).1
      else e.entriesAt pos :=
  entriesAt_modifyIndex_row (g := fun r => (r.insert key txn).1)
    (fun d row' => d.rowEntries_applyInsert key row row' txn) pos

lemma Engine.entriesAt_dropEntry (r : RowEntries) (row : RowId) (pos : Pos) :
    (e.dropEntry txn index key row r).entriesAt pos =
      if (index, row) = pos then (e.entriesAt pos).map fun r => (r.delete key).1
      else e.entriesAt pos :=
  entriesAt_modifyIndex_row (g := fun r => (r.delete key).1)
    (fun d row' => d.rowEntries_applyDelete key row row') pos

lemma Engine.entryLog_pushAll (hle : e.MarksLe txn) {ops : List UndoOp} {q : Pos}
    (hops : OneAt q ops) (pos : Pos) (t : TxnId) :
    (e.pushAll txn ops).entryLog pos t =
      if txn = t then (e.entryLog pos txn).map fun log => log.push (if q = pos then ops else [])
      else e.entryLog pos t := by
  rcases hops with rfl | ⟨op, rfl, hop⟩
  · rw [pushAll_nil, ite_self]
    split
    · rename_i ht
      rw [← ht]
      cases e.entryLog pos txn <;> rfl
    · rfl
  · have hone : entryOps pos [op] = if q = pos then [op] else [] := by
      split
      · exact entryOps_cons_self (by rw [hop, ‹q = pos›])
      · exact entryOps_cons_other fun heq => ‹¬q = pos› (some.inj (hop.symm.trans heq))
    rw [← hone]
    exact entryLog_pushUndo hle op pos t

end NusaDb
