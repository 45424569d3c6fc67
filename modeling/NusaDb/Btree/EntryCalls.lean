import NusaDb.Btree.Calls
import NusaDb.Btree.Entries

/-!
# Index calls, one row at a time

An index insert or delete changes the entries of one row and leaves at most one undo entry, for that
position of the index (`OneAt`).
-/

namespace NusaDb

open List Option Engine OrdMap RowEntries

abbrev Pos := IndexId × RowId

def UndoOp.entryOf : UndoOp → Option Pos
  | .indexInserted index _ row _ => some (index, row)
  | .indexDeleted index _ row _ => some (index, row)
  | .inserted .. => none
  | .updated .. => none
  | .deleted .. => none

def OneAt (q : Pos) (ops : List UndoOp) : Prop :=
  ops = [] ∨ ∃ op, ops = [op] ∧ op.entryOf = some q

/-- The undo entries of an index insert: none when the row's alive entry already carries the key. -/
def RowEntries.insertOps (r : RowEntries) (index : IndexId) (key : Key) (row : RowId)
    (txn : TxnId) : List UndoOp :=
  match (r.insert key txn).2 with
  | .noop => []
  | .inserted stamped => [.indexInserted index key row stamped]

/-- The undo entries of an index delete: none when there is no alive range to remove. -/
def RowEntries.deleteOps (r : RowEntries) (index : IndexId) (key : Key) (row : RowId) :
    List UndoOp :=
  match (r.delete key).2 with
  | none => []
  | some range => [.indexDeleted index key row range]

namespace Engine

def pushAll (e : Engine) (txn : TxnId) (ops : List UndoOp) : Engine :=
  { e with txns := e.txns.modifyTxn txn fun t => { t with undo := ops ++ t.undo } }

/-- The state after an index insert that was not refused; `r` is what the index held of the row. -/
def putEntry (e : Engine) (txn : TxnId) (index : IndexId) (key : Key) (row : RowId)
    (r : RowEntries) : Engine :=
  ((e.modifyIndex index fun d => (d.applyInsert key row txn).1).pushAll txn
    (r.insertOps index key row txn)).log (.indexInsert txn index row key)

/-- The state after an index delete; one that finds no alive range logs nothing. -/
def dropEntry (e : Engine) (txn : TxnId) (index : IndexId) (key : Key) (row : RowId)
    (r : RowEntries) : Engine :=
  let e₁ := (e.modifyIndex index fun d => (d.applyDelete key row).1).pushAll txn
    (r.deleteOps index key row)
  { e₁ with wal := e.wal ++
      if (r.deleteOps index key row).isEmpty then [] else [.indexDelete txn index row key] }

end Engine

variable {e : Engine} {txn : TxnId} {index : IndexId} {key : Key} {i : IndexState}

section

variable (r : RowEntries) (index : IndexId) (key : Key) (row : RowId)

lemma RowEntries.oneAt_insertOps (txn : TxnId) :
    OneAt (index, row) (r.insertOps index key row txn) := by
  unfold insertOps
  cases (r.insert key txn).2 with
  | noop => exact .inl rfl
  | inserted stamped => exact .inr ⟨_, rfl, rfl⟩

lemma RowEntries.oneAt_deleteOps : OneAt (index, row) (r.deleteOps index key row) := by
  unfold deleteOps
  cases (r.delete key).2 with
  | none => exact .inl rfl
  | some range => exact .inr ⟨_, rfl, rfl⟩

end

lemma Engine.pushAll_nil (e : Engine) (txn : TxnId) : e.pushAll txn [] = e := by
  unfold pushAll TxnDomain.modifyTxn
  have hid : e.txns.txns.modify txn (fun t => { t with undo := [] ++ t.undo }) = e.txns.txns :=
    modify_id ..
  rw [hid]

lemma Engine.modifyIndex_const (hi : e.indexes.get? index = some i) (f : IndexData → IndexData) :
    (e.modifyIndex index fun _ => f i.data) = e.modifyIndex index f := by
  unfold modifyIndex
  rw [modify_congr fun j hj => ?_]
  rw [hi] at hj
  cases hj
  rfl

lemma Engine.dropEntry_none (hi : e.indexes.get? index = some i) {row : RowId}
    (hnone : ((i.data.rowEntries row).delete key).2 = none) :
    e.dropEntry txn index key row (i.data.rowEntries row) = e := by
  have hdata : (i.data.applyDelete key row).1 = i.data := by
    rw [← IndexData.applyDelete_snd] at hnone
    unfold IndexData.applyDelete at hnone ⊢
    rcases hload : i.data.load key row with _ | metas
    · rfl
    rw [hload] at hnone
    dsimp only at hnone ⊢
    cases hfind : findLast? (fun m : EntryMeta => m.xmax == noXmax) metas with
    | none => rfl
    | some m =>
      rw [hfind] at hnone
      cases hnone
  have hsame : (e.modifyIndex index fun d => (d.applyDelete key row).1) = e := by
    rw [← modifyIndex_const hi, hdata, modifyIndex_const hi fun d => d]
    unfold modifyIndex
    rw [OrdMap.modify_id]
  unfold dropEntry deleteOps
  rw [hnone, hsame, pushAll_nil]
  simp

variable (e txn index key) (tid : Tid)

lemma Engine.indexInsert_eq : e.indexInsert txn index key tid =
      if !e.txns.txns.contains txn then (e, .error (unknownTxn txn))
      else
        match e.indexes.get? index with
        | none => (e, .error (indexNotFound index))
        | some i =>
          if i.unique && !i.backing && e.duplicateKey i key (rowIdOf tid) then
            (e, .error (.constraintViolation ("duplicate key violates unique index " ++ i.name)))
          else
            (e.putEntry txn index key (rowIdOf tid) (i.data.rowEntries (rowIdOf tid)), .ok ()) := by
  unfold indexInsert
  split
  · rfl
  rcases hi : e.indexes.get? index with _ | i
  · rfl
  dsimp only
  split
  · rfl
  have hconst := modifyIndex_const hi fun d => (d.applyInsert key (rowIdOf tid) txn).1
  unfold putEntry insertOps
  rw [hconst, IndexData.applyInsert_snd]
  cases ((i.data.rowEntries (rowIdOf tid)).insert key txn).2 with
  | noop => rw [pushAll_nil]
  | inserted stamped => rfl

lemma Engine.indexInsert_cases : (∃ err, e.indexInsert txn index key tid = (e, .error err)) ∨
      ∃ s i, e.txns.txns.get? txn = some s ∧ e.indexes.get? index = some i ∧
        e.indexInsert txn index key tid =
          (e.putEntry txn index key (rowIdOf tid) (i.data.rowEntries (rowIdOf tid)), .ok ()) := by
  rw [indexInsert_eq]
  split
  · exact .inl ⟨_, rfl⟩
  rename_i hopen
  obtain ⟨s, hs⟩ := get?_of_contains hopen
  cases hi : e.indexes.get? index with
  | none => exact .inl ⟨_, rfl⟩
  | some i =>
    dsimp only
    split
    · exact .inl ⟨_, rfl⟩
    · exact .inr ⟨s, i, hs, rfl, rfl⟩

lemma Engine.indexDelete_eq : e.indexDelete txn index key tid =
      if !e.txns.txns.contains txn then (e, .error (unknownTxn txn))
      else
        match e.indexes.get? index with
        | none => (e, .error (indexNotFound index))
        | some i =>
          (e.dropEntry txn index key (rowIdOf tid) (i.data.rowEntries (rowIdOf tid)), .ok ()) := by
  unfold indexDelete
  split
  · rfl
  rcases hi : e.indexes.get? index with _ | i
  · rfl
  dsimp only
  have hsnd := i.data.applyDelete_snd key (rowIdOf tid)
  have hconst := modifyIndex_const hi fun d => (d.applyDelete key (rowIdOf tid)).1
  generalize i.data.applyDelete key (rowIdOf tid) = p at hsnd hconst
  obtain ⟨data, removed⟩ := p
  cases removed with
  | none => rw [dropEntry_none hi hsnd.symm]
  | some range =>
    unfold dropEntry deleteOps
    rw [← hsnd, ← hconst]
    rfl

lemma Engine.indexDelete_cases : (∃ r, e.indexDelete txn index key tid = (e, r)) ∨
      ∃ s i, e.txns.txns.get? txn = some s ∧ e.indexes.get? index = some i ∧
        e.indexDelete txn index key tid =
          (e.dropEntry txn index key (rowIdOf tid) (i.data.rowEntries (rowIdOf tid)), .ok ()) := by
  rw [indexDelete_eq]
  split
  · exact .inl ⟨_, rfl⟩
  rename_i hopen
  obtain ⟨s, hs⟩ := get?_of_contains hopen
  cases hi : e.indexes.get? index with
  | none => exact .inl ⟨_, rfl⟩
  | some i => exact .inr ⟨s, i, hs, rfl, rfl⟩

end NusaDb
