import NusaDb.Btree.EntryLog

/-!
# Index entries with dead ranges left out

Purge takes dead ranges out of an entry once every view sees their end. `RowEntries.Thin` says that
the entries of one row are those of another with such ranges left out; whatever an index call or an
undo does to both keeps them so. The signs of tables and indexes are what no call but DDL changes.
-/

namespace NusaDb

open Option Function OrdMap RowEntries Engine

/-- The first entries are the second with some dead ranges left out. -/
structure RowEntries.Thin (drop : EntryMeta → Prop) (r r₂ : RowEntries) : Prop where
  alive : r.alive = r₂.alive
  ranges : ∀ key, Thinned drop (r.ranges key) (r₂.ranges key)

namespace RowEntries

variable {drop drop' : EntryMeta → Prop} {r r₂ : RowEntries} {key : Key} {txn : TxnId}

variable (ht : Thin drop r r₂)

include ht

namespace Thin

lemma mono (hdrop : ∀ m, drop m → drop' m) : Thin drop' r r₂ :=
  ⟨ht.alive, fun key => (ht.ranges key).mono hdrop⟩

lemma set {metas metas2 : List EntryMeta} (key : Key) (hm : Thinned drop metas metas2) :
    Thin drop (r.set key metas) (r₂.set key metas2) := by
  refine ⟨ht.alive, fun key' => ?_⟩
  unfold RowEntries.set
  dsimp only
  by_cases hk : key' = key
  · rw [hk, update_self, update_self]
    exact hm
  · rw [update_of_ne hk, update_of_ne hk]
    exact ht.ranges key'

lemma setAlive (alive : Option Key) :
    Thin drop { r with alive := alive } { r₂ with alive := alive } :=
  ⟨rfl, ht.ranges⟩

lemma clearAt (key : Key) : Thin drop (r.clearAt key) (r₂.clearAt key) := by
  unfold RowEntries.clearAt
  rw [ht.alive]
  split
  · exact ht.setAlive none
  · exact ht

lemma insert (hdrop : ∀ m, drop m → m.xmax ≠ noXmax) (key : Key) (txn : TxnId) :
    Thin drop (r.insert key txn).1 (r₂.insert key txn).1 ∧
      (r.insert key txn).2 = (r₂.insert key txn).2 := by
  have hpush : ∀ {r r₂ : RowEntries}, Thin drop r r₂ →
      Thin drop (r.push key ⟨txn, noXmax⟩) (r₂.push key ⟨txn, noXmax⟩) := fun h =>
    (h.set key ((h.ranges key).append_right _)).setAlive (some key)
  unfold RowEntries.insert
  rw [ht.alive]
  cases r₂.alive with
  | none => exact ⟨hpush ht, rfl⟩
  | some oldKey =>
    dsimp only
    split
    · exact ⟨ht, rfl⟩
    · refine ⟨hpush (ht.set oldKey ((ht.ranges oldKey).modifyLast fun m hm => ?_)), rfl⟩
      exact beq_eq_false_iff_ne.mpr (hdrop m hm)

lemma delete (hdrop : ∀ m, drop m → m.xmax ≠ noXmax) (key : Key) :
    Thin drop (r.delete key).1 (r₂.delete key).1 ∧ (r.delete key).2 = (r₂.delete key).2 := by
  have halive : ∀ m, drop m → (m.xmax == noXmax) = false :=
    fun m hm => beq_eq_false_iff_ne.mpr (hdrop m hm)
  unfold RowEntries.delete
  rw [(ht.ranges key).findLast? halive]
  cases findLast? (fun m => m.xmax == noXmax) (r₂.ranges key) with
  | none => exact ⟨ht, rfl⟩
  | some removed => exact ⟨(ht.set key ((ht.ranges key).eraseLast halive)).clearAt key, rfl⟩

/-- Undoing does the same to both: what was dropped is no range the transaction made. -/
lemma undone (hdrop : ∀ m, drop m → m.xmax ≠ noXmax ∧ m.xmax ≠ txn) (op : UndoOp) :
    Thin drop (r.undone txn op) (r₂.undone txn op) := by
  have hremove : ∀ key, Thin drop (r.removeInserted key txn) (r₂.removeInserted key txn) := by
    intro key
    refine (ht.set key ((ht.ranges key).eraseLast fun m hm => ?_)).clearAt key
    rw [beq_eq_false_iff_ne.mpr (hdrop m hm).1, Bool.and_false]
  cases op with
  | inserted | updated | deleted => exact ht
  | indexInserted index key row stamped =>
    rcases stamped with _ | oldKey
    · exact hremove key
    have hrem := hremove key
    have hstamp : ∀ m, drop m → (m.xmax == txn) = false :=
      fun m hm => beq_eq_false_iff_ne.mpr (hdrop m hm).2
    show Thin drop (unstamp _ oldKey txn) (unstamp _ oldKey txn)
    unfold unstamp
    rw [(hrem.ranges oldKey).any_eq hstamp]
    split
    · exact (hrem.set oldKey ((hrem.ranges oldKey).modifyLast hstamp)).setAlive _
    · exact hrem
  | indexDeleted index key row range =>
    show Thin drop (restore _ key range) (restore _ key range)
    unfold restore
    have hset := ht.set key ((ht.ranges key).append_right [range])
    split
    · exact hset.setAlive _
    · exact hset

lemma undoneAll (hdrop : ∀ m, drop m → m.xmax ≠ noXmax ∧ m.xmax ≠ txn) (ops : List UndoOp) :
    Thin drop (ops.foldl (RowEntries.undone txn) r) (ops.foldl (RowEntries.undone txn) r₂) := by
  induction ops generalizing r r₂ with
  | nil => exact ht
  | cons op ops ih => exact ih (ht.undone hdrop op)

end Thin

end RowEntries

def Table.sign (t : Table) : String × RowId := (t.name, t.nextRowId)

def IndexState.sign (i : IndexState) : TableId × String × Bool × Bool :=
  (i.table, i.name, i.unique, i.backing)

namespace Engine

def tableSign (e : Engine) (table : TableId) : Option (String × RowId) :=
  (e.tables.get? table).map Table.sign

def indexSign (e : Engine) (index : IndexId) : Option (TableId × String × Bool × Bool) :=
  (e.indexes.get? index).map IndexState.sign

end Engine

def Droppable (settled : TxnId → Prop) (m : EntryMeta) : Prop :=
  m.xmax ≠ noXmax ∧ settled m.xmax

variable {e e' : Engine} {txn : TxnId}

variable (hq : e.Quiet e')

include hq

lemma Engine.Quiet.entryLog : e'.entryLog = e.entryLog := by
  funext pos txn
  have hsans : ∀ s : TxnState, s.entryLog pos = s.sansLocks.entryLog pos := fun _ => rfl
  have hview : ∀ x : Option TxnState,
      x.map (TxnState.entryLog pos) = (x.map TxnState.sansLocks).map (TxnState.entryLog pos) := by
    intro x
    cases x with
    | none => rfl
    | some s => exact congrArg some (hsans s)
  exact (hview _).trans ((congrArg _ (hq.txn txn)).trans (hview _).symm)

lemma Engine.Quiet.tableSign : e'.tableSign = e.tableSign := by
  funext table
  have hview : ∀ x : Option Table, x.map Table.sign =
      (x.map Table.content).map fun c => (c.1, c.2.2) := by
    intro x
    cases x <;> rfl
  unfold Engine.tableSign
  rw [hview, hview, hq.tables]

lemma Engine.Quiet.entriesAt : e'.entriesAt = e.entriesAt := by
  funext pos
  unfold Engine.entriesAt
  rw [hq.indexes]

lemma Engine.Quiet.indexSign : e'.indexSign = e.indexSign := by
  funext index
  unfold Engine.indexSign
  rw [hq.indexes]

omit hq

lemma Engine.entryLog_modifyTxn (e : Engine) (txn : TxnId) {f : TxnState → TxnState}
    {pos : Pos} {g : EntryLog → EntryLog}
    (hf : ∀ s, e.txns.txns.get? txn = some s → (f s).entryLog pos = g (s.entryLog pos)) :
    entryLog { e with txns := e.txns.modifyTxn txn f } pos =
      fun t => if txn = t then (e.entryLog pos txn).map g else e.entryLog pos t := by
  funext t
  show ((e.txns.txns.modify txn f).get? t).map _ = _
  rw [get?_modify]
  split
  · rw [entryLog]
    cases hs : e.txns.txns.get? txn with
    | none => rfl
    | some s => exact congrArg some (hf s hs)
  · rfl

lemma Engine.indexSign_modifyIndex (e : Engine) (index : IndexId) (f : IndexData → IndexData) :
    (e.modifyIndex index f).indexSign = e.indexSign := by
  funext index'
  apply map_get?_modify_self
  exact fun _ => rfl

lemma Engine.undoOp_signs (e : Engine) (txn : TxnId) (op : UndoOp) :
    (e.undoOp txn op).tableSign = e.tableSign ∧ (e.undoOp txn op).indexSign = e.indexSign ∧
      (e.undoOp txn op).maxPrepared = e.maxPrepared := by
  have hrows : ∀ (table : TableId) (f : OrdMap RowId Version → OrdMap RowId Version),
      (e.writeRows table f).tableSign = e.tableSign := by
    intro table f
    funext table'
    apply map_get?_modify_self
    exact fun _ => rfl
  cases op with
  | inserted | deleted => exact ⟨hrows _ _, rfl, rfl⟩
  | updated table row old slot => exact ⟨hrows table fun rows => rows.modify row fun _ => old, rfl, rfl⟩
  | indexInserted | indexDeleted => exact ⟨rfl, e.indexSign_modifyIndex _ _, rfl⟩

lemma Engine.undoOps_signs (e : Engine) (txn : TxnId) (ops : List UndoOp) :
    (e.undoOps txn ops).tableSign = e.tableSign ∧ (e.undoOps txn ops).indexSign = e.indexSign ∧
      (e.undoOps txn ops).maxPrepared = e.maxPrepared := by
  induction ops generalizing e with
  | nil => exact ⟨rfl, rfl, rfl⟩
  | cons op ops ih =>
    obtain ⟨htable, hindex, hmax⟩ := e.undoOp_signs txn op
    obtain ⟨htable', hindex', hmax'⟩ := ih (e.undoOp txn op)
    exact ⟨htable'.trans htable, hindex'.trans hindex, hmax'.trans hmax⟩

end NusaDb
