import NusaDb.Btree.StepFrame

/-!
# Reading an undo list forward

A prepare reads the undo list forward and looks up the tuple each change left: what the next change
to the row saved, or the row's leaf entry.
-/

namespace NusaDb

open List

open History (Ver)

/-- The tuple a row had before the changes `newer`, newest first, led to `v`. -/
def savedBefore (newer : List UndoOp) (v : Version) : Option Tuple :=
  match newer.getLast? with
  | none => some v.tuple
  | some (.updated _ _ old _) => some old.tuple
  | some (.deleted _ _ old) => some old.tuple
  | some _ => none

def UndoOp.leavesTuple : UndoOp → Bool
  | .inserted .. => true
  | .updated .. => true
  | _ => false

section

variable {u : UndoDomain} {settled : TxnId → Prop} {txn : TxnId} {v : Version} {op : UndoOp}

/-- **The version a change left is the transaction's write.** -/
theorem RowRep.savedBefore_eq {newer older : List UndoOp} {ss : List Nat} {ws : List Ver}
    (hr : RowRep u.arena settled (some v) ss ws) (htxn : ¬settled txn ∧ txn ≠ noXmax)
    (hu : Undoes u.arena txn v (newer ++ op :: older)) (hop : op.leavesTuple = true) :
    ∃ tuple, savedBefore newer v = some tuple ∧ ws[newer.length]? = some ⟨txn, some tuple⟩ := by
  induction newer generalizing v ss ws with
  | nil =>
    refine ⟨v.tuple, rfl, ?_⟩
    have hhead : v.header.xmin = txn ∧ v.header.xmax = noXmax := by
      cases hu with
      | inserted hv | updated hv => rw [hv]; exact ⟨rfl, rfl⟩
      | deleted => cases hop
    cases hr with
    | live hx hc => cases hc <;> rw [← hhead.1] <;> rfl
    | dead hx hc => exact absurd hhead.2 hx
  | cons a newer ih =>
    obtain ⟨ss', -, hrow, hrest⟩ := hr.undone htxn hu
    obtain ⟨v', hv', hu'⟩ := hrest (by simp)
    rw [hv'] at hrow
    obtain ⟨tuple, hsaved, hget⟩ := ih hrow hu'
    refine ⟨tuple, ?_, ?_⟩
    · cases newer with
      | cons b newer =>
        obtain ⟨x, hx⟩ : ∃ x, (b :: newer).getLast? = some x :=
          ⟨_, getLast?_eq_some_getLast (by simp)⟩
        unfold savedBefore at hsaved ⊢
        rw [getLast?_cons_cons, hx]
        rw [hx] at hsaved
        cases x <;> exact hsaved
      | nil =>
        -- the oldest of the newer changes saved what it replaced
        have htuple : v'.tuple = tuple := Option.some.inj hsaved
        subst htuple
        cases hu with
        | updated => cases hv'; rfl
        | deleted _ _ _ ht =>
          cases hv'
          exact congrArg some ht
    · cases ws with
      | nil => cases hget
      | cons w ws => exact hget

lemma RowRep.deleted_eq {newer older : List UndoOp} {ss : List Nat} {ws : List Ver}
    (hr : RowRep u.arena settled (some v) ss ws) (htxn : ¬settled txn ∧ txn ≠ noXmax)
    (hu : Undoes u.arena txn v (newer ++ op :: older)) (hop : op.leavesTuple = false) :
    ws[newer.length]? = some ⟨txn, none⟩ := by
  induction newer generalizing v ss ws with
  | nil =>
    have hmax : v.header.xmax = txn := by
      cases hu with
      | inserted | updated => cases hop
      | deleted hv => exact hv
    cases hr with
    | live hx => exact absurd (hmax.symm.trans hx) htxn.2
    | dead hx hc => rw [hmax]; rfl
  | cons a newer ih =>
    obtain ⟨ss', -, hrow, hrest⟩ := hr.undone htxn hu
    obtain ⟨v', hv', hu'⟩ := hrest (by simp)
    rw [hv'] at hrow
    rw [length_cons, ← getElem?_tail]
    exact ih hrow hu'

end

variable {e : Engine} {h : History} {txn : TxnId} {c : TxnCore} {op : UndoOp} {loc : Loc}

lemma find?_reverse_eq_getLast? (loc : Loc) (newer : List UndoOp) :
    (newer.reverse.find? fun op => decide (op.rowOf = some loc)) = (opsAt loc newer).getLast? := by
  rw [← head?_filter, filter_reverse, head?_reverse]
  rfl

section

variable (hinv : Inv e h) (hc : e.core txn = some c) {newer older : List UndoOp}
  (hundo : c.undo = newer ++ op :: older)

include hinv hc older hundo

lemma Inv.afterTuple_eq (hloc : op.rowOf = some loc)
    (hop : op.leavesTuple = true) :
    ∃ tuple, e.afterTuple newer.reverse loc.1 loc.2 = .ok tuple ∧
      (h.versions loc)[(opsAt loc newer).length]? = some ⟨txn, some tuple⟩ := by
  obtain ⟨slots, hstore⟩ := hinv.store
  have hsplit : e.pendAt txn loc = opsAt loc newer ++ op :: opsAt loc older := by
    rw [Engine.pendAt_of_core hc, hundo]
    unfold opsAt
    rw [filter_append, filter_cons_of_pos (by simpa using hloc)]
  obtain ⟨v, hv, hu⟩ := hstore.undo txn loc (by rw [hsplit]; simp)
  rw [hsplit] at hu
  have hrow := hstore.row loc
  rw [hv] at hrow
  obtain ⟨tuple, hsaved, hget⟩ :=
    hrow.savedBefore_eq (hinv.open_not_settled hc) hu hop
  refine ⟨tuple, ?_, hget⟩
  unfold Engine.afterTuple
  rw [find?_reverse_eq_getLast?]
  unfold savedBefore at hsaved
  cases hlast : (opsAt loc newer).getLast? with
  | none =>
    rw [hlast] at hsaved
    obtain ⟨t, ht⟩ := Option.isSome_iff_exists.mp (Engine.table_of_leaf hv)
    rw [Engine.leafAt_eq_of_table ht] at hv
    rw [ht]
    dsimp only
    rw [hv]
    exact congrArg Except.ok (Option.some.inj hsaved)
  | some a =>
    rw [hlast] at hsaved
    cases a with
    | updated | deleted => exact congrArg Except.ok (Option.some.inj hsaved)
    | inserted | indexInserted | indexDeleted => cases hsaved

end

/-- The row change a record stands for. -/
def WalRecord.rowWrite : WalRecord → Option Write
  | .insert _ table row tuple | .update _ table row tuple => some ⟨(table, row), some tuple⟩
  | .delete _ table row => some ⟨(table, row), none⟩
  | _ => none

variable {o : OpenTxn} {newer older : List UndoOp} {w : Write} {ws₁ ws₂ : List Write}

/-- The record of a row change is the write that the history has in its place. -/
lemma Inv.recordOf_write (hinv : Inv e h) (hc : e.core txn = some c)
    (hundo : c.undo = newer ++ op :: older) (ho : h.running.get? txn = some o)
    (hwrites : o.writes = ws₁ ++ w :: ws₂)
    (hlocs : newer.filterMap UndoOp.rowOf = ws₁.map Write.loc) (hloc : op.rowOf = some w.loc) :
    ∃ record, e.recordOf txn newer.reverse op = .ok [record] ∧ record.rowWrite = some w := by
  obtain ⟨loc, value⟩ := w
  obtain ⟨slots, hstore⟩ := hinv.store
  have hsplit : e.pendAt txn loc = opsAt loc newer ++ op :: opsAt loc older := by
    rw [Engine.pendAt_of_core hc, hundo]
    unfold opsAt
    rw [filter_append, filter_cons_of_pos (by simpa using hloc)]
  obtain ⟨v, hv, hu⟩ := hstore.undo txn loc (by rw [hsplit]; simp)
  -- counted from the newest, the change is to the row what the write is to its versions
  have hver : (h.versions loc)[(opsAt loc newer).length]? = some ⟨txn, value⟩ := by
    rw [History.versions_eq_of_sole ho (hinv.sole ho ⟨⟨loc, value⟩, by simp [hwrites], rfl⟩),
      hwrites, length_opsAt_eq hlocs]
    simp [History.versionsOf]
  have htable : e.tables.contains loc.1 := Engine.table_of_leaf hv
  cases op with
  | inserted | updated =>
    obtain ⟨tuple, htuple, hget⟩ := hinv.afterTuple_eq hc hundo hloc rfl
    cases hloc
    cases hver.symm.trans hget
    exact ⟨_, by rw [Engine.recordOf, if_pos htable, htuple]; rfl, rfl⟩
  | deleted =>
    have hrow := hstore.row loc
    rw [hv] at hrow
    have hget := hrow.deleted_eq (hinv.open_not_settled hc) (hsplit ▸ hu) rfl
    cases hloc
    cases hver.symm.trans hget
    exact ⟨_, by rw [Engine.recordOf, if_pos htable], rfl⟩
  | indexInserted | indexDeleted => cases hloc

/-- **Every open transaction has a program, its writes in order.** -/
theorem Inv.programOf_writes (hinv : Inv e h) (hc : e.core txn = some c)
    (ho : h.running.get? txn = some o) :
    ∃ program, e.programOf txn c.undo = .ok program ∧
      program.filterMap WalRecord.rowWrite = o.writes.reverse := by
  have hrep := (hinv.txn txn c o hc ho).locs
  -- by the changes from the newest back, the writes `ws₁` being theirs
  have hfrom : ∀ later older, c.undo = later.reverse ++ older → ∃ program ws₁ ws₂,
      e.programFrom txn later = .ok program ∧ o.writes = ws₁ ++ ws₂ ∧
      later.reverse.filterMap UndoOp.rowOf = ws₁.map Write.loc ∧
      program.filterMap WalRecord.rowWrite = ws₁.reverse := by
    intro later
    induction later with
    | nil => exact fun _ _ => ⟨[], [], o.writes, rfl, rfl, rfl, rfl⟩
    | cons op later ih =>
      intro older hundo
      rw [reverse_cons, append_assoc] at hundo
      obtain ⟨program, ws₁, ws₂, hprogram, hwrites, hlocs, hrows⟩ := ih _ hundo
      rw [Engine.programFrom, hprogram]
      cases hop : op.rowOf with
      | none =>
        obtain ⟨records, hrecords, hnil⟩ : ∃ records, e.recordOf txn later op = .ok records ∧
            records.filterMap WalRecord.rowWrite = [] := by
          cases op with
          | inserted | updated | deleted => cases hop
          | indexInserted | indexDeleted => exact ⟨_, rfl, by split <;> rfl⟩
        exact ⟨records ++ program, ws₁, ws₂, by rw [hrecords]; rfl, hwrites, by simp [hop, ← hlocs],
          by simp [hnil, hrows]⟩
      | some loc =>
        have hrest : (op :: older).filterMap UndoOp.rowOf = ws₂.map Write.loc := by
          rw [← append_right_inj (ws₁.map Write.loc), ← map_append, ← hwrites, ← hrep, ← hlocs,
            ← filterMap_append]
          exact congrArg _ hundo.symm
        rw [filterMap_cons_some hop] at hrest
        obtain ⟨w, ws₂, rfl, hw, -⟩ := map_eq_cons_iff.mp hrest.symm
        obtain ⟨record, hrecord, hrow⟩ := hinv.recordOf_write hc hundo ho hwrites hlocs (hw ▸ hop)
        rw [reverse_reverse] at hrecord
        exact ⟨record :: program, ws₁ ++ [w], ws₂, by rw [hrecord]; rfl, by simp [hwrites],
          by simp [hop, ← hlocs, hw], by simp [hrow, hrows]⟩
  obtain ⟨program, ws₁, ws₂, hprogram, hwrites, hlocs, hrows⟩ := hfrom c.undo.reverse [] (by simp)
  have hnil : ws₂ = [] := by
    rw [hwrites, map_append, ← hlocs, reverse_reverse] at hrep
    exact map_eq_nil_iff.mp (self_eq_append_right.mp hrep)
  exact ⟨program, hprogram, by rw [hrows, hwrites, hnil, append_nil]⟩

/-- **A prepare logs what its transaction did.** After any run, the program read off the undo list of
an open transaction is its writes that were not undone, in order. -/
theorem program_is_writes (e : {e : Engine // e.Fresh}) (ops : List Op) (txn : TxnId) :
    let e' := (e.1.run ops).1
    (e'.txns.txns.get? txn).map (fun s =>
        (e'.programOf txn s.undo).map fun p => p.filterMap WalRecord.rowWrite) =
      ((History.of (e.1.run ops).2).running.get? txn).map fun o => .ok o.writes.reverse := by
  intro e'
  have hinv : Inv e' _ := Inv.reachable e.2 ops
  generalize History.of (e.1.run ops).2 = h at hinv ⊢
  have hrun := hinv.running txn
  rcases hs : e'.txns.txns.get? txn with _ | s <;> rcases ho : h.running.get? txn with _ | o <;>
    simp [Engine.core, hs, ho] at hrun ⊢
  obtain ⟨program, hprogram, hrows⟩ := hinv.programOf_writes (Engine.core_of_get? hs) ho
  change e'.programOf txn s.undo = _ at hprogram
  rw [hprogram, ← hrows]
  rfl

end NusaDb
