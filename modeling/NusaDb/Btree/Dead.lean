import NusaDb.Btree.StepFrame

/-!
# Rows whose delete everyone sees

A row whose newest write is a settled delete is gone for good: no view sees it, nobody can write it,
and no undo brings it back. These are the rows purge removes.
-/

namespace NusaDb

open List Engine OrdMap History

open History (Ver)

variable {e e' : Engine} {h : History} {txn : TxnId} {s : TxnState} {loc : Loc}

/-- The row's last write is a delete that every open view sees, and every later one will. -/
def Engine.Dead (e : Engine) (h : History) (loc : Loc) : Prop :=
  ∃ t older, h.versions loc = ⟨t, none⟩ :: older ∧ e.Settled t

variable (hd : e.Dead h loc)

include hd

lemma Engine.Dead.not_writes (hinv : Inv e h) :
    ∀ t o, h.running.get? t = some o → ¬Writes o.writes loc := by
  intro t o ho hw
  obtain ⟨x, older, hvers, hset⟩ := hd
  obtain ⟨c, hc⟩ := hinv.core_of_running ho
  rw [versions_eq_of_sole ho (hinv.sole ho hw)] at hvers
  obtain ⟨w, hmem, hloc⟩ := hw
  cases hown : versionsOf t o.writes loc with
  | nil =>
    have hmem' : (⟨t, w.value⟩ : Ver) ∈ versionsOf t o.writes loc :=
      mem_map.mpr ⟨w, mem_filter.mpr ⟨hmem, decide_eq_true hloc⟩, rfl⟩
    rw [hown] at hmem'
    cases hmem'
  | cons u rest =>
    have hu : u.txn = t := (mem_versionsOf (hown ▸ mem_cons_self)).1
    rw [hown, cons_append] at hvers
    have hx : u.txn = x := congrArg Ver.txn (cons.inj hvers).1
    exact (hinv.open_not_settled hc).1 (hu ▸ hx ▸ hset)

/-- What is left of a dead row: nothing, or a version whose delete stamp is settled. -/
lemma Engine.Dead.leaf (hinv : Inv e h) {v : Version} (hv : e.leafAt loc = some v) :
    v.header.xmax ≠ noXmax ∧ e.Settled v.header.xmax := by
  obtain ⟨t, older, hvers, hset⟩ := hd
  obtain ⟨slots, hstore⟩ := hinv.store
  have hrow := hstore.row loc
  rw [hv, hvers] at hrow
  generalize slots loc = ss at hrow
  cases hrow with
  | live hx hc => cases hc
  | dead hx hc => exact ⟨hx, hset⟩

omit hd in
lemma History.versions_write_other {w : Write} (hne : w.loc ≠ loc) :
    (h.write txn w).versions loc = h.versions loc :=
  versions_modify_of_eq fun _ _ => versionsOf_cons_other hne

omit hd in
lemma History.versions_writes_other (rows : List (Tid × Tuple)) (table : TableId)
    (hne : ∀ p ∈ rows, (table, rowIdOf p.1) ≠ loc) :
    (rows.foldl (fun h p => h.write txn ⟨(table, rowIdOf p.1), some p.2⟩) h).versions loc =
      h.versions loc := by
  induction rows generalizing h with
  | nil => rfl
  | cons p rows ih =>
    rw [foldl_cons, ih fun q hq => hne q (mem_cons_of_mem _ hq)]
    exact versions_write_other (hne p mem_cons_self)

lemma Engine.Dead.versions_drop (hinv : Inv e h) (txn : TxnId) :
    (h.drop txn).versions loc = h.versions loc := by
  unfold versions
  rw [pending_drop_of_not_writes fun o ho => hd.not_writes hinv txn o ho]
  rfl

lemma Engine.Dead.versions_commit (hinv : Inv e h) (txn : TxnId) (gids : OrdMap String TxnId) :
    (({ h with gids := gids } : History).commit txn).versions loc = h.versions loc := by
  cases ho : h.running.get? txn with
  | none =>
    unfold History.commit
    rw [ho]
    rfl
  | some o =>
    exact History.versions_commit (h := { h with gids := gids }) ho fun hw =>
      absurd hw (hd.not_writes hinv txn o ho)

/-- **No call writes a dead row**, and none takes a write off it. -/
theorem Engine.Dead.versions_step (hinv : Inv e h) (op : Op) :
    (h.record (op, (e.step op).2)).versions loc = h.versions loc := by
  have heff := e.step_effect op
  have hno := hd.not_writes hinv
  -- an admitted write is to a row whose newest version is live
  have hlive : ∀ {e1 : Engine} {t : TxnId} {table : TableId} {tid : Tid} {old : Version}
      {s : TxnState}, e.Quiet e1 → e1.leaf table (rowIdOf tid) = some old →
      e1.txns.admitWrite t old.header tid = .ok () → (table, rowIdOf tid) ≠ loc := by
    intro e1 t table tid old s hq hold hadm heq
    refine (hd.leaf hinv (v := old) ?_).1 (TxnDomain.admitWrite_ok hadm).2.1
    rw [← heq, ← hq.leafAt]
    exact hold
  -- a new row has no versions yet
  have hfresh : ∀ {e1 : Engine} {table : TableId} {t : Table} {row : RowId}, e.Quiet e1 →
      e1.tables.get? table = some t → t.nextRowId ≤ row → (table, row) ≠ loc := by
    intro e1 table t row hq ht hle heq
    have hnil := hinv.fresh table t.nextRowId row
      (by rw [← hq.nextRow]; exact nextRow_of_table ht) hle
    obtain ⟨x, older, hvers, _⟩ := hd
    rw [heq, hvers] at hnil
    cases hnil
  generalize hout : (e.step op).2 = out at heff ⊢
  generalize (e.step op).1 = e' at heff
  cases heff with
  | quiet hq hrec => rw [hrec]
  | begin level => exact versions_begin hinv.next_none.2 rfl loc
  | beginStatement txn =>
    refine versions_modify_of_eq fun o _ => ?_
    split <;> rfl
  | @insert txn table tuple e1 t s hq hs ht =>
    exact versions_write_other (hfresh hq ht (le_rfl))
  | @insertBatch txn table tuples e1 t s hq hs ht =>
    refine versions_writes_other _ table fun p hp => ?_
    obtain ⟨i, -, hi⟩ := mem_map.mp (of_mem_zip hp).1
    rw [← hi]
    exact hfresh hq ht (Nat.le_add_right _ _)
  | @update txn table tid tuple e1 old s hq hs hold hadm
  | @delete txn table tid e1 old s hq hs hold hadm =>
    exact versions_write_other (hlive (s := s) hq hold hadm)
  | scan | indexScan | indexInsert | indexInsertBatch | indexDelete => rfl
  | savepoint | releaseSavepoint => exact versions_modify_of_eq fun _ _ => rfl
  | @rollbackTo txn name s mark older hs hdrop =>
    refine versions_modify_of_eq fun o ho => ?_
    have hnil : versionsOf txn o.writes loc = [] :=
      versionsOf_eq_nil (hno txn o ho)
    split
    · rfl
    rw [hnil]
    refine versionsOf_eq_nil fun ⟨w, hw, hloc⟩ => hno txn o ho ⟨w, ?_, hloc⟩
    exact mem_of_mem_drop hw
  | commit hs hprepared hclean => exact hd.versions_commit hinv _ h.gids
  | abort hq hs hprepared hrec =>
    rw [hrec]
    exact hd.versions_drop hinv _
  | prepareTxn => rfl
  | @finishPrepared gid owner commit txn hgid =>
    have hname := hinv.gids ▸ hgid
    simp only [record, hname]
    cases commit with
    | true => exact hd.versions_commit hinv txn _
    | false => exact hd.versions_drop hinv txn
  | purgeStart | purgeStep => rfl

/-- A dead row stays dead. -/
theorem Engine.Dead.step (hinv : Inv e h) (op : Op) :
    (e.step op).1.Dead (h.record (op, (e.step op).2)) loc := by
  have hvers := hd.versions_step hinv op
  obtain ⟨t, older, heq, hset⟩ := hd
  exact ⟨t, older, hvers.trans heq, e.settled_step op t hset⟩

end NusaDb
