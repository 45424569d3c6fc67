import NusaDb.Btree.StepFrame

/-!
# Snapshot reads

What a run of calls guarantees about reads of rows, told in terms of the run's history
(`scan_returns_snapshot`), and what a write finds when it is admitted: the row's newest version, its
own or the last committed one (`Latest`, `Inv.latest`). The second holds for any notion of sight, so
it is there for runs with fresh reads too.
-/

namespace NusaDb

open List Engine OrdMap History

variable {e : Engine} {h : History} {txn : TxnId} {table : TableId} {S : Sight} {P : TxnId → Prop}

lemma ViewRep.visible_eq {o : OpenTxn} (ho : h.running.get? txn = some o) (loc : Loc) :
    h.visible txn loc =
      (lastWrite o.writes loc).getD (committedValue (h.commits.take o.snap) loc) := by
  unfold visible
  rw [ho]
  dsimp only
  cases lastWrite o.writes loc with
  | none | some => rfl

lemma Inv.scan_reads (hinv : Inv e h) (hopen : (h.running.get? txn).isSome)
    (htable : (e.tables.get? table).isSome) :
    ∃ rows, (e.step (.scan txn table)).2 = .ok (.rows rows) ∧
      (rows.Pairwise fun a b => rowIdOf a.1 < rowIdOf b.1) ∧
      ∀ tid tuple, (tid, tuple) ∈ rows ↔
        tid = tidOf (rowIdOf tid) ∧ h.visible txn (table, rowIdOf tid) = some tuple := by
  obtain ⟨o, ho⟩ := Option.isSome_iff_exists.mp hopen
  obtain ⟨t, ht⟩ := Option.isSome_iff_exists.mp htable
  obtain ⟨c, hc⟩ := hinv.core_of_running ho
  obtain ⟨s, hs, rfl⟩ := Option.map_eq_some_iff.mp hc
  refine ⟨e.visibleRows t s.pinned, ?_, visibleRows_sorted e t s.pinned, ?_⟩
  · simp only [Engine.step, Engine.scan, ht, hs]
    split <;> rfl
  · intro tid tuple
    rw [ViewRep.visible_eq ho]
    exact hinv.mem_visibleRows_iff (hinv.viewRep_pinned hc ho) ht tid tuple

/-- **Snapshot reads.** After any run, a scan by an open transaction returns, in ascending row-id
order, each row it should see: its own last write not undone, or else the last among the
transactions committed when its view was taken. -/
theorem scan_returns_snapshot (hf : e.Fresh) (ops : List Op) (txn : TxnId) (table : TableId)
    (hopen : ((History.of (e.run ops).2).running.get? txn).isSome)
    (htable : ((e.run ops).1.tables.get? table).isSome) :
    ∃ rows, ((e.run ops).1.step (.scan txn table)).2 = .ok (.rows rows) ∧
      (rows.Pairwise fun a b => rowIdOf a.1 < rowIdOf b.1) ∧
      ∀ tid tuple, (tid, tuple) ∈ rows ↔ tid = tidOf (rowIdOf tid) ∧
        (History.of (e.run ops).2).visible txn (table, rowIdOf tid) = some tuple :=
  (Inv.reachable hf ops).scan_reads hopen htable

/-- A row inserted by one transaction and updated by another, with a view taken in between. -/
def viewBetweenWriters : List Op :=
  [.begin .readCommitted, .insert 1 1 [7], .commit 1, .begin .repeatableRead,
    .begin .readCommitted, .update 3 1 (tidOf 0) [8], .commit 3]

theorem scan_returns_snapshot_two_writers :
    (((Engine.create [(1, Table.create "t")] [] 0).run viewBetweenWriters).1.step
        (.scan 2 1)).2 = .ok (.rows [(tidOf 0, [7])]) ∧
    ∃ rows, (((Engine.create [(1, Table.create "t")] [] 0).run viewBetweenWriters).1.step
          (.scan 2 1)).2 = .ok (.rows rows) ∧
      (rows.Pairwise fun a b => rowIdOf a.1 < rowIdOf b.1) ∧
      ∀ tid tuple, (tid, tuple) ∈ rows ↔ tid = tidOf (rowIdOf tid) ∧
        (History.of ((Engine.create [(1, Table.create "t")] [] 0).run viewBetweenWriters).2).visible
            2 (1, rowIdOf tid) = some tuple :=
  ⟨by decide, scan_returns_snapshot (create_fresh (by simp [Table.create]) (by simp))
    viewBetweenWriters 2 1 (by decide) (by decide)⟩

/-! ## Commits of a run -/

def History.committer (h : History) : Op → Option TxnId
  | .commit txn => some txn
  | .finishPrepared gid _ true => h.gids.get? gid
  | _ => none

/-- A call appends at most one commit, with the writes of the transaction it ends. -/
lemma History.commits_record (h : History) (op : Op) (out : Outcome) :
    (h.record (op, out)).commits = h.commits ∨
      ∃ t o v, h.committer op = some t ∧ out = .ok v ∧ h.running.get? t = some o ∧
        (h.record (op, out)).commits = h.commits ++ [⟨t, o.level, o.snap, o.writes⟩] := by
  have hcommit : ∀ (g : History) (txn : TxnId), g.commits = h.commits → g.running = h.running →
      (g.commit txn).commits = h.commits ∨ ∃ o, h.running.get? txn = some o ∧
        (g.commit txn).commits = h.commits ++ [⟨txn, o.level, o.snap, o.writes⟩] := by
    intro g txn hcommits hrunning
    unfold commit
    rw [hrunning, hcommits]
    cases ho : h.running.get? txn with
    | none => exact .inl hcommits
    | some o => exact .inr ⟨o, rfl, rfl⟩
  unfold record
  split
  case h_4 =>
    -- a batch only adds writes
    refine .inl ?_
    rename_i tids _
    generalize tids.zip _ = rows
    clear hcommit
    induction rows generalizing h with
    | nil => rfl
    | cons p rows ih => exact ih (h.write _ _)
  case h_10 =>
    rename_i txn v hp
    cases hp
    rcases hcommit h txn rfl rfl with hsame | ⟨o, ho, hnew⟩
    · exact .inl hsame
    · exact .inr ⟨txn, o, v, rfl, rfl, ho, hnew⟩
  case h_14 =>
    split
    · exact .inl rfl
    · exact .inl rfl
  case h_15 =>
    rename_i gid owner finish v hp
    cases hp
    rcases hgid : h.gids.get? gid with _ | txn
    · exact .inl rfl
    cases finish with
    | false => exact .inl rfl
    | true =>
      rcases hcommit { h with gids := h.gids.erase gid } txn rfl rfl with hsame | ⟨o, ho, hnew⟩
      · exact .inl hsame
      · exact .inr ⟨txn, o, v, hgid, rfl, ho, hnew⟩
  all_goals exact .inl rfl

/-! ## What an admitted write replaces -/

lemma History.exists_write_ne (txn t : TxnId) (w : Write) :
    ∃ h : History, h.write txn w ≠ h ∧ h.write txn w ≠ h.drop t := by
  let o : OpenTxn := ⟨.readCommitted, 0, [], []⟩
  let h : History := ⟨[], empty.insert txn o, empty⟩
  have hget : h.running.get? txn = some o := get?_insert_self ..
  have hwrite : (h.write txn w).running.get? txn = some { o with writes := [w] } := by
    show (h.running.modify txn _).get? txn = _
    rw [get?_modify, if_pos rfl, hget]
    rfl
  refine ⟨h, ?_, ?_⟩
  · intro heq
    rw [heq, hget] at hwrite
    exact cons_ne_nil w [] (congrArg OpenTxn.writes (Option.some.inj hwrite)).symm
  · intro heq
    rw [heq] at hwrite
    change (h.running.erase t).get? txn = _ at hwrite
    rw [get?_erase, hget] at hwrite
    split at hwrite
    · cases hwrite
    · exact cons_ne_nil w [] (congrArg OpenTxn.writes (Option.some.inj hwrite)).symm

lemma Effect.update_ok {e' : Engine} {tid : Tid} {tuple : Tuple} {v : Value}
    (heff : Effect e (.update txn table tid tuple) (.ok v) e') :
    ∃ e₁ old s, e.Quiet e₁ ∧ e₁.txns.txns.get? txn = some s ∧
      e₁.leaf table (rowIdOf tid) = some old ∧ e₁.txns.admitWrite txn old.header tid = .ok () ∧
      e' = e₁.putUpdate txn table (rowIdOf tid) old tuple := by
  cases heff with
  | quiet hq hrec =>
    obtain ⟨h, hne, _⟩ := exists_write_ne txn 0 ⟨(table, rowIdOf tid), some tuple⟩
    exact absurd (hrec h) hne
  | update hq hs hold hadm => exact ⟨_, _, _, hq, hs, hold, hadm, rfl⟩
  | @abort _ _ t _ _ hq hs hprepared hrec =>
    obtain ⟨h, _, hne⟩ := exists_write_ne txn t ⟨(table, rowIdOf tid), some tuple⟩
    exact absurd (hrec h) hne

lemma Effect.delete_ok {e' : Engine} {tid : Tid} {v : Value}
    (heff : Effect e (.delete txn table tid) (.ok v) e') :
    ∃ e₁ old s, e.Quiet e₁ ∧ e₁.txns.txns.get? txn = some s ∧
      e₁.leaf table (rowIdOf tid) = some old ∧ e₁.txns.admitWrite txn old.header tid = .ok () ∧
      e' = e₁.putDelete txn table (rowIdOf tid) old := by
  cases heff with
  | quiet hq hrec =>
    obtain ⟨h, hne, _⟩ := exists_write_ne txn 0 ⟨(table, rowIdOf tid), none⟩
    exact absurd (hrec h) hne
  | delete hq hs hold hadm => exact ⟨_, _, _, hq, hs, hold, hadm, rfl⟩
  | @abort _ _ t _ _ hq hs hprepared hrec =>
    obtain ⟨h, _, hne⟩ := exists_write_ne txn t ⟨(table, rowIdOf tid), none⟩
    exact absurd (hrec h) hne

/-- `old` is the row's newest version, not deleted: the writer's own last write or else the last
committed one, and no other open transaction has written it. -/
structure Latest (e : Engine) (h : History) (txn : TxnId) (loc : Loc) (old : Version) : Prop where
  leaf : e.leafAt loc = some old
  live : old.header.xmax = noXmax
  sole : h.Sole txn loc
  value : ∃ o, h.running.get? txn = some o ∧
    (History.lastWrite o.writes loc).getD (History.committedValue h.commits loc) = some old.tuple

lemma Inv.version_txn (hinv : Inv e h S P) {loc : Loc} {w : Ver} (hw : w ∈ h.versions loc) :
    w.txn ∈ e.txns.active ∨ (w.txn < e.txns.nextTxnId ∧ w.txn ∉ e.txns.active) := by
  rcases mem_append.mp hw with hpending | hcommitted
  · refine .inl ?_
    obtain ⟨o, ho, -⟩ := mem_pending hpending
    rw [hinv.active, hinv.running, ho]
    rfl
  · refine .inr ?_
    obtain ⟨k, hk, htxn, -⟩ := mem_committed hcommitted
    rw [← htxn]
    exact (hinv.commits k hk).2

/-- A view taken now sees a row's newest version, unless that is some other open transaction's. -/
lemma Inv.freshView_sees (hinv : Inv e h S P) {loc : Loc} {old : Version}
    (hold : e.leafAt loc = some old) (hlive : old.header.xmax = noXmax)
    (hother : e.txns.otherActive txn old.header.xmin = false) :
    (e.txns.freshView txn).sees old.header.xmin = true := by
  obtain ⟨slots, hstore⟩ := hinv.store
  obtain ⟨older, hvers⟩ := hstore.newest hold hlive
  have hmem : ⟨old.header.xmin, some old.tuple⟩ ∈ h.versions loc := hvers ▸ mem_cons_self
  refine (freshView_sees_iff ..).mpr ?_
  rcases hinv.version_txn hmem with hactive | ⟨hlt, hnot⟩
  · refine .inl ?_
    by_contra hne
    simp [TxnDomain.otherActive, hne, hactive] at hother
  · exact .inr ⟨hlt, hnot⟩

lemma Inv.latest (hinv : Inv e h S P) {e₁ : Engine} (hq : e.Quiet e₁) {s : TxnState}
    (hs : e₁.txns.txns.get? txn = some s) {loc : Loc} {old : Version} {tid : Tid}
    (hold : e₁.leafAt loc = some old) (hadm : e₁.txns.admitWrite txn old.header tid = .ok ()) :
    Latest e h txn loc old := by
  have hinv1 := hinv.congr hq.same
  obtain ⟨o, hc, ho⟩ := hinv1.opened hs
  have hok := hinv1.admitted hold hadm
  refine ⟨hq.leafAt ▸ hold, hok.live, hok.sole, o, ho, ?_⟩
  obtain ⟨slots, hstore⟩ := hinv1.store
  obtain ⟨older, hvers⟩ := hstore.newest hold hok.live
  -- a view taken now sees the newest version, so it reads the row's latest value
  have hsees := hinv1.freshView_sees hold hok.live (TxnDomain.admitWrite_ok hadm).1
  have hread := (hinv1.viewRep_fresh ho).readVers_versions hinv1 loc
  rw [hvers, take_length] at hread
  rw [← hread]
  exact if_pos hsees

end NusaDb
