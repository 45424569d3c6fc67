import NusaDb.Btree.Ends

/-!
# Purge keeps the invariant

A pass judges by a snapshot taken when it started. What that takes for settled is settled at every
later moment (`Inv.passes`), so each row, orphaned slot and index sweep can be reclaimed under the
same history.
-/

namespace NusaDb

open List Function Engine OrdMap

open History (Ver)

variable {e e' : Engine} {h : History} {table : TableId} {row : RowId} {v : Version}
  {settled : TxnId → Prop} {judge : TxnId → Bool} {vers : Loc → List Ver}
  {pend : TxnId → Loc → List UndoOp} {slots : Loc → List Nat} {S : Sight}
  {P : TxnId → Prop}

namespace Engine

lemma purgeRow_frame (judge : TxnId → Bool) (table : TableId) (e : Engine) (row : RowId)
    (header : RowMeta) :
    (e.purgeRow judge table row header).txns = e.txns ∧
      (e.purgeRow judge table row header).passes = e.passes ∧
      (e.purgeRow judge table row header).nextRow = e.nextRow := by
  unfold purgeRow
  split
  · exact ⟨rfl, rfl, nextRow_modifyTable fun _ => rfl⟩
  split
  · exact ⟨rfl, rfl, nextRow_modifyTable fun _ => rfl⟩
  · exact ⟨rfl, rfl, rfl⟩

/-- **One row of a batch**: reclaiming what it offers keeps the store, and touches no other row. -/
theorem purgeRow_store (hs : StoreInv e.leafAt e.reclaim settled vers pend slots)
    (hjudge : ∀ x, judge x = true → settled x) (hv : e.leafAt (table, row) = some v) :
    (∃ slots', StoreInv (e.purgeRow judge table row v.header).leafAt
        (e.purgeRow judge table row v.header).reclaim settled vers pend slots' ∧
        ∀ loc, loc ≠ (table, row) → slots' loc = slots loc) ∧
      ∀ loc, loc ≠ (table, row) →
        (e.purgeRow judge table row v.header).leafAt loc = e.leafAt loc := by
  unfold purgeRow
  split
  · -- the delete is settled: the row goes with its history
    rename_i hgone
    rw [leafAt_erase (f := fun t => { t with rows := t.rows.erase row }) fun _ => rfl]
    exact ⟨⟨_, hs.removeRow hv hgone.1 (hjudge _ hgone.2),
      fun loc hne => update_of_ne hne ..⟩, fun loc hne => update_of_ne hne ..⟩
  split
  · -- the newest version is settled: the history below it goes
    rename_i hcut
    rw [leafAt_modify (f := fun t => { t with rows := t.rows.modify row fun w =>
        { w with header := { v.header with undo := none } } }) fun _ => rfl]
    have hleaf : leafAt { e with reclaim := e.reclaim.freeChain v.header.undo } =
        e.leafAt := rfl
    rw [hleaf, hv]
    exact ⟨⟨_, hs.cutRow hv hcut.1 (hjudge _ hcut.2),
      fun loc hne => update_of_ne hne ..⟩, fun loc hne => update_of_ne hne ..⟩
  · exact ⟨⟨slots, hs, fun _ _ => rfl⟩, fun _ _ => rfl⟩

lemma purgeRows_frame (judge : TxnId → Bool) (table : TableId) (e : Engine)
    (batch : List (RowId × Version)) :
    (e.purgeRows judge table batch).txns = e.txns ∧
      (e.purgeRows judge table batch).passes = e.passes ∧
      (e.purgeRows judge table batch).nextRow = e.nextRow := by
  induction batch generalizing e with
  | nil => exact ⟨rfl, rfl, rfl⟩
  | cons p rest ih =>
    obtain ⟨htxns, hpasses, hnext⟩ := purgeRow_frame judge table e p.1 p.2.header
    obtain ⟨htxns', hpasses', hnext'⟩ := ih (e.purgeRow judge table p.1 p.2.header)
    exact ⟨htxns'.trans htxns, hpasses'.trans hpasses, hnext'.trans hnext⟩

lemma purgeRows_store (hjudge : ∀ x, judge x = true → settled x)
    (batch : List (RowId × Version)) (hnodup : (batch.map Prod.fst).Nodup)
    (hread : ∀ p ∈ batch, e.leafAt (table, p.1) = some p.2)
    (hs : StoreInv e.leafAt e.reclaim settled vers pend slots) :
    ∃ slots', StoreInv (e.purgeRows judge table batch).leafAt
      (e.purgeRows judge table batch).reclaim settled vers pend slots' := by
  induction batch generalizing e slots with
  | nil => exact ⟨slots, hs⟩
  | cons p rest ih =>
    rw [map_cons, nodup_cons] at hnodup
    obtain ⟨⟨slots', hs', -⟩, hother⟩ :=
      purgeRow_store hs hjudge (hread p mem_cons_self)
    refine ih hnodup.2 ?_ hs'
    intro q hq
    have hne : q.1 ≠ p.1 := by
      intro heq
      exact hnodup.1 (heq ▸ mem_map_of_mem hq)
    rw [hother _ (fun heq => hne (Prod.mk.inj heq).2)]
    exact hread q (mem_cons_of_mem _ hq)

lemma purgeBatch_nodup (t : Table) (cursor : RowId) :
    ((purgeBatch t cursor).map Prod.fst).Nodup := by
  have hsub : ((purgeBatch t cursor).map Prod.fst).Sublist (t.rows.toList.map Prod.fst) :=
    ((take_sublist _ _).trans filter_sublist).map _
  exact (t.rows.keys_sorted.imp fun hlt => ne_of_lt hlt).sublist hsub

lemma purgeBatch_read {t : Table} (ht : e.tables.get? table = some t) (cursor : RowId) :
    ∀ p ∈ purgeBatch t cursor, e.leafAt (table, p.1) = some p.2 := by
  intro p hp
  have hmem : p ∈ t.rows.toList := mem_of_mem_filter (mem_of_mem_take hp)
  rw [leafAt_eq_of_table ht]
  exact mem_toList.mp hmem

end Engine

/-- What a purge step may do to a state: only rows and arena change, and they go on holding the
same versions. -/
structure Engine.Reclaims (settled : TxnId → Prop) (vers : Loc → List Ver)
    (pend : TxnId → Loc → List UndoOp) (e e' : Engine) : Prop where
  txns : e'.txns = e.txns
  passes : e'.passes = e.passes
  nextRow : e'.nextRow = e.nextRow
  store : (∃ slots, StoreInv e.leafAt e.reclaim settled vers pend slots) →
    ∃ slots, StoreInv e'.leafAt e'.reclaim settled vers pend slots

lemma Engine.Reclaims.refl (e : Engine) : e.Reclaims settled vers pend e :=
  ⟨rfl, rfl, rfl, id⟩

lemma Engine.Reclaims.of_same (htxns : e'.txns = e.txns) (hpasses : e'.passes = e.passes)
    (hnext : e'.nextRow = e.nextRow) (hleaf : e'.leafAt = e.leafAt)
    (hreclaim : e'.reclaim = e.reclaim) : e.Reclaims settled vers pend e' :=
  ⟨htxns, hpasses, hnext, by rw [hleaf, hreclaim]; exact id⟩

lemma Engine.Reclaims.trans {e'' : Engine} (h1 : e.Reclaims settled vers pend e')
    (h2 : e'.Reclaims settled vers pend e'') : e.Reclaims settled vers pend e'' :=
  ⟨h2.txns.trans h1.txns, h2.passes.trans h1.passes, h2.nextRow.trans h1.nextRow,
    fun hs => h2.store (h1.store hs)⟩

/-- Phase by phase: each frees what its snapshot judged settled. -/
lemma Engine.purgeAdvance_reclaims (s : PurgeSnapshot)
    (hjudge : ∀ x, s.settled x = true → settled x) (pressure : Bool) (phase : PurgePhase) :
    e.Reclaims settled vers pend (e.purgeAdvance s pressure phase).1 := by
  unfold purgeAdvance
  split
  · exact Reclaims.refl e
  · split
    · exact Reclaims.refl e
    split
    · exact Reclaims.refl e
    · split <;> exact Reclaims.refl e
  · rename_i table todo sweptGen leftForLater cursor removed
    split
    · exact Reclaims.refl e
    split
    · exact Reclaims.refl e
    rename_i t ht
    have hswept : e.Reclaims settled vers pend
        (e.purgeRows s.settled table (purgeBatch t cursor)) := by
      obtain ⟨htxns, hpasses, hnext⟩ :=
        purgeRows_frame s.settled table e (purgeBatch t cursor)
      refine ⟨htxns, hpasses, hnext, ?_⟩
      intro hs
      obtain ⟨slots, hs⟩ := hs
      exact purgeRows_store hjudge _ (purgeBatch_nodup t cursor) (purgeBatch_read ht cursor) hs
    dsimp only
    split
    · -- the last batch may also record that the sweep left nothing
      split
      · exact hswept
      refine hswept.trans (Reclaims.of_same rfl rfl ?_ ?_ rfl)
      · exact nextRow_modifyTable fun _ => rfl
      · exact leafAt_keep fun _ => rfl
    · split <;> exact hswept
  · exact Reclaims.of_same rfl rfl rfl rfl rfl
  · split <;> exact Reclaims.refl e
  · refine ⟨rfl, rfl, rfl, ?_⟩
    intro hs
    obtain ⟨slots, hs⟩ := hs
    exact ⟨slots, hs.purgeOrphans s.settled⟩

lemma Engine.purgeAdvance_txns (e : Engine) (s : PurgeSnapshot) (pressure : Bool)
    (phase : PurgePhase) : (e.purgeAdvance s pressure phase).1.txns = e.txns :=
  (show e.Reclaims (fun _ => True) (fun _ => []) (fun _ _ => []) _ from
    purgeAdvance_reclaims s (fun _ _ => trivial) pressure phase).txns

lemma Engine.purgeStep_txns (e : Engine) (pass : Nat) (pressure : Bool) :
    (e.purgeStep pass pressure).txns = e.txns := by
  unfold purgeStep
  split
  · rfl
  rename_i p hp
  have htxns := e.purgeAdvance_txns p.snapshot pressure p.phase
  generalize e.purgeAdvance p.snapshot pressure p.phase = next at htxns
  obtain ⟨e1, phase⟩ := next
  cases phase with
  | none | some => exact htxns

/-- A pass starts from a snapshot that vouches for nothing an open view may miss. -/
lemma Engine.purgeSnapshot_settled (e : Engine) {x : TxnId}
    (hx : e.purgeSnapshot.settled x = true) : e.Settled x := by
  simp only [PurgeSnapshot.settled, purgeSnapshot, Bool.and_eq_true,
    Bool.not_eq_true', all_map, all_eq_true] at hx
  obtain ⟨⟨hlt, hactive⟩, hviews⟩ := hx
  refine ⟨of_decide_eq_true hlt, ?_, ?_⟩
  · intro hmem
    rw [contains_iff_mem.mpr hmem] at hactive
    cases hactive
  · intro txn view hview
    obtain ⟨s, hs, rfl⟩ := Option.map_eq_some_iff.mp hview
    exact hviews s (mem_values.mpr ⟨txn, hs⟩)

lemma Inv.startPass (hinv : Inv e h S P) {p : PurgePass}
    (hp : ∀ x, p.snapshot.settled x = true → P x) (id next : Nat) :
    Inv { e with passes := e.passes.insert id p, nextPass := next } h S P := by
  refine hinv.ofStore rfl rfl rfl rfl (fun _ n hn => ⟨n, hn, le_refl n⟩) ?_ hinv.store
  intro id' q x hq hx
  rw [get?_insert] at hq
  split at hq
  · cases hq
    exact hp x hx
  · exact hinv.passes id' q x hq hx

lemma Inv.purgeStart (hinv : Inv e h) : Inv e.purgeStart.1 h :=
  hinv.startPass (p := ⟨e.purgeSnapshot, .tables e.tables.keys⟩)
    (fun _ hx => e.purgeSnapshot_settled hx) _ _

/-- A step of a purge pass changes no row's history: what it frees no view reads. -/
lemma Inv.purgeStep (hinv : Inv e h S P) (pass : Nat) (pressure : Bool) :
    Inv (e.purgeStep pass pressure) h S P := by
  unfold Engine.purgeStep
  cases hp : e.passes.get? pass with
  | none => exact hinv
  | some p =>
  have hrec : e.Reclaims P h.versions e.pendAt
      (e.purgeAdvance p.snapshot pressure p.phase).1 :=
    purgeAdvance_reclaims p.snapshot (fun x hx => hinv.passes pass p x hp hx) pressure p.phase
  dsimp only
  generalize e.purgeAdvance p.snapshot pressure p.phase = next at hrec ⊢
  obtain ⟨e1, phase⟩ := next
  -- whatever the pass does next, its snapshot is the one it started with
  have hmove : ∀ passes, (∀ id q, passes.get? id = some q →
        ∃ id' q', e.passes.get? id' = some q' ∧ q.snapshot = q'.snapshot) →
      Inv { e1 with passes := passes } h S P := by
    intro passes hpasses
    have hcore : e1.core = e.core := by
      unfold core
      rw [hrec.txns]
    refine hinv.ofStore hcore (congrArg TxnDomain.active hrec.txns)
      (congrArg TxnDomain.nextTxnId hrec.txns) (congrArg TxnDomain.preparedGids hrec.txns)
      ?_ ?_ (hrec.store hinv.store)
    · intro table n hn
      refine ⟨n, ?_, le_refl n⟩
      rw [← hrec.nextRow]
      exact hn
    · intro id q x hq hx
      obtain ⟨id', q', hq', hsnap⟩ := hpasses id q hq
      exact hinv.passes id' q' x hq' (hsnap ▸ hx)
  cases phase with
  | none =>
    refine hmove _ ?_
    intro id q hq
    rw [hrec.passes, get?_erase] at hq
    split at hq
    · cases hq
    · exact ⟨id, q, hq, rfl⟩
  | some phase =>
    refine hmove _ ?_
    intro id q hq
    rw [hrec.passes, get?_insert] at hq
    split at hq
    · cases hq
      exact ⟨pass, p, hp, rfl⟩
    · exact ⟨id, q, hq, rfl⟩

end NusaDb
