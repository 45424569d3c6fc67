import NusaDb.Btree.Moves

/-!
# Moves that change who is open

Beginning a transaction, taking a fresh view and ending a transaction. Ending by abort first takes
the writes back, one undo entry at a time (`Engine.undoOps_store`).
-/

namespace NusaDb

open List Function Engine OrdMap

open History (Ver)
open Option

variable {e e' : Engine} {h h' : History} {txn : TxnId} {c c' : TxnCore} {o : OpenTxn} {loc : Loc}
  {S : Sight} {P : TxnId → Prop}

variable (hinv : Inv e h S P) (hc : e.core txn = some c) (ho : h.running.get? txn = some o)

include hc ho in
omit hinv in
lemma Inv.refresh (hinv : Inv e h ReadView.sees P) (f : OpenTxn → OpenTxn)
    (hf : f o = { o with snap := h.commits.length })
    (hm : e.CoreMove txn { c with pinned := e.txns.freshView txn } e') (hrows : e.RowsStay e')
    (hgids : e'.txns.preparedGids = e.txns.preparedGids) :
    Inv e' (h.modify txn f) ReadView.sees P := by
  have hr := hinv.txn txn c o hc ho
  have hfresh := hinv.viewRep_fresh ho
  have hvers : (h.modify txn f).versions = h.versions := by
    funext loc
    refine History.versions_modify_of_eq fun o' ho' => ?_
    rw [ho] at ho'
    obtain rfl := some.inj ho'
    rw [hf]
  refine hinv.modifyTxn hc ho hm rfl rfl ?_ ?_ hfresh.others ?_ ?_
    (hinv.gids.trans hgids.symm) (hinv.prepared_keep hc hgids hm rfl)
  · rw [hf]
    exact ⟨hr.level, hr.undo, rfl, le_rfl, hfresh.sees, hfresh.base⟩
  · exact fun x hx => freshView_later (hinv.activeRange txn (hinv.mem_active_of_core hc)).2 hx
  · exact Stored.congr hinv.store hrows.leaf hrows.reclaim
      (pendAt_keep hc hm.core fun _ => rfl) hvers
  · rw [hrows.nextRow, hvers]
    exact hinv.fresh

lemma Engine.pendAt_begin (hnone : e.core txn = none)
    (hcore : e'.core = Function.update e.core txn (some c)) (hundo : c.undo = []) :
    e'.pendAt = e.pendAt := by
  funext t loc
  rw [pendAt_update hcore]
  by_cases ht : t = txn
  · subst ht
    rw [if_pos rfl, hundo]
    simp [pendAt, hnone, opsAt]
  · rw [if_neg ht]

lemma Inv.next_none (hinv : Inv e h S P) :
    e.core e.txns.nextTxnId = none ∧ h.running.get? e.txns.nextTxnId = none := by
  have hcore : e.core e.txns.nextTxnId = none := by
    rw [← not_isSome_iff_eq_none, ← hinv.active]
    intro hmem
    exact lt_irrefl _ (hinv.activeRange _ hmem).2
  refine ⟨hcore, ?_⟩
  rw [← not_isSome_iff_eq_none, ← hinv.running, hcore]
  exact Bool.false_ne_true

/-- A new transaction has the next number, so nothing in the store is its own. -/
lemma Inv.begin (hinv : Inv e h S P) {new : OpenTxn} (level : IsolationLevel)
    (htxn : txn = e.txns.nextTxnId) (hnew : new = ⟨level, h.commits.length, [], []⟩)
    (hcore : e'.core = update e.core txn
      (some ⟨[], [], level, e'.txns.freshView txn, none⟩))
    (hactive : e'.txns.active = txn :: e.txns.active) (hnext : e'.txns.nextTxnId = txn + 1)
    (hgids : e'.txns.preparedGids = e.txns.preparedGids) (hpasses : e'.passes = e.passes)
    (hrows : e.RowsStay e') (hview : ∀ x, S (e'.txns.freshView txn) x = true ↔
      x = txn ∨ (x < e'.txns.nextTxnId ∧ x ∉ e'.txns.active)) :
    Inv e' { h with running := h.running.insert txn new } S P := by
  obtain ⟨hcoreNone, hrunNone⟩ : e.core txn = none ∧ h.running.get? txn = none :=
    htxn ▸ hinv.next_none
  have hvers : ({ h with running := h.running.insert txn new } : History).versions = h.versions := by
    funext loc
    exact History.versions_begin hrunNone (by rw [hnew]) loc
  have hm : e.MoveAt txn (some ⟨[], [], level, e'.txns.freshView txn, none⟩) e' := by
    refine ⟨hcore, fun t ht => ?_, ?_, .inr htxn, hnext ▸ Nat.lt_succ_self _, ?_, hpasses⟩
    · rw [hactive, mem_cons]
      exact or_iff_right ht
    · rw [hactive]
      exact ⟨fun _ => rfl, fun _ => mem_cons_self⟩
    · rw [hnext, ← htxn]
      exact Nat.le_succ _
  refine hinv.moveAt hm (fun t => get?_insert ..) rfl (fun _ _ _ _ _ _ hr => hr.congr rfl) ?_
    (fun _ hk => .inl hk) hinv.commitsNodup
    (Stored.congr hinv.store hrows.leaf hrows.reclaim (pendAt_begin hcoreNone hcore rfl) hvers) ?_
    (hgids ▸ hinv.gids) ?_
  · rintro k p ⟨⟩ ⟨⟩
    refine ⟨?_, fun x hx => ?_, fun t ht hne => ?_⟩
    · rw [hnew]
      refine ⟨rfl, ⟨⟨rfl, .nil⟩, ⟨nofun, .nil⟩, ⟨nofun, .nil⟩⟩, rfl, le_rfl, ?_, ?_⟩
      · intro i k hk
        have hended := hm.ended (hinv.commits k (mem_of_getElem? hk)).2
        exact ⟨fun _ => (List.getElem?_eq_some_iff.mp hk).1,
          fun _ => (hview k.txn).mpr (.inr hended)⟩
      · rintro loc ⟨w, hw, _⟩
        cases hw
    · rw [Bool.eq_false_iff, Ne, hview]
      rintro (rfl | ⟨hlt, -⟩)
      · exact absurd hm.lt (not_lt.mpr hx)
      · exact absurd hlt (not_lt.mpr hx)
    · rw [Bool.eq_false_iff, Ne, hview]
      rintro (heq | ⟨-, hnot⟩)
      · exact hne heq
      · exact hnot ((hm.others t hne).mpr ht)
  · rw [hrows.nextRow, hvers]
    exact hinv.fresh
  · intro gid t ht
    rw [hgids] at ht
    obtain ⟨k, info, hk, hinfo, hgid⟩ := hinv.prepared gid t ht
    refine ⟨k, info, ?_, hinfo, hgid⟩
    rw [hcore, update_of_ne fun heq => by rw [heq, hcoreNone] at hk; cases hk]
    exact hk

variable (e txn) (op : UndoOp)

namespace Engine

lemma undoOp_leafAt : (e.undoOp txn op).leafAt =
      match op.rowOf with
      | none => e.leafAt
      | some loc => Function.update e.leafAt loc (undoneLeaf op (e.leafAt loc)) := by
  cases op with
  | inserted table row => exact leafAt_erase fun _ => rfl
  | updated table row old slot => exact leafAt_modify (e := e) fun _ => rfl
  | deleted table row old => exact leafAt_modify fun _ => rfl
  | indexInserted | indexDeleted => rfl

lemma undoOp_reclaim : (e.undoOp txn op).reclaim = undoneReclaim op txn e.reclaim := by
  cases op <;> rfl

lemma undoOp_txns : (e.undoOp txn op).txns = e.txns := by
  cases op <;> rfl

lemma undoOp_passes : (e.undoOp txn op).passes = e.passes := by
  cases op <;> rfl

lemma undoOp_nextRow : (e.undoOp txn op).nextRow = e.nextRow := by
  cases op with
  | inserted | deleted => exact nextRow_modifyTable fun _ => rfl
  | updated => exact nextRow_modifyTable (e := e) fun _ => rfl
  | indexInserted | indexDeleted => rfl

lemma undoOps_frame (ops : List UndoOp) :
    (e.undoOps txn ops).txns = e.txns ∧ (e.undoOps txn ops).passes = e.passes ∧
      (e.undoOps txn ops).nextRow = e.nextRow := by
  unfold undoOps
  induction ops generalizing e with
  | nil => exact ⟨rfl, rfl, rfl⟩
  | cons op ops ih =>
    obtain ⟨h1, h2, h3⟩ := ih (e.undoOp txn op)
    rw [foldl_cons, h1, h2, h3]
    exact ⟨e.undoOp_txns txn op, e.undoOp_passes txn op, e.undoOp_nextRow txn op⟩

end Engine

variable {e txn}

lemma Engine.undoOps_rows (txn : TxnId) (ops : List UndoOp) (hleaf : e'.leafAt = e.leafAt)
    (hreclaim : e'.reclaim = e.reclaim) :
    (e'.undoOps txn ops).leafAt = (e.undoOps txn ops).leafAt ∧
      (e'.undoOps txn ops).reclaim = (e.undoOps txn ops).reclaim := by
  induction ops generalizing e e' with
  | nil => exact ⟨hleaf, hreclaim⟩
  | cons op ops ih =>
    refine ih ?_ ?_
    · rw [e.undoOp_leafAt, e'.undoOp_leafAt, hleaf]
    · rw [e.undoOp_reclaim, e'.undoOp_reclaim, hreclaim]

variable {settled : TxnId → Prop}

/-- **Undoing a transaction's newest entries takes its newest writes off their rows.** -/
theorem Engine.undoOps_store (txn : TxnId) (ops rest : List UndoOp) {vers : Loc → List Ver}
    {pend : TxnId → Loc → List UndoOp} {slots : Loc → List Nat}
    (hs : StoreInv e.leafAt e.reclaim settled vers pend slots)
    (hpend : ∀ loc, pend txn loc = opsAt loc (ops ++ rest)) :
    ∃ slots', StoreInv (e.undoOps txn ops).leafAt (e.undoOps txn ops).reclaim settled
      (fun loc => (vers loc).drop (opsAt loc ops).length)
      (fun t loc => if t = txn then opsAt loc rest else pend t loc) slots' := by
  induction ops generalizing e vers pend slots with
  | nil =>
    have hsame : (fun t loc => if t = txn then opsAt loc rest else pend t loc) = pend := by
      funext t loc
      by_cases ht : t = txn
      · subst ht
        rw [if_pos rfl, hpend]
        rfl
      · rw [if_neg ht]
    refine ⟨slots, ?_⟩
    rw [hsame]
    exact hs
  | cons op ops ih =>
    let pend1 : TxnId → Loc → List UndoOp :=
      fun t loc => if t = txn then opsAt loc (ops ++ rest) else pend t loc
    let vers1 : Loc → List Ver :=
      fun loc => (vers loc).drop (opsAt loc [op]).length
    -- one entry: a row entry takes one write off its row, an index entry none
    have hstep : ∃ slots1, StoreInv (e.undoOp txn op).leafAt (e.undoOp txn op).reclaim settled
        vers1 pend1 slots1 := by
      rw [e.undoOp_leafAt, e.undoOp_reclaim]
      cases hrow : op.rowOf with
      | none =>
        have hvers1 : vers1 = vers := by
          funext loc
          simp [vers1, opsAt, hrow]
        have hpend1 : pend1 = pend := by
          funext t loc
          by_cases ht : t = txn
          · subst ht
            simp only [pend1, if_true, hpend, cons_append]
            rw [opsAt_cons_other (by rw [hrow]; exact some_ne_none _ |>.symm)]
          · simp [pend1, ht]
        have hreclaim : undoneReclaim op txn e.reclaim = e.reclaim := by
          cases op with
          | updated => cases hrow
          | _ => rfl
        rw [hvers1, hpend1, hreclaim]
        exact ⟨slots, hs⟩
      | some loc =>
        have hop : pend txn loc = op :: opsAt loc (ops ++ rest) := by
          rw [hpend, cons_append, opsAt_cons_self hrow]
        have hpend1 : ∀ t l, pend1 t l =
            if t = txn ∧ l = loc then opsAt loc (ops ++ rest) else pend t l := by
          intro t l
          by_cases ht : t = txn
          · subst ht
            by_cases hl : l = loc
            · simp [pend1, hl]
            rw [if_neg (fun hh => hl hh.2), hpend, cons_append,
              opsAt_cons_other (by rw [hrow]; exact fun hh => hl (some.inj hh).symm)]
            simp [pend1]
          · simp [pend1, ht]
        have hvers1 : vers1 = Function.update vers loc (vers loc).tail := by
          funext l
          by_cases hl : l = loc
          · subst hl
            simp [vers1, opsAt, hrow]
          rw [update_of_ne hl]
          have hnil : opsAt l [op] = [] := by
            simp only [opsAt, hrow, filter_cons, filter_nil]
            simpa using Ne.symm hl
          simp [vers1, hnil]
        rw [hvers1]
        exact hs.undoRow hop hpend1
    obtain ⟨slots1, hs1⟩ := hstep
    obtain ⟨slots2, hs2⟩ := ih hs1 (fun loc => by simp [pend1])
    refine ⟨slots2, ?_⟩
    have hvers : (fun loc => (vers1 loc).drop (opsAt loc ops).length) =
        fun loc => (vers loc).drop (opsAt loc (op :: ops)).length := by
      funext loc
      simp only [vers1, drop_drop]
      congr 1
      rw [show op :: ops = [op] ++ ops from rfl]
      unfold opsAt
      rw [filter_append, length_append]
    have hpends : (fun t loc => if t = txn then opsAt loc rest else pend1 t loc) =
        fun t loc => if t = txn then opsAt loc rest else pend t loc := by
      funext t loc
      by_cases ht : t = txn
      · simp [ht]
      · simp [pend1, ht]
    rw [hvers, hpends] at hs2
    exact hs2

variable {name : String} {mark : Nat} {older : List (String × Nat)}
  (hdrop : c.savepoints.dropWhile (·.1 ≠ name) = (name, mark) :: older)
  (hleaf : e'.leafAt = (e.undoOps txn (c.undo.take (c.undo.length - mark))).leafAt)
  (hreclaim : e'.reclaim = (e.undoOps txn (c.undo.take (c.undo.length - mark))).reclaim)

include hinv hc ho hdrop

lemma Inv.backTo_versions (loc : Loc) : (h.backTo txn name).versions loc =
      (h.versions loc).drop (opsAt loc (c.undo.take (c.undo.length - mark))).length := by
  obtain ⟨m, older', hmarks, htaken, -⟩ := (hinv.txn txn c o hc ho).undo.backTo hdrop
  have hwrites : (o.backTo name).writes = o.writes.drop (o.writes.length - m) := by
    unfold OpenTxn.backTo
    rw [hmarks]
  exact (History.versions_truncate ho hwrites fun hw => hinv.sole ho hw).trans
    (by rw [length_opsAt_eq htaken])

include hleaf hreclaim

lemma Inv.stored_backTo (hcore : e'.core = update e.core txn (some { c with
      savepoints := (name, mark) :: older
      undo := c.undo.drop (c.undo.length - mark) })) :
    e'.Stored P (h.backTo txn name) := by
  obtain ⟨slots, hs⟩ := hinv.store
  obtain ⟨slots', hs'⟩ := undoOps_store txn
    (c.undo.take (c.undo.length - mark)) (c.undo.drop (c.undo.length - mark)) hs
    (fun loc => by rw [pendAt_of_core hc, take_append_drop])
  have hpend : e'.pendAt = fun t loc =>
      if t = txn then opsAt loc (c.undo.drop (c.undo.length - mark)) else e.pendAt t loc := by
    funext t loc
    rw [pendAt_update hcore]
  refine ⟨slots', ?_⟩
  rw [hleaf, hreclaim, hpend, funext (hinv.backTo_versions hc ho hdrop)]
  exact hs'

lemma Inv.backTo (hm : e.CoreMove txn { c with
      savepoints := (name, mark) :: older
      undo := c.undo.drop (c.undo.length - mark) } e')
    (hgids : e'.txns.preparedGids = e.txns.preparedGids) (hrow : e'.nextRow = e.nextRow) :
    Inv e' (h.backTo txn name) S P := by
  have hr := hinv.txn txn c o hc ho
  obtain ⟨m, older', hmarks, -, hundo⟩ := hr.undo.backTo hdrop
  have hf : o.backTo name = { o with
      marks := (name, m) :: older'
      writes := o.writes.drop (o.writes.length - m) } := by
    unfold OpenTxn.backTo
    rw [hmarks]
  refine hinv.modifyCore hc ho hgids (OpenTxn.backTo name) hm rfl rfl ?_
    (hinv.stored_backTo hc ho hdrop hleaf hreclaim hm.core) ?_
  · rw [hf]
    refine ⟨hr.level, hundo, hr.own, hr.snapLe, hr.sees, ?_⟩
    rintro loc ⟨w, hw, hwl⟩
    exact hr.base loc ⟨w, mem_of_mem_drop hw, hwl⟩
  intro table n row hn hle
  rw [hrow] at hn
  show (h.backTo txn name).versions (table, row) = []
  rw [hinv.backTo_versions hc ho hdrop, hinv.fresh table n row hn hle, drop_nil]

omit hinv hc ho hdrop hleaf hreclaim

lemma Engine.pendAt_erase (hcore : e'.core = Function.update e.core txn none) :
    e'.pendAt = fun t loc => if t = txn then [] else e.pendAt t loc := by
  funext t loc
  by_cases ht : t = txn
  · subst ht
    simp [Engine.pendAt, hcore]
  · simp [Engine.pendAt, hcore, ht]

/-- `txn` is no longer open, and no prepared name is left to it. -/
structure Engine.Closes (e : Engine) (txn : TxnId) (e' : Engine) : Prop where
  core : e'.core = Function.update e.core txn none
  active : ∀ t, t ∈ e'.txns.active ↔ t ∈ e.txns.active ∧ t ≠ txn
  next : e'.txns.nextTxnId = e.txns.nextTxnId
  passes : e'.passes = e.passes
  nextRow : e'.nextRow = e.nextRow
  prepared : ∀ gid t, e'.txns.preparedGids.get? gid = some t →
    e.txns.preparedGids.get? gid = some t ∧ t ≠ txn

include hinv hc ho in
/-- **A transaction ends**: its writes join the commits or the history drops them. -/
theorem Inv.endTxn (hrun : h'.running = h.running.erase txn) (hcommits : h'.commits = h.commits ∨
      h'.commits = h.commits ++ [⟨txn, o.level, o.snap, o.writes⟩]) (hcl : e.Closes txn e')
    (hstored : e'.Stored P h')
    (hfresh : ∀ loc, h.versions loc = [] → h'.versions loc = [])
    (hgids : h'.gids = e'.txns.preparedGids) : Inv e' h' S P := by
  have hactiveTxn := hinv.mem_active_of_core hc
  have hm : e.MoveAt txn none e' := by
    refine ⟨hcl.core, fun t ht => ?_, ?_, .inl hactiveTxn, ?_, le_of_eq hcl.next.symm, hcl.passes⟩
    · rw [hcl.active]
      exact and_iff_left ht
    · rw [hcl.active]
      exact ⟨fun hmem => absurd rfl hmem.2, nofun⟩
    · exact hcl.next ▸ (hinv.activeRange txn hactiveTxn).2
  -- an entry of the commits is an old one at its place, or this transaction at the end
  have hgetCommits : ∀ i k, h'.commits[i]? = some k →
      h.commits[i]? = some k ∨ (i = h.commits.length ∧ k = ⟨txn, o.level, o.snap, o.writes⟩) := by
    intro i k hk
    rcases hcommits with hcs | hcs
    · exact .inl (hcs ▸ hk)
    rw [hcs] at hk
    by_cases hi : i < h.commits.length
    · rw [getElem?_append_left hi] at hk
      exact .inl hk
    rw [getElem?_append_right (by omega)] at hk
    rw [getElem?_singleton] at hk
    split at hk
    · exact .inr ⟨by omega, (some.inj hk).symm⟩
    · cases hk
  refine hinv.moveAt hm (fun t => hrun ▸ get?_erase ..) rfl (fun t k p ht hk hp hr => ?_) nofun
    (fun k hk => ?_) ?_ hstored
    (fun table n row hn hle => hfresh _ (hinv.fresh table n row (hcl.nextRow ▸ hn) hle)) hgids
    fun gid t ht => ?_
  · refine ⟨hr.level, hr.undo, hr.own, ?_, ?_, ?_⟩
    · refine le_trans hr.snapLe ?_
      rcases hcommits with hcs | hcs
      · rw [hcs]
      · rw [hcs, length_append]
        omega
    · intro i k' hk'
      rcases hgetCommits i k' hk' with hold | ⟨rfl, rfl⟩
      · exact hr.sees i k' hold
      have hunseen := hinv.unseen t k txn hk hactiveTxn (Ne.symm ht)
      have hle := hr.snapLe
      rw [hunseen]
      exact ⟨fun hh => absurd hh Bool.false_ne_true, fun hh => absurd hh (by omega)⟩
    · intro loc hw i k' hk' hwk
      rcases hgetCommits i k' hk' with hold | ⟨rfl, rfl⟩
      · exact hr.base loc hw i k' hold hwk
      · exact absurd (hinv.writer hp ho hw hwk) ht
  · obtain ⟨i, hi⟩ := getElem?_of_mem hk
    rcases hgetCommits i k hi with hold | ⟨-, rfl⟩
    · exact .inl (mem_of_getElem? hold)
    · exact .inr ⟨rfl, rfl⟩
  · rcases hcommits with hcs | hcs
    · rw [hcs]
      exact hinv.commitsNodup
    rw [hcs, map_append]
    refine nodup_append.mpr ⟨hinv.commitsNodup, nodup_singleton _, ?_⟩
    intro a ha b hb
    obtain ⟨k, hk, rfl⟩ := mem_map.mp ha
    rw [map_singleton, mem_singleton] at hb
    subst hb
    intro heq
    exact (hinv.commits k hk).2.2 (heq ▸ hactiveTxn)
  · obtain ⟨hgid, hne⟩ := hcl.prepared gid t ht
    obtain ⟨k, info, hk, hinfo, hname⟩ := hinv.prepared gid t hgid
    exact ⟨k, info, by rw [hcl.core, update_of_ne hne, hk], hinfo, hname⟩

end NusaDb
