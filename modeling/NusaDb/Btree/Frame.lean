import NusaDb.Btree.Dead
import NusaDb.Btree.PurgeMoves
import NusaDb.Btree.Walk

/-!
# Entries and the rows they stand for

Index entries are read through the rows they stand for, and a purge step thins the entries of a row
that is not dead and does nothing else to them.
-/

namespace NusaDb

open List Option Engine OrdMap IndexData TxnDomain

variable {e e' : Engine} {h : History} {txn : TxnId} {pos : Pos}

lemma Engine.entryLog_erase {d : TxnDomain} (hd : d.txns = e.txns.txns.erase txn) (pos : Pos) :
    entryLog { e with txns := d } pos =
      fun t => if txn = t then none else e.entryLog pos t := by
  funext t
  unfold entryLog
  rw [hd, OrdMap.get?_erase]
  split <;> rfl

/-! ## Positions of dead rows -/

/-- The row that entries at `pos` stand for is dead. -/
def Engine.DeadAt (e : Engine) (h : History) (pos : Pos) : Prop :=
  ∃ i, e.indexes.get? pos.1 = some i ∧ e.Dead h (i.table, pos.2)

lemma Engine.deadAt_iff : e.DeadAt h pos ↔
    ∃ g, e.indexSign pos.1 = some g ∧ e.Dead h (g.1, pos.2) := by
  unfold DeadAt indexSign
  constructor
  · rintro ⟨i, hi, hdead⟩
    exact ⟨i.sign, by rw [hi]; rfl, hdead⟩
  · rintro ⟨g, hg, hdead⟩
    obtain ⟨i, hi, rfl⟩ := map_eq_some_iff.mp hg
    exact ⟨i, hi, hdead⟩

lemma Engine.deadAt_congr (hsign : e'.indexSign = e.indexSign) (hset : e'.Settled = e.Settled) :
    e'.DeadAt h = e.DeadAt h := by
  funext pos
  rw [eq_iff_iff, deadAt_iff, deadAt_iff, hsign]
  unfold Dead
  rw [hset]

/-! ## Reading a row through one of its entries -/

section

variable {view : ReadView} {metas : List EntryMeta}

/-- The row that an entry at a position stands for under a view. -/
def Engine.entryRow (e : Engine) (t : Table) (view : ReadView) (p : EntryKey)
    (metas : List EntryMeta) : Option (Tid × Tuple) :=
  if IndexData.entryVisible metas view then
    (t.rows.get? p.row).bind fun leaf =>
      (visibleTuple leaf e.reclaim.arena view).map fun tuple => (tidOf p.row, tuple)
  else none

lemma IndexData.load_eq_of_entries {d : IndexData} {k : EntryKey}
    (hget : d.entries.get? k = some metas) : (d.rowEntries k.row).ranges k.key = metas := by
  show (d.entries.get? k).getD [] = metas
  rw [hget]
  rfl

lemma ViewRep.resolve_entry (hinv : Inv e h) {o : OpenTxn} {n : Nat} {table : TableId} {t : Table} (hv : ViewRep e h txn o view n)
    (htab : e.tables.get? table = some t) (d : IndexData) (k : EntryKey) :
    (d.entries.get? k).bind (e.entryRow t view k) = if entryVisible
      ((d.rowEntries k.row).ranges k.key) view then (readVers view (h.versions (table, k.row))).map
      fun tuple => (tidOf k.row, tuple) else none := by
  have hrow : ((t.rows.get? k.row).bind fun leaf =>
      (visibleTuple leaf e.reclaim.arena view).map fun tuple => (tidOf k.row, tuple)) =
        (readVers view (h.versions (table, k.row))).map fun tuple => (tidOf k.row, tuple) := by
    rw [← hv.visible_leaf hinv, leafAt_eq_of_table htab, map_bind]
    rfl
  unfold entryRow
  rw [hrow]
  cases hget : d.entries.get? k with
  | none =>
    have hnil : (d.rowEntries k.row).ranges k.key = [] := by
      show (d.entries.get? k).getD [] = []
      rw [hget]
      rfl
    rw [hnil]
    rfl
  | some metas => rw [load_eq_of_entries hget]; rfl

lemma IndexData.entryVisible_thin {settled : TxnId → Prop} (hset : ∀ x, settled x → view.sees x =
    true) {metas2 : List EntryMeta} (hthin : Thinned (Droppable settled) metas metas2) :
    entryVisible metas view = entryVisible metas2 view := by
  refine hthin.any_eq fun m hm => ?_
  rw [hset _ hm.2, beq_eq_false_iff_ne.mpr hm.1]
  simp

end

lemma Engine.indexSign_step (e : Engine) (op : Op) : (e.step op).1.indexSign = e.indexSign := by
  cases hop : op.isPurge with
  | false => exact (e.frame_step op hop).indexSign
  | true =>
    cases op with
    | purgeStart => rfl
    | purgeStep pass pressure => exact (e.purgeStep_signs pass pressure).2.1
    | _ => cases hop

lemma Engine.DeadAt.step (hd : e.DeadAt h pos) (hinv : Inv e h) (op : Op) :
    (e.step op).1.DeadAt (h.record (op, (e.step op).2)) pos := by
  obtain ⟨g, hg, hdead⟩ := deadAt_iff.mp hd
  exact deadAt_iff.mpr ⟨g, by rw [e.indexSign_step]; exact hg, hdead.step hinv op⟩

/-! ## Purge steps on one side -/

/-- **What a purge step leaves of an entry**, when the pass goes by stamps of `settled` and has
removed rows of `gone` only. -/
theorem Engine.purgeStep_thins {settled : TxnId → Prop} {gone : Loc → Prop} {pos : Pos} {pass : Nat}
    {pressure : Bool}
    (hpass : ∀ p, e.passes.get? pass = some p →
      (∀ x, p.snapshot.settled x = true → settled x) ∧ p.phase.RowsIn gone)
    (hok : e.PassesOk h) (hpos : ∀ g, e.indexSign pos.1 = some g → ¬gone (g.1, pos.2))
    {r : RowEntries} (hr : (e.purgeStep pass pressure).entriesAt pos = some r) :
    ∃ r0, e.entriesAt pos = some r0 ∧ ∀ r2, r0.Thin (Droppable settled) r2 →
      r.Thin (Droppable settled) r2 := by
  rcases e.purgeStep_move pass pressure with hsame | ⟨p, e', next, hp, hmove, -, -, hstep⟩
  · rw [hsame] at hr
    exact ⟨r, hr, fun _ h => h⟩
  rw [hstep] at hr
  change e'.entriesAt pos = some r at hr
  have hphase := hok pass p hp
  obtain ⟨hsettled, hrows⟩ := hpass p hp
  obtain ⟨snap, phase⟩ := p
  cases hmove with
  | turn | orphans => exact ⟨r, hr, fun _ h => h⟩
  | @sweep table _ _ _ cursor _ t f _ _ _ _ _ _ _ =>
    refine ⟨r, ?_, fun _ h => h⟩
    change ((e.purgeRows _ _ _).indexes.get? pos.1).map _ = _ at hr
    rw [purgeRows_indexes] at hr
    exact hr
  | @index table todo removed index rest yielding =>
    rw [entriesAt_modifyIndex] at hr
    split at hr
    · rename_i hi
      obtain ⟨i, hget, rfl⟩ := map_eq_some_iff.mp hr
      -- a row the pass removed is gone; of any other, only settled dead ranges go
      have hrow : pos.2 ∉ removed := by
        intro hmem
        obtain ⟨g, hg, htab⟩ := (hphase table removed (index :: rest) rfl).2 index mem_cons_self
        refine hpos g (hi ▸ hg) ?_
        rw [htab]
        exact hrows table removed (index :: rest) rfl pos.2 hmem
      refine ⟨i.data.rowEntries pos.2, ?_, fun r2 hthin => ?_⟩
      · unfold entriesAt
        rw [← hi, hget]
        rfl
      · rw [IndexData.rowEntries_purge hrow]
        refine ⟨hthin.alive, fun key => (hthin.ranges key).filter_left fun m hm => ?_⟩
        rw [Bool.not_eq_false', Bool.and_eq_true, bne_iff_ne] at hm
        exact ⟨hm.1, hsettled _ hm.2⟩
    · exact ⟨r, hr, fun _ h => h⟩

lemma Inv.purgeStep_thins (hinv : Inv e h) (hok : e.PassesOk h) {pos : Pos}
    (hpos : ¬e.DeadAt h pos) {pass : Nat} {pressure : Bool} {r : RowEntries}
    (hr : (e.purgeStep pass pressure).entriesAt pos = some r) :
    ∃ r0, e.entriesAt pos = some r0 ∧ ∀ r2, r0.Thin (Droppable e.Settled) r2 →
      r.Thin (Droppable e.Settled) r2 := by
  have hpass : ∀ p, e.passes.get? pass = some p →
      (∀ x, p.snapshot.settled x = true → e.Settled x) ∧ p.phase.RowsIn (e.Dead h) :=
    fun p hp => ⟨fun x hx => hinv.passes pass p x hp hx,
      fun table rows indexes hremoved => (hok pass p hp table rows indexes hremoved).1⟩
  exact Engine.purgeStep_thins hpass hok
    (fun g hg hd => hpos (Engine.deadAt_iff.mpr ⟨g, hg, hd⟩)) hr

lemma Engine.PassesOk.startPass (hok : e.PassesOk h) {p : PurgePass} (hp : p.phase.removed = none)
    (id next : Nat) :
    PassesOk { e with passes := e.passes.insert id p, nextPass := next } h := by
  intro id' q hq
  rw [OrdMap.get?_insert] at hq
  split at hq
  · cases hq
    intro table rows indexes hremoved
    rw [hp] at hremoved
    cases hremoved
  · exact hok id' q hq

lemma Engine.PassesOk.step (hok : e.PassesOk h) (hinv : Inv e h) (op : Op) :
    (e.step op).1.PassesOk (h.record (op, (e.step op).2)) := by
  cases hop : op.isPurge with
  | false =>
    intro id p hp
    rw [(e.frame_step op hop).passes] at hp
    exact (hok id p hp).mono (e.indexSign_step op) fun loc hd => hd.step hinv op
  | true =>
    cases op with
    | purgeStart => exact hok.startPass (p := ⟨e.purgeSnapshot, .tables e.tables.keys⟩) rfl _ _
    | purgeStep pass pressure => exact hok.purgeStep hinv pass pressure
    | _ => cases hop

lemma Engine.PassesOk.init (hf : e.Fresh) (h : History) : e.PassesOk h := by
  intro id p hp
  rw [hf.passes] at hp
  cases hp

end NusaDb
