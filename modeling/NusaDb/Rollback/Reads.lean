import NusaDb.Btree.IndexScan

/-!
# What scans read, by the histories
-/

namespace NusaDb

open List Option

open History (Ver)
open IndexData

/-- Whether `txn` sees the writes of `t`: its own, and those of the transactions committed when its
view was taken. -/
def History.sees (h : History) (txn t : TxnId) : Bool :=
  t == txn ||
    match h.running.get? txn with
    | none => false
    | some o => (h.commits.take o.snap).any fun c => c.txn == t

/-- Whether the key events leave an entry that `txn` sees: one whose creator it sees and whose
remover, if any, it does not. -/
def History.entrySeen (h k : History) (txn : TxnId) (index : IndexId) (pos : EntryKey) : Bool :=
  ((RowEntries.replay (k.versions (index, pos.row))).ranges pos.key).any fun m =>
    h.sees txn m.xmin && (m.xmax == noXmax || !h.sees txn m.xmax)

section

variable {known : TxnId → Prop} {r : RowEntries}

def RowEntries.Stamped (known : TxnId → Prop) (r : RowEntries) : Prop :=
  ∀ key, ∀ m ∈ r.ranges key, known m.xmin ∧ (m.xmax = noXmax ∨ known m.xmax)

variable (hr : r.Stamped known)

include hr
variable (key : Key)

lemma RowEntries.Stamped.set {metas : List EntryMeta} (hm : ∀ m ∈ metas, known m.xmin ∧ (m.xmax =
    noXmax ∨ known m.xmax)) : (r.set key metas).Stamped known := by
  intro key' m hmem
  by_cases hkey : key' = key
  · subst hkey
    rw [RowEntries.ranges_set_self] at hmem
    exact hm m hmem
  · rw [RowEntries.ranges_set_other r hkey] at hmem
    exact hr key' m hmem

lemma RowEntries.Stamped.push {txn : TxnId} (ht : known txn) :
    (r.push key ⟨txn, noXmax⟩).Stamped known := by
  refine hr.set key fun m hmem => ?_
  rcases mem_append.mp hmem with hold | hnew
  · exact hr key m hold
  · rw [mem_singleton.mp hnew]
    exact ⟨ht, .inl rfl⟩

lemma RowEntries.Stamped.insert {txn : TxnId} (ht : known txn) :
    (r.insert key txn).1.Stamped known := by
  unfold RowEntries.insert
  split
  case h_1 oldKey _ =>
    split
    · exact hr
    refine RowEntries.Stamped.push ?_ key ht
    refine hr.set oldKey fun m hmem => ?_
    rcases mem_modifyLast hmem with hold | ⟨m0, hold, rfl⟩
    · exact hr oldKey m hold
    · exact ⟨(hr oldKey m0 hold).1, .inr ht⟩
  case h_2 => exact hr.push key ht

lemma RowEntries.Stamped.delete : (r.delete key).1.Stamped known := by
  unfold RowEntries.delete
  split
  case h_1 => exact hr
  have herased : (r.set key (eraseLast (fun m => m.xmax == noXmax) (r.ranges key))).Stamped known :=
    hr.set key fun m hmem => hr key m ((eraseLast_sublist ..).subset hmem)
  unfold RowEntries.clearAt
  split
  · exact herased
  · exact herased

omit hr

lemma RowEntries.Stamped.replay {vers : List Ver} (hv : ∀ w ∈ vers, known w.txn) :
    (RowEntries.replay vers).Stamped known := by
  induction vers with
  | nil => exact fun key m hmem => absurd hmem not_mem_nil
  | cons w vers ih =>
    have hr := ih fun w' hw' => hv w' (mem_cons_of_mem _ hw')
    unfold RowEntries.replay RowEntries.put
    split
    · exact hr.insert _ (hv w mem_cons_self)
    split
    · exact hr
    · exact hr.delete _

end

variable {ixs : IndexId → Prop} {purges : Prop} {e : Engine} {h k : History} {txn t : TxnId}
  {o : OpenTxn} {view : ReadView} {index : IndexId} {table : TableId}

lemma ViewRep.sees_eq (hv : ViewRep e h txn o view o.snap) (hinv : Inv e h)
    (ht : h.Known t) : view.sees t = h.sees txn t := by
  have hsnap : (h.sees txn t = true) ↔
      t = txn ∨ ∃ i c, h.commits[i]? = some c ∧ i < o.snap ∧ c.txn = t := by
    unfold History.sees
    rw [hv.running, Bool.or_eq_true, beq_iff_eq, List.any_eq_true]
    refine or_congr_right ⟨?_, ?_⟩
    · rintro ⟨c, hc, htxn⟩
      obtain ⟨i, hi⟩ := mem_iff_getElem?.mp hc
      rw [getElem?_take] at hi
      split at hi
      case isTrue hlt => exact ⟨i, c, hi, hlt, beq_iff_eq.mp htxn⟩
      case isFalse => cases hi
    · rintro ⟨i, c, hi, hlt, htxn⟩
      refine ⟨c, mem_iff_getElem?.mpr ⟨i, ?_⟩, beq_iff_eq.mpr htxn⟩
      rw [getElem?_take, if_pos hlt, hi]
  rw [Bool.eq_iff_iff, hsnap]
  constructor
  · intro hsees
    by_cases heq : t = txn
    · exact .inl heq
    rcases ht with hrun | ⟨c, hc, rfl⟩
    · -- an open transaction other than the reader is not seen
      rw [hv.others t ((hinv.active t).mpr ((hinv.running t).trans hrun)) heq] at hsees
      cases hsees
    · obtain ⟨i, hi⟩ := mem_iff_getElem?.mp hc
      exact .inr ⟨i, c, hi, (hv.sees i c hi).mp hsees, rfl⟩
  · rintro (rfl | ⟨i, c, hi, hlt, rfl⟩)
    · exact hv.own
    · exact (hv.sees i c hi).mpr hlt

lemma KeyInv.entryVisible_eq (hkey : KeyInv ixs purges e h k) (hinv : Inv e h)
    (hv : ViewRep e h txn o view o.snap) (hix : ixs index) {i : IndexState}
    (hi : e.indexes.get? index = some i) (p : EntryKey) (hdead : ¬e.DeadAt h (index, p.row)) :
    entryVisible ((i.data.rowEntries p.row).ranges p.key) view = h.entrySeen k txn index p := by
  have hthin := hkey.entries (index, p.row) hix (fun hd => hdead hd.2) _
    (Engine.entriesAt_of_index hi p.row)
  rw [entryVisible_thin hv.settled (hthin.ranges p.key)]
  have hstamps := RowEntries.Stamped.replay (hkey.event_known (index, p.row)) p.key
  have hsame : ∀ m ∈ (RowEntries.replay (k.versions (index, p.row))).ranges p.key,
      (view.sees m.xmin && (m.xmax == noXmax || !view.sees m.xmax)) =
        (h.sees txn m.xmin && (m.xmax == noXmax || !h.sees txn m.xmax)) := by
    intro m hm
    obtain ⟨hmin, hmax⟩ := hstamps m hm
    rw [hv.sees_eq hinv hmin]
    rcases hmax with hmax | hmax
    · rw [hmax]
      rfl
    · rw [hv.sees_eq hinv hmax]
  unfold entryVisible History.entrySeen
  rw [Bool.eq_iff_iff, List.any_eq_true, List.any_eq_true]
  constructor
  · rintro ⟨m, hm, hseen⟩
    exact ⟨m, hm, (hsame m hm).symm.trans hseen⟩
  · rintro ⟨m, hm, hseen⟩
    exact ⟨m, hm, (hsame m hm).trans hseen⟩

lemma ViewRep.not_dead (hv : ViewRep e h txn o view o.snap) {i : IndexState}
    (hi : e.indexes.get? index = some i) {row : RowId} {tuple : Tuple}
    (hread : readVers view (h.versions (i.table, row)) = some tuple) : ¬e.DeadAt h (index, row) := by
  rintro ⟨i', hi', x, older, hvers, hset⟩
  obtain rfl : i = i' := some.inj (hi.symm.trans hi')
  rw [hvers, readVers, if_pos (hv.settled x hset)] at hread
  cases hread

/-- What an index scan should return: the positions in its range with an entry the transaction sees,
in the order of the walk, with the rows' visible tuples. -/
structure IndexReads (h k : History) (txn : TxnId) (index : IndexId) (table : TableId) (lo hi : Bound)
    (backward : Bool) (found : List (EntryKey × Tuple)) : Prop where
  sorted : found.Pairwise fun a b => WalkBefore backward a.1 b.1
  mem : ∀ p tuple, (p, tuple) ∈ found ↔
    (lo.admitsFrom p.key = true ∧ hi.admitsTo p.key = true) ∧
      h.entrySeen k txn index p = true ∧ h.visible txn (table, p.row) = some tuple

/-- **An index scan reads what the histories say.** -/
theorem KeyInv.indexScan_reads (hkey : KeyInv ixs purges e h k) (hinv : Inv e h) (hix : ixs index)
    (htab : e.indexTable index = some table) (hopen : (h.running.get? txn).isSome)
    (htable : (e.tables.get? table).isSome) (lo hi : Bound) (backward : Bool) :
    ∃ found, IndexReads h k txn index table lo hi backward found ∧
      ∀ limit, (e.step (.indexScan txn index lo hi backward limit)).2 =
        .ok (.rows (limited limit (found.map fun q => (tidOf q.1.row, q.2)))) := by
  obtain ⟨o, ho⟩ := isSome_iff_exists.mp hopen
  obtain ⟨i, hi', rfl⟩ := map_eq_some_iff.mp htab
  obtain ⟨t, ht⟩ := isSome_iff_exists.mp htable
  obtain ⟨c, hc⟩ := hinv.core_of_running ho
  obtain ⟨s, hs, rfl⟩ := map_eq_some_iff.mp hc
  have hv : ViewRep e h txn o s.pinned o.snap := hinv.viewRep_pinned hc ho
  have hvisible : ∀ row, readVers s.pinned (h.versions (i.table, row)) =
      h.visible txn (i.table, row) := by
    intro row
    rw [ViewRep.visible_eq ho]
    exact hv.readVers_versions hinv (i.table, row)
  have hfound : ∀ p r, (i.data.entries.get? p).bind (e.entryRow t s.pinned p) = some r ↔
      r.1 = tidOf p.row ∧ h.entrySeen k txn index p = true ∧
        h.visible txn (i.table, p.row) = some r.2 := by
    rintro p ⟨tid, tuple⟩
    rw [← hvisible]
    have hentry := hv.resolve_entry hinv ht i.data p
    rw [hentry]
    constructor
    · intro hsome
      split at hsome
      case isFalse => cases hsome
      case isTrue hseen =>
        obtain ⟨tuple', hread, heq⟩ := map_eq_some_iff.mp hsome
        obtain ⟨rfl, rfl⟩ := Prod.mk.inj heq
        rw [hkey.entryVisible_eq hinv hv hix hi' p (hv.not_dead hi' hread)] at hseen
        exact ⟨rfl, hseen, hread⟩
    · rintro ⟨rfl, hseen, hread⟩
      rw [hkey.entryVisible_eq hinv hv hix hi' p (hv.not_dead hi' hread), if_pos hseen, hread]
      rfl
  refine ⟨(i.data.collect (e.entryRow t s.pinned) lo hi backward).map fun q => (q.1, q.2.2),
    ⟨?_, fun p tuple => ?_⟩, fun limit => ?_⟩
  · rw [pairwise_map]
    exact i.data.collect_sorted _ lo hi backward
  · rw [List.mem_map]
    constructor
    · rintro ⟨⟨p', r⟩, hq, heq⟩
      obtain ⟨rfl, rfl⟩ := Prod.mk.inj heq
      obtain ⟨hget, hadmits⟩ := mem_collect.mp hq
      exact ⟨hadmits, ((hfound _ _).mp hget).2⟩
    · rintro ⟨hadmits, hseen⟩
      exact ⟨(p, tidOf p.row, tuple),
        mem_collect.mpr ⟨(hfound p (tidOf p.row, tuple)).mpr ⟨rfl, hseen⟩, hadmits⟩, rfl⟩
  · rw [Engine.indexScan_collects hs hi' ht lo hi backward, List.map_map]
    congr 3
    refine map_congr_left fun q hq => ?_
    obtain ⟨htid, -⟩ := (hfound q.1 q.2).mp (mem_collect.mp hq).1
    exact Prod.ext htid rfl

end NusaDb
