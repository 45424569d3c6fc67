import NusaDb.Btree.Frame
import NusaDb.Btree.KeyHistory
import NusaDb.Btree.KeyReplay

/-!
# Indexes agree with key histories

In a run that keeps the discipline, an index holds for a row what the surviving key events left, and
a transaction's undo entries for the position are those of its own events, now and at each
savepoint. Settled dead ranges may be gone, and nothing is said of dead rows.
-/

namespace NusaDb

open List Option

open History (Ver)
open RowEntries History

def valuesAt (pos : Pos) (keys : List Write) : List (Option Key) :=
  (keys.filter fun w => decide (w.loc = pos)).map Write.value

/-- The undo entries at a position are those of these events, over the committed ones. -/
def Entered (k : History) (pos : Pos) (txn : TxnId) (keys : List Write) (ops : List UndoOp) : Prop :=
  ops = (RowEntries.replay (k.committed pos)).putAllOps pos txn (valuesAt pos keys)

/-- Indexes, undo lists and the key history agree, on the indexes in question. -/
structure KeyInv (ixs : IndexId → Prop) (purges : Prop) (e : Engine) (h k : History) : Prop where
  cover : KeyCover e.indexTable ixs h k
  logs : ∀ pos, ixs pos.1 → ∀ t ko log, k.running.get? t = some ko → e.entryLog pos t = some log →
    MarkedLog.Rel (Entered k pos t) ko.log log
  entries : ∀ pos, ixs pos.1 → ¬(purges ∧ e.DeadAt h pos) → ∀ r, e.entriesAt pos = some r →
    r.Thin (Droppable e.Settled) (RowEntries.replay (k.versions pos))

/-- A transaction of the history: open, or one that has committed. -/
def History.Known (h : History) (t : TxnId) : Prop :=
  (h.running.get? t).isSome ∨ ∃ c ∈ h.commits, c.txn = t

variable {ixs : IndexId → Prop} {purges : Prop} {e e' : Engine} {h h' k k' : History} {txn : TxnId}
  {pos : Pos} {ko : OpenTxn}

lemma versionsOf_eq_values (txn : TxnId) (keys : List Write) (pos : Pos) :
    versionsOf txn keys pos = (valuesAt pos keys).map fun v => ⟨txn, v⟩ := by
  unfold versionsOf valuesAt
  rw [List.map_map]
  rfl

lemma valuesAt_append (pos : Pos) (keys keys' : List Write) :
    valuesAt pos (keys ++ keys') = valuesAt pos keys ++ valuesAt pos keys' := by
  unfold valuesAt
  rw [filter_append, map_append]

lemma valuesAt_eq_nil {keys : List Write} (hno : ¬Writes keys pos) : valuesAt pos keys = [] := by
  unfold valuesAt
  rw [map_eq_nil_iff]
  by_contra hne
  exact hno (writes_iff_filter.mpr hne)

lemma valuesAt_sublist_nil {keys keys' : List Write} (hsub : keys'.Sublist keys)
    (hno : ¬Writes keys pos) : valuesAt pos keys' = [] := by
  refine valuesAt_eq_nil fun hw => ?_
  obtain ⟨w, hmem, hloc⟩ := hw
  exact hno ⟨w, hsub.subset hmem, hloc⟩

lemma Engine.indexTable_of_sign (hsign : e'.indexSign = e.indexSign) :
    e'.indexTable = e.indexTable := by
  have htable : ∀ e : Engine, e.indexTable = fun index => (e.indexSign index).map fun g => g.1 := by
    intro e
    funext index
    unfold Engine.indexTable Engine.indexSign
    rw [Option.map_map]
    rfl
  rw [htable, htable, hsign]

variable (hkey : KeyInv ixs purges e h k) (hinv : Inv e h)

include hkey hinv

variable (hix : ixs pos.1) (hko : k.running.get? txn = some ko) (hw : Writes ko.writes pos)

include hix

lemma KeyInv.sole_of_row {table : TableId} {o : OpenTxn} (htab : e.indexTable pos.1 = some table)
    (ho : h.running.get? txn = some o) (hwrites : Writes o.writes (table, pos.2)) :
    k.Sole txn pos ∧ ¬e.DeadAt h pos := by
  constructor
  · rintro t ko' hko' hne ⟨w, hmem, rfl⟩
    obtain ⟨o', ho'⟩ := hkey.cover.running_of_keys hko'
    obtain ⟨table', htab', hwrites'⟩ := (hkey.cover.cover t o' ko' ho' hko').items w hmem hix
    obtain rfl : table = table' := some.inj (htab.symm.trans htab')
    exact hne (hinv.writer ho' ho hwrites' hwrites)
  · rintro ⟨i, hi, hd⟩
    have htable : table = i.table := by
      unfold Engine.indexTable at htab
      rw [hi] at htab
      exact (some.inj htab).symm
    exact hd.not_writes hinv txn o ho (htable ▸ hwrites)

include hko hw in
lemma KeyInv.writer : k.Sole txn pos ∧ ¬e.DeadAt h pos := by
  obtain ⟨o, ho⟩ := hkey.cover.running_of_keys hko
  obtain ⟨w, hmem, rfl⟩ := hw
  obtain ⟨table, htab, hwrites⟩ := (hkey.cover.cover txn o ko ho hko).items w hmem hix
  exact hkey.sole_of_row hinv hix htab ho hwrites

omit hix

lemma KeyInv.active (hko : k.running.get? txn = some ko) : txn ∈ e.txns.active := by
  rw [hinv.active, hinv.running, ← hkey.cover.running, hko]
  rfl

omit hinv in
lemma KeyInv.event_known (pos : Pos) : ∀ w ∈ k.versions pos, h.Known w.txn := by
  intro w hw
  rcases mem_append.mp hw with hw | hw
  · obtain ⟨ko, hko, -⟩ := mem_pending hw
    left
    rw [← hkey.cover.running, hko]
    rfl
  · obtain ⟨kc, hmem, htxn, -⟩ := mem_committed hw
    obtain ⟨i, hi⟩ := mem_iff_getElem?.mp hmem
    obtain ⟨hc, hget, hsame, -⟩ := hkey.cover.commit_at hi
    exact Or.inr ⟨hc, mem_of_getElem? hget, hsame.trans htxn⟩

lemma KeyInv.txn_ne (pos : Pos) : ∀ w ∈ k.versions pos, w.txn ≠ noXmax := by
  intro w hw
  rcases hkey.event_known pos w hw with hrun | ⟨c, hc, htxn⟩
  · have hactive := (hinv.active w.txn).mpr ((hinv.running w.txn).trans hrun)
    exact ne_of_gt (hinv.activeRange w.txn hactive).1
  · exact htxn ▸ ne_of_gt (hinv.commits c hc).1

omit hkey hinv in
lemma RowEntries.replay_of_sole (hko : k.running.get? txn = some ko) (hsole : k.Sole txn pos) :
    replay (k.versions pos) = (replay (k.committed pos)).putAll txn (valuesAt pos ko.writes) := by
  rw [versions_eq_of_sole hko hsole, versionsOf_eq_values, replay_append]

lemma KeyInv.committed_ok (pos : Pos) : (replay (k.committed pos)).Ok :=
  .replay fun w hw => hkey.txn_ne hinv pos w (mem_append_right _ hw)

include hix hko hw in
/-- **Undoing the newest events** of a transaction leaves what its older ones had left. -/
theorem KeyInv.undone {r : RowEntries} (hr : e.entriesAt pos = some r) {newer older : List Write}
    (hsplit : ko.writes = newer ++ older) {ops : List UndoOp}
    (hops : (replay (k.committed pos)).putAllOps pos txn (valuesAt pos ko.writes) =
      ops ++ (replay (k.committed pos)).putAllOps pos txn (valuesAt pos older)) :
    (ops.foldl (undone txn) r).Thin (Droppable e.Settled)
      ((replay (k.committed pos)).putAll txn (valuesAt pos older)) := by
  obtain ⟨hsole, hlive⟩ := hkey.writer hinv hix hko hw
  have hthin := hkey.entries pos hix (fun hd => hlive hd.2) r hr
  rw [replay_of_sole hko hsole] at hthin
  have hactive := hkey.active hinv hko
  have htxn : txn ≠ noXmax := ne_of_gt (hinv.activeRange txn hactive).1
  have hdrop : ∀ m, Droppable e.Settled m → m.xmax ≠ noXmax ∧ m.xmax ≠ txn :=
    fun m hm => ⟨hm.1, fun heq => hm.2.2.1 (heq ▸ hactive)⟩
  rw [hsplit, valuesAt_append] at hops hthin
  rw [← undone_putAll (hkey.committed_ok hinv pos) htxn pos _ _ hops]
  exact hthin.undoneAll hdrop ops

lemma KeyInv.readsAt {o : OpenTxn} {view : ReadView} {n : Nat} (hv : ViewRep e h txn o view n)
    (hix : ixs pos.1) (hko : k.running.get? txn = some ko) {table : TableId}
    (htab : e.indexTable pos.1 = some table) :
    ReadsAt k txn ko view n pos where
  running := hko
  own := hv.own
  sees i kc hi := by
    obtain ⟨hc, hget, htxn, -⟩ := hkey.cover.commit_at hi
    rw [← htxn]
    exact hv.sees i hc hget
  others t ko' hko' hne := hv.others t (hkey.active hinv hko') hne
  base hw i kc hi hwk := by
    obtain ⟨hc, hget, -, hcovers⟩ := hkey.cover.commit_at hi
    have hrow : Writes o.writes (table, pos.2) := by
      by_contra hno
      exact (hkey.cover.cover txn o ko hv.running hko).items.not_writes hix htab hno hw
    have hrow' : Writes hc.writes (table, pos.2) := by
      by_contra hno
      exact hcovers.not_writes hix htab hno hwk
    exact hv.base (table, pos.2) hrow i hc hget hrow'
  sole t ko' hko' hw := (hkey.writer hinv hix hko' hw).1

/-- **An index entry is visible** through a view, for a row that is not dead, exactly under the key
of the newest event the view sees, if no event there took an entry out. -/
theorem KeyInv.entryVisible_iff {o : OpenTxn} {view : ReadView} {n : Nat}
    (hv : ViewRep e h txn o view n) (hix : ixs pos.1) (hko : k.running.get? txn = some ko)
    {table : TableId} (htab : e.indexTable pos.1 = some table)
    (hsome : ∀ w ∈ k.versions pos, w.value.isSome = true) (hdead : ¬e.DeadAt h pos) {r : RowEntries}
    (hr : e.entriesAt pos = some r) (key : Key) :
    IndexData.entryVisible (r.ranges key) view = true ↔
      (lastWrite ko.writes pos).getD (committedValue (k.commits.take n) pos) =
        some key := by
  have hreads := hkey.readsAt hinv hv hix hko htab
  have hthin := hkey.entries pos hix (fun hd => hdead hd.2) r hr
  rw [IndexData.entryVisible_thin hv.settled (hthin.ranges key),
    entryVisible_replay (hkey.txn_ne hinv pos) hsome hreads.seesBelow,
    hreads.readVers_versions]

omit hkey hinv

lemma KeyInv.init (hf : e.Fresh) : KeyInv ixs purges e .init .init where
  cover := .init
  logs _ _ _ _ _ hko := nomatch hko
  entries pos _ _ r hr := by
    obtain ⟨i, hi, rfl⟩ := map_eq_some_iff.mp hr
    rw [hf.data pos.1 i hi]
    exact ⟨rfl, fun key => Thinned.refl _ _⟩

end NusaDb
