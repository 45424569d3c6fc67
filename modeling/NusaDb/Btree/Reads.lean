import Mathlib.Data.List.Induction
import NusaDb.Btree.Invariant

/-!
# Reading through a view

What a view sees of a row's version chain is what the history says the transaction should read: its
own last write, or else the last write among the commits its view covers.
-/

namespace NusaDb

open List Option History

open History (Ver)

/-- `view` is a view of the open transaction `txn` that covers the first `n` commits. -/
structure ViewRep (e : Engine) (h : History) (txn : TxnId) (o : OpenTxn) (view : ReadView)
    (n : Nat) : Prop where
  running : h.running.get? txn = some o
  own : view.sees txn = true
  settled : ∀ x, e.Settled x → view.sees x = true
  sees : ∀ i k, h.commits[i]? = some k → (view.sees k.txn = true ↔ i < n)
  others : ∀ t ∈ e.txns.active, t ≠ txn → view.sees t = false
  base : ∀ loc, Writes o.writes loc → ∀ i k, h.commits[i]? = some k → Writes k.writes loc → i < n

variable {e : Engine} {h : History} {txn : TxnId} {o : OpenTxn} {view : ReadView} {n : Nat}
  {loc : Loc} {S : Sight} {P : TxnId → Prop}

lemma Inv.viewRep_pinned (hinv : Inv e h ReadView.sees P) {c : TxnCore} (hc : e.core txn = some c)
    (ho : h.running.get? txn = some o) : ViewRep e h txn o c.pinned o.snap := by
  have hr := hinv.txn txn c o hc ho
  refine ⟨ho, ?_, ?_, hr.sees, ?_, hr.base⟩
  · have hown := c.pinned.sees_own
    rwa [hr.own] at hown
  · intro x hx
    exact hx.2.2 txn _ (e.viewOf_of_core hc)
  · intro t ht hne
    exact hinv.unseen txn c t hc ht hne

lemma freshView_sees_iff (d : TxnDomain) (own x : TxnId) :
    (d.freshView own).sees x = true ↔ x = own ∨ (x < d.nextTxnId ∧ x ∉ d.active) := by
  rw [ReadView.sees_iff]
  simp only [TxnDomain.freshView, mem_filter, not_and, decide_eq_true_eq, not_not]
  constructor
  · rintro (hx | ⟨hlt, hnot⟩)
    · exact .inl hx
    · by_cases hx : x = own
      · exact .inl hx
      · exact .inr ⟨hlt, fun hmem => hx (hnot hmem)⟩
  · rintro (hx | ⟨hlt, hnot⟩)
    · exact .inl hx
    · exact .inr ⟨hlt, fun hmem => absurd hmem hnot⟩

lemma freshView_later {d : TxnDomain} {own x : TxnId} (hown : own < d.nextTxnId)
    (hx : d.nextTxnId ≤ x) : (d.freshView own).sees x = false := by
  rw [Bool.eq_false_iff, Ne, freshView_sees_iff]
  rintro (rfl | ⟨hlt, -⟩)
  · exact absurd hown (not_lt.mpr hx)
  · exact absurd hlt (not_lt.mpr hx)

lemma Inv.viewRep_fresh (hinv : Inv e h S P) (ho : h.running.get? txn = some o) :
    ViewRep e h txn o (e.txns.freshView txn) h.commits.length := by
  have hlt : ∀ i k, h.commits[i]? = some k → i < h.commits.length := by
    intro i k hk
    by_contra hge
    rw [getElem?_eq_none (by omega)] at hk
    cases hk
  refine ⟨ho, ?_, ?_, ?_, ?_, ?_⟩
  · exact (freshView_sees_iff ..).mpr (.inl rfl)
  · intro x hx
    exact (freshView_sees_iff ..).mpr (.inr hx.ended)
  · intro i k hk
    obtain ⟨_, hnext, hnot⟩ := hinv.commits k (mem_of_getElem? hk)
    exact ⟨fun _ => hlt i k hk, fun _ => (freshView_sees_iff ..).mpr (.inr ⟨hnext, hnot⟩)⟩
  · intro t ht hne
    rw [Bool.eq_false_iff]
    intro hs
    rcases (freshView_sees_iff ..).mp hs with hs | hs
    · exact hne hs
    · exact hs.2 ht
  · intro loc _ i k hk _
    exact hlt i k hk

lemma readVers_versionsOf_append (t : TxnId) (writes : List Write) (rest : List Ver) :
    readVers view (versionsOf t writes loc ++ rest) =
      if view.sees t = true then
        (lastWrite writes loc).getD (readVers view rest)
      else readVers view rest := by
  unfold versionsOf lastWrite
  induction writes with
  | nil => simp
  | cons w writes ih =>
    by_cases hw : w.loc = loc
    · rw [filter_cons_of_pos (by simpa using hw), map_cons, cons_append, readVers, ih,
        find?_cons_of_pos (by simpa using hw)]
      by_cases hs : view.sees t = true
      · simp [hs]
      · simp [hs]
    · rw [filter_cons_of_neg (by simpa using hw), ih, find?_cons_of_neg (by simpa using hw)]

lemma readVers_commits (cs : List Committed)
    (hsees : ∀ i k, cs[i]? = some k → (view.sees k.txn = true ↔ i < n)) :
    readVers view (cs.reverse.flatMap fun k => versionsOf k.txn k.writes loc) =
      committedValue (cs.take n) loc := by
  -- from the newest commit down, so the induction is on the end of the list
  induction cs using reverseRecOn with
  | nil => simp [readVers, committedValue]
  | append_singleton cs k ih =>
    have hih := ih fun i k' hk' => hsees i k' (by
      rw [getElem?_append_left]
      · exact hk'
      · by_contra hge
        rw [getElem?_eq_none (by omega)] at hk'
        cases hk')
    have hk := hsees cs.length k (by simp)
    rw [reverse_append, reverse_singleton, singleton_append, flatMap_cons,
      readVers_versionsOf_append, hih]
    by_cases hlt : cs.length < n
    · rw [if_pos (hk.mpr hlt), take_of_length_le (l := cs) (by omega),
        take_of_length_le (by simp; omega)]
      unfold committedValue
      rw [reverse_append, reverse_singleton, singleton_append, findSome?_cons]
      cases lastWrite k.writes loc <;> rfl
    · rw [if_neg (fun hs => hlt (hk.mp hs)), take_append_of_le_length (by omega)]

/-- The view belongs to the open transaction `txn` and covers the first `n` commits; at most one
open transaction has written the row; if that is `txn`, nobody has committed to it since. -/
structure ReadsAt (h : History) (txn : TxnId) (o : OpenTxn) (view : ReadView) (n : Nat) (loc : Loc) :
    Prop where
  running : h.running.get? txn = some o
  own : view.sees txn = true
  sees : ∀ i k, h.commits[i]? = some k → (view.sees k.txn = true ↔ i < n)
  others : ∀ t o', h.running.get? t = some o' → t ≠ txn → view.sees t = false
  base : Writes o.writes loc → ∀ i k, h.commits[i]? = some k → Writes k.writes loc → i < n
  sole : ∀ t o', h.running.get? t = some o' → Writes o'.writes loc → h.Sole t loc

lemma ViewRep.readsAt (hinv : Inv e h S P) (hv : ViewRep e h txn o view n) (loc : Loc) :
    ReadsAt h txn o view n loc where
  running := hv.running
  own := hv.own
  sees := hv.sees
  others t o' ho' hne := by
    refine hv.others t ?_ hne
    rw [hinv.active, hinv.running, ho']
    rfl
  base := hv.base loc
  sole _ _ ho' hw := hinv.sole ho' hw

/-- A view sees its own writes and the commits before it: a lower part of the history. -/
lemma ReadsAt.seesBelow (hr : ReadsAt h txn o view n loc) : SeesBelow view (h.versions loc) := by
  have hmemCommitted : ∀ b ∈ h.committed loc, ∃ (i : Nat) (k : Committed), h.commits[i]? = some k ∧
      b.txn = k.txn ∧ Writes k.writes loc := by
    intro b hb
    obtain ⟨k, hk, htxn, hw⟩ := mem_committed hb
    obtain ⟨i, hi⟩ := getElem?_of_mem hk
    exact ⟨i, k, hi, htxn.symm, _, hw, rfl⟩
  have hmemPending : ∀ a ∈ h.pending loc, ∃ o', h.running.get? a.txn = some o' ∧
      Writes o'.writes loc := by
    intro a ha
    obtain ⟨o', ho', hw⟩ := mem_pending ha
    exact ⟨o', ho', _, hw, rfl⟩
  refine pairwise_append.mpr ⟨?_, ?_, ?_⟩
  · -- pending writes are all of one transaction
    refine Pairwise.imp_of_mem (R := fun _ _ => True) ?_ (pairwise_of_forall fun _ _ => trivial)
    intro a b ha hb _ hs
    obtain ⟨oa, hoa, hwa⟩ := hmemPending a ha
    obtain ⟨ob, hob, hwb⟩ := hmemPending b hb
    have heq : b.txn = a.txn := by
      by_contra hne
      exact hr.sole a.txn oa hoa hwa b.txn ob hob hne hwb
    rwa [heq]
  · refine pairwise_flatMap.mpr ⟨?_, ?_⟩
    · intro k _
      refine Pairwise.imp_of_mem (R := fun _ _ => True) ?_
        (pairwise_of_forall fun _ _ => trivial)
      intro a b ha hb _ hs
      obtain ⟨_, _, rfl⟩ := mem_map.mp ha
      obtain ⟨_, _, rfl⟩ := mem_map.mp hb
      exact hs
    · rw [pairwise_reverse, pairwise_iff_getElem]
      intro i j hi hj hij a ha b hb hs
      obtain ⟨_, _, rfl⟩ := mem_map.mp ha
      obtain ⟨_, _, rfl⟩ := mem_map.mp hb
      have hjn := (hr.sees j _ (getElem?_eq_getElem hj)).mp hs
      exact (hr.sees i _ (getElem?_eq_getElem hi)).mpr (by omega)
  · intro a ha b hb hs
    obtain ⟨oa, hoa, hwa⟩ := hmemPending a ha
    obtain ⟨i, k, hk, hbk, hwk⟩ := hmemCommitted b hb
    have hatxn : a.txn = txn := by
      by_contra hne
      rw [hr.others a.txn oa hoa hne] at hs
      cases hs
    rw [hatxn] at hoa
    obtain rfl : oa = o := some.inj (hoa.symm.trans hr.running)
    rw [hbk]
    exact (hr.sees i k hk).mpr (hr.base hwa i k hk hwk)

/-- **The first version a view sees is the history's answer.** -/
theorem ReadsAt.readVers_versions (hr : ReadsAt h txn o view n loc) :
    readVers view (h.versions loc) =
      (lastWrite o.writes loc).getD (committedValue (h.commits.take n) loc) := by
  have hcommitted : readVers view (h.committed loc) =
      committedValue (h.commits.take n) loc := readVers_commits h.commits hr.sees
  unfold versions
  by_cases hw : Writes o.writes loc
  · rw [pending_eq_of_sole hr.running (hr.sole txn o hr.running hw),
      readVers_versionsOf_append, if_pos hr.own, hcommitted]
  rw [lastWrite_eq_none hw, getD_none, ← hcommitted]
  by_cases hother : ∃ t o', h.running.get? t = some o' ∧ Writes o'.writes loc
  · obtain ⟨t, o', ho', hw'⟩ := hother
    have hne : t ≠ txn := by
      rintro rfl
      obtain rfl : o' = o := some.inj (ho'.symm.trans hr.running)
      exact hw hw'
    rw [pending_eq_of_sole ho' (hr.sole t o' ho' hw'), readVers_versionsOf_append,
      if_neg (by rw [hr.others t o' ho' hne]; exact Bool.false_ne_true)]
  · rw [pending_eq_nil fun t o' ho' hw' => hother ⟨t, o', ho', hw'⟩, nil_append]

lemma ViewRep.seesBelow (hinv : Inv e h S P) (hv : ViewRep e h txn o view n) (loc : Loc) :
    SeesBelow view (h.versions loc) :=
  (hv.readsAt hinv loc).seesBelow

lemma ViewRep.readVers_versions (hinv : Inv e h S P) (hv : ViewRep e h txn o view n) (loc : Loc) :
    readVers view (h.versions loc) =
      (lastWrite o.writes loc).getD (committedValue (h.commits.take n) loc) :=
  (hv.readsAt hinv loc).readVers_versions

lemma RowRep.readVers_none {arena : Arena} {settled : TxnId → Prop} {ss : List Nat}
    {ws : List Ver} (hr : RowRep arena settled none ss ws)
    (hset : ∀ x, settled x → view.sees x = true) : readVers view ws = none := by
  cases hr with
  | absent => rfl
  | purged h => simp [readVers, hset _ h]

lemma ViewRep.visible_leaf (hinv : Inv e h) (hv : ViewRep e h txn o view n) (loc : Loc) :
    ((e.leafAt loc).bind fun leaf => visibleTuple leaf e.reclaim.arena view) =
      readVers view (h.versions loc) := by
  obtain ⟨slots, hstore⟩ := hinv.store
  have hrow := hstore.row loc
  cases hl : e.leafAt loc with
  | none =>
    rw [hl] at hrow
    exact (hrow.readVers_none hv.settled).symm
  | some leaf =>
    rw [hl] at hrow
    exact hrow.visibleTuple_eq hv.settled (hv.seesBelow hinv loc) (hstore.owned.nodup loc)

lemma Inv.mem_visibleRows_iff (hinv : Inv e h) (hv : ViewRep e h txn o view n)
    {table : TableId} {t : Table} (ht : e.tables.get? table = some t) (tid : Tid) (tuple : Tuple) :
    (tid, tuple) ∈ e.visibleRows t view ↔
      tid = tidOf (rowIdOf tid) ∧ (lastWrite o.writes (table, rowIdOf tid)).getD
        (committedValue (h.commits.take n) (table, rowIdOf tid)) = some tuple := by
  rw [← hv.readVers_versions hinv, ← hv.visible_leaf hinv]
  unfold Engine.visibleRows
  simp only [mem_filterMap, map_eq_some_iff, Engine.leafAt, Engine.leaf, ht,
    bind_some, bind_eq_some_iff]
  constructor
  · rintro ⟨⟨row, leaf⟩, hmem, tuple', hvis, heq⟩
    obtain ⟨rfl, rfl⟩ := Prod.mk.inj heq
    exact ⟨rfl, leaf, OrdMap.mem_toList.mp hmem, hvis⟩
  · rintro ⟨htid, leaf, hleaf, hvis⟩
    exact ⟨(rowIdOf tid, leaf), OrdMap.mem_toList.mpr hleaf, tuple, hvis, by rw [← htid]⟩

lemma visibleRows_sorted (e : Engine) (t : Table) (view : ReadView) :
    (e.visibleRows t view).Pairwise fun a b => rowIdOf a.1 < rowIdOf b.1 := by
  unfold Engine.visibleRows
  rw [pairwise_filterMap]
  refine t.rows.sorted.imp ?_
  intro a b hab a' ha' b' hb'
  obtain ⟨_, _, rfl⟩ := map_eq_some_iff.mp ha'
  obtain ⟨_, _, rfl⟩ := map_eq_some_iff.mp hb'
  exact hab

end NusaDb
