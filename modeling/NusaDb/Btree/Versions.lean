import NusaDb.Btree.History

/-!
# How a row's surviving writes change

`History.versions` under the moves of a history: a write adds a version on top of its row, a commit
changes none, ending a transaction or going back takes its versions off the top.
-/

namespace NusaDb

open List OrdMap

def Writes (writes : List Write) (loc : Loc) : Prop := ∃ w ∈ writes, w.loc = loc

variable {writes : List Write}

lemma writes_iff_filter {loc : Loc} :
    Writes writes loc ↔ (writes.filter fun w => decide (w.loc = loc)) ≠ [] := by
  constructor
  · rintro ⟨w, hw, hl⟩ hnil
    have hmem : w ∈ writes.filter fun w => decide (w.loc = loc) :=
      mem_filter.mpr ⟨hw, by simpa using hl⟩
    rw [hnil] at hmem
    cases hmem
  · intro hne
    obtain ⟨w, hw⟩ := exists_mem_of_ne_nil _ hne
    obtain ⟨hmem, hl⟩ := mem_filter.mp hw
    exact ⟨w, hmem, by simpa using hl⟩

lemma writes_cons_iff {w : Write} {loc : Loc} :
    Writes (w :: writes) loc ↔ w.loc = loc ∨ Writes writes loc := by
  simp [Writes]

def OpenTxn.backTo (name : String) (o : OpenTxn) : OpenTxn :=
  match o.marks.dropWhile (·.1 ≠ name) with
  | [] => o
  | (n, m) :: older =>
    { o with
      marks := (n, m) :: older
      writes := o.writes.drop (o.writes.length - m) }

namespace History

variable {h : History} {txn : TxnId} {o : OpenTxn} {loc : Loc} {writes : List Write}

lemma versionsOf_eq_nil (hno : ¬Writes writes loc) : versionsOf txn writes loc = [] := by
  rw [writes_iff_filter, not_not] at hno
  rw [versionsOf, hno, map_nil]

lemma lastWrite_eq_none (hno : ¬Writes writes loc) : lastWrite writes loc = none := by
  unfold lastWrite
  rw [Option.map_eq_none_iff, find?_eq_none]
  intro w hmem hl
  exact hno ⟨w, hmem, by simpa using hl⟩

lemma not_writes_of_lastWrite (hlast : lastWrite writes loc = none) : ¬Writes writes loc := by
  rintro ⟨w, hw, hloc⟩
  unfold lastWrite at hlast
  rw [Option.map_eq_none_iff, find?_eq_none] at hlast
  exact hlast w hw (decide_eq_true hloc)

lemma writes_of_lastWrite {v : Option Tuple} (hlast : lastWrite writes loc = some v) :
    Writes writes loc := by
  by_contra hno
  rw [lastWrite_eq_none hno] at hlast
  cases hlast

variable {w : Write}

lemma versionsOf_cons_self (hw : w.loc = loc) :
    versionsOf txn (w :: writes) loc = ⟨txn, w.value⟩ :: versionsOf txn writes loc := by
  simp [versionsOf, hw]

lemma versionsOf_cons_other (hw : w.loc ≠ loc) :
    versionsOf txn (w :: writes) loc = versionsOf txn writes loc := by
  simp [versionsOf, hw]

lemma length_versionsOf (txn : TxnId) (writes : List Write) :
    (versionsOf txn writes loc).length = (writes.filter fun w => decide (w.loc = loc)).length := by
  simp [versionsOf]

lemma mem_versionsOf {v : Ver} (hv : v ∈ versionsOf txn writes loc) :
    v.txn = txn ∧ ⟨loc, v.value⟩ ∈ writes := by
  obtain ⟨w, hw, rfl⟩ := mem_map.mp hv
  obtain ⟨hmem, hloc⟩ := mem_filter.mp hw
  rw [← of_decide_eq_true hloc]
  exact ⟨rfl, hmem⟩

lemma mem_pending {v : Ver} (hv : v ∈ h.pending loc) :
    ∃ o, h.running.get? v.txn = some o ∧ ⟨loc, v.value⟩ ∈ o.writes := by
  obtain ⟨⟨t, o⟩, ho, hv⟩ := mem_flatMap.mp hv
  obtain ⟨rfl, hmem⟩ := mem_versionsOf hv
  exact ⟨o, mem_toList.mp ho, hmem⟩

lemma mem_committed {v : Ver} (hv : v ∈ h.committed loc) :
    ∃ c ∈ h.commits, c.txn = v.txn ∧ ⟨loc, v.value⟩ ∈ c.writes := by
  obtain ⟨c, hc, hv⟩ := mem_flatMap.mp hv
  obtain ⟨htxn, hmem⟩ := mem_versionsOf hv
  exact ⟨c, mem_reverse.mp hc, htxn.symm, hmem⟩

def Sole (h : History) (txn : TxnId) (loc : Loc) : Prop :=
  ∀ t o, h.running.get? t = some o → t ≠ txn → ¬Writes o.writes loc

lemma pending_eq_nil (hno : ∀ t o, h.running.get? t = some o → ¬Writes o.writes loc) :
    h.pending loc = [] := by
  refine flatMap_eq_nil ?_
  intro t o ho
  exact versionsOf_eq_nil (hno t o ho)

variable (ho : h.running.get? txn = some o)

include ho

lemma pending_eq_of_sole (hsole : h.Sole txn loc) :
    h.pending loc = versionsOf txn o.writes loc := by
  refine flatMap_eq_of_unique (f := fun p => versionsOf p.1 p.2.writes loc) ho ?_
  intro t o' ho' hne
  exact versionsOf_eq_nil (hsole t o' ho' hne)

omit ho in
lemma running_modify (f : OpenTxn → OpenTxn) (t : TxnId) :
    (h.modify txn f).running.get? t =
      if txn = t then (h.running.get? txn).map f else h.running.get? t :=
  get?_modify ..

variable {f : OpenTxn → OpenTxn}

omit ho in
lemma versions_modify_of_eq (hf : ∀ o, h.running.get? txn = some o →
      versionsOf txn (f o).writes loc = versionsOf txn o.writes loc) :
    (h.modify txn f).versions loc = h.versions loc := by
  have hpending : (h.modify txn f).pending loc = h.pending loc := by
    unfold pending
    rw [show (h.modify txn f).running = h.running.modify txn f from rfl, toList_modify, flatMap_map]
    refine flatMap_congr ?_
    rintro ⟨t, o⟩ hmem
    by_cases ht : t = txn
    · subst ht
      simp only [if_true]
      exact hf o (mem_toList.mp hmem)
    · rw [if_neg ht]
  unfold versions
  rw [hpending]
  rfl

lemma versions_modify_of_sole (hsole : h.Sole txn loc) :
    (h.modify txn f).versions loc = versionsOf txn (f o).writes loc ++ h.committed loc := by
  have ho' : (h.modify txn f).running.get? txn = some (f o) := by
    rw [running_modify, if_pos rfl, ho]
    rfl
  have hsole' : (h.modify txn f).Sole txn loc := by
    intro t o' ht hne
    rw [running_modify, if_neg (Ne.symm hne)] at ht
    exact hsole t o' ht hne
  unfold versions
  rw [pending_eq_of_sole ho' hsole']
  rfl

lemma versions_eq_of_sole (hsole : h.Sole txn loc) :
    h.versions loc = versionsOf txn o.writes loc ++ h.committed loc := by
  unfold versions
  rw [pending_eq_of_sole ho hsole]

lemma versions_write (hsole : h.Sole txn w.loc) :
    (h.write txn w).versions =
      Function.update h.versions w.loc (⟨txn, w.value⟩ :: h.versions w.loc) := by
  funext loc
  by_cases hl : loc = w.loc
  · subst hl
    rw [Function.update_self, write, versions_modify_of_sole ho hsole,
      versionsOf_cons_self rfl, versions_eq_of_sole ho hsole, cons_append]
  · rw [Function.update_of_ne hl, write]
    exact versions_modify_of_eq fun o _ => versionsOf_cons_other (Ne.symm hl)

omit ho

lemma versions_begin {new : OpenTxn} (hnew : h.running.get? txn = none)
    (hno : new.writes = []) (loc : Loc) :
    ({ h with running := h.running.insert txn new } : History).versions loc = h.versions loc := by
  have hpending :
      ({ h with running := h.running.insert txn new } : History).pending loc = h.pending loc := by
    refine flatMap_insert_nil hnew ?_
    show versionsOf txn new.writes loc = []
    rw [hno]
    rfl
  unfold versions
  rw [hpending]
  rfl

lemma pending_drop_of_sole (hsole : h.Sole txn loc) : (h.drop txn).pending loc = [] := by
  refine pending_eq_nil ?_
  intro t o' ht
  rw [show (h.drop txn).running = h.running.erase txn from rfl, get?_erase] at ht
  split at ht
  · cases ht
  · rename_i hne
    exact hsole t o' ht (Ne.symm hne)

lemma pending_drop_of_not_writes
    (hno : ∀ o, h.running.get? txn = some o → ¬Writes o.writes loc) :
    (h.drop txn).pending loc = h.pending loc := by
  refine flatMap_erase_nil (f := fun p : TxnId × OpenTxn => versionsOf p.1 p.2.writes loc) ?_
  intro o ho
  exact versionsOf_eq_nil (hno o ho)

variable (ho : h.running.get? txn = some o)

include ho

lemma versions_drop (hsole : Writes o.writes loc → h.Sole txn loc) :
    (h.drop txn).versions loc =
      (h.versions loc).drop (o.writes.filter fun w => decide (w.loc = loc)).length := by
  by_cases hw : Writes o.writes loc
  · rw [versions_eq_of_sole ho (hsole hw)]
    unfold versions
    rw [pending_drop_of_sole (hsole hw), ← length_versionsOf txn, drop_left]
    rfl
  have hnil : (o.writes.filter fun w => decide (w.loc = loc)) = [] := by
    by_contra hne
    exact hw (writes_iff_filter.mpr hne)
  rw [hnil, length_nil, drop_zero]
  unfold versions
  rw [pending_drop_of_not_writes fun o' ho' => by
    rw [ho] at ho'
    obtain rfl := Option.some.inj ho'
    exact hw]
  rfl

lemma commit_eq :
    h.commit txn =
      { h.drop txn with commits := h.commits ++ [⟨txn, o.level, o.snap, o.writes⟩] } := by
  simp [commit, ho, drop]

lemma committed_commit (loc : Loc) :
    (h.commit txn).committed loc = versionsOf txn o.writes loc ++ h.committed loc := by
  rw [commit_eq ho]
  simp [committed]

lemma versions_commit (hsole : Writes o.writes loc → h.Sole txn loc) :
    (h.commit txn).versions loc = h.versions loc := by
  have hpending : (h.commit txn).pending loc = (h.drop txn).pending loc := by
    rw [commit_eq ho]
    rfl
  unfold versions
  rw [committed_commit ho, hpending]
  by_cases hw : Writes o.writes loc
  · rw [pending_drop_of_sole (hsole hw), pending_eq_of_sole ho (hsole hw), nil_append]
  rw [versionsOf_eq_nil hw, nil_append, pending_drop_of_not_writes fun o' ho' => by
    rw [ho] at ho'
    obtain rfl := Option.some.inj ho'
    exact hw]

lemma versions_truncate {k : Nat} (hf : (f o).writes = o.writes.drop k)
    (hsole : Writes o.writes loc → h.Sole txn loc) :
    (h.modify txn f).versions loc =
      (h.versions loc).drop ((o.writes.take k).filter fun w => decide (w.loc = loc)).length := by
  have hsplit : versionsOf txn o.writes loc =
      versionsOf txn (o.writes.take k) loc ++ versionsOf txn (o.writes.drop k) loc := by
    rw [versionsOf, versionsOf, versionsOf, ← map_append, ← filter_append, take_append_drop]
  by_cases hw : Writes o.writes loc
  · rw [versions_modify_of_sole ho (hsole hw), versions_eq_of_sole ho (hsole hw), hf, hsplit,
      append_assoc, ← length_versionsOf txn, drop_left]
  have hsub : ∀ l : List Write, (∀ w ∈ l, w ∈ o.writes) → ¬Writes l loc := by
    rintro l hl ⟨w, hmem, hwl⟩
    exact hw ⟨w, hl w hmem, hwl⟩
  have hnil : ((o.writes.take k).filter fun w => decide (w.loc = loc)) = [] := by
    by_contra hne
    exact hsub _ (fun w => mem_of_mem_take) (writes_iff_filter.mpr hne)
  rw [hnil, length_nil, drop_zero]
  refine versions_modify_of_eq fun o' ho' => ?_
  rw [ho] at ho'
  obtain rfl := Option.some.inj ho'
  rw [hf, versionsOf_eq_nil (hsub _ fun w => mem_of_mem_drop), versionsOf_eq_nil hw]

end History

end NusaDb
