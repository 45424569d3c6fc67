import NusaDb.Btree.Reads

/-!
# Moves of the invariant

What calls do to an engine and its history comes down to a few moves, each of which keeps `Inv`. A
move is stated by what it does to the observations, so the calls only have to exhibit it.
-/

namespace NusaDb

open List Function Engine History MarkedLog

open History (Ver)
open UndoOp

variable {e e' : Engine} {h h' : History} {txn : TxnId} {c c' : TxnCore} {o : OpenTxn} {loc : Loc}
  {S : Sight} {P : TxnId → Prop}

/-- The open transaction `txn` gets the core `c'`; the other transactions and the purge passes stay.
-/
structure Engine.CoreMove (e : Engine) (txn : TxnId) (c' : TxnCore) (e' : Engine) : Prop where
  core : e'.core = Function.update e.core txn (some c')
  active : e'.txns.active = e.txns.active
  next : e'.txns.nextTxnId = e.txns.nextTxnId
  passes : e'.passes = e.passes

structure Engine.RowsStay (e e' : Engine) : Prop where
  leaf : e'.leafAt = e.leafAt
  reclaim : e'.reclaim = e.reclaim
  nextRow : e'.nextRow = e.nextRow

lemma Engine.pendAt_of_core (hc : e.core txn = some c) (loc : Loc) :
    e.pendAt txn loc = opsAt loc c.undo := by
  simp [pendAt, hc]

variable (hinv : Inv e h S P) (hc : e.core txn = some c)
  (hcore : e'.core = Function.update e.core txn (some c'))

include hcore in
lemma Engine.pendAt_update (t : TxnId) (loc : Loc) :
    e'.pendAt t loc = if t = txn then opsAt loc c'.undo else e.pendAt t loc := by
  by_cases ht : t = txn
  · subst ht
    simp [pendAt, hcore]
  · simp [pendAt, hcore, ht]

include hc hcore in
lemma Engine.pendAt_keep (hops : ∀ loc, opsAt loc c'.undo = opsAt loc c.undo) :
    e'.pendAt = e.pendAt := by
  funext t loc
  rw [pendAt_update hcore]
  by_cases ht : t = txn
  · subst ht
    rw [if_pos rfl, hops, pendAt_of_core hc]
  · rw [if_neg ht]

variable (ho : h.running.get? txn = some o) (hgids : e'.txns.preparedGids = e.txns.preparedGids)

include hinv ho in
lemma Inv.core_of_running : ∃ c, e.core txn = some c := by
  refine Option.isSome_iff_exists.mp ?_
  rw [hinv.running, ho]
  rfl

include hinv hc in
lemma Inv.running_of_core : ∃ o, h.running.get? txn = some o := by
  refine Option.isSome_iff_exists.mp ?_
  rw [← hinv.running, hc]
  rfl

include hinv hc in
lemma Inv.mem_active_of_core : txn ∈ e.txns.active := by
  rw [hinv.active, hc]
  rfl

include hinv hc in
lemma Inv.open_not_settled : ¬P txn ∧ txn ≠ noXmax := by
  have hactive := hinv.mem_active_of_core hc
  refine ⟨fun hset => (hinv.ended txn hset).2 hactive, ?_⟩
  have hpos := (hinv.activeRange txn hactive).1
  exact ne_of_gt hpos

/-- The rows hold the history's versions, with histories cut below `settled` stamps at most. -/
def Engine.Stored (e : Engine) (settled : TxnId → Prop) (h : History) : Prop :=
  ∃ slots, StoreInv e.leafAt e.reclaim settled h.versions e.pendAt slots

lemma Engine.Stored.congr {settled : TxnId → Prop} (hs : e.Stored settled h)
    (hleaf : e'.leafAt = e.leafAt) (hreclaim : e'.reclaim = e.reclaim)
    (hpend : e'.pendAt = e.pendAt) (hvers : h'.versions = h.versions) : e'.Stored settled h' := by
  unfold Stored
  rw [hleaf, hreclaim, hpend, hvers]
  exact hs

/-- At `txn`, open until now or the next to be, the core becomes `core'`; nobody else moves. -/
structure Engine.MoveAt (e : Engine) (txn : TxnId) (core' : Option TxnCore) (e' : Engine) : Prop where
  core : e'.core = Function.update e.core txn core'
  others : ∀ t, t ≠ txn → (t ∈ e'.txns.active ↔ t ∈ e.txns.active)
  self : txn ∈ e'.txns.active ↔ core'.isSome
  known : txn ∈ e.txns.active ∨ txn = e.txns.nextTxnId
  lt : txn < e'.txns.nextTxnId
  next : e.txns.nextTxnId ≤ e'.txns.nextTxnId
  passes : e'.passes = e.passes

/-- A transaction that has ended is not the one that moves, and stays ended. -/
lemma Engine.MoveAt.ended {core' : Option TxnCore} (hm : e.MoveAt txn core' e') {x : TxnId}
    (hx : e.Ended x) : e'.Ended x := by
  obtain ⟨hlt, hnot⟩ := hx
  have hne : x ≠ txn := by
    rintro rfl
    rcases hm.known with hactive | hnew
    · exact hnot hactive
    · exact absurd hnew (ne_of_lt hlt)
  exact ⟨lt_of_lt_of_le hlt hm.next, fun hmem => hnot ((hm.others x hne).mp hmem)⟩

include hinv in
/-- **One transaction begins, changes or ends**, in the engine and in the history alike: the other
transactions are where they were, and what is new is to be shown of `txn` only. -/
theorem Inv.moveAt {core' : Option TxnCore} {open' : Option OpenTxn} (hm : e.MoveAt txn core' e')
    (hrun : ∀ t, h'.running.get? t = if txn = t then open' else h.running.get? t)
    (hsome : core'.isSome = open'.isSome)
    (hothers : ∀ t k p, t ≠ txn → e.core t = some k → h.running.get? t = some p →
      TxnRep h t k p S → TxnRep h' t k p S)
    (hself : ∀ k p, core' = some k → open' = some p → TxnRep h' txn k p S ∧
      (∀ x, e'.txns.nextTxnId ≤ x → S k.pinned x = false) ∧
      ∀ t ∈ e.txns.active, t ≠ txn → S k.pinned t = false)
    (hcommits : ∀ k ∈ h'.commits, k ∈ h.commits ∨ (k.txn = txn ∧ core' = none))
    (hnodup : (h'.commits.map Committed.txn).Nodup) (hstored : e'.Stored P h')
    (hfresh : ∀ table n row, e'.nextRow table = some n → n ≤ row → h'.versions (table, row) = [])
    (hgids : h'.gids = e'.txns.preparedGids)
    (hprepared : ∀ gid t, e'.txns.preparedGids.get? gid = some t →
      ∃ k info, e'.core t = some k ∧ k.prepared = some info ∧ info.gid = gid) : Inv e' h' S P := by
  have hold : ∀ {t : TxnId} {k : TxnCore}, e'.core t = some k →
      t = txn ∧ core' = some k ∨ t ≠ txn ∧ e.core t = some k := by
    intro t k hk
    rw [hm.core] at hk
    exact update_eq_some hk
  have hviews : ∀ {k}, core' = some k → (∀ x, e'.txns.nextTxnId ≤ x → S k.pinned x = false) ∧
      ∀ t ∈ e.txns.active, t ≠ txn → S k.pinned t = false := by
    intro k hk
    rw [hk] at hsome
    obtain ⟨p, hp⟩ := Option.isSome_iff_exists.mp hsome.symm
    exact (hself k p hk hp).2
  have hpos : 0 < txn := by
    rcases hm.known with hactive | hnew
    · exact (hinv.activeRange txn hactive).1
    · exact hnew ▸ hinv.nextPos
  refine ⟨fun t => ?_, fun t k p hk hp => ?_, fun t => ?_, fun t ht => ?_,
    lt_of_lt_of_le hinv.nextPos hm.next, fun t k x hk hx => ?_, fun t k t' hk ht' hne => ?_,
    fun k hk => ?_, hnodup, fun x hx => hm.ended (hinv.ended x hx), hstored, hfresh,
    hm.passes ▸ hinv.passes, hgids, hprepared⟩
  · rw [hm.core, hrun]
    by_cases ht : t = txn
    · subst ht
      rw [update_self, if_pos rfl, hsome]
    · rw [update_of_ne ht, if_neg (Ne.symm ht), hinv.running]
  · rw [hrun] at hp
    rcases hold hk with ⟨rfl, hk⟩ | ⟨ht, hk⟩
    · rw [if_pos rfl] at hp
      exact (hself k p hk hp).1
    · rw [if_neg (Ne.symm ht)] at hp
      exact hothers t k p ht hk hp (hinv.txn t k p hk hp)
  · rw [hm.core]
    by_cases ht : t = txn
    · subst ht
      rw [update_self, hm.self]
    · rw [update_of_ne ht, hm.others t ht, hinv.active]
  · by_cases htxn : t = txn
    · exact htxn ▸ ⟨hpos, hm.lt⟩
    · obtain ⟨hzero, hlt⟩ := hinv.activeRange t ((hm.others t htxn).mp ht)
      exact ⟨hzero, lt_of_lt_of_le hlt hm.next⟩
  · rcases hold hk with ⟨-, hk⟩ | ⟨-, hk⟩
    · exact (hviews hk).1 x hx
    · exact hinv.later t k x hk (le_trans hm.next hx)
  · rcases hold hk with ⟨rfl, hk⟩ | ⟨ht, hk⟩
    · exact (hviews hk).2 t' ((hm.others t' hne).mp ht') hne
    by_cases htxn : t' = txn
    · rw [htxn]
      -- no older view sees a new id
      rcases hm.known with hactive | hnew
      · exact hinv.unseen t k txn hk hactive (Ne.symm ht)
      · exact hinv.later t k txn hk (le_of_eq hnew.symm)
    · exact hinv.unseen t k t' hk ((hm.others t' htxn).mp ht') hne
  · rcases hcommits k hk with hk | ⟨rfl, hnone⟩
    · obtain ⟨hzero, hended⟩ := hinv.commits k hk
      exact ⟨hzero, hm.ended hended⟩
    · refine ⟨hpos, hm.lt, fun hmem => ?_⟩
      rw [hm.self, hnone] at hmem
      cases hmem

include hinv hc in
lemma Engine.CoreMove.moveAt (hm : e.CoreMove txn c' e') : e.MoveAt txn (some c') e' where
  core := hm.core
  others t _ := by rw [hm.active]
  self := by
    rw [hm.active]
    exact ⟨fun _ => rfl, fun _ => hinv.mem_active_of_core hc⟩
  known := .inl (hinv.mem_active_of_core hc)
  lt := hm.next ▸ (hinv.activeRange txn (hinv.mem_active_of_core hc)).2
  next := le_of_eq hm.next.symm
  passes := hm.passes

include hinv hc ho in
lemma Inv.modifyTxn (hm : e.CoreMove txn c' e') {f : OpenTxn → OpenTxn}
    (hrun : h'.running = h.running.modify txn f) (hcommits : h'.commits = h.commits)
    (hrep : TxnRep h txn c' (f o) S)
    (hlater : ∀ x, e.txns.nextTxnId ≤ x → S c'.pinned x = false)
    (hunseen : ∀ t ∈ e.txns.active, t ≠ txn → S c'.pinned t = false)
    (hstored : e'.Stored P h')
    (hfresh : ∀ table n row, e'.nextRow table = some n → n ≤ row → h'.versions (table, row) = [])
    (hgids : h'.gids = e'.txns.preparedGids)
    (hprepared : ∀ gid t, e'.txns.preparedGids.get? gid = some t →
      ∃ k info, e'.core t = some k ∧ k.prepared = some info ∧ info.gid = gid) : Inv e' h' S P := by
  refine hinv.moveAt (hm.moveAt hinv hc) (fun t => ?_)
    (show (some c').isSome = (some (f o)).isSome from rfl)
    (fun _ _ _ _ _ _ hr => hr.congr hcommits) ?_ (fun _ hk => .inl (hcommits ▸ hk))
    (hcommits ▸ hinv.commitsNodup) hstored hfresh hgids hprepared
  · rw [hrun, OrdMap.get?_modify, ho]
    rfl
  · rintro k p ⟨⟩ ⟨⟩
    exact ⟨hrep.congr hcommits, hm.next ▸ hlater, hunseen⟩

include hinv hc hgids in
lemma Inv.prepared_keep (hm : e.CoreMove txn c' e')
    (hprepared : c'.prepared = c.prepared) (gid : String) (t : TxnId)
    (ht : e'.txns.preparedGids.get? gid = some t) :
    ∃ k info, e'.core t = some k ∧ k.prepared = some info ∧ info.gid = gid := by
  rw [hgids] at ht
  obtain ⟨k, info, hk, hinfo, hgid⟩ := hinv.prepared gid t ht
  rw [hm.core]
  by_cases htt : t = txn
  · subst htt
    rw [hc] at hk
    obtain rfl := Option.some.inj hk
    exact ⟨c', info, update_self .., hprepared ▸ hinfo, hgid⟩
  · exact ⟨k, info, by rw [update_of_ne htt]; exact hk, hinfo, hgid⟩

variable (f : OpenTxn → OpenTxn)

include hinv hc ho hgids in
lemma Inv.modifyCore (hm : e.CoreMove txn c' e')
    (hpinned : c'.pinned = c.pinned) (hprepared : c'.prepared = c.prepared)
    (hrep : TxnRep h txn c' (f o) S) (hstored : e'.Stored P (h.modify txn f))
    (hfresh : ∀ table n row, e'.nextRow table = some n → n ≤ row →
      (h.modify txn f).versions (table, row) = []) : Inv e' (h.modify txn f) S P := by
  refine hinv.modifyTxn hc ho hm rfl rfl hrep ?_ ?_ hstored hfresh
    (hinv.gids.trans hgids.symm) (hinv.prepared_keep hc hgids hm hprepared)
  · intro x hx
    rw [hpinned]
    exact hinv.later txn c x hc hx
  · intro t ht hne
    rw [hpinned]
    exact hinv.unseen txn c t hc ht hne

variable {op : UndoOp}

namespace UndoRep

variable {undo : List UndoOp} {savepoints marks : List (String × Nat)} {writes : List Write}
  (hr : UndoRep undo savepoints writes marks)

include hr

lemma push {ops : List UndoOp} {ws : List Write} (hnew : ops.filterMap rowOf = ws.map Write.loc) :
    UndoRep (ops ++ undo) savepoints (ws ++ writes) marks := by
  refine ⟨?_, hr.counts.push ops, hr.writeCounts.push ws⟩
  rw [ofCounts_push hr.counts.le, ofCounts_push hr.writeCounts.le]
  refine hr.rel.push ?_
  rw [filterMap_append, map_append, hnew, hr.rel.items]

variable (name : String)

lemma mark : UndoRep undo ((name, undo.length) :: savepoints.filter (·.1 ≠ name)) writes
    ((name, writes.length) :: marks.filter (·.1 ≠ name)) := by
  refine ⟨?_, hr.counts.mark name, hr.writeCounts.mark name⟩
  rw [ofCounts_mark, ofCounts_mark]
  exact hr.rel.mark name

lemma release : UndoRep undo (savepoints.dropWhile (·.1 ≠ name)).tail writes
    (marks.dropWhile (·.1 ≠ name)).tail := by
  refine ⟨?_, hr.counts.sublist ?_, hr.writeCounts.sublist ?_⟩
  · rw [ofCounts_release, ofCounts_release]
    exact hr.rel.release name
  all_goals exact (tail_sublist _).trans (dropWhile_sublist _)

/-- The savepoint has its mark in the history, and the undo entries and the writes that came after
the two name the same rows. -/
lemma backTo {name : String} {p : String × Nat} {older : List (String × Nat)}
    (hdrop : savepoints.dropWhile (·.1 ≠ name) = p :: older) :
    ∃ m older', marks.dropWhile (·.1 ≠ name) = (p.1, m) :: older' ∧
      (undo.take (undo.length - p.2)).filterMap rowOf =
        (writes.take (writes.length - m)).map Write.loc ∧
      UndoRep (undo.drop (undo.length - p.2)) (p :: older) (writes.drop (writes.length - m))
        ((p.1, m) :: older') := by
  have hmarks := hr.rel.dropWhile name
  simp only [MarkedLog.ofCounts, dropWhile_map] at hmarks
  change Forall₂ _ ((savepoints.dropWhile (·.1 ≠ name)).map _)
    ((marks.dropWhile (·.1 ≠ name)).map _) at hmarks
  rw [hdrop] at hmarks
  cases hq : marks.dropWhile (·.1 ≠ name) with
  | nil =>
    rw [hq] at hmarks
    cases hmarks
  | cons q older' =>
    obtain ⟨n, m⟩ := q
    rw [hq] at hmarks
    obtain ⟨hname, hcut⟩ := (forall₂_cons.mp hmarks).1
    obtain rfl : p.1 = n := hname
    have hrel := hr.rel.backTo name
    rw [← ofCounts_backTo hr.counts hdrop, ← ofCounts_backTo hr.writeCounts hq] at hrel
    refine ⟨m, older', rfl, ?_, hrel, hr.counts.backTo hdrop, hr.writeCounts.backTo hq⟩
    have hall : undo.filterMap rowOf = writes.map Write.loc := hr.rel.items
    rw [← take_append_drop (undo.length - p.2) undo, filterMap_append, hcut] at hall
    refine append_cancel_right (hall.trans ?_)
    rw [← map_append, take_append_drop]

end UndoRep

/-- What write admission vouches for: the row is live and nobody else has an open write on it. -/
structure Admitted (e : Engine) (h : History) (txn : TxnId) (loc : Loc) (old : Version) : Prop where
  live : old.header.xmax = noXmax
  sole : h.Sole txn loc
  others : ∀ t, t ≠ txn → e.pendAt t loc = []

lemma TxnDomain.admitWrite_ok {d : TxnDomain} {m : RowMeta} {tid : Tid}
    (hok : d.admitWrite txn m tid = .ok ()) :
    d.otherActive txn m.xmin = false ∧ m.xmax = noXmax ∧ d.unseenBy txn m.xmin = false := by
  unfold TxnDomain.admitWrite at hok
  split at hok
  · cases hok
  rename_i hother
  split at hok
  · split at hok <;> cases hok
  rename_i hx
  split at hok
  · cases hok
  · rename_i hunseen
    exact ⟨Bool.eq_false_iff.mpr hother, not_not.mp hx, Bool.eq_false_iff.mpr hunseen⟩

lemma StoreInv.newest {leaf : Loc → Option Version} {u : UndoDomain} {settled : TxnId → Prop}
    {vers : Loc → List Ver} {pend : TxnId → Loc → List UndoOp} {slots : Loc → List Nat}
    (hstore : StoreInv leaf u settled vers pend slots) {old : Version} (hold : leaf loc = some old)
    (hlive : old.header.xmax = noXmax) :
    ∃ older, vers loc = ⟨old.header.xmin, some old.tuple⟩ :: older := by
  have hrow := hstore.row loc
  rw [hold] at hrow
  obtain ⟨older, hvers⟩ := hrow.vers_of_some
  rw [if_pos hlive, nil_append] at hvers
  exact ⟨older, hvers⟩

include hinv in
lemma Inv.admitted {old : Version} {tid : Tid} (hold : e.leafAt loc = some old)
    (hok : e.txns.admitWrite txn old.header tid = .ok ()) : Admitted e h txn loc old := by
  obtain ⟨hother, hlive, -⟩ := TxnDomain.admitWrite_ok hok
  obtain ⟨slots, hstore⟩ := hinv.store
  obtain ⟨older, hvers⟩ := hstore.newest hold hlive
  have hsole : h.Sole txn loc := by
    intro t p hp hne hw
    -- a pending write of `t` would be on top of the row, and `t` is active
    have hpend := pending_eq_of_sole hp (hinv.sole hp hw)
    have hhead : old.header.xmin = t := by
      unfold versions at hvers
      rw [hpend] at hvers
      obtain ⟨w, rest, hfilter⟩ := exists_cons_of_ne_nil (writes_iff_filter.mp hw)
      unfold versionsOf at hvers
      rw [hfilter, map_cons, cons_append] at hvers
      exact (congrArg Ver.txn (cons.inj hvers).1).symm
    have hact : t ∈ e.txns.active := by
      rw [hinv.active, hinv.running, hp]
      rfl
    unfold TxnDomain.otherActive at hother
    rw [hhead] at hother
    simp [hne, hact] at hother
  refine ⟨hlive, hsole, ?_⟩
  intro t hne
  by_contra hpend
  cases hk : e.core t with
  | none => simp [pendAt, hk] at hpend
  | some k =>
    obtain ⟨p, hp⟩ := hinv.running_of_core hk
    rw [pendAt_of_core hk] at hpend
    exact hsole t p hp hne (((hinv.txn t k p hk hp).opsAt_ne_nil_iff loc).mp hpend)

include hc in
lemma Engine.unseenBy_of_core (x : TxnId) : e.txns.unseenBy txn x = !c.pinned.sees x := by
  obtain ⟨s, hs, rfl⟩ := Option.map_eq_some_iff.mp hc
  simp [TxnDomain.unseenBy, hs, TxnState.core]

/-- Every transaction that committed a write to the row had done so when `txn` took its view. -/
def History.Covers (h : History) (txn : TxnId) (loc : Loc) : Prop :=
  ∀ o i k, h.running.get? txn = some o → h.commits[i]? = some k → Writes k.writes loc → i < o.snap

/-- An admitted write is to a row whose committed writers the transaction's view sees. -/
lemma Inv.covers (hinv : Inv e h ReadView.sees P) (hc : e.core txn = some c) {old : Version} {tid : Tid}
    (hold : e.leafAt loc = some old) (hok : e.txns.admitWrite txn old.header tid = .ok ()) :
    h.Covers txn loc := by
  obtain ⟨-, hlive, hunseen⟩ := TxnDomain.admitWrite_ok hok
  have hsees : c.pinned.sees old.header.xmin = true := by
    rw [e.unseenBy_of_core hc] at hunseen
    simpa using hunseen
  obtain ⟨slots, hstore⟩ := hinv.store
  obtain ⟨older, hvers⟩ := hstore.newest hold hlive
  intro o i k ho hk hw
  have hview := hinv.viewRep_pinned hc ho
  have hbelow := hview.seesBelow hinv loc
  rw [hvers] at hbelow
  have hmem : ∃ b ∈ h.versions loc, b.txn = k.txn := by
    obtain ⟨w, hwmem, hwl⟩ := hw
    refine ⟨⟨k.txn, w.value⟩, mem_append_right _ ?_, rfl⟩
    refine mem_flatMap.mpr ⟨k, mem_reverse.mpr (mem_of_getElem? hk), ?_⟩
    exact mem_map.mpr ⟨w, mem_filter.mpr ⟨hwmem, by simpa using hwl⟩, rfl⟩
  obtain ⟨b, hb, hbk⟩ := hmem
  rw [hvers] at hb
  refine (hview.sees i k hk).mp ?_
  rw [← hbk]
  rcases mem_cons.mp hb with rfl | hb
  · exact hsees
  · exact (pairwise_cons.mp hbelow).1 b hb hsees

lemma Engine.pendAt_push (hc : e.core txn = some c) (hop : op.rowOf = some loc)
    (hcore : e'.core = Function.update e.core txn (some { c with undo := op :: c.undo })) :
    ∀ t l, e'.pendAt t l =
      if t = txn ∧ l = loc then op :: e.pendAt txn loc else e.pendAt t l := by
  intro t l
  rw [pendAt_update hcore]
  by_cases ht : t = txn
  · subst ht
    rw [if_pos rfl, pendAt_of_core hc, pendAt_of_core hc]
    by_cases hl : l = loc
    · rw [if_pos ⟨rfl, hl⟩, hl, opsAt_cons_self hop]
    · rw [if_neg (fun hh => hl hh.2),
        opsAt_cons_other (by rw [hop]; exact fun hh => hl (Option.some.inj hh).symm)]
  · rw [if_neg ht, if_neg (fun hh => ht hh.1)]

include hinv hc ho hgids in
/-- **A row write**: one undo entry and one version more, both for the same row. -/
theorem Inv.write {w : Write} (hop : op.rowOf = some w.loc)
    (hm : e.CoreMove txn { c with undo := op :: c.undo } e')
    (hsole : h.Sole txn w.loc)
    (hbase : ∀ i k, h.commits[i]? = some k → Writes k.writes w.loc → i < o.snap)
    (hstored : e'.Stored P (h.write txn w))
    (hrow : ∀ table n', e'.nextRow table = some n' →
      ∃ n, e.nextRow table = some n ∧ n ≤ n' ∧ (w.loc.1 = table → w.loc.2 < n')) :
    Inv e' (h.write txn w) S P := by
  have hr := hinv.txn txn c o hc ho
  refine hinv.modifyCore hc ho hgids _ hm rfl rfl ?_ hstored ?_
  · refine ⟨hr.level, hr.undo.push (show [op].filterMap rowOf = [w].map Write.loc from ?_), hr.own,
      hr.snapLe, hr.sees, ?_⟩
    · rw [filterMap_cons_some hop]
      rfl
    · intro loc hw i k hk hwk
      rcases writes_cons_iff.mp hw with rfl | hw
      · exact hbase i k hk hwk
      · exact hr.base loc hw i k hk hwk
  · intro table n' row hn' hle
    obtain ⟨n, hn, hnn, hlt⟩ := hrow table n' hn'
    rw [show (h.modify txn _).versions = _ from versions_write ho hsole]
    have hne : (table, row) ≠ w.loc := by
      intro heq
      have := hlt (by rw [← heq])
      rw [← heq] at this
      exact absurd this (not_lt.mpr hle)
    rw [update_of_ne hne]
    exact hinv.fresh table n row hn (le_trans hnn hle)

lemma History.modify_eq_self (h : History) {f : OpenTxn → OpenTxn}
    (hf : ∀ o, h.running.get? txn = some o → f o = o) : h.modify txn f = h := by
  have hrun : h.running.modify txn f = h.running := by
    refine OrdMap.ext_get? fun t => ?_
    rw [OrdMap.get?_modify]
    by_cases ht : txn = t
    · subst ht
      rw [if_pos rfl]
      cases ho : h.running.get? txn with
      | none => rfl
      | some o => exact congrArg some (hf o ho)
    · rw [if_neg ht]
  unfold modify
  rw [hrun]

include hinv hc ho hgids in
lemma Inv.modifyMarks (hm : e.CoreMove txn c' e') (hrows : e.RowsStay e')
    (hpinned : c'.pinned = c.pinned) (hprepared : c'.prepared = c.prepared)
    (hwrites : (f o).writes = o.writes) (hops : ∀ loc, opsAt loc c'.undo = opsAt loc c.undo)
    (hrep : TxnRep h txn c' (f o) S) : Inv e' (h.modify txn f) S P := by
  have hvers : (h.modify txn f).versions = h.versions := by
    funext loc
    refine versions_modify_of_eq fun o' ho' => ?_
    rw [ho] at ho'
    obtain rfl := Option.some.inj ho'
    rw [hwrites]
  refine hinv.modifyCore hc ho hgids f hm hpinned hprepared hrep ?_ ?_
  · exact Stored.congr hinv.store hrows.leaf hrows.reclaim (pendAt_keep hc hm.core hops) hvers
  · rw [hrows.nextRow, hvers]
    exact hinv.fresh

include hinv hc hgids in
lemma Inv.pushIndex (hop : op.rowOf = none)
    (hm : e.CoreMove txn { c with undo := op :: c.undo } e') (hrows : e.RowsStay e') :
    Inv e' h S P := by
  obtain ⟨o, ho⟩ := hinv.running_of_core hc
  have hr := hinv.txn txn c o hc ho
  have hnew := hinv.modifyMarks hc ho hgids (fun o => o) hm hrows rfl rfl rfl
    (fun loc => opsAt_cons_other (by rw [hop]; exact nofun))
  rw [h.modify_eq_self fun _ _ => rfl] at hnew
  have hnone : [op].filterMap rowOf = ([] : List Write).map Write.loc := filterMap_cons_none hop
  exact hnew ⟨hr.level, hr.undo.push hnone, hr.own, hr.snapLe, hr.sees, hr.base⟩

end NusaDb
