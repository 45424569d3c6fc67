import NusaDb.Btree.IndexScan
import NusaDb.Stream.Scan

/-!
# A view held while others go on

`Held e h txn view writes past` is what a view of the open transaction `txn` rests on: it sees the
commits in `past` and `txn`'s own `writes`, and purge goes only by transactions that its pin sees
(`Held.inv`), so that rows are kept for it. What the view reads of a row is then fixed
(`Held.visibleAt_eq`). Calls that do not change what `txn` has written keep it (`Held.step`).
-/

namespace NusaDb

open List History

open History (Ver)
open ReadView

/-- The transaction whose rows, entries or end a call is about; `gids` names the prepared ones. -/
def Op.changes (gids : OrdMap String TxnId) : Op → Option TxnId
  | .insert txn _ _ => some txn
  | .insertBatch txn _ _ => some txn
  | .update txn _ _ _ => some txn
  | .delete txn _ _ => some txn
  | .indexInsert txn _ _ _ => some txn
  | .indexInsertBatch txn _ _ => some txn
  | .indexDelete txn _ _ _ => some txn
  | .rollbackTo txn _ => some txn
  | .commit txn => some txn
  | .rollback txn => some txn
  | .prepareTxn txn _ _ _ => some txn
  | .finishPrepared gid _ _ => gids.get? gid
  | _ => none

def Engine.visibleAt (e : Engine) (view : ReadView) (loc : Loc) : Option Tuple :=
  (e.leafAt loc).bind fun leaf => visibleTuple leaf e.reclaim.arena view

def DeadFor (view : ReadView) (h : History) (loc : Loc) : Prop :=
  ∃ t older, h.versions loc = ⟨t, none⟩ :: older ∧ view.pin.sees t = true

structure Held (e : Engine) (h : History) (txn : TxnId) (view : ReadView) (writes : List Write)
    (past : List Committed) : Prop where
  running : ∃ o, h.running.get? txn = some o ∧ o.writes = writes
  covers : past <+: h.commits
  own : view.own = txn
  reserved : view.sees noXmax = true
  later : ∀ x, e.txns.nextTxnId ≤ x → view.sees x = false
  others : ∀ t ∈ e.txns.active, t ≠ txn → view.sees t = false
  sees : ∀ i k, h.commits[i]? = some k → (view.sees k.txn = true ↔ i < past.length)
  base : ∀ loc, Writes writes loc → ∀ i k, h.commits[i]? = some k → Writes k.writes loc →
    i < past.length
  inv : Inv e h ReadView.sees fun x => view.pin.sees x = true
  rows : ∀ id p, e.passes.get? id = some p → p.phase.RowsIn (DeadFor view h)

variable {e e' : Engine} {h h' : History} {txn : TxnId} {view : ReadView} {writes : List Write}
  {past : List Committed} {op : Op} {out : Outcome} {loc : Loc}

/-- A call of another transaction leaves this one's writes alone. -/
lemma History.running_record_other {o : OpenTxn} (ho : h.running.get? txn = some o)
    (hne : op.changes h.gids ≠ some txn)
    (hbegin : ∀ level, op = .begin level → out ≠ .ok (.txn txn)) :
    ∃ o', (h.record (op, out)).running.get? txn = some o' ∧ o'.writes = o.writes := by
  have hother : ∀ {t : TxnId}, op.changes h.gids = some t → t ≠ txn := fun ht hn => hne (hn ▸ ht)
  have hsame : ∀ g : History, g.running.get? txn = h.running.get? txn →
      ∃ o', g.running.get? txn = some o' ∧ o'.writes = o.writes :=
    fun g hg => ⟨o, hg.trans ho, rfl⟩
  have hmodify : ∀ (t : TxnId) (f : OpenTxn → OpenTxn), t ≠ txn ∨ (∀ o, (f o).writes = o.writes) →
      ∃ o', (h.modify t f).running.get? txn = some o' ∧ o'.writes = o.writes := by
    intro t f hf
    rw [running_modify]
    split
    · rename_i ht
      rw [ht, ho]
      exact ⟨f o, rfl, hf.resolve_left (fun hn => hn ht) o⟩
    · exact ⟨o, ho, rfl⟩
  have hdrop : ∀ (g : History) (t : TxnId), g.running = h.running → t ≠ txn →
      (g.drop t).running.get? txn = h.running.get? txn := by
    intro g t hg ht
    show (g.running.erase t).get? txn = _
    rw [hg, OrdMap.get?_erase, if_neg ht]
  have hcommit : ∀ (g : History) (t : TxnId), g.running = h.running → t ≠ txn →
      (g.commit t).running.get? txn = h.running.get? txn := by
    intro g t hg ht
    unfold commit
    split
    · rw [hg]
    · exact hdrop g t hg ht
  unfold record
  generalize hp : (op, out) = p
  split
  case h_1 level id =>
    cases hp
    refine hsame _ ?_
    rw [OrdMap.get?_insert, if_neg]
    rintro rfl
    exact hbegin level rfl rfl
  case h_2 =>
    refine hmodify _ _ (.inr fun o => ?_)
    split
    · rfl
    · rfl
  case h_3 => cases hp; exact hmodify _ _ (.inl (hother rfl))
  case h_4 t table tuples tids =>
    cases hp
    refine hsame _ ?_
    generalize tids.zip tuples = rows
    have hrows : ∀ (rows : List (Tid × Tuple)) (g : History),
        (rows.foldl (fun h p => h.write t ⟨(table, rowIdOf p.1), some p.2⟩) g).running.get? txn =
          g.running.get? txn := by
      intro rows
      induction rows with
      | nil => exact fun g => rfl
      | cons p rows ih =>
        intro g
        refine (ih _).trans ?_
        unfold write
        rw [running_modify, if_neg (hother rfl)]
    exact hrows rows h
  case h_5 => cases hp; exact hmodify _ _ (.inl (hother rfl))
  case h_6 => cases hp; exact hmodify _ _ (.inl (hother rfl))
  case h_7 => exact hmodify _ _ (.inr fun _ => rfl)
  case h_8 => cases hp; exact hmodify _ _ (.inl (hother rfl))
  case h_9 => exact hmodify _ _ (.inr fun _ => rfl)
  case h_10 => cases hp; exact hsame _ (hcommit h _ rfl (hother rfl))
  case h_11 => cases hp; exact hsame _ (hdrop h _ rfl (hother rfl))
  case h_12 => cases hp; exact hsame _ (hdrop h _ rfl (hother rfl))
  case h_13 => exact hsame _ rfl
  case h_14 =>
    cases hp
    split
    · exact hsame _ rfl
    · exact hsame _ (hdrop h _ rfl (hother rfl))
  case h_15 gid owner finish v =>
    cases hp
    split
    · exact hsame _ rfl
    rename_i t hgid
    have ht : t ≠ txn := hother hgid
    split
    · exact hsame _ (hcommit _ t rfl ht)
    · exact hsame _ (hdrop _ t rfl ht)
  case h_16 => exact hsame _ rfl

lemma History.changes_of_committer {t : TxnId} (hc : h.committer op = some t) :
    op.changes h.gids = some t := by
  unfold committer at hc
  split at hc
  · exact hc
  · exact hc
  · cases hc

lemma ReadView.pin_sees_iff {x : TxnId} :
    view.pin.sees x = true ↔ x = noXmax ∨ (x < view.horizon ∧ x ≠ view.own ∧ x ∉ view.active) := by
  rw [sees_iff]
  show _ ∨ (_ ∧ x ∉ view.own :: view.active) ↔ _
  rw [mem_cons, not_or]
  rfl

variable (hh : Held e h txn view writes past)

include hh

lemma Held.sees_of_pin {x : TxnId} (hx : view.pin.sees x = true) : view.sees x = true := by
  rcases pin_sees_iff.mp hx with rfl | ⟨hlt, -, hnot⟩
  · exact hh.reserved
  · exact sees_iff.mpr (.inr ⟨hlt, hnot⟩)

lemma Held.readsAt {o : OpenTxn} (ho : h.running.get? txn = some o) (howrites : o.writes = writes)
    (loc : Loc) :
    ReadsAt h txn o view past.length loc where
  running := ho
  own := sees_iff.mpr (.inl hh.own.symm)
  sees := hh.sees
  others t o' ht hne := by
    refine hh.others t ?_ hne
    rw [hh.inv.active, hh.inv.running, ht]
    rfl
  base hw := hh.base loc (howrites ▸ hw)
  sole t o' ht hw := hh.inv.sole ht hw

lemma Held.visibleAt_versions (loc : Loc) :
    e.visibleAt view loc = readVers view (h.versions loc) := by
  obtain ⟨o, ho, howrites⟩ := hh.running
  obtain ⟨slots, hstore⟩ := hh.inv.store
  have hrow := hstore.row loc
  unfold Engine.visibleAt
  cases hl : e.leafAt loc with
  | none =>
    rw [hl] at hrow
    exact (hrow.readVers_none fun x hx => hh.sees_of_pin hx).symm
  | some leaf =>
    rw [hl] at hrow
    exact hrow.visibleTuple_eq (fun x hx => hh.sees_of_pin hx)
      (hh.readsAt ho howrites loc).seesBelow (hstore.owned.nodup loc)

/-- **What the view reads of a row** is fixed by the transaction's writes and the commits it saw. -/
theorem Held.visibleAt_eq (loc : Loc) :
    e.visibleAt view loc =
      (lastWrite writes loc).getD (committedValue past loc) := by
  obtain ⟨o, ho, howrites⟩ := hh.running
  have hpast := (prefix_iff_eq_take.mp hh.covers).symm
  rw [hh.visibleAt_versions, (hh.readsAt ho howrites loc).readVers_versions, howrites, hpast]

lemma Held.visibleAt_dead (hd : DeadFor view h loc) : e.visibleAt view loc = none := by
  obtain ⟨t, older, hvers, hsees⟩ := hd
  rw [hh.visibleAt_versions, hvers]
  simp [readVers, hh.sees_of_pin hsees]

omit hh

variable (hinv : Inv e h)

include hinv

lemma Inv.pin_sees {c : TxnCore} (hc : e.core txn = some c) {x : TxnId} (hx : e.Settled x) :
    c.pinned.pin.sees x = true := by
  obtain ⟨o, ho⟩ := hinv.running_of_core hc
  have hown := (hinv.txn txn c o hc ho).own
  have hne : x ≠ c.pinned.own := by
    intro heq
    refine hx.2.1 ?_
    rw [heq, hown, hinv.active, hc]
    rfl
  refine pin_sees_iff.mpr (.inr ?_)
  rcases sees_iff.mp (hx.2.2 txn _ (e.viewOf_of_core hc)) with heq | ⟨hlt, hnot⟩
  · exact absurd heq hne
  · exact ⟨hlt, hne, hnot⟩

/-- What the pin of an open view sees has ended: the view sees no other open transaction, and a pin
does not see its own. -/
lemma Inv.pin_ended {c : TxnCore} (hc : e.core txn = some c) {x : TxnId}
    (hx : c.pinned.pin.sees x = true) : e.Ended x := by
  obtain ⟨o, ho⟩ := hinv.running_of_core hc
  have hown := (hinv.txn txn c o hc ho).own
  rcases pin_sees_iff.mp hx with rfl | ⟨hlt, hne, hnot⟩
  · exact ⟨hinv.nextPos, fun hmem => lt_irrefl _ (hinv.activeRange _ hmem).1⟩
  have hsees := sees_iff.mpr (.inr ⟨hlt, hnot⟩)
  refine ⟨not_le.mp fun hge => ?_, fun hmem => ?_⟩
  · rw [hinv.later txn c x hc hge] at hsees
    cases hsees
  · rw [hinv.unseen txn c x hc hmem fun heq => hne (heq.trans hown.symm)] at hsees
    cases hsees

/-- **The view of an open transaction can be held**, from now on. -/
theorem Inv.held (hok : e.PassesOk h) (hzero : e.Settled noXmax) {c : TxnCore} {o : OpenTxn}
    (hc : e.core txn = some c) (ho : h.running.get? txn = some o) :
    Held e h txn c.pinned o.writes (h.commits.take o.snap) := by
  have hr := hinv.txn txn c o hc ho
  have hlen : (h.commits.take o.snap).length = o.snap := by
    rw [length_take]
    exact Nat.min_eq_left hr.snapLe
  refine ⟨⟨o, ho, rfl⟩, take_prefix _ _, hr.own, hzero.2.2 txn _ (e.viewOf_of_core hc), ?_, ?_, ?_,
    ?_, ?_, ?_⟩
  · exact fun x hx => hinv.later txn c x hc hx
  · exact fun t ht hne => hinv.unseen txn c t hc ht hne
  · rw [hlen]
    exact hr.sees
  · rw [hlen]
    exact hr.base
  · exact hinv.widen (fun x hx => hinv.pin_sees hc hx) fun x hx => hinv.pin_ended hc hx
  · intro id p hp table rows indexes hremoved row hrow
    obtain ⟨t, older, hvers, hset⟩ := (hok id p hp table rows indexes hremoved).1 row hrow
    exact ⟨t, older, hvers, hinv.pin_sees hc hset⟩

omit hinv

variable (hh : Held e h txn view writes past)

include hh

lemma Held.commits_record (hne : op.changes h.gids ≠ some txn) :
    past <+: (h.record (op, out)).commits ∧
      (∀ i k, (h.record (op, out)).commits[i]? = some k →
        (view.sees k.txn = true ↔ i < past.length)) ∧
      ∀ loc, Writes writes loc → ∀ i k, (h.record (op, out)).commits[i]? = some k →
        Writes k.writes loc → i < past.length := by
  rcases h.commits_record op out with hsame | ⟨t, p, v, hcommitter, -, hp, hnew⟩
  · rw [hsame]
    exact ⟨hh.covers, hh.sees, hh.base⟩
  have ht : t ≠ txn := by
    rintro rfl
    exact hne (changes_of_committer hcommitter)
  have hactive : t ∈ e.txns.active := by
    rw [hh.inv.active, hh.inv.running, hp]
    rfl
  have hlast : past.length ≤ h.commits.length := hh.covers.length_le
  rw [hnew]
  refine ⟨hh.covers.trans (prefix_append _ _), ?_, ?_⟩
  · intro i k hi
    rw [getElem?_append] at hi
    split at hi
    · exact hh.sees i k hi
    rename_i hlen
    obtain rfl := mem_singleton.mp (mem_of_getElem? hi)
    rw [hh.others t hactive ht]
    exact ⟨fun hf => absurd hf Bool.false_ne_true, fun hlt =>
      absurd (lt_of_lt_of_le hlt hlast) hlen⟩
  · intro loc hw i k hi hwk
    rw [getElem?_append] at hi
    split at hi
    · exact hh.base loc hw i k hi hwk
    -- both have written the row, and both are open
    obtain rfl := mem_singleton.mp (mem_of_getElem? hi)
    obtain ⟨o, ho, rfl⟩ := hh.running
    exact absurd (hh.inv.writer hp ho hwk hw) ht

omit hh in
lemma DeadFor.record (hd : DeadFor view h loc) (hdead : e.Dead h loc) (hinv : Inv e h) (op : Op) :
    DeadFor view (h.record (op, (e.step op).2)) loc := by
  obtain ⟨t, older, hvers, hsees⟩ := hd
  exact ⟨t, older, (hdead.versions_step hinv op).trans hvers, hsees⟩

lemma Held.deadFor_of_removes {s : PurgeSnapshot}
    (hs : ∀ x, s.settled x = true → view.pin.sees x = true) {v : Version}
    (hv : e.leafAt loc = some v) (hremoves : Engine.purgeRemoves s.settled v.header = true) :
    DeadFor view h loc := by
  unfold Engine.purgeRemoves at hremoves
  rw [Bool.and_eq_true, bne_iff_ne] at hremoves
  obtain ⟨slots, hstore⟩ := hh.inv.store
  have hrow := hstore.row loc
  rw [hv] at hrow
  obtain ⟨older, hvers⟩ := hrow.vers_of_some
  rw [if_neg hremoves.1] at hvers
  exact ⟨v.header.xmax, _, hvers, hs _ hremoves.2⟩

/-- **A call about other transactions keeps the view held.** The start of a pass is apart: its
snapshot has to take the pin along. -/
theorem Held.step (hinv : Inv e h) (hok : e.PassesOk h)
    (hne : op.changes e.txns.preparedGids ≠ some txn) (hstart : op ≠ .purgeStart) :
    Held (e.step op).1 (h.record (op, (e.step op).2)) txn view writes past := by
  rw [← hinv.gids] at hne
  obtain ⟨hpast, hsees, hbase⟩ :
      past <+: (h.record (op, (e.step op).2)).commits ∧ _ := hh.commits_record hne
  have hrunning : ∃ o, (h.record (op, (e.step op).2)).running.get? txn = some o ∧
      o.writes = writes := by
    obtain ⟨o, ho, rfl⟩ := hh.running
    refine running_record_other ho hne ?_
    rintro level rfl hout
    have hnext := Value.txn.inj (Except.ok.inj hout)
    obtain ⟨hcore, hrun⟩ := hinv.next_none
    rw [hnext, ho] at hrun
    cases hrun
  obtain ⟨hnext, hactive⟩ := e.ids_step op
  refine ⟨hrunning, hpast, hh.own, hh.reserved, fun x hx => hh.later x (le_trans hnext hx),
    fun t ht htxn => ?_, hsees, hbase, hh.inv.keep hstart, ?_⟩
  · rcases hactive t ht with hold | hnew
    · exact hh.others t hold htxn
    · exact hh.later t hnew
  cases hop : op.isPurge with
  | false =>
    intro id p hp
    rw [(e.frame_step op hop).passes] at hp
    intro table rows indexes hremoved row hrow
    exact (hh.rows id p hp table rows indexes hremoved row hrow).record
      ((hok id p hp table rows indexes hremoved).1 row hrow) hinv op
  | true =>
    cases op with
    | purgeStart => exact absurd rfl hstart
    | purgeStep pass pressure =>
      refine Engine.purgeStep_passes pass pressure hh.rows fun p e' phase hp hmove => ?_
      exact hmove.rowsIn (fun loc v hv hr =>
        hh.deadFor_of_removes (fun x => hh.inv.passes pass p x hp) hv hr) (hh.rows pass p hp) phase rfl
    | _ => cases hop

lemma Held.startPass {p : PurgePass}
    (hp : ∀ x, p.snapshot.settled x = true → view.pin.sees x = true)
    (hremoved : p.phase.removed = none) (id next : Nat) :
    Held { e with passes := e.passes.insert id p, nextPass := next } h txn view writes past := by
  refine ⟨hh.running, hh.covers, hh.own, hh.reserved, hh.later, hh.others, hh.sees, hh.base,
    hh.inv.startPass hp _ _, ?_⟩
  intro id' q hq
  rw [OrdMap.get?_insert] at hq
  split at hq
  · cases hq
    intro table rows indexes hrem
    rw [hremoved] at hrem
    cases hrem
  · exact hh.rows id' q hq

end NusaDb
