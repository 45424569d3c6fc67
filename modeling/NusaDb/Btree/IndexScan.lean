import NusaDb.Btree.KeySteps
import NusaDb.Btree.Snapshot

/-!
# Index scans agree with table scans
-/

namespace NusaDb

open List Option Engine History

open History (Ver)
open IndexData

/-- Every version these writes leave has its key among the key events, as the row's last. -/
def Keyed (table : TableId) (index : IndexId) (keyOf : Tuple → Key) (rows keys : List Write) : Prop :=
  ∀ w ∈ rows, w.loc.1 = table → ∀ tuple ∈ (History.lastWrite rows w.loc).join,
    History.lastWrite keys (index, w.loc.2) = some (some (keyOf tuple))

instance (table : TableId) (index : IndexId) (keyOf : Tuple → Key) (rows keys : List Write) :
    Decidable (Keyed table index keyOf rows keys) := by
  unfold Keyed
  infer_instance

/-- The versions an open transaction has written have their keys entered. -/
def History.KeysCurrent (table : TableId) (index : IndexId) (keyOf : Tuple → Key) (h k : History)
    (txn : TxnId) : Prop :=
  ∀ o ∈ h.running.get? txn, ∀ ko ∈ k.running.get? txn, Keyed table index keyOf o.writes ko.writes

instance (table : TableId) (index : IndexId) (keyOf : Tuple → Key) (h k : History) (txn : TxnId) :
    Decidable (h.KeysCurrent table index keyOf k txn) := by
  unfold History.KeysCurrent
  infer_instance

instance (tab : IndexId → Option TableId) (index : IndexId) (rows keys : List Write) :
    Decidable (Covers tab (· = index) rows keys) :=
  decidable_of_iff
    (∀ w ∈ keys, w.loc.1 = index → ∃ table ∈ tab w.loc.1, ∃ w' ∈ rows, w'.loc = (table, w.loc.2))
    Iff.rfl

instance (index : IndexId) (e : Engine) (h : History) (op : Op) :
    Decidable (e.CoversKeys (· = index) h op) :=
  decidable_of_iff
    (∀ p ∈ e.keyEvents op, ∀ o ∈ h.running.get? p.1, Covers e.indexTable (· = index) o.writes p.2)
    ⟨fun hc txn ws hev o ho => hc (txn, ws) hev o ho, fun hc p hp o ho => hc p.1 p.2 hp o ho⟩

structure Engine.KeepsKeys (table : TableId) (index : IndexId) (keyOf : Tuple → Key) (e : Engine)
    (h k : History) (op : Op) : Prop where
  /-- It touches entries only of rows its transaction has written. -/
  covers : e.CoversKeys (· = index) h op
  /-- A transaction that commits has entered the keys of its versions. -/
  current : ∀ txn ∈ h.committer op, (e.step op).2.isOk = true → h.KeysCurrent table index keyOf k txn

instance (table : TableId) (index : IndexId) (keyOf : Tuple → Key) (e : Engine) (h k : History)
    (op : Op) : Decidable (e.KeepsKeys table index keyOf h k op) :=
  decidable_of_iff
    (e.CoversKeys (· = index) h op ∧ ∀ txn ∈ h.committer op, (e.step op).2.isOk = true →
      h.KeysCurrent table index keyOf k txn)
    ⟨fun hc => ⟨hc.1, hc.2⟩, fun hc => ⟨hc.1, hc.2⟩⟩

def Engine.KeepsKeysAll (table : TableId) (index : IndexId) (keyOf : Tuple → Key) :
    Engine → History → History → List Op → Prop
  | _, _, _, [] => True
  | e, h, k, op :: ops =>
    e.KeepsKeys table index keyOf h k op ∧
      (e.step op).1.KeepsKeysAll table index keyOf (h.record (op, (e.step op).2)) (k.recordKeys e op)
        ops

instance decidableKeepsKeysAll (table : TableId) (index : IndexId) (keyOf : Tuple → Key) :
    (e : Engine) → (h k : History) → (ops : List Op) →
      Decidable (e.KeepsKeysAll table index keyOf h k ops)
  | _, _, _, [] => inferInstanceAs (Decidable True)
  | e, h, k, op :: ops =>
    have := decidableKeepsKeysAll table index keyOf (e.step op).1 (h.record (op, (e.step op).2))
      (k.recordKeys e op) ops
    inferInstanceAs (Decidable (_ ∧ _))

def Op.deletesFrom (index : IndexId) : Op → Bool
  | .indexDelete _ index' _ _ => index' == index
  | _ => false

/-! ## No entry taken out by hand -/

/-- Every write in the history, of open transactions and committed ones, with its writer. -/
structure History.AllWrites (P : TxnId → Write → Prop) (h : History) : Prop where
  commits : ∀ c ∈ h.commits, ∀ w ∈ c.writes, P c.txn w
  running : ∀ t o, h.running.get? t = some o → ∀ w ∈ o.writes, P t w

section

variable {P : TxnId → Write → Prop} {h k : History} {txn : TxnId} (hall : h.AllWrites P)

include hall

lemma History.AllWrites.modify {f : OpenTxn → OpenTxn}
    (hf : ∀ o, h.running.get? txn = some o → ∀ w ∈ (f o).writes, w ∈ o.writes ∨ P txn w) :
    (h.modify txn f).AllWrites P := by
  refine ⟨hall.commits, fun t o ho w hw => ?_⟩
  rw [running_modify] at ho
  split at ho
  case isTrue htxn =>
    subst htxn
    obtain ⟨o0, ho0, rfl⟩ := map_eq_some_iff.mp ho
    rcases hf o0 ho0 w hw with hold | hP
    · exact hall.running txn o0 ho0 w hold
    · exact hP
  case isFalse => exact hall.running t o ho w hw

lemma History.AllWrites.write {w : Write} (hw : P txn w) : (h.write txn w).AllWrites P := by
  refine hall.modify fun o _ w' hw' => ?_
  rcases mem_cons.mp hw' with rfl | hold
  · exact .inr hw
  · exact .inl hold

lemma History.AllWrites.writeAll {ws : List Write} (hws : ∀ w ∈ ws, P txn w) :
    (h.writeAll txn ws).AllWrites P := by
  induction ws generalizing h with
  | nil => exact hall
  | cons w ws ih =>
    exact ih (hall.write (hws w mem_cons_self)) fun w' hw' => hws w' (mem_cons_of_mem _ hw')

lemma History.AllWrites.drop (txn : TxnId) : (h.drop txn).AllWrites P := by
  refine ⟨hall.commits, fun t o ho => ?_⟩
  change (h.running.erase txn).get? t = some o at ho
  rw [OrdMap.get?_erase] at ho
  split at ho
  case isTrue => cases ho
  case isFalse => exact hall.running t o ho

lemma History.AllWrites.commit (txn : TxnId) : (h.commit txn).AllWrites P := by
  unfold History.commit
  split
  case h_1 => exact hall
  case h_2 o ho =>
    refine ⟨fun c hc => ?_, (hall.drop txn).running⟩
    rcases mem_append.mp hc with hold | hnew
    · exact hall.commits c hold
    · rw [mem_singleton.mp hnew]
      exact hall.running txn o ho

/-- Calls that write no row give a history no new writes. -/
lemma History.AllWrites.record {op : Op} (hop : op.writesRows = false) (out : Outcome) :
    (h.record (op, out)).AllWrites P := by
  unfold History.record
  generalize hp : (op, out) = p
  split
  case h_1 level id =>
    refine ⟨hall.commits, fun t o ho w hw => ?_⟩
    rw [OrdMap.get?_insert] at ho
    split at ho
    case isTrue =>
      cases ho
      exact nomatch hw
    case isFalse => exact hall.running t o ho w hw
  case h_2 =>
    refine hall.modify fun o _ w hw => .inl ?_
    split at hw
    · exact hw
    · exact hw
  case h_3 => cases hp; cases hop
  case h_4 => cases hp; cases hop
  case h_5 => cases hp; cases hop
  case h_6 => cases hp; cases hop
  case h_7 => exact hall.modify fun o _ w hw => .inl hw
  case h_8 =>
    refine hall.modify fun o _ w hw => .inl ?_
    split at hw
    · exact hw
    · exact (drop_sublist ..).subset hw
  case h_9 => exact hall.modify fun o _ w hw => .inl hw
  case h_10 => exact hall.commit _
  case h_11 => exact hall.drop _
  case h_12 => exact hall.drop _
  case h_13 => exact ⟨hall.commits, hall.running⟩
  case h_14 =>
    split
    · exact hall
    · exact hall.drop _
  case h_15 gid owner finish v =>
    split
    · exact hall
    have herased : AllWrites P { h with gids := h.gids.erase gid } :=
      ⟨hall.commits, hall.running⟩
    split
    · exact herased.commit _
    · exact herased.drop _
  case h_16 => exact hall

end

/-! ## What a run keeps -/

variable {table : TableId} {index : IndexId} {keyOf : Tuple → Key} {e : Engine} {h k : History}
  {txn : TxnId}

lemma Keyed.lastWrite {rows keys : List Write} (hk : Keyed table index keyOf rows keys)
    {row : RowId} {tuple : Tuple} (hlast : lastWrite rows (table, row) = some (some tuple)) :
    lastWrite keys (index, row) = some (some (keyOf tuple)) := by
  obtain ⟨w, hw, hloc⟩ := writes_of_lastWrite hlast
  have hkey := hk w hw (by rw [hloc]) tuple (by rw [hloc, hlast]; rfl)
  rwa [hloc] at hkey

structure IndexInv (table : TableId) (index : IndexId) (keyOf : Tuple → Key) (e : Engine)
    (h k : History) : Prop where
  key : KeyInv (· = index) True e h k
  entered : k.AllWrites fun _ w => w.loc.1 = index → w.value.isSome = true
  keyed : List.Forall₂ (fun hc kc => Keyed table index keyOf hc.writes kc.writes) h.commits k.commits

lemma Engine.enteredEach_spec (e : Engine) (txn : TxnId) (index : IndexId)
    (entries : List (Key × Tid)) : ∀ w ∈ e.enteredEach txn index entries, w.value.isSome = true := by
  induction entries generalizing e with
  | nil => exact fun _ hw => nomatch hw
  | cons entry rest ih =>
    unfold enteredEach
    split
    case h_1 => exact fun _ hw => nomatch hw
    case h_2 e' hins =>
      intro w hw
      rcases mem_cons.mp hw with rfl | hold
      · rfl
      · exact ih e' w hold

lemma Engine.keyEvents_isSome {op : Op} (hno : op.deletesFrom index = false) {ws : List Write}
    (hev : e.keyEvents op = some (txn, ws)) : ∀ w ∈ ws, w.loc.1 = index → w.value.isSome = true := by
  intro w hw hix
  cases op with
  | indexInsert | indexInsertBatch =>
    cases hev
    exact e.enteredEach_spec _ _ _ w hw
  | indexDelete txn' index' key tid =>
    cases hev
    split at hw
    case isTrue =>
      obtain rfl := mem_singleton.mp hw
      exact absurd hix (by simpa [Op.deletesFrom] using hno)
    case isFalse => exact nomatch hw
  | _ => cases hev

lemma History.commits_writeAll (k : History) (txn : TxnId) (ws : List Write) :
    (k.writeAll txn ws).commits = k.commits := by
  induction ws generalizing k with
  | nil => rfl
  | cons w ws ih => exact ih (k.write txn w)

lemma History.commits_recordKeys (k : History) (e : Engine) (op : Op) :
    (k.recordKeys e op).commits = k.commits ∨
      ∃ t ko v, k.committer op = some t ∧ (e.step op).2 = .ok v ∧ k.running.get? t = some ko ∧
        (k.recordKeys e op).commits = k.commits ++ [⟨t, ko.level, ko.snap, ko.writes⟩] := by
  unfold recordKeys
  split
  case h_1 txn ws _ => exact .inl (k.commits_writeAll txn ws)
  split
  case isTrue => exact .inl rfl
  case isFalse => exact k.commits_record op _

lemma History.committer_congr (hgids : k.gids = h.gids) (op : Op) :
    k.committer op = h.committer op := by
  unfold committer
  rw [hgids]

lemma IndexInv.init (hf : e.Fresh) : IndexInv table index keyOf e .init .init :=
  ⟨.init hf, ⟨fun _ hc => (nomatch hc), fun _ _ ho => (nomatch ho)⟩, .nil⟩

variable (hidx : IndexInv table index keyOf e h k)

include hidx

/-- **Every call that keeps the index keeps the agreement.** -/
theorem IndexInv.step (hinv : Inv e h) (hok : e.PassesOk h) {op : Op}
    (hkeeps : e.KeepsKeys table index keyOf h k op) (hno : op.deletesFrom index = false) :
    IndexInv table index keyOf (e.step op).1 (h.record (op, (e.step op).2)) (k.recordKeys e op) := by
  have hkey := hidx.key.step hinv hok op hkeeps.covers fun _ => trivial
  refine ⟨hkey, ?_, ?_⟩
  · unfold recordKeys
    split
    case h_1 txn ws hev => exact hidx.entered.writeAll (keyEvents_isSome hno hev)
    split
    case isTrue => exact hidx.entered
    case isFalse hrows =>
      exact hidx.entered.record (Bool.not_eq_true _ ▸ hrows) _
  · -- the two histories commit together
    have hlen := hidx.keyed.length_eq
    have hlen' := hkey.cover.commits.length_eq
    rcases h.commits_record op (e.step op).2 with hsame | ⟨t, o, v, hcom, hout, ho, hnew⟩
    · rcases k.commits_recordKeys e op with hsame' | ⟨t', ko, v', -, -, -, hnew'⟩
      · rw [hsame, hsame']
        exact hidx.keyed
      · rw [hsame, hnew', length_append, length_singleton] at hlen'
        omega
    rcases k.commits_recordKeys e op with hsame' | ⟨t', ko, v', hcom', -, hko, hnew'⟩
    · rw [hnew, hsame', length_append, length_singleton] at hlen'
      omega
    rw [committer_congr hidx.key.cover.gids, hcom] at hcom'
    cases hcom'
    rw [hnew, hnew']
    have hcurrent := hkeeps.current t hcom (by rw [hout]; rfl)
    exact rel_append hidx.keyed (.cons (hcurrent o ho ko hko) .nil)

lemma IndexInv.run (hinv : Inv e h) (hok : e.PassesOk h) (ops : List Op)
    (hkeeps : e.KeepsKeysAll table index keyOf h k ops)
    (hno : ∀ op ∈ ops, op.deletesFrom index = false) :
    IndexInv table index keyOf (e.run ops).1 ((e.run ops).2.foldl record h)
      (e.keyHistory k ops) := by
  induction ops generalizing e h k with
  | nil => exact hidx
  | cons op ops ih =>
    have hstep := hidx.step hinv hok hkeeps.1 (hno op mem_cons_self)
    exact ih hstep (hinv.step op) (hok.step hinv op) hkeeps.2
      fun op' hop' => hno op' (mem_cons_of_mem _ hop')

/-! ## Reading through an index -/

omit hidx in
lemma committedValue_keyed (htab : e.indexTable index = some table) {hs ks : List Committed}
    (hkeyed : Forall₂ (fun hc kc => Keyed table index keyOf hc.writes kc.writes) hs ks)
    (hcover : Forall₂
      (fun hc kc => hc.txn = kc.txn ∧ Covers e.indexTable (· = index) hc.writes kc.writes) hs ks)
    {row : RowId} {tuple : Tuple} (hval : committedValue hs (table, row) = some tuple) :
    committedValue ks (index, row) = some (keyOf tuple) := by
  have hkeyed' := forall₂_reverse_iff.mpr hkeyed
  have hcover' := forall₂_reverse_iff.mpr hcover
  unfold committedValue at hval ⊢
  -- newest commit first
  generalize hs.reverse = rs at hkeyed' hcover' hval
  generalize ks.reverse = rk at hkeyed' hcover'
  induction hkeyed' with
  | nil => cases hval
  | @cons hc kc rs rk hfirst _ ih =>
    cases hcover' with
    | cons hcfirst hcrest =>
      rw [findSome?_cons] at hval ⊢
      cases hlast : lastWrite hc.writes (table, row) with
      | some v =>
        rw [hlast] at hval
        cases v with
        | none => cases hval
        | some tuple' =>
          obtain rfl : tuple' = tuple := some.inj hval
          rw [hfirst.lastWrite hlast]
          rfl
      | none =>
        rw [hlast] at hval
        have hnone : lastWrite kc.writes (index, row) = none :=
          lastWrite_eq_none (hcfirst.2.not_writes rfl htab (not_writes_of_lastWrite hlast))
        rw [hnone]
        exact ih hval hcrest

lemma IndexInv.key_of_visible (htab : e.indexTable index = some table) {o ko : OpenTxn}
    (ho : h.running.get? txn = some o) (hko : k.running.get? txn = some ko)
    (hown : h.KeysCurrent table index keyOf k txn) {n : Nat} {row : RowId} {tuple : Tuple}
    (hread : (lastWrite o.writes (table, row)).getD
      (committedValue (h.commits.take n) (table, row)) = some tuple) :
    (lastWrite ko.writes (index, row)).getD
      (committedValue (k.commits.take n) (index, row)) = some (keyOf tuple) := by
  cases hlast : lastWrite o.writes (table, row) with
  | some v =>
    rw [hlast, getD_some] at hread
    subst hread
    rw [(hown o ho ko hko).lastWrite hlast]
    rfl
  | none =>
    rw [hlast, getD_none] at hread
    have hitems := (hidx.key.cover.cover txn o ko ho hko).items
    have hnone : lastWrite ko.writes (index, row) = none :=
      lastWrite_eq_none (hitems.not_writes rfl htab (not_writes_of_lastWrite hlast))
    rw [hnone, getD_none]
    exact committedValue_keyed htab (forall₂_take n hidx.keyed)
      (forall₂_take n hidx.key.cover.commits) hread

lemma IndexInv.versions_isSome (row : RowId) :
    ∀ w ∈ k.versions (index, row), w.value.isSome = true := by
  intro w hw
  rcases mem_append.mp hw with hw | hw
  · obtain ⟨ko, hko, hmem⟩ := mem_pending hw
    exact hidx.entered.running w.txn ko hko _ hmem rfl
  · obtain ⟨kc, hkc, -, hmem⟩ := mem_committed hw
    exact hidx.entered.commits kc hkc _ hmem rfl

/-- An entry resolves to a row just where the row is visible with the entry's key. -/
lemma IndexInv.resolve_entry (hinv : Inv e h) {i : IndexState}
    (hi : e.indexes.get? index = some i) (htable : i.table = table) {t : Table}
    (ht : e.tables.get? table = some t) {o : OpenTxn} {view : ReadView} {n : Nat}
    (hv : ViewRep e h txn o view n) (hown : h.KeysCurrent table index keyOf k txn) (p : EntryKey)
    (r : Tid × Tuple) :
    (i.data.entries.get? p).bind (e.entryRow t view p) = some r ↔
      p.key = keyOf r.2 ∧ r ∈ e.visibleRows t view ∧ rowIdOf r.1 = p.row := by
  obtain ⟨tid, tuple⟩ := r
  have htab : e.indexTable index = some table := by
    unfold indexTable
    rw [hi, ← htable]
    rfl
  obtain ⟨ko, hko⟩ := hidx.key.cover.keys_of_running hv.running
  rw [hv.resolve_entry hinv ht, hinv.mem_visibleRows_iff hv ht, ← hv.readVers_versions hinv]
  -- a visible tuple settles which key is visible
  have hvisible : readVers view (h.versions (table, p.row)) = some tuple →
      (entryVisible ((i.data.rowEntries p.row).ranges p.key) view = true ↔
        p.key = keyOf tuple) := by
    intro hread
    have hlive : ¬e.DeadAt h (index, p.row) := by
      rintro ⟨i', hi', x, older, hvers, hset⟩
      obtain rfl : i = i' := some.inj (hi.symm.trans hi')
      rw [htable] at hvers
      rw [hvers, readVers, if_pos (hv.settled x hset)] at hread
      cases hread
    have hkey := hidx.key_of_visible htab hv.running hko hown
      ((hv.readVers_versions hinv (table, p.row)).symm.trans hread)
    have hentry := hidx.key.entryVisible_iff hinv hv rfl hko htab (hidx.versions_isSome p.row) hlive
      (entriesAt_of_index hi p.row) p.key
    rw [hentry, hkey]
    exact ⟨fun h => (some.inj h).symm, fun h => congrArg some h.symm⟩
  constructor
  · intro hfound
    split at hfound
    case isFalse => cases hfound
    case isTrue hentry =>
      obtain ⟨tuple', hread, heq⟩ := map_eq_some_iff.mp hfound
      obtain ⟨rfl, rfl⟩ := Prod.mk.inj heq
      exact ⟨(hvisible hread).mp hentry, ⟨rfl, hread⟩, rfl⟩
  · rintro ⟨hkey, ⟨htid, hread⟩, hrow⟩
    rw [hrow] at hread htid
    rw [if_pos ((hvisible hread).mpr hkey), hread, htid]
    rfl

omit hidx

/-- The rows an index scan returns under a limit: a limit of zero still takes one. -/
def limited (limit : Option Nat) (rows : List (Tid × Tuple)) : List (Tid × Tuple) :=
  match limit with
  | none => rows
  | some cap => rows.take (max cap 1)

/-- Both scans succeed, and the index scan returns the rows whose keys lie in its range, each once
and in the order of the walk. -/
structure ScansAgree (table : TableId) (index : IndexId) (keyOf : Tuple → Key) (e : Engine)
    (txn : TxnId) (lo hi : Bound) (backward : Bool) (scan rows : List (Tid × Tuple)) : Prop where
  tableScan : (e.step (.scan txn table)).2 = .ok (.rows scan)
  indexScan : ∀ limit, (e.step (.indexScan txn index lo hi backward limit)).2 =
    .ok (.rows (limited limit rows))
  sorted : rows.Pairwise fun a b =>
    WalkBefore backward ⟨keyOf a.2, rowIdOf a.1⟩ ⟨keyOf b.2, rowIdOf b.1⟩
  mem : ∀ r, r ∈ rows ↔
    r ∈ scan ∧ lo.admitsFrom (keyOf r.2) = true ∧ hi.admitsTo (keyOf r.2) = true

lemma Engine.indexScan_collects {s : TxnState} (hs : e.txns.txns.get? txn = some s)
    {i : IndexState} (hi : e.indexes.get? index = some i) {t : Table}
    (ht : e.tables.get? i.table = some t) (lo hi' : Bound) (backward : Bool) (limit : Option Nat) :
    (e.step (.indexScan txn index lo hi' backward limit)).2 = .ok (.rows (limited limit
      ((i.data.collect (e.entryRow t s.pinned) lo hi' backward).map Prod.snd))) := by
  have hrows : e.resolveEntries t s.pinned
      (if indexRangeIsEmpty lo hi' then [] else i.data.walkRows lo hi' backward) =
        (i.data.collect (e.entryRow t s.pinned) lo hi' backward).map Prod.snd := by
    split
    case isTrue hempty =>
      have hnil : i.data.collect (e.entryRow t s.pinned) lo hi' backward = [] := by
        refine eq_nil_iff_forall_not_mem.mpr fun q hq => ?_
        exact not_admits_of_empty hempty _ (mem_collect.mp hq).2
      rw [hnil]
      rfl
    case isFalse => exact i.data.filterMap_walkRows (e.entryRow t s.pinned) lo hi' backward
  simp only [step, indexScan, hi, ht, hs, hrows]
  cases limit with
  | none | some => split <;> rfl

/-- With keys current, the index scan returns the table scan's rows in its range. -/
lemma IndexInv.scansAgree (hidx : IndexInv table index keyOf e h k) (hinv : Inv e h)
    (htab : e.indexTable index = some table) (hopen : (h.running.get? txn).isSome)
    (htable : (e.tables.get? table).isSome) (hown : h.KeysCurrent table index keyOf k txn)
    (lo hi : Bound) (backward : Bool) :
    ∃ scan rows, ScansAgree table index keyOf e txn lo hi backward scan rows := by
  obtain ⟨o, ho⟩ := isSome_iff_exists.mp hopen
  obtain ⟨t, ht⟩ := isSome_iff_exists.mp htable
  obtain ⟨i, hi', hitable⟩ := map_eq_some_iff.mp htab
  obtain ⟨c, hc⟩ := hinv.core_of_running ho
  obtain ⟨s, hs, rfl⟩ := map_eq_some_iff.mp hc
  have hv := hinv.viewRep_pinned hc ho
  have hfound : ∀ p r, (i.data.entries.get? p).bind (e.entryRow t s.pinned p) = some r ↔
      p.key = keyOf r.2 ∧ r ∈ e.visibleRows t s.pinned ∧ rowIdOf r.1 = p.row :=
    fun p r => hidx.resolve_entry hinv hi' hitable ht hv hown p r
  refine ⟨e.visibleRows t s.pinned,
    (i.data.collect (e.entryRow t s.pinned) lo hi backward).map Prod.snd, ?_, ?_, ?_, ?_⟩
  · simp only [Engine.step, Engine.scan, ht, hs]
    split <;> rfl
  · exact indexScan_collects hs hi' (hitable ▸ ht) lo hi backward
  · rw [pairwise_map]
    refine (i.data.collect_sorted _ lo hi backward).imp_of_mem ?_
    intro a b ha hb hab
    have hkeyOf : ∀ q ∈ i.data.collect (e.entryRow t s.pinned) lo hi backward,
        (⟨keyOf q.2.2, rowIdOf q.2.1⟩ : EntryKey) = q.1 := by
      intro q hq
      obtain ⟨hkey, -, hrow⟩ := (hfound q.1 q.2).mp (mem_collect.mp hq).1
      rw [← hkey, hrow]
    rw [hkeyOf a ha, hkeyOf b hb]
    exact hab
  · intro r
    rw [List.mem_map]
    constructor
    · rintro ⟨q, hq, rfl⟩
      obtain ⟨hget, hlo, hhi⟩ := mem_collect.mp hq
      obtain ⟨hkey, hmem, -⟩ := (hfound q.1 q.2).mp hget
      exact ⟨hmem, hkey ▸ hlo, hkey ▸ hhi⟩
    · rintro ⟨hmem, hlo, hhi⟩
      refine ⟨(⟨keyOf r.2, rowIdOf r.1⟩, r), ?_, rfl⟩
      exact mem_collect.mpr ⟨(hfound _ r).mpr ⟨rfl, hmem, rfl⟩, hlo, hhi⟩

lemma Engine.indexTable_run (e : Engine) (ops : List Op) : (e.run ops).1.indexTable = e.indexTable := by
  induction ops generalizing e with
  | nil => rfl
  | cons op ops ih => exact (ih _).trans (indexTable_of_sign (e.indexSign_step op))

/-- **Index scans agree with table scans.** In a run whose transactions enter the key of every row
version they commit, and in which no entry is taken out by hand, an index scan by an open
transaction with its own keys entered returns exactly the rows of its table scan whose keys lie in
the range, each once and in key order. -/
theorem index_scan_agrees (hf : e.Fresh) (htab : e.indexTable index = some table) (ops : List Op)
    (hkeeps : e.KeepsKeysAll table index keyOf .init .init ops)
    (hno : ∀ op ∈ ops, op.deletesFrom index = false)
    (hopen : ((History.of (e.run ops).2).running.get? txn).isSome)
    (htable : ((e.run ops).1.tables.get? table).isSome)
    (hown : (History.of (e.run ops).2).KeysCurrent table index keyOf (e.keyHistory .init ops) txn)
    (lo hi : Bound) (backward : Bool) :
    ∃ scan rows, ScansAgree table index keyOf (e.run ops).1 txn lo hi backward scan rows := by
  have hinit : IndexInv table index keyOf e .init .init := .init hf
  have hidx := hinit.run (Inv.init hf) (Engine.PassesOk.init hf _) ops hkeeps hno
  have htab' : (e.run ops).1.indexTable index = some table := by
    rw [indexTable_run]
    exact htab
  exact hidx.scansAgree (Inv.reachable hf ops) htab' hopen htable hown lo hi backward

def indexedEngine : Engine :=
  Engine.create [(1, Table.create "t")] [(5, IndexState.create 1 "i" false false)] 0

theorem index_scan_agrees_moved_key :
    ∃ scan rows, ScansAgree 1 5 id (indexedEngine.run
      [.begin .readCommitted, .insert 1 1 [7], .indexInsert 1 5 [7] (tidOf 0), .commit 1,
        .begin .repeatableRead, .begin .readCommitted, .update 3 1 (tidOf 0) [8],
        .indexInsert 3 5 [8] (tidOf 0), .commit 3]).1 2 .unbounded .unbounded true scan rows :=
  index_scan_agrees (create_fresh (by simp [Table.create]) (by simp [IndexState.create]))
    (by decide) _ (by decide +kernel) (by decide) (by decide +kernel) (by decide +kernel)
    (by decide +kernel) .unbounded .unbounded true

/-- A row is deleted and its entry taken out by hand, while an older snapshot still sees the row in
its table scan. -/
theorem index_delete_hides_row :
    let ops : List Op :=
      [.begin .readCommitted, .insert 1 1 [7], .indexInsert 1 5 [7] (tidOf 0), .commit 1,
        .begin .repeatableRead, .begin .readCommitted, .delete 3 1 (tidOf 0),
        .indexDelete 3 5 [7] (tidOf 0), .commit 3]
    indexedEngine.KeepsKeysAll 1 5 id .init .init ops ∧
      (History.of (indexedEngine.run ops).2).KeysCurrent 1 5 id (indexedEngine.keyHistory .init ops) 2 ∧
      ((indexedEngine.run ops).1.step (.scan 2 1)).2 = .ok (.rows [(tidOf 0, [7])]) ∧
      ((indexedEngine.run ops).1.step (.indexScan 2 5 .unbounded .unbounded false none)).2 =
        .ok (.rows []) := by
  decide +kernel

end NusaDb
