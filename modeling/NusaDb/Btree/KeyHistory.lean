import NusaDb.Btree.EntryLog

/-!
# Key histories

What a run did to the indexes, as a history: a key entered for a row is a write of that key at the
row's position in the index, a removed entry a write of `none`. It goes side by side with the
history of the rows (`KeyCover`) while every call meets `Engine.CoversKeys`.
-/

namespace NusaDb

open List Option OrdMap History OpenTxn

namespace Engine

def indexTable (e : Engine) (index : IndexId) : Option TableId :=
  (e.indexes.get? index).map IndexState.table

/-- What inserting one entry after another enters: the entries up to the first refusal. -/
def enteredEach (e : Engine) (txn : TxnId) (index : IndexId) : List (Key × Tid) → List Write
  | [] => []
  | (key, tid) :: rest =>
    match e.indexInsert txn index key tid with
    | (_, .error _) => []
    | (e, .ok ()) => ⟨(index, rowIdOf tid), some key⟩ :: enteredEach e txn index rest

/-- Whether an index delete by an open transaction finds a range to remove. -/
def removesEntry (e : Engine) (txn : TxnId) (index : IndexId) (key : Key) (row : RowId) : Bool :=
  e.txns.txns.contains txn &&
    match e.entriesAt (index, row) with
    | none => false
    | some r => (r.delete key).2.isSome

/-- The key events of a call, oldest first, and the transaction that makes them. -/
def keyEvents (e : Engine) : Op → Option (TxnId × List Write)
  | .indexInsert txn index key tid => some (txn, e.enteredEach txn index [(key, tid)])
  | .indexInsertBatch txn index entries =>
    some (txn, e.enteredEach txn index (entries.mergeSort fun a b => decide (a.1 ≤ b.1)))
  | .indexDelete txn index key tid =>
    some (txn, if e.removesEntry txn index key (rowIdOf tid) then
      [⟨(index, rowIdOf tid), none⟩] else [])
  | _ => none

end Engine

def Op.writesRows : Op → Bool
  | .insert .. => true
  | .insertBatch .. => true
  | .update .. => true
  | .delete .. => true
  | _ => false

namespace History

def writeAll (h : History) (txn : TxnId) (ws : List Write) : History :=
  ws.foldl (fun h w => h.write txn w) h

/-- Extend a key history by one call, made in the state `e`. -/
def recordKeys (k : History) (e : Engine) (op : Op) : History :=
  match e.keyEvents op with
  | some (txn, ws) => k.writeAll txn ws
  | none => if op.writesRows then k else k.record (op, (e.step op).2)

end History

def Engine.keyHistory (e : Engine) (k : History) : List Op → History
  | [] => k
  | op :: ops => (e.step op).1.keyHistory (k.recordKeys e op) ops

/-- The writes of an open transaction and what its savepoints saved of them. -/
def OpenTxn.log (o : OpenTxn) : MarkedLog String Write := .ofCounts o.writes o.marks

/-- Every key event, on the indexes in question, is for a row among those written. -/
def Covers (tab : IndexId → Option TableId) (ixs : IndexId → Prop) (rows keys : List Write) : Prop :=
  ∀ w ∈ keys, ixs w.loc.1 → ∃ table, tab w.loc.1 = some table ∧ Writes rows (table, w.loc.2)

/-- The call touches entries, on the indexes in question, only of rows its transaction has written by
writes that are not undone. -/
def Engine.CoversKeys (ixs : IndexId → Prop) (e : Engine) (h : History) (op : Op) : Prop :=
  ∀ txn ws, e.keyEvents op = some (txn, ws) → ∀ o, h.running.get? txn = some o →
    Covers e.indexTable ixs o.writes ws

/-- A history of rows and a history of keys of one run, side by side. -/
structure KeyCover (tab : IndexId → Option TableId) (ixs : IndexId → Prop) (h k : History) :
    Prop where
  running : ∀ t, (k.running.get? t).isSome = (h.running.get? t).isSome
  gids : k.gids = h.gids
  commits : List.Forall₂ (fun hc kc => hc.txn = kc.txn ∧ Covers tab ixs hc.writes kc.writes)
    h.commits k.commits
  counts : ∀ t o, h.running.get? t = some o → MarkedLog.CountsOk o.writes o.marks
  countsKeys : ∀ t o, k.running.get? t = some o → MarkedLog.CountsOk o.writes o.marks
  cover : ∀ t o ko, h.running.get? t = some o → k.running.get? t = some ko →
    MarkedLog.Rel (Covers tab ixs) o.log ko.log

variable {tab : IndexId → Option TableId} {ixs : IndexId → Prop} {h k : History} {txn : TxnId}
  {o ko : OpenTxn} {rows keys : List Write}

variable (hc : Covers tab ixs rows keys)

include hc

lemma Covers.mono {rows' : List Write} (hrows : ∀ loc, Writes rows loc → Writes rows' loc) :
    Covers tab ixs rows' keys := by
  intro w hw hix
  obtain ⟨table, htab, hwrites⟩ := hc w hw hix
  exact ⟨table, htab, hrows _ hwrites⟩

lemma Covers.append {keys' : List Write} (hc' : Covers tab ixs rows keys') :
    Covers tab ixs rows (keys ++ keys') := by
  intro w hw
  rcases mem_append.mp hw with hw | hw
  · exact hc w hw
  · exact hc' w hw

lemma Covers.not_writes {index : IndexId} {table : TableId} {row : RowId} (hix : ixs index)
    (htab : tab index = some table) (hno : ¬Writes rows (table, row)) :
    ¬Writes keys (index, row) := by
  rintro ⟨w, hw, hloc⟩
  obtain ⟨table', htab', hrow⟩ := hc w hw (by rw [hloc]; exact hix)
  rw [hloc] at htab' hrow
  obtain rfl : table = table' := some.inj (htab.symm.trans htab')
  exact hno hrow

omit hc

lemma KeyCover.commit_at (hk : KeyCover tab ixs h k) {i : Nat} {kc : Committed}
    (hi : k.commits[i]? = some kc) :
    ∃ hc, h.commits[i]? = some hc ∧ hc.txn = kc.txn ∧ Covers tab ixs hc.writes kc.writes := by
  have hcommits := hk.commits
  generalize h.commits = hs at hcommits ⊢
  generalize k.commits = ks at hcommits hi
  induction hcommits generalizing i with
  | nil => exact nomatch hi
  | @cons hc kc' hs ks hpair _ ih =>
    cases i with
    | zero =>
      cases hi
      exact ⟨hc, rfl, hpair⟩
    | succ i => exact ih hi

lemma OpenTxn.log_mark (o : OpenTxn) (name : String) :
    log { o with marks := (name, o.writes.length) :: o.marks.filter (·.1 ≠ name) } =
      o.log.mark name :=
  MarkedLog.ofCounts_mark ..

lemma OpenTxn.log_release (o : OpenTxn) (name : String) :
    log { o with marks := (o.marks.dropWhile (·.1 ≠ name)).tail } = o.log.release name :=
  MarkedLog.ofCounts_release ..

lemma OpenTxn.log_push (hok : MarkedLog.CountsOk o.writes o.marks) (ws : List Write) :
    log { o with writes := ws ++ o.writes } = o.log.push ws :=
  MarkedLog.ofCounts_push hok.le ws

lemma OpenTxn.backTo_spec (hok : MarkedLog.CountsOk o.writes o.marks) (name : String) :
    (o.backTo name).log = o.log.backTo name ∧
      MarkedLog.CountsOk (o.backTo name).writes (o.backTo name).marks ∧
      ∃ newer, o.writes = newer ++ (o.backTo name).writes := by
  unfold backTo
  cases hdrop : o.marks.dropWhile (·.1 ≠ name) with
  | nil =>
    refine ⟨?_, hok, [], rfl⟩
    have hmarks : o.log.marks.dropWhile (·.1 ≠ name) = [] := by
      unfold log MarkedLog.ofCounts
      rw [dropWhile_map]
      exact congrArg (map _) hdrop
    unfold MarkedLog.backTo
    rw [hmarks]
  | cons p older =>
    refine ⟨MarkedLog.ofCounts_backTo hok hdrop, hok.backTo hdrop, _, (take_append_drop ..).symm⟩

lemma OpenTxn.saved_sublist (o : OpenTxn) :
    ∀ p ∈ o.log.marks, p.2.Sublist o.writes := by
  intro p hp
  obtain ⟨q, -, rfl⟩ := mem_map.mp hp
  exact drop_sublist ..

lemma KeyCover.init : KeyCover tab ixs .init .init :=
  ⟨fun _ => rfl, rfl, .nil, fun _ _ ho => (nomatch ho), fun _ _ ho => (nomatch ho),
    fun _ _ _ ho => (nomatch ho)⟩

variable (hk : KeyCover tab ixs h k)

include hk

namespace KeyCover

lemma running_of_keys {ko : OpenTxn} (hko : k.running.get? txn = some ko) :
    ∃ o, h.running.get? txn = some o :=
  isSome_iff_exists.mp ((hk.running txn).symm.trans (by rw [hko]; rfl))

lemma keys_of_running {o : OpenTxn} (ho : h.running.get? txn = some o) :
    ∃ ko, k.running.get? txn = some ko :=
  isSome_iff_exists.mp ((hk.running txn).trans (by rw [ho]; rfl))

lemma modify {f g : OpenTxn → OpenTxn}
    (hf : ∀ o ko, h.running.get? txn = some o → k.running.get? txn = some ko →
      MarkedLog.CountsOk (f o).writes (f o).marks ∧
        MarkedLog.CountsOk (g ko).writes (g ko).marks ∧
        MarkedLog.Rel (Covers tab ixs) (f o).log (g ko).log) :
    KeyCover tab ixs (h.modify txn f) (k.modify txn g) := by
  refine ⟨fun t => ?_, hk.gids, hk.commits, fun t o ho => ?_, fun t o ho => ?_,
    fun t o ko ho hko => ?_⟩
  · rw [running_modify, running_modify]
    split
    · rw [isSome_map, isSome_map]
      exact hk.running txn
    · exact hk.running t
  · rw [running_modify] at ho
    split at ho
    · obtain ⟨o', ho', rfl⟩ := map_eq_some_iff.mp ho
      obtain ⟨ko', hko'⟩ := hk.keys_of_running ho'
      exact (hf o' ko' ho' hko').1
    · exact hk.counts t o ho
  · rw [running_modify] at ho
    split at ho
    · obtain ⟨ko', hko', rfl⟩ := map_eq_some_iff.mp ho
      obtain ⟨o', ho'⟩ := hk.running_of_keys hko'
      exact (hf o' ko' ho' hko').2.1
    · exact hk.countsKeys t o ho
  · rw [running_modify] at ho hko
    split at ho
    · rename_i ht
      rw [if_pos ht] at hko
      obtain ⟨o', ho', rfl⟩ := map_eq_some_iff.mp ho
      obtain ⟨ko', hko', rfl⟩ := map_eq_some_iff.mp hko
      exact (hf o' ko' ho' hko').2.2
    · rename_i ht
      rw [if_neg ht] at hko
      exact hk.cover t o ko ho hko

lemma drop (txn : TxnId) : KeyCover tab ixs (h.drop txn) (k.drop txn) := by
  have herase : ∀ {h : History} {t : TxnId} {o : OpenTxn},
      (h.drop txn).running.get? t = some o → txn ≠ t ∧ h.running.get? t = some o := by
    intro h t o ho
    change (h.running.erase txn).get? t = some o at ho
    rw [get?_erase] at ho
    split at ho
    · cases ho
    · exact ⟨‹_›, ho⟩
  refine ⟨fun t => ?_, hk.gids, hk.commits, fun t o ho => hk.counts t o (herase ho).2,
    fun t o ho => hk.countsKeys t o (herase ho).2,
    fun t o ko ho hko => hk.cover t o ko (herase ho).2 (herase hko).2⟩
  show ((k.running.erase txn).get? t).isSome = ((h.running.erase txn).get? t).isSome
  rw [get?_erase, get?_erase]
  split
  · rfl
  · exact hk.running t

lemma commit (txn : TxnId) : KeyCover tab ixs (h.commit txn) (k.commit txn) := by
  cases ho : h.running.get? txn with
  | none =>
    have hko : k.running.get? txn = none := by
      rw [← isNone_iff_eq_none, ← not_isSome, hk.running txn, ho]
      rfl
    unfold History.commit
    rw [ho, hko]
    exact hk
  | some o =>
    obtain ⟨ko, hko⟩ := hk.keys_of_running ho
    have hdrop := hk.drop txn
    rw [commit_eq ho, commit_eq hko]
    refine ⟨hdrop.running, hdrop.gids, ?_, hdrop.counts, hdrop.countsKeys, hdrop.cover⟩
    refine rel_append hk.commits (.cons ⟨rfl, ?_⟩ .nil)
    exact (hk.cover txn o ko ho hko).items

lemma setGids (gids : OrdMap String TxnId) :
    KeyCover tab ixs { h with gids := gids } { k with gids := gids } :=
  ⟨hk.running, rfl, hk.commits, hk.counts, hk.countsKeys, hk.cover⟩

lemma modifyView (txn : TxnId) {f g : OpenTxn → OpenTxn}
    (hf : ∀ o, (f o).writes = o.writes ∧ (f o).marks = o.marks)
    (hg : ∀ o, (g o).writes = o.writes ∧ (g o).marks = o.marks) :
    KeyCover tab ixs (h.modify txn f) (k.modify txn g) := by
  refine hk.modify fun o ko ho hko => ?_
  unfold log
  rw [(hf o).1, (hf o).2, (hg ko).1, (hg ko).2]
  exact ⟨hk.counts txn o ho, hk.countsKeys txn ko hko, hk.cover txn o ko ho hko⟩

lemma begin (level : IsolationLevel) (id : TxnId) (n n' : Nat) :
    KeyCover tab ixs { h with running := h.running.insert id ⟨level, n, [], []⟩ }
      { k with running := k.running.insert id ⟨level, n', [], []⟩ } := by
  have hnew : ∀ {h : History} {n : Nat} {t : TxnId} {o : OpenTxn},
      (h.running.insert id ⟨level, n, [], []⟩).get? t = some o →
        o = ⟨level, n, [], []⟩ ∧ id = t ∨ id ≠ t ∧ h.running.get? t = some o := by
    intro h n t o ho
    rw [get?_insert] at ho
    split at ho
    · exact Or.inl ⟨(some.inj ho).symm, ‹_›⟩
    · exact Or.inr ⟨‹_›, ho⟩
  have hempty : ∀ n, MarkedLog.CountsOk (OpenTxn.mk level n [] []).writes
      (OpenTxn.mk level n [] []).marks := fun _ => ⟨nofun, .nil⟩
  refine ⟨fun t => ?_, hk.gids, hk.commits, fun t o ho => ?_, fun t o ho => ?_,
    fun t o ko ho hko => ?_⟩
  · show ((k.running.insert id _).get? t).isSome = ((h.running.insert id _).get? t).isSome
    rw [get?_insert, get?_insert]
    split
    · rfl
    · exact hk.running t
  · rcases hnew ho with ⟨rfl, -⟩ | ⟨-, hold⟩
    · exact hempty _
    · exact hk.counts t o hold
  · rcases hnew ho with ⟨rfl, -⟩ | ⟨-, hold⟩
    · exact hempty _
    · exact hk.countsKeys t o hold
  · rcases hnew ho with ⟨rfl, ht⟩ | ⟨hne, hold⟩
    · rcases hnew hko with ⟨rfl, -⟩ | ⟨hne, -⟩
      · exact ⟨nofun, .nil⟩
      · exact absurd ht hne
    · rcases hnew hko with ⟨-, ht⟩ | ⟨-, hold'⟩
      · exact absurd ht hne
      · exact hk.cover t o ko hold hold'

/-- **Calls that write neither rows nor keys** happen to both histories alike. -/
theorem record {op : Op} (hop : op.writesRows = false) (out : Outcome) :
    KeyCover tab ixs (h.record (op, out)) (k.record (op, out)) := by
  have hrefresh : ∀ (txn : TxnId), KeyCover tab ixs (h.refresh txn) (k.refresh txn) := by
    intro txn
    refine hk.modifyView txn (fun o => ?_) (fun o => ?_)
    · split <;> exact ⟨rfl, rfl⟩
    · split <;> exact ⟨rfl, rfl⟩
  have hmark : ∀ (txn : TxnId) (name : String),
      KeyCover tab ixs (h.mark txn name) (k.mark txn name) := by
    intro txn name
    refine hk.modify fun o ko ho hko => ?_
    rw [o.log_mark, ko.log_mark]
    exact ⟨(hk.counts txn o ho).mark name, (hk.countsKeys txn ko hko).mark name,
      (hk.cover txn o ko ho hko).mark name⟩
  have hrelease : ∀ (txn : TxnId) (name : String),
      KeyCover tab ixs (h.release txn name) (k.release txn name) := by
    intro txn name
    refine hk.modify fun o ko ho hko => ?_
    rw [o.log_release, ko.log_release]
    have hsub : ∀ o : OpenTxn, (o.marks.dropWhile (·.1 ≠ name)).tail.Sublist o.marks :=
      fun o => (tail_sublist _).trans (dropWhile_sublist _)
    exact ⟨(hk.counts txn o ho).sublist (hsub o), (hk.countsKeys txn ko hko).sublist (hsub ko),
      (hk.cover txn o ko ho hko).release name⟩
  have hback : ∀ (txn : TxnId) (name : String),
      KeyCover tab ixs (h.backTo txn name) (k.backTo txn name) := by
    intro txn name
    refine KeyCover.modify (f := backTo name) (g := backTo name) hk
      fun o ko ho hko => ?_
    obtain ⟨hlog, hcounts, -⟩ := backTo_spec (hk.counts txn o ho) name
    obtain ⟨hlog', hcounts', -⟩ := backTo_spec (hk.countsKeys txn ko hko) name
    rw [hlog, hlog']
    exact ⟨hcounts, hcounts', (hk.cover txn o ko ho hko).backTo name⟩
  generalize hp : (op, out) = p
  unfold History.record
  split
  · exact hk.begin _ _ _ _
  · exact hrefresh _
  · cases hp; cases hop
  · cases hp; cases hop
  · cases hp; cases hop
  · cases hp; cases hop
  · exact hmark _ _
  · exact hback _ _
  · exact hrelease _ _
  · exact hk.commit _
  · exact hk.drop _
  · exact hk.drop _
  · rw [hk.gids]
    exact hk.setGids _
  · split
    · exact hk
    · exact hk.drop _
  · rw [hk.gids]
    split
    · exact hk
    split
    · exact (hk.setGids _).commit _
    · exact (hk.setGids _).drop _
  · exact hk

lemma write (txn : TxnId) (w : Write) : KeyCover tab ixs (h.write txn w) k := by
  have hkeep : k.modify txn (fun o => o) = k := by
    unfold History.modify
    rw [OrdMap.modify_id]
  rw [← hkeep]
  refine hk.modify fun o ko ho hko => ?_
  have hcounts := hk.counts txn o ho
  have hlog : log { o with writes := w :: o.writes } = o.log.push [w] := o.log_push hcounts [w]
  rw [hlog]
  refine ⟨hcounts.push [w], hk.countsKeys txn ko hko, ?_⟩
  have hpush : MarkedLog.Rel (Covers tab ixs) (o.log.push [w]) (ko.log.push []) := by
    refine (hk.cover txn o ko ho hko).push (Covers.mono (hk.cover txn o ko ho hko).items ?_)
    exact fun loc hw => writes_cons_iff.mpr (Or.inr hw)
  exact hpush

lemma writeKey {w : Write}
    (hw : ∀ o, h.running.get? txn = some o → Covers tab ixs o.writes [w]) :
    KeyCover tab ixs h (k.write txn w) := by
  have hkeep : h.modify txn (fun o => o) = h := by
    unfold History.modify
    rw [OrdMap.modify_id]
  rw [← hkeep]
  refine hk.modify fun o ko ho hko => ?_
  have hcounts := hk.countsKeys txn ko hko
  have hlog : log { ko with writes := w :: ko.writes } = ko.log.push [w] :=
    ko.log_push hcounts [w]
  rw [hlog]
  refine ⟨hk.counts txn o ho, hcounts.push [w], ?_⟩
  have hpush : MarkedLog.Rel (Covers tab ixs) (o.log.push []) (ko.log.push [w]) :=
    (hk.cover txn o ko ho hko).push (Covers.append (hw o ho) (hk.cover txn o ko ho hko).items)
  exact hpush

lemma recordRows {op : Op} (hop : op.writesRows = true) (out : Outcome) :
    KeyCover tab ixs (h.record (op, out)) k := by
  generalize hp : (op, out) = p
  unfold History.record
  split
  case h_3 => exact hk.write _ _
  case h_4 txn table tuples tids =>
    generalize tids.zip tuples = pairs
    induction pairs generalizing h with
    | nil => exact hk
    | cons p pairs ih => exact ih (hk.write txn ⟨(table, rowIdOf p.1), some p.2⟩)
  case h_5 => exact hk.write _ _
  case h_6 => exact hk.write _ _
  case h_16 => exact hk
  all_goals
    cases hp
    cases hop

lemma recordPlain (op : Op) (out : Outcome) :
    KeyCover tab ixs (h.record (op, out)) (if op.writesRows then k else k.record (op, out)) := by
  cases hop : op.writesRows with
  | true => exact hk.recordRows hop out
  | false => exact hk.record hop out

end KeyCover

end NusaDb
