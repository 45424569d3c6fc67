import NusaDb.Btree.IndexScan

/-!
# Fresh reads and no lost update

A DDL statement reads the latest committed rows whatever the isolation level of its transaction:
`begin_fresh_reads` puts a view taken now in the place of the pinned one, `end_fresh_reads` puts the
saved one back, and the pair nests. Writes made in between are admitted against the fresh view, so
what a transaction's writes go by is the view in force at each write and not the one of `begin`.

`WindowedEngine` is the engine with these two calls. Its runs do not keep `Inv`: once a window is
closed, a transaction has written rows that its view does not cover. They keep `Inv` for another
notion of sight, in which every open transaction sees whatever has ended (`Engine.sight`); the views
themselves are followed apart from it, by their positions in commit order (`Reading.views`).

* `Inv.sighted`: the invariant survives any change of views, under that sight;
* `Inv.covered`: a row that a transaction may write for the first time has no committed writer later
  than the view in force;
* `no_lost_update`: two committed writers of a row did not overlap, and an update or a delete
  replaces the row's latest version.
-/

namespace NusaDb

open List Engine OrdMap History

/-! ## Windows -/

/-- What is in force, and while a window is open how deep it nests and what its end puts back. -/
structure Window (α : Type) where
  current : α
  saved : Option (Nat × α)

namespace Window

variable {α β : Type}

def enter (w : Window α) (fresh : α) : Window α :=
  ⟨fresh, some (match w.saved with
    | some (depth, saved) => (depth + 1, saved)
    | none => (1, w.current))⟩

def leave (w : Window α) : Window α :=
  match w.saved with
  | some (1, saved) => ⟨saved, none⟩
  | some (depth, saved) => ⟨w.current, some (depth - 1, saved)⟩
  | none => w

/-- Two windows open alike, with related values in force and saved. -/
structure Rel (R : α → β → Prop) (w : Window α) (v : Window β) : Prop where
  current : R w.current v.current
  saved : Option.Rel (fun a b => a.1 = b.1 ∧ R a.2 b.2) w.saved v.saved

variable {R R' : α → β → Prop} {w : Window α} {v : Window β}

lemma Rel.mono (hrel : Rel R w v) (hR : ∀ a b, R a b → R' a b) : Rel R' w v := by
  obtain ⟨a, wsaved⟩ := w
  obtain ⟨b, vsaved⟩ := v
  obtain ⟨hcurrent, hsaved⟩ := hrel
  refine ⟨hR _ _ hcurrent, ?_⟩
  cases hsaved with
  | none => exact .none
  | some hab => exact .some ⟨hab.1, hR _ _ hab.2⟩

lemma Rel.enter (hrel : Rel R w v) {a : α} {b : β} (hab : R a b) :
    Rel R (w.enter a) (v.enter b) := by
  obtain ⟨c, wsaved⟩ := w
  obtain ⟨d, vsaved⟩ := v
  obtain ⟨hcurrent, hsaved⟩ := hrel
  refine ⟨hab, .some ?_⟩
  cases hsaved with
  | none => exact ⟨rfl, hcurrent⟩
  | some hsame => exact ⟨congrArg (· + 1) hsame.1, hsame.2⟩

lemma Rel.leave (hrel : Rel R w v) : Rel R w.leave v.leave := by
  obtain ⟨c, wsaved⟩ := w
  obtain ⟨d, vsaved⟩ := v
  obtain ⟨hcurrent, hsaved⟩ := hrel
  cases hsaved with
  | none => exact ⟨hcurrent, .none⟩
  | @some a b hsame =>
    obtain ⟨depth, saved⟩ := a
    obtain ⟨depth', saved'⟩ := b
    obtain ⟨hdepth, hback⟩ := hsame
    obtain rfl : depth = depth' := hdepth
    match depth with
    | 1 => exact ⟨hback, .none⟩
    | 0 | _ + 2 => exact ⟨hcurrent, .some ⟨rfl, hback⟩⟩

end Window

/-! ## The engine with fresh reads -/

/-- The state in which `txn` reads under `view`. -/
def Engine.readUnder (e : Engine) (txn : TxnId) (view : ReadView) : Engine :=
  { e with txns := e.txns.modifyTxn txn fun t => { t with pinned := view } }

inductive Call where
  | op (op : Op)
  | beginFreshReads (txn : TxnId)
  | endFreshReads (txn : TxnId)

/-- The engine and each open transaction's `fresh_reads`: how deep its windows nest, and the snapshot
to put back. -/
structure WindowedEngine where
  engine : Engine
  freshReads : TxnId → Option (Nat × ReadView)

namespace WindowedEngine

variable (w : WindowedEngine)

def window (txn : TxnId) (state : TxnState) : Window ReadView :=
  ⟨state.pinned, w.freshReads txn⟩

def setWindow (txn : TxnId) (window : Window ReadView) : WindowedEngine :=
  ⟨w.engine.readUnder txn window.current, Function.update w.freshReads txn window.saved⟩

def beginFreshReads (txn : TxnId) : WindowedEngine × Outcome :=
  match w.engine.txns.txns.get? txn with
  | none => (w, .error (unknownTxn txn))
  | some state =>
    (w.setWindow txn ((w.window txn state).enter (w.engine.txns.freshView txn)), .ok .unit)

def endFreshReads (txn : TxnId) : WindowedEngine × Outcome :=
  match w.engine.txns.txns.get? txn with
  | none => (w, .ok .unit)
  | some state => (w.setWindow txn (w.window txn state).leave, .ok .unit)

/-- The transaction's own snapshot: the one saved while it reads fresh, else the one it reads
under. -/
def snapshot (txn : TxnId) (state : TxnState) : ReadView :=
  match w.freshReads txn with
  | none => state.pinned
  | some (_, saved) => saved

/-- A commit or a prepare. Of the views it reads the transaction's own in the serializable check
only, which judges by its snapshot. -/
def judged (txn : TxnId) (op : Op) : WindowedEngine × Outcome :=
  match w.engine.txns.txns.get? txn with
  | none => ({ w with engine := (w.engine.step op).1 }, (w.engine.step op).2)
  | some state =>
    let (e, out) := (w.engine.readUnder txn (w.snapshot txn state)).step op
    ({ w with engine := e.readUnder txn state.pinned }, out)

/-- Purge goes by the saved snapshots as well: their transactions go back to them. -/
def purgeSnapshot : PurgeSnapshot :=
  { w.engine.purgeSnapshot with
    pinned := w.engine.purgeSnapshot.pinned ++
      w.engine.txns.txns.keys.filterMap fun txn => (w.freshReads txn).map Prod.snd }

def purgeStart : WindowedEngine × Outcome :=
  ({ w with
      engine := { w.engine with
        passes := w.engine.passes.insert w.engine.nextPass
          ⟨w.purgeSnapshot, .tables w.engine.tables.keys⟩
        nextPass := w.engine.nextPass + 1 } },
    .ok (.pass w.engine.nextPass))

def call : Op → WindowedEngine × Outcome
  | .begin level =>
    (⟨(w.engine.begin level).1, Function.update w.freshReads w.engine.txns.nextTxnId none⟩,
      .ok (.txn w.engine.txns.nextTxnId))
  | .commit txn => w.judged txn (.commit txn)
  | .prepareTxn txn gid owner database => w.judged txn (.prepareTxn txn gid owner database)
  | .purgeStart => w.purgeStart
  | op => ({ w with engine := (w.engine.step op).1 }, (w.engine.step op).2)

def step : Call → WindowedEngine × Outcome
  | .op op => w.call op
  | .beginFreshReads txn => w.beginFreshReads txn
  | .endFreshReads txn => w.endFreshReads txn

def run (w : WindowedEngine) : List Call → WindowedEngine × List (Call × Outcome)
  | [] => (w, [])
  | call :: calls =>
    let (w', out) := w.step call
    let (w'', trace) := w'.run calls
    (w'', (call, out) :: trace)

end WindowedEngine

/-! ## What a run read and wrote

A view is told by its position: how many transactions had committed when it was taken. -/

/-- The history with every open transaction's `snap` at the newest commit: positions of views are kept
apart from it. -/
def History.catchUp (h : History) : History :=
  { h with running := h.running.mapVal fun o => { o with snap := h.commits.length } }

structure Reading where
  history : History
  /-- The positions of a transaction's views, in force and saved. -/
  views : TxnId → Window Nat
  /-- The position of the view in force when the transaction first wrote the row, of its writes not
  undone; until it writes it, of the one in force now. -/
  bases : TxnId → Loc → Nat

instance (writes : List Write) (loc : Loc) : Decidable (Writes writes loc) :=
  inferInstanceAs (Decidable (∃ w ∈ writes, w.loc = loc))

namespace Reading

def init : Reading := ⟨.init, fun _ => ⟨0, none⟩, fun _ _ => 0⟩

def historyAfter (r : Reading) : Call × Outcome → History
  | (.op (.beginStatement _), _) => r.history
  | (.op op, out) => (r.history.record (op, out)).catchUp
  | _ => r.history

def viewsAfter (r : Reading) : Call × Outcome → TxnId → Window Nat
  | (.op (.begin _), .ok (.txn id)) =>
    Function.update r.views id ⟨r.history.commits.length, none⟩
  | (.op (.beginStatement txn), _) =>
    match r.history.running.get? txn with
    | none => r.views
    | some o =>
      if o.level = .readCommitted ∨ o.level = .readUncommitted then
        Function.update r.views txn { r.views txn with current := r.history.commits.length }
      else r.views
  | (.beginFreshReads txn, .ok _) =>
    Function.update r.views txn ((r.views txn).enter r.history.commits.length)
  | (.endFreshReads txn, _) =>
    if (r.history.running.get? txn).isSome then Function.update r.views txn (r.views txn).leave
    else r.views
  | _ => r.views

def basesAfter (r : Reading) (txn : TxnId) (loc : Loc) : Nat :=
  match r.history.running.get? txn with
  | none => r.bases txn loc
  | some o => if Writes o.writes loc then r.bases txn loc else (r.views txn).current

def record (r : Reading) (p : Call × Outcome) : Reading :=
  ⟨r.historyAfter p, r.viewsAfter p, r.basesAfter⟩

def of (trace : List (Call × Outcome)) : Reading :=
  trace.foldl record init

/-- Two committed writers of one row: the earlier had committed when the later took the view its
first write of the row went by. -/
def Ordered (r : Reading) : Prop :=
  ∀ (loc : Loc) (i j : Nat) (ki kj : Committed), r.history.commits[i]? = some ki →
    r.history.commits[j]? = some kj → i < j → Writes ki.writes loc → Writes kj.writes loc →
      i < r.bases kj.txn loc

end Reading

/-! ## Sight without views -/

/-- Every open transaction sees its own writes and those of whatever has ended. -/
def Engine.sight (e : Engine) : Sight := fun view x =>
  decide (x = view.own ∨ x < e.txns.nextTxnId ∧ x ∉ e.txns.active)

variable {e e' : Engine} {h h' : History} {txn : TxnId} {S : Sight}
  {P : TxnId → Prop} {loc : Loc}

lemma Engine.sight_iff {view : ReadView} {x : TxnId} : e.sight view x = true ↔
    x = view.own ∨ x < e.txns.nextTxnId ∧ x ∉ e.txns.active :=
  decide_eq_true_iff

lemma History.running_catchUp (h : History) (txn : TxnId) : h.catchUp.running.get? txn =
    (h.running.get? txn).map fun o => { o with snap := h.commits.length } :=
  get?_mapVal ..

lemma History.versions_catchUp (h : History) : h.catchUp.versions = h.versions := by
  funext loc
  unfold versions pending catchUp mapVal
  rw [flatMap_map]
  rfl

/-- **The invariant survives**, once open transactions are taken to see whatever has ended, and purge
to go by it. -/
theorem Inv.sighted (hinv : Inv e h S P) : Inv e h.catchUp e.sight e.Ended := by
  have hwide := hinv.widen hinv.ended fun _ hx => hx
  have hown : ∀ {t c}, e.core t = some c → c.pinned.own = t := by
    intro t c hc
    obtain ⟨o, ho⟩ := hinv.running_of_core hc
    exact (hinv.txn t c o hc ho).own
  have hbound : ∀ {i k}, h.commits[i]? = some k → i < h.commits.length := fun hk =>
    (List.getElem?_eq_some_iff.mp hk).1
  refine ⟨?_, ?_, hinv.active, hinv.activeRange, hinv.nextPos, ?_, ?_, hinv.commits,
    hinv.commitsNodup, hwide.ended, ?_, ?_, hwide.passes, hinv.gids, hinv.prepared⟩
  · intro t
    rw [hinv.running, running_catchUp, Option.isSome_map]
  · intro t c o' hc ho'
    rw [running_catchUp] at ho'
    obtain ⟨o, ho, rfl⟩ := Option.map_eq_some_iff.mp ho'
    have hr := hinv.txn t c o hc ho
    refine ⟨hr.level, hr.undo, hr.own, le_rfl, ?_, ?_⟩
    · intro i k hk
      have hended := (hinv.commits k (mem_of_getElem? hk)).2
      exact ⟨fun _ => hbound hk, fun _ => sight_iff.mpr (.inr hended)⟩
    · exact fun _ _ i k hk _ => hbound hk
  · intro t c x hc hx
    rw [Bool.eq_false_iff, Ne, sight_iff, hown hc]
    rintro (rfl | ⟨hlt, -⟩)
    · exact absurd (hinv.activeRange x (hinv.mem_active_of_core hc)).2 (not_lt.mpr hx)
    · exact absurd hlt (not_lt.mpr hx)
  · intro t c t' hc ht' hne
    rw [Bool.eq_false_iff, Ne, sight_iff, hown hc]
    rintro (heq | ⟨-, hnot⟩)
    · exact hne heq
    · exact hnot ht'
  · rw [versions_catchUp]
    exact hwide.store
  · rw [versions_catchUp]
    exact hinv.fresh

/-- What a transaction's own view is does not matter for that sight. -/
lemma Inv.readUnder (hinv : Inv e h e.sight e.Ended) {view : ReadView} (hview : view.own = txn) :
    Inv (e.readUnder txn view) h (e.readUnder txn view).sight (e.readUnder txn view).Ended := by
  cases hs : e.txns.txns.get? txn with
  | none =>
    have hsame : e.readUnder txn view = e := by
      unfold Engine.readUnder TxnDomain.modifyTxn
      rw [modify_congr (g := fun s => s) (by rw [hs]; exact nofun), OrdMap.modify_id]
    exact hsame.symm ▸ hinv
  | some s =>
    obtain ⟨o, hc, ho⟩ := hinv.opened hs
    have hr := hinv.txn txn _ o hc ho
    have hsight : e.sight view = e.sight s.pinned := by
      unfold Engine.sight
      rw [hview, show s.pinned.own = txn from hr.own]
    have hm : e.CoreMove txn { s.core with pinned := view } (e.readUnder txn view) :=
      ⟨core_modifyTxn hs _, rfl, rfl, rfl⟩
    refine hinv.modifyTxn hc ho (f := fun o => o) hm (OrdMap.modify_id ..).symm rfl ?_ ?_ ?_ ?_
      hinv.fresh hinv.gids (hinv.prepared_keep hc rfl hm rfl)
    · refine ⟨hr.level, hr.undo, hview, hr.snapLe, ?_, hr.base⟩
      exact hsight ▸ hr.sees
    · exact fun x hx => hsight ▸ hinv.later txn _ x hc hx
    · exact fun t ht hne => hsight ▸ hinv.unseen txn _ t hc ht hne
    · exact Stored.congr hinv.store rfl rfl (pendAt_keep hc hm.core fun _ => rfl) rfl

lemma Inv.sight_fits (hinv : Inv e h e.sight P) : e.sight.Fits e h where
  begin level x := by
    rw [sight_iff]
    show x = e.txns.nextTxnId ∨ _ ↔ x = e.txns.nextTxnId ∨
      (x < e.txns.nextTxnId + 1 ∧ x ∉ e.txns.nextTxnId :: e.txns.active)
    rw [mem_cons, Nat.lt_succ_iff_lt_or_eq]
    tauto
  write e₁ txn s loc old tid _ _ _ _ o i k ho hk _ := by
    obtain ⟨c, hc⟩ := hinv.core_of_running ho
    refine ((hinv.txn txn c o hc ho).sees i k hk).mp (sight_iff.mpr (.inr ?_))
    exact (hinv.commits k (mem_of_getElem? hk)).2

/-- **Every call keeps the invariant for that sight**, whatever views it reads under. -/
lemma Inv.sight_effect (hinv : Inv e h e.sight P) {op : Op} {out : Outcome}
    (heff : Effect e op out e') (hview : ∀ txn, op ≠ .beginStatement txn)
    (hstart : op ≠ .purgeStart) : Inv e' (h.record (op, out)).catchUp e'.sight e'.Ended :=
  (hinv.effect hinv.sight_fits heff hview hstart).sighted

/-! ## Views and their positions -/

/-- `view` was taken for `txn` when `n` transactions had committed. -/
structure Taken (e : Engine) (h : History) (txn : TxnId) (view : ReadView) (n : Nat) : Prop where
  own : view.own = txn
  sees : ∀ x, view.sees x = true → x = txn ∨ x < e.txns.nextTxnId ∧ x ∉ e.txns.active
  commits : ∀ i k, h.commits[i]? = some k → view.sees k.txn = true → i < n

lemma Taken.fresh (e : Engine) (h : History) (txn : TxnId) :
    Taken e h txn (e.txns.freshView txn) h.commits.length where
  own := rfl
  sees _ hx := (freshView_sees_iff ..).mp hx
  commits _ _ hk _ := (List.getElem?_eq_some_iff.mp hk).1

/-- What the commits of a history are after one more call. -/
def History.Extends (h h' : History) : Prop :=
  h'.commits = h.commits ∨ ∃ k o, h.running.get? k.txn = some o ∧ k.writes = o.writes ∧
    h'.commits = h.commits ++ [k]

/-- A view stays taken where it was: whoever commits later was open, so it is not seen. -/
lemma Taken.step {view : ReadView} {n : Nat} (ht : Taken e h txn view n) (hinv : Inv e h S P)
    (hnext : e.txns.nextTxnId ≤ e'.txns.nextTxnId)
    (hactive : ∀ t ∈ e'.txns.active, t ∈ e.txns.active ∨ e.txns.nextTxnId ≤ t)
    (hext : h.Extends h') (hopen : ∀ k ∈ h'.commits, k.txn ≠ txn) : Taken e' h' txn view n where
  own := ht.own
  sees x hx := by
    rcases ht.sees x hx with hself | ⟨hlt, hnot⟩
    · exact .inl hself
    refine .inr ⟨lt_of_lt_of_le hlt hnext, fun hmem => ?_⟩
    rcases hactive x hmem with hold | hnew
    · exact hnot hold
    · exact absurd hlt (not_lt.mpr hnew)
  commits i k hk hsees := by
    rcases hext with hsame | ⟨knew, o, ho, -, hnew⟩
    · rw [hsame] at hk
      exact ht.commits i k hk hsees
    by_cases hi : i < h.commits.length
    · rw [hnew, getElem?_append_left hi] at hk
      exact ht.commits i k hk hsees
    -- the new commit: its transaction was open when the view was taken
    have hmem := mem_of_getElem? hk
    rw [hnew, getElem?_append_right (not_lt.mp hi)] at hk
    obtain rfl := mem_singleton.mp (mem_of_getElem? hk)
    rcases ht.sees _ hsees with hself | ⟨-, hnot⟩
    · exact absurd hself (hopen _ hmem)
    · obtain ⟨c, hc⟩ := hinv.core_of_running ho
      exact absurd (hinv.mem_active_of_core hc) hnot

/-- **A first write goes by the view in force.** A row that the transaction may write and has not yet
written has no committed writer later than that view. -/
lemma Inv.covered (hinv : Inv e h S P) {view : ReadView} {n : Nat} (ht : Taken e h txn view n)
    (hview : e.viewOf txn = some view) {o : OpenTxn} (ho : h.running.get? txn = some o)
    (hno : ¬Writes o.writes loc) {old : Version} {tid : Tid} (hold : e.leafAt loc = some old)
    (hadm : e.txns.admitWrite txn old.header tid = .ok ()) {i : Nat} {k : Committed}
    (hk : h.commits[i]? = some k) (hw : Writes k.writes loc) : i < n := by
  obtain ⟨-, hlive, hunseen⟩ := TxnDomain.admitWrite_ok hadm
  have hsole := (hinv.admitted hold hadm).sole
  have hsees : view.sees old.header.xmin = true := by
    obtain ⟨c, hc, rfl⟩ := core_of_viewOf hview
    rw [e.unseenBy_of_core hc] at hunseen
    simpa using hunseen
  obtain ⟨slots, hstore⟩ := hinv.store
  obtain ⟨older, hvers⟩ := hstore.newest hold hlive
  -- nobody has the row open, so its newest version is its last committed writer's
  have hpending : h.pending loc = [] := by
    refine pending_eq_nil fun t o' ho' => ?_
    by_cases htxn : t = txn
    · subst htxn
      rw [ho] at ho'
      cases ho'
      exact hno
    · exact hsole t o' ho' htxn
  let vers := fun l : List Committed => l.reverse.flatMap fun c => versionsOf c.txn c.writes loc
  have hsplit : h.versions loc = vers (h.commits.drop i) ++ vers (h.commits.take i) := by
    unfold versions committed
    simp only [vers]
    rw [hpending, nil_append, ← flatMap_append, ← reverse_append, take_append_drop]
  have hlater : k ∈ h.commits.drop i :=
    mem_of_getElem? (i := 0) (by rw [getElem?_drop]; exact hk)
  have hne : vers (h.commits.drop i) ≠ [] := by
    obtain ⟨w, hwmem, hloc⟩ := hw
    refine ne_nil_of_mem (a := ⟨k.txn, w.value⟩) (mem_flatMap.mpr ⟨k, mem_reverse.mpr hlater, ?_⟩)
    exact mem_map.mpr ⟨w, mem_filter.mpr ⟨hwmem, decide_eq_true hloc⟩, rfl⟩
  obtain ⟨head, rest, hhead⟩ := exists_cons_of_ne_nil hne
  rw [hvers, hhead, cons_append] at hsplit
  have htop : old.header.xmin = head.txn := congrArg Ver.txn (cons.inj hsplit).1
  have hmem : head ∈ vers (h.commits.drop i) := hhead ▸ mem_cons_self
  obtain ⟨last, hlast, hver⟩ := mem_flatMap.mp hmem
  obtain ⟨d, hd⟩ := mem_iff_getElem?.mp (mem_reverse.mp hlast)
  rw [getElem?_drop] at hd
  have hbound := ht.commits (i + d) last hd (by rw [← (mem_versionsOf hver).1, ← htop]; exact hsees)
  exact lt_of_le_of_lt (Nat.le_add_right i d) hbound

lemma Engine.viewOf_readUnder (e : Engine) (txn : TxnId) (view : ReadView) (t : TxnId) :
    (e.readUnder txn view).viewOf t =
      if txn = t then (e.viewOf t).map fun _ => view else e.viewOf t := by
  unfold viewOf readUnder TxnDomain.modifyTxn
  rw [get?_modify]
  split
  · rename_i ht
    rw [ht, Option.map_map, Option.map_map]
    rfl
  · rfl

/-! ## What a windowed run keeps -/

/-- Whoever committed a write to the row had done so when `txn` took the view its first write of it
went by, unless `txn` committed first. -/
def Based (commits : List Committed) (bases : TxnId → Loc → Nat) (txn : TxnId) (w : Write) : Prop :=
  ∀ i k, commits[i]? = some k → Writes k.writes w.loc →
    i < bases txn w.loc ∨ ∃ j k', j ≤ i ∧ commits[j]? = some k' ∧ k'.txn = txn

structure ReadInv (w : WindowedEngine) (r : Reading) : Prop where
  inv : Inv w.engine r.history w.engine.sight w.engine.Ended
  views : ∀ txn view, w.engine.viewOf txn = some view →
    Window.Rel (Taken w.engine r.history txn) ⟨view, w.freshReads txn⟩ (r.views txn)
  based : r.history.AllWrites (Based r.history.commits r.bases)

lemma Based.extends {bases bases' : TxnId → Loc → Nat} {t : TxnId} {w : Write}
    (hb : Based h.commits bases t w) (hsame : bases' t w.loc = bases t w.loc)
    (hext : h.Extends h') (hnew : ∀ x o, h.running.get? x = some o → Writes o.writes w.loc →
      x = t ∨ ∃ c ∈ h.commits, c.txn = t) : Based h'.commits bases' t w := by
  intro i k hk hw
  rw [hsame]
  rcases hext with heq | ⟨knew, o, ho, hwrites, heq⟩
  · rw [heq] at hk ⊢
    exact hb i k hk hw
  rw [heq] at hk ⊢
  by_cases hi : i < h.commits.length
  · rw [getElem?_append_left hi] at hk
    rcases hb i k hk hw with hlt | ⟨j, k', hle, hk', htxn⟩
    · exact .inl hlt
    · refine .inr ⟨j, k', hle, ?_, htxn⟩
      rw [getElem?_append_left (lt_of_le_of_lt hle hi)]
      exact hk'
  -- the new commit is of `t` itself, or `t` is among the earlier ones
  refine .inr ?_
  have hi' := not_lt.mp hi
  have hlast := hk
  rw [getElem?_append_right hi'] at hlast
  obtain rfl := mem_singleton.mp (mem_of_getElem? hlast)
  rcases hnew k.txn o ho (hwrites ▸ hw) with htxn | ⟨c, hc, htxn⟩
  · exact ⟨i, k, le_rfl, hk, htxn⟩
  · obtain ⟨j, hj⟩ := mem_iff_getElem?.mp hc
    have hjlt := (List.getElem?_eq_some_iff.mp hj).1
    refine ⟨j, c, le_trans (le_of_lt hjlt) hi', ?_, htxn⟩
    rw [getElem?_append_left hjlt]
    exact hj

lemma History.AllWrites.catchUp {P : TxnId → Write → Prop} (hall : h.AllWrites P) :
    h.catchUp.AllWrites P := by
  refine ⟨hall.commits, fun t o' ho' => ?_⟩
  rw [running_catchUp] at ho'
  obtain ⟨o, ho, rfl⟩ := Option.map_eq_some_iff.mp ho'
  exact hall.running t o ho

lemma History.extends_record (h : History) (op : Op) (out : Outcome) :
    h.Extends (h.record (op, out)) := by
  rcases h.commits_record op out with hsame | ⟨t, o, v, -, -, ho, hnew⟩
  · exact .inl hsame
  · exact .inr ⟨⟨t, o.level, o.snap, o.writes⟩, o, ho, rfl, hnew⟩

/-- A row without versions has no committed writer. -/
lemma History.no_writer_of_versions (hnil : h.versions loc = []) {k : Committed}
    (hk : k ∈ h.commits) : ¬Writes k.writes loc := by
  rintro ⟨w, hw, hloc⟩
  have hmem : (⟨k.txn, w.value⟩ : Ver) ∈ h.versions loc := by
    refine mem_append_right _ (mem_flatMap.mpr ⟨k, mem_reverse.mpr hk, ?_⟩)
    exact mem_map.mpr ⟨w, mem_filter.mpr ⟨hw, decide_eq_true hloc⟩, rfl⟩
  rw [hnil] at hmem
  cases hmem

section

variable {w : WindowedEngine} {r : Reading} (hr : ReadInv w r)

include hr

/-- Writes made before the call stay based. -/
lemma ReadInv.based_old (hext : r.history.Extends h') :
    r.history.AllWrites (Based h'.commits r.basesAfter) := by
  constructor
  · intro c hc wr hwr
    have hclosed : r.history.running.get? c.txn = none := by
      have hnot := (hr.inv.commits c hc).2.2
      rwa [hr.inv.active, hr.inv.running, Option.not_isSome_iff_eq_none] at hnot
    refine (hr.based.commits c hc wr hwr).extends ?_ hext fun _ _ _ _ => .inr ⟨c, hc, rfl⟩
    unfold Reading.basesAfter
    rw [hclosed]
  · intro t o ho wr hwr
    have hwrites : Writes o.writes wr.loc := ⟨wr, hwr, rfl⟩
    refine (hr.based.running t o ho wr hwr).extends ?_ hext fun x p hp hw =>
      .inl (hr.inv.writer hp ho hw hwrites)
    unfold Reading.basesAfter
    rw [ho]
    exact if_pos hwrites

/-- A write is based when its row, not yet written by `txn`, has no writer later than the view in
force. -/
lemma ReadInv.based_write {o : OpenTxn} (ho : r.history.running.get? txn = some o)
    (hcov : ¬Writes o.writes loc → ∀ i k, r.history.commits[i]? = some k →
      Writes k.writes loc → i < (r.views txn).current) (value : Option Tuple) :
    Based r.history.commits r.basesAfter txn ⟨loc, value⟩ := by
  intro i k hk hw
  unfold Reading.basesAfter
  rw [ho]
  dsimp only at hw ⊢
  split
  · rename_i hwrites
    obtain ⟨wr, hwr, rfl⟩ := hwrites
    exact hr.based.running txn o ho wr hwr i k hk hw
  · rename_i hno
    exact .inl (hcov hno i k hk hw)

/-- **Every write is based**, the ones of this call too. -/
lemma ReadInv.based_effect {op : Op} {out : Outcome} (heff : Effect w.engine op out e') :
    (r.history.record (op, out)).AllWrites
      (Based (r.history.record (op, out)).commits r.basesAfter) := by
  have hold := hr.based_old (r.history.extends_record op out)
  -- an admitted write goes by the view in force
  have hadmitted : ∀ {e₁ : Engine} {t : TxnId} {s : TxnState} {loc : Loc} {old : Version} {tid : Tid}
      (value : Option Tuple), w.engine.Quiet e₁ → e₁.txns.txns.get? t = some s →
      e₁.leafAt loc = some old → e₁.txns.admitWrite t old.header tid = .ok () →
      Based r.history.commits r.basesAfter t ⟨loc, value⟩ := by
    intro e₁ t s loc old tid value hq hs hleaf hadm
    have hinv := hr.inv.congr hq.same
    obtain ⟨o, hc, ho⟩ := hinv.opened hs
    have hview := viewOf_of_core hc
    have htaken : Taken e₁ r.history t s.pinned (r.views t).current := by
      obtain ⟨hown, hsees, hcommits⟩ := (hr.views t s.pinned (hq.pins t _ hview)).current
      exact ⟨hown, by rw [hq.next, hq.active]; exact hsees, hcommits⟩
    exact hr.based_write ho (fun hno i k hk hw =>
      hinv.covered htaken hview ho hno hleaf hadm hk hw) value
  -- a new row has no writer yet
  have hfresh : ∀ {e₁ : Engine} {txn : TxnId} {s : TxnState} {table : TableId} {t : Table}
      {row : RowId} (value : Option Tuple), w.engine.Quiet e₁ → e₁.txns.txns.get? txn = some s →
      e₁.tables.get? table = some t → t.nextRowId ≤ row →
      Based r.history.commits r.basesAfter txn ⟨(table, row), value⟩ := by
    intro e₁ txn s table t row value hq hs ht hle
    have hinv := hr.inv.congr hq.same
    obtain ⟨o, -, ho⟩ := hinv.opened hs
    refine hr.based_write ho (fun _ i k hk hw => ?_) value
    have hnil := hinv.fresh table t.nextRowId row (nextRow_of_table ht) hle
    exact absurd hw (no_writer_of_versions hnil (mem_of_getElem? hk))
  cases hop : op.writesRows with
  | false => exact hold.record hop out
  | true =>
    cases heff with
    | quiet hq hrec =>
      rw [hrec] at hold ⊢
      exact hold
    | abort hq hs hprepared hrec =>
      rw [hrec] at hold ⊢
      exact hold.drop _
    | insert hq hs ht => exact hold.write (hfresh _ hq hs ht le_rfl)
    | @insertBatch txn table tuples e₁ t s hq hs ht =>
      have hcommits : (r.history.record (.insertBatch txn table tuples, .ok (.tids
          ((range tuples.length).map fun i => tidOf (t.nextRowId + i))))).commits =
            r.history.commits := by
        rcases r.history.commits_record _ _ with hsame | ⟨t, o, v, hcom, -⟩
        · exact hsame
        · cases hcom
      rw [hcommits] at hold ⊢
      have hrows : ∀ wr ∈ (((range tuples.length).map fun i => tidOf (t.nextRowId + i)).zip
          tuples).map fun p => (⟨(table, rowIdOf p.1), some p.2⟩ : Write),
          Based r.history.commits r.basesAfter txn wr := by
        intro wr hwr
        obtain ⟨p, hp, rfl⟩ := mem_map.mp hwr
        obtain ⟨i, -, hi⟩ := mem_map.mp (of_mem_zip hp).1
        rw [← hi]
        exact hfresh _ hq hs ht (Nat.le_add_right _ _)
      have hall := hold.writeAll hrows
      unfold History.writeAll at hall
      rw [foldl_map] at hall
      exact hall
    | update hq hs hleaf hadm | delete hq hs hleaf hadm =>
      exact hold.write (hadmitted _ hq hs hleaf hadm)
    | _ => cases hop

/-- The views of other transactions are where they were, and so is this one's by `hrel`. -/
lemma ReadInv.setWindow {views : Window ReadView} {positions : Window Nat}
    (hrel : Window.Rel (Taken w.engine r.history txn) views positions) :
    ReadInv (w.setWindow txn views)
      ⟨r.history, Function.update r.views txn positions, r.basesAfter⟩ where
  inv := hr.inv.readUnder hrel.current.own
  views t view hview := by
    have hids : ∀ {t v n}, Taken w.engine r.history t v n →
        Taken (w.setWindow txn views).engine r.history t v n := fun ht => ⟨ht.own, ht.sees, ht.commits⟩
    change (w.engine.readUnder txn views.current).viewOf t = some view at hview
    rw [viewOf_readUnder] at hview
    by_cases ht : txn = t
    · subst ht
      rw [if_pos rfl] at hview
      obtain ⟨-, -, rfl⟩ := Option.map_eq_some_iff.mp hview
      simp only [WindowedEngine.setWindow, Function.update_self]
      exact hrel.mono fun _ _ => hids
    · rw [if_neg ht] at hview
      simp only [WindowedEngine.setWindow, Function.update_of_ne (Ne.symm ht)]
      exact (hr.views t view hview).mono fun _ _ => hids
  based := hr.based_old (.inl rfl)

/-- A call that moves neither rows nor views. -/
lemma ReadInv.idle : ReadInv w ⟨r.history, r.views, r.basesAfter⟩ :=
  ⟨hr.inv, hr.views, hr.based_old (.inl rfl)⟩

lemma ReadInv.running_none (hs : w.engine.txns.txns.get? txn = none) :
    r.history.running.get? txn = none := by
  rw [← Option.not_isSome_iff_eq_none, ← hr.inv.running]
  unfold core
  rw [hs]
  exact Bool.false_ne_true

lemma ReadInv.beginStatement (txn : TxnId) :
    ReadInv { w with engine := w.engine.beginStatement txn }
      (r.record (.op (.beginStatement txn), .ok .unit)) := by
  change ReadInv _ ⟨r.history, r.viewsAfter (.op (.beginStatement txn), .ok .unit), r.basesAfter⟩
  unfold Engine.beginStatement Reading.viewsAfter
  cases hs : w.engine.txns.txns.get? txn with
  | none =>
    simp only [hr.running_none hs]
    exact hr.idle
  | some s =>
    obtain ⟨o, hc, ho⟩ := hr.inv.opened hs
    have hlevel : s.level = o.level := (hr.inv.txn txn _ o hc ho).level
    simp only [ho, hlevel]
    split
    · have hrel : Window.Rel (Taken w.engine r.history txn)
          ⟨w.engine.txns.freshView txn, w.freshReads txn⟩
          ⟨r.history.commits.length, (r.views txn).saved⟩ :=
        ⟨Taken.fresh .., (hr.views txn s.pinned (viewOf_of_core hc)).saved⟩
      have hnext := hr.setWindow hrel
      unfold WindowedEngine.setWindow at hnext
      rw [Function.update_eq_self txn w.freshReads] at hnext
      exact hnext
    · exact hr.idle

lemma ReadInv.beginFreshReads (txn : TxnId) :
    ReadInv (w.beginFreshReads txn).1
      (r.record (.beginFreshReads txn, (w.beginFreshReads txn).2)) := by
  unfold WindowedEngine.beginFreshReads
  cases hs : w.engine.txns.txns.get? txn with
  | none => exact hr.idle
  | some s =>
    obtain ⟨o, hc, -⟩ := hr.inv.opened hs
    have hrel := hr.views txn s.pinned (viewOf_of_core hc)
    exact hr.setWindow (hrel.enter (Taken.fresh ..))

lemma ReadInv.endFreshReads (txn : TxnId) :
    ReadInv (w.endFreshReads txn).1 (r.record (.endFreshReads txn, (w.endFreshReads txn).2)) := by
  change ReadInv _ ⟨r.history, r.viewsAfter (.endFreshReads txn, _), r.basesAfter⟩
  unfold WindowedEngine.endFreshReads Reading.viewsAfter
  cases hs : w.engine.txns.txns.get? txn with
  | none =>
    simp only [hr.running_none hs]
    exact hr.idle
  | some s =>
    obtain ⟨o, hc, ho⟩ := hr.inv.opened hs
    simp only [ho]
    exact hr.setWindow (hr.views txn s.pinned (viewOf_of_core hc)).leave

/-- What a call does that takes no view: the windows stay, the open transactions keep their views,
and the invariant holds after it. -/
structure WindowedEngine.Keeps (w : WindowedEngine) (h : History) (w' : WindowedEngine) : Prop where
  freshReads : w'.freshReads = w.freshReads
  pins : w.engine.Pins w'.engine
  next : w.engine.txns.nextTxnId ≤ w'.engine.txns.nextTxnId
  active : ∀ t ∈ w'.engine.txns.active, t ∈ w.engine.txns.active ∨ w.engine.txns.nextTxnId ≤ t
  inv : Inv w'.engine h w'.engine.sight w'.engine.Ended

variable (op : Op) (htaker : ∀ next, op.taker next = none) (hstart : op ≠ .purgeStart)

include htaker in
omit hr in
lemma Op.not_statement (txn : TxnId) : op ≠ .beginStatement txn := by
  rintro rfl
  cases htaker 0

include htaker hstart in
lemma ReadInv.keeps_step :
    w.Keeps (r.history.record (op, (w.engine.step op).2)).catchUp
      { w with engine := (w.engine.step op).1 } where
  freshReads := rfl
  pins t _ := w.engine.views_step op (by rw [htaker]; exact Option.some_ne_none t)
  next := (w.engine.ids_step op).1
  active := (w.engine.ids_step op).2
  inv := hr.inv.sight_effect (w.engine.step_effect op) (op.not_statement htaker) hstart

include htaker hstart in
lemma ReadInv.keeps_judged (txn : TxnId) :
    w.Keeps (r.history.record (op, (w.judged txn op).2)).catchUp (w.judged txn op).1 := by
  unfold WindowedEngine.judged
  cases hs : w.engine.txns.txns.get? txn with
  | none => exact hr.keeps_step op htaker hstart
  | some s =>
    obtain ⟨o, hc, ho⟩ := hr.inv.opened hs
    have hview := viewOf_of_core hc
    have hrel := hr.views txn s.pinned hview
    have hown : (w.snapshot txn s).own = txn := by
      unfold WindowedEngine.snapshot
      have hsaved := hrel.saved
      dsimp only at hsaved
      split
      · exact hrel.current.own
      · rename_i hfresh
        rw [hfresh] at hsaved
        generalize (r.views txn).saved = position at hsaved
        cases hsaved with
        | some hab => exact hab.2.own
    let e₁ := w.engine.readUnder txn (w.snapshot txn s)
    have hinv := (hr.inv.readUnder hown).sight_effect (e₁.step_effect op)
      (op.not_statement htaker) hstart
    refine ⟨rfl, fun t view hv => ?_, (e₁.ids_step op).1, (e₁.ids_step op).2,
      hinv.readUnder hrel.current.own⟩
    dsimp only at hv
    rw [viewOf_readUnder] at hv
    split at hv
    · rename_i ht
      subst ht
      obtain ⟨-, -, rfl⟩ := Option.map_eq_some_iff.mp hv
      exact hview
    · rename_i ht
      have hv := e₁.views_step op (by rw [htaker]; exact Option.some_ne_none t) hv
      rwa [viewOf_readUnder, if_neg ht] at hv

lemma ReadInv.keeps_purgeStart : w.Keeps r.history.catchUp w.purgeStart.1 where
  freshReads := rfl
  pins := pins_of_eq rfl
  next := le_rfl
  active _ ht := .inl ht
  inv := by
    refine (hr.inv.startPass (p := ⟨w.purgeSnapshot, _⟩) (fun x hx => ?_) _ _).sighted
    have hown : w.engine.purgeSnapshot.settled x = true := by
      simp only [PurgeSnapshot.settled, WindowedEngine.purgeSnapshot, all_append,
        Bool.and_eq_true] at hx ⊢
      exact ⟨hx.1, hx.2.1⟩
    exact (w.engine.purgeSnapshot_settled hown).ended

/-- **A call that takes no view keeps every view where it was.** -/
lemma ReadInv.views_kept {w' : WindowedEngine} (hk : w.Keeps h' w') (hext : r.history.Extends h') :
    ∀ txn view, w'.engine.viewOf txn = some view →
      Window.Rel (Taken w'.engine h' txn) ⟨view, w'.freshReads txn⟩ (r.views txn) := by
  intro txn view hview
  obtain ⟨c, hc, -⟩ := core_of_viewOf hview
  have hopen : ∀ k ∈ h'.commits, k.txn ≠ txn := by
    rintro k hk' rfl
    exact (hk.inv.commits k hk').2.2 (hk.inv.mem_active_of_core hc)
  rw [hk.freshReads]
  exact (hr.views txn view (hk.pins txn view hview)).mono fun _ _ ht =>
    ht.step hr.inv hk.next hk.active hext hopen

lemma ReadInv.kept {w' : WindowedEngine} {op : Op} {out : Outcome}
    (hk : w.Keeps (r.history.record (op, out)).catchUp w')
    (hbased : (r.history.record (op, out)).AllWrites
      (Based (r.history.record (op, out)).commits r.basesAfter)) :
    ReadInv w' ⟨(r.history.record (op, out)).catchUp, r.views, r.basesAfter⟩ where
  inv := hk.inv
  views := hr.views_kept hk (r.history.extends_record op out)
  based := hbased.catchUp

lemma ReadInv.begin (level : IsolationLevel) :
    ReadInv (w.call (.begin level)).1 (r.record (.op (.begin level), (w.call (.begin level)).2)) := by
  have hinv := hr.inv.sight_effect (Effect.begin level) nofun nofun
  refine ⟨hinv, fun t view hview => ?_, (hr.based_effect (.begin level)).catchUp⟩
  obtain ⟨c, hc, -⟩ := core_of_viewOf hview
  change ((w.engine.txns.txns.insert w.engine.txns.nextTxnId _).get? t).map TxnState.pinned =
    some view at hview
  show Window.Rel _ ⟨view, Function.update w.freshReads w.engine.txns.nextTxnId none t⟩
    (Function.update r.views w.engine.txns.nextTxnId ⟨r.history.commits.length, none⟩ t)
  rw [get?_insert] at hview
  split at hview
  · rename_i ht
    subst ht
    cases hview
    rw [Function.update_self, Function.update_self]
    exact ⟨Taken.fresh (w.engine.begin level).1 _ w.engine.txns.nextTxnId, .none⟩
  · rename_i ht
    rw [Function.update_of_ne (Ne.symm ht), Function.update_of_ne (Ne.symm ht)]
    refine (hr.views t view hview).mono fun _ _ htaken => ?_
    refine htaken.step hr.inv (Nat.le_succ _) (fun x hx => ?_) (.inl rfl) ?_
    · rcases mem_cons.mp hx with rfl | hold
      · exact .inr le_rfl
      · exact .inl hold
    · rintro k hk rfl
      exact (hinv.commits k hk).2.2 (hinv.mem_active_of_core hc)

/-- **Every call keeps it.** -/
theorem ReadInv.step (call : Call) :
    ReadInv (w.step call).1 (r.record (call, (w.step call).2)) := by
  cases call with
  | beginFreshReads txn => exact hr.beginFreshReads txn
  | endFreshReads txn => exact hr.endFreshReads txn
  | op op =>
    have heff := w.engine.step_effect op
    cases op with
    | begin level => exact hr.begin level
    | beginStatement txn => exact hr.beginStatement txn
    | commit txn =>
      exact hr.kept (hr.keeps_judged (.commit txn) (fun _ => rfl) nofun txn)
        ((hr.based_old (extends_record ..)).record rfl _)
    | prepareTxn txn gid owner database =>
      exact hr.kept (hr.keeps_judged (.prepareTxn txn gid owner database) (fun _ => rfl) nofun txn)
        ((hr.based_old (extends_record ..)).record rfl _)
    | purgeStart =>
      refine hr.kept ?_ (hr.based_old (.inl rfl))
      exact hr.keeps_purgeStart
    | _ => exact hr.kept (hr.keeps_step _ (fun _ => rfl) nofun) (hr.based_effect heff)

/-- From step to run. -/
theorem ReadInv.run (calls : List Call) :
    ReadInv (w.run calls).1 ((w.run calls).2.foldl Reading.record r) := by
  induction calls generalizing w r with
  | nil => exact hr
  | cons call calls ih => exact ih (hr.step call)

/-- First committer wins: no transaction writes a row on a base older than the last commit to it. -/
theorem ReadInv.ordered : r.Ordered := by
  intro loc i j ki kj hi hj hlt hwi hwj
  obtain ⟨wr, hwr, rfl⟩ := hwj
  rcases hr.based.commits kj (mem_of_getElem? hj) wr hwr i ki hi hwi with
    hbase | ⟨j', k', hle, hj', htxn⟩
  · exact hbase
  -- a transaction commits once, and `kj` did not do so at `i` or before
  have hbound : j < (r.history.commits.map Committed.txn).length := by
    rw [length_map]
    exact (List.getElem?_eq_some_iff.mp hj).1
  have hsame : (r.history.commits.map Committed.txn)[j]? =
      (r.history.commits.map Committed.txn)[j']? := by
    rw [getElem?_map, getElem?_map, hj, hj', Option.map_some, Option.map_some, htxn]
  obtain rfl := (getElem?_inj hbound hr.inv.commitsNodup).mp hsame
  exact absurd hlt (not_lt.mpr hle)

end

/-! ## No lost update -/

/-- Two committed writers of a row did not overlap, and the next successful update or delete
replaces the row's latest version. -/
structure NoLostUpdate (w : WindowedEngine) (r : Reading) : Prop where
  ordered : r.Ordered
  update : ∀ txn table tid tuple v, (w.step (.op (.update txn table tid tuple))).2 = .ok v →
    ∃ old slot, Latest w.engine r.history txn (table, rowIdOf tid) old ∧
      (w.step (.op (.update txn table tid tuple))).1.engine.leafAt (table, rowIdOf tid) =
        some ⟨⟨txn, noXmax, some slot⟩, tuple⟩ ∧
      (w.step (.op (.update txn table tid tuple))).1.engine.reclaim.arena.slot slot = some old
  delete : ∀ txn table tid v, (w.step (.op (.delete txn table tid))).2 = .ok v →
    ∃ old, Latest w.engine r.history txn (table, rowIdOf tid) old ∧
      (w.step (.op (.delete txn table tid))).1.engine.leafAt (table, rowIdOf tid) =
        some { old with header := { old.header with xmax := txn } }

lemma Inv.update_replaces (hinv : Inv e h S P) {table : TableId} {tid : Tid} {tuple : Tuple}
    {v : Value} (hok : (e.step (.update txn table tid tuple)).2 = .ok v) :
    ∃ old slot, Latest e h txn (table, rowIdOf tid) old ∧
      (e.step (.update txn table tid tuple)).1.leafAt (table, rowIdOf tid) =
        some ⟨⟨txn, noXmax, some slot⟩, tuple⟩ ∧
      (e.step (.update txn table tid tuple)).1.reclaim.arena.slot slot = some old := by
  have heff := e.step_effect (.update txn table tid tuple)
  rw [hok] at heff
  obtain ⟨e₁, old, s, hq, hs, hold, hadm, heq⟩ := heff.update_ok
  rw [heq]
  refine ⟨old, (e₁.reclaim.park old).2, hinv.latest hq hs hold hadm, ?_, ?_⟩
  · have hleaf : (e₁.putUpdate txn table (rowIdOf tid) old tuple).leafAt =
        Function.update e₁.leafAt (table, rowIdOf tid)
          (some ⟨⟨txn, noXmax, some (e₁.reclaim.park old).2⟩, tuple⟩) :=
      leafAt_insert (fun _ => rfl) (table_of_leaf hold)
    rw [hleaf, Function.update_self]
  · obtain ⟨slots, hstore⟩ := (hinv.congr hq.same).store
    show (e₁.reclaim.park old).1.arena.slot (e₁.reclaim.park old).2 = some old
    rw [(UndoDomain.park_spec hstore.owned.freeEmpty old).1, if_pos rfl]

lemma Inv.delete_replaces (hinv : Inv e h S P) {table : TableId} {tid : Tid} {v : Value}
    (hok : (e.step (.delete txn table tid)).2 = .ok v) :
    ∃ old, Latest e h txn (table, rowIdOf tid) old ∧
      (e.step (.delete txn table tid)).1.leafAt (table, rowIdOf tid) =
        some { old with header := { old.header with xmax := txn } } := by
  have heff := e.step_effect (.delete txn table tid)
  rw [hok] at heff
  obtain ⟨e₁, old, s, hq, hs, hold, hadm, heq⟩ := heff.delete_ok
  rw [heq]
  refine ⟨old, hinv.latest hq hs hold hadm, ?_⟩
  have hleaf : (e₁.putDelete txn table (rowIdOf tid) old).leafAt =
      Function.update e₁.leafAt (table, rowIdOf tid)
        (some { old with header := { old.header with xmax := txn } }) :=
    leafAt_insert (fun _ => rfl) (table_of_leaf hold)
  rw [hleaf, Function.update_self]

lemma ReadInv.init (hf : e.Fresh) : ReadInv ⟨e, fun _ => none⟩ .init where
  inv := (Inv.init hf).sighted
  views txn view hview := by
    unfold viewOf at hview
    rw [hf.txns] at hview
    cases hview
  based := ⟨nofun, nofun⟩

/-- **No lost update.** Every state of every run of calls, fresh reads among them, keeps the
promise. -/
theorem no_lost_update (hf : e.Fresh) (calls : List Call) :
    NoLostUpdate (WindowedEngine.run ⟨e, fun _ => none⟩ calls).1
      (Reading.of (WindowedEngine.run ⟨e, fun _ => none⟩ calls).2) := by
  have hr := (ReadInv.init hf).run calls
  refine ⟨hr.ordered, ?_, ?_⟩
  · exact fun txn table tid tuple v hok => hr.inv.update_replaces hok
  · exact fun txn table tid v hok => hr.inv.delete_replaces hok

/-- Two writers of one row at `REPEATABLE READ`, both committed: the second began before the first
committed, and writes in a window opened after it. -/
theorem no_lost_update_two_writers :
    let calls : List Call := [.op (.begin .repeatableRead), .op (.insert 1 1 [7]), .op (.commit 1),
      .op (.begin .repeatableRead), .op (.begin .repeatableRead), .op (.update 3 1 (tidOf 0) [8]),
      .op (.commit 3), .beginFreshReads 2, .op (.update 2 1 (tidOf 0) [9]), .endFreshReads 2,
      .op (.commit 2)]
    let w := WindowedEngine.run ⟨Engine.create [(1, Table.create "t")] [] 0, fun _ => none⟩ calls
    (Reading.of w.2).history.commits.map Committed.txn = [1, 3, 2] ∧
      NoLostUpdate w.1 (Reading.of w.2) :=
  ⟨by decide, no_lost_update (create_fresh (by simp [Table.create]) (by simp)) _⟩

end NusaDb
