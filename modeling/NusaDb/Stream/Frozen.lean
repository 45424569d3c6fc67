import NusaDb.Stream.Remaining

/-!
# A stream is frozen when it is opened

Whatever other transactions do, the rows a stream has still to give, computed in the engine as it is
now, are what is left of the scan when it was opened (`Streaming`).
-/

namespace NusaDb

open List Option Engine OrdMap ScanEngine StreamState

section

variable {s s' : ScanEngine} {h : History} {key : Nat} {txn : TxnId} {rows : List (Tid × Tuple)}
  {st : StreamState} {ixs : IndexId → Prop} {op : ScanOp}

/-! ## The engine under the streams -/

def Op.Spares (ixs : IndexId → Prop) (c : Op) : Prop :=
  ∀ index, ixs index → c.deletesFrom index = false

/-- The engine agrees with a history, and no open transaction has taken an entry of these indexes
out. -/
structure ScanInv (ixs : IndexId → Prop) (e : Engine) (h : History) : Prop where
  inv : Inv e h
  passes : e.PassesOk h
  reserved : e.Settled noXmax
  none : ∀ index, ixs index → e.NoneTaken index

variable {e : Engine} {c : Op}

lemma ScanInv.step (hi : ScanInv ixs e h) (hc : c.Spares ixs) :
    ScanInv ixs (e.step c).1 (h.record (c, (e.step c).2)) where
  inv := hi.inv.step c
  passes := hi.passes.step hi.inv c
  reserved := e.settled_step c noXmax hi.reserved
  none index hindex := (hi.none index hindex).step hi.inv (hc index hindex)

lemma ScanEngine.purgeSnapshot_settled {x : TxnId} (hx : s.purgeSnapshot.settled x = true) :
    s.engine.Settled x ∧ ∀ k scan, s.views.get? k = some scan → scan.pin.sees x = true := by
  simp only [PurgeSnapshot.settled, purgeSnapshot, all_append, Bool.and_eq_true] at hx
  obtain ⟨hids, hown, hpins⟩ := hx
  constructor
  · refine s.engine.purgeSnapshot_settled ?_
    simp only [PurgeSnapshot.settled, Bool.and_eq_true]
    exact ⟨hids, hown⟩
  · intro k scan hscan
    exact all_eq_true.mp hpins _ (mem_map_of_mem (mem_values.mpr ⟨k, hscan⟩))

lemma ScanInv.purgeStart (hi : ScanInv ixs s.engine h) : ScanInv ixs s.purgeStart.1.engine h where
  inv := hi.inv.startPass (p := ⟨s.purgeSnapshot, .tables s.engine.tables.keys⟩)
    (fun _ hx => (purgeSnapshot_settled hx).1) _ _
  passes := hi.passes.startPass (p := ⟨s.purgeSnapshot, .tables s.engine.tables.keys⟩) rfl _ _
  reserved := hi.reserved
  none := hi.none

/-! ## One stream -/

/-- A stream not read to its end: it is registered with purge, its view is held, and the index it
walks, if any, is one of `ixs`. -/
structure Live (ixs : IndexId → Prop) (e : Engine) (views : OrdMap Nat OpenScan) (h : History)
    (key : Nat) (txn : TxnId) (st : StreamState) : Prop where
  registered : ∃ scan, views.get? key = some scan ∧ scan.txn = txn ∧ scan.pin = st.view.pin
  held : ∃ writes past, Held e h txn st.view writes past
  index : ∀ range, st.index = some range → ixs range.index ∧ e.indexTable range.index = some st.table

/-- The stream `key` of `txn` has still to give `rows`. -/
structure Streaming (ixs : IndexId → Prop) (s : ScanEngine) (h : History) (key : Nat) (txn : TxnId)
    (rows : List (Tid × Tuple)) : Prop where
  older : key < s.nextKey
  stream : ∃ st, s.streams.get? key = some st ∧ st.remaining s.engine = rows ∧
    (st.done = true ∨ Live ixs s.engine s.views h key txn st)

variable {views : OrdMap Nat OpenScan}

lemma Live.same {views' : OrdMap Nat OpenScan} {st' : StreamState}
    (hl : Live ixs e views h key txn st) (hsame : st.Same st')
    (hviews : ∀ scan, views.get? key = some scan → scan.txn = txn → views'.get? key = some scan) :
    Live ixs e views' h key txn st' := by
  obtain ⟨scan, hscan, htxn, hpin⟩ := hl.registered
  refine ⟨⟨scan, hviews scan hscan htxn, htxn, ?_⟩, ?_, ?_⟩
  · rw [hsame.view, hpin]
  · rw [hsame.view]
    exact hl.held
  · intro range hrange
    have hmap := hsame.index
    rw [hrange] at hmap
    obtain ⟨range0, hrange0, heq⟩ := map_eq_some_iff.mp hmap.symm
    rw [hsame.table, ← heq]
    exact hl.index range0 hrange0

variable (hs : Streaming ixs s h key txn rows)

include hs

lemma Streaming.reread {rows' : List (Tid × Tuple)} (hengine : s'.engine = s.engine)
    (hkey : s.nextKey ≤ s'.nextKey)
    (hviews : ∀ scan, s.views.get? key = some scan → scan.txn = txn → s'.views.get? key = some scan)
    (hstream : ∀ st, s.streams.get? key = some st → st.remaining s.engine = rows →
      ∃ st', s'.streams.get? key = some st' ∧ st.Same st' ∧ st'.remaining s.engine = rows') :
    Streaming ixs s' h key txn rows' := by
  obtain ⟨st, hst, hrows, hlive⟩ := hs.stream
  obtain ⟨st', hst', hsame, hrows'⟩ := hstream st hst hrows
  refine ⟨lt_of_lt_of_le hs.older hkey, st', hst', ?_, ?_⟩
  · rw [hengine]
    exact hrows'
  · rw [hengine]
    exact hlive.imp hsame.done fun hl => hl.same hsame hviews

lemma Streaming.under {h' : History} (hstreams : s'.streams = s.streams)
    (hviews : s'.views = s.views) (hkey : s'.nextKey = s.nextKey)
    (hlive : ∀ st, Live ixs s.engine s.views h key txn st →
      st.unread s'.engine = st.unread s.engine ∧ Live ixs s'.engine s.views h' key txn st) :
    Streaming ixs s' h' key txn rows := by
  obtain ⟨st, hst, hrows, hor⟩ := hs.stream
  refine ⟨hkey ▸ hs.older, st, hstreams ▸ hst, ?_, ?_⟩
  · rcases hor with hdone | hl
    · rw [remaining_of_done hdone]
      exact hrows
    rw [← hrows]
    unfold remaining
    rw [(hlive st hl).1]
  · rw [hviews]
    exact hor.imp (fun hdone => hdone) fun hl => (hlive st hl).2

/-! ## Calls -/

omit hs in
lemma Engine.tables_step (e : Engine) (c : Op) (table : TableId) :
    ((e.step c).1.tables.get? table).isSome = (e.tables.get? table).isSome := by
  cases hc : c.isPurge with
  | false => exact (e.frame_step c hc).tables table
  | true =>
    cases c with
    | purgeStart => rfl
    | purgeStep pass pressure =>
      have hsign := congrArg isSome (congrFun (e.purgeStep_signs pass pressure).1 table)
      unfold tableSign at hsign
      rwa [isSome_map, isSome_map] at hsign
    | _ => cases hc

omit hs in
lemma Live.step (hi : ScanInv ixs e h) (hl : Live ixs e views h key txn st) (hc : c.Spares ixs)
    (hne : c.changes e.txns.preparedGids ≠ some txn) (hstart : c ≠ .purgeStart) :
    st.unread (e.step c).1 = st.unread e ∧
      Live ixs (e.step c).1 views (h.record (c, (e.step c).2)) key txn st := by
  obtain ⟨writes, past, hheld⟩ := hl.held
  have hheld' := hheld.step hi.inv hi.passes hne hstart
  have hsign := e.indexSign_step c
  constructor
  · refine unread_congr (e.tables_step c st.table) (fun _ row => ?_) fun range hrange => ?_
    · rw [hheld'.visibleAt_eq, hheld.visibleAt_eq]
    · obtain ⟨hix, htable⟩ := hl.index range hrange
      refine ⟨?_, fun k => ?_⟩
      · have hsome := congrArg isSome (congrFun hsign range.index)
        unfold indexSign at hsome
        rw [isSome_map, isSome_map] at hsome
        exact hsome
      · exact hheld.entryAt_step hi.inv hi.passes (hi.none _ hix) hne hstart (hc _ hix) htable k
  · refine ⟨hl.registered, ⟨writes, past, hheld'⟩, fun range hrange => ?_⟩
    rw [indexTable_of_sign hsign]
    exact hl.index range hrange

omit hs in
lemma Streaming.step_engine (hi : ScanInv ixs s.engine h) (hs : Streaming ixs s h key txn rows)
    (hc : c.Spares ixs) (hne : c.changes s.engine.txns.preparedGids ≠ some txn)
    (hstart : c ≠ .purgeStart) :
    Streaming ixs { s with engine := (s.engine.step c).1 } (h.record (c, (s.engine.step c).2)) key
      txn rows :=
  hs.under rfl rfl rfl fun _ hl => hl.step hi hc hne hstart

lemma Streaming.purgeStart : Streaming ixs s.purgeStart.1 h key txn rows := by
  refine hs.under rfl rfl rfl fun st hl => ⟨rfl, hl.registered, ?_, hl.index⟩
  obtain ⟨writes, past, hheld⟩ := hl.held
  obtain ⟨scan, hscan, -, hpin⟩ := hl.registered
  refine ⟨writes, past, hheld.startPass (p := ⟨s.purgeSnapshot, .tables s.engine.tables.keys⟩)
    (fun x hx => ?_) rfl _ _⟩
  rw [← hpin]
  exact (purgeSnapshot_settled hx).2 key scan hscan

lemma Streaming.drainWhere (which : OpenScan → Bool) :
    Streaming ixs (s.drainWhere which) h key txn rows := by
  refine hs.reread rfl le_rfl (fun _ hscan _ => hscan) fun st hst hrows => ?_
  have hdrained : ∀ (keys : List Nat) (m : OrdMap Nat StreamState) (st : StreamState),
      m.get? key = some st → st.remaining s.engine = rows →
      ∃ st', (keys.foldl (fun m key => m.modify key fun st => st.drain s.engine s.limits) m).get? key =
          some st' ∧ st.Same st' ∧ st'.remaining s.engine = rows := by
    intro keys
    induction keys with
    | nil => exact fun m st hst hrows => ⟨st, hst, .refl st, hrows⟩
    | cons k keys ih =>
      intro m st hst hrows
      by_cases hk : k = key
      · obtain ⟨hsame, hrem, -⟩ := drain_spec (e := s.engine) st
        have hget : (m.modify k fun st => st.drain s.engine s.limits).get? key =
            some (st.drain s.engine s.limits) := by
          rw [get?_modify, if_pos hk, hk, hst]
          rfl
        obtain ⟨st', hst', hsame', hrows'⟩ := ih _ _ hget (hrem.trans hrows)
        exact ⟨st', hst', hsame.trans hsame', hrows'⟩
      · refine ih _ st ?_ hrows
        rw [get?_modify, if_neg hk]
        exact hst
  exact hdrained _ s.streams st hst hrows

lemma Streaming.finishOpenScans {t : TxnId} (ht : t ≠ txn) :
    Streaming ixs (s.finishOpenScans t) h key txn rows := by
  have hdrained : Streaming ixs (s.drainOpenScans t none) h key txn rows := hs.drainWhere _
  refine hdrained.reread rfl le_rfl (fun scan hscan htxn => ?_)
    fun st hst hrows => ⟨st, hst, .refl st, hrows⟩
  refine mem_toList.mp (mem_filter.mpr ⟨mem_toList.mpr hscan, decide_eq_true ?_⟩)
  show scan.txn ≠ t
  rw [htxn]
  exact ht.symm

omit hs in
/-- Before a call of `t` the streams it could disturb are read to their end, or closed with `t`. -/
lemma ScanEngine.beforeCall_cases (s : ScanEngine) (c : Op) :
    s.beforeCall c = s ∨ (∃ which, s.beforeCall c = s.drainWhere which) ∨
      ∃ t, c.changes s.engine.txns.preparedGids = some t ∧ s.beforeCall c = s.finishOpenScans t := by
  have hentry : ∀ t index, beforeCall.beforeEntry s t index = s ∨
      ∃ which, beforeCall.beforeEntry s t index = s.drainWhere which := by
    intro t index
    unfold beforeCall.beforeEntry
    split
    · split
      · exact .inl rfl
      · exact .inr ⟨_, rfl⟩
    · exact .inl rfl
  unfold beforeCall
  split
  · split
    · exact .inl rfl
    · exact .inr (.inl ⟨_, rfl⟩)
  · exact .inr (.inl ⟨_, rfl⟩)
  · exact .inr (.inl ⟨_, rfl⟩)
  · exact .inr (.inr ⟨_, rfl, rfl⟩)
  · exact .inr (.inr ⟨_, rfl, rfl⟩)
  · exact .inr (.inr ⟨_, rfl, rfl⟩)
  · exact (hentry _ _).imp_right Or.inl
  · split
    · exact .inl rfl
    · exact (hentry _ _).imp_right Or.inl
  · exact (hentry _ _).imp_right Or.inl
  · exact .inl rfl

lemma Streaming.beforeCall (hne : c.changes s.engine.txns.preparedGids ≠ some txn) :
    Streaming ixs (s.beforeCall c) h key txn rows := by
  rcases s.beforeCall_cases c with heq | ⟨which, heq⟩ | ⟨t, hc, heq⟩ <;> rw [heq]
  · exact hs
  · exact hs.drainWhere which
  · exact hs.finishOpenScans fun ht => hne (ht ▸ hc)

omit hs

/-! ## Steps -/

def ScanOp.deletesFrom (index : IndexId) : ScanOp → Bool
  | .call c => c.deletesFrom index
  | _ => false

/-- The step is one of others: it does not change what `txn` has written, nor close the stream. -/
def ScanOp.Apart (gids : OrdMap String TxnId) (txn : TxnId) (key : Nat) : ScanOp → Prop
  | .call c => c.changes gids ≠ some txn
  | .close key' => key' ≠ key
  | _ => True

def ScanEngine.record (s : ScanEngine) (h : History) : ScanOp → History
  | .call .purgeStart => h
  | .call c => h.record (c, (s.engine.step c).2)
  | _ => h

lemma ScanEngine.call_eq (hstart : c ≠ .purgeStart) :
    (s.call c).1 = { s.beforeCall c with engine := ((s.beforeCall c).engine.step c).1 } := by
  unfold call
  split
  · exact absurd rfl hstart
  · rfl

lemma ScanEngine.record_call (hstart : c ≠ .purgeStart) :
    s.record h (.call c) = h.record (c, (s.engine.step c).2) := by
  cases c with
  | purgeStart => exact absurd rfl hstart
  | _ => rfl

variable (s)

lemma ScanEngine.beforeCall_engine (c : Op) : (s.beforeCall c).engine = s.engine := by
  rcases s.beforeCall_cases c with heq | ⟨which, heq⟩ | ⟨t, -, heq⟩ <;> rw [heq]
  · rfl
  · rfl

/-- What opening a stream leaves alone: the streams that are open, and the engine but for the reads
that `c` registers. -/
structure ScanEngine.Opens (s : ScanEngine) (c : Op) (s' : ScanEngine) : Prop where
  engine : s'.engine = s.engine ∨ s'.engine = (s.engine.step c).1
  older : ∀ k < s.nextKey, s'.streams.get? k = s.streams.get? k ∧ s'.views.get? k = s.views.get? k
  next : s.nextKey ≤ s'.nextKey

lemma ScanEngine.Opens.refl (c : Op) : s.Opens c s :=
  ⟨.inl rfl, fun _ _ => ⟨rfl, rfl⟩, le_rfl⟩

lemma ScanEngine.Opens.register (c : Op) (txn : TxnId) (st : StreamState) :
    s.Opens c (s.register txn st).1 := by
  refine ⟨.inl rfl, fun k hk => ?_, Nat.le_succ _⟩
  constructor
  · show (s.streams.insert s.nextKey st).get? k = _
    rw [get?_insert, if_neg (ne_of_gt hk)]
  · show (s.views.insert s.nextKey _).get? k = _
    rw [get?_insert, if_neg (ne_of_gt hk)]

variable {read : Engine × Except Error (List (Tid × Tuple))}

lemma ScanEngine.Opens.materialise (table : TableId) (view : ReadView)
    (hread : read.1 = (s.engine.step c).1) : s.Opens c (s.materialise table view read).1 := by
  unfold ScanEngine.materialise
  split
  · exact ⟨.inr hread, fun _ _ => ⟨rfl, rfl⟩, le_rfl⟩
  refine ⟨.inr hread, fun k hk => ⟨?_, rfl⟩, Nat.le_succ _⟩
  show (s.streams.insert s.nextKey _).get? k = _
  rw [get?_insert, if_neg (ne_of_gt hk)]

lemma ScanEngine.openTable_opens (txn : TxnId) (table : TableId) :
    s.Opens (.scan txn table) (s.openTable txn table).1 := by
  unfold openTable
  split
  · exact .refl s _
  split
  · exact .refl s _
  split
  · exact .materialise s _ _ rfl
  · exact .register s _ _ _

lemma ScanEngine.openIndex_opens (txn : TxnId) (index : IndexId) (lo hi : Bound)
    (backward : Bool) (limit : Option Nat) :
    s.Opens (.indexScan txn index lo hi backward limit)
      (s.openIndex txn index lo hi backward limit).1 := by
  unfold openIndex
  split
  · exact .refl s _
  split
  · exact .refl s _
  split
  · exact .refl s _
  split
  · exact .materialise s _ _ rfl
  · exact .register s _ _ _

variable {s} (hi : ScanInv ixs s.engine h)

include hi

lemma ScanInv.opens (ho : s.Opens c s') (hc : c.Spares ixs)
    (hrec : ∀ out, h.record (c, out) = h) : ScanInv ixs s'.engine h := by
  rcases ho.engine with hsame | hread
  · rw [hsame]
    exact hi
  · rw [hread, ← hrec (s.engine.step c).2]
    exact hi.step hc

variable (hs : Streaming ixs s h key txn rows)

include hs

lemma Streaming.opens (ho : s.Opens c s') (hc : c.Spares ixs)
    (hrec : ∀ out, h.record (c, out) = h) (hne : c.changes s.engine.txns.preparedGids ≠ some txn)
    (hstart : c ≠ .purgeStart) : Streaming ixs s' h key txn rows := by
  obtain ⟨hstream, hview⟩ := ho.older key hs.older
  have hkept : Streaming ixs { s' with engine := s.engine } h key txn rows := by
    refine hs.reread rfl ho.next (fun scan hscan _ => hview.trans hscan) fun st hst hrows => ?_
    exact ⟨st, hstream.trans hst, .refl st, hrows⟩
  rcases ho.engine with hsame | hread
  · rw [← hsame] at hkept
    exact hkept
  have hstep := Streaming.step_engine (s := { s' with engine := s.engine }) hi hkept hc hne hstart
  rw [hrec] at hstep
  rw [← hread] at hstep
  exact hstep

omit hs in
lemma ScanInv.scanStep (hsp : ∀ index, ixs index → op.deletesFrom index = false) :
    ScanInv ixs (s.step op).1.engine (s.record h op) := by
  cases op with
  | call c =>
    by_cases hstart : c = .purgeStart
    · subst hstart
      exact hi.purgeStart
    show ScanInv ixs (s.call c).1.engine _
    rw [call_eq hstart, record_call hstart, s.beforeCall_engine c]
    exact hi.step hsp
  | openTable t table =>
    exact hi.opens (s.openTable_opens t table) (fun _ _ => rfl) fun _ => rfl
  | openIndex t index lo hi' backward limit =>
    exact hi.opens (s.openIndex_opens t index lo hi' backward limit) (fun _ _ => rfl) fun _ => rfl
  | read k => exact hi
  | next k =>
    show ScanInv ixs (s.next k).1.engine h
    unfold ScanEngine.next
    split
    · exact hi
    · exact hi
  | close k => exact hi

/-- **A step of others leaves what a stream has still to give.** Reading it ahead does, too. -/
theorem Streaming.scanStep (hsp : ∀ index, ixs index → op.deletesFrom index = false)
    (hap : op.Apart s.engine.txns.preparedGids txn key) (hnext : op ≠ .next key) :
    Streaming ixs (s.step op).1 (s.record h op) key txn rows := by
  cases op with
  | call c =>
    by_cases hstart : c = .purgeStart
    · subst hstart
      exact hs.purgeStart
    have hbefore := hs.beforeCall (c := c) hap
    rw [← s.beforeCall_engine c] at hi hap
    have hstep := hbefore.step_engine hi hsp hap hstart
    show Streaming ixs (s.call c).1 _ key txn rows
    rw [call_eq hstart, record_call hstart, ← s.beforeCall_engine c]
    exact hstep
  | openTable t table =>
    exact hs.opens hi (s.openTable_opens t table) (fun _ _ => rfl) (fun _ => rfl)
      (some_ne_none txn).symm fun hf => by cases hf
  | openIndex t index lo hi' backward limit =>
    exact hs.opens hi (s.openIndex_opens t index lo hi' backward limit) (fun _ _ => rfl)
      (fun _ => rfl) (some_ne_none txn).symm fun hf => by cases hf
  | read k =>
    refine hs.reread rfl le_rfl (fun _ hscan _ => hscan) fun st hst hrows => ?_
    by_cases hk : k = key
    · refine ⟨if st.done then st else st.fill s.engine s.limits, ?_, ?_⟩
      · show (s.streams.modify k _).get? key = _
        rw [get?_modify, if_pos hk, hk, hst]
        rfl
      · cases hdone : st.done with
        | true => exact ⟨.refl st, hrows⟩
        | false =>
          have hfill : FillSpec s.engine st (st.fill s.engine s.limits) :=
            fill_spec hdone
          exact ⟨hfill.same, hfill.remaining.trans hrows⟩
    · refine ⟨st, ?_, .refl st, hrows⟩
      show (s.streams.modify k _).get? key = _
      rw [get?_modify, if_neg hk]
      exact hst
  | next k =>
    show Streaming ixs (s.next k).1 h key txn rows
    unfold ScanEngine.next
    split
    · exact hs
    refine hs.reread rfl le_rfl (fun _ hscan _ => hscan) fun st hst hrows => ?_
    refine ⟨st, ?_, .refl st, hrows⟩
    rw [get?_insert, if_neg fun hk => hnext (congrArg ScanOp.next hk)]
    exact hst
  | close k =>
    refine hs.reread rfl le_rfl (fun scan hscan _ => ?_) fun st hst hrows => ?_
    · show (s.views.erase k).get? key = _
      rw [get?_erase, if_neg hap]
      exact hscan
    · refine ⟨st, ?_, .refl st, hrows⟩
      show (s.streams.erase k).get? key = _
      rw [get?_erase, if_neg hap]
      exact hst

omit hi in
/-- **`next` hands out the first of the rows to come** and leaves the others. -/
theorem Streaming.next : (s.step (.next key)).2 = .row rows.head? ∧
      Streaming ixs (s.step (.next key)).1 h key txn rows.tail := by
  obtain ⟨st, hst, hrows, -⟩ := hs.stream
  obtain ⟨hsame, hhead, htail⟩ :
      st.Same (st.tryNext s.engine s.limits).1 ∧ _ ∧ _ := tryNext_spec st
  have hnext : s.next key = ({ s with
      streams := s.streams.insert key (st.tryNext s.engine s.limits).1 },
      (st.tryNext s.engine s.limits).2) := by
    unfold ScanEngine.next
    rw [hst]
  constructor
  · show ScanOutcome.row (s.next key).2 = _
    rw [hnext, hhead, hrows]
  · show Streaming ixs (s.next key).1 h key txn rows.tail
    rw [hnext]
    refine hs.reread rfl le_rfl (fun _ hscan _ => hscan) fun st' hst' hrows' => ?_
    rw [hst] at hst'
    cases hst'
    exact ⟨_, get?_insert_self .., hsame, by rw [htail, hrows]⟩

omit hs

/-! ## Opening -/

variable {table : TableId}

omit hi in
lemma ScanEngine.materialise_streaming {view : ReadView}
    (hopen : (s.materialise table view read).2 = .ok key) :
    ∃ rows, read.2 = .ok rows ∧ Streaming ixs (s.materialise table view read).1 h key txn rows := by
  obtain ⟨e, result⟩ := read
  cases result with
  | error err => cases hopen
  | ok rows =>
    cases hopen
    refine ⟨rows, rfl, Nat.lt_succ_self _, .whole table view rows, get?_insert_self .., ?_,
      Or.inl rfl⟩
    show rows ++ [] = rows
    rw [append_nil]

lemma ScanEngine.register_streaming {state : TxnState}
    (hstate : s.engine.txns.txns.get? txn = some state) (hview : st.view = state.pinned)
    (hopen : st.done = false) (hbuf : st.buffered = [])
    (hindex : ∀ range, st.index = some range →
      ixs range.index ∧ s.engine.indexTable range.index = some st.table) :
    Streaming ixs (s.register txn st).1 h (s.register txn st).2 txn (st.unread s.engine) := by
  refine ⟨Nat.lt_succ_self _, st, get?_insert_self .., ?_, .inr ⟨?_, ?_, hindex⟩⟩
  · unfold remaining
    rw [hbuf, hopen, if_neg Bool.false_ne_true]
    rfl
  · exact ⟨_, get?_insert_self .., rfl, rfl⟩
  · obtain ⟨o, hcore, ho⟩ := hi.inv.opened hstate
    rw [hview]
    exact ⟨_, _, hi.inv.held hi.passes hi.reserved hcore ho⟩

lemma ScanEngine.openTable_streaming (hopen : (s.openTable txn table).2 = .ok key) :
    ∃ rows, (s.engine.scan txn table).2 = .ok rows ∧
      Streaming ixs (s.openTable txn table).1 h key txn rows := by
  unfold openTable at hopen ⊢
  rcases ht : s.engine.tables.get? table with _ | t <;> rw [ht] at hopen
  · cases hopen
  rcases hstate : s.engine.txns.txns.get? txn with _ | state <;> rw [hstate] at hopen
  · cases hopen
  dsimp only at hopen ⊢
  by_cases hlevel : state.level = .serializable
  · rw [if_pos hlevel] at hopen ⊢
    exact s.materialise_streaming hopen
  rw [if_neg hlevel] at hopen ⊢
  have hscan : (s.engine.scan txn table).2 = .ok (s.engine.visibleRows t state.pinned) := by
    simp only [scan, ht, hstate, if_neg hlevel]
  refine ⟨_, hscan, ?_⟩
  cases hopen
  let st : StreamState := ⟨table, state.pinned, t.nextRowId, 0, false, [], none⟩
  have hunread : st.unread s.engine = s.engine.visibleRows t state.pinned := by
    have hwalk : st.walk t = t.rows.toList := by
      rw [st.walk_eq]
      refine filter_eq_self.mpr fun p hp => ?_
      unfold admits
      rw [Bool.and_eq_true]
      have hleaf := (leafAt_eq_of_table ht p.1).trans (mem_toList.mp hp)
      exact ⟨decide_eq_true (Nat.zero_le _),
        decide_eq_true (hi.inv.row_lt hleaf (nextRow_of_table ht))⟩
    rw [unread_table rfl ht, hwalk]
    rfl
  rw [← hunread]
  exact s.register_streaming hi hstate rfl rfl rfl fun range hrange => by cases hrange

/-- An opened index cursor has all of the scan's rows before it. -/
lemma ScanEngine.openIndex_streaming {index : IndexId} (hix : ixs index) {lo hi' : Bound}
    {backward : Bool} {limit : Option Nat}
    (hopen : (s.openIndex txn index lo hi' backward limit).2 = .ok key) :
    ∃ rows, (s.engine.indexScan txn index lo hi' backward limit).2 = .ok rows ∧
      Streaming ixs (s.openIndex txn index lo hi' backward limit).1 h key txn rows := by
  unfold openIndex at hopen ⊢
  rcases hidx : s.engine.indexes.get? index with _ | idx <;> rw [hidx] at hopen
  · cases hopen
  dsimp only at hopen ⊢
  rcases ht : s.engine.tables.get? idx.table with _ | t <;> rw [ht] at hopen
  · cases hopen
  rcases hstate : s.engine.txns.txns.get? txn with _ | state <;> rw [hstate] at hopen
  · cases hopen
  dsimp only at hopen ⊢
  by_cases hread : state.level = .serializable ∨ readsAtOpen lo hi' backward limit = true
  · rw [if_pos hread] at hopen ⊢
    exact s.materialise_streaming hopen
  rw [if_neg hread] at hopen ⊢
  rw [not_or, Bool.not_eq_true] at hread
  obtain ⟨hlevel, hlazy⟩ := hread
  unfold readsAtOpen at hlazy
  rw [Bool.or_eq_false_iff, Bool.or_eq_false_iff, Bool.or_eq_false_iff] at hlazy
  obtain ⟨⟨⟨hlimit, hforward⟩, hrange⟩, -⟩ := hlazy
  have hscan : (s.engine.indexScan txn index lo hi' backward limit).2 =
      .ok (s.engine.resolveEntries t state.pinned (idx.data.scan lo hi')) := by
    unfold indexScan
    rw [hidx]
    dsimp only
    rw [ht]
    rw [hstate]
    dsimp only
    rw [if_neg hlevel, hrange, if_neg Bool.false_ne_true, hforward,
      isNone_iff_eq_none.mp (isSome_eq_false_iff.mp hlimit)]
    rfl
  refine ⟨_, hscan, ?_⟩
  cases hopen
  let st : StreamState := ⟨idx.table, state.pinned, 0, 0, false, [], some ⟨index, lo, hi', none⟩⟩
  have hunread : st.unread s.engine =
      s.engine.resolveEntries t state.pinned (idx.data.scan lo hi') :=
    (unread_index rfl hidx ht : st.unread s.engine = _)
  rw [← hunread]
  refine s.register_streaming hi hstate rfl rfl rfl fun range hrange => ?_
  cases hrange
  refine ⟨hix, ?_⟩
  unfold indexTable
  rw [hidx]
  rfl

/-! ## Runs -/

omit hi in
def ScanEngine.handed (key : Nat) (trace : List (ScanOp × ScanOutcome)) :
    List (Option (Tid × Tuple)) :=
  trace.filterMap fun
    | (.next key', .row row) => if key' = key then some row else none
    | _ => none

omit hi in
def ScanEngine.Apart (txn : TxnId) (key : Nat) : ScanEngine → List ScanOp → Prop
  | _, [] => True
  | s, op :: ops =>
    op.Apart s.engine.txns.preparedGids txn key ∧ (s.step op).1.Apart txn key ops

lemma ScanInv.run (ops : List ScanOp)
    (hsp : ∀ index, ixs index → ∀ op ∈ ops, op.deletesFrom index = false) :
    ∃ h', ScanInv ixs (s.run ops).1.engine h' := by
  induction ops generalizing s h with
  | nil => exact ⟨h, hi⟩
  | cons op ops ih =>
    exact ih (hi.scanStep fun index hix => hsp index hix op mem_cons_self)
      fun index hix op' hop' => hsp index hix op' (mem_cons_of_mem _ hop')

omit hi in
lemma ScanEngine.handed_cons_other {out : ScanOutcome} {trace : List (ScanOp × ScanOutcome)}
    (hop : op ≠ .next key) : handed key ((op, out) :: trace) = handed key trace := by
  refine filterMap_cons_none ?_
  split
  · rename_i key' row heq
    cases heq
    exact if_neg fun hk => hop (congrArg ScanOp.next hk)
  · rfl

/-- **Along a run of others' steps, `next` hands out the rows one by one.** -/
theorem Streaming.run (hs : Streaming ixs s h key txn rows) (ops : List ScanOp)
    (hsp : ∀ index, ixs index → ∀ op ∈ ops, op.deletesFrom index = false)
    (hap : s.Apart txn key ops) :
    ∀ (i : Nat) row, (handed key (s.run ops).2)[i]? = some row → row = rows[i]? := by
  induction ops generalizing s h rows with
  | nil =>
    intro i row hrow
    cases hrow
  | cons op ops ih =>
    have hsp' : ∀ index, ixs index → ∀ op' ∈ ops, op'.deletesFrom index = false :=
      fun index hix op' hop' => hsp index hix op' (mem_cons_of_mem _ hop')
    have hi' := hi.scanStep fun index hix => hsp index hix op mem_cons_self
    show ∀ (i : Nat) row, (handed key ((op, (s.step op).2) :: ((s.step op).1.run ops).2))[i]? =
      some row → _
    by_cases hop : op = .next key
    · subst hop
      obtain ⟨hout, hnext⟩ := hs.next
      have hrest := ih hi' hnext hsp' hap.2
      have hcons : handed key ((.next key, (s.step (.next key)).2) ::
          ((s.step (.next key)).1.run ops).2) =
          rows.head? :: handed key ((s.step (.next key)).1.run ops).2 := by
        rw [hout]
        exact filterMap_cons_some (if_pos rfl)
      rw [hcons]
      intro i row hrow
      cases i with
      | zero =>
        cases hrow
        exact head?_eq_getElem?
      | succ i =>
        rw [hrest i row hrow, getElem?_tail]
    · rw [handed_cons_other hop]
      exact ih hi' (hs.scanStep hi (fun index hix => hsp index hix op mem_cons_self) hap.1 hop)
        hsp' hap.2

omit hi

lemma ScanInv.init (hf : e.Fresh) : ScanInv ixs e .init where
  inv := Inv.init hf
  passes := PassesOk.init hf _
  reserved := by
    unfold Settled viewOf
    rw [hf.txns]
    exact ⟨Nat.zero_lt_one, not_mem_nil, fun t c hc => by cases hc⟩
  none _ _ := NoneTaken.init hf

end

/-! ## Frozen at open -/

namespace ScanOp

def opener : ScanOp → Option TxnId
  | .openTable txn _ => some txn
  | .openIndex txn _ _ _ _ _ => some txn
  | _ => none

def walks : ScanOp → Option IndexId
  | .openIndex _ index _ _ _ _ => some index
  | _ => none

def materialised (e : Engine) : ScanOp → Option (Except Error (List (Tid × Tuple)))
  | .openTable txn table => some (e.scan txn table).2
  | .openIndex txn index lo hi backward limit =>
    some (e.indexScan txn index lo hi backward limit).2
  | _ => none

instance (gids : OrdMap String TxnId) (txn : TxnId) (key : Nat) :
    (op : ScanOp) → Decidable (op.Apart gids txn key)
  | .call c => inferInstanceAs (Decidable (c.changes gids ≠ some txn))
  | .openTable _ _ => inferInstanceAs (Decidable True)
  | .openIndex _ _ _ _ _ _ => inferInstanceAs (Decidable True)
  | .read _ => inferInstanceAs (Decidable True)
  | .next _ => inferInstanceAs (Decidable True)
  | .close key' => inferInstanceAs (Decidable (key' ≠ key))

end ScanOp

instance decidableApart (txn : TxnId) (key : Nat) :
    (s : ScanEngine) → (ops : List ScanOp) → Decidable (s.Apart txn key ops)
  | _, [] => inferInstanceAs (Decidable True)
  | s, op :: ops =>
    have := decidableApart txn key (s.step op).1 ops
    inferInstanceAs (Decidable (_ ∧ _))

/-- **A streaming scan is frozen at open.** For a table or index stream opened by `txn` after any
run, read in batches of any size between any steps of other transactions: if nobody takes entries of
its index out by hand, the scan read at once would have succeeded, and the `i`-th call of `next`
returns the `i`-th of its rows, and nothing past the last. -/
theorem stream_frozen_at_open {e : Engine} (hf : e.Fresh) (limits : BatchLimits)
    (before later : List ScanOp) (opening : ScanOp) (txn : TxnId) (key : Nat)
    (htxn : opening.opener = some txn)
    (hspares : ∀ index ∈ opening.walks, ∀ op ∈ before ++ later, op.deletesFrom index = false)
    (hopen : (((ScanEngine.start e limits).run before).1.step opening).2 = .opened (.ok key))
    (hapart : (((ScanEngine.start e limits).run before).1.step opening).1.Apart txn key later) :
    ∃ rows, opening.materialised ((ScanEngine.start e limits).run before).1.engine =
        some (.ok rows) ∧
      ∀ (i : Nat) (row : Option (Tid × Tuple)),
        (ScanEngine.handed key
          ((((ScanEngine.start e limits).run before).1.step opening).1.run later).2)[i]? = some row →
        row = rows[i]? := by
  let ixs : IndexId → Prop := fun index => opening.walks = some index
  have hinit : ScanInv ixs (start e limits).engine .init := .init hf
  obtain ⟨h, hi⟩ := hinit.run before fun index hix op hop =>
    hspares index hix op (mem_append_left _ hop)
  generalize ((start e limits).run before).1 = s at hopen hapart hi ⊢
  have hlater : ∀ index, ixs index → ∀ op ∈ later, op.deletesFrom index = false :=
    fun index hix op hop => hspares index hix op (mem_append_right _ hop)
  have hi' : ScanInv ixs (s.step opening).1.engine (s.record h opening) := by
    refine hi.scanStep fun index _ => ?_
    cases opening with
    | call c => cases htxn
    | _ => rfl
  cases opening with
  | openTable t table =>
    cases htxn
    obtain ⟨rows, hscan, hs⟩ := s.openTable_streaming hi (ScanOutcome.opened.inj hopen)
    exact ⟨rows, congrArg some hscan, hs.run hi' later hlater hapart⟩
  | openIndex t index lo hi₁ backward limit =>
    cases htxn
    obtain ⟨rows, hscan, hs⟩ := s.openIndex_streaming hi rfl (ScanOutcome.opened.inj hopen)
    exact ⟨rows, congrArg some hscan, hs.run hi' later hlater hapart⟩
  | call | read | next | close => cases htxn

/-- Between the batches another transaction moves the first row's key behind the second's, deletes
the second row and commits, and purge runs. -/
theorem stream_frozen_moved_key : let before : List ScanOp :=
      [.call (.begin .readCommitted), .call (.insert 1 1 [7]), .call (.indexInsert 1 5 [7] (tidOf 0)),
        .call (.insert 1 1 [8]), .call (.indexInsert 1 5 [8] (tidOf 1)), .call (.commit 1),
        .call (.begin .readCommitted), .call (.begin .readCommitted)]
    let opening : ScanOp := .openIndex 2 5 .unbounded .unbounded false none
    let later : List ScanOp :=
      [.next 0, .call (.update 3 1 (tidOf 0) [9]), .call (.indexInsert 3 5 [9] (tidOf 0)),
        .call (.delete 3 1 (tidOf 1)), .call (.commit 3), .call .purgeStart,
        .call (.purgeStep 0 false), .call (.purgeStep 0 false), .next 0, .next 0]
    ∃ rows, opening.materialised ((start indexedEngine ⟨1, 64, 1⟩).run before).1.engine =
        some (.ok rows) ∧
      ∀ (i : Nat) (row : Option (Tid × Tuple)),
        (handed 0 ((((start indexedEngine ⟨1, 64, 1⟩).run before).1.step
          opening).1.run later).2)[i]? = some row → row = rows[i]? :=
  stream_frozen_at_open
    (create_fresh (by simp [Table.create]) (by simp [IndexState.create])) ⟨1, 64, 1⟩ _ _ _ 2 0
    rfl (by decide) (by decide +kernel) (by decide +kernel)

end NusaDb
