import NusaDb.Lib.SortedWalk
import NusaDb.Stream.Entries

/-!
# What a stream has still to give

`StreamState.remaining`: the stream's buffer, and what its view sees from the cursor on. A batch
moves rows from the second part to the first (`fill_spec`).
-/

namespace NusaDb

open List Option OrdMap IndexRange Engine

lemma Batch.fill_spec {α : Type} (limits : BatchLimits) (resolve : α → Option (Tid × Tuple))
    (walk : List α) (b : Batch) :
    ((fill limits resolve walk b).2 = none ∧
        (fill limits resolve walk b).1.buffered = b.buffered ++ walk.filterMap resolve) ∨
      ∃ taken last rest, (fill limits resolve walk b).2 = some last ∧
        walk = taken ++ last :: rest ∧
        (fill limits resolve walk b).1.buffered =
          b.buffered ++ (taken ++ [last]).filterMap resolve := by
  induction walk generalizing b with
  | nil =>
    refine .inl ⟨rfl, ?_⟩
    show b.buffered = b.buffered ++ []
    rw [append_nil]
  | cons a walk ih =>
    have hvisit : (b.visit (resolve a)).buffered = b.buffered ++ [a].filterMap resolve := by
      unfold Batch.visit
      cases hr : resolve a with
      | none =>
        rw [filterMap_cons_none hr, filterMap_nil, append_nil]
      | some row =>
        rw [filterMap_cons_some hr, filterMap_nil]
    unfold Batch.fill
    dsimp only
    split
    · exact .inr ⟨[], a, walk, rfl, rfl, hvisit⟩
    rcases ih (b.visit (resolve a)) with ⟨hnone, hall⟩ | ⟨taken, last, rest, hlast, hwalk, hbuf⟩
    · refine .inl ⟨hnone, ?_⟩
      rw [hall, hvisit, append_assoc, ← filterMap_append]
      rfl
    · refine .inr ⟨a :: taken, last, rest, hlast, by rw [hwalk]; rfl, ?_⟩
      rw [hbuf, hvisit, append_assoc, ← filterMap_append]
      rfl

def IndexRange.admits (range : IndexRange) (k : EntryKey) : Bool :=
  match range.resume with
  | none => range.lo.admitsFrom k.key && range.hi.admitsTo k.key
  | some after => decide (after < k) && range.hi.admitsTo k.key

lemma IndexRange.walk_eq (range : IndexRange) (d : IndexData) :
    range.walk d = d.entries.toList.filter fun p => range.admits p.1 := by
  unfold walk admits
  cases range.resume with
  | none | some => rfl

lemma Bound.admitsFrom_of_le {lo : Bound} {k k' : Key} (h : lo.admitsFrom k = true) (hle : k ≤ k') :
    lo.admitsFrom k' = true := by
  cases lo with
  | included l => exact decide_eq_true (le_trans (of_decide_eq_true h) hle)
  | excluded l => exact decide_eq_true (lt_of_lt_of_le (of_decide_eq_true h) hle)
  | unbounded => rfl

lemma IndexRange.admits_resume {range : IndexRange} {last : EntryKey}
    (hlast : range.admits last = true) (k : EntryKey) :
    admits { range with resume := some last } k =
      (range.admits k && decide (last < k)) := by
  show (decide (last < k) && range.hi.admitsTo k.key) = _
  by_cases hlt : last < k
  · -- the greater entry is past whatever the range starts from
    have hfrom : range.admits k = range.hi.admitsTo k.key := by
      unfold admits at hlast ⊢
      cases hresume : range.resume with
      | none =>
        rw [hresume] at hlast
        have hlo := (Bool.and_eq_true _ _ ▸ hlast).1
        have hle : last.key ≤ k.key := by
          rcases EntryKey.lt_iff.mp hlt with hkey | ⟨hkey, -⟩
          · exact le_of_lt hkey
          · exact le_of_eq hkey
        show (range.lo.admitsFrom k.key && _) = _
        rw [Bound.admitsFrom_of_le hlo hle, Bool.true_and]
      | some after =>
        rw [hresume] at hlast
        have hafter := of_decide_eq_true (Bool.and_eq_true _ _ ▸ hlast).1
        show (decide (after < k) && _) = _
        rw [decide_eq_true (lt_trans hafter hlt), Bool.true_and]
    rw [hfrom, Bool.and_comm]
  · rw [decide_eq_false hlt, Bool.false_and, Bool.and_false]

namespace StreamState

def admits (st : StreamState) (row : RowId) : Bool :=
  decide (st.cursor ≤ row) && decide (row < st.stop)

lemma walk_eq (st : StreamState) (t : Table) :
    st.walk t = t.rows.toList.filter fun p => st.admits p.1 := by
  unfold walk
  rw [takeWhile_eq_filter, List.filter_filter]
  · refine filter_congr fun p _ => ?_
    rw [Bool.and_comm]
    rfl
  · refine (t.rows.sorted.filter _).imp fun {a b} hab hb => ?_
    exact decide_eq_true (lt_trans hab (of_decide_eq_true hb))

lemma admits_resume {st : StreamState} {last : RowId} (hlast : st.admits last = true)
    (row : RowId) :
    admits { st with cursor := last + 1 } row = (st.admits row && decide (last < row)) := by
  have hcursor := of_decide_eq_true (Bool.and_eq_true _ _ ▸ hlast).1
  show (decide (last + 1 ≤ row) && decide (row < st.stop)) = _
  by_cases hlt : last < row
  · have hle : st.cursor ≤ row := le_of_lt (lt_of_le_of_lt hcursor hlt)
    unfold admits
    rw [decide_eq_true hlt, decide_eq_true hle, decide_eq_true (Nat.succ_le_of_lt hlt), Bool.and_true]
  · have hle : ¬last + 1 ≤ row := fun h => hlt (Nat.lt_of_succ_le h)
    rw [decide_eq_false hlt, decide_eq_false hle, Bool.false_and, Bool.and_false]

def unread (e : Engine) (st : StreamState) : List (Tid × Tuple) :=
  match st.index with
  | some range =>
    match e.indexes.get? range.index, e.tables.get? st.table with
    | some idx, some t => (range.walk idx.data).filterMap (e.resolveEntry t st.view)
    | _, _ => []
  | none =>
    match e.tables.get? st.table with
    | none => []
    | some t => (st.walk t).filterMap (e.resolveRow st.view)

def remaining (e : Engine) (st : StreamState) : List (Tid × Tuple) :=
  st.buffered ++ if st.done then [] else st.unread e

/-- The states are of one stream: they differ in how far it has been read. -/
structure Same (st st' : StreamState) : Prop where
  table : st'.table = st.table
  view : st'.view = st.view
  stop : st'.stop = st.stop
  index : st'.index.map IndexRange.index = st.index.map IndexRange.index
  done : st.done = true → st'.done = true

lemma Same.refl (st : StreamState) : st.Same st := ⟨rfl, rfl, rfl, rfl, fun h => h⟩

lemma Same.trans {st st' st'' : StreamState} (h1 : st.Same st') (h2 : st'.Same st'') :
    st.Same st'' :=
  ⟨h2.table.trans h1.table, h2.view.trans h1.view, h2.stop.trans h1.stop, h2.index.trans h1.index,
    fun h => h2.done (h1.done h)⟩

/-- What one batch does: the rows to come stay the same, and fewer of them are unread. -/
structure FillSpec (e : Engine) (st st' : StreamState) : Prop where
  same : st.Same st'
  remaining : st'.remaining e = st.remaining e
  progress : st'.done = true ∨ st'.left e < st.left e

variable {e : Engine} {st : StreamState} {limits : BatchLimits}

lemma FillSpec.ended {st' : StreamState} (hsame : st.Same st') (hopen : st.done = false)
    (hdone : st'.done = true) (hbuf : st'.buffered = st.buffered ++ st.unread e) :
    FillSpec e st st' := by
  refine ⟨hsame, ?_, .inl hdone⟩
  unfold StreamState.remaining
  rw [hdone, hopen, hbuf, if_pos rfl, if_neg Bool.false_ne_true, append_nil]

lemma FillSpec.resumed {α : Type} {resolve : α → Option (Tid × Tuple)} {taken rest : List α}
    {last : α} {st' : StreamState} (hsame : st.Same st') (hopen : st.done = false)
    (hopen' : st'.done = false)
    (hbuf : st'.buffered = st.buffered ++ (taken ++ [last]).filterMap resolve)
    (hunread : st.unread e = (taken ++ last :: rest).filterMap resolve)
    (hunread' : st'.unread e = rest.filterMap resolve)
    (hleft : st.left e = (taken ++ last :: rest).length) (hleft' : st'.left e = rest.length) :
    FillSpec e st st' := by
  refine ⟨hsame, ?_, .inr ?_⟩
  · unfold StreamState.remaining
    rw [hopen, hopen', if_neg Bool.false_ne_true, if_neg Bool.false_ne_true, hbuf, hunread, hunread',
      append_assoc, ← filterMap_append, append_assoc]
    rfl
  · rw [hleft, hleft', length_append, length_cons]
    lia

section

variable {idx : IndexState} {t : Table} {range : IndexRange} (hindex : st.index = some range)

include hindex

lemma unread_index (hi : e.indexes.get? range.index = some idx)
    (ht : e.tables.get? st.table = some t) :
    st.unread e = (range.walk idx.data).filterMap (e.resolveEntry t st.view) := by
  unfold unread
  rw [hindex]
  dsimp only
  rw [hi, ht]

lemma left_index (hi : e.indexes.get? range.index = some idx) :
    st.left e = (range.walk idx.data).length := by
  unfold left
  rw [hindex]
  dsimp only
  rw [hi]

lemma fillFromIndex_none
    (hnone : e.indexes.get? range.index = none ∨ e.tables.get? st.table = none) :
    st.fillFromIndex e limits range = { st with done := true } ∧ st.unread e = [] := by
  unfold fillFromIndex unread
  rw [hindex]
  dsimp only
  cases hi : e.indexes.get? range.index with
  | none => exact ⟨rfl, rfl⟩
  | some idx =>
    rw [hnone.resolve_left (by rw [hi]; exact some_ne_none idx)]
    exact ⟨rfl, rfl⟩

/-- A batch from the index resumes the walk after the last entry read. -/
lemma fillFromIndex_spec (hopen : st.done = false) :
    FillSpec e st (st.fillFromIndex e limits range) := by
  by_cases hnone : e.indexes.get? range.index = none ∨ e.tables.get? st.table = none
  · obtain ⟨hfill, hunread⟩ :
        st.fillFromIndex e limits range = _ ∧ _ := fillFromIndex_none hindex hnone
    rw [hfill]
    refine .ended ⟨rfl, rfl, rfl, rfl, fun _ => rfl⟩ hopen rfl ?_
    rw [hunread, append_nil]
  rw [not_or] at hnone
  obtain ⟨idx, hi⟩ := ne_none_iff_exists'.mp hnone.1
  obtain ⟨t, ht⟩ := ne_none_iff_exists'.mp hnone.2
  have hmap : st.index.map IndexRange.index = some range.index := by
    rw [hindex]
    rfl
  unfold fillFromIndex
  rw [hi, ht]
  dsimp only
  have hspec := Batch.fill_spec limits (e.resolveEntry t st.view) (range.walk idx.data)
    ⟨st.buffered, 0, 0⟩
  generalize Batch.fill limits (e.resolveEntry t st.view) (range.walk idx.data)
    ⟨st.buffered, 0, 0⟩ = result at hspec
  obtain ⟨b, stop⟩ := result
  rcases hspec with ⟨hend, hbuf⟩ | ⟨taken, last, rest, hlast, hwalk, hbuf⟩
  · subst hend
    refine .ended ⟨rfl, rfl, rfl, hmap.symm, fun _ => rfl⟩ hopen rfl ?_
    rw [unread_index hindex hi ht]
    exact hbuf
  subst hlast
  -- the walk goes on with what the batch has not visited
  have hadm : range.admits last.1 = true := by
    have hmem : last ∈ range.walk idx.data := by
      rw [hwalk]
      exact mem_append_right _ mem_cons_self
    rw [range.walk_eq] at hmem
    exact (mem_filter.mp hmem).2
  have hrest : IndexRange.walk { range with resume := some last.1 } idx.data = rest := by
    rw [range.walk_eq] at hwalk
    exact filter_after hwalk (IndexRange.admits_resume hadm)
  let st' : StreamState := { st with
    buffered := b.buffered
    index := some { range with resume := some last.1 } }
  have hunread : st.unread e =
      (taken ++ last :: rest).filterMap (e.resolveEntry t st.view) := by
    rw [unread_index hindex hi ht, hwalk]
  have hunread' : st'.unread e =
      (IndexRange.walk { range with resume := some last.1 } idx.data).filterMap
        (e.resolveEntry t st.view) := unread_index rfl hi ht
  have hleft' : st'.left e =
      (IndexRange.walk { range with resume := some last.1 } idx.data).length := left_index rfl hi
  refine .resumed ⟨rfl, rfl, rfl, hmap.symm, fun h => h⟩ hopen hopen hbuf hunread ?_ ?_ ?_
  · exact hunread'.trans (congrArg _ hrest)
  · rw [left_index hindex hi, hwalk]
  · exact hleft'.trans (congrArg _ hrest)

omit hindex

lemma unread_table (hindex : st.index = none) (ht : e.tables.get? st.table = some t) :
    st.unread e = (st.walk t).filterMap (e.resolveRow st.view) := by
  unfold unread
  rw [hindex]
  rw [ht]

lemma left_table (hindex : st.index = none) (ht : e.tables.get? st.table = some t) :
    st.left e = (st.walk t).length := by
  unfold left
  rw [hindex]
  rw [ht]

/-- A batch from the table resumes after the last row read. -/
lemma fillFromTable_spec (hindex : st.index = none) (hopen : st.done = false) :
    FillSpec e st (st.fill e limits) := by
  obtain ⟨table, view, stop, cursor, done, buffered, index⟩ := st
  subst hindex hopen
  let st : StreamState := ⟨table, view, stop, cursor, false, buffered, none⟩
  show FillSpec e st (st.fill e limits)
  cases ht : e.tables.get? table with
  | none =>
    have hfill : st.fill e limits = { st with done := true } ∧ st.unread e = [] := by
      unfold fill unread
      rw [ht]
      exact ⟨rfl, rfl⟩
    rw [hfill.1]
    refine .ended ⟨rfl, rfl, rfl, rfl, fun _ => rfl⟩ rfl rfl ?_
    rw [hfill.2, append_nil]
  | some t =>
    unfold fill
    rw [ht]
    dsimp only
    have hspec := Batch.fill_spec limits (e.resolveRow view) (st.walk t) ⟨buffered, 0, 0⟩
    generalize Batch.fill limits (e.resolveRow view) (st.walk t) ⟨buffered, 0, 0⟩ = result at hspec
    obtain ⟨b, full⟩ := result
    rcases hspec with ⟨hend, hbuf⟩ | ⟨taken, last, rest, hlast, hwalk, hbuf⟩
    · subst hend
      refine .ended ⟨rfl, rfl, rfl, rfl, fun _ => rfl⟩ rfl rfl ?_
      rw [unread_table rfl ht]
      exact hbuf
    subst hlast
    have hadm : st.admits last.1 = true := by
      have hmem : last ∈ st.walk t := by
        rw [hwalk]
        exact mem_append_right _ mem_cons_self
      rw [st.walk_eq] at hmem
      exact (mem_filter.mp hmem).2
    have hrest : walk { st with buffered := b.buffered, cursor := last.1 + 1 } t = rest := by
      rw [st.walk_eq] at hwalk
      rw [walk_eq]
      exact filter_after hwalk (admits_resume hadm)
    have hunread : st.unread e = (taken ++ last :: rest).filterMap (e.resolveRow view) := by
      rw [unread_table rfl ht, hwalk]
    refine .resumed ⟨rfl, rfl, rfl, rfl, fun h => h⟩ rfl rfl hbuf hunread ?_ ?_ ?_
    · rw [unread_table rfl ht]
      exact congrArg _ hrest
    · rw [left_table rfl ht]
      exact congrArg _ hwalk
    · rw [left_table rfl ht]
      exact congrArg _ hrest

/-- **One batch**, of either kind of stream. -/
theorem fill_spec (hopen : st.done = false) : FillSpec e st (st.fill e limits) := by
  cases hindex : st.index with
  | none => exact fillFromTable_spec hindex hopen
  | some range =>
    unfold fill
    rw [hindex]
    exact fillFromIndex_spec hindex hopen

end

lemma fillUntil_spec (stop : StreamState → Bool) (rounds : Nat) (st : StreamState) :
    st.Same (fillUntil e limits stop rounds st) ∧
      (fillUntil e limits stop rounds st).remaining e = st.remaining e ∧
      (st.left e < rounds → (fillUntil e limits stop rounds st).done = true ∨
        stop (fillUntil e limits stop rounds st) = true) := by
  induction rounds generalizing st with
  | zero => exact ⟨.refl st, rfl, fun h => absurd h (Nat.not_lt_zero _)⟩
  | succ rounds ih =>
    unfold fillUntil
    split
    · rename_i hend
      rw [Bool.or_eq_true] at hend
      exact ⟨.refl st, rfl, fun _ => hend⟩
    rename_i hmore
    rw [Bool.or_eq_true, not_or, Bool.not_eq_true] at hmore
    have hfill : FillSpec e st (st.fill e limits) := fill_spec hmore.1
    obtain ⟨hsame, hrem, hstop⟩ := ih (st.fill e limits)
    refine ⟨hfill.same.trans hsame, hrem.trans hfill.remaining, fun hleft => ?_⟩
    rcases hfill.progress with hdone | hless
    · -- at its end a stream stays as it is
      have hstays : fillUntil e limits stop rounds (st.fill e limits) = st.fill e limits := by
        cases rounds with
        | zero => rfl
        | succ rounds =>
          unfold fillUntil
          rw [hdone, Bool.true_or, if_pos rfl]
      rw [hstays]
      exact .inl hdone
    · exact hstop (lt_of_lt_of_le hless (Nat.le_of_lt_succ hleft))

lemma drain_spec (st : StreamState) :
    st.Same (st.drain e limits) ∧ (st.drain e limits).remaining e = st.remaining e ∧
      (st.drain e limits).done = true := by
  obtain ⟨hsame, hrem, hstop⟩ : _ ∧ _ ∧
      (_ → (fillUntil e limits (fun _ => false) (st.left e + 1) st).done = true ∨ _) :=
    fillUntil_spec (fun _ => false) (st.left e + 1) st
  exact ⟨hsame, hrem, (hstop (Nat.lt_succ_self _)).resolve_right Bool.false_ne_true⟩

/-- **`tryNext` returns the next of the rows to come**, or nothing when there is none. -/
theorem tryNext_spec (st : StreamState) :
    st.Same (st.tryNext e limits).1 ∧ (st.tryNext e limits).2 = (st.remaining e).head? ∧
      (st.tryNext e limits).1.remaining e = (st.remaining e).tail := by
  obtain ⟨hsame, hrem, hstop⟩ : _ ∧ _ ∧ (_ →
      (fillUntil e limits (fun st => !st.buffered.isEmpty) (st.left e + 1) st).done = true ∨ _) :=
    fillUntil_spec (fun st => !st.buffered.isEmpty) (st.left e + 1) st
  have hend := hstop (Nat.lt_succ_self _)
  unfold tryNext
  dsimp only
  rw [← hrem]
  generalize fillUntil e limits (fun st => !st.buffered.isEmpty) (st.left e + 1) st = st'
    at hsame hend
  refine ⟨⟨hsame.table, hsame.view, hsame.stop, hsame.index, hsame.done⟩, ?_⟩
  unfold StreamState.remaining
  cases hbuf : st'.buffered with
  | cons row rest => exact ⟨rfl, rfl⟩
  | nil =>
    rw [hbuf] at hend
    have hdone : st'.done = true := hend.resolve_right Bool.false_ne_true
    rw [hdone]
    exact ⟨rfl, rfl⟩

lemma remaining_of_done {e' : Engine} (hdone : st.done = true) :
    st.remaining e' = st.remaining e := by
  unfold StreamState.remaining
  rw [hdone, if_pos rfl, if_pos rfl]

section

variable {e : Engine} {table : TableId} {t : Table} (ht : e.tables.get? table = some t)

include ht

lemma resolveRow_bind (view : ReadView) (row : RowId) :
    ((t.rows.get? row).bind fun v => e.resolveRow view (row, v)) = (e.visibleAt view (table,
      row)).map fun tuple => (tidOf row, tuple) := by
  unfold visibleAt
  rw [leafAt_eq_of_table ht]
  cases t.rows.get? row with
  | none | some => rfl

lemma resolveEntry_bind {index : IndexId} {idx : IndexState}
    (hi : e.indexes.get? index = some idx) (view : ReadView) (k : EntryKey) :
    ((idx.data.entries.get? k).bind fun metas => e.resolveEntry t view (k, metas)) =
      (e.entryAt view table index k).map fun tuple => (tidOf k.row, tuple) := by
  have hranges : (idx.data.rowEntries k.row).ranges k.key = (idx.data.entries.get? k).getD [] := rfl
  unfold entryAt entrySeen
  rw [entriesAt_of_index hi, any_some, hranges]
  rcases idx.data.entries.get? k with _ | metas
  · rfl
  show e.resolveEntry t view (k, metas) = _
  unfold resolveEntry visibleAt
  rw [leafAt_eq_of_table ht]
  dsimp only [getD_some]
  split
  · cases t.rows.get? k.row with
    | none | some => rfl
  · rfl

end

omit st in
lemma both_of_isSome_eq {α : Type} {o o' : Option α} (h : o'.isSome = o.isSome) :
    o = none ∧ o' = none ∨ ∃ a a', o = some a ∧ o' = some a' := by
  cases o <;> cases o' <;> simp_all

/-- **The rows to come depend on what the view reads**, row by row for a table scan and entry by
entry for an index scan. -/
theorem unread_congr {e' : Engine}
    (htables : (e'.tables.get? st.table).isSome = (e.tables.get? st.table).isSome)
    (hrows : st.index = none →
      ∀ row, e'.visibleAt st.view (st.table, row) = e.visibleAt st.view (st.table, row))
    (hentries : ∀ range, st.index = some range →
      (e'.indexes.get? range.index).isSome = (e.indexes.get? range.index).isSome ∧
        ∀ k, e'.entryAt st.view st.table range.index k = e.entryAt st.view st.table range.index k) :
    st.unread e' = st.unread e := by
  unfold unread
  cases hindex : st.index with
  | none =>
    rcases both_of_isSome_eq htables with ⟨ht, ht'⟩ | ⟨t, t', ht, ht'⟩ <;> rw [ht, ht']
    dsimp only
    rw [st.walk_eq, st.walk_eq]
    refine collect_congr (fun row => ?_) st.admits
    rw [resolveRow_bind ht', resolveRow_bind ht, hrows hindex row]
  | some range =>
    dsimp only
    obtain ⟨hsome, hsame⟩ := hentries range hindex
    rcases both_of_isSome_eq hsome with ⟨hi, hi'⟩ | ⟨idx, idx', hi, hi'⟩ <;> rw [hi, hi']
    rcases both_of_isSome_eq htables with ⟨ht, ht'⟩ | ⟨t, t', ht, ht'⟩ <;> rw [ht, ht']
    dsimp only
    rw [range.walk_eq, range.walk_eq]
    refine collect_congr (fun k => ?_) range.admits
    rw [resolveEntry_bind ht' hi', resolveEntry_bind ht hi, hsame k]

end StreamState

end NusaDb
