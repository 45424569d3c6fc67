import NusaDb.Btree.Thin
import NusaDb.Btree.Dead

/-!
# What one step of a purge pass can do

A critical section of a pass turns to the next phase, sweeps a batch of rows, thins one index, or
frees orphaned slots. The rows a pass remembers as removed are dead (`PurgePhase.Ok`).
-/

namespace NusaDb

open List Engine OrdMap

open History (Ver)

/-- The rows a pass has removed from a table, and the indexes of that table it has still to thin. -/
def PurgePhase.removed : PurgePhase → Option (TableId × List RowId × List IndexId)
  | .sweep table _ _ _ _ removed => some (table, removed, [])
  | .index table _ removed indexes _ => some (table, removed, indexes)
  | .tables _ => none
  | .orphans => none

/-- What a pass carries between its steps is true: the rows it removed are dead, and the indexes it
is about to thin belong to their table. -/
def PurgePhase.Ok (e : Engine) (h : History) (phase : PurgePhase) : Prop :=
  ∀ table rows indexes, phase.removed = some (table, rows, indexes) →
    (∀ row ∈ rows, e.Dead h (table, row)) ∧
      ∀ index ∈ indexes, ∃ g, e.indexSign index = some g ∧ g.1 = table

def Engine.PassesOk (e : Engine) (h : History) : Prop :=
  ∀ id p, e.passes.get? id = some p → p.phase.Ok e h

inductive PurgeMove (e : Engine) (s : PurgeSnapshot) :
    PurgePhase → Engine → Option PurgePhase → Prop
  | turn {phase next : PurgePhase}
      (hnext : ∀ table rows indexes, next.removed = some (table, rows, indexes) →
        (rows = [] ∨ ∃ some', phase.removed = some (table, rows, some')) ∧
          ∀ index ∈ indexes, index ∈ e.indexesOf table) : PurgeMove e s phase e (some next)
  | sweep {table : TableId} {todo : List TableId} {sweptGen : Nat} {left : Bool} {cursor : RowId}
      {removed : List RowId} {t : Table} {f : Table → Table} {next : PurgePhase}
      {indexes : List IndexId} (ht : e.tables.get? table = some t) (hrows : ∀ t, (f t).rows = t.rows)
      (hsign : ∀ t, (f t).sign = t.sign) (hindexes : ∀ index ∈ indexes, index ∈ e.indexesOf table)
      (hnext : next.removed = some (table,
        ((Engine.purgeBatch t cursor).filter fun p =>
          Engine.purgeRemoves s.settled p.2.header).map Prod.fst ++ removed, indexes)) :
      PurgeMove e s (.sweep table todo sweptGen left cursor removed)
        ((e.purgeRows s.settled table (Engine.purgeBatch t cursor)).modifyTable table f) (some next)
  | index {table : TableId} {todo : List TableId} {removed : List RowId} {index : IndexId}
      {rest : List IndexId} {yielding : Bool} :
      PurgeMove e s (.index table todo removed (index :: rest) yielding)
        (e.modifyIndex index fun data => data.purge removed s.settled)
        (some (.index table todo removed rest yielding))
  | orphans :
      PurgeMove e s .orphans { e with reclaim := e.reclaim.purgeOrphans s.settled } none

variable {e e' : Engine} {h : History} {s : PurgeSnapshot} {phase : PurgePhase}
  {next : Option PurgePhase}

lemma Engine.modifyTable_id (e : Engine) (table : TableId) :
    (e.modifyTable table fun t => t) = e := by
  unfold modifyTable
  rw [OrdMap.modify_id]

lemma Engine.purgeRows_indexes (judge : TxnId → Bool) (table : TableId) (e : Engine)
    (batch : List (RowId × Version)) : (e.purgeRows judge table batch).indexes = e.indexes := by
  unfold purgeRows
  induction batch generalizing e with
  | nil => rfl
  | cons p rest ih =>
    rw [foldl_cons, ih]
    unfold purgeRow
    split
    · rfl
    · split <;> rfl

/-- One advance makes one of the moves: the source's phases, case by case. -/
lemma Engine.purgeAdvance_move (e : Engine) (s : PurgeSnapshot) (pressure : Bool)
    (phase : PurgePhase) :
    PurgeMove e s phase (e.purgeAdvance s pressure phase).1 (e.purgeAdvance s pressure phase).2 := by
  have hkeep : ∀ {phase next : PurgePhase}, next.removed = none → PurgeMove e s phase e (some next) := by
    intro phase next hnone
    refine .turn fun table rows indexes hremoved => ?_
    rw [hnone] at hremoved
    cases hremoved
  unfold purgeAdvance
  split
  · exact hkeep rfl
  · split
    · exact hkeep rfl
    split
    · exact hkeep rfl
    split
    · refine .turn fun table rows indexes hremoved => ?_
      cases hremoved
      exact ⟨.inl rfl, fun _ h => h⟩
    · refine .turn fun table rows indexes hremoved => ?_
      cases hremoved
      exact ⟨.inl rfl, fun _ h => nomatch h⟩
  · rename_i table todo sweptGen leftForLater cursor removed
    split
    · -- under pressure the pass goes on to the indexes with what it has removed so far
      refine .turn fun table rows indexes hremoved => ?_
      cases hremoved
      exact ⟨.inr ⟨_, rfl⟩, fun _ h => h⟩
    split
    · exact hkeep rfl
    rename_i t ht
    have hof : (e.purgeRows s.settled table (purgeBatch t cursor)).indexesOf table =
        e.indexesOf table := by
      unfold indexesOf
      rw [purgeRows_indexes]
    have hsweep : ∀ {next : PurgePhase} {indexes : List IndexId},
        (∀ index ∈ indexes, index ∈ e.indexesOf table) →
        next.removed = some (table, ((purgeBatch t cursor).filter fun p =>
          purgeRemoves s.settled p.2.header).map Prod.fst ++ removed, indexes) →
        PurgeMove e s (.sweep table todo sweptGen leftForLater cursor removed)
          (e.purgeRows s.settled table (purgeBatch t cursor)) (some next) := by
      intro next indexes hindexes hnext
      have hmove : PurgeMove e s (.sweep table todo sweptGen leftForLater cursor removed)
          ((e.purgeRows s.settled table (purgeBatch t cursor)).modifyTable table fun t => t)
          (some next) := .sweep ht (fun _ => rfl) (fun _ => rfl) hindexes hnext
      rw [modifyTable_id] at hmove
      exact hmove
    have hall : ∀ index ∈ e.indexesOf table, index ∈ e.indexesOf table := fun _ h => h
    have hnil : ∀ index ∈ ([] : List IndexId), index ∈ e.indexesOf table := fun _ h => nomatch h
    dsimp only
    split
    · split
      · exact hsweep hall (by rw [hof]; rfl)
      · exact .sweep ht (fun _ => rfl) (fun _ => rfl) hall (by rw [hof]; rfl)
    · split
      · exact hsweep hnil rfl
      · exact hsweep hall (by rw [hof]; rfl)
  · exact .index
  · split
    · exact hkeep rfl
    · exact hkeep rfl
  · exact .orphans

lemma Engine.purgeRows_signs (judge : TxnId → Bool) (table : TableId) (e : Engine)
    (batch : List (RowId × Version)) :
    (e.purgeRows judge table batch).tableSign = e.tableSign ∧
      (e.purgeRows judge table batch).maxPrepared = e.maxPrepared := by
  have hkeep : ∀ (e : Engine) (u : UndoDomain) (f : OrdMap RowId Version → OrdMap RowId Version),
      ({ e with reclaim := u }.modifyTable table fun t => { t with rows := f t.rows }).tableSign =
        e.tableSign := by
    intro e u f
    funext table'
    apply map_get?_modify_self
    exact fun _ => rfl
  unfold purgeRows
  induction batch generalizing e with
  | nil => exact ⟨rfl, rfl⟩
  | cons p rest ih =>
    obtain ⟨htable, hmax⟩ := ih (e.purgeRow judge table p.1 p.2.header)
    rw [foldl_cons, htable, hmax]
    unfold purgeRow
    split
    · exact ⟨hkeep e _ fun rows => rows.erase p.1, rfl⟩
    split
    · exact ⟨hkeep e _ fun rows => rows.modify p.1 fun v =>
        { v with header := { p.2.header with undo := none } }, rfl⟩
    · exact ⟨rfl, rfl⟩

lemma PurgeMove.signs (hm : PurgeMove e s phase e' next) :
    e'.tableSign = e.tableSign ∧ e'.indexSign = e.indexSign ∧ e'.maxPrepared = e.maxPrepared := by
  cases hm with
  | turn | orphans => exact ⟨rfl, rfl, rfl⟩
  | @sweep table _ _ _ cursor _ t f _ _ ht hrows hsign =>
    obtain ⟨htable, hmax⟩ := e.purgeRows_signs s.settled table (purgeBatch t cursor)
    refine ⟨?_, ?_, hmax⟩
    · rw [← htable]
      exact funext fun _ => map_get?_modify_self hsign ..
    · funext index
      show ((e.purgeRows s.settled table _).indexes.get? index).map _ = _
      rw [purgeRows_indexes]
      rfl
  | index => exact ⟨rfl, e.indexSign_modifyIndex _ _, rfl⟩

lemma Engine.mem_indexesOf {table : TableId} {index : IndexId}
    (hindex : index ∈ e.indexesOf table) : ∃ g, e.indexSign index = some g ∧ g.1 = table := by
  obtain ⟨⟨index', i⟩, hmem, rfl⟩ := mem_map.mp hindex
  rw [mem_filter, decide_eq_true_eq] at hmem
  refine ⟨i.sign, ?_, hmem.2⟩
  unfold indexSign
  rw [mem_toList.mp hmem.1]
  rfl

lemma Inv.dead_of_removes (hinv : Inv e h) (hsnap : ∀ x, s.settled x = true → e.Settled x)
    {loc : Loc} {v : Version} (hv : e.leafAt loc = some v)
    (hremoves : purgeRemoves s.settled v.header = true) : e.Dead h loc := by
  unfold purgeRemoves at hremoves
  rw [Bool.and_eq_true, bne_iff_ne] at hremoves
  obtain ⟨slots, hstore⟩ := hinv.store
  have hrow := hstore.row loc
  rw [hv] at hrow
  obtain ⟨older, hvers⟩ := hrow.vers_of_some
  rw [if_neg hremoves.1] at hvers
  exact ⟨_, _, hvers, hsnap _ hremoves.2⟩

def PurgePhase.RowsIn (rows : Loc → Prop) (phase : PurgePhase) : Prop :=
  ∀ table removed indexes, phase.removed = some (table, removed, indexes) →
    ∀ row ∈ removed, rows (table, row)

lemma PurgeMove.rowsIn (hm : PurgeMove e s phase e' next) {rows : Loc → Prop}
    (hremoves : ∀ loc v, e.leafAt loc = some v →
      purgeRemoves s.settled v.header = true → rows loc) (hin : phase.RowsIn rows) :
    ∀ p, next = some p → p.RowsIn rows := by
  intro p hp table removed indexes hremoved row hrow
  cases hm with
  | turn hnext =>
    cases hp
    rcases (hnext table removed indexes hremoved).1 with rfl | ⟨others, hphase⟩
    · cases hrow
    · exact hin table removed others hphase row hrow
  | @sweep table' todo sweptGen left cursor old t f _ indexes' ht _ _ hindexes hnext =>
    cases hp
    rw [hnext] at hremoved
    cases hremoved
    rcases mem_append.mp hrow with hgone | hold
    · obtain ⟨q, hq, rfl⟩ := mem_map.mp hgone
      rw [mem_filter] at hq
      exact hremoves _ _ (purgeBatch_read ht cursor q hq.1) hq.2
    · exact hin table old [] rfl row hold
  | @index table' todo old index rest yielding =>
    cases hp
    cases hremoved
    exact hin table removed (index :: indexes) rfl row hrow
  | orphans => cases hp

/-- What a move leaves to be removed is dead. -/
theorem PurgeMove.ok (hm : PurgeMove e s phase e' next) (hinv : Inv e h)
    (hsnap : ∀ x, s.settled x = true → e.Settled x) (hok : phase.Ok e h) :
    ∀ p, next = some p → p.Ok e h := by
  intro p hp table rows indexes hremoved
  refine ⟨hm.rowsIn (fun loc v hv hr => hinv.dead_of_removes hsnap hv hr)
    (fun table rows indexes hrem => (hok table rows indexes hrem).1) p hp table rows indexes hremoved,
    ?_⟩
  intro index hindex
  cases hm with
  | turn hnext =>
    cases hp
    exact mem_indexesOf ((hnext table rows indexes hremoved).2 index hindex)
  | @sweep table' todo sweptGen left cursor removed t f _ indexes' ht _ _ hindexes hnext =>
    cases hp
    rw [hnext] at hremoved
    cases hremoved
    exact mem_indexesOf (hindexes index hindex)
  | @index table' todo removed index' rest yielding =>
    cases hp
    cases hremoved
    exact (hok table rows (index' :: indexes) rfl).2 index (mem_cons_of_mem _ hindex)
  | orphans => cases hp

lemma Engine.purgeStep_move (e : Engine) (pass : Nat) (pressure : Bool) :
    e.purgeStep pass pressure = e ∨
      ∃ p e' next, e.passes.get? pass = some p ∧ PurgeMove e p.snapshot p.phase e' next ∧
        e'.passes = e.passes ∧ e'.txns = e.txns ∧
        e.purgeStep pass pressure = { e' with passes :=
          match next with
          | none => e.passes.erase pass
          | some phase => e.passes.insert pass { p with phase := phase } } := by
  cases hp : e.passes.get? pass with
  | none =>
    refine .inl ?_
    unfold purgeStep
    rw [hp]
  | some p =>
    refine .inr ⟨p, _, _, rfl, e.purgeAdvance_move p.snapshot pressure p.phase, ?_, ?_, ?_⟩
    · exact (show e.Reclaims (fun _ => True) (fun _ => []) (fun _ _ => []) _ from
        purgeAdvance_reclaims p.snapshot (fun _ _ => trivial) pressure p.phase).passes
    · exact e.purgeAdvance_txns p.snapshot pressure p.phase
    · have hpasses : (e.purgeAdvance p.snapshot pressure p.phase).1.passes = e.passes :=
        (show e.Reclaims (fun _ => True) (fun _ => []) (fun _ _ => []) _ from
          purgeAdvance_reclaims p.snapshot (fun _ _ => trivial) pressure p.phase).passes
      unfold purgeStep
      rw [hp]
      dsimp only
      generalize e.purgeAdvance p.snapshot pressure p.phase = move at hpasses
      obtain ⟨e1, next⟩ := move
      rw [← hpasses]
      cases next <;> rfl

lemma Engine.purgeStep_signs (e : Engine) (pass : Nat) (pressure : Bool) :
    (e.purgeStep pass pressure).tableSign = e.tableSign ∧
      (e.purgeStep pass pressure).indexSign = e.indexSign ∧
      (e.purgeStep pass pressure).maxPrepared = e.maxPrepared := by
  rcases e.purgeStep_move pass pressure with hsame | ⟨p, e', next, -, hmove, -, -, hstep⟩
  · rw [hsame]
    exact ⟨rfl, rfl, rfl⟩
  · rw [hstep]
    exact hmove.signs

lemma PurgePhase.Ok.mono {h' : History} (hok : phase.Ok e h) (hsign : e'.indexSign = e.indexSign)
    (hdead : ∀ loc, e.Dead h loc → e'.Dead h' loc) : phase.Ok e' h' := by
  intro table rows indexes hremoved
  obtain ⟨hrows, hindexes⟩ := hok table rows indexes hremoved
  refine ⟨fun row hrow => hdead _ (hrows row hrow), ?_⟩
  rw [hsign]
  exact hindexes

lemma Engine.purgeStep_passes (pass : Nat) (pressure : Bool) {P : PurgePass → Prop}
    (hold : ∀ id p, e.passes.get? id = some p → P p)
    (hmoved : ∀ p e' phase, e.passes.get? pass = some p →
      PurgeMove e p.snapshot p.phase e' (some phase) → P { p with phase := phase }) :
    ∀ id p, (e.purgeStep pass pressure).passes.get? id = some p → P p := by
  intro id q hq
  rcases e.purgeStep_move pass pressure with hsame | ⟨p, e', next, hp, hmove, -, -, hstep⟩
  · rw [hsame] at hq
    exact hold id q hq
  rw [hstep] at hq
  cases next with
  | none =>
    rw [get?_erase] at hq
    split at hq
    · cases hq
    · exact hold id q hq
  | some phase =>
    rw [get?_insert] at hq
    split at hq
    · cases hq
      exact hmoved p e' phase hp hmove
    · exact hold id q hq

lemma Engine.PassesOk.purgeStep (hok : e.PassesOk h) (hinv : Inv e h) (pass : Nat)
    (pressure : Bool) : (e.purgeStep pass pressure).PassesOk h := by
  have hdead : ∀ loc, e.Dead h loc → (e.purgeStep pass pressure).Dead h loc := by
    rintro loc ⟨t, older, hvers, hset⟩
    exact ⟨t, older, hvers, e.settled_step (.purgeStep pass pressure) t hset⟩
  have hsign := (e.purgeStep_signs pass pressure).2.1
  refine purgeStep_passes pass pressure (fun id q hq => (hok id q hq).mono hsign hdead) ?_
  intro p e' phase hp hmove
  have hnext := hmove.ok hinv (fun x hx => hinv.passes pass p x hp hx) (hok pass p hp)
  exact (hnext phase rfl).mono hsign hdead

end NusaDb
