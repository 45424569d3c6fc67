import NusaDb.Partition.Registry

/-!
# Attaching and detaching partitions

`ATTACH PARTITION` and `DETACH PARTITION` (`executor/ddl.rs`) record or remove an entry.
`Catalog.Joins` makes a recorded entry a link between two trees that were apart.
-/

namespace NusaDb.Partition

open List NusaDb.Sql NusaDb.Fallible

inductive AttachError where
  /-- The error of a key expression on an existing row. -/
  | key
  /-- "an existing row of .. does not fall within the bound for partition .." (`23514`) -/
  | outside (partition current : String)
  /-- "partition ancestry exceeded 64 levels above .." -/
  | tooDeep (partition : String)
deriving DecidableEq, Repr

namespace Catalog

variable {F O T : Type} (ly : Layout F O T) (cat : Catalog F O T)

def recordPartition (entry : PartitionEntry (SqlValue F O)) : Catalog F O T :=
  { cat with partitions := cat.partitions ++ [entry] }

def removePartitionEntry (table : String) : Catalog F O T :=
  { cat with partitions := cat.partitions.filter (·.table != table) }

def walkFuel : Nat := cat.partitions.length + maxDepth + 1

/-- The walk of `ATTACH PARTITION` from the parent up: whether it meets the attached table. -/
def meetsAbove (table : String) : Nat → String → Bool
  | 0, _ => false
  | fuel + 1, current =>
    current == table ||
      match cat.entryOf current with
      | none => false
      | some entry => meetsAbove table fuel entry.parent

/-- `validate_attach_rows`, from the partition `current` under `levelParent`. -/
def validateAttachRows (partition : String) (rows : List (Row F O)) :
    Nat → String → String → Except AttachError Unit
  | 0, _, _ => .error (.tooDeep partition)
  | levels + 1, current, levelParent =>
    match cat.keys levelParent with
    | none => .ok ()
    | some key =>
      match cat.entryOf current with
      | none => .ok ()
      | some entry =>
        match rows.mapM fun row => cat.violates ly { entry with parent := levelParent } key row with
        | none => .error .key
        | some outside =>
          if outside.contains true then .error (.outside partition current)
          else
            match cat.entryOf levelParent with
            | none => .ok ()
            | some next => validateAttachRows partition rows levels levelParent next.parent

variable {ly cat} {table : String} {es : List (PartitionEntry (SqlValue F O))}

lemma meetsAbove_of_up (hone : cat.OneParent) {current : String} (hup : cat.Up current es table) :
    ∀ {fuel : Nat}, es.length < fuel → cat.meetsAbove table fuel current = true := by
  induction hup with
  | refl current =>
    intro fuel hfuel
    cases fuel with
    | zero => simp at hfuel
    | succ fuel => simp [meetsAbove]
  | @step entry entries top hmem _ ih =>
    intro fuel hfuel
    cases fuel with
    | zero => simp at hfuel
    | succ fuel =>
      rw [meetsAbove, entryOf_eq_some hone hmem, Bool.or_eq_true]
      exact .inr (ih (by simpa using hfuel))

lemma up_topmost (fuel : Nat) (table : String) :
    ∃ es, cat.Up table es (cat.topmost fuel table) ∧
      (cat.entryOf (cat.topmost fuel table) = none ∨ es.length = fuel) := by
  induction fuel generalizing table with
  | zero => exact ⟨[], .refl table, .inr rfl⟩
  | succ fuel ih =>
    rw [topmost]
    rcases hentry : cat.entryOf table with _ | entry
    · exact ⟨[], .refl table, .inl hentry⟩
    obtain ⟨hmem, htable⟩ := mem_of_entryOf hentry
    obtain ⟨es, hup, hend⟩ := ih entry.parent
    refine ⟨entry :: es, ?_, ?_⟩
    · rw [← htable]
      exact .step hmem hup
    · rcases hend with hend | hlength
      · exact .inl hend
      · exact .inr (by rw [length_cons, hlength])

variable {top : String}

lemma Up.eq_nil_of_entryOf (hup : cat.Up table es top) (hnone : cat.entryOf table = none) :
    es = [] := by
  cases es with
  | nil => rfl
  | cons e es =>
    obtain ⟨hmem, htable, -⟩ := hup.cons_inv
    exact absurd (by simpa using htable) (find?_eq_none.mp hnone e hmem)

lemma Up.eq_nil_of_partitionsOf (hup : cat.Up table es top) (hnone : cat.partitionsOf top = []) :
    es = [] := by
  cases es using reverseRecOn with
  | nil => rfl
  | append_singleton es e =>
    obtain ⟨-, hparent, hmem⟩ := hup.snoc
    have he : e ∈ cat.partitionsOf top := mem_partitionsOf.mpr ⟨hmem, hparent⟩
    rw [hnone] at he
    cases he

/-- No row leaves where a check over all of them finds none. -/
lemma eq_some_false_of_mapM {α : Type} {check : α → Option Bool} {rows : List α} {outside : List Bool}
    (h : rows.mapM check = some outside) (hnone : outside.contains true = false) :
    ∀ row ∈ rows, check row = some false := by
  intro row hrow
  obtain ⟨i, hi, rfl⟩ := mem_iff_getElem.mp hrow
  have hall := forall₂_iff_get.mp (mapM_eq_some.mp h)
  have hout : i < outside.length := hall.1 ▸ hi
  have hfalse : outside[i] ≠ true := fun htrue =>
    absurd (contains_iff_mem.mpr (htrue ▸ getElem_mem hout)) (by simpa using hnone)
  rw [← Bool.eq_false_of_not_eq_true hfalse]
  exact hall.2 i hi hout

lemma not_boundViolation_of_validateAttachRows {partition : String} {rows : List (Row F O)}
    (levels : Nat) :
    ∀ {current levelParent : String} {entry : PartitionEntry (SqlValue F O)},
      cat.entryOf current = some entry → entry.parent = levelParent →
      cat.validateAttachRows ly partition rows levels current levelParent = .ok () →
      ∀ row ∈ rows, cat.boundViolation ly levels current row = some false := by
  induction levels with
  | zero =>
    intro current levelParent entry _ _ h
    cases h
  | succ levels ih =>
    intro current levelParent entry hentry hparent h row hrow
    subst hparent
    simp only [validateAttachRows, hentry] at h
    rw [boundViolation, hentry]
    simp only
    rcases hkey : cat.keys entry.parent with _ | key
    · rfl
    simp only [hkey] at h
    split at h
    next => cases h
    next outside houtside =>
      split_ifs at h with hany
      have hviolates : cat.violates ly entry key row = some false :=
        eq_some_false_of_mapM houtside (Bool.eq_false_of_not_eq_true hany) row hrow
      have habove : cat.boundViolation ly levels entry.parent row = some false := by
        cases hnext : cat.entryOf entry.parent with
        | none => cases levels <;> simp [boundViolation, hnext]
        | some next =>
          simp only [hnext] at h
          exact ih hnext rfl h row hrow
      simp [hviolates, habove]

/-- The entry is of a table that is no partition yet, under a partitioned table that does not lie
below it. -/
structure Joins (cat : Catalog F O T) (entry : PartitionEntry (SqlValue F O)) : Prop where
  fresh : ∀ e ∈ cat.partitions, e.table ≠ entry.table
  key : ∃ key, cat.keys entry.parent = some key
  apart : ∀ es, ¬cat.Up entry.parent es entry.table

namespace Joins

variable {entry : PartitionEntry (SqlValue F O)} {e : PartitionEntry (SqlValue F O)}

lemma mem_recordPartition :
    e ∈ (cat.recordPartition entry).partitions ↔ e ∈ cat.partitions ∨ e = entry := by
  simp [recordPartition]

lemma forall_recordPartition {P : PartitionEntry (SqlValue F O) → Prop}
    (hold : ∀ e ∈ cat.partitions, P e) (hnew : P entry) :
    ∀ e ∈ (cat.recordPartition entry).partitions, P e := by
  intro e he
  rcases mem_recordPartition.mp he with he | rfl
  · exact hold e he
  · exact hnew

lemma pairwise_recordPartition {R : PartitionEntry (SqlValue F O) → PartitionEntry (SqlValue F O) → Prop}
    (hold : ∀ e ∈ cat.partitions, ∀ e' ∈ cat.partitions, R e e') (hself : R entry entry)
    (hnew : ∀ e ∈ cat.partitions, R e entry ∧ R entry e) :
    ∀ e ∈ (cat.recordPartition entry).partitions, ∀ e' ∈ (cat.recordPartition entry).partitions,
      R e e' :=
  forall_recordPartition
    (fun e he => forall_recordPartition (hold e he) (hnew e he).1)
    (forall_recordPartition (fun e he => (hnew e he).2) hself)

variable {es : List (PartitionEntry (SqlValue F O))}

lemma up_cases (h : cat.Joins entry) {table top : String}
    (hup : (cat.recordPartition entry).Up table es top) :
    cat.Up table es top ∨
      ∃ below above, es = below ++ entry :: above ∧ cat.Up table below entry.table ∧
        cat.Up entry.parent above top := by
  induction hup with
  | refl table => exact .inl (.refl table)
  | @step e es top hmem _ ih =>
    rcases mem_recordPartition.mp hmem with hold | rfl
    · rcases ih with hup | ⟨below, above, rfl, hbelow, habove⟩
      · exact .inl (.step hold hup)
      · exact .inr ⟨e :: below, above, rfl, .step hold hbelow, habove⟩
    · rcases ih with hup | ⟨below, above, rfl, hbelow, habove⟩
      · exact .inr ⟨[], es, rfl, .refl _, hup⟩
      · exact absurd hbelow (h.apart below)

lemma oneParent (h : cat.Joins entry) (hone : cat.OneParent) :
    (cat.recordPartition entry).OneParent := by
  refine pairwise_recordPartition hone (fun _ => rfl) fun e he => ⟨fun ht => ?_, fun ht => ?_⟩
  · exact absurd ht (h.fresh e he)
  · exact absurd ht.symm (h.fresh e he)

end Joins

variable {e : PartitionEntry (SqlValue F O)}

lemma mem_removePartitionEntry :
    e ∈ (cat.removePartitionEntry table).partitions ↔ e ∈ cat.partitions ∧ e.table ≠ table := by
  simp [removePartitionEntry]

end Catalog

end NusaDb.Partition
