import NusaDb.Partition.Kept

/-!
# Pruning a partition tree

The query over the partitions that pruning keeps, where every partition holds only rows its bound
accepts.
-/

namespace NusaDb.Partition

open List NusaDb.Sql

variable {F O T : Type} (ts : Types F O T)

namespace Catalog

variable {F O T : Type} (ts : Types F O T) (cat : Catalog F O T) {t : String}

lemma reach_of_mem_descendants {table : String} (h : t ∈ cat.descendants table) :
    Worklist.Reach cat.children table t := by
  have hpool : ∀ a, ∀ b ∈ cat.children a, b ∈ cat.partitions.map (·.table) := by
    intro a b hb
    obtain ⟨p, hp, rfl⟩ := mem_map.mp hb
    exact mem_map_of_mem (mem_of_mem_filter hp)
  have hmem := mem_of_mem_dropLast (mem_reverse.mp h)
  rw [show cat.partitions.length = (cat.partitions.map (·.table)).length from
    (length_map _).symm] at hmem
  exact (Worklist.mem_closure hpool table t).mp hmem

variable {dropped : List String}

lemma mem_foldl_pushNew {subs : List String} :
    t ∈ subs.foldl pushNew dropped ↔ t ∈ dropped ∨ t ∈ subs := by
  induction subs generalizing dropped with
  | nil => simp
  | cons sub subs ih =>
    have hpush : t ∈ pushNew dropped sub ↔ t ∈ dropped ∨ t = sub := by
      unfold pushNew
      split
      · rename_i hin
        constructor
        · exact Or.inl
        · rintro (h | rfl)
          · exact h
          · simpa using hin
      · simp
    rw [foldl_cons, ih, hpush, mem_cons, or_assoc]

lemma mem_expandDropped {fuel index : Nat} (h : t ∈ dropped) :
    t ∈ cat.expandDropped fuel index dropped := by
  induction fuel generalizing index dropped with
  | zero => exact h
  | succ fuel ih =>
    unfold expandDropped
    split
    · exact h
    · exact ih (mem_foldl_pushNew.mpr (.inl h))

lemma reach_of_mem_expandDropped {start : List String} {fuel index : Nat}
    (hall : ∀ x ∈ dropped, ∃ s ∈ start, Worklist.Reach cat.children s x)
    (h : t ∈ cat.expandDropped fuel index dropped) :
    ∃ s ∈ start, Worklist.Reach cat.children s t := by
  induction fuel generalizing index dropped with
  | zero => exact hall t h
  | succ fuel ih =>
    unfold expandDropped at h
    split at h
    · exact hall t h
    rename_i name hname
    refine ih (fun x hx => ?_) h
    rcases mem_foldl_pushNew.mp hx with hold | hnew
    · exact hall x hold
    · obtain ⟨s, hs, hreach⟩ := hall name (mem_of_getElem? hname)
      exact ⟨s, hs, hreach.trans (cat.reach_of_mem_descendants hnew)⟩

variable {key : Key T} {parent : String}

lemma mem_partitionsToPrune (hkey : cat.keys parent = some key)
    {cs : List (PruneConstraint (SqlValue F O))} :
    t ∈ cat.partitionsToPrune ts parent cs ↔ ∃ p ∈ cat.partitions, p.parent = parent ∧
      p.table = t ∧ partitionExcluded ts p.bound cs key.types = true := by
  simp only [partitionsToPrune, hkey, mem_map, mem_filter, Bool.and_eq_true, beq_iff_eq]
  constructor
  · rintro ⟨p, ⟨hp, hparent, hdrop⟩, rfl⟩
    exact ⟨p, hp, hparent, rfl, hdrop⟩
  · rintro ⟨p, hp, hparent, rfl, hdrop⟩
    exact ⟨p, ⟨hp, hparent, hdrop⟩, rfl⟩

omit ts cat in
lemma partitionExcluded_nil (ts : Types F O T) (bound : PartitionBound (SqlValue F O))
    (tys : List (ColumnType T)) : partitionExcluded ts bound [] tys = false := by
  cases tys with
  | nil => rfl
  | cons ty tys =>
    cases bound with
    | range lo hi =>
      cases lo with
      | nil => rfl
      | cons lo0 los =>
        cases hi with
        | nil => rfl
        | cons hi0 his => simp [partitionExcluded]
    | list values => rfl
    | hash modulus remainder => simp [partitionExcluded]
    | default => rfl

lemma expandDropped_nil (fuel index : Nat) : cat.expandDropped fuel index [] = [] := by
  cases fuel <;> simp [expandDropped]

/-- Where no constraint is read off the predicate, or none drops a partition, the loop starts from
nothing and drops nothing. -/
lemma prunePartitions_eq_expand (predicate : Expr F O) (baseQual : String)
    (descendants : List String) (hkey : cat.keys parent = some key) :
    let start := cat.partitionsToPrune ts parent
      (collectPruneConstraints ts key.columns baseQual predicate)
    cat.prunePartitions ts parent descendants (some predicate) baseQual = descendants.filter fun d =>
      !(cat.expandDropped (start.length + cat.partitions.length) 0 start).contains d := by
  intro start
  have hall : start = [] → descendants = descendants.filter fun d =>
      !(cat.expandDropped (start.length + cat.partitions.length) 0 start).contains d := by
    intro hstart
    rw [hstart, expandDropped_nil]
    simp
  simp only [prunePartitions, hkey]
  split_ifs with hcs hstart
  · refine hall ?_
    rw [List.isEmpty_iff] at hcs
    simp [start, hcs, partitionsToPrune, hkey, partitionExcluded_nil]
  · exact hall (List.isEmpty_iff.mp hstart)
  · rfl

lemma prunePartitions_eq_filter (predicate : Expr F O) (baseQual : String)
    (descendants : List String) (hkey : cat.keys parent = some key) :
    ∃ dropped : List String,
      cat.prunePartitions ts parent descendants (some predicate) baseQual =
        descendants.filter (fun d => !dropped.contains d) ∧
      (∀ t ∈ dropped, ∃ p ∈ cat.partitions, p.parent = parent ∧
        partitionExcluded ts p.bound (collectPruneConstraints ts key.columns baseQual predicate)
          key.types = true ∧ Worklist.Reach cat.children p.table t) ∧
      (∀ p ∈ cat.partitions, p.parent = parent →
        partitionExcluded ts p.bound (collectPruneConstraints ts key.columns baseQual predicate)
          key.types = true → p.table ∈ dropped) := by
  refine ⟨_, cat.prunePartitions_eq_expand ts predicate baseQual descendants hkey, ?_, ?_⟩
  · intro t ht
    obtain ⟨s, hs, hreach⟩ := cat.reach_of_mem_expandDropped
      (fun x hx => ⟨x, hx, Relation.ReflTransGen.refl⟩) ht
    obtain ⟨p, hp, hparent, rfl, hdrop⟩ := (cat.mem_partitionsToPrune ts hkey).mp hs
    exact ⟨p, hp, hparent, hdrop, hreach⟩
  · intro p hp hparent hdrop
    exact cat.mem_expandDropped
      ((cat.mem_partitionsToPrune ts hkey).mpr ⟨p, hp, hparent, rfl, hdrop⟩)

end Catalog

def isTrue : Option (SqlValue F O) → Bool
  | some (.bool true) => true
  | _ => false

@[simp] lemma isTrue_bool (b : Bool) : isTrue (some (.bool b : SqlValue F O)) = b := by
  cases b <;> rfl

@[simp] lemma isTrue_null : isTrue (some (.null : SqlValue F O)) = false := rfl

/-- Every row lies under partitions that accept it, the catch-all ones apart. -/
def Stored (cat : Catalog F O T) (contents : String → List (Row F O)) : Prop :=
  ∀ p ∈ cat.partitions, ∀ key, cat.keys p.parent = some key →
    ∀ t, Worklist.Reach cat.children p.table t → ∀ row ∈ contents t,
      p.bound = .default ∨ accepts ts (key.ofRow row) p.bound key.types = true

/-- Over every tree under the key on which the predicate raises no error, with values of `dom`, the
query returns the same rows from the kept tables as from all. -/
def LosesNoRow (dom : ColumnType T → SqlValue F O → Prop) (key : Key T) (coerce : Coerce F O)
    (baseQual : String) (predicate : Expr F O) : Prop :=
  ∀ (cat : Catalog F O T) (contents : String → List (Row F O)) (parent : String),
    cat.keys parent = some key →
    (∀ p ∈ cat.partitions, ∀ k, cat.keys p.parent = some k → Fits ts dom k p.bound) →
    (∀ t ∈ cat.descendants parent, ∀ row ∈ contents t, RowIn dom key row) →
    Stored ts cat contents →
    (∀ t ∈ cat.descendants parent, ∀ row ∈ contents t,
      predicate.eval ts coerce baseQual row ≠ none) →
    let kept := cat.prunePartitions ts parent (cat.descendants parent) (some predicate) baseQual
    let found := fun row => isTrue (predicate.eval ts coerce baseQual row)
    (∀ t ∈ cat.descendants parent, ∀ row ∈ contents t, found row = true → t ∈ kept) ∧
      (kept.flatMap contents).filter found = ((cat.descendants parent).flatMap contents).filter found

lemma filter_flatMap_filter {α β : Type} (tables : List α) (contents : α → List β)
    (keep : α → Bool) (found : β → Bool)
    (h : ∀ t ∈ tables, keep t = false → ∀ row ∈ contents t, found row = false) :
    ((tables.filter keep).flatMap contents).filter found =
      (tables.flatMap contents).filter found := by
  induction tables with
  | nil => rfl
  | cons t tables ih =>
    have hrest := ih fun t ht => h t (mem_cons_of_mem _ ht)
    cases hkeep : keep t with
    | true => simp only [filter_cons, hkeep, if_true, flatMap_cons, filter_append, hrest]
    | false =>
      have hnone : (contents t).filter found = [] := by
        rw [filter_eq_nil_iff]
        exact fun row hrow => by simp [h t mem_cons_self hkeep row hrow]
      simp only [filter_cons, hkeep, Bool.false_eq_true, if_false, flatMap_cons,
        filter_append, hnone, nil_append, hrest]

section Trees

variable {dom : ColumnType T → SqlValue F O → Prop} {key : Key T} {coerce : Coerce F O}
  {baseQual : String} {predicate : Expr F O}

variable {bound : PartitionBound (SqlValue F O)}

lemma not_null_of_accepts {row : Row F O} (hfit : Fits ts dom key bound)
    (hacc : accepts ts (key.ofRow row) bound key.types = true) (hrest : key.rest ≠ []) :
    (key.ofRow row).any isNull = false := by
  cases bound with
  | range | hash =>
    simp only [accepts, Bool.and_eq_true, Bool.not_eq_true'] at hacc
    exact hacc.1.1
  | list values => exact absurd hfit.1 hrest
  | default => exact absurd hacc (by simp [accepts])

lemma loses_no_row_of_held (hord : KeyOrdered ts dom key)
    (hconst : ConstantsIn ts dom key (collectPruneConstraints ts key.columns baseQual predicate))
    (h : ∀ row, RowIn dom key row → isTrue (predicate.eval ts coerce baseQual row) = true →
      (key.rest ≠ [] → (key.ofRow row).any isNull = false) →
      Held ts key (collectPruneConstraints ts key.columns baseQual predicate) row) :
    LosesNoRow ts dom key coerce baseQual predicate := by
  intro cat contents parent hkey hfits hrows hstored _ kept found
  obtain ⟨dropped, hkept, hunder, -⟩ :=
    cat.prunePartitions_eq_filter ts predicate baseQual (cat.descendants parent) hkey
  -- no true row lies in a dropped table
  have hnone : ∀ t ∈ cat.descendants parent, t ∈ dropped → ∀ row ∈ contents t, found row = false := by
    intro t ht hdropped row hrow
    by_contra hfound
    rw [Bool.not_eq_false] at hfound
    obtain ⟨p, hp, rfl, hdrop, hreach⟩ := hunder t hdropped
    rcases hstored p hp key hkey t hreach row hrow with hdefault | hacc
    · rw [hdefault] at hdrop
      exact absurd hdrop (by simp [partitionExcluded, Key.types])
    have hfit := hfits p hp key hkey
    have hin := hrows t ht row hrow
    have hheld := h row hin hfound (not_null_of_accepts ts hfit hacc)
    rw [hheld.kept ts hord hconst hin hfit hacc] at hdrop
    exact absurd hdrop (by decide)
  constructor
  · intro t ht row hrow hfound
    show t ∈ kept
    rw [show kept = _ from hkept, mem_filter]
    refine ⟨ht, ?_⟩
    by_contra hin
    rw [Bool.not_eq_true', Bool.not_eq_false, contains_iff_mem] at hin
    rw [hnone t ht hin row hrow] at hfound
    exact absurd hfound (by decide)
  · rw [show kept = _ from hkept]
    refine filter_flatMap_filter _ _ _ _ fun t ht hout row hrow => ?_
    rw [Bool.not_eq_false', contains_iff_mem] at hout
    exact hnone t ht hout row hrow

def oneLeaf (key : Key T) (bound : PartitionBound (SqlValue F O)) : Catalog F O T where
  keys := fun t => if t = "parent" then some key else none
  partitions := [⟨"parent", "leaf", bound⟩]

/-- A row that is found keeps its partition from being excluded. -/
lemma kept_of_loses_no_row (h : LosesNoRow ts dom key coerce baseQual predicate) (row : Row F O)
    (hin : RowIn dom key row) (hfound : isTrue (predicate.eval ts coerce baseQual row) = true)
    (hfit : Fits ts dom key bound) (hacc : accepts ts (key.ofRow row) bound key.types = true) :
    partitionExcluded ts bound (collectPruneConstraints ts key.columns baseQual predicate) key.types =
      false := by
  by_contra hdrop
  rw [Bool.not_eq_false] at hdrop
  let cat := oneLeaf key bound
  let contents : String → List (Row F O) := fun t => if t = "leaf" then [row] else []
  have hkey : cat.keys "parent" = some key := rfl
  have hrow : ∀ t, ∀ r ∈ contents t, r = row := by
    intro t r hr
    by_cases ht : t = "leaf"
    · simpa [contents, ht] using hr
    · simp [contents, ht] at hr
  have hpart : ∀ p ∈ cat.partitions, p = ⟨"parent", "leaf", bound⟩ :=
    fun p hp => mem_singleton.mp hp
  have hloses := h cat contents "parent" hkey (by
      intro p hp k hk
      obtain rfl := hpart p hp
      obtain rfl : key = k := Option.some.inj (hkey.symm.trans hk)
      exact hfit)
    (fun t _ r hr => hrow t r hr ▸ hin)
    (by
      intro p hp k hk t _ r hr
      obtain rfl := hpart p hp
      obtain rfl : key = k := Option.some.inj (hkey.symm.trans hk)
      rw [hrow t r hr]
      exact .inr hacc)
    (by
      intro t _ r hr hnone
      rw [hrow t r hr] at hnone
      rw [hnone] at hfound
      exact absurd hfound (by simp [isTrue]))
  have hkept := hloses.1 "leaf" (by rw [show cat.descendants "parent" = ["leaf"] from rfl]; simp)
    row (by simp [contents]) hfound
  obtain ⟨dropped, heq, -, hall⟩ :=
    cat.prunePartitions_eq_filter ts predicate baseQual (cat.descendants "parent") hkey
  rw [heq, mem_filter] at hkept
  have hin := hall ⟨"parent", "leaf", bound⟩ mem_cons_self rfl hdrop
  exact absurd (contains_iff_mem.mpr hin) (by simpa using hkept.2)

/-- Pruning loses no row exactly when every row on which the predicate is true holds the constraints
that pruning read off it. -/
theorem prunePartitions_loses_no_row_iff (hord : KeyOrdered ts dom key)
    (hconst : ConstantsIn ts dom key (collectPruneConstraints ts key.columns baseQual predicate)) :
    LosesNoRow ts dom key coerce baseQual predicate ↔
      ∀ row, RowIn dom key row → isTrue (predicate.eval ts coerce baseQual row) = true →
        (key.rest ≠ [] → (key.ofRow row).any isNull = false) →
        Held ts key (collectPruneConstraints ts key.columns baseQual predicate) row := by
  constructor
  · intro h row hin hfound hnull
    exact held_of_kept ts hord hconst hin
      (fun bound hfit hacc => kept_of_loses_no_row ts h row hin hfound hfit hacc) hnull
  · exact loses_no_row_of_held ts hord hconst

end Trees

def numbersOnly : Types Unit Empty Empty where
  floatTotalCmp := fun _ _ => .eq
  intToFloat := fun _ => ()
  decimalToFloat := fun _ => ()
  floatNeg := fun _ => ()
  compareOther := fun _ _ => .eq
  typeRank := fun _ => 5
  castOther := fun _ _ => none
  encodeOther := fun _ _ => none

/-- Among numbers the analyzer compares the operands as they are. -/
def asWritten : Coerce Unit Empty := fun _ _ v => some v

def keyK : Key Empty := ⟨("k", .int), []⟩

/-- `k < 2` keeps its constant in the cast, so it loses no row of any tree. -/
theorem int_constant_loses_no_row :
    LosesNoRow numbersOnly (fun _ => IsInt) keyK asWritten "t"
      (.binary (.column "k") .lt (.literal (.int 2))) := by
  have hconstants : ∀ c ∈ collectPruneConstraints numbersOnly keyK.columns "t"
      (.binary (.column "k") .lt (.literal (.int 2))), c = ⟨0, .lt, .int 2⟩ :=
    fun c hc => mem_singleton.mp hc
  have hcast : castKey numbersOnly (.int 2) (.int : ColumnType Empty) = some (.int 2) := rfl
  refine (prunePartitions_loses_no_row_iff numbersOnly ?_ ?_).mpr ?_
  · exact fun _ _ => numbersOnly.ordered_int
  · intro col hcol c hc v hv
    obtain rfl : col = ("k", .int) := mem_singleton.mp hcol
    rw [hconstants c hc, hcast] at hv
    cases hv
    trivial
  · intro row hin hfound _
    refine ⟨fun c hc _ v hv => ?_, fun _ c hc _ hop => ?_, fun col more hrest => ?_⟩
    · rw [hconstants c hc] at hv ⊢
      cases hv
      have hk : IsInt (row "k") := hin ("k", .int) mem_cons_self
      show opHolds numbersOnly (row "k") .lt (.int 2) = true
      have hcmp : isTrue (some (applyComparison numbersOnly .lt (row "k") (.int 2))) = true := hfound
      cases hrow : row "k" with
      | int n => simpa [hrow, applyComparison, isNull] using hcmp
      | null => simp [hrow, applyComparison, isNull] at hcmp
      | _ => rw [hrow] at hk; exact False.elim hk
    · rw [hconstants c hc] at hop
      exact absurd hop (by decide)
    · exact absurd hrest (by simp [keyK])

/-- `k < 2.4` is rounded to `k < 2`, and the partition of the rows from 2 to 10 is dropped. -/
theorem rounded_constant_loses_row :
    ¬ LosesNoRow numbersOnly (fun _ => IsInt) keyK asWritten "t"
      (.binary (.column "k") .lt (.literal (.numeric ⟨24, 1⟩))) := by
  intro h
  let bound : PartitionBound (SqlValue Unit Empty) := .range [.value (.int 2)] [.value (.int 10)]
  let row : Row Unit Empty := fun _ => .int 2
  have hfit : Fits numbersOnly (fun _ => IsInt) keyK bound :=
    ⟨.cons trivial .nil, .cons trivial .nil, by decide⟩
  have hkept := kept_of_loses_no_row numbersOnly h row (fun _ _ => trivial) rfl hfit rfl
  exact absurd hkept (by decide)

end NusaDb.Partition
