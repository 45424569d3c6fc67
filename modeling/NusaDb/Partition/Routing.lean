import NusaDb.Lib.Fallible
import NusaDb.Partition.Pruning

/-!
# Routing rows to partitions

`route_rows_to_leaves` and `route_row_to_leaf` take a row down the partition tree, at each level to
the partition whose bound accepts its key or else to the catch-all; `partition_bound_violations`
takes a row up and asks for a bound it leaves. `Up` is the way from a table to one above it, as the
list of the catalog entries on it.
-/

namespace NusaDb.Partition

open List NusaDb.Sql NusaDb.Fallible

/-! ## Keys -/

/-- An expression in a key: its value for a row (`none` is an error), and the columns it reads that
are not text. -/
structure KeyExpression (F O T : Type) where
  typed : Row F O → Option (SqlValue F O)
  typedInputs : List (String × ColumnType T)

/-- The rows of a partition tree, which all have the columns of the topmost table: how text is read
in a column's type, and the key expressions by their SQL text. A column never has the name of an
expression. -/
structure Layout (F O T : Type) extends Types F O T where
  isText : SqlValue F O → Bool
  /-- `ty.physical() == ColumnType::Text`. -/
  keepsText : ColumnType T → Bool
  expression : String → Option (KeyExpression F O T)

namespace Layout

variable {F O T : Type} (ly : Layout F O T)

/-- `in_column_type`: a row about to be written may still hold the text it was given for a column
that is not text. -/
def inColumnType (value : SqlValue F O) (ty : ColumnType T) : Option (SqlValue F O) :=
  if ly.isText value && !ly.keepsText ty then ly.castValue value ty else some value

def readInputs : List (String × ColumnType T) → Row F O → Option (Row F O)
  | [], row => some row
  | (name, ty) :: inputs, row => do
    let value ← ly.inColumnType (row name) ty
    readInputs inputs (Function.update row name value)

/-- One slot of `key_of_row`: a column, or an expression over the row. -/
def readSlot (slot : String × ColumnType T) (row : Row F O) : Option (SqlValue F O) :=
  match ly.expression slot.1 with
  | none => ly.inColumnType (row slot.1) slot.2
  | some e =>
    if e.typedInputs.any fun input => ly.isText (row input.1) then
      (ly.readInputs e.typedInputs row).bind e.typed
    else e.typed row

def keyOfRow (key : Key T) (row : Row F O) : Option (List (SqlValue F O)) :=
  (key.lead :: key.rest).mapM fun slot => ly.readSlot slot row

end Layout

/-! ## Ways through the tree -/

inductive RouteError where
  /-- The error of a key expression, or of a text that is none of its column's type. -/
  | key
  /-- "partition routing exceeded 64 levels under .." -/
  | tooDeep (parent : String)
  /-- "the partition key has a NULL element, which routes only to a DEFAULT partition" (`0A000`) -/
  | nullKey
  /-- "no partition of relation .. found for the inserted row" (`23514`) -/
  | noPartition (parent : String)
  /-- "no partition of relation .. found for the moved row" (`23514`) -/
  | noPartitionForMoved (parent : String)
deriving DecidableEq, Repr

def maxDepth : Nat := 64

abbrev Buckets (F O : Type) := List (String × List (Row F O))

def pushInto {F O : Type} (target : String) (rows : List (Row F O)) : Buckets F O → Buckets F O
  | [] => [(target, rows)]
  | (name, bucket) :: rest =>
    if name = target then (name, bucket ++ rows) :: rest
    else (name, bucket) :: pushInto target rows rest

namespace Catalog

variable {F O T : Type} (ly : Layout F O T) (cat : Catalog F O T)

def partitionsOf (parent : String) : List (PartitionEntry (SqlValue F O)) :=
  cat.partitions.filter (·.parent == parent)

def entryOf (table : String) : Option (PartitionEntry (SqlValue F O)) :=
  cat.partitions.find? (·.table == table)

/-- The partition of `parent` that a row with this key goes to: the first that accepts it, or the
catch-all. -/
def choose (parent : String) (values : List (SqlValue F O)) (types : List (ColumnType T)) :
    Option (PartitionEntry (SqlValue F O)) :=
  ((cat.partitionsOf parent).find? fun p => accepts ly.toTypes values p.bound types).or
    ((cat.partitionsOf parent).find? (·.bound.isDefault))

/-- The target of a row in one round of `route_rows_to_leaves`. -/
def target (parent : String) (key : Key T) (row : Row F O) : Except RouteError String :=
  match ly.keyOfRow key row with
  | none => .error .key
  | some values =>
    match cat.choose ly parent values key.types with
    | some p => .ok p.table
    | none => if values.any isNull then .error .nullKey else .error (.noPartition parent)

def bucketRows (parent : String) (key : Key T) :
    List (Row F O) → Buckets F O → Except RouteError (Buckets F O)
  | [], buckets => .ok buckets
  | row :: rows, buckets => do
    let name ← cat.target ly parent key row
    bucketRows parent key rows (pushInto name [row] buckets)

def addLeaves : Buckets F O → Buckets F O → Buckets F O
  | [], leaves => leaves
  | (name, rows) :: buckets, leaves =>
    match cat.keys name with
    | some _ => addLeaves buckets leaves
    | none => addLeaves buckets (pushInto name rows leaves)

/-- The buckets whose target is itself partitioned, the last one first: `work` is a stack. -/
def pending : Buckets F O → List (String × Key T × List (Row F O))
  | [] => []
  | (name, rows) :: buckets =>
    match cat.keys name with
    | some key => pending buckets ++ [(name, key, rows)]
    | none => pending buckets

def routePending
    (route : String → Key T → List (Row F O) → Buckets F O → Except RouteError (Buckets F O)) :
    List (String × Key T × List (Row F O)) → Buckets F O → Except RouteError (Buckets F O)
  | [], leaves => .ok leaves
  | (parent, key, rows) :: work, leaves => do
    let leaves ← route parent key rows leaves
    routePending route work leaves

/-- One popped item of `route_rows_to_leaves` and all that is pushed after it, with the levels that
are left of `maxDepth`. -/
def routeLevel : Nat → String → Key T → List (Row F O) → Buckets F O →
    Except RouteError (Buckets F O)
  | 0, parent, _, _, _ => .error (.tooDeep parent)
  | levels + 1, parent, key, rows, leaves => do
    let buckets ← cat.bucketRows ly parent key rows []
    routePending (routeLevel levels) (cat.pending buckets) (cat.addLeaves buckets leaves)

def routeRowsToLeaves (table : String) (key : Key T) (rows : List (Row F O)) :
    Except RouteError (Buckets F O) :=
  cat.routeLevel ly maxDepth table key rows []

/-- `route_row_to_leaf`, for a row that an update moves. -/
def routeRowToLeaf : Nat → String → Row F O → Except RouteError String
  | 0, current, _ => .error (.tooDeep current)
  | levels + 1, current, row =>
    match cat.keys current with
    | none => .ok current
    | some key =>
      match ly.keyOfRow key row with
      | none => .error .key
      | some values =>
        match cat.choose ly current values key.types with
        | some p => routeRowToLeaf levels p.table row
        | none => .error (.noPartitionForMoved current)

/-- Whether a key leaves the bound of the partition; the catch-all is left where a sibling's bound
accepts the key. -/
def leaves (entry : PartitionEntry (SqlValue F O)) (values : List (SqlValue F O))
    (types : List (ColumnType T)) : Bool :=
  if entry.bound.isDefault then
    (cat.partitionsOf entry.parent).any fun p =>
      !p.bound.isDefault && accepts ly.toTypes values p.bound types
  else !accepts ly.toTypes values entry.bound types

def violates (entry : PartitionEntry (SqlValue F O)) (key : Key T) (row : Row F O) : Option Bool :=
  (ly.keyOfRow key row).map fun values => cat.leaves ly entry values key.types

/-- `partition_bound_violations` for one row: the table's own bound and those of the tables above.
`none` is the error of a key. -/
def boundViolation : Nat → String → Row F O → Option Bool
  | 0, _, _ => some false
  | levels + 1, current, row =>
    match cat.entryOf current with
    | none => some false
    | some entry =>
      match cat.keys entry.parent with
      | none => some false
      | some key => do
        let here ← cat.violates ly entry key row
        let above ← boundViolation levels entry.parent row
        some (here || above)

def topmost : Nat → String → String
  | 0, current => current
  | fuel + 1, current =>
    match cat.entryOf current with
    | none => current
    | some entry => topmost fuel entry.parent

/-! ## The way up -/

inductive Up : String → List (PartitionEntry (SqlValue F O)) → String → Prop
  | refl (table : String) : Up table [] table
  | step {entry : PartitionEntry (SqlValue F O)} {entries : List (PartitionEntry (SqlValue F O))}
      {top : String} (hmem : entry ∈ cat.partitions) (hup : Up entry.parent entries top) :
      Up entry.table (entry :: entries) top

def OneParent : Prop :=
  ∀ e ∈ cat.partitions, ∀ e' ∈ cat.partitions, e.table = e'.table → e = e'

def KeysAbove : Prop := ∀ e ∈ cat.partitions, ∃ key, cat.keys e.parent = some key

/-- The row lies within the entry's bound: the bound accepts its key, or is the catch-all and no
sibling's accepts it. -/
def Within (entry : PartitionEntry (SqlValue F O)) (row : Row F O) : Prop :=
  ∀ key, cat.keys entry.parent = some key → cat.violates ly entry key row = some false

variable {ly cat} {e : PartitionEntry (SqlValue F O)}

lemma entryOf_eq_some (hone : cat.OneParent) (he : e ∈ cat.partitions) :
    cat.entryOf e.table = some e := by
  refine find?_eq_some_of_unique he (beq_self_eq_true _) fun e' he' htable => ?_
  exact hone e' he' e he (beq_iff_eq.mp htable)

variable {table : String}

lemma mem_of_entryOf (h : cat.entryOf table = some e) : e ∈ cat.partitions ∧ e.table = table :=
  ⟨mem_of_find?_eq_some h, by simpa using find?_some h⟩

namespace Up

variable {table mid top : String} {es es' : List (PartitionEntry (SqlValue F O))}

lemma nil_inv (h : cat.Up table [] top) : table = top := by
  cases h
  rfl

variable {e : PartitionEntry (SqlValue F O)}

lemma cons_inv (h : cat.Up table (e :: es) top) :
    e ∈ cat.partitions ∧ e.table = table ∧ cat.Up e.parent es top := by
  cases h with
  | step hmem hup => exact ⟨hmem, rfl, hup⟩

lemma trans (h : cat.Up table es mid) (h' : cat.Up mid es' top) : cat.Up table (es ++ es') top := by
  induction h with
  | refl _ => exact h'
  | step hmem _ ih => exact .step hmem (ih h')

lemma mono {cat' : Catalog F O T} (h : cat.Up table es top)
    (hsub : ∀ e ∈ cat.partitions, e ∈ cat'.partitions) : cat'.Up table es top := by
  induction h with
  | refl table => exact .refl table
  | step hmem _ ih => exact .step (hsub _ hmem) ih

lemma mem (h : cat.Up table es top) : ∀ e ∈ es, e ∈ cat.partitions := by
  induction h with
  | refl _ =>
    intro e he
    cases he
  | step hmem _ ih =>
    intro e he
    rcases mem_cons.mp he with rfl | he
    · exact hmem
    · exact ih e he

lemma split (h : cat.Up table (es ++ e :: es') top) :
    cat.Up table es e.table ∧ cat.Up e.table (e :: es') top := by
  induction es generalizing table with
  | nil =>
    obtain ⟨hmem, rfl, hup⟩ := h.cons_inv
    exact ⟨.refl _, h⟩
  | cons d es ih =>
    obtain ⟨hmem, rfl, hup⟩ := h.cons_inv
    exact ⟨.step hmem (ih hup).1, (ih hup).2⟩

lemma snoc (h : cat.Up table (es ++ [e]) top) :
    cat.Up table es e.table ∧ e.parent = top ∧ e ∈ cat.partitions := by
  obtain ⟨hbelow, hlast⟩ := h.split
  obtain ⟨hmem, -, hup⟩ := hlast.cons_inv
  exact ⟨hbelow, hup.nil_inv, hmem⟩

lemma comparable (hone : cat.OneParent) {top' : String} (h : cat.Up table es top)
    (h' : cat.Up table es' top') :
    (∃ rest, es' = es ++ rest ∧ cat.Up top rest top') ∨ ∃ rest, es = es' ++ rest := by
  induction h generalizing es' with
  | refl _ => exact .inl ⟨es', rfl, h'⟩
  | @step entry entries top hmem hup ih =>
    cases es' with
    | nil => exact .inr ⟨entry :: entries, rfl⟩
    | cons entry' entries' =>
      obtain ⟨hmem', htable, hup'⟩ := h'.cons_inv
      cases hone entry' hmem' entry hmem htable
      rcases ih hup' with ⟨rest, hrest, hup''⟩ | ⟨rest, hrest⟩
      · exact .inl ⟨rest, by rw [hrest, cons_append], hup''⟩
      · exact .inr ⟨rest, by rw [hrest, cons_append]⟩

end Up

/-! ## One level -/

variable {parent : String}

lemma mem_partitionsOf :
    e ∈ cat.partitionsOf parent ↔ e ∈ cat.partitions ∧ e.parent = parent := by
  simp [partitionsOf]

lemma not_isDefault_of_accepts {ts : Types F O T} {key : List (SqlValue F O)}
    {bound : PartitionBound (SqlValue F O)} {tys : List (ColumnType T)} (h : accepts ts key bound tys) : bound.isDefault = false := by
  cases bound with
  | default => cases h
  | range | list | hash => rfl

variable {key : Key T} {row : Row F O} {values : List (SqlValue F O)}

/-- What the invariant says of a row, in terms of its key. -/
lemma within_iff (hkey : cat.keys e.parent = some key) :
    cat.Within ly e row ↔
      ∃ values, ly.keyOfRow key row = some values ∧ cat.leaves ly e values key.types = false := by
  constructor
  · intro h
    exact Option.map_eq_some_iff.mp (h key hkey)
  · rintro ⟨values, hvalues, hleaves⟩ key' hkey'
    rw [hkey] at hkey'
    cases hkey'
    rw [violates, hvalues, Option.map_some, hleaves]

/-- A row stays within a bound as long as no partition that accepts it comes to stand beside the
catch-all. -/
lemma Within.mono {cat' : Catalog F O T} (h : cat.Within ly e row) (hkeys : cat'.keys = cat.keys)
    (hbeside : ∀ p ∈ cat'.partitions, p.parent = e.parent → e.bound.isDefault = true →
      p ∈ cat.partitions ∨ ∀ key, cat.keys e.parent = some key → ∀ values,
        ly.keyOfRow key row = some values → ¬accepts ly.toTypes values p.bound key.types) :
    cat'.Within ly e row := by
  intro key hkey
  rw [hkeys] at hkey
  obtain ⟨values, hvalues, hleaves⟩ := (within_iff hkey).mp h
  rw [violates, hvalues, Option.map_some]
  congr 1
  rw [leaves] at hleaves ⊢
  split at hleaves
  next hdefault =>
    rw [if_pos hdefault, any_eq_false]
    intro p hp
    obtain ⟨hmem, hparent⟩ := mem_partitionsOf.mp hp
    rcases hbeside p hmem hparent hdefault with hold | hnone
    · exact any_eq_false.mp hleaves p (mem_partitionsOf.mpr ⟨hold, hparent⟩)
    · simp [hnone key hkey values hvalues]
  next hdefault =>
    rw [if_neg hdefault]
    exact hleaves

lemma within_of_choose (hkey : cat.keys parent = some key)
    (hvalues : ly.keyOfRow key row = some values)
    (h : cat.choose ly parent values key.types = some e) :
    e ∈ cat.partitions ∧ e.parent = parent ∧ cat.Within ly e row := by
  rcases Option.or_eq_some_iff.mp h with hfound | ⟨hnone, hdefault⟩
  · obtain ⟨hmem, rfl⟩ := mem_partitionsOf.mp (mem_of_find?_eq_some hfound)
    have haccepts := find?_some hfound
    refine ⟨hmem, rfl, (within_iff hkey).mpr ⟨values, hvalues, ?_⟩⟩
    rw [leaves, not_isDefault_of_accepts haccepts]
    simp [haccepts]
  · obtain ⟨hmem, rfl⟩ := mem_partitionsOf.mp (mem_of_find?_eq_some hdefault)
    have hisDefault : e.bound.isDefault = true := by simpa using find?_some hdefault
    refine ⟨hmem, rfl, (within_iff hkey).mpr ⟨values, hvalues, ?_⟩⟩
    rw [leaves, hisDefault, if_pos rfl, any_eq_false]
    intro p hp
    simp [find?_eq_none.mp hnone p hp]

/-- At no parent do two partitions accept the row's key, and no parent has two catch-alls. -/
structure Apart (cat : Catalog F O T) (ly : Layout F O T) (row : Row F O) : Prop where
  accepts : ∀ e ∈ cat.partitions, ∀ e' ∈ cat.partitions, e.parent = e'.parent →
    ∀ key, cat.keys e.parent = some key → ∀ values, ly.keyOfRow key row = some values →
    accepts ly.toTypes values e.bound key.types → accepts ly.toTypes values e'.bound key.types →
    e = e'
  default : ∀ e ∈ cat.partitions, ∀ e' ∈ cat.partitions, e.parent = e'.parent →
    e.bound.isDefault → e'.bound.isDefault → e = e'

/-- The converse of `within_of_choose`: where the bounds are apart, routing chooses the partition
that the row lies within. -/
lemma choose_of_within (hapart : cat.Apart ly row) (he : e ∈ cat.partitions)
    (hkey : cat.keys e.parent = some key) (hwithin : cat.Within ly e row) :
    ∃ values, ly.keyOfRow key row = some values ∧
      cat.choose ly e.parent values key.types = some e := by
  obtain ⟨values, hvalues, hleaves⟩ := (within_iff hkey).mp hwithin
  refine ⟨values, hvalues, ?_⟩
  have hmem : e ∈ cat.partitionsOf e.parent := mem_partitionsOf.mpr ⟨he, rfl⟩
  unfold choose
  cases hdefault : e.bound.isDefault with
  | false =>
    rw [leaves, hdefault] at hleaves
    have haccepts : Partition.accepts ly.toTypes values e.bound key.types = true := by
      simpa using hleaves
    rw [find?_eq_some_of_unique hmem haccepts fun p hp hpaccepts => ?_]
    · rfl
    obtain ⟨hp, hparent⟩ := mem_partitionsOf.mp hp
    exact hapart.accepts p hp e he hparent key (hparent ▸ hkey) values hvalues hpaccepts haccepts
  | true =>
    rw [leaves, hdefault, if_pos rfl, any_eq_false] at hleaves
    have hnone : ((cat.partitionsOf e.parent).find? fun p =>
        Partition.accepts ly.toTypes values p.bound key.types) = none := by
      refine find?_eq_none.mpr fun p hp haccepts => hleaves p hp ?_
      rw [not_isDefault_of_accepts haccepts, haccepts]
      rfl
    rw [hnone, Option.none_or]
    refine find?_eq_some_of_unique hmem hdefault fun p hp hisDefault => ?_
    obtain ⟨hp, hparent⟩ := mem_partitionsOf.mp hp
    exact hapart.default p hp e he hparent hisDefault hdefault

/-- What `target` answers with. -/
lemma target_ok {name : String} (h : cat.target ly parent key row = .ok name) :
    ∃ values e, ly.keyOfRow key row = some values ∧
      cat.choose ly parent values key.types = some e ∧ e.table = name := by
  unfold target at h
  split at h
  next => cases h
  next values hvalues =>
    split at h
    next e hchoose =>
      cases h
      exact ⟨values, e, hvalues, hchoose, rfl⟩
    next =>
      split at h
      · cases h
      · cases h

/-! ## Down the tree -/

def InBuckets (buckets : Buckets F O) (table : String) (row : Row F O) : Prop :=
  ∃ rows, (table, rows) ∈ buckets ∧ row ∈ rows

variable {rows : List (Row F O)} {buckets : Buckets F O}

lemma inBuckets_pushInto {name : String} (h : InBuckets (pushInto name rows buckets) table row) :
    InBuckets buckets table row ∨ (table = name ∧ row ∈ rows) := by
  induction buckets with
  | nil =>
    obtain ⟨bucket, hmem, hrow⟩ := h
    cases mem_singleton.mp hmem
    exact .inr ⟨rfl, hrow⟩
  | cons b buckets ih =>
    obtain ⟨bucket, hmem, hrow⟩ := h
    rw [pushInto] at hmem
    split at hmem
    next hname =>
      rcases mem_cons.mp hmem with heq | hmem
      · cases heq
        rcases mem_append.mp hrow with hrow | hrow
        · exact .inl ⟨b.2, mem_cons_self, hrow⟩
        · exact .inr ⟨hname, hrow⟩
      · exact .inl ⟨bucket, mem_cons_of_mem b hmem, hrow⟩
    next =>
      rcases mem_cons.mp hmem with heq | hmem
      · cases heq
        exact .inl ⟨b.2, mem_cons_self, hrow⟩
      rcases ih ⟨bucket, hmem, hrow⟩ with ⟨rows', hmem', hrow'⟩ | h
      · exact .inl ⟨rows', mem_cons_of_mem b hmem', hrow'⟩
      · exact .inr h

lemma inBuckets_bucketRows :
    ∀ {buckets buckets' : Buckets F O}, cat.bucketRows ly parent key rows buckets = .ok buckets' →
      ∀ {table : String} {row : Row F O}, InBuckets buckets' table row →
        InBuckets buckets table row ∨ (row ∈ rows ∧ cat.target ly parent key row = .ok table) := by
  induction rows with
  | nil =>
    intro buckets buckets' h table row hrow
    cases h
    exact .inl hrow
  | cons row' rows ih =>
    intro buckets buckets' h table row hrow
    obtain ⟨name, htarget, hrest⟩ := bind_eq_ok.mp h
    rcases ih hrest hrow with hrow | ⟨hmem, htable⟩
    · rcases inBuckets_pushInto hrow with hrow | ⟨rfl, hmem⟩
      · exact .inl hrow
      · cases mem_singleton.mp hmem
        exact .inr ⟨mem_cons_self, htarget⟩
    · exact .inr ⟨mem_cons_of_mem row' hmem, htable⟩

lemma inBuckets_addLeaves :
    ∀ {leaves : Buckets F O} {table : String} {row : Row F O},
      InBuckets (cat.addLeaves buckets leaves) table row →
        InBuckets leaves table row ∨ (InBuckets buckets table row ∧ cat.keys table = none) := by
  induction buckets with
  | nil =>
    intro leaves table row h
    exact .inl h
  | cons b buckets ih =>
    intro leaves table row h
    have hcons : InBuckets buckets table row → InBuckets (b :: buckets) table row := by
      rintro ⟨rows, hmem, hrow⟩
      exact ⟨rows, mem_cons_of_mem b hmem, hrow⟩
    rw [addLeaves] at h
    split at h
    next =>
      rcases ih h with h | ⟨h, hkeys⟩
      · exact .inl h
      · exact .inr ⟨hcons h, hkeys⟩
    next hkeys =>
      rcases ih h with h | ⟨h, hkeys'⟩
      · rcases inBuckets_pushInto h with h | ⟨rfl, hrow⟩
        · exact .inl h
        · exact .inr ⟨⟨b.2, mem_cons_self, hrow⟩, hkeys⟩
      · exact .inr ⟨hcons h, hkeys'⟩

lemma mem_pending {name : String} (h : (name, key, rows) ∈ cat.pending buckets) :
    cat.keys name = some key ∧ (name, rows) ∈ buckets := by
  induction buckets with
  | nil => cases h
  | cons b buckets ih =>
    rw [pending] at h
    split at h
    next key' hkey =>
      rcases mem_append.mp h with h | h
      · exact ⟨(ih h).1, mem_cons_of_mem b (ih h).2⟩
      · cases mem_singleton.mp h
        exact ⟨hkey, mem_cons_self⟩
    next => exact ⟨(ih h).1, mem_cons_of_mem b (ih h).2⟩

/-- The row came from `rows` and lies in a leaf below `parent`, within every bound on the way. -/
def Reached (cat : Catalog F O T) (ly : Layout F O T) (parent : String) (rows : List (Row F O))
    (table : String) (row : Row F O) : Prop :=
  row ∈ rows ∧ cat.keys table = none ∧
    ∃ es, cat.Up table es parent ∧ ∀ e ∈ es, cat.Within ly e row

/-- One level more on top: the row went to a partition that holds it, and on from there. -/
lemma Reached.up {rows' : List (Row F O)} (h : cat.Reached ly e.table rows' table row)
    (hrow : row ∈ rows) (he : e ∈ cat.partitions) (hwithin : cat.Within ly e row) :
    cat.Reached ly e.parent rows table row := by
  obtain ⟨-, hleaf, es, hup, hall⟩ := h
  refine ⟨hrow, hleaf, es ++ [e], hup.trans (.step he (.refl _)), fun d hd => ?_⟩
  rcases mem_append.mp hd with hd | hd
  · exact hall d hd
  · rw [mem_singleton.mp hd]
    exact hwithin

lemma inBuckets_routePending
    {route : String → Key T → List (Row F O) → Buckets F O → Except RouteError (Buckets F O)}
    {P : String → Row F O → Prop} {work : List (String × Key T × List (Row F O))}
    (hroute : ∀ item ∈ work, ∀ {leaves leaves' : Buckets F O},
      route item.1 item.2.1 item.2.2 leaves = .ok leaves' →
      ∀ {table : String} {row : Row F O}, InBuckets leaves' table row →
        InBuckets leaves table row ∨ P table row) :
    ∀ {leaves leaves' : Buckets F O}, routePending route work leaves = .ok leaves' →
      ∀ {table : String} {row : Row F O}, InBuckets leaves' table row →
        InBuckets leaves table row ∨ P table row := by
  induction work with
  | nil =>
    intro leaves leaves' h table row hrow
    cases h
    exact .inl hrow
  | cons item work ih =>
    intro leaves leaves' h table row hrow
    rw [routePending] at h
    cases hstep : route item.1 item.2.1 item.2.2 leaves with
    | error e =>
      rw [hstep] at h
      cases h
    | ok mid =>
      rw [hstep] at h
      rcases ih (fun item' h' => hroute item' (mem_cons_of_mem item h')) h hrow with hrow | hp
      · exact hroute item mem_cons_self hstep hrow
      · exact .inr hp

/-- Routing adds rows only to leaves that they reach; induction on the level. -/
lemma inBuckets_routeLevel (levels : Nat) :
    ∀ {parent : String} {key : Key T} {rows : List (Row F O)} {leaves leaves' : Buckets F O},
      cat.keys parent = some key → cat.routeLevel ly levels parent key rows leaves = .ok leaves' →
      ∀ {table : String} {row : Row F O}, InBuckets leaves' table row →
        InBuckets leaves table row ∨ cat.Reached ly parent rows table row := by
  induction levels with
  | zero =>
    intro parent key rows leaves leaves' _ h
    cases h
  | succ levels ih =>
    intro parent key rows leaves leaves' hkey h table row hrow
    rw [routeLevel] at h
    cases hbuckets : cat.bucketRows ly parent key rows [] with
    | error e =>
      rw [hbuckets] at h
      cases h
    | ok buckets =>
      rw [hbuckets] at h
      -- a row of a bucket went to a partition of `parent` that holds it
      have hone : ∀ {name : String} {row : Row F O}, InBuckets buckets name row →
          row ∈ rows ∧ ∃ e ∈ cat.partitions, e.table = name ∧ e.parent = parent ∧
            cat.Within ly e row := by
        intro name row hin
        rcases inBuckets_bucketRows hbuckets hin with hin | ⟨hmem, htarget⟩
        · obtain ⟨_, hin, _⟩ := hin
          cases hin
        · obtain ⟨values, e, hvalues, hchoose, htable⟩ := target_ok htarget
          obtain ⟨he, hparent, hwithin⟩ := within_of_choose hkey hvalues hchoose
          exact ⟨hmem, e, he, htable, hparent, hwithin⟩
      have hpending : ∀ item ∈ cat.pending buckets, ∀ {leaves leaves' : Buckets F O},
          cat.routeLevel ly levels item.1 item.2.1 item.2.2 leaves = .ok leaves' →
          ∀ {table : String} {row : Row F O}, InBuckets leaves' table row →
            InBuckets leaves table row ∨ cat.Reached ly parent rows table row := by
        intro item hitem leaves leaves' hroute table row hrow
        obtain ⟨hkeys, hbucket⟩ := mem_pending hitem
        rcases ih hkeys hroute hrow with hrow | hreached
        · exact .inl hrow
        obtain ⟨hrows, e, he, htable, rfl, hin⟩ := hone ⟨_, hbucket, hreached.1⟩
        rw [← htable] at hreached
        exact .inr (hreached.up hrows he hin)
      rcases inBuckets_routePending hpending h hrow with hrow | hreached
      · rcases inBuckets_addLeaves hrow with hrow | ⟨hrow, hleaf⟩
        · exact .inl hrow
        obtain ⟨hrows, e, he, rfl, rfl, hin⟩ := hone hrow
        have hhere : cat.Reached ly e.table rows e.table row :=
          ⟨hrows, hleaf, [], .refl _, fun _ hd => absurd hd not_mem_nil⟩
        exact .inr (hhere.up hrows he hin)
      · exact .inr hreached

/-- A row that lies within every bound on the way up from a leaf is routed down to that leaf. -/
lemma Up.routed (habove : cat.KeysAbove) (hapart : cat.Apart ly row) {leaf : String}
    (hleaf : cat.keys leaf = none) :
    ∀ {es : List (PartitionEntry (SqlValue F O))} {top : String} {key : Key T} {levels : Nat},
      cat.Up leaf es top → es ≠ [] → es.length ≤ levels → cat.keys top = some key →
      (∀ e ∈ es, cat.Within ly e row) →
      ∀ leaves, cat.routeLevel ly levels top key [row] leaves = .ok (pushInto leaf [row] leaves) := by
  intro es
  -- the last entry of the way up is the first choice on the way down
  induction es using reverseRecOn with
  | nil =>
    intro top key levels _ hne
    exact absurd rfl hne
  | append_singleton es e ih =>
    intro top key levels hup _ hlength hkey hwithin leaves
    obtain ⟨hbelow, rfl, he⟩ := hup.snoc
    obtain ⟨values, hvalues, hchoose⟩ := choose_of_within hapart he hkey (hwithin e (by simp))
    cases levels with
    | zero =>
      simp at hlength
    | succ levels =>
      have hbuckets : cat.bucketRows ly e.parent key [row] [] = .ok [(e.table, [row])] := by
        rw [bucketRows, target, hvalues]
        simp only [hchoose]
        rfl
      rw [routeLevel, hbuckets]
      show routePending _ (cat.pending [(e.table, [row])]) (cat.addLeaves [(e.table, [row])] leaves) = _
      cases hes : es with
      | nil =>
        rw [hes] at hbelow
        rw [← hbelow.nil_inv]
        simp only [pending, addLeaves, hleaf, routePending]
      | cons d ds =>
        have hne : es ≠ [] := by
          rw [hes]
          exact cons_ne_nil d ds
        obtain ⟨key', hkey'⟩ : ∃ key', cat.keys e.table = some key' := by
          have hlast := dropLast_append_getLast hne
          rw [← hlast] at hbelow
          obtain ⟨-, hparent, hmem⟩ := hbelow.snoc
          rw [← hparent]
          exact habove _ hmem
        have hrest := ih hbelow hne (by simpa using hlength) hkey'
          (fun e' he' => hwithin e' (mem_append_left _ he')) leaves
        simp only [pending, addLeaves, hkey', nil_append, routePending]
        rw [hrest]
        rfl

lemma reached_of_routeRowToLeaf {leaf : String} (levels : Nat) :
    ∀ {current : String}, cat.routeRowToLeaf ly levels current row = .ok leaf →
      cat.Reached ly current [row] leaf row := by
  induction levels with
  | zero =>
    intro current h
    cases h
  | succ levels ih =>
    intro current h
    rw [routeRowToLeaf] at h
    split at h
    next hkeys =>
      cases h
      exact ⟨mem_cons_self, hkeys, [], .refl _, fun e he => by cases he⟩
    next key hkey =>
      split at h
      next => cases h
      next values hvalues =>
        split at h
        next p hchoose =>
          obtain ⟨he, rfl, hwithin⟩ := within_of_choose hkey hvalues hchoose
          exact (ih h).up mem_cons_self he hwithin
        next => cases h

/-! ## Up the tree -/

lemma within_of_not_boundViolation (hone : cat.OneParent) (habove : cat.KeysAbove) {top : String}
    {es : List (PartitionEntry (SqlValue F O))} (hup : cat.Up table es top) :
    ∀ {levels : Nat}, es.length ≤ levels → cat.boundViolation ly levels table row = some false →
      ∀ e ∈ es, cat.Within ly e row := by
  induction hup with
  | refl _ =>
    intro levels _ _ e he
    cases he
  | @step entry entries top hmem _ ih =>
    intro levels hlength h e he
    cases levels with
    | zero => simp at hlength
    | succ levels =>
      obtain ⟨key, hkey⟩ := habove entry hmem
      rw [boundViolation, entryOf_eq_some hone hmem] at h
      simp only [hkey, Option.bind_eq_bind, Option.bind_eq_some_iff, Option.some.injEq,
        Bool.or_eq_false_iff] at h
      obtain ⟨here, hhere, above, habove', rfl, rfl⟩ := h
      rcases mem_cons.mp he with rfl | he
      · intro key' hkey'
        rw [hkey] at hkey'
        cases hkey'
        exact hhere
      · exact ih (by simpa using hlength) habove' e he

end Catalog

end NusaDb.Partition
