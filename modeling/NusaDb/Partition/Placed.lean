import NusaDb.Lib.Fallible
import NusaDb.Partition.Statements
import NusaDb.Partition.Tree

/-!
# Where partitioned rows lie

Statements keep every row in the leaf that routing would choose for it, unless (`Keeps`)

* a bound is added beside a catch-all that holds rows of it;
* a partitioned table is attached whose partitions hold rows outside the bound
  (`validate_attach_rows` scans only the attached table itself);
* `MERGE` or a referential action writes in place without a look at the bound;
* a `BEFORE INSERT` trigger of the leaf rewrites the key of a row that was routed there;
* a tree grows deeper than the walks go;
* a key slot gives values that are in no linear order.

The invariant `Inv` has two halves. `Sound` is about the catalog: it is a forest of tables in which
sibling bounds are disjoint. `InPlace` is about one stored row: it lies within every bound on the way
up from its table. `Up.routed` turns the second into what routing does on the way down, and `Placed`
is what the two come to. Each statement has its lemma; the rows are treated first, then the changes
of the catalog, then runs.
-/

namespace NusaDb.Partition

open List NusaDb.Sql NusaDb.Fallible Catalog

section

variable {F O T : Type}

/-! ## Statements that keep rows in their places

`slots` are the key slots in play and `dom` the values they give, which are to be in a linear order.
-/

variable (ly : Layout F O T) (slots : String × ColumnType T → Prop) (dom : SqlValue F O → Prop)

def KeyValuesIn (row : Row F O) : Prop :=
  ∀ slot, slots slot → ∀ v, ly.readSlot slot row = some v → dom v

def KeyIn (key : Key T) : Prop := ∀ slot ∈ key.lead :: key.rest, slots slot

variable {ly slots dom} in
lemma dom_keyOfRow {key : Key T} {row : Row F O} (hkey : KeyIn slots key)
    (hrow : KeyValuesIn ly slots dom row) {values : List (SqlValue F O)}
    (h : ly.keyOfRow key row = some values) : ∀ v ∈ values, dom v := by
  intro v hv
  obtain ⟨slot, hslot, hread⟩ := exists_of_mem_mapM h hv
  exact hrow slot (hkey slot hslot) v hread

/-- The row lies within every bound on the way up from the table. -/
def FitsBounds (cat : Catalog F O T) (t : String) (row : Row F O) : Prop :=
  ∀ es top, cat.Up t es top → ∀ e ∈ es, cat.Within ly e row

/-- The `BEFORE INSERT` triggers take no row out of the partition it was routed to. -/
def RowTriggers.Keep (cat : Catalog F O T) (triggers : RowTriggers F O) : Prop :=
  ∀ leaf i row row', triggers.beforeInsert leaf i row = some row' →
    KeyValuesIn ly slots dom row → FitsBounds ly cat leaf row →
    KeyValuesIn ly slots dom row' ∧ FitsBounds ly cat leaf row'

/-- A bound that may be recorded: it takes no row of a catch-all beside it, the rows below the
attached table lie within it and the bounds above, and the walks reach the whole tree. -/
structure Linkable (s : State F O T) (parent partition : String)
    (bound : PartitionBound (SqlValue F O)) : Prop where
  cast : ∀ key, s.catalog.keys parent = some key → CastIn ly.toTypes dom key bound
  catchAll : ∀ entry, registerPartition ly.toTypes s.catalog s.strategy parent partition bound = .ok entry →
    ∀ d ∈ s.catalog.partitionsOf parent, d.bound.isDefault →
    ∀ t es, s.catalog.Up t es d.table → ∀ row ∈ s.rows t,
    ∀ key, s.catalog.keys parent = some key → ∀ values, ly.keyOfRow key row = some values →
    ¬accepts ly.toTypes values entry.bound key.types
  below : ∀ entry, registerPartition ly.toTypes s.catalog s.strategy parent partition bound = .ok entry →
    ∀ t es, s.catalog.Up t es partition → es ≠ [] → ∀ row ∈ s.rows t,
    (s.catalog.recordPartition entry).boundViolation ly maxDepth partition row = some false
  depth : ∀ t below, s.catalog.Up t below partition → ∀ above top, s.catalog.Up parent above top →
    below.length + 1 + above.length ≤ maxDepth

def Keeps (s : State F O T) : Statement F O T → Prop
  | .createTable _ partitionBy => ∀ by', partitionBy = some by' → KeyIn slots by'.1
  | .createPartition name parent bound partitionBy =>
    (∀ by', partitionBy = some by' → KeyIn slots by'.1) ∧
      Linkable ly dom (s.withTable name partitionBy) parent name bound
  | .attachPartition parent partition bound => Linkable ly dom s parent partition bound
  | .detachPartition _ _ => True
  | .insert _ rows conflicts triggers =>
    (∀ row ∈ rows, KeyValuesIn ly slots dom row) ∧
      (∀ leaf i holder index row, conflicts leaf i = .update holder index row →
        KeyValuesIn ly slots dom row) ∧
      triggers.Keep ly slots dom s.catalog
  | .update _ changes triggers =>
    (∀ c ∈ changes, KeyValuesIn ly slots dom c.row) ∧ triggers.Keep ly slots dom s.catalog
  | .merge table _ updates inserts triggers =>
    (∀ u ∈ updates, KeyValuesIn ly slots dom u.2 ∧
      s.catalog.boundViolation ly maxDepth table u.2 = some false) ∧
      (∀ row ∈ inserts, KeyValuesIn ly slots dom row) ∧ triggers.Keep ly slots dom s.catalog
  | .referentialActions changes =>
    ∀ c ∈ changes, KeyValuesIn ly slots dom c.row ∧
      s.catalog.boundViolation ly maxDepth c.leaf c.row = some false
  | .delete _ => True

def KeepsAll (s : State F O T) : List (Statement F O T) → Prop
  | [] => True
  | statement :: statements =>
    Keeps ly slots dom s statement ∧ KeepsAll (s.step ly statement) statements

/-! ## The invariant -/

/-- Every partition has one parent, which has a key; bounds are of their parent's strategy and
apart; the walks reach every table. -/
structure Sound (cat : Catalog F O T) (strategy : String → Strategy) (tables : List String) :
    Prop where
  one : cat.OneParent
  above : cat.KeysAbove
  entries : ∀ e ∈ cat.partitions, e.table ∈ tables ∧ e.parent ∈ tables
  keyed : ∀ t key, cat.keys t = some key → t ∈ tables
  keyIn : ∀ t key, cat.keys t = some key → KeyIn slots key
  kind : ∀ e ∈ cat.partitions, OfStrategy (strategy e.parent) e.bound
  boundIn : ∀ e ∈ cat.partitions, BoundIn dom e.bound
  disjoint : ∀ e ∈ cat.partitions, ∀ e' ∈ cat.partitions, e.parent = e'.parent →
    ∀ key, cat.keys e.parent = some key → ∀ vs : List (SqlValue F O), (∀ v ∈ vs, dom v) →
    accepts ly.toTypes vs e.bound key.types → accepts ly.toTypes vs e'.bound key.types → e = e'
  default : ∀ e ∈ cat.partitions, ∀ e' ∈ cat.partitions, e.parent = e'.parent →
    e.bound.isDefault → e'.bound.isDefault → e = e'
  depth : ∀ t es top, cat.Up t es top → es.length ≤ maxDepth

structure InPlace (cat : Catalog F O T) (tables : List String) (t : String) (row : Row F O) : Prop where
  table : t ∈ tables
  leaf : cat.keys t = none
  rowIn : KeyValuesIn ly slots dom row
  within : FitsBounds ly cat t row

def AllInPlace (cat : Catalog F O T) (tables : List String) (store : Store F O) : Prop :=
  ∀ t, ∀ row ∈ store t, InPlace ly slots dom cat tables t row

def Inv (s : State F O T) : Prop :=
  Sound ly slots dom s.catalog s.strategy s.tables ∧ AllInPlace ly slots dom s.catalog s.tables s.rows

variable {ly slots dom} {cat : Catalog F O T} {strategy : String → Strategy}

lemma Sound.apart {tables : List String} (h : Sound ly slots dom cat strategy tables)
    {row : Row F O} (hrow : KeyValuesIn ly slots dom row) :
    cat.Apart ly row where
  accepts := by
    intro e he e' he' hparent key hkey values hvalues
    exact h.disjoint e he e' he' hparent key hkey values
      (dom_keyOfRow (h.keyIn _ key hkey) hrow hvalues)
  default := h.default

/-! ## Writes of rows -/

section Rows

variable {cat : Catalog F O T} {strategy : String → Strategy} {tables : List String}
  {store store' : Store F O}

variable {leaf : String} (h : AllInPlace ly slots dom cat tables store)

include h

lemma AllInPlace.insert {row : Row F O} (hplace : InPlace ly slots dom cat tables leaf row) :
    AllInPlace ly slots dom cat tables (store.insert leaf row) := by
  intro t r hr
  rcases Store.mem_insert hr with hr | ⟨rfl, rfl⟩
  · exact h t r hr
  · exact hplace

lemma AllInPlace.delete (leaf : String) (index : Nat) :
    AllInPlace ly slots dom cat tables (store.delete leaf index) :=
  fun t r hr => h t r (Store.mem_delete hr)

variable {change : Change F O} (hsound : Sound ly slots dom cat strategy tables)

include hsound

lemma AllInPlace.updateInPlace (hrow : KeyValuesIn ly slots dom change.row)
    (hviolation : cat.boundViolation ly maxDepth change.leaf change.row = some false)
    (hok : updateInPlace store change = .ok store') : AllInPlace ly slots dom cat tables store' := by
  rw [Partition.updateInPlace] at hok
  split_ifs at hok with hindex
  cases hok
  -- the row that is there says that the table is a leaf
  have hthere := h change.leaf _ (getElem_mem hindex)
  intro t r hr
  rcases Store.mem_update hr with hr | ⟨rfl, rfl⟩
  · exact h t r hr
  refine ⟨hthere.table, hthere.leaf, hrow, fun es top hup => ?_⟩
  exact within_of_not_boundViolation hsound.one hsound.above hup
    (hsound.depth _ _ _ hup) hviolation

variable {table : String} {rows : List (Row F O)}

omit h in
lemma Sound.inPlace_of_reached (htable : table ∈ tables) {row : Row F O}
    (hrow : KeyValuesIn ly slots dom row) (hreached : cat.Reached ly table rows leaf row)
    (habove : ∀ es top, cat.Up table es top → ∀ e ∈ es, cat.Within ly e row) :
    InPlace ly slots dom cat tables leaf row := by
  obtain ⟨-, hleaf, below, hbelow, hwithin⟩ := hreached
  refine ⟨?_, hleaf, hrow, fun es top hup e he => ?_⟩
  · cases below with
    | nil =>
      rw [hbelow.nil_inv]
      exact htable
    | cons e below =>
      obtain ⟨hmem, rfl, -⟩ := hbelow.cons_inv
      exact (hsound.entries e hmem).1
  · rcases hbelow.comparable hsound.one hup with ⟨rest, rfl, hrest⟩ | ⟨rest, rfl⟩
    · rcases mem_append.mp he with he | he
      · exact hwithin e he
      · exact habove rest top hrest e he
    · exact hwithin e (mem_append_left rest he)

variable {triggers : RowTriggers F O} (htriggers : triggers.Keep ly slots dom cat)

omit hsound in
include htriggers in
lemma AllInPlace.insertInto {row : Row F O} (hplace : InPlace ly slots dom cat tables leaf row)
    (i : Nat) : AllInPlace ly slots dom cat tables (insertInto leaf i row triggers store) := by
  unfold Partition.insertInto
  split
  next row' hrow' =>
    obtain ⟨hvalues, hfits⟩ := htriggers leaf i row row' hrow' hplace.rowIn hplace.within
    exact h.insert ⟨hplace.table, hplace.leaf, hvalues, hfits⟩
  next => exact h

omit h in
include htriggers in
lemma AllInPlace.insertBucket {conflicts : Nat → OnConflict F O}
    (hconflicts : ∀ i holder index row, conflicts i = .update holder index row → KeyValuesIn ly slots dom row)
    (hrows : ∀ row ∈ rows, InPlace ly slots dom cat tables leaf row) :
    ∀ {i : Nat} {store store' : Store F O}, AllInPlace ly slots dom cat tables store →
      insertBucket ly cat leaf conflicts triggers rows i store = .ok store' →
      AllInPlace ly slots dom cat tables store' := by
  induction rows with
  | nil =>
    intro i store store' h hok
    cases hok
    exact h
  | cons row rows ih =>
    intro i store store' h hok
    obtain ⟨mid, hmid, hrest⟩ := bind_eq_ok.mp hok
    refine ih (fun r hr => hrows r (mem_cons_of_mem row hr)) ?_ hrest
    cases hconflict : conflicts i with
    | none =>
      rw [hconflict] at hmid
      cases hmid
      exact h.insertInto htriggers (hrows row mem_cons_self) i
    | nothing =>
      rw [hconflict] at hmid
      cases hmid
      exact h
    | update holder index new =>
      rw [hconflict, insertRow] at hmid
      split at hmid
      next => cases hmid
      next => cases hmid
      next hviolation =>
        exact h.updateInPlace hsound (hconflicts i holder index new hconflict) hviolation hmid

variable {conflicts : String → Nat → OnConflict F O}

omit h in
include htriggers in
lemma AllInPlace.insertBuckets
    (hconflicts : ∀ leaf i holder index row, conflicts leaf i = .update holder index row →
      KeyValuesIn ly slots dom row) {buckets : Buckets F O}
    (hbuckets : ∀ b ∈ buckets, ∀ row ∈ b.2, InPlace ly slots dom cat tables b.1 row) :
    ∀ {store store' : Store F O}, AllInPlace ly slots dom cat tables store →
      insertBuckets ly cat conflicts triggers buckets store = .ok store' →
      AllInPlace ly slots dom cat tables store' := by
  induction buckets with
  | nil =>
    intro store store' h hok
    cases hok
    exact h
  | cons b buckets ih =>
    intro store store' h hok
    obtain ⟨mid, hmid, hrest⟩ := bind_eq_ok.mp hok
    refine ih (fun b' hb' => hbuckets b' (mem_cons_of_mem b hb')) ?_ hrest
    exact h.insertBucket hsound htriggers (hconflicts b.1) (hbuckets b mem_cons_self) hmid

include htriggers in
lemma AllInPlace.insertIntoPartitionTree (htable : table ∈ tables)
    (hrows : ∀ row ∈ rows, KeyValuesIn ly slots dom row)
    (hconflicts : ∀ leaf i holder index row, conflicts leaf i = .update holder index row →
      KeyValuesIn ly slots dom row)
    (hok : insertIntoPartitionTree ly cat table rows conflicts triggers store = .ok store') :
    AllInPlace ly slots dom cat tables store' := by
  rw [Partition.insertIntoPartitionTree] at hok
  split at hok
  next => cases hok
  next outside houtside =>
    split_ifs at hok with hany
    obtain ⟨buckets, htargets, hok⟩ := bind_eq_ok.mp hok
    have habove : ∀ row ∈ rows, FitsBounds ly cat table row := by
      intro row hrow es top hup
      exact within_of_not_boundViolation hsound.one hsound.above hup (hsound.depth _ _ _ hup)
        (eq_some_false_of_mapM houtside (Bool.eq_false_of_not_eq_true hany) row hrow)
    refine h.insertBuckets hsound htriggers hconflicts (fun b hb row hrow => ?_) hok
    rw [insertTargets] at htargets
    split at htargets
    next key hkey =>
      have hrouted := mapError_eq_ok.mp htargets
      rcases inBuckets_routeLevel maxDepth hkey hrouted ⟨b.2, hb, hrow⟩ with hin | hreached
      · obtain ⟨_, hin, _⟩ := hin
        cases hin
      · exact hsound.inPlace_of_reached htable (hrows row hreached.1) hreached
          (habove row hreached.1)
    next hleaf =>
      cases htargets
      cases mem_singleton.mp hb
      exact ⟨htable, hleaf, hrows row hrow, habove row hrow⟩

include htriggers in
/-- A row that leaves its partition goes where routing from the topmost table takes it. -/
lemma AllInPlace.moveRow (hrow : KeyValuesIn ly slots dom change.row)
    (hok : moveRow ly cat triggers store change = .ok store') :
    AllInPlace ly slots dom cat tables store' := by
  rw [Partition.moveRow] at hok
  split_ifs at hok with hskip hindex
  · cases hok
    exact h
  obtain ⟨leaf, hleaf, hok⟩ := bind_eq_ok.mp hok
  cases hok
  refine (h.delete change.leaf change.index).insertInto htriggers ?_ _
  have hthere := h change.leaf _ (getElem_mem hindex)
  obtain ⟨es, hup, hend⟩ := cat.up_topmost cat.walkFuel change.leaf
  -- the walk to the topmost table has fuel to spare
  have hend : cat.entryOf (cat.topmost cat.walkFuel change.leaf) = none := by
    rcases hend with hend | hlength
    · exact hend
    have hdepth := hsound.depth _ _ _ hup
    rw [hlength, walkFuel] at hdepth
    omega
  have htop : cat.topmost cat.walkFuel change.leaf ∈ tables := by
    cases es using reverseRecOn with
    | nil =>
      rw [← hup.nil_inv]
      exact hthere.table
    | append_singleton es e =>
      obtain ⟨-, hparent, hmem⟩ := hup.snoc
      rw [← hparent]
      exact (hsound.entries e hmem).2
  refine hsound.inPlace_of_reached htop hrow
    (reached_of_routeRowToLeaf maxDepth (mapError_eq_ok.mp hleaf)) fun es top hup e he => ?_
  rw [hup.eq_nil_of_entryOf hend] at he
  cases he

include htriggers in
lemma AllInPlace.updateRow {viaParent : Bool} (hrow : KeyValuesIn ly slots dom change.row)
    (hok : updateRow ly cat viaParent triggers store change = .ok store') :
    AllInPlace ly slots dom cat tables store' := by
  rw [Partition.updateRow] at hok
  split at hok
  next => cases hok
  next =>
    split_ifs at hok
    exact h.moveRow hsound htriggers hrow hok
  next hviolation => exact h.updateInPlace hsound hrow hviolation hok

include htriggers in
lemma AllInPlace.mergeInto (htable : table ∈ tables) {deletes : List Nat}
    {updates : List (Nat × Row F O)} {inserts : List (Row F O)}
    (hupdates : ∀ u ∈ updates, KeyValuesIn ly slots dom u.2 ∧
      cat.boundViolation ly maxDepth table u.2 = some false)
    (hinserts : ∀ row ∈ inserts, KeyValuesIn ly slots dom row)
    (hok : mergeInto ly cat table deletes updates inserts triggers store = .ok store') :
    AllInPlace ly slots dom cat tables store' := by
  rw [Partition.mergeInto] at hok
  split_ifs at hok
  obtain ⟨mid, hmid, hok⟩ := bind_eq_ok.mp hok
  have hdeleted : AllInPlace ly slots dom cat tables
      (deletes.foldl (fun store index => store.delete table index) store) :=
    foldlRecOn deletes _ h fun store hstore index _ => hstore.delete table index
  have hupdated : AllInPlace ly slots dom cat tables mid := by
    refine foldlM_invariant (fun u hu store store' hstore hstep => ?_) hmid hdeleted
    exact hstore.updateInPlace hsound (hupdates u hu).1 (hupdates u hu).2 hstep
  exact hupdated.insertIntoPartitionTree hsound htriggers htable hinserts
    (fun _ _ _ _ _ hconflict => by cases hconflict) hok

omit h

end Rows

/-! ## Changes of the catalog -/

variable {s s' : State F O T} {name t : String}

lemma keys_withTable (hne : t ≠ name) (partitionBy : Option (Key T × Strategy)) :
    (s.withTable name partitionBy).catalog.keys t = s.catalog.keys t :=
  Function.update_of_ne hne _ _

lemma keys_withTable_self (name : String) (partitionBy : Option (Key T × Strategy)) :
    (s.withTable name partitionBy).catalog.keys name = partitionBy.map Prod.fst :=
  Function.update_self _ _ _

lemma strategy_withTable (hne : t ≠ name) (partitionBy : Option (Key T × Strategy)) :
    (s.withTable name partitionBy).strategy t = s.strategy t := by
  cases partitionBy with
  | none => rfl
  | some by' => exact Function.update_of_ne hne _ _

variable {partitionBy : Option (Key T × Strategy)}

lemma Sound.withTable (h : Sound ly slots dom s.catalog s.strategy s.tables)
    (hname : name ∉ s.tables) (hkeyIn : ∀ by', partitionBy = some by' → KeyIn slots by'.1) :
    Sound ly slots dom (s.withTable name partitionBy).catalog (s.withTable name partitionBy).strategy
      (s.withTable name partitionBy).tables where
  one := h.one
  above := by
    intro e he
    rw [keys_withTable (ne_of_mem_of_not_mem (h.entries e he).2 hname)]
    exact h.above e he
  entries := by
    intro e he
    exact ⟨mem_cons_of_mem name (h.entries e he).1, mem_cons_of_mem name (h.entries e he).2⟩
  keyed := by
    intro t key hkey
    by_cases ht : t = name
    · rw [ht]
      exact mem_cons_self
    · rw [keys_withTable ht] at hkey
      exact mem_cons_of_mem name (h.keyed t key hkey)
  keyIn := by
    intro t key hkey
    by_cases ht : t = name
    · rw [ht, keys_withTable_self] at hkey
      obtain ⟨by', hby, rfl⟩ := Option.map_eq_some_iff.mp hkey
      exact hkeyIn by' hby
    · rw [keys_withTable ht] at hkey
      exact h.keyIn t key hkey
  kind := by
    intro e he
    rw [strategy_withTable (ne_of_mem_of_not_mem (h.entries e he).2 hname)]
    exact h.kind e he
  boundIn := h.boundIn
  disjoint := by
    intro e he e' he' hparent key hkey
    rw [keys_withTable (ne_of_mem_of_not_mem (h.entries e he).2 hname)] at hkey
    exact h.disjoint e he e' he' hparent key hkey
  default := h.default
  depth := fun t es top hup => h.depth t es top (hup.mono fun _ he => he)

variable (h : Inv ly slots dom s)

include h

lemma Inv.withTable (hname : name ∉ s.tables)
    (hkeyIn : ∀ by', partitionBy = some by' → KeyIn slots by'.1) :
    Inv ly slots dom (s.withTable name partitionBy) := by
  obtain ⟨hsound, hstored⟩ := h
  refine ⟨hsound.withTable hname hkeyIn, fun t row hrow => ?_⟩
  have hplace := hstored t row hrow
  refine ⟨mem_cons_of_mem name hplace.table, ?_, hplace.rowIn, fun es top hup e he key hkey => ?_⟩
  · rw [keys_withTable (ne_of_mem_of_not_mem hplace.table hname)]
    exact hplace.leaf
  · have hup : s.catalog.Up t es top := hup.mono fun _ he => he
    rw [keys_withTable (ne_of_mem_of_not_mem (hsound.entries e (hup.mem e he)).2 hname)] at hkey
    exact hplace.within es top hup e he key hkey

variable {parent partition : String} {bound : PartitionBound (SqlValue F O)}
  {entry : PartitionEntry (SqlValue F O)}

omit h in
lemma registerPartition_ok
    (h : registerPartition ly.toTypes cat strategy parent partition bound = .ok entry) :
    entry.parent = parent ∧ entry.table = partition ∧
      ∃ key, cat.keys parent = some key ∧ OfStrategy (strategy parent) entry.bound ∧
        (∀ e ∈ cat.partitionsOf parent, SideBySide ly.toTypes entry.bound e.bound) ∧
        ∀ {dom : SqlValue F O → Prop}, CastIn ly.toTypes dom key bound → BoundIn dom entry.bound := by
  rw [registerPartition] at h
  split at h
  next => cases h
  next key hkey =>
    split at h
    next => cases h
    next bound' hcheck =>
      cases h
      obtain ⟨hkind, hside, hin⟩ := checkBound_ok hcheck
      exact ⟨rfl, rfl, key, hkey, hkind, hside, hin⟩

variable (hordered : Ordered ly.compare dom)

include hordered

omit h in
/-- A partition checked against its siblings keeps the catalog sound. -/
lemma Sound.recordPartition (h : Sound ly slots dom s.catalog s.strategy s.tables)
    (hjoins : s.catalog.Joins entry) (htable : entry.table ∈ s.tables)
    (hkind : OfStrategy (s.strategy entry.parent) entry.bound)
    (hside : ∀ e ∈ s.catalog.partitionsOf entry.parent, SideBySide ly.toTypes entry.bound e.bound)
    (hin : BoundIn dom entry.bound)
    (hdepth : ∀ t below, s.catalog.Up t below entry.table → ∀ above top,
      s.catalog.Up entry.parent above top → below.length + 1 + above.length ≤ maxDepth) :
    Sound ly slots dom (s.catalog.recordPartition entry) s.strategy s.tables where
  one := hjoins.oneParent h.one
  above := Joins.forall_recordPartition h.above hjoins.key
  entries := by
    obtain ⟨key, hkey⟩ := hjoins.key
    exact Joins.forall_recordPartition h.entries ⟨htable, h.keyed _ key hkey⟩
  keyed := h.keyed
  keyIn := h.keyIn
  kind := Joins.forall_recordPartition h.kind hkind
  boundIn := Joins.forall_recordPartition h.boundIn hin
  disjoint := by
    -- an old bound and the new one accept no key in common
    have hapart : ∀ e ∈ s.catalog.partitions, e.parent = entry.parent → ∀ vs : List (SqlValue F O),
        (∀ v ∈ vs, dom v) → ∀ types, accepts ly.toTypes vs e.bound types →
        accepts ly.toTypes vs entry.bound types → False := fun e he hp vs hvs types hacc hacc' =>
      accepts_disjoint hordered hkind (hp ▸ h.kind e he) hin (h.boundIn e he)
        (hside e (mem_partitionsOf.mpr ⟨he, hp⟩)) hvs hacc' hacc
    exact Joins.pairwise_recordPartition h.disjoint (fun _ _ _ _ _ _ _ => rfl) fun e he =>
      ⟨fun hp _ _ vs hvs hacc hacc' => (hapart e he hp vs hvs _ hacc hacc').elim,
        fun hp _ _ vs hvs hacc' hacc => (hapart e he hp.symm vs hvs _ hacc hacc').elim⟩
  default := by
    have hone : ∀ e ∈ s.catalog.partitions, e.parent = entry.parent → e.bound.isDefault = true →
        entry.bound.isDefault = true → False := by
      intro e he hparent hdef hdef'
      have hbeside := hside e (mem_partitionsOf.mpr ⟨he, hparent⟩)
      rw [eq_default_of_isDefault hdef, eq_default_of_isDefault hdef'] at hbeside
      exact hbeside
    exact Joins.pairwise_recordPartition h.default (fun _ _ _ => rfl) fun e he =>
      ⟨fun hp hd hd' => (hone e he hp hd hd').elim, fun hp hd' hd => (hone e he hp.symm hd hd').elim⟩
  depth := by
    intro t es top hup
    rcases hjoins.up_cases hup with hup | ⟨below, above, rfl, hbelow, habove⟩
    · exact h.depth t es top hup
    have hlength := hdepth t below hbelow above top habove
    rw [length_append, length_cons]
    omega

/-- Attaching keeps every row in its place: those of the new partition were checked. -/
lemma Inv.recordPartition (hlink : Linkable ly dom s parent partition bound)
    (hentry : registerPartition ly.toTypes s.catalog s.strategy parent partition bound = .ok entry)
    (hjoins : s.catalog.Joins entry) (hpartition : partition ∈ s.tables)
    (hself : ∀ row ∈ s.rows partition,
      (s.catalog.recordPartition entry).boundViolation ly maxDepth partition row = some false) :
    Inv ly slots dom { s with catalog := s.catalog.recordPartition entry } := by
  obtain ⟨hsound, hstored⟩ := h
  obtain ⟨rfl, rfl, key, hkey, hkind, hside, hin⟩ := registerPartition_ok hentry
  have hsound' : Sound ly slots dom (s.catalog.recordPartition entry) s.strategy s.tables :=
    hsound.recordPartition hordered hjoins hpartition hkind hside (hin (hlink.cast key hkey))
      hlink.depth
  refine ⟨hsound', fun t row hrow => ?_⟩
  have hplace := hstored t row hrow
  -- on an old way up only the catch-all beside the new bound changes its meaning
  have hold : ∀ es top, s.catalog.Up t es top → ∀ e ∈ es,
      (s.catalog.recordPartition entry).Within ly e row := by
    intro es top hup e he
    refine (hplace.within es top hup e he).mono rfl fun p hp hparent hdefault => ?_
    rcases Joins.mem_recordPartition.mp hp with hp | rfl
    · exact .inl hp
    refine .inr fun key' hkey' values hvalues => ?_
    obtain ⟨before, after, rfl⟩ := append_of_mem he
    rw [← hparent] at hkey'
    exact hlink.catchAll p hentry e (mem_partitionsOf.mpr ⟨hup.mem e he, hparent.symm⟩)
      hdefault t before hup.split.1 row hrow key' hkey' values hvalues
  refine ⟨hplace.table, hplace.leaf, hplace.rowIn, fun es top hup e he => ?_⟩
  rcases hjoins.up_cases hup with hup | ⟨below, above, rfl, hbelow, habove⟩
  · exact hold es top hup e he
  rcases mem_append.mp he with he | he
  · exact hold below entry.table hbelow e he
  have hviolation :
      (s.catalog.recordPartition entry).boundViolation ly maxDepth entry.table row = some false := by
    cases below with
    | nil =>
      rw [hbelow.nil_inv] at hrow
      exact hself row hrow
    | cons d below => exact hlink.below entry hentry t _ hbelow (by simp) row hrow
  have hup' : (s.catalog.recordPartition entry).Up entry.table (entry :: above) top :=
    .step (Joins.mem_recordPartition.mpr (.inr rfl))
      (habove.mono fun _ he => Joins.mem_recordPartition.mpr (.inl he))
  exact within_of_not_boundViolation hsound'.one hsound'.above hup'
    (hsound'.depth _ _ _ hup') hviolation e he

lemma Inv.createPartition (hname : name ∉ s.tables) (hparent : parent ∈ s.tables)
    (hkeyIn : ∀ by', partitionBy = some by' → KeyIn slots by'.1)
    (hlink : Linkable ly dom (s.withTable name partitionBy) parent name bound)
    (hok : (s.withTable name partitionBy).withPartition ly parent name bound = .ok s') :
    Inv ly slots dom s' := by
  rw [State.withPartition] at hok
  split at hok
  next => cases hok
  next entry hentry =>
    cases hok
    obtain ⟨rfl, rfl, key, hkey, -⟩ := registerPartition_ok hentry
    have hnone : ∀ row, row ∉ s.rows entry.table := by
      intro row hrow
      exact hname (h.2 _ row hrow).table
    refine (h.withTable hname hkeyIn).recordPartition hordered hlink hentry ?_ mem_cons_self
      (fun row hrow => absurd hrow (hnone row))
    refine ⟨fun e he heq => ?_, ⟨key, hkey⟩, fun es hup => ?_⟩
    · exact hname (heq ▸ (h.1.entries e he).1)
    · -- the parent, and each table above it, was there before
      cases es using reverseRecOn with
      | nil => exact hname (hup.nil_inv ▸ hparent)
      | append_singleton es e =>
        obtain ⟨-, htop, hmem⟩ := hup.snoc
        exact hname (htop ▸ (h.1.entries e hmem).2)

lemma Inv.attachPartition (hlink : Linkable ly dom s parent partition bound)
    (hok : s.attachPartition ly parent partition bound = .ok s') : Inv ly slots dom s' := by
  rw [State.attachPartition] at hok
  cases hfresh : s.catalog.entryOf partition with
  | some existing =>
    simp only [hfresh] at hok
    split_ifs at hok
  | none =>
    simp only [hfresh] at hok
    split_ifs at hok with hparent hpartition hself hcycle
    obtain ⟨s1, hs1, hok⟩ := bind_eq_ok.mp hok
    obtain ⟨_, hvalid, hok⟩ := bind_eq_ok.mp hok
    cases hok
    have hvalid := mapError_eq_ok.mp hvalid
    rw [State.withPartition] at hs1
    split at hs1
    next => cases hs1
    next entry hentry =>
      cases hs1
      obtain ⟨rfl, rfl, key, hkey, -⟩ := registerPartition_ok hentry
      have hjoins : s.catalog.Joins entry := by
        refine ⟨fun e he heq => ?_, ⟨key, hkey⟩, fun es hup => hcycle ?_⟩
        · rw [← heq, entryOf_eq_some h.1.one he] at hfresh
          cases hfresh
        · refine meetsAbove_of_up h.1.one hup ?_
          have hdepth := h.1.depth _ _ _ hup
          rw [walkFuel]
          omega
      refine h.recordPartition hordered hlink hentry hjoins hpartition ?_
      refine not_boundViolation_of_validateAttachRows maxDepth ?_ rfl hvalid
      exact entryOf_eq_some (hjoins.oneParent h.1.one)
        (Joins.mem_recordPartition.mpr (.inr rfl))

omit hordered in
lemma Inv.detachPartition (hok : s.detachPartition parent partition = .ok s') :
    Inv ly slots dom s' := by
  obtain ⟨hsound, hstored⟩ := h
  rw [State.detachPartition] at hok
  split at hok
  next entry _ =>
    split_ifs at hok
    cases hok
    have hmem : ∀ e ∈ (s.catalog.removePartitionEntry partition).partitions,
        e ∈ s.catalog.partitions := fun e he => (mem_removePartitionEntry.mp he).1
    refine ⟨⟨?_, ?_, ?_, hsound.keyed, hsound.keyIn, ?_, ?_, ?_, ?_, ?_⟩, fun t row hrow => ?_⟩
    · exact fun e he e' he' => hsound.one e (hmem e he) e' (hmem e' he')
    · exact fun e he => hsound.above e (hmem e he)
    · exact fun e he => hsound.entries e (hmem e he)
    · exact fun e he => hsound.kind e (hmem e he)
    · exact fun e he => hsound.boundIn e (hmem e he)
    · exact fun e he e' he' => hsound.disjoint e (hmem e he) e' (hmem e' he')
    · exact fun e he e' he' => hsound.default e (hmem e he) e' (hmem e' he')
    · exact fun t es top hup => hsound.depth t es top (hup.mono hmem)
    · have hplace := hstored t row hrow
      refine ⟨hplace.table, hplace.leaf, hplace.rowIn, fun es top hup e he => ?_⟩
      exact (hplace.within es top (hup.mono hmem) e he).mono rfl fun p hp _ _ => .inl (hmem p hp)
  next => cases hok

/-! ## Runs -/

omit h in
omit hordered in
lemma Inv.empty : Inv ly slots dom (State.empty : State F O T) := by
  refine ⟨⟨nofun, nofun, nofun, nofun, nofun, nofun, nofun, nofun, nofun, ?_⟩, nofun⟩
  intro t es top hup
  cases es with
  | nil => exact Nat.zero_le _
  | cons e es => cases hup.cons_inv.1

lemma Inv.execute {statement : Statement F O T} (hkeeps : Keeps ly slots dom s statement)
    (hok : s.execute ly statement = .ok s') : Inv ly slots dom s' := by
  cases statement with
  | createTable name partitionBy =>
    rw [State.execute] at hok
    split_ifs at hok with hname
    cases hok
    exact h.withTable hname hkeeps
  | createPartition name parent bound partitionBy =>
    rw [State.execute] at hok
    split_ifs at hok with hname hparent
    exact h.createPartition hordered hname hparent hkeeps.1 hkeeps.2 hok
  | attachPartition parent partition bound => exact h.attachPartition hordered hkeeps hok
  | detachPartition parent partition => exact h.detachPartition hok
  | insert table rows conflicts triggers =>
    rw [State.execute] at hok
    split_ifs at hok with htable
    obtain ⟨store, hstore, rfl⟩ := map_eq_ok.mp hok
    obtain ⟨hrows, hconflicts, htriggers⟩ := hkeeps
    exact ⟨h.1, h.2.insertIntoPartitionTree h.1 htriggers htable hrows hconflicts hstore⟩
  | update viaParent changes triggers =>
    obtain ⟨store, hstore, rfl⟩ := map_eq_ok.mp hok
    refine ⟨h.1, foldlM_invariant (fun c hc _ _ hstored hstep => ?_) hstore h.2⟩
    exact hstored.updateRow h.1 hkeeps.2 (hkeeps.1 c hc) hstep
  | merge table deletes updates inserts triggers =>
    rw [State.execute] at hok
    split_ifs at hok with htable
    obtain ⟨store, hstore, rfl⟩ := map_eq_ok.mp hok
    obtain ⟨hupdates, hinserts, htriggers⟩ := hkeeps
    exact ⟨h.1, h.2.mergeInto h.1 htriggers htable hupdates hinserts hstore⟩
  | referentialActions changes =>
    obtain ⟨store, hstore, rfl⟩ := map_eq_ok.mp hok
    refine ⟨h.1, foldlM_invariant (fun c hc _ _ hstored hstep => ?_) hstore h.2⟩
    exact hstored.updateInPlace h.1 (hkeeps c hc).1 (hkeeps c hc).2 hstep
  | delete rows =>
    cases hok
    exact ⟨h.1, foldlRecOn rows _ h.2 fun _ hstored r _ => hstored.delete r.1 r.2⟩

omit h in
lemma Inv.run {statements : List (Statement F O T)} :
    ∀ {s : State F O T}, Inv ly slots dom s → KeepsAll ly slots dom s statements →
      Inv ly slots dom (s.run ly statements) := by
  induction statements with
  | nil =>
    intro s h _
    exact h
  | cons statement statements ih =>
    intro s h hkeeps
    refine ih ?_ hkeeps.2
    rw [State.step]
    split
    next s' hok => exact h.execute hordered hkeeps.1 hok
    next => exact h

omit hordered

/-! ## Where the rows lie -/

omit h in
/-- Sibling bounds are disjoint; every stored row lies in the leaf that routing chooses from each
table above; a row below a catch-all is accepted by no sibling of it. -/
structure Placed (ly : Layout F O T) (dom : SqlValue F O → Prop) (s : State F O T) : Prop where
  disjoint : ∀ e ∈ s.catalog.partitions, ∀ e' ∈ s.catalog.partitions, e.parent = e'.parent →
    e ≠ e' → ∀ key, s.catalog.keys e.parent = some key → ∀ vs : List (SqlValue F O),
    (∀ v ∈ vs, dom v) → ¬(accepts ly.toTypes vs e.bound key.types ∧ accepts ly.toTypes vs e'.bound key.types)
  routed : ∀ t, ∀ row ∈ s.rows t, ∀ es top, s.catalog.Up t es top → es ≠ [] →
    ∀ key, s.catalog.keys top = some key →
    s.catalog.routeRowsToLeaves ly top key [row] = .ok [(t, [row])]
  catchAll : ∀ t, ∀ row ∈ s.rows t, ∀ d ∈ s.catalog.partitions, d.bound.isDefault →
    ∀ es, s.catalog.Up t es d.table → ∀ e ∈ s.catalog.partitions, e.parent = d.parent →
    ∀ key, s.catalog.keys d.parent = some key → ∀ values, ly.keyOfRow key row = some values →
    ¬accepts ly.toTypes values e.bound key.types

lemma Inv.placed : Placed ly dom s where
  disjoint := by
    intro e he e' he' hparent hne key hkey vs hvs haccepts
    exact hne (h.1.disjoint e he e' he' hparent key hkey vs hvs haccepts.1 haccepts.2)
  routed := by
    intro t row hrow es top hup hne key hkey
    have hplace := h.2 t row hrow
    exact hup.routed h.1.above (h.1.apart hplace.rowIn) hplace.leaf hne (h.1.depth t es top hup) hkey
      (hplace.within es top hup) []
  catchAll := by
    intro t row hrow d hd hdefault es hup e he hparent key hkey values hvalues haccepts
    have hway : s.catalog.Up t (es ++ [d]) d.parent := hup.trans (.step hd (.refl _))
    have hwithin := (h.2 t row hrow).within _ _ hway d (by simp)
    obtain ⟨values', hvalues', hleaves⟩ := (within_iff hkey).mp hwithin
    rw [hvalues] at hvalues'
    cases hvalues'
    rw [leaves, if_pos hdefault, any_eq_false] at hleaves
    refine hleaves e (mem_partitionsOf.mpr ⟨he, hparent⟩) ?_
    rw [not_isDefault_of_accepts haccepts, haccepts]
    rfl

omit h

lemma Linkable.of_no_rows (hrows : ∀ t, s.rows t = [])
    (hcast : ∀ key, s.catalog.keys parent = some key → CastIn ly.toTypes dom key bound)
    (hbelow : s.catalog.partitionsOf partition = []) (habove : s.catalog.entryOf parent = none) :
    Linkable ly dom s parent partition bound where
  cast := hcast
  catchAll := by
    intro _ _ _ _ _ t _ _ row hrow
    rw [hrows t] at hrow
    cases hrow
  below := by
    intro _ _ t _ _ _ row hrow
    rw [hrows t] at hrow
    cases hrow
  depth := by
    intro t below hup above top hup'
    rw [hup.eq_nil_of_partitionsOf hbelow, hup'.eq_nil_of_entryOf habove]
    simp [maxDepth]

end

/-! ## Rows that are left out of place -/

def rowOf (n : Int) : Row Unit Empty := fun _ => .int n

/-- Rows of integers, and one key expression, `k % 100`. -/
def numberRows : Layout Unit Empty Empty where
  toTypes := numbersOnly
  isText := fun _ => false
  keepsText := fun _ => false
  expression := fun text =>
    if text = "k % 100" then
      some ⟨fun row => match row "k" with | .int n => some (.int (n.tmod 100)) | _ => none,
        [("k", .int)]⟩
    else none

def keyMod : Key Empty := ⟨("k % 100", .int), []⟩

def between (lo hi : Int) : PartitionBound (SqlValue Unit Empty) :=
  .range [.value (.int lo)] [.value (.int hi)]

/-- A table with both partitions of its expression key, two rows inserted and one of them moved. -/
def bothPartitions : List (Statement Unit Empty Empty) :=
  [.createTable "t" (some (keyMod, .range)),
    .createPartition "low" "t" (between 0 10) none,
    .createPartition "rest" "t" .default none,
    .insert "t" [rowOf 105, rowOf 20] (fun _ _ => .none) .silent,
    .update true [⟨"rest", 0, rowOf 207⟩] .silent]

lemma castIn_between : CastIn numbersOnly IsInt keyMod (between 0 10) := by
  intro e he ty hty e' hcast
  obtain rfl : ty = .int := mem_singleton.mp hty
  rcases mem_cons.mp he with rfl | he
  · cases hcast
    trivial
  obtain rfl := mem_singleton.mp he
  cases hcast
  trivial

lemma keyValuesIn_rowOf (n : Int) :
    KeyValuesIn numberRows (fun slot => slot = ("k % 100", .int)) IsInt (rowOf n) := by
  rintro slot rfl v hv
  cases hv
  trivial

lemma silent_keep (cat : Catalog Unit Empty Empty) (slots : String × ColumnType Empty → Prop) :
    RowTriggers.silent.Keep numberRows slots IsInt cat := by
  rintro leaf i row row' hrow' hvalues hfits
  cases hrow'
  exact ⟨hvalues, hfits⟩

/-- The default partition takes the row 5, and then a partition from 0 to 10 is created beside it. -/
def catchAllFirst : List (Statement Unit Empty Empty) :=
  [.createTable "t" (some (keyK, .range)),
    .createPartition "rest" "t" .default none,
    .insert "t" [rowOf 5] (fun _ _ => .none) .silent,
    .createPartition "low" "t" (between 0 10) none]

/-- `NEW.k := NEW.k + 10` on the partition `low`. -/
def addTen : RowTriggers Unit Empty where
  beforeInsert := fun leaf _ row =>
    some (if leaf = "low" then fun c => match row c with | .int n => .int (n + 10) | v => v else row)
  beforeDelete := fun _ _ => false

/-- Two partitions, and a trigger that makes the row 5 a row 15 once it has come to the first. -/
def rewritten : List (Statement Unit Empty Empty) :=
  [.createTable "t" (some (keyK, .range)),
    .createPartition "low" "t" (between 0 10) none,
    .createPartition "high" "t" (between 10 20) none,
    .insert "t" [rowOf 5] (fun _ _ => .none) addTen]

end NusaDb.Partition
