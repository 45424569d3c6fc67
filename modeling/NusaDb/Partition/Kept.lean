import NusaDb.Partition.Pruning

/-!
# What pruning keeps

A constant is cast to its key column's type, which may round it or drop a part of it. Pruning loses
no row exactly when every row on which the predicate is true still satisfies its constraints once
their constants are cast (`Held`).
-/

namespace NusaDb.Partition

open List NusaDb.Sql PruneConstraint Key

/-! ## The tests on places -/

namespace PruneOp

variable {M : Type} [LinearOrder M]

def Rel : PruneOp → M → M → Prop
  | .eq, x, v => x = v
  | .lt, x, v => x < v
  | .ltEq, x, v => x ≤ v
  | .gt, x, v => v < x
  | .gtEq, x, v => v ≤ x

/-- What `range_excludes` tests. -/
def MissesHalfOpen : PruneOp → M → M → M → Prop
  | .eq, lo, hi, v => lo ≤ v → hi ≤ v
  | .lt, lo, _, v => v ≤ lo
  | .ltEq, lo, _, v => v < lo
  | .gt, _, hi, v => hi ≤ v
  | .gtEq, _, hi, v => hi ≤ v

/-- What `leading_range_excludes` tests. -/
def MissesClosed : PruneOp → M → M → M → Prop
  | .eq, lo, hi, v => lo ≤ v → hi < v
  | .lt, lo, _, v => v ≤ lo
  | .ltEq, lo, _, v => v < lo
  | .gt, _, hi, v => hi ≤ v
  | .gtEq, _, hi, v => hi < v

/-- A half-open range misses `> v` only when it ends at or below `v`, so it may hold `v` itself
without being missed. -/
def RelOrEdge (op : PruneOp) (x v : M) : Prop := op.Rel x v ∨ (op = .gt ∧ x = v)

variable {op : PruneOp} {x v : M}

lemma not_missesHalfOpen {lo hi : M} (hlo : lo ≤ x) (hhi : x < hi) (h : op.RelOrEdge x v) :
    ¬ op.MissesHalfOpen lo hi v := by
  intro hmiss
  cases op <;> simp only [RelOrEdge, Rel, MissesHalfOpen, reduceCtorEq, false_and, or_false,
    true_and] at h hmiss
  case eq =>
    subst h
    exact absurd hhi (not_lt.mpr (hmiss hlo))
  case lt => exact absurd (hlo.trans_lt h) (not_lt.mpr hmiss)
  case ltEq => exact absurd (hlo.trans h) (not_le.mpr hmiss)
  case gt =>
    rcases h with h | rfl
    · exact absurd (h.trans hhi) (not_lt.mpr hmiss)
    · exact absurd hhi (not_lt.mpr hmiss)
  case gtEq => exact absurd (h.trans_lt hhi) (not_lt.mpr hmiss)

lemma not_missesClosed {lo hi : M} (hlo : lo ≤ x) (hhi : x ≤ hi) (h : op.Rel x v) :
    ¬ op.MissesClosed lo hi v := by
  intro hmiss
  cases op <;> simp only [Rel, MissesClosed] at h hmiss
  case eq =>
    subst h
    exact absurd hhi (not_le.mpr (hmiss hlo))
  case lt => exact absurd (hlo.trans_lt h) (not_lt.mpr hmiss)
  case ltEq => exact absurd (hlo.trans h) (not_le.mpr hmiss)
  case gt => exact absurd (h.trans_le hhi) (not_lt.mpr hmiss)
  case gtEq => exact absurd (h.trans hhi) (not_le.mpr hmiss)

lemma missesClosed_self (h : ¬ op.Rel x v) : op.MissesClosed x x v := by
  cases op <;> simp only [Rel, MissesClosed, not_lt, not_le] at h ⊢
  case eq => exact fun hle => lt_of_le_of_ne hle h
  all_goals exact h

lemma missesHalfOpen_end (h : ¬ op.Rel x v) : op.MissesHalfOpen x v v := by
  cases op <;> simp only [Rel, MissesHalfOpen, not_lt, not_le] at h ⊢
  case eq => exact fun _ => le_rfl
  case lt => exact h
  case ltEq => exact h
  case gt => exact le_rfl
  case gtEq => exact le_rfl

lemma missesHalfOpen_of_ge (hi : M) (h : ¬ op.RelOrEdge x v) (hge : v ≤ x) :
    op.MissesHalfOpen x hi v := by
  cases op <;> simp only [RelOrEdge, Rel, MissesHalfOpen, not_lt, not_le, not_or, reduceCtorEq,
    false_and, not_false_eq_true, and_true, true_and] at h ⊢
  case eq => exact fun hle => absurd (le_antisymm hge hle).symm h
  case lt => exact h
  case ltEq => exact h
  case gt => exact absurd (le_antisymm h.1 hge) h.2
  case gtEq => exact absurd hge (not_le.mpr h)

end PruneOp

/-! ## One column -/

lemma rel_edgePlace {V L : Type} [LinearOrder L] {place : V → L} {x v : V} (op : PruneOp) :
    op.Rel (edgePlace place (.value x)) (edgePlace place (.value v)) ↔
      op.Rel (place x) (place v) := by
  cases op <;> simp only [PruneOp.Rel, edgePlace, WithBot.coe_inj, WithTop.coe_inj,
    WithBot.coe_lt_coe, WithTop.coe_lt_coe, WithBot.coe_le_coe, WithTop.coe_le_coe]

section Column

variable {F O T : Type} (ts : Types F O T) {L : Type} [LinearOrder L] {dom : SqlValue F O → Prop}
  {place : SqlValue F O → L}
  (hplace : ∀ a b, dom a → dom b → ts.compare a b = Ord.compare (place a) (place b))
include hplace

variable {x v : SqlValue F O}

lemma opHolds_iff (hx : dom x) (hv : dom v) (op : PruneOp) :
    opHolds ts x op v = true ↔ op.Rel (place x) (place v) := by
  cases op <;> simp only [opHolds, PruneOp.Rel, hplace x v hx hv, beq_iff_eq, bne_iff_ne,
    compare_lt_iff_lt, compare_gt_iff_gt, compare_eq_iff_eq, compare_le_iff_le, compare_ge_iff_ge]

variable {lo hi : RangeEdge (SqlValue F O)}

lemma rangeExcludes_iff (hv : dom v) (hlo : lo.In dom) (hhi : hi.In dom) (op : PruneOp) :
    rangeExcludes ts lo hi op v = true ↔
      op.MissesHalfOpen (edgePlace place lo) (edgePlace place hi) (edgePlace place (.value v)) := by
  cases op <;> simp only [rangeExcludes, PruneOp.MissesHalfOpen, cmpValueEdge_place ts hplace hv hlo,
    cmpValueEdge_place ts hplace hv hhi, beq_iff_eq, bne_iff_ne, Bool.not_eq_true',
    Bool.and_eq_false_imp, beq_eq_false_iff_ne, compare_lt_iff_lt, compare_le_iff_le,
    compare_ge_iff_ge]

lemma leadingRangeExcludes_iff (hv : dom v) (hlo : lo.In dom) (hhi : hi.In dom) (op : PruneOp) :
    leadingRangeExcludes ts lo hi op v = true ↔
      op.MissesClosed (edgePlace place lo) (edgePlace place hi) (edgePlace place (.value v)) := by
  cases op <;> simp only [leadingRangeExcludes, PruneOp.MissesClosed,
    cmpValueEdge_place ts hplace hv hlo, cmpValueEdge_place ts hplace hv hhi, beq_iff_eq,
    bne_iff_ne, Bool.not_eq_true', Bool.and_eq_false_imp, bne_eq_false_iff_eq, compare_lt_iff_lt,
    compare_gt_iff_gt, compare_le_iff_le, compare_ge_iff_ge]

variable {op : PruneOp}

section

variable (hx : dom x) (hv : dom v) (hlo : lo.In dom) (hhi : hi.In dom)
  (hle : cmpValueEdge ts x lo ≠ .lt)

include hx hv hlo hhi hle

lemma rangeExcludes_eq_false (hlt : cmpValueEdge ts x hi = .lt) (h : opHolds ts x op v = true ∨
    (op = .gt ∧ ts.compare x v = .eq)) : rangeExcludes ts lo hi op v = false := by
  rw [cmpValueEdge_place ts hplace hx hlo, compare_ge_iff_ge] at hle
  rw [cmpValueEdge_place ts hplace hx hhi, compare_lt_iff_lt] at hlt
  rw [Bool.eq_false_iff, ne_eq, rangeExcludes_iff ts hplace hv hlo hhi]
  refine PruneOp.not_missesHalfOpen hle hlt ?_
  rcases h with h | ⟨rfl, heq⟩
  · exact .inl ((rel_edgePlace op).mpr ((opHolds_iff ts hplace hx hv op).mp h))
  · rw [hplace x v hx hv, compare_eq_iff_eq] at heq
    exact .inr ⟨rfl, congrArg (fun p : L => ((p : WithTop L) : WithBot (WithTop L))) heq⟩

lemma leadingRangeExcludes_eq_false (hge : cmpValueEdge ts x hi ≠ .gt)
    (h : opHolds ts x op v = true) : leadingRangeExcludes ts lo hi op v = false := by
  rw [cmpValueEdge_place ts hplace hx hlo, compare_ge_iff_ge] at hle
  rw [cmpValueEdge_place ts hplace hx hhi, compare_le_iff_le] at hge
  rw [Bool.eq_false_iff, ne_eq, leadingRangeExcludes_iff ts hplace hv hlo hhi]
  refine PruneOp.not_missesClosed hle hge ?_
  exact (rel_edgePlace op).mpr ((opHolds_iff ts hplace hx hv op).mp h)

end

lemma leadingRangeExcludes_pinned (hx : dom x) (hv : dom v) (h : ¬ opHolds ts x op v = true) :
    leadingRangeExcludes ts (.value x) (.value x) op v = true := by
  rw [leadingRangeExcludes_iff ts hplace hv (show (RangeEdge.value x).In dom from hx)
    (show (RangeEdge.value x).In dom from hx)]
  refine PruneOp.missesClosed_self fun hrel => h ?_
  exact (opHolds_iff ts hplace hx hv op).mpr ((rel_edgePlace op).mp hrel)

lemma exists_rangeExcludes (hx : dom x) (hv : dom v)
    (h : ¬ (opHolds ts x op v = true ∨ (op = .gt ∧ ts.compare x v = .eq))) :
    ∃ hi : RangeEdge (SqlValue F O), hi.In dom ∧ cmpValueEdge ts x hi = .lt ∧
      rangeExcludes ts (.value x) hi op v = true := by
  have hxin : (RangeEdge.value x).In dom := hx
  have hvin : (RangeEdge.value v).In dom := hv
  rw [opHolds_iff ts hplace hx hv, hplace x v hx hv, compare_eq_iff_eq, not_or] at h
  have hrel : ¬ op.Rel (edgePlace place (.value x)) (edgePlace place (.value v)) :=
    fun hrel => h.1 ((rel_edgePlace op).mp hrel)
  rcases lt_or_ge (place x) (place v) with hlt | hge
  · refine ⟨.value v, hvin, ?_, ?_⟩
    · exact (hplace x v hx hv).trans (compare_lt_iff_lt.mpr hlt)
    · rw [rangeExcludes_iff ts hplace hv hxin hvin]
      exact PruneOp.missesHalfOpen_end hrel
  refine ⟨.max, trivial, rfl, ?_⟩
  rw [rangeExcludes_iff ts hplace hv hxin (show RangeEdge.max.In dom from trivial)]
  refine PruneOp.missesHalfOpen_of_ge _ ?_ ?_
  · rintro (hr | ⟨hop, heq⟩)
    · exact hrel hr
    · exact h.2 ⟨hop, WithTop.coe_inj.mp (WithBot.coe_inj.mp heq)⟩
  · exact WithBot.coe_le_coe.mpr (WithTop.coe_le_coe.mpr hge)

end Column

/-! ## Two hashes -/

lemma eq_of_mod_eq {n a b : Nat} (ha : a < n + 1) (hb : b < n + 1) (hodd : n % 2 = 1)
    (hlarge : a % n = b % n) (hsmall : a % 2 = b % 2) : a = b := by
  rcases Nat.lt_succ_iff_lt_or_eq.mp ha with ha | rfl
  · rcases Nat.lt_succ_iff_lt_or_eq.mp hb with hb | rfl
    · rwa [Nat.mod_eq_of_lt ha, Nat.mod_eq_of_lt hb] at hlarge
    · rw [Nat.mod_eq_of_lt ha, Nat.mod_self] at hlarge
      omega
  · rcases Nat.lt_succ_iff_lt_or_eq.mp hb with hb | rfl
    · rw [Nat.mod_eq_of_lt hb, Nat.mod_self] at hlarge
      omega
    · rfl

lemma exists_mod_ne {a b : UInt64} (h : a ≠ b) : ∃ m : UInt64, m ≠ 0 ∧ a % m ≠ b % m := by
  by_contra hall
  have hagree : ∀ m : UInt64, m ≠ 0 → a % m = b % m := by
    intro m hm
    by_contra hne
    exact hall ⟨m, hm, hne⟩
  have hlarge := congrArg UInt64.toNat (hagree (-1) (by decide))
  have hsmall := congrArg UInt64.toNat (hagree 2 (by decide))
  exact h (UInt64.toNat_inj.mp
    (eq_of_mod_eq (n := 2 ^ 64 - 1) a.toNat_lt b.toNat_lt rfl hlarge hsmall))

/-! ## One key -/

section Keys

variable {F O T : Type} (ts : Types F O T)

variable {ty : ColumnType T} {test : PruneOp → SqlValue F O → Bool}

section

variable {cs : List (PruneConstraint (SqlValue F O))} {index : Nat}

lemma any_proves_eq_true :
    cs.any (proves ts index ty test) = true ↔ ∃ c ∈ cs, c.keyIndex = index ∧ ∃ v, castKey ts c.value
      ty = some v ∧ test c.op v = true := by
  simp only [any_eq_true, proves, Bool.and_eq_true, beq_iff_eq, Option.any_eq_true]

lemma any_proves_eq_false (h : ∀ c ∈ cs, c.keyIndex = index → ∀ v, castKey ts c.value ty = some v →
      test c.op v = false) : cs.any (proves ts index ty test) = false := by
  rw [Bool.eq_false_iff, ne_eq, any_proves_eq_true]
  rintro ⟨c, hc, hindex, v, hv, htest⟩
  rw [h c hc hindex v hv] at htest
  exact absurd htest (by decide)

end

def PinsLeading (key : Key T) (cs : List (PruneConstraint (SqlValue F O))) : Prop :=
  ∃ c ∈ cs, c.keyIndex = 0 ∧ c.op = .eq ∧ ∃ v, castKey ts c.value key.lead.2 = some v

/-- The row satisfies the constraints that pruning uses with their constants cast: those on the
leading column (an equality under a hash bound means the same hash) and, once that is pinned, those
on the second. -/
structure Held (key : Key T) (cs : List (PruneConstraint (SqlValue F O))) (row : Row F O) : Prop where
  lead : ∀ c ∈ cs, c.keyIndex = 0 → ∀ v, castKey ts c.value key.lead.2 = some v →
    opHolds ts (row key.lead.1) c.op v = true
  hash : key.rest = [] → ∀ c ∈ cs, c.keyIndex = 0 → c.op = .eq →
    ∀ v, castKey ts c.value key.lead.2 = some v →
      valueHash ts [v] key.types = valueHash ts (key.ofRow row) key.types
  second : ∀ col more, key.rest = col :: more → PinsLeading ts key cs →
    ∀ c ∈ cs, c.keyIndex = 1 → ∀ v, castKey ts c.value col.2 = some v →
      opHolds ts (row col.1) c.op v = true ∨
        (more = [] ∧ c.op = .gt ∧ ts.compare (row col.1) v = .eq)

/-- What `register_partition` lets in: edge tuples as long as the key and in order, value sets for a
single column, a residue of its modulus. -/
def Fits (dom : ColumnType T → SqlValue F O → Prop) (key : Key T) : PartitionBound (SqlValue F O) → Prop
  | .range lo hi =>
    List.Forall₂ (fun e ty => RangeEdge.In (dom ty) e) lo key.types ∧
      List.Forall₂ (fun e ty => RangeEdge.In (dom ty) e) hi key.types ∧
      compareEdgeTuples ts lo hi = .lt
  | .list values => key.rest = [] ∧ ∀ v ∈ values, dom key.lead.2 v
  | .hash modulus remainder => modulus ≠ 0 ∧ remainder < modulus
  | .default => True

variable {dom : ColumnType T → SqlValue F O → Prop} {key : Key T}
  {cs : List (PruneConstraint (SqlValue F O))} {row : Row F O}

def RowIn (dom : ColumnType T → SqlValue F O → Prop) (key : Key T) (row : Row F O) : Prop :=
  ∀ col ∈ key.lead :: key.rest, dom col.2 (row col.1)

def ConstantsIn (dom : ColumnType T → SqlValue F O → Prop) (key : Key T)
    (cs : List (PruneConstraint (SqlValue F O))) : Prop :=
  ∀ col ∈ key.lead :: key.rest, ∀ c ∈ cs, ∀ v, castKey ts c.value col.2 = some v → dom col.2 v

def KeyOrdered (dom : ColumnType T → SqlValue F O → Prop) (key : Key T) : Prop :=
  ∀ col ∈ key.lead :: key.rest, Ordered ts.compare (dom col.2)

lemma ofRow_of_rest {col : String × ColumnType T} {more : List (String × ColumnType T)}
    (hrest : key.rest = col :: more) :
    key.ofRow row = row key.lead.1 :: row col.1 :: more.map (fun c => row c.1) := by
  simp [ofRow, columns, hrest, Function.comp_def]

lemma cmpValueEdge_lt_of_single {x : SqlValue F O} {e : RangeEdge (SqlValue F O)}
    (h : compareKeyToEdges ts [x] [e] = .lt) : cmpValueEdge ts x e = .lt := by
  cases hc : cmpValueEdge ts x e <;> simp [compareKeyToEdges, hc] at h ⊢

variable (hord : KeyOrdered ts dom key) (hconst : ConstantsIn ts dom key cs)
  (hrow : RowIn dom key row)
include hord hconst hrow

variable (h : Held ts key cs row)

include h

lemma Held.list_kept {values : List (SqlValue F O)} (hvalues : ∀ v ∈ values, dom key.lead.2 v)
    (hacc : accepts ts (key.ofRow row) (.list values) key.types = true) :
    partitionExcluded ts (.list values) cs key.types = false := by
  obtain ⟨L, _, place, hplace⟩ := hord key.lead mem_cons_self
  have hx := hrow key.lead mem_cons_self
  obtain ⟨y, hy, heq⟩ : ∃ y ∈ values, ts.compare (row key.lead.1) y = .eq := by
    simpa only [accepts, ofRow, columns, map_cons, any_eq_true, beq_iff_eq] using hacc
  refine any_proves_eq_false ts fun c hc hindex v hv => ?_
  have hvin := hconst key.lead mem_cons_self c hc v hv
  have hheld := h.lead c hc hindex v hv
  rw [hplace _ y hx (hvalues y hy), compare_eq_iff_eq] at heq
  rw [opHolds_iff ts hplace hx hvin, heq, ← opHolds_iff ts hplace (hvalues y hy) hvin] at hheld
  rw [Bool.not_eq_false', any_eq_true]
  exact ⟨y, hy, hheld⟩

omit h in
omit hord hconst hrow in
lemma castKey_not_null {value v : SqlValue F O} (h : castKey ts value ty = some v) :
    isNull v = false := by
  unfold castKey at h
  split at h
  · exact absurd h (by simp)
  rename_i hne
  cases v with
  | null => exact absurd h hne
  | _ => rfl

omit hord hconst hrow in
lemma Held.hash_kept {modulus remainder : UInt64}
    (hacc : accepts ts (key.ofRow row) (.hash modulus remainder) key.types = true) :
    partitionExcluded ts (.hash modulus remainder) cs key.types = false := by
  simp only [accepts, Bool.and_eq_true, bne_iff_ne, beq_iff_eq] at hacc
  obtain ⟨⟨-, hmod⟩, hhash⟩ := hacc
  cases hrest : key.rest with
  | cons col more => simp [partitionExcluded, types, hrest]
  | nil =>
    have hany : cs.any (proves ts 0 key.lead.2
        fun op v => op == .eq && !accepts ts [v] (.hash modulus remainder) key.types) = false := by
      refine any_proves_eq_false ts fun c hc hindex v hv => ?_
      rw [Bool.and_eq_false_imp, beq_iff_eq]
      intro hop
      have hsame := h.hash hrest c hc hindex hop v hv
      simp [accepts, castKey_not_null ts hv, hmod, hsame, hhash]
    simpa only [partitionExcluded, types, hrest, map_nil, isEmpty_nil, Bool.not_true,
      Bool.false_and, Bool.not_false, Bool.true_and] using hany

variable {lo0 hi0 : RangeEdge (SqlValue F O)}

lemma Held.range_single_kept (hrest : key.rest = []) (hlo : lo0.In (dom key.lead.2))
    (hhi : hi0.In (dom key.lead.2)) (hle : cmpValueEdge ts (row key.lead.1) lo0 ≠ .lt)
    (hlt : cmpValueEdge ts (row key.lead.1) hi0 = .lt) :
    partitionExcluded ts (.range [lo0] [hi0]) cs key.types = false := by
  obtain ⟨L, _, place, hplace⟩ := hord key.lead mem_cons_self
  have hany : cs.any (proves ts 0 key.lead.2 (rangeExcludes ts lo0 hi0)) = false := by
    refine any_proves_eq_false ts fun c hc hindex v hv => ?_
    exact rangeExcludes_eq_false ts hplace (hrow key.lead mem_cons_self)
      (hconst key.lead mem_cons_self c hc v hv) hlo hhi hle hlt (.inl (h.lead c hc hindex v hv))
  simp [partitionExcluded, types, hrest, hany]

/-- A range over several columns that holds the row is not excluded. -/
lemma Held.range_multi_kept {col : String × ColumnType T} {more : List (String × ColumnType T)}
    (hrest : key.rest = col :: more) {lo1 hi1 : RangeEdge (SqlValue F O)}
    {los his : List (RangeEdge (SqlValue F O))} (hlo0 : lo0.In (dom key.lead.2))
    (hhi0 : hi0.In (dom key.lead.2)) (hlo1 : lo1.In (dom col.2)) (hhi1 : hi1.In (dom col.2))
    (hlos : los.length = more.length) (hhis : his.length = more.length)
    (hge : compareKeyToEdges ts (key.ofRow row) (lo0 :: lo1 :: los) ≠ .lt)
    (hlt : compareKeyToEdges ts (key.ofRow row) (hi0 :: hi1 :: his) = .lt) :
    partitionExcluded ts (.range (lo0 :: lo1 :: los) (hi0 :: hi1 :: his)) cs key.types = false := by
  have hcol : col ∈ key.lead :: key.rest := by simp [hrest]
  rw [ofRow_of_rest hrest] at hge hlt
  have hx0 := hrow key.lead mem_cons_self
  have hx1 := hrow col hcol
  obtain ⟨L, _, place, hplace⟩ := hord key.lead mem_cons_self
  obtain ⟨L', _, place', hplace'⟩ := hord col hcol
  have hlead : cs.any (proves ts 0 key.lead.2 (leadingRangeExcludes ts lo0 hi0)) =
      false := by
    refine any_proves_eq_false ts fun c hc hindex v hv => ?_
    exact leadingRangeExcludes_eq_false ts hplace hx0
      (hconst key.lead mem_cons_self c hc v hv) hlo0 hhi0 (cmpValueEdge_ne_lt ts hge)
      (cmpValueEdge_ne_gt ts hlt) (h.lead c hc hindex v hv)
  have hsecond : compareEdgeTuples ts [lo0] [hi0] = .eq →
      cs.any (proves ts 0 key.lead.2
        fun op v => op == .eq && cmpValueEdge ts v lo0 == .eq) = true →
      cs.any (proves ts 1 col.2 (if more.isEmpty then rangeExcludes ts lo1 hi1
        else leadingRangeExcludes ts lo1 hi1)) = false := by
    intro hpinned hpins
    -- the leading value is the one the two leading edges share
    have hedges : edgePlace place lo0 = edgePlace place hi0 := by
      have hcmp : cmpEdges ts lo0 hi0 = .eq := by
        cases hc : cmpEdges ts lo0 hi0 <;> simp [compareEdgeTuples, hc] at hpinned ⊢
      rwa [cmpEdges_place ts hplace hlo0 hhi0, compare_eq_iff_eq] at hcmp
    have hle0 := cmpValueEdge_ne_lt ts hge
    have hge0 := cmpValueEdge_ne_gt ts hlt
    rw [cmpValueEdge_place ts hplace hx0 hlo0, compare_ge_iff_ge] at hle0
    rw [cmpValueEdge_place ts hplace hx0 hhi0, compare_le_iff_le] at hge0
    have hat : edgePlace place (.value (row key.lead.1)) = edgePlace place lo0 :=
      le_antisymm (hedges ▸ hge0) hle0
    have heqlo : cmpValueEdge ts (row key.lead.1) lo0 = .eq := by
      rw [cmpValueEdge_place ts hplace hx0 hlo0, compare_eq_iff_eq, hat]
    have heqhi : cmpValueEdge ts (row key.lead.1) hi0 = .eq := by
      rw [cmpValueEdge_place ts hplace hx0 hhi0, compare_eq_iff_eq, hat, hedges]
    rw [compareKeyToEdges_of_eq ts heqlo] at hge
    rw [compareKeyToEdges_of_eq ts heqhi] at hlt
    have hpinning : PinsLeading ts key cs := by
      obtain ⟨c, hc, hindex, v, hv, htest⟩ := (any_proves_eq_true ts).mp hpins
      simp only [Bool.and_eq_true, beq_iff_eq] at htest
      exact ⟨c, hc, hindex, htest.1, v, hv⟩
    refine any_proves_eq_false ts fun c hc hindex v hv => ?_
    have hvin := hconst col hcol c hc v hv
    have hheld := h.second col more hrest hpinning c hc hindex v hv
    cases more with
    | nil =>
      rw [length_nil, length_eq_zero_iff] at hlos hhis
      subst hlos hhis
      exact rangeExcludes_eq_false ts hplace' hx1 hvin hlo1 hhi1 (cmpValueEdge_ne_lt ts hge)
        (cmpValueEdge_lt_of_single ts hlt) (hheld.imp_right And.right)
    | cons third more =>
      rcases hheld with hok | ⟨hnil, -⟩
      · exact leadingRangeExcludes_eq_false ts hplace' hx1 hvin hlo1 hhi1
          (cmpValueEdge_ne_lt ts hge) (cmpValueEdge_ne_gt ts hlt) hok
      · exact absurd hnil (by simp)
  have hmore : (more.map Prod.snd).isEmpty = more.isEmpty := by cases more <;> rfl
  simp only [partitionExcluded, types, hrest, map_cons, isEmpty_cons, Bool.not_false,
    if_true, hlead, Bool.true_and, Bool.false_eq_true, if_false, hmore]
  split
  · rename_i hboth
    rw [Bool.and_eq_true, beq_iff_eq] at hboth
    exact hsecond hboth.1 hboth.2
  · rfl

lemma Held.kept {bound : PartitionBound (SqlValue F O)} (hfit : Fits ts dom key bound)
    (hacc : accepts ts (key.ofRow row) bound key.types = true) :
    partitionExcluded ts bound cs key.types = false := by
  cases bound with
  | list values => exact h.list_kept ts hord hconst hrow hfit.2 hacc
  | hash modulus remainder => exact h.hash_kept ts hacc
  | default => exact absurd hacc (by simp [accepts])
  | range lo hi =>
    obtain ⟨hlo, hhi, -⟩ := hfit
    simp only [accepts, Bool.and_eq_true, bne_iff_ne, beq_iff_eq] at hacc
    obtain ⟨⟨-, hge⟩, hlt⟩ := hacc
    cases hrest : key.rest with
    | nil =>
      simp only [types, hrest, map_nil] at hlo hhi
      obtain ⟨lo0, los, hlo0, hlos, rfl⟩ := forall₂_cons_right_iff.mp hlo
      obtain ⟨hi0, his, hhi0, hhis, rfl⟩ := forall₂_cons_right_iff.mp hhi
      rw [forall₂_nil_right_iff] at hlos hhis
      subst hlos hhis
      have htuple : key.ofRow row = [row key.lead.1] := by simp [ofRow, columns, hrest]
      rw [htuple] at hge hlt
      exact h.range_single_kept ts hord hconst hrow hrest hlo0 hhi0 (cmpValueEdge_ne_lt ts hge)
        (cmpValueEdge_lt_of_single ts hlt)
    | cons col more =>
      simp only [types, hrest, map_cons] at hlo hhi
      obtain ⟨lo0, los, hlo0, hlos, rfl⟩ := forall₂_cons_right_iff.mp hlo
      obtain ⟨hi0, his, hhi0, hhis, rfl⟩ := forall₂_cons_right_iff.mp hhi
      obtain ⟨lo1, los, hlo1, hlos, rfl⟩ := forall₂_cons_right_iff.mp hlos
      obtain ⟨hi1, his, hhi1, hhis, rfl⟩ := forall₂_cons_right_iff.mp hhis
      exact h.range_multi_kept ts hord hconst hrow hrest hlo0 hhi0 hlo1 hhi1
        (by simpa using hlos.length_eq) (by simpa using hhis.length_eq) hge hlt

omit h

/-! ## The bounds that drop a row -/

omit hconst in
lemma compare_lead_self : ts.compare (row key.lead.1) (row key.lead.1) = .eq := by
  obtain ⟨L, _, place, hplace⟩ := hord key.lead mem_cons_self
  have hx := hrow key.lead mem_cons_self
  rw [hplace _ _ hx hx, compare_eq_iff_eq]

omit hord hconst hrow in
lemma forall₂_open (e : RangeEdge (SqlValue F O)) (he : ∀ d : SqlValue F O → Prop, e.In d)
    (cols : List (String × ColumnType T)) :
    Forall₂ (fun e ty => RangeEdge.In (dom ty) e) (cols.map fun _ => e)
      (cols.map Prod.snd) := by
  rw [forall₂_map_left_iff, forall₂_map_right_iff]
  exact forall₂_same.mpr fun col _ => he (dom col.2)

section Dropped

-- no bound that fits the key and holds the row is dropped
variable
  (hkept : ∀ bound, Fits ts dom key bound → accepts ts (key.ofRow row) bound key.types = true →
  partitionExcluded ts bound cs key.types = false)
include hkept

variable {c : PruneConstraint (SqlValue F O)} {v : SqlValue F O}

omit hconst in
lemma lead_of_kept_single (hrest : key.rest = []) (hc : c ∈ cs) (hindex : c.keyIndex = 0)
    (hv : castKey ts c.value key.lead.2 = some v) : opHolds ts (row key.lead.1) c.op v = true := by
  have hself := compare_lead_self ts hord hrow
  have hfit : Fits ts dom key (.list [row key.lead.1]) :=
    ⟨hrest, fun y hy => mem_singleton.mp hy ▸ hrow key.lead mem_cons_self⟩
  have hacc : accepts ts (key.ofRow row) (.list [row key.lead.1]) key.types = true := by
    simp [accepts, ofRow, columns, hself]
  by_contra hfail
  have hdrop : partitionExcluded ts (.list [row key.lead.1]) cs key.types = true :=
    (any_proves_eq_true ts).mpr ⟨c, hc, hindex, v, hv, by simpa using hfail⟩
  exact Bool.eq_false_iff.mp (hkept _ hfit hacc) hdrop

variable {col : String × ColumnType T} {more : List (String × ColumnType T)}

lemma lead_of_kept_multi (hrest : key.rest = col :: more)
    (hnull : (key.ofRow row).any isNull = false) (hc : c ∈ cs) (hindex : c.keyIndex = 0)
    (hv : castKey ts c.value key.lead.2 = some v) : opHolds ts (row key.lead.1) c.op v = true := by
  obtain ⟨L, _, place, hplace⟩ := hord key.lead mem_cons_self
  have hx := hrow key.lead mem_cons_self
  have hself := compare_lead_self ts hord hrow
  let lo : List (RangeEdge (SqlValue F O)) := .value (row key.lead.1) :: key.rest.map fun _ => .min
  let hi : List (RangeEdge (SqlValue F O)) := .value (row key.lead.1) :: key.rest.map fun _ => .max
  have hfit : Fits ts dom key (.range lo hi) := by
    refine ⟨.cons hx (forall₂_open .min (fun _ => trivial) _),
      .cons hx (forall₂_open .max (fun _ => trivial) _), ?_⟩
    simp [lo, hi, hrest, compareEdgeTuples, cmpEdges, hself]
  have hacc : accepts ts (key.ofRow row) (.range lo hi) key.types = true := by
    simp only [accepts, hnull, Bool.not_false, Bool.true_and]
    rw [ofRow_of_rest hrest]
    simp [lo, hi, hrest, compareKeyToEdges, cmpValueEdge, hself]
  by_contra hfail
  have hany : cs.any (proves ts 0 key.lead.2
      (leadingRangeExcludes ts (.value (row key.lead.1)) (.value (row key.lead.1)))) = true :=
    (any_proves_eq_true ts).mpr ⟨c, hc, hindex, v, hv, leadingRangeExcludes_pinned ts hplace hx
      (hconst key.lead mem_cons_self c hc v hv) hfail⟩
  have hdrop : partitionExcluded ts (.range lo hi) cs key.types = true := by
    simp [partitionExcluded, types, lo, hi, hrest, hany]
  exact Bool.eq_false_iff.mp (hkept _ hfit hacc) hdrop

omit hconst in
lemma hash_of_kept (hrest : key.rest = []) (hc : c ∈ cs) (hindex : c.keyIndex = 0)
    (hop : c.op = .eq) (hv : castKey ts c.value key.lead.2 = some v) :
    valueHash ts [v] key.types = valueHash ts (key.ofRow row) key.types := by
  have hnullv := castKey_not_null ts hv
  -- the row's value equals the constant, so it is not `NULL` either
  have hnull : (key.ofRow row).any isNull = false := by
    have hheld := lead_of_kept_single ts hord hrow hkept hrest hc hindex hv
    rw [hop] at hheld
    cases hx : row key.lead.1 with
    | null =>
      cases v <;> simp [hx, opHolds, Types.compare, isNull] at hheld hnullv
    | _ => simp [ofRow, columns, hrest, hx, isNull]
  by_contra hne
  obtain ⟨m, hm, hmod⟩ := exists_mod_ne hne
  have hfit : Fits ts dom key (.hash m (valueHash ts (key.ofRow row) key.types % m)) := by
    refine ⟨hm, ?_⟩
    exact UInt64.mod_lt _ (by simpa [UInt64.pos_iff_ne_zero] using hm)
  have hacc : accepts ts (key.ofRow row) (.hash m (valueHash ts (key.ofRow row) key.types % m))
      key.types = true := by
    simp [accepts, hnull, hm]
  have hany : cs.any (proves ts 0 key.lead.2 fun op w => op == .eq &&
      !accepts ts [w] (.hash m (valueHash ts (key.ofRow row) key.types % m)) key.types) = true :=
    (any_proves_eq_true ts).mpr ⟨c, hc, hindex, v, hv, by simp [hop, accepts, hm, hnullv, hmod]⟩
  have hdrop : partitionExcluded ts (.hash m (valueHash ts (key.ofRow row) key.types % m)) cs
      key.types = true := by
    have htypes : key.types = [key.lead.2] := by simp [types, hrest]
    simp only [partitionExcluded, htypes, isEmpty_nil, Bool.not_true, Bool.not_false,
      Bool.true_and] at hany ⊢
    exact hany
  exact Bool.eq_false_iff.mp (hkept _ hfit hacc) hdrop

/-- Where no partition that accepts the row is excluded, the row meets the constraint on the second
column, but for a `>` at its own constant on the last. -/
lemma second_of_kept (hrest : key.rest = col :: more) (hnull : (key.ofRow row).any isNull = false)
    (hpins : PinsLeading ts key cs) (hc : c ∈ cs) (hindex : c.keyIndex = 1)
    (hv : castKey ts c.value col.2 = some v) :
    opHolds ts (row col.1) c.op v = true ∨
      (more = [] ∧ c.op = .gt ∧ ts.compare (row col.1) v = .eq) := by
  have hcol : col ∈ key.lead :: key.rest := by simp [hrest]
  obtain ⟨L, _, place, hplace⟩ := hord key.lead mem_cons_self
  obtain ⟨L', _, place', hplace'⟩ := hord col hcol
  have hx0 := hrow key.lead mem_cons_self
  have hx1 := hrow col hcol
  have hvin := hconst col hcol c hc v hv
  have hself0 := compare_lead_self ts hord hrow
  have hself1 : ts.compare (row col.1) (row col.1) = .eq := by
    rw [hplace' _ _ hx1 hx1, compare_eq_iff_eq]
  -- the constraint that pins the leading column pins it to the row's value
  have hquery : cs.any (proves ts 0 key.lead.2
      fun op w => op == .eq && cmpValueEdge ts w (.value (row key.lead.1)) == .eq) = true := by
    obtain ⟨c0, hc0, hindex0, hop0, v0, hv0⟩ := hpins
    have hheld := lead_of_kept_multi ts hord hconst hrow hkept hrest hnull hc0 hindex0 hv0
    have hvin0 := hconst key.lead mem_cons_self c0 hc0 v0 hv0
    rw [hop0, opHolds_iff ts hplace hx0 hvin0] at hheld
    refine (any_proves_eq_true ts).mpr ⟨c0, hc0, hindex0, v0, hv0, ?_⟩
    have heq : ts.compare v0 (row key.lead.1) = .eq := by
      rw [hplace _ _ hvin0 hx0, compare_eq_iff_eq]
      exact hheld.symm
    simp [hop0, cmpValueEdge, heq]
  have hpinned : compareEdgeTuples ts [.value (row key.lead.1)] [.value (row key.lead.1)] = .eq := by
    simp [compareEdgeTuples, cmpEdges, hself0]
  by_contra hfail
  cases more with
  | nil =>
    obtain ⟨hi1, hhi1, hlt1, hmiss⟩ := exists_rangeExcludes ts hplace' hx1 hvin
      fun h => hfail (h.imp_right fun hedge => ⟨rfl, hedge⟩)
    have hedges : cmpEdges ts (.value (row col.1)) hi1 = .lt := by
      cases hi1 with
      | value w => exact hlt1
      | min => exact absurd hlt1 (by simp [cmpValueEdge])
      | max => rfl
    let lo : List (RangeEdge (SqlValue F O)) := [.value (row key.lead.1), .value (row col.1)]
    let hi : List (RangeEdge (SqlValue F O)) := [.value (row key.lead.1), hi1]
    have hfit : Fits ts dom key (.range lo hi) := by
      simp only [Fits, types, hrest, lo, hi, map_cons, map_nil]
      refine ⟨.cons hx0 (.cons hx1 .nil), .cons hx0 (.cons hhi1 .nil), ?_⟩
      simp [compareEdgeTuples, show cmpEdges ts (.value _) (.value _) = .eq from hself0, hedges]
    have hacc : accepts ts (key.ofRow row) (.range lo hi) key.types = true := by
      simp only [accepts, hnull, Bool.not_false, Bool.true_and]
      rw [ofRow_of_rest hrest]
      have hfirst : cmpValueEdge ts (row key.lead.1) (.value (row key.lead.1)) = .eq := hself0
      have hnext : cmpValueEdge ts (row col.1) (.value (row col.1)) = .eq := hself1
      simp [lo, hi, compareKeyToEdges, hfirst, hnext, hlt1]
    have hany : cs.any (proves ts 1 col.2
        (rangeExcludes ts (.value (row col.1)) hi1)) = true :=
      (any_proves_eq_true ts).mpr ⟨c, hc, hindex, v, hv, hmiss⟩
    have hdrop : partitionExcluded ts (.range lo hi) cs key.types = true := by
      simp [partitionExcluded, types, lo, hi, hrest, hpinned, hquery, hany]
    exact Bool.eq_false_iff.mp (hkept _ hfit hacc) hdrop
  | cons third more =>
    have hfail' : ¬ opHolds ts (row col.1) c.op v = true := fun hok => hfail (.inl hok)
    have hmiss := leadingRangeExcludes_pinned ts hplace' hx1 hvin hfail'
    let lo : List (RangeEdge (SqlValue F O)) :=
      .value (row key.lead.1) :: .value (row col.1) :: (third :: more).map fun _ => .min
    let hi : List (RangeEdge (SqlValue F O)) :=
      .value (row key.lead.1) :: .value (row col.1) :: (third :: more).map fun _ => .max
    have hfit : Fits ts dom key (.range lo hi) := by
      simp only [Fits, types, hrest, lo, hi]
      refine ⟨.cons hx0 (.cons hx1 (forall₂_open .min (fun _ => trivial) _)),
        .cons hx0 (.cons hx1 (forall₂_open .max (fun _ => trivial) _)), ?_⟩
      simp [compareEdgeTuples, cmpEdges, hself0, hself1]
    have hacc : accepts ts (key.ofRow row) (.range lo hi) key.types = true := by
      simp only [accepts, hnull, Bool.not_false, Bool.true_and]
      rw [ofRow_of_rest hrest]
      simp [lo, hi, compareKeyToEdges, cmpValueEdge, hself0, hself1]
    have hany : cs.any (proves ts 1 col.2
        (leadingRangeExcludes ts (.value (row col.1)) (.value (row col.1)))) = true :=
      (any_proves_eq_true ts).mpr ⟨c, hc, hindex, v, hv, hmiss⟩
    have hdrop : partitionExcluded ts (.range lo hi) cs key.types = true := by
      simp [partitionExcluded, types, lo, hi, hrest, hpinned, hquery, hany]
    exact Bool.eq_false_iff.mp (hkept _ hfit hacc) hdrop

lemma held_of_kept (hnull : key.rest ≠ [] → (key.ofRow row).any isNull = false) :
    Held ts key cs row where
  lead := by
    intro c hc hindex v hv
    cases hrest : key.rest with
    | nil => exact lead_of_kept_single ts hord hrow hkept hrest hc hindex hv
    | cons col more =>
      exact lead_of_kept_multi ts hord hconst hrow hkept hrest (hnull (by simp [hrest])) hc hindex hv
  hash := fun hrest c hc hindex hop v hv => hash_of_kept ts hord hrow hkept hrest hc hindex hop hv
  second := fun col more hrest hpins c hc hindex v hv =>
    second_of_kept ts hord hconst hrow hkept hrest (hnull (by simp [hrest])) hpins hc hindex hv

end Dropped

end Keys

end NusaDb.Partition
