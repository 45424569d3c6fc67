import NusaDb.Partition.Routing

/-!
# Registering partitions

`register_partition` (`executor/ddl.rs`) checks a new bound against the strategy of its parent and
the bounds of its other partitions. Where all values are in order, two bounds that passed accept no
key in common (`accepts_disjoint`).
-/

namespace NusaDb.Partition

open List Option NusaDb.Sql NusaDb.Fallible

inductive Strategy where
  | range
  | list
  | hash
deriving DecidableEq, Repr

inductive RegisterError where
  /-- "table .. is not partitioned, so .. cannot be a partition of it" -/
  | notPartitioned (parent partition : String)
  /-- "partition .. bound does not match parent ..'s non-.. strategy" -/
  | mismatch (partition parent : String) (want : Strategy)
  /-- "partition .. range bound needs one value per key column (..)" -/
  | arity (partition : String) (columns : Nat)
  /-- A bound value does not cast to its column's type. -/
  | cast
  /-- "empty range bound specified for partition .." (`42P17`) -/
  | emptyRange (partition : String)
  /-- "partition .. would overlap existing partition .." -/
  | overlap (partition existing : String)
  /-- "partition ..: hash MODULUS must be > 0 and REMAINDER must be < MODULUS" -/
  | hashBound (partition : String)
  /-- "partition ..: every hash partition of .. must share MODULUS .." -/
  | modulus (partition parent : String) (em : UInt64)
  /-- "a DEFAULT partition is not allowed under the hash-partitioned parent .." -/
  | defaultUnderHash (parent : String)
  /-- "partition .. conflicts with the existing default partition of .." -/
  | secondDefault (partition parent : String)
deriving DecidableEq, Repr

variable {F O T : Type} (ts : Types F O T)

def castEdge (ty : ColumnType T) : RangeEdge (SqlValue F O) → Option (RangeEdge (SqlValue F O))
  | .value v => (ts.castValue v ty).map .value
  | .min => some .min
  | .max => some .max

def castEdges : List (RangeEdge (SqlValue F O)) → List (ColumnType T) →
    Option (List (RangeEdge (SqlValue F O)))
  | e :: es, ty :: tys => do
    let e ← castEdge ts ty e
    let es ← castEdges es tys
    some (e :: es)
  | _, _ => some []

def rangesDisjoint (lo hi elo ehi : List (RangeEdge (SqlValue F O))) : Bool :=
  compareEdgeTuples ts hi elo != .gt || compareEdgeTuples ts lo ehi != .lt

def overlapsRange (lo hi : List (RangeEdge (SqlValue F O))) : PartitionBound (SqlValue F O) → Bool
  | .range elo ehi => !rangesDisjoint ts lo hi elo ehi
  | _ => false

def overlapsList (values : List (SqlValue F O)) : PartitionBound (SqlValue F O) → Bool
  | .list claimed => values.any fun v => claimed.any fun x => ts.compare v x == .eq
  | _ => false

def hashClash (partition parent existing : String) (modulus remainder : UInt64) :
    PartitionBound (SqlValue F O) → Option RegisterError
  | .hash em er =>
    if em ≠ modulus then some (.modulus partition parent em)
    else if er = remainder then some (.overlap partition existing)
    else none
  | _ => none

/-- The bound of the new partition `name`, in the types of the key and checked against the
partitions that the parent has. -/
def checkBound (strategy : Strategy) (key : Key T) (existing : List (PartitionEntry (SqlValue F O)))
    (name parent : String) :
    PartitionBound (SqlValue F O) → Except RegisterError (PartitionBound (SqlValue F O))
  | .range lo hi =>
    if strategy ≠ .range then .error (.mismatch name parent .range)
    else if lo.length ≠ key.types.length ∨ hi.length ≠ key.types.length then
      .error (.arity name key.types.length)
    else
      match castEdges ts lo key.types, castEdges ts hi key.types with
      | some lo, some hi =>
        if compareEdgeTuples ts lo hi ≠ .lt then .error (.emptyRange name)
        else
          match existing.find? fun e => overlapsRange ts lo hi e.bound with
          | some e => .error (.overlap name e.table)
          | none => .ok (.range lo hi)
      | _, _ => .error .cast
  | .list values =>
    if strategy ≠ .list then .error (.mismatch name parent .list)
    else
      match values.mapM fun v => ts.castValue v key.lead.2 with
      | none => .error .cast
      | some values =>
        match existing.find? fun e => overlapsList ts values e.bound with
        | some e => .error (.overlap name e.table)
        | none => .ok (.list values)
  | .hash modulus remainder =>
    if strategy ≠ .hash then .error (.mismatch name parent .hash)
    else if modulus = 0 ∨ modulus ≤ remainder then .error (.hashBound name)
    else
      match existing.findSome? fun e => hashClash name parent e.table modulus remainder e.bound with
      | some err => .error err
      | none => .ok (.hash modulus remainder)
  | .default =>
    -- every key hashes to some partition, so a hash parent has no catch-all
    if strategy = .hash then .error (.defaultUnderHash parent)
    else if existing.any (·.bound.isDefault) then .error (.secondDefault name parent)
    else .ok .default

def registerPartition (cat : Catalog F O T) (strategy : String → Strategy) (parent name : String)
    (bound : PartitionBound (SqlValue F O)) :
    Except RegisterError (PartitionEntry (SqlValue F O)) :=
  match cat.keys parent with
  | none => .error (.notPartitioned parent name)
  | some key =>
    match checkBound ts (strategy parent) key (cat.partitionsOf parent) name parent bound with
    | .error err => .error err
    | .ok bound => .ok ⟨parent, name, bound⟩

def OfStrategy : Strategy → PartitionBound (SqlValue F O) → Prop
  | .range, .range _ _ => True
  | .list, .list _ => True
  | .hash, .hash _ _ => True
  | _, .default => True
  | _, _ => False

/-- Two bounds that the check lets stand side by side, the new one first. -/
def SideBySide : PartitionBound (SqlValue F O) → PartitionBound (SqlValue F O) → Prop
  | .range lo hi, .range elo ehi => rangesDisjoint ts lo hi elo ehi = true
  | .list values, .list claimed => ∀ v ∈ values, ∀ x ∈ claimed, ts.compare v x ≠ .eq
  | .hash modulus remainder, .hash em er => em = modulus ∧ er ≠ remainder
  | .default, .default => False
  | _, _ => True

def PartitionBound.values {V : Type} : PartitionBound V → List (RangeEdge V)
  | .range lo hi => lo ++ hi
  | .list values => values.map .value
  | _ => []

def BoundIn (dom : SqlValue F O → Prop) (bound : PartitionBound (SqlValue F O)) : Prop :=
  ∀ e ∈ bound.values, e.In dom

/-- The values that a stated bound names are in `dom` once they are cast to a type of the key. -/
def CastIn (dom : SqlValue F O → Prop) (key : Key T) (bound : PartitionBound (SqlValue F O)) : Prop :=
  ∀ e ∈ bound.values, ∀ ty ∈ key.types, ∀ e', castEdge ts ty e = some e' → e'.In dom

variable {ts} {bound : PartitionBound (SqlValue F O)}

lemma sideBySide_range {lo hi : List (RangeEdge (SqlValue F O))}
    (h : ¬overlapsRange ts lo hi bound = true) : SideBySide ts (.range lo hi) bound := by
  cases bound with
  | range elo ehi => simpa [overlapsRange, SideBySide] using h
  | list | hash | default => trivial

lemma sideBySide_list {values : List (SqlValue F O)} (h : ¬overlapsList ts values bound = true) :
    SideBySide ts (.list values) bound := by
  cases bound with
  | list claimed => simpa [overlapsList, SideBySide] using h
  | range | hash | default => trivial

variable {remainder : UInt64}

lemma sideBySide_hash {name parent existing : String} {modulus : UInt64}
    (h : hashClash name parent existing modulus remainder bound = none) :
    SideBySide ts (.hash modulus remainder) bound := by
  cases bound with
  | hash em er =>
    rw [hashClash] at h
    split_ifs at h with hm hr
    exact ⟨not_not.mp hm, hr⟩
  | range | list | default => trivial

lemma eq_default_of_isDefault (h : bound.isDefault = true) : bound = .default := by
  cases bound with
  | default => rfl
  | range | list | hash => cases h

lemma sideBySide_default (h : ¬bound.isDefault = true) : SideBySide ts .default bound := by
  cases bound with
  | default => exact h rfl
  | range | list | hash => trivial

variable {tys : List (ColumnType T)}

lemma exists_of_mem_castEdges {es es' : List (RangeEdge (SqlValue F O))}
    (h : castEdges ts es tys = some es') {e' : RangeEdge (SqlValue F O)} (he' : e' ∈ es') :
    ∃ e ∈ es, ∃ ty ∈ tys, castEdge ts ty e = some e' := by
  induction es generalizing tys es' with
  | nil =>
    cases h
    cases he'
  | cons e es ih =>
    cases tys with
    | nil =>
      cases h
      cases he'
    | cons ty tys =>
      simp only [castEdges, bind_eq_bind, bind_eq_some_iff, some.injEq] at h
      obtain ⟨d, hd, ds, hds, rfl⟩ := h
      rcases mem_cons.mp he' with rfl | he'
      · exact ⟨e, mem_cons_self, ty, mem_cons_self, hd⟩
      · obtain ⟨e, he, ty, hty, hcast⟩ := ih hds he'
        exact ⟨e, mem_cons_of_mem _ he, ty, mem_cons_of_mem _ hty, hcast⟩

variable {strategy : Strategy}

/-- A bound that passes is of the strategy and overlaps none of its siblings. -/
lemma checkBound_ok {key : Key T} {existing : List (PartitionEntry (SqlValue F O))}
    {name parent : String} {bound' : PartitionBound (SqlValue F O)}
    (h : checkBound ts strategy key existing name parent bound = .ok bound') :
    OfStrategy strategy bound' ∧ (∀ e ∈ existing, SideBySide ts bound' e.bound) ∧
      ∀ {dom : SqlValue F O → Prop}, CastIn ts dom key bound → BoundIn dom bound' := by
  cases bound with
  | range lo hi =>
    simp only [checkBound] at h
    split_ifs at h with hs hlen
    split at h
    next lo' hi' hlo hhi =>
      split_ifs at h
      split at h
      next => cases h
      next hnone =>
        cases h
        cases not_not.mp hs
        refine ⟨trivial, fun e he => sideBySide_range (find?_eq_none.mp hnone e he), ?_⟩
        intro dom hcast e he
        rcases mem_append.mp he with he | he
        · obtain ⟨d, hd, ty, hty, hde⟩ := exists_of_mem_castEdges hlo he
          exact hcast d (mem_append_left _ hd) ty hty e hde
        · obtain ⟨d, hd, ty, hty, hde⟩ := exists_of_mem_castEdges hhi he
          exact hcast d (mem_append_right _ hd) ty hty e hde
    next => cases h
  | list values =>
    simp only [checkBound] at h
    split_ifs at h with hs
    split at h
    next => cases h
    next values' hvalues =>
      split at h
      next => cases h
      next hnone =>
        cases h
        cases not_not.mp hs
        refine ⟨trivial, fun e he => sideBySide_list (find?_eq_none.mp hnone e he), ?_⟩
        intro dom hcast e he
        obtain ⟨v', hv', rfl⟩ := mem_map.mp he
        obtain ⟨v, hv, hvv⟩ := exists_of_mem_mapM hvalues hv'
        refine hcast (.value v) (mem_map_of_mem hv) key.lead.2 mem_cons_self _ ?_
        rw [castEdge, hvv]
        rfl
  | hash modulus remainder =>
    simp only [checkBound] at h
    split_ifs at h with hs
    split at h
    next => cases h
    next hnone =>
      cases h
      cases not_not.mp hs
      refine ⟨trivial, fun e he => sideBySide_hash (findSome?_eq_none_iff.mp hnone e he), ?_⟩
      intro dom _ e he
      cases he
  | default =>
    simp only [checkBound] at h
    split_ifs at h with hs hany
    cases h
    refine ⟨by cases strategy <;> trivial, fun e he => sideBySide_default fun hdefault => ?_, ?_⟩
    · exact hany (any_eq_true.mpr ⟨e, he, hdefault⟩)
    · intro dom _ e he
      cases he

lemma compareKeyToEdges_eq (vs : List (SqlValue F O)) (es : List (RangeEdge (SqlValue F O))) :
    compareKeyToEdges ts vs es = compareEdgeTuples ts (vs.map .value) es := by
  induction vs generalizing es with
  | nil => cases es <;> rfl
  | cons v vs ih =>
    cases es with
    | nil => simp [compareKeyToEdges, compareEdgeTuples]
    | cons e es =>
      have hhead : cmpValueEdge ts v e = cmpEdges ts (.value v) e := by cases e <;> rfl
      rw [compareKeyToEdges, map_cons, compareEdgeTuples, hhead, ih]

section Ordered

variable {L : Type} [LinearOrder L] {dom : SqlValue F O → Prop} {place : SqlValue F O → L}
  (hplace : ∀ a b, dom a → dom b → ts.compare a b = Ord.compare (place a) (place b))
include hplace

lemma compareEdgeTuples_place :
    ∀ {as bs : List (RangeEdge (SqlValue F O))}, (∀ a ∈ as, a.In dom) → (∀ b ∈ bs, b.In dom) →
      (compareEdgeTuples ts as bs = .lt ↔ as.map (edgePlace place) < bs.map (edgePlace place)) ∧
      (compareEdgeTuples ts as bs = .gt ↔ bs.map (edgePlace place) < as.map (edgePlace place)) := by
  intro as
  induction as with
  | nil =>
    intro bs _ _
    cases bs <;> simp [compareEdgeTuples, Nat.compare_eq_lt, Nat.compare_eq_gt]
  | cons a as ih =>
    intro bs has hbs
    cases bs with
    | nil => simp [compareEdgeTuples, Nat.compare_eq_lt, Nat.compare_eq_gt]
    | cons b bs =>
      have hhead := cmpEdges_place ts hplace (has a mem_cons_self) (hbs b mem_cons_self)
      have hrest := ih (fun a' h => has a' (mem_cons_of_mem a h))
        (fun b' h => hbs b' (mem_cons_of_mem b h))
      rw [map_cons, map_cons, cons_lt_cons_iff, cons_lt_cons_iff, compareEdgeTuples]
      rcases lt_trichotomy (edgePlace place a) (edgePlace place b) with hlt | heq | hgt
      · rw [hhead, compare_lt_iff_lt.mpr hlt]
        simp [hlt, hlt.ne', hlt.not_gt]
      · rw [hhead, compare_eq_iff_eq.mpr heq, heq]
        simpa using hrest
      · rw [hhead, compare_gt_iff_gt.mpr hgt]
        simp [hgt, hgt.ne', hgt.not_gt]

variable {vs : List (SqlValue F O)} {tys : List (ColumnType T)}

lemma not_accepts_ranges {lo hi elo ehi : List (RangeEdge (SqlValue F O))}
    (hin : BoundIn dom (.range lo hi)) (hein : BoundIn dom (.range elo ehi))
    (hdisjoint : rangesDisjoint ts lo hi elo ehi = true) (hvs : ∀ v ∈ vs, dom v)
    (h : accepts ts vs (.range lo hi) tys) (h' : accepts ts vs (.range elo ehi) tys) : False := by
  have hkey : ∀ e ∈ vs.map RangeEdge.value, e.In dom := by
    intro e he
    obtain ⟨v, hv, rfl⟩ := mem_map.mp he
    exact hvs v hv
  have hlo : ∀ e ∈ lo, e.In dom := fun e he => hin e (mem_append_left _ he)
  have hhi : ∀ e ∈ hi, e.In dom := fun e he => hin e (mem_append_right _ he)
  have helo : ∀ e ∈ elo, e.In dom := fun e he => hein e (mem_append_left _ he)
  have hehi : ∀ e ∈ ehi, e.In dom := fun e he => hein e (mem_append_right _ he)
  simp only [accepts, compareKeyToEdges_eq, Bool.and_eq_true, bne_iff_ne, beq_iff_eq] at h h'
  obtain ⟨⟨-, hge⟩, hlt⟩ := h
  obtain ⟨⟨-, hge'⟩, hlt'⟩ := h'
  rw [ne_eq, (compareEdgeTuples_place hplace hkey hlo).1, not_lt] at hge
  rw [ne_eq, (compareEdgeTuples_place hplace hkey helo).1, not_lt] at hge'
  rw [(compareEdgeTuples_place hplace hkey hhi).1] at hlt
  rw [(compareEdgeTuples_place hplace hkey hehi).1] at hlt'
  rw [rangesDisjoint, Bool.or_eq_true, bne_iff_ne, bne_iff_ne] at hdisjoint
  rcases hdisjoint with hbelow | habove
  · rw [ne_eq, (compareEdgeTuples_place hplace hhi helo).2, not_lt] at hbelow
    exact absurd (hlt.trans_le (hbelow.trans hge')) (lt_irrefl _)
  · rw [ne_eq, (compareEdgeTuples_place hplace hlo hehi).1, not_lt] at habove
    exact absurd (hlt'.trans_le (habove.trans hge)) (lt_irrefl _)

lemma not_accepts_lists {values claimed : List (SqlValue F O)} (hin : BoundIn dom (.list values))
    (hcin : BoundIn dom (.list claimed)) (hnone : ∀ v ∈ values, ∀ x ∈ claimed, ts.compare v x ≠ .eq)
    (hvs : ∀ v ∈ vs, dom v) (h : accepts ts vs (.list values) tys)
    (h' : accepts ts vs (.list claimed) tys) : False := by
  cases vs with
  | nil => cases h
  | cons k ks =>
    simp only [accepts, List.any_eq_true, beq_iff_eq] at h h'
    obtain ⟨v, hv, hkv⟩ := h
    obtain ⟨x, hx, hkx⟩ := h'
    have hk := hvs k mem_cons_self
    have hvin : dom v := hin (.value v) (mem_map_of_mem hv)
    have hxin : dom x := hcin (.value x) (mem_map_of_mem hx)
    rw [hplace k v hk hvin, compare_eq_iff_eq] at hkv
    rw [hplace k x hk hxin, compare_eq_iff_eq] at hkx
    refine hnone v hv x hx ?_
    rw [hplace v x hvin hxin, compare_eq_iff_eq]
    exact hkv.symm.trans hkx

end Ordered

variable {vs : List (SqlValue F O)}

lemma not_accepts_hashes {modulus er : UInt64} (hne : er ≠ remainder)
    (h : accepts ts vs (.hash modulus remainder) tys) (h' : accepts ts vs (.hash modulus er) tys) :
    False := by
  simp only [accepts, Bool.and_eq_true, beq_iff_eq] at h h'
  exact hne (h'.2.symm.trans h.2)

lemma accepts_disjoint {dom : SqlValue F O → Prop} (hordered : Ordered ts.compare dom)
    {other : PartitionBound (SqlValue F O)} (hbound : OfStrategy strategy bound)
    (hother : OfStrategy strategy other) (hin : BoundIn dom bound) (hoin : BoundIn dom other)
    (hside : SideBySide ts bound other) (hvs : ∀ v ∈ vs, dom v) (h : accepts ts vs bound tys)
    (h' : accepts ts vs other tys) : False := by
  obtain ⟨L, _, place, hplace⟩ := hordered
  -- a catch-all accepts no key itself, and the strategy excludes bounds of two kinds
  cases bound with
  | default => cases h
  | range lo hi =>
    cases strategy <;> cases other <;> try contradiction
    exact not_accepts_ranges hplace hin hoin hside hvs h h'
  | list values =>
    cases strategy <;> cases other <;> try contradiction
    exact not_accepts_lists hplace hin hoin hside hvs h h'
  | hash modulus remainder =>
    cases strategy <;> cases other <;> try contradiction
    obtain ⟨rfl, hne⟩ := hside
    exact not_accepts_hashes hne h h'

end NusaDb.Partition
