import NusaDb.Sql.Value

/-!
# Partition bounds

A bound and the keys it holds (`partition.rs`): a range of edge tuples compared lexicographically, a
set of values, or a residue of the key's hash. Where the values of a key column are in order, an
edge takes a place in that order too (`edgePlace`), and each comparison is one of places.
-/

namespace NusaDb.Partition

open NusaDb.Sql WithBot

inductive RangeEdge (V : Type) where
  | value (v : V)
  | min
  | max
deriving DecidableEq, Repr

inductive PartitionBound (V : Type) where
  | range (lo hi : List (RangeEdge V))
  | list (values : List V)
  | hash (modulus remainder : UInt64)
  | default
deriving DecidableEq

def PartitionBound.isDefault {V : Type} : PartitionBound V → Bool
  | .default => true
  | _ => false

variable {F O T : Type} (ts : Types F O T)

def cmpValueEdge (v : SqlValue F O) : RangeEdge (SqlValue F O) → Ordering
  | .min => .gt
  | .max => .lt
  | .value x => ts.compare v x

/-- `compare_key_to_edges`: the first element that differs decides, then the lengths. -/
def compareKeyToEdges : List (SqlValue F O) → List (RangeEdge (SqlValue F O)) → Ordering
  | k :: ks, e :: es =>
    match cmpValueEdge ts k e with
    | .eq => compareKeyToEdges ks es
    | c => c
  | ks, es => Ord.compare ks.length es.length

def cmpEdges : RangeEdge (SqlValue F O) → RangeEdge (SqlValue F O) → Ordering
  | .min, .min => .eq
  | .max, .max => .eq
  | .min, _ => .lt
  | _, .max => .lt
  | .max, _ => .gt
  | _, .min => .gt
  | .value v, .value w => ts.compare v w

def compareEdgeTuples : List (RangeEdge (SqlValue F O)) → List (RangeEdge (SqlValue F O)) → Ordering
  | a :: as, b :: bs =>
    match cmpEdges ts a b with
    | .eq => compareEdgeTuples as bs
    | c => c
  | as, bs => Ord.compare as.length bs.length

/-- `value_hash`: FNV-1a over the tuple's row encoding. -/
def valueHash (key : List (SqlValue F O)) (keyTys : List (ColumnType T)) : UInt64 :=
  ((ts.encode key keyTys).getD []).foldl
    (fun hash b => (hash ^^^ UInt64.ofNat b.val) * 0x00000100000001b3) 0xcbf29ce484222325

def isNull : SqlValue F O → Bool
  | .null => true
  | _ => false

/-- `accepts`: whether the key tuple belongs in the bound. The catch-all takes none directly. -/
def accepts (key : List (SqlValue F O)) (bound : PartitionBound (SqlValue F O))
    (keyTys : List (ColumnType T)) : Bool :=
  match bound with
  | .range lo hi =>
    !key.any isNull && compareKeyToEdges ts key lo != .lt && compareKeyToEdges ts key hi == .lt
  | .list values =>
    match key with
    | k :: _ => values.any fun v => ts.compare k v == .eq
    | [] => false
  | .hash modulus remainder =>
    !key.any isNull && modulus != 0 && valueHash ts key keyTys % modulus == remainder
  | .default => false

variable {k : SqlValue F O} {e : RangeEdge (SqlValue F O)}

lemma compareKeyToEdges_of_eq (h : cmpValueEdge ts k e = .eq) (ks : List (SqlValue F O))
    (es : List (RangeEdge (SqlValue F O))) :
    compareKeyToEdges ts (k :: ks) (e :: es) = compareKeyToEdges ts ks es := by
  simp only [compareKeyToEdges, h]

lemma compareKeyToEdges_of_ne (h : cmpValueEdge ts k e ≠ .eq) (ks : List (SqlValue F O))
    (es : List (RangeEdge (SqlValue F O))) :
    compareKeyToEdges ts (k :: ks) (e :: es) = cmpValueEdge ts k e := by
  cases hc : cmpValueEdge ts k e with
  | eq => exact absurd hc h
  | lt | gt => simp only [compareKeyToEdges, hc]

variable {ks : List (SqlValue F O)} {es : List (RangeEdge (SqlValue F O))}

lemma cmpValueEdge_ne_lt (h : compareKeyToEdges ts (k :: ks) (e :: es) ≠ .lt) :
    cmpValueEdge ts k e ≠ .lt := by
  intro hlt
  rw [compareKeyToEdges_of_ne ts (by rw [hlt]; decide)] at h
  exact h hlt

lemma cmpValueEdge_ne_gt (h : compareKeyToEdges ts (k :: ks) (e :: es) = .lt) :
    cmpValueEdge ts k e ≠ .gt := by
  intro hgt
  rw [compareKeyToEdges_of_ne ts (by rw [hgt]; decide), hgt] at h
  exact absurd h (by decide)

def RangeEdge.In {V : Type} (dom : V → Prop) : RangeEdge V → Prop
  | .value v => dom v
  | _ => True

def edgePlace {V L : Type} (place : V → L) : RangeEdge V → WithBot (WithTop L)
  | .value v => ((place v : WithTop L) : WithBot (WithTop L))
  | .min => ⊥
  | .max => ((⊤ : WithTop L) : WithBot (WithTop L))

section Places

variable {L : Type} [LinearOrder L] {dom : SqlValue F O → Prop} {place : SqlValue F O → L}

lemma compare_place (x y : L) :
    Ord.compare ((x : WithTop L) : WithBot (WithTop L)) ((y : WithTop L) : WithBot (WithTop L)) =
      Ord.compare x y := by
  rw [← cmp_eq_compare, ← cmp_eq_compare, coe_strictMono.cmp_map_eq,
    WithTop.coe_strictMono.cmp_map_eq]

variable (hplace : ∀ a b, dom a → dom b → ts.compare a b = Ord.compare (place a) (place b))
include hplace

lemma cmpValueEdge_place {v : SqlValue F O} {e : RangeEdge (SqlValue F O)} (hv : dom v)
    (he : e.In dom) :
    cmpValueEdge ts v e = Ord.compare (edgePlace place (.value v)) (edgePlace place e) := by
  cases e with
  | value x => exact (hplace v x hv he).trans (compare_place _ _).symm
  | min => exact (compare_gt_iff_gt.mpr (bot_lt_coe _)).symm
  | max =>
    exact (compare_lt_iff_lt.mpr (coe_lt_coe.mpr (WithTop.coe_lt_top _))).symm

lemma cmpEdges_place {a b : RangeEdge (SqlValue F O)} (ha : a.In dom) (hb : b.In dom) :
    cmpEdges ts a b = Ord.compare (edgePlace place a) (edgePlace place b) := by
  cases a with
  | value v =>
    cases b with
    | value w => exact (hplace v w ha hb).trans (compare_place _ _).symm
    | min => exact (compare_gt_iff_gt.mpr (bot_lt_coe _)).symm
    | max => exact cmpValueEdge_place ts hplace ha (e := .max) trivial
  | min =>
    cases b with
    | value | max => exact (compare_lt_iff_lt.mpr (bot_lt_coe _)).symm
    | min => exact (compare_eq_iff_eq.mpr rfl).symm
  | max =>
    cases b with
    | value w =>
      exact (compare_gt_iff_gt.mpr (coe_lt_coe.mpr (WithTop.coe_lt_top _))).symm
    | min => exact (compare_gt_iff_gt.mpr (bot_lt_coe _)).symm
    | max => exact (compare_eq_iff_eq.mpr rfl).symm

end Places

end NusaDb.Partition
