import Mathlib.Data.List.Basic
import Mathlib.Order.Basic

/-!
# Version stamps, read views and the undo arena

The newest version of a row is its leaf entry: a `RowMeta` header in front of the tuple. Superseded
versions are parked in the undo arena; a reader walks to older versions and takes the first one
whose creator its `ReadView` sees. `NO_UNDO` (`u64::MAX`) is `none` here; `NO_XMAX` stays `0`, since
transaction ids start at `1`.
-/

namespace NusaDb

open List

abbrev TxnId := Nat
abbrev TableId := Nat
abbrev IndexId := Nat
abbrev RowId := Nat
abbrev Byte := Fin 256
abbrev Tuple := List Byte

def noXmax : TxnId := 0

structure RowMeta where
  xmin : TxnId
  xmax : TxnId
  undo : Option Nat
  deriving DecidableEq, Repr

def RowMeta.fresh (xmin : TxnId) : RowMeta := ⟨xmin, noXmax, none⟩

/-- A version: header and tuple. It is the decoded form of a leaf value and of an arena slot. -/
structure Version where
  header : RowMeta
  tuple : Tuple
  deriving DecidableEq, Repr

/-- The undo arena: `none` is a slot freed by purge. -/
abbrev Arena := List (Option Version)

def Arena.slot (arena : Arena) (i : Nat) : Option Version := (arena[i]?).join

/-- Which other transactions' effects a transaction may observe. -/
structure ReadView where
  own : TxnId
  active : List TxnId
  horizon : TxnId
  deriving DecidableEq, Repr

/-- Whether a version stamp is visible: the observer's own, or of a transaction that began before
the horizon and had ended when the view was taken. -/
def ReadView.sees (v : ReadView) (txn : TxnId) : Bool :=
  txn == v.own || (decide (txn < v.horizon) && !v.active.contains txn)

/-- Which version of a row a view sees: the leaf's own or an older one with its tuple. -/
inductive Visible where
  | head
  | arena (tuple : Tuple)
  deriving DecidableEq, Repr

/-- The loop of `visibleVersion`, from the version with header `m`, reported as `here`. A chain
never repeats a slot, so `arena.length + 1` rounds reach its end. -/
def visibleLoop (arena : Arena) (view : ReadView) : Nat → RowMeta → Visible → Option Visible
  | 0, _, _ => none
  | fuel + 1, m, here =>
    if view.sees m.xmin then
      -- The newest version whose creator the view sees: its xmax decides.
      if m.xmax ≠ noXmax ∧ view.sees m.xmax then none else some here
    else
      match m.undo with
      | none => none
      | some i =>
        match arena.slot i with
        | none => none
        | some prev => visibleLoop arena view fuel prev.header (.arena prev.tuple)

/-- Resolve which version `view` sees from the leaf header and the arena. -/
def visibleVersion (leaf : RowMeta) (arena : Arena) (view : ReadView) : Option Visible :=
  visibleLoop arena view (arena.length + 1) leaf .head

def visibleTuple (leaf : Version) (arena : Arena) (view : ReadView) : Option Tuple :=
  match visibleVersion leaf.header arena view with
  | none => none
  | some .head => some leaf.tuple
  | some (.arena tuple) => some tuple

namespace Arena

@[simp] lemma slot_nil (i : Nat) : slot [] i = none := by
  simp [slot]

lemma slot_set (arena : Arena) (i j : Nat) (v : Option Version) :
    slot (arena.set i v) j = if i = j ∧ i < arena.length then v else slot arena j := by
  unfold slot
  by_cases hij : i = j
  · subst hij
    by_cases hi : i < arena.length
    · simp [hi]
    · simp [hi]
  · simp [hij]

lemma slot_append_singleton (arena : Arena) (v : Option Version) (j : Nat) :
    slot (arena ++ [v]) j = if j = arena.length then v else slot arena j := by
  unfold slot
  rw [getElem?_append]
  by_cases hlt : j < arena.length
  · rw [if_pos hlt, if_neg (by omega)]
  by_cases heq : j = arena.length
  · simp [heq]
  have h1 : ([v] : List (Option Version))[j - arena.length]? = none := by
    apply getElem?_eq_none
    simp only [length_singleton]
    omega
  have h2 : arena[j]? = none := getElem?_eq_none (by omega)
  simp [heq, h1, h2]

lemma lt_length_of_slot {arena : Arena} {i : Nat} {v : Version}
    (h : slot arena i = some v) : i < arena.length := by
  by_contra hge
  have hnone : arena[i]? = none := getElem?_eq_none (by omega)
  simp [slot, hnone] at h

end Arena

lemma ReadView.sees_own (v : ReadView) : v.sees v.own = true := by
  simp [ReadView.sees]

lemma ReadView.sees_iff {v : ReadView} {x : TxnId} :
    v.sees x = true ↔ x = v.own ∨ (x < v.horizon ∧ x ∉ v.active) := by
  simp [ReadView.sees]

end NusaDb
