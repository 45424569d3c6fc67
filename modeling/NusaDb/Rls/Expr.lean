import NusaDb.Lib.Fallible
import NusaDb.Sql.Value

/-!
# Predicates and constant folding

The typed expressions of a filter, their evaluation (`executor/eval.rs`) and constant folding
(`planner/fold.rs`). `AND`, `OR`, comparisons and `BETWEEN` are opened; the value of any other node
comes from `Evaluator`. `AND` and `OR` compute both operands, so an error on either side is theirs;
folding may lose an error, never a value (`foldExpr_refines`).
-/

namespace NusaDb.Rls

open List NusaDb.Sql Fallible Bool Except

inductive BinaryOp (X : Type) where
  | and
  | or
  | eq
  | notEq
  | lt
  | ltEq
  | gt
  | gtEq
  | other (op : X)
deriving DecidableEq, Repr

inductive TypedExpr (F O X N : Type) where
  | literal (value : SqlValue F O)
  | column (ordinal : Nat)
  | binary (left : TypedExpr F O X N) (op : BinaryOp X) (right : TypedExpr F O X N)
  | between (expr low high : TypedExpr F O X N) (negated symmetric : Bool)
  | node (kind : N) (args : List (TypedExpr F O X N))

abbrev Row (F O : Type) := List (SqlValue F O)

/-- An evaluation that gave a value gives the same value after the change. -/
def Refines {E V : Type} (before after : Except E V) : Prop := ∀ v, before = .ok v → after = .ok v

lemma Refines.refl {E V : Type} (x : Except E V) : Refines x x := fun _ h => h

def isBoolean {F O : Type} : SqlValue F O → Bool
  | .null => true
  | .bool _ => true
  | _ => false

def isBoolType {T : Type} : ColumnType T → Bool
  | .bool => true
  | _ => false

/-- The parts of the executor that a predicate's value rests on. -/
structure Evaluator (F O T X N E : Type) where
  types : Types F O T
  /-- The arms of `apply_binary` for the operators not opened here. -/
  applyOther : X → SqlValue F O → SqlValue F O → Except E (SqlValue F O)
  /-- The value of a node from what its operands give. -/
  apply : N → List (Except E (SqlValue F O)) → Except E (SqlValue F O)
  noColumn : Nat → E
  foldable : N → Bool
  /-- The values of a type, `NULL` apart. -/
  hasType : ColumnType T → SqlValue F O → Prop
  hasType_bool : ∀ ty v, isBoolType ty → hasType ty v → isBoolean v
  /-- The operators and the nodes of type `BOOL`. -/
  boolOp : X → Bool
  boolNode : N → Bool
  applyOther_bool : ∀ op l r v, boolOp op → applyOther op l r = .ok v → isBoolean v
  apply_bool : ∀ kind args v, boolNode kind → apply kind args = .ok v → isBoolean v
  /-- A node that has a value did not use the operands that raised an error. -/
  apply_refines : ∀ kind args args', List.Forall₂ Refines args args' →
    Refines (apply kind args) (apply kind args')

structure Column (T : Type) where
  ty : ColumnType T
  nullable : Bool

namespace TypedExpr

variable {F O X N : Type}

@[elab_as_elim]
lemma rec_on_operands {P : TypedExpr F O X N → Prop} (e : TypedExpr F O X N)
    (literal : ∀ value, P (.literal value)) (column : ∀ ordinal, P (.column ordinal))
    (binary : ∀ left op right, P left → P right → P (.binary left op right))
    (between : ∀ expr low high negated symmetric, P expr → P low → P high →
      P (.between expr low high negated symmetric))
    (node : ∀ kind args, (∀ arg ∈ args, P arg) → P (.node kind args)) : P e :=
  @TypedExpr.rec F O X N P (fun args => ∀ arg ∈ args, P arg) literal column
    (fun left op right hleft hright => binary left op right hleft hright)
    (fun expr low high negated symmetric hexpr hlow hhigh =>
      between expr low high negated symmetric hexpr hlow hhigh)
    (fun kind args hargs => node kind args hargs)
    (fun _ h => absurd h not_mem_nil)
    (fun _ _ hhead htail _ h => (mem_cons.mp h).elim (fun h => h ▸ hhead) (htail _))
    e

end TypedExpr

variable {F O T X N E : Type} (ev : Evaluator F O T X N E)

/-- `apply_and`: `FALSE` dominates, `NULL` unless both are `TRUE`. -/
def applyAnd : SqlValue F O → SqlValue F O → SqlValue F O
  | .bool false, _ => .bool false
  | _, .bool false => .bool false
  | .bool true, .bool true => .bool true
  | _, _ => .null

/-- `apply_or`: `TRUE` dominates, `NULL` unless both are `FALSE`. -/
def applyOr : SqlValue F O → SqlValue F O → SqlValue F O
  | .bool true, _ => .bool true
  | _, .bool true => .bool true
  | .bool false, .bool false => .bool false
  | _, _ => .null

/-- `apply_comparison`, with the test the operator makes on the ordering. -/
def applyComparison (test : Ordering → Bool) (left right : SqlValue F O) : SqlValue F O :=
  match left, right with
  | .null, _ => .null
  | _, .null => .null
  | l, r => .bool (test (ev.types.compare l r))

def applyBinary (op : BinaryOp X) (left right : SqlValue F O) : Except E (SqlValue F O) :=
  match op with
  | .and => .ok (applyAnd left right)
  | .or => .ok (applyOr left right)
  | .eq => .ok (applyComparison ev (· == .eq) left right)
  | .notEq => .ok (applyComparison ev (· != .eq) left right)
  | .lt => .ok (applyComparison ev (· == .lt) left right)
  | .ltEq => .ok (applyComparison ev (· != .gt) left right)
  | .gt => .ok (applyComparison ev (· == .gt) left right)
  | .gtEq => .ok (applyComparison ev (· != .lt) left right)
  | .other op => ev.applyOther op left right

def applyBetween (negated symmetric : Bool) (v l h : SqlValue F O) : SqlValue F O :=
  match v, l, h with
  | .null, _, _ => .null
  | _, .null, _ => .null
  | _, _, .null => .null
  | v, l, h =>
    let (l, h) := if symmetric && ev.types.compare l h == .gt then (h, l) else (l, h)
    .bool (xor (ev.types.compare v l != .lt && ev.types.compare v h != .gt) negated)

mutual

/-- `eval::eval`: both operands of a binary operator are evaluated, `AND` and `OR` included. -/
def eval (row : Row F O) : TypedExpr F O X N → Except E (SqlValue F O)
  | .literal value => .ok value
  | .column ordinal =>
    match row[ordinal]? with
    | some value => .ok value
    | none => .error (ev.noColumn ordinal)
  | .binary left op right => do
    let l ← eval row left
    let r ← eval row right
    applyBinary ev op l r
  | .between expr low high negated symmetric => do
    let v ← eval row expr
    let l ← eval row low
    let h ← eval row high
    .ok (applyBetween ev negated symmetric v l h)
  | .node kind args => ev.apply kind (evalAll row args)

def evalAll (row : Row F O) : List (TypedExpr F O X N) → List (Except E (SqlValue F O))
  | [] => []
  | arg :: args => eval row arg :: evalAll row args

end

lemma evalAll_eq_map (row : Row F O) (args : List (TypedExpr F O X N)) :
    evalAll ev row args = args.map (eval ev row) := by
  induction args with
  | nil => rfl
  | cons arg args ih => rw [evalAll, ih, map_cons]

variable {row : Row F O} {v : SqlValue F O}

lemma eval_binary_eq_ok {left right : TypedExpr F O X N} {op : BinaryOp X} :
    eval ev row (.binary left op right) = .ok v ↔
      ∃ l r, eval ev row left = .ok l ∧ eval ev row right = .ok r ∧ applyBinary ev op l r = .ok v := by
  rw [eval, bind_eq_ok]
  constructor
  · rintro ⟨l, hl, h⟩
    obtain ⟨r, hr, h⟩ := bind_eq_ok.mp h
    exact ⟨l, r, hl, hr, h⟩
  · rintro ⟨l, r, hl, hr, h⟩
    exact ⟨l, hl, bind_eq_ok.mpr ⟨r, hr, h⟩⟩

lemma eval_between_eq_ok {expr low high : TypedExpr F O X N} {negated symmetric : Bool} :
    eval ev row (.between expr low high negated symmetric) = .ok v ↔
      ∃ x l h, eval ev row expr = .ok x ∧ eval ev row low = .ok l ∧ eval ev row high = .ok h ∧
        applyBetween ev negated symmetric x l h = v := by
  rw [eval, bind_eq_ok]
  constructor
  · rintro ⟨x, hx, hrest⟩
    obtain ⟨l, hl, hrest⟩ := bind_eq_ok.mp hrest
    obtain ⟨h, hh, hv⟩ := bind_eq_ok.mp hrest
    exact ⟨x, l, h, hx, hl, hh, ok.inj hv⟩
  · rintro ⟨x, l, h, hx, hl, hh, rfl⟩
    exact ⟨x, hx, bind_eq_ok.mpr ⟨l, hl, bind_eq_ok.mpr ⟨h, hh, rfl⟩⟩⟩

def isBool (columns : List (Column T)) : TypedExpr F O X N → Bool
  | .literal value => isBoolean value
  | .column ordinal => columns[ordinal]?.any fun c => isBoolType c.ty
  | .binary _ (.other op) _ => ev.boolOp op
  | .binary _ _ _ => true
  | .between .. => true
  | .node kind _ => ev.boolNode kind

def boolOperands (columns : List (Column T)) : TypedExpr F O X N → Bool
  | .binary left .and right => isBool ev columns left && isBool ev columns right
  | .binary left .or right => isBool ev columns left && isBool ev columns right
  | _ => true

mutual

def wellTyped (columns : List (Column T)) : TypedExpr F O X N → Bool
  | .literal _ => true
  | .column _ => true
  | .binary left op right =>
    wellTyped columns left && wellTyped columns right &&
      boolOperands ev columns (.binary left op right)
  | .between expr low high _ _ =>
    wellTyped columns expr && wellTyped columns low && wellTyped columns high
  | .node _ args => allWellTyped columns args

def allWellTyped (columns : List (Column T)) : List (TypedExpr F O X N) → Bool
  | [] => true
  | arg :: args => wellTyped columns arg && allWellTyped columns args

end

/-- The cells of the row are `NULL` or of their columns' types. -/
def RowTyped (columns : List (Column T)) (row : Row F O) : Prop :=
  ∀ (i : Nat) (c : Column T) (v : SqlValue F O), columns[i]? = some c → row[i]? = some v →
    v = .null ∨ ev.hasType c.ty v

lemma RowTyped.nil (columns : List (Column T)) : RowTyped ev columns [] := by
  intro i c v _ h
  cases h

lemma isBoolean_applyAnd (l r : SqlValue F O) : isBoolean (applyAnd l r) := by
  unfold applyAnd
  split <;> rfl

lemma isBoolean_applyOr (l r : SqlValue F O) : isBoolean (applyOr l r) := by
  unfold applyOr
  split <;> rfl

lemma isBoolean_applyComparison (test : Ordering → Bool) (l r : SqlValue F O) :
    isBoolean (applyComparison ev test l r) := by
  unfold applyComparison
  split <;> rfl

lemma isBoolean_applyBetween (negated symmetric : Bool) (v l h : SqlValue F O) :
    isBoolean (applyBetween ev negated symmetric v l h) := by
  unfold applyBetween
  split <;> rfl

variable {columns : List (Column T)} {e : TypedExpr F O X N}

lemma isBoolean_of_isBool (hrow : RowTyped ev columns row) (he : isBool ev columns e)
    (hv : eval ev row e = .ok v) : isBoolean v := by
  cases e with
  | literal value =>
    cases hv
    exact he
  | column ordinal =>
    obtain ⟨c, hc, hty⟩ := (Option.any_eq_true _ _).mp he
    rw [eval] at hv
    rcases hcell : row[ordinal]? with _ | w <;> rw [hcell] at hv
    · cases hv
    cases ok.inj hv
    rcases hrow ordinal c v hc hcell with rfl | hv
    · rfl
    · exact ev.hasType_bool c.ty v hty hv
  | binary left op right =>
    obtain ⟨l, r, -, -, happly⟩ := (eval_binary_eq_ok ev).mp hv
    cases op with
    | other op => exact ev.applyOther_bool op l r v he happly
    | and => exact ok.inj happly ▸ isBoolean_applyAnd l r
    | or => exact ok.inj happly ▸ isBoolean_applyOr l r
    | eq | notEq | lt | ltEq | gt | gtEq =>
      exact ok.inj happly ▸ isBoolean_applyComparison ev _ l r
  | between expr low high negated symmetric =>
    obtain ⟨x, l, h, -, -, -, rfl⟩ := (eval_between_eq_ok ev).mp hv
    exact isBoolean_applyBetween ev negated symmetric x l h
  | node kind args => exact ev.apply_bool kind (evalAll ev row args) v he hv

mutual

/-- `is_foldable_constant`: literals under pure operators. -/
def isFoldableConstant : TypedExpr F O X N → Bool
  | .literal _ => true
  | .column _ => false
  | .binary left _ right => isFoldableConstant left && isFoldableConstant right
  | .between expr low high _ _ =>
    isFoldableConstant expr && isFoldableConstant low && isFoldableConstant high
  | .node kind args => ev.foldable kind && allFoldableConstant args

def allFoldableConstant : List (TypedExpr F O X N) → Bool
  | [] => true
  | arg :: args => isFoldableConstant arg && allFoldableConstant args

end

def asBool : TypedExpr F O X N → Option Bool
  | .literal (.bool b) => some b
  | _ => none

/-- `simplify_bool`: an `AND` or `OR` with a literal operand. -/
def simplifyBool (node : TypedExpr F O X N) : TypedExpr F O X N :=
  match node with
  | .binary left .and right =>
    if asBool left = some false ∨ asBool right = some false then .literal (.bool false)
    else if asBool left = some true then right
    else if asBool right = some true then left
    else node
  | .binary left .or right =>
    if asBool left = some true ∨ asBool right = some true then .literal (.bool true)
    else if asBool left = some false then right
    else if asBool right = some false then left
    else node
  | node => node

/-- The end of `fold_expr`, its operands folded: a constant that has a value becomes a literal, one
that raises an error stays. -/
def foldNode (node : TypedExpr F O X N) : TypedExpr F O X N :=
  if isFoldableConstant ev node then
    match eval ev [] node with
    | .ok value => .literal value
    | .error _ => simplifyBool node
  else simplifyBool node

mutual

def foldExpr : TypedExpr F O X N → TypedExpr F O X N
  | .literal value => foldNode ev (.literal value)
  | .column ordinal => foldNode ev (.column ordinal)
  | .binary left op right => foldNode ev (.binary (foldExpr left) op (foldExpr right))
  | .between expr low high negated symmetric =>
    foldNode ev (.between (foldExpr expr) (foldExpr low) (foldExpr high) negated symmetric)
  | .node kind args => foldNode ev (.node kind (foldAll args))

def foldAll : List (TypedExpr F O X N) → List (TypedExpr F O X N)
  | [] => []
  | arg :: args => foldExpr arg :: foldAll args

end

section

variable (args : List (TypedExpr F O X N))

lemma foldAll_eq_map : foldAll ev args = args.map (foldExpr ev) := by
  induction args with
  | nil => rfl
  | cons arg args ih => rw [foldAll, ih, map_cons]

lemma allFoldableConstant_iff :
    allFoldableConstant ev args ↔ ∀ arg ∈ args, isFoldableConstant ev arg := by
  induction args with
  | nil => simp [allFoldableConstant]
  | cons arg args ih => simp [allFoldableConstant, ih]

lemma allWellTyped_iff (columns : List (Column T)) :
    allWellTyped ev columns args ↔ ∀ arg ∈ args, wellTyped ev columns arg := by
  induction args with
  | nil => simp [allWellTyped]
  | cons arg args ih => simp [allWellTyped, ih]

end

lemma eval_of_isFoldableConstant (row : Row F O) (e : TypedExpr F O X N)
    (he : isFoldableConstant ev e) : eval ev row e = eval ev [] e := by
  induction e using TypedExpr.rec_on_operands with
  | literal value => rfl
  | column ordinal => cases he
  | binary left op right ihl ihr =>
    rw [isFoldableConstant, and_eq_true] at he
    rw [eval, eval, ihl he.1, ihr he.2]
  | between expr low high negated symmetric ihe ihl ihh =>
    rw [isFoldableConstant, and_eq_true, and_eq_true] at he
    rw [eval, eval, ihe he.1.1, ihl he.1.2, ihh he.2]
  | node kind args ih =>
    rw [isFoldableConstant, and_eq_true, allFoldableConstant_iff] at he
    rw [eval, eval, evalAll_eq_map, evalAll_eq_map]
    congr 1
    exact map_congr_left fun arg harg => ih arg harg (he.2 arg harg)

/-- What folding keeps of an expression: its type, and its value wherever it has one. -/
structure Folded (columns : List (Column T)) (before after : TypedExpr F O X N) : Prop where
  isBool : isBool ev columns before → isBool ev columns after
  refines : ∀ row, RowTyped ev columns row → Refines (eval ev row before) (eval ev row after)

lemma Folded.refl (columns : List (Column T)) (e : TypedExpr F O X N) : Folded ev columns e e :=
  ⟨id, fun _ _ => Refines.refl _⟩

lemma Folded.trans {e' e'' : TypedExpr F O X N} (h : Folded ev columns e e')
    (h' : Folded ev columns e' e'') : Folded ev columns e e'' :=
  ⟨fun hb => h'.isBool (h.isBool hb), fun row hrow v hv => h'.refines row hrow v (h.refines row hrow v hv)⟩

lemma eq_literal_of_asBool {b : Bool} (h : asBool e = some b) : e = .literal (.bool b) := by
  unfold asBool at h
  split at h
  · cases h
    rfl
  · cases h

lemma applyAnd_false_right (l : SqlValue F O) : applyAnd l (.bool false) = .bool false := by
  unfold applyAnd
  split <;> simp_all

lemma applyOr_true_right (l : SqlValue F O) : applyOr l (.bool true) = .bool true := by
  unfold applyOr
  split <;> simp_all

lemma applyAnd_true (hv : isBoolean v) :
    applyAnd (.bool true) v = v ∧ applyAnd v (.bool true) = v := by
  unfold isBoolean at hv
  split at hv
  next => exact ⟨rfl, rfl⟩
  next b => cases b <;> exact ⟨rfl, rfl⟩
  next => cases hv

lemma applyOr_false (hv : isBoolean v) :
    applyOr (.bool false) v = v ∧ applyOr v (.bool false) = v := by
  unfold isBoolean at hv
  split at hv
  next => exact ⟨rfl, rfl⟩
  next b => cases b <;> exact ⟨rfl, rfl⟩
  next => cases hv

/-- `AND` and `OR` of a literal: `b` decides the result, the other literal leaves it to the other
operand. -/
lemma folded_junction {op : BinaryOp X} {f : SqlValue F O → SqlValue F O → SqlValue F O} {b : Bool}
    {left right : TypedExpr F O X N} (hop : ∀ l r, applyBinary ev op l r = .ok (f l r))
    (hdecides : ∀ v, f (.bool b) v = .bool b ∧ f v (.bool b) = .bool b)
    (hleaves : ∀ v, isBoolean v → f (.bool !b) v = v ∧ f v (.bool !b) = v)
    (hleft : isBool ev columns left = true) (hright : isBool ev columns right = true) :
    Folded ev columns (.binary left op right)
      (if asBool left = some b ∨ asBool right = some b then .literal (.bool b)
        else if asBool left = some !b then right
        else if asBool right = some !b then left
        else .binary left op right) := by
  have hparts : ∀ row v, eval ev row (.binary left op right) = .ok v →
      ∃ l r, eval ev row left = .ok l ∧ eval ev row right = .ok r ∧ f l r = v := by
    intro row v hv
    obtain ⟨l, r, hl, hr, happly⟩ := (eval_binary_eq_ok ev).mp hv
    exact ⟨l, r, hl, hr, ok.inj ((hop l r).symm.trans happly)⟩
  split_ifs with hdecided hl0 hr0
  · refine ⟨fun _ => rfl, fun row _ v hv => ?_⟩
    obtain ⟨l, r, hl, hr, rfl⟩ := hparts row v hv
    rcases hdecided with h | h
    · rw [eq_literal_of_asBool h] at hl
      cases hl
      rw [(hdecides r).1]
      rfl
    · rw [eq_literal_of_asBool h] at hr
      cases hr
      rw [(hdecides l).2]
      rfl
  · refine ⟨fun _ => hright, fun row hrow v hv => ?_⟩
    obtain ⟨l, r, hl, hr, rfl⟩ := hparts row v hv
    rw [eq_literal_of_asBool hl0] at hl
    cases hl
    rw [(hleaves r (isBoolean_of_isBool ev hrow hright hr)).1]
    exact hr
  · refine ⟨fun _ => hleft, fun row hrow v hv => ?_⟩
    obtain ⟨l, r, hl, hr, rfl⟩ := hparts row v hv
    rw [eq_literal_of_asBool hr0] at hr
    cases hr
    rw [(hleaves l (isBoolean_of_isBool ev hrow hleft hl)).2]
    exact hl
  · exact Folded.refl ev columns _

lemma folded_simplifyBool (he : boolOperands ev columns e) :
    Folded ev columns e (simplifyBool e) := by
  unfold simplifyBool
  split
  next left right =>
    rw [boolOperands, and_eq_true] at he
    exact folded_junction ev (fun _ _ => rfl) (fun v => ⟨rfl, applyAnd_false_right v⟩)
      (fun v hv => applyAnd_true hv) he.1 he.2
  next left right =>
    rw [boolOperands, and_eq_true] at he
    exact folded_junction ev (fun _ _ => rfl) (fun v => ⟨rfl, applyOr_true_right v⟩)
      (fun v hv => applyOr_false hv) he.1 he.2
  next => exact Folded.refl ev columns _

lemma folded_foldNode (he : boolOperands ev columns e) : Folded ev columns e (foldNode ev e) := by
  unfold foldNode
  split
  next hconst =>
    cases hvalue : eval ev [] e with
    | error _ => exact folded_simplifyBool ev he
    | ok value =>
      refine ⟨fun hb => isBoolean_of_isBool ev (RowTyped.nil ev columns) hb hvalue, ?_⟩
      intro row _ v hv
      rw [eval_of_isFoldableConstant ev row e hconst, hvalue] at hv
      exact hv
  next => exact folded_simplifyBool ev he

lemma folded_foldExpr (columns : List (Column T)) (e : TypedExpr F O X N)
    (he : wellTyped ev columns e) : Folded ev columns e (foldExpr ev e) := by
  induction e using TypedExpr.rec_on_operands with
  | literal | column => exact folded_foldNode ev rfl
  | binary left op right ihl ihr =>
    rw [wellTyped, and_eq_true, and_eq_true] at he
    have hl := ihl he.1.1
    have hr := ihr he.1.2
    have hop : Folded ev columns (.binary left op right)
        (.binary (foldExpr ev left) op (foldExpr ev right)) := by
      refine ⟨by cases op <;> exact id, fun row hrow v hv => ?_⟩
      obtain ⟨l, r, hleft, hright, happly⟩ := (eval_binary_eq_ok ev).mp hv
      exact (eval_binary_eq_ok ev).mpr
        ⟨l, r, hl.refines row hrow l hleft, hr.refines row hrow r hright, happly⟩
    refine hop.trans ev (folded_foldNode ev ?_)
    have hoperands := he.2
    cases op with
    | and | or =>
      rw [boolOperands, and_eq_true] at hoperands ⊢
      exact ⟨hl.isBool hoperands.1, hr.isBool hoperands.2⟩
    | _ => rfl
  | between expr low high negated symmetric ihe ihl ihh =>
    rw [wellTyped, and_eq_true, and_eq_true] at he
    refine Folded.trans ev ⟨fun _ => rfl, fun row hrow v hv => ?_⟩ (folded_foldNode ev rfl)
    obtain ⟨x, l, h, hx, hl, hh, happly⟩ := (eval_between_eq_ok ev).mp hv
    exact (eval_between_eq_ok ev).mpr ⟨x, l, h, (ihe he.1.1).refines row hrow x hx,
      (ihl he.1.2).refines row hrow l hl, (ihh he.2).refines row hrow h hh, happly⟩
  | node kind args ih =>
    rw [wellTyped, allWellTyped_iff] at he
    have hargs : Folded ev columns (.node kind args) (.node kind (foldAll ev args)) := by
      refine ⟨id, fun row hrow => ?_⟩
      rw [eval, eval, evalAll_eq_map, evalAll_eq_map, foldAll_eq_map, map_map]
      refine ev.apply_refines kind _ _ ?_
      rw [forall₂_map_left_iff, forall₂_map_right_iff, forall₂_same]
      exact fun arg harg => (ih arg harg (he arg harg)).refines row hrow
    exact hargs.trans ev (folded_foldNode ev rfl)

end NusaDb.Rls
