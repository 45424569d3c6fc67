import NusaDb.Lib.StableSort
import NusaDb.Rls.Range

/-!
# Hidden rows and the outcome of a `SELECT`

Two contents of a table that agree on the rows the policies show should give a session the same
outcome. But the statement's own predicate stands first and is evaluated on hidden rows too, so an
error it raises there ends the statement.
-/

namespace NusaDb.Rls

open List Option NusaDb.Sql Base

section

variable {F O T X N E Out : Type} (pl : Planner F O T X N E)

def policyPredicate (session : Session) (table : Table pl) : TypedExpr F O X N :=
  combineRlsPolicies pl.toEvaluator .select session.user table.policies

def visible (session : Session) (table : Table pl) (row : Row F O) : Bool :=
  match eval pl.toEvaluator row (policyPredicate pl session table) with
  | .ok (.bool true) => true
  | _ => false

def Contents (session : Session) (table : Table pl) (rows : List (Row F O)) : Prop :=
  ∀ row ∈ rows, RowOf pl table.columns row ∧
    ∃ v, eval pl.toEvaluator row (policyPredicate pl session table) = .ok v

def SameOutcome (a b : Except E Out) : Prop := a = b ∨ ∃ e e', a = .error e ∧ b = .error e'

def Noninterfering (session : Session) (table : Table pl) (select : Select pl Out table) : Prop :=
  ∀ rows rows', Contents pl session table rows → Contents pl session table rows' →
    rows.filter (visible pl session table) = rows'.filter (visible pl session table) →
    SameOutcome (select.outcome pl session rows) (select.outcome pl session rows')

def Base.reads (base : Base F O T X N) (row : Row F O) : Bool :=
  base.scan.all fun scan => scan.inRange pl row

/-- The filter is evaluated on the rows of the scan and nothing but its stream decides the answer:
the statement draws no sample, locks no rows and is answered by no vector index. -/
structure Select.Direct {table : Table pl} (select : Select pl Out table) : Prop where
  sample : select.sample = none
  lockRows : select.lockRows = none
  vectorKnn : select.vectorKnn = none

/-- The statement is direct, and its filter raises no error on a hidden row that its scan reads. -/
structure Quiet (session : Session) (table : Table pl) (select : Select pl Out table) : Prop where
  direct : select.Direct pl
  silent : ∀ row, Contents pl session table [row] → visible pl session table row = false →
    (planSelect pl session table select).1.reads pl row →
    ∀ e, (planSelect pl session table select).1.verdict pl row ≠ some (.error e)

/-! ## The policies' predicate -/

def Checked (columns : List (Column T)) (e : TypedExpr F O X N) : Prop :=
  wellTyped pl.toEvaluator columns e ∧ isBool pl.toEvaluator columns e

variable {columns : List (Column T)}

lemma checked_foldBool {acc : Option (TypedExpr F O X N)} {next : TypedExpr F O X N}
    {op : BinaryOp X} (hop : op = .and ∨ op = .or) (hacc : ∀ e, acc = some e → Checked pl columns e)
    (hnext : Checked pl columns next) : Checked pl columns (foldBool acc next op) := by
  cases acc with
  | none => exact hnext
  | some e =>
    obtain ⟨htyped, hbool⟩ := hacc e rfl
    rcases hop with rfl | rfl
    · exact ⟨by simp [foldBool, wellTyped, boolOperands, htyped, hbool, hnext.1, hnext.2], rfl⟩
    · exact ⟨by simp [foldBool, wellTyped, boolOperands, htyped, hbool, hnext.1, hnext.2], rfl⟩

lemma checked_combineStep (command : PolicyCommand) (user : String)
    (policies : List (Policy pl.toEvaluator columns)) :
    ∀ acc : Option (TypedExpr F O X N) × Option (TypedExpr F O X N),
      (∀ e, acc.1 = some e → Checked pl columns e) → (∀ e, acc.2 = some e → Checked pl columns e) →
      (∀ e, (policies.foldl (combineStep pl.toEvaluator command user) acc).1 = some e →
        Checked pl columns e) ∧
      (∀ e, (policies.foldl (combineStep pl.toEvaluator command user) acc).2 = some e →
        Checked pl columns e) := by
  induction policies with
  | nil =>
    intro acc h1 h2
    exact ⟨h1, h2⟩
  | cons policy policies ih =>
    intro acc h1 h2
    rw [foldl_cons]
    unfold combineStep
    split
    next =>
      rcases policy.usingPredicate with _ | typed
      · exact ih acc h1 h2
      have htyped : Checked pl columns typed.expr := ⟨typed.typed, typed.bool⟩
      dsimp only
      split
      next =>
        refine ih _ (fun e he => ?_) h2
        cases he
        exact checked_foldBool pl (.inr rfl) h1 htyped
      next =>
        refine ih _ h1 (fun e he => ?_)
        cases he
        exact checked_foldBool pl (.inl rfl) h2 htyped
    next => exact ih acc h1 h2

lemma checked_policyPredicate (session : Session) (table : Table pl) :
    Checked pl table.columns (policyPredicate pl session table) := by
  obtain ⟨hperm, hrestr⟩ := checked_combineStep pl .select session.user table.policies (none, none)
    (fun e h => by cases h) (fun e h => by cases h)
  unfold policyPredicate combineRlsPolicies
  generalize table.policies.foldl (combineStep pl.toEvaluator .select session.user) (none, none) =
    acc at hperm hrestr
  obtain ⟨permissive, restrictive⟩ := acc
  have hgranted : Checked pl table.columns (permissive.getD (.literal (.bool false))) := by
    cases permissive with
    | none => exact ⟨rfl, rfl⟩
    | some e => exact hperm e rfl
  rcases restrictive with _ | restr
  · exact hgranted
  have hacc : ∀ e, some (permissive.getD (.literal (.bool false))) = some e →
      Checked pl table.columns e := by
    rintro e he
    cases he
    exact hgranted
  exact checked_foldBool pl (.inl rfl) hacc (hrestr restr rfl)

/-! ## The filter's verdict on a hidden row -/

variable {row : Row F O}

/-- Where a folded conjunction is `TRUE`, so is its right operand, if it has a value; the left one
may raise an error that was dropped. -/
lemma right_of_fold_and (hrow : RowTyped pl.toEvaluator columns row)
    {left right : TypedExpr F O X N} (hright : wellTyped pl.toEvaluator columns right)
    {v : SqlValue F O} (hv : eval pl.toEvaluator row right = .ok v)
    (h : eval pl.toEvaluator row (foldExpr pl.toEvaluator (.binary left .and right)) =
      .ok (.bool true)) : v = .bool true := by
  have hfolded := (folded_foldExpr pl.toEvaluator columns right hright).refines row hrow v hv
  have htrue : ∀ w, eval pl.toEvaluator row (foldExpr pl.toEvaluator right) = .ok w →
      w = .bool true → v = .bool true := by
    intro w hw hwt
    rw [hfolded] at hw
    rw [Except.ok.inj hw, hwt]
  rw [foldExpr, foldNode] at h
  have hsimplified : eval pl.toEvaluator row (simplifyBool
      (.binary (foldExpr pl.toEvaluator left) .and (foldExpr pl.toEvaluator right))) =
        .ok (.bool true) → v = .bool true := by
    intro h
    rw [simplifyBool] at h
    split_ifs at h with hfalse hleft hlit
    · cases h
    · exact htrue _ h rfl
    · rw [eq_literal_of_asBool hlit] at htrue
      exact htrue _ rfl rfl
    · exact htrue _ ((eval_and_eq_true pl).mp h).2 rfl
  split at h
  next hconst =>
    cases hvalue : eval pl.toEvaluator []
        (.binary (foldExpr pl.toEvaluator left) .and (foldExpr pl.toEvaluator right)) with
    | ok value =>
      simp only [hvalue] at h
      cases h
      rw [← eval_of_isFoldableConstant pl.toEvaluator row _ hconst] at hvalue
      exact htrue _ ((eval_and_eq_true pl).mp hvalue).2 rfl
    | error e =>
      simp only [hvalue] at h
      exact hsimplified h
  next => exact hsimplified h

section

variable {session : Session} {table : Table pl} (hsession : session.superuser = false)
  (hrls : table.rlsEnabled = true) (select : Select pl Out table)

include hsession hrls

lemma applyRls_eq (filter : Option (TypedExpr F O X N)) :
    applyRls pl session table filter = some (match filter with
      | none => policyPredicate pl session table
      | some existing => .binary existing .and (policyPredicate pl session table)) := by
  rw [applyRls, hsession, hrls]
  cases filter <;> rfl

lemma visible_of_folded {row : Row F O} (hrow : Contents pl session table [row])
    {filter : Option (TypedExpr F O X N)} {e : TypedExpr F O X N}
    (he : applyRls pl session table filter = some e)
    (h : eval pl.toEvaluator row (foldExpr pl.toEvaluator e) = .ok (.bool true)) :
    visible pl session table row = true := by
  obtain ⟨hrowOf, v, hv⟩ := hrow row mem_cons_self
  have hchecked := checked_policyPredicate pl session table
  have hvt : v = .bool true := by
    rw [applyRls_eq pl hsession hrls] at he
    cases filter with
    | none =>
      cases he
      have hfolded := (folded_foldExpr pl.toEvaluator table.columns _ hchecked.1).refines row
        hrowOf.typed v hv
      rw [hfolded] at h
      exact Except.ok.inj h
    | some existing =>
      cases he
      exact right_of_fold_and pl hrowOf.typed hchecked.1 hv h
  rw [visible, hv, hvt]

lemma visible_of_planned {row : Row F O} (hrow : Contents pl session table [row])
    (h : ∀ f, plannedFilter pl session table select = some f →
      eval pl.toEvaluator row f = .ok (.bool true)) :
    visible pl session table row = true := by
  obtain ⟨e, he⟩ : ∃ e, applyRls pl session table (select.filter.map (·.expr)) = some e :=
    ⟨_, applyRls_eq pl hsession hrls _⟩
  refine visible_of_folded pl hsession hrls hrow he ?_
  by_cases htrue : asBool (foldExpr pl.toEvaluator e) = some true
  · rw [eq_literal_of_asBool htrue]
    rfl
  apply h
  rw [plannedFilter, he]
  simp [htrue]

end

/-! ## Scans -/

variable {filter : TypedExpr F O X N} {stats : Option (ScanStats F O X N)}

lemma scan_of_candidate {index : IndexMeta F O T X N} {cand : Candidate F O T X N}
    (h : candidate pl columns filter stats index = some cand) :
    cand.scan.index = index ∧ cand.scan.limit = none := by
  rw [candidate] at h
  split at h
  next => cases h
  split at h
  next => cases h
  cases h
  exact ⟨rfl, rfl⟩

variable {indexes : List (IndexMeta F O T X N)}

lemma limit_of_tryIndexScan {scan : IndexScan F O T X N}
    (h : tryIndexScan pl columns indexes filter stats = some scan) : scan.limit = none := by
  obtain ⟨index, -, cand, hcand, rfl⟩ := exists_candidate pl h
  exact (scan_of_candidate pl hcand).2

lemma entries_filter (scan : IndexScan F O T X N) (p : Row F O → Bool) (rows : List (Row F O)) :
    scan.entries pl (rows.filter p) = (scan.entries pl rows).filter p := by
  have hboth : (rows.filter p).filter (scan.inRange pl) =
      (rows.filter (scan.inRange pl)).filter p := by
    simp only [List.filter_filter, Bool.and_comm]
  unfold IndexScan.entries
  rw [hboth]
  cases scan.direction with
  | forward => exact (filter_insertionSort (scan.encodedKey pl) p _).symm
  | backward =>
    -- descending keys are ascending ones of the dual order
    exact (filter_insertionSort (fun row => OrderDual.toDual (scan.encodedKey pl row)) p _).symm

lemma mem_entries (scan : IndexScan F O T X N) {rows : List (Row F O)} {row : Row F O} :
    row ∈ scan.entries pl rows ↔ row ∈ rows ∧ scan.inRange pl row := by
  unfold IndexScan.entries
  split <;> exact (mem_insertionSort _).trans mem_filter

/-- One more row of the range comes somewhere among the others. -/
lemma exists_entries_cons (scan : IndexScan F O T X N) {row : Row F O} (hin : scan.inRange pl row)
    (rows : List (Row F O)) :
    ∃ front back, scan.entries pl rows = front ++ back ∧
      scan.entries pl (row :: rows) = front ++ row :: back := by
  unfold IndexScan.entries
  rw [filter_cons_of_pos hin]
  cases scan.direction with
  | forward => exact exists_insertionSort_cons (scan.encodedKey pl) row _
  | backward =>
    exact exists_insertionSort_cons (fun row => OrderDual.toDual (scan.encodedKey pl row)) row _

variable {base : Base F O T X N}

lemma scanned_filter (hlimit : ∀ scan, base.scan = some scan → scan.limit = none)
    (p : Row F O → Bool) (rows : List (Row F O)) :
    base.scanned pl (rows.filter p) = (base.scanned pl rows).filter p := by
  unfold scanned
  cases hscan : base.scan with
  | none => rfl
  | some scan =>
    simp only [IndexScan.rows, hlimit scan hscan]
    exact entries_filter pl scan p rows

lemma reads_of_mem_scanned {rows : List (Row F O)} (h : row ∈ base.scanned pl rows) :
    row ∈ rows ∧ base.reads pl row := by
  unfold scanned at h
  unfold reads
  cases hscan : base.scan with
  | none =>
    rw [hscan] at h
    exact ⟨h, rfl⟩
  | some scan =>
    rw [hscan] at h
    have hentries : row ∈ scan.entries pl rows := by
      simp only [IndexScan.rows] at h
      split at h
      next => exact mem_of_mem_take h
      next => exact h
    exact (mem_entries pl scan).mp hentries

/-- A row that the scan reads and whose filter raises an error puts that error into the stream. -/
lemma exists_filtered_cons (hlimit : ∀ scan, base.scan = some scan → scan.limit = none)
    (hreads : base.reads pl row) {e : E} (hverdict : base.verdict pl row = some (.error e))
    (rows : List (Row F O)) :
    ∃ front back, base.filtered pl (base.scanned pl rows) = front ++ back ∧
      base.filtered pl (base.scanned pl (row :: rows)) = front ++ .error e :: back := by
  have hscanned : ∃ front back, base.scanned pl rows = front ++ back ∧
      base.scanned pl (row :: rows) = front ++ row :: back := by
    unfold scanned
    unfold reads at hreads
    rcases hscan : base.scan with _ | scan
    · exact ⟨[], rows, rfl, rfl⟩
    rw [hscan] at hreads
    simp only [IndexScan.rows, hlimit scan hscan]
    exact exists_entries_cons pl scan hreads rows
  obtain ⟨front, back, hold, hnew⟩ := hscanned
  refine ⟨front.filterMap (base.verdict pl), back.filterMap (base.verdict pl), ?_, ?_⟩
  · rw [filtered, hold, filterMap_append]
  · rw [filtered, hnew, filterMap_append, filterMap_cons_some hverdict]

variable {orderBy : List (OrderByKey F O X N)}

lemma notNull_of_orderedScanColumns {ascending : Bool} :
    ∀ {cols : List Nat}, orderedScanColumns columns ascending orderBy = some cols →
      ∀ col ∈ cols, ∃ c, columns[col]? = some c ∧ c.nullable = false := by
  induction orderBy with
  | nil =>
    intro cols h col hcol
    cases h
    cases hcol
  | cons key keys ih =>
    intro cols h col hcol
    rw [orderedScanColumns] at h
    split at h
    next => cases h
    split at h
    next ordinal _ =>
      split at h
      next c hc =>
        split at h
        next => cases h
        next hnullable =>
          obtain ⟨rest, hrest, rfl⟩ := map_eq_some_iff.mp h
          rcases mem_cons.mp hcol with rfl | hcol
          · exact ⟨c, hc, by simpa using hnullable⟩
          · exact ih hrest col hcol
      next => cases h
    next => cases h

lemma notNull_of_orderedScanDirection {direction : ScanDirection} {col : Nat}
    (h : orderedScanDirection columns orderBy = some (direction, col)) :
    ∃ c, columns[col]? = some c ∧ c.nullable = false := by
  unfold orderedScanDirection at h
  split at h
  next direction' col' hkeys =>
    cases h
    unfold orderedScanKeys at hkeys
    simp only [bind_eq_bind, bind_eq_some_iff] at hkeys
    obtain ⟨first, -, cols, hcols, hpair⟩ := hkeys
    cases hpair
    exact notNull_of_orderedScanColumns hcols col mem_cons_self
  next => cases h

lemma tryOrderedIndexScan_cases {ordered : Base F O T X N} {topN : Option Nat} {locking : Bool}
    (h : tryOrderedIndexScan pl columns indexes base orderBy topN locking = some ordered) :
    (∃ predicate scan direction cap col c, base.predicate = some predicate ∧
      ordered = ⟨some { scan with direction := direction, limit := some cap }, some predicate⟩ ∧
      scan.index.key = .columns [col] ∧ columns[col]? = some c ∧ c.nullable = false ∧
      predicateIsExactlyTheIndexRange pl columns predicate col ∧
      (base.scan = some scan ∨ ∃ index, tryIndexScan pl columns [index] predicate none = some scan)) ∨
    base.predicate = none := by
  unfold tryOrderedIndexScan at h
  simp only [bind_eq_bind] at h
  split at h
  next => cases h
  simp only [bind_eq_some_iff] at h
  obtain ⟨cap, -, h⟩ := h
  rcases hpredicate : base.predicate with _ | predicate
  · exact .inr rfl
  left
  simp only [hpredicate, bind_eq_some_iff] at h
  obtain ⟨⟨direction, col⟩, hdirection, scan, hscan, h⟩ := h
  obtain ⟨c, hc, hnullable⟩ := notNull_of_orderedScanDirection hdirection
  split at h
  next cols hkey =>
    split at h
    next hboth =>
      cases h
      rw [Bool.and_eq_true] at hboth
      refine ⟨predicate, scan, direction, cap, col, c, rfl, rfl, ?_, hc, hnullable, hboth.2, ?_⟩
      · rw [hkey, beq_iff_eq.mp hboth.1]
      · rcases or_eq_some_iff.mp hscan with hscan | ⟨-, hlift⟩
        · exact .inl hscan
        · obtain ⟨index, -, hindex⟩ := exists_of_findSome?_eq_some hlift
          exact .inr ⟨index, hindex⟩
    next => cases h
  next => cases h

section

variable {session : Session} {table : Table pl} (hsession : session.superuser = false)
  (hrls : table.rlsEnabled = true) (select : Select pl Out table)

lemma planSelect_cases :
    (planSelect pl session table select).1 = plainBase pl session table select ∨
      tryOrderedIndexScan pl table.columns table.indexes (plainBase pl session table select)
        select.orderBy select.topN select.lockRows.isSome = some (planSelect pl session table select).1 := by
  unfold planSelect
  split
  next =>
    split
    next ordered h => exact .inr h
    next => exact .inl rfl
  next => exact .inl rfl

lemma planned_of_predicate {predicate : TypedExpr F O X N}
    (hp : (plainBase pl session table select).predicate = some predicate) :
    ∃ f, plannedFilter pl session table select = some f ∧
      splitConjuncts predicate = splitConjuncts f := by
  obtain ⟨f, hf, hrebuilt⟩ := bind_eq_some_iff.mp hp
  exact ⟨f, hf, splitConjuncts_rebuildAnd hrebuilt⟩

lemma planned_of_no_predicate (hp : (plainBase pl session table select).predicate = none) :
    plannedFilter pl session table select = none := by
  rcases hf : plannedFilter pl session table select with _ | f
  · rfl
  rw [plainBase, hf] at hp
  cases hsplit : splitConjuncts f with
  | nil => exact absurd hsplit (splitConjuncts_ne_nil f)
  | cons c rest =>
    simp only [bind_some, hsplit] at hp
    cases hp

include hsession hrls

variable {row : Row F O}

lemma visible_of_predicate (hrow : Contents pl session table [row])
    (h : ∀ predicate, (plainBase pl session table select).predicate = some predicate →
      eval pl.toEvaluator row predicate = .ok (.bool true)) :
    visible pl session table row = true := by
  refine visible_of_planned pl hsession hrls select hrow fun f hf => ?_
  cases hp : (plainBase pl session table select).predicate with
  | none =>
    rw [planned_of_no_predicate pl select hp] at hf
    cases hf
  | some predicate =>
    obtain ⟨f', hf', hsplit⟩ := planned_of_predicate pl select hp
    rw [hf] at hf'
    cases hf'
    rw [eval_eq_true_iff, ← hsplit, ← eval_eq_true_iff]
    exact h predicate hp

lemma visible_of_verdict {row' : Row F O} (hrow : Contents pl session table [row])
    (h : (plainBase pl session table select).verdict pl row = some (.ok row')) :
    visible pl session table row = true := by
  refine visible_of_predicate pl hsession hrls select hrow fun predicate hp => ?_
  rw [verdict, hp] at h
  simp only at h
  split at h
  next => cases h
  next hvalue => exact hvalue
  next => cases h

lemma visible_of_ordered (hk : KeysInOrder pl) {ordered : Base F O T X N}
    (hordered : tryOrderedIndexScan pl table.columns table.indexes (plainBase pl session table select)
      select.orderBy select.topN select.lockRows.isSome = some ordered)
    (hrow : Contents pl session table [row]) (hreads : ordered.reads pl row) :
    visible pl session table row = true := by
  refine visible_of_predicate pl hsession hrls select hrow fun predicate hp => ?_
  have hrowOf := (hrow row mem_cons_self).1
  rcases tryOrderedIndexScan_cases pl hordered with
    ⟨p, scan, direction, cap, col, c, hp', rfl, hkey, hcol, hnullable, hexact, hscan⟩ | hnone
  · rw [hp] at hp'
    cases hp'
    have hin : scan.inRange pl row = true := hreads
    rcases hscan with hscan | ⟨index, hscan⟩
    · obtain ⟨f, hf, hsplit⟩ := planned_of_predicate pl select hp
      rw [plainBase, hf] at hscan
      obtain ⟨index, -, cand, hcand, rfl⟩ := exists_candidate pl hscan
      rw [(scan_of_candidate pl hcand).1] at hkey
      exact eval_of_inRange pl hk hkey hcol hnullable hcand hsplit hexact hrowOf hin
    · obtain ⟨index, -, cand, hcand, rfl⟩ := exists_candidate pl hscan
      rw [(scan_of_candidate pl hcand).1] at hkey
      exact eval_of_inRange pl hk hkey hcol hnullable hcand rfl hexact hrowOf hin
  · rw [hp] at hnone
    cases hnone

omit hsession hrls in
lemma plan_uncapped_or_ordered :
    ((planSelect pl session table select).1 = plainBase pl session table select ∧
      ∀ scan, (planSelect pl session table select).1.scan = some scan → scan.limit = none) ∨
    tryOrderedIndexScan pl table.columns table.indexes (plainBase pl session table select)
      select.orderBy select.topN select.lockRows.isSome = some (planSelect pl session table select).1 := by
  rcases planSelect_cases pl select with hplain | hordered
  · refine .inl ⟨hplain, fun scan hscan => ?_⟩
    rw [hplain] at hscan
    obtain ⟨f, -, hf⟩ := bind_eq_some_iff.mp hscan
    exact limit_of_tryIndexScan pl hf
  · exact .inr hordered

omit hsession hrls in
/-- Without a sample the filter gets what the scan reads. -/
lemma stream_of_direct (hdirect : select.Direct pl) (rows : List (Row F O)) :
    select.stream pl session rows = (planSelect pl session table select).1.filtered pl
      ((planSelect pl session table select).1.scanned pl rows) := by
  simp only [Select.stream, Select.sampled, hdirect.sample]

omit hsession hrls in
lemma outcome_of_direct (hdirect : select.Direct pl) (rows : List (Row F O)) :
    select.outcome pl session rows =
      select.above (planSelect pl session table select).2 (select.stream pl session rows) := by
  simp only [Select.outcome, hdirect.lockRows, hdirect.vectorKnn]

/-- The stream of a quiet statement is that of the visible rows. Either the scan is not capped, and
then its filter yields nothing for a hidden row, or it is capped and reads no hidden row at all. -/
lemma stream_filter_visible (hk : KeysInOrder pl) (hquiet : Quiet pl session table select)
    {rows : List (Row F O)} (hrows : Contents pl session table rows) :
    select.stream pl session rows =
      select.stream pl session (rows.filter (visible pl session table)) := by
  rw [stream_of_direct pl select hquiet.direct, stream_of_direct pl select hquiet.direct]
  have hone : ∀ row ∈ rows, Contents pl session table [row] := by
    intro row hrow row' hrow'
    cases mem_singleton.mp hrow'
    exact hrows row hrow
  rcases plan_uncapped_or_ordered pl select with ⟨hplain, hlimit⟩ | hordered
  · -- the filter yields nothing for a hidden row
    have hnone : ∀ row ∈ (planSelect pl session table select).1.scanned pl rows,
        visible pl session table row = false →
        (planSelect pl session table select).1.verdict pl row = none := by
      intro row hscanned hhidden
      obtain ⟨hmem, hreads⟩ := reads_of_mem_scanned pl hscanned
      rcases hverdict : (planSelect pl session table select).1.verdict pl row with _ | result
      · rfl
      cases result with
      | error e => exact absurd hverdict (hquiet.silent row (hone row hmem) hhidden hreads e)
      | ok row' =>
        rw [hplain] at hverdict
        rw [visible_of_verdict pl hsession hrls select (hone row hmem) hverdict] at hhidden
        cases hhidden
    rw [filtered, filtered, scanned_filter pl hlimit, filterMap_filter]
    refine filterMap_congr fun row hrow => ?_
    cases hv : visible pl session table row with
    | true => rfl
    | false => exact hnone row hrow hv
  · -- every row of the range is visible
    congr 1
    unfold scanned
    cases hscan : (planSelect pl session table select).1.scan with
    | none =>
      refine (filter_eq_self.mpr fun row hrow => ?_).symm
      refine visible_of_ordered pl hsession hrls select hk hordered (hone row hrow) ?_
      rw [reads, hscan]
      rfl
    | some scan =>
      have hentries : scan.entries pl rows =
          scan.entries pl (rows.filter (visible pl session table)) := by
        rw [entries_filter]
        refine (filter_eq_self.mpr fun row hrow => ?_).symm
        obtain ⟨hmem, hin⟩ := (mem_entries pl scan).mp hrow
        refine visible_of_ordered pl hsession hrls select hk hordered (hone row hmem) ?_
        rw [reads, hscan]
        exact hin
      simp only [IndexScan.rows, hentries]

lemma noninterfering_of_quiet (hk : KeysInOrder pl) (hquiet : Quiet pl session table select) :
    Noninterfering pl session table select := by
  intro rows rows' hrows hrows' hvisible
  left
  rw [outcome_of_direct pl select hquiet.direct, outcome_of_direct pl select hquiet.direct,
    stream_filter_visible pl hsession hrls select hk hquiet hrows, hvisible,
    ← stream_filter_visible pl hsession hrls select hk hquiet hrows']

end

/-- The statement answers on some visible rows, and no longer does when an error comes among what
its filter hands on. -/
def Answers (session : Session) (table : Table pl) (select : Select pl Out table) : Prop :=
  ∃ rows out, Contents pl session table rows ∧ (∀ row ∈ rows, visible pl session table row = true) ∧
    select.outcome pl session rows = .ok out ∧
    ∀ front back e, select.stream pl session rows = front ++ back →
      ∃ e', select.above (planSelect pl session table select).2 (front ++ .error e :: back) = .error e'

end

/-! ## Notes that their owners read -/

abbrev Text := List (Fin 256)

def textToInt (text : Text) : Except Text (SqlValue Unit Text) :=
  if text ≠ [] ∧ text.all fun b => decide (48 ≤ b.val ∧ b.val ≤ 57) then
    .ok (.int (text.foldl (fun n b => 10 * n + (b.val - 48 : Int)) 0))
  else .error text

/-- The cast as a node: `NULL` and errors pass through, the error names the text. -/
def castToInt : List (Except Text (SqlValue Unit Text)) → Except Text (SqlValue Unit Text)
  | [.ok (.other text)] => textToInt text
  | [.ok value] => .ok value
  | [.error text] => .error text
  | _ => .error []

lemma castToInt_refines (args args' : List (Except Text (SqlValue Unit Text)))
    (h : Forall₂ Refines args args') : Refines (castToInt args) (castToInt args') := by
  intro v hv
  cases h with
  | nil => cases hv
  | cons hhead htail =>
    cases htail with
    | cons _ _ =>
      unfold castToInt at hv
      split at hv <;> simp_all
    | nil =>
      rename_i a b
      cases a with
      | error text => cases hv
      | ok value =>
        rw [hhead value rfl]
        exact hv

def notesPlanner : Planner Unit Text Unit Empty Unit Text where
  types := {
    floatTotalCmp := fun _ _ => .eq
    intToFloat := fun _ => ()
    decimalToFloat := fun _ => ()
    floatNeg := fun _ => ()
    compareOther := fun a b => if a < b then .lt else if b < a then .gt else .eq
    typeRank := fun _ => 5
    castOther := fun _ _ => none
    encodeOther := fun _ _ => none }
  applyOther := fun op => Empty.elim op
  apply := fun _ args => castToInt args
  noColumn := fun _ => []
  foldable := fun _ => true
  hasType := fun ty v => (match ty, v with | .other _, .other _ => true | _, _ => false) = true
  hasType_bool := by
    intro ty v hty hv
    cases ty <;> cases hty
    cases hv
  boolOp := fun _ => false
  boolNode := fun _ => false
  applyOther_bool := fun op => Empty.elim op
  apply_bool := by
    intro kind args v h
    cases h
  apply_refines := fun _ args args' h => castToInt_refines args args' h
  one := ()
  mul := fun _ _ => ()
  lt := fun _ _ => false
  sameExpr := fun _ _ => false
  indexSafeOther := fun _ => true
  sameAsColumn := fun v ty => match v, ty with | .other _, .other _ => true | _, _ => false
  encodeIndexKey := fun key => match key with | [.other text] => text | _ => []

lemma texts_of_coerced {ty : ColumnType Unit} {value bound x : SqlValue Unit Text}
    (hbound : coerceIndexBound notesPlanner value ty = some bound) (hx : notesPlanner.hasType ty x) :
    ∃ a b, x = .other a ∧ value = .other b ∧ bound = .other b := by
  cases ty <;> cases x <;> try cases hx
  cases value <;> cases hbound
  exact ⟨_, _, rfl, rfl, rfl⟩

lemma notesPlanner_keysInOrder : KeysInOrder notesPlanner where
  encode := by
    intro ty value bound x _ hbound hx
    obtain ⟨a, b, rfl, rfl, rfl⟩ := texts_of_coerced hbound hx
    show (a < b ↔ (if a < b then Ordering.lt else if b < a then .gt else .eq) = .lt) ∧
      (b < a ↔ (if a < b then Ordering.lt else if b < a then .gt else .eq) = .gt)
    by_cases hlt : a < b
    · simp [hlt, hlt.le]
    · by_cases hgt : b < a <;> simp [hlt, hgt]
  swap := by
    intro ty value bound x _ hbound hx
    obtain ⟨a, b, rfl, rfl, rfl⟩ := texts_of_coerced hbound hx
    show (if b < a then Ordering.lt else if a < b then .gt else .eq) =
      Ordering.swap (if a < b then Ordering.lt else if b < a then .gt else .eq)
    by_cases hlt : a < b
    · simp [hlt, hlt.le]
    · by_cases hgt : b < a <;> simp [hlt, hgt]

def textOf (codes : List Nat) : Text := codes.flatMap (leBytes 1)

/-- `bob`, `alice` and a secret that is no number, `x`. -/
def bob : SqlValue Unit Text := .other (textOf [98, 111, 98])
def alice : SqlValue Unit Text := .other (textOf [97, 108, 105, 99, 101])
def word : SqlValue Unit Text := .other (textOf [120])

/-- `notes(owner TEXT NOT NULL, secret TEXT NOT NULL)` with a policy `USING (owner = 'bob')`. -/
def notes : Table notesPlanner where
  columns := [⟨.other (), false⟩, ⟨.other (), false⟩]
  rlsEnabled := true
  policies := [{
    command := .all
    roles := []
    permissive := true
    usingPredicate := some ⟨.binary (.column 0) .eq (.literal bob), rfl, rfl⟩ }]
  indexes := []
  stats := none

def selectNotes (predicate : Predicate notesPlanner.toEvaluator notes.columns) :
    Select notesPlanner (List (Row Unit Text)) notes where
  filter := some predicate
  orderBy := []
  sortsTheScan := false
  topN := none
  sample := none
  now := 0
  lockRows := none
  vectorKnn := none
  above := fun _ stream => stream.mapM id

def bobSession : Session := ⟨"bob", false⟩

/-- `secret = 'x'` raises no error on any row. -/
def secretIsWord : Predicate notesPlanner.toEvaluator notes.columns :=
  ⟨.binary (.column 1) .eq (.literal word), rfl, rfl⟩

def secretIsOne : Predicate notesPlanner.toEvaluator notes.columns :=
  ⟨.binary (.node () [.column 1]) .eq (.literal (.int 1)), rfl, rfl⟩

lemma secretIsWord_quiet : Quiet notesPlanner bobSession notes (selectNotes secretIsWord) := by
  refine ⟨⟨rfl, rfl, rfl⟩, ?_⟩
  intro row hrow _ _ e hverdict
  have hlength := (hrow row mem_cons_self).1.length
  obtain ⟨owner, secret, rfl⟩ := length_eq_two.mp hlength
  have hpredicate : (planSelect notesPlanner bobSession notes (selectNotes secretIsWord)).1.predicate =
      some (.binary (.binary (.column 1) .eq (.literal word)) .and
        (.binary (.column 0) .eq (.literal bob))) := rfl
  obtain ⟨v, hv⟩ : ∃ v, eval notesPlanner.toEvaluator [owner, secret]
      (.binary (.binary (.column 1) .eq (.literal word)) .and
        (.binary (.column 0) .eq (.literal bob))) = .ok v := ⟨_, rfl⟩
  rw [verdict, hpredicate] at hverdict
  simp only [hv] at hverdict
  split at hverdict <;> simp_all

/-- `SELECT * FROM notes TABLESAMPLE BERNOULLI (50) REPEATABLE (2)`. -/
def halfOfNotes : Select notesPlanner (List (Row Unit Text)) notes :=
  { selectNotes secretIsWord with filter := none, sample := some ⟨1 / 2, some 0x4000000000000000#64⟩ }

lemma contents_notes {rows : List (Row Unit Text)}
    (h : ∀ row ∈ rows, row = [alice, word] ∨ row = [bob, word]) :
    Contents notesPlanner bobSession notes rows := by
  intro row hrow
  obtain ⟨owner, howner, rfl⟩ : ∃ owner, (owner = alice ∨ owner = bob) ∧ row = [owner, word] := by
    rcases h row hrow with rfl | rfl
    · exact ⟨alice, .inl rfl, rfl⟩
    · exact ⟨bob, .inr rfl, rfl⟩
  obtain ⟨text, rfl⟩ : ∃ text, owner = .other text := by
    rcases howner with rfl | rfl
    · exact ⟨_, rfl⟩
    · exact ⟨_, rfl⟩
  have htext : ∀ (i : Nat) (v : SqlValue Unit Text), [.other text, word][i]? = some v →
      ∃ t, v = .other t := by
    intro i v hv
    have hmem : v = .other text ∨ v = word := by simpa using mem_of_getElem? hv
    rcases hmem with rfl | rfl
    · exact ⟨_, rfl⟩
    · exact ⟨_, rfl⟩
  refine ⟨⟨?_, rfl, ?_⟩, ⟨_, rfl⟩⟩
  · intro i c v hc hv
    have hty : c = ⟨.other (), false⟩ := by simpa [notes] using mem_of_getElem? hc
    subst hty
    obtain ⟨t, rfl⟩ := htext i v hv
    exact .inr rfl
  · rintro i c v - - hv rfl
    obtain ⟨t, ht⟩ := htext i _ hv
    cases ht

end NusaDb.Rls
