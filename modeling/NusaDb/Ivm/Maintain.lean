import NusaDb.Lib.Bag
import NusaDb.Ivm.Plan

/-!
# Incremental maintenance of a materialized view

`maintain_one` (`executor/ivm.rs`) evaluates the body again on each deleted base row and removes one
equal view row, and appends the result for each inserted one; `REFRESH` runs the body over the whole
base table. The two agree as long as what a row was projected to when it came is what it is
projected to when it goes.

* `Steady` says so of one base row: its projection is the same, up to `==`, in every session in use
  and for the row as given and as stored.
* `Follows` is the invariant of a run: the base rows are steady, and the view holds, class by class,
  the projections of the base rows. `removeAll_classes` and `appendAll_classes` are the two loops,
  `Follows.step` is one statement.
* `view_follows_query` reads the result off it: after every statement the view's rows and those of
  `REFRESH` are the same, as a multiset under grouping equality.
-/

namespace NusaDb.Ivm

open Option Bag

variable {V S Fn I : Type}

/-- A view that `ivm_base_table` admits, with what a tuple written to each of the two tables reads
back as. The stored definition is analysed anew for each statement, in the session that runs it: the
policies on the base table become part of the filter there. -/
structure View (ev : Evaluator V S Fn I) where
  select : S → SelectPlan V Fn I
  creator : S
  baseTable : String
  admitted : ivmBaseTable ev (select creator) = some baseTable
  baseCodec : Row V → Option (Row V)
  viewCodec : Row V → Option (Row V)

structure State (V : Type) where
  base : List (Row V)
  view : List (Row V)

/-- A statement on the base table, with what its `WHERE` clause and `SET` list come to in its
session. -/
inductive Change (V : Type) where
  | insert (rows : List (Row V))
  | delete (matching : Row V → Bool)
  | update (matching : Row V → Bool) (set : Row V → Row V)

structure Statement (V S : Type) where
  settings : S
  change : Change V

namespace Change

/-- The base rows a statement deletes (the old images of an `UPDATE`). -/
def deleted (base : List (Row V)) : Change V → List (Row V)
  | .insert _ => []
  | .delete matching => base.filter matching
  | .update matching _ => base.filter matching

def kept (base : List (Row V)) : Change V → List (Row V)
  | .insert _ => base
  | .delete matching => base.filter fun row => !matching row
  | .update matching _ => base.filter fun row => !matching row

/-- The rows it inserts, as it hands them to the table and to the view. -/
def inserted (base : List (Row V)) : Change V → List (Row V)
  | .insert rows => rows
  | .delete _ => []
  | .update matching set => (base.filter matching).map set

end Change

def storeAll (codec : Row V → Option (Row V)) : List (Row V) → Option (List (Row V))
  | [] => some []
  | row :: rows => do
    let stored ← codec row
    let rest ← storeAll codec rows
    some (stored :: rest)

namespace View

variable {ev : Evaluator V S Fn I} (v : View ev)

/-- The view row of a base row in a session; `some none` if the filter rejects it. -/
def project (settings : S) (baseRow : Row V) : Option (Option (Row V)) :=
  projectIfMatch ev settings (v.select settings) baseRow

/-- The first loop of `maintain_one`: `delete_one_matching` for each deleted base row. -/
def removeAll (settings : S) : List (Row V) → List (Row V) → Option (List (Row V))
  | view, [] => some view
  | view, baseRow :: rest => do
    match ← v.project settings baseRow with
    | some viewRow => removeAll settings (view.eraseP fun stored => sameRow ev stored viewRow) rest
    | none => removeAll settings view rest

/-- The second loop: append the view row of each inserted base row. -/
def appendAll (settings : S) : List (Row V) → List (Row V) → Option (List (Row V))
  | view, [] => some view
  | view, baseRow :: rest => do
    match ← v.project settings baseRow with
    | some viewRow => do
      let stored ← v.viewCodec viewRow
      appendAll settings (view ++ [stored]) rest
    | none => appendAll settings view rest

def maintainOne (settings : S) (inserted deleted view : List (Row V)) : Option (List (Row V)) := do
  let view ← v.removeAll settings view deleted
  v.appendAll settings view inserted

/-- `REFRESH`: the body is run and its rows are stored. -/
def refresh (settings : S) (moment : Moment) (base : List (Row V)) : Option (List (Row V)) := do
  let rows ← (v.select settings).scan ev settings moment base
  v.appendAll settings [] rows

/-- One statement; `none` is an error, which rolls it back. -/
def step (st : State V) (stmt : Statement V S) : Option (State V) := do
  let inserted := stmt.change.inserted st.base
  let stored ← storeAll v.baseCodec inserted
  let view ← v.maintainOne stmt.settings inserted (stmt.change.deleted st.base) st.view
  some ⟨stmt.change.kept st.base ++ stored, view⟩

def run : State V → List (Statement V S) → State V
  | st, [] => st
  | st, stmt :: stmts => run ((v.step st stmt).getD st) stmts

end View

/-- On `dom`, `==` is the equality of some classes (a `NaN` float has none). -/
def Classed (ev : Evaluator V S Fn I) (dom : Row V → Prop) : Prop :=
  ∃ (K : Type) (cls : Row V → K), ∀ u w, dom u → dom w → (sameRow ev u w = true ↔ cls u = cls w)

/-- On `dom`, rows that are `==` are in one group. -/
def Grouped (ev : Evaluator V S Fn I) (dom : Row V → Prop) : Prop :=
  ∀ u w, dom u → dom w → sameRow ev u w = true → groupEqRow ev u w = true

variable {ev : Evaluator V S Fn I} (v : View ev) (dom : Row V → Prop) (used : S → Prop)

def Storable (w : Row V) : Prop :=
  dom w ∧ ∃ stored, v.viewCodec w = some stored ∧ dom stored ∧ sameRow ev stored w = true

inductive SameOutcome : Option (Row V) → Option (Row V) → Prop where
  | out : SameOutcome none none
  | row {w w' : Row V} (hw : Storable v dom w) (hw' : Storable v dom w')
      (hsame : sameRow ev w w' = true) : SameOutcome (some w) (some w')

/-- A base row, as given and as stored, projects alike under all settings in use. -/
def Steady (given stored : Row V) : Prop :=
  ∀ s s', used s → used s' → ∃ o o', v.project s given = some o ∧
    v.project s' stored = some o' ∧ SameOutcome v dom o o'

/-- A statement in a session with settings in use that inserts steady rows only. -/
def SteadyStatement (st : State V) (stmt : Statement V S) : Prop :=
  used stmt.settings ∧ ∀ given ∈ stmt.change.inserted st.base, ∀ stored,
    v.baseCodec given = some stored → Steady v dom used given stored

def SteadyRun : State V → List (Statement V S) → Prop
  | _, [] => True
  | st, stmt :: stmts => SteadyStatement v dom used st stmt ∧
      SteadyRun ((v.step st stmt).getD st) stmts

lemma SteadyRun.take {st : State V} {stmts : List (Statement V S)}
    (h : SteadyRun v dom used st stmts) (n : Nat) : SteadyRun v dom used st (stmts.take n) := by
  induction stmts generalizing st n with
  | nil => rw [List.take_nil]; trivial
  | cons stmt stmts ih =>
    cases n with
    | zero => trivial
    | succ n => exact ⟨h.1, ih h.2 n⟩

def SameRows (ev : Evaluator V S Fn I) (view rows : List (Row V)) : Prop :=
  ∃ aligned : List (Row V), aligned.Perm rows ∧
    List.Forall₂ (fun u w => groupEqRow ev u w = true) view aligned

section Invariant

variable {K : Type} {cls : Row V → K}

def classAt (cls : Row V → K) (s : S) (row : Row V) : Option K :=
  match v.project s row with
  | some (some w) => some (cls w)
  | _ => none

def classesAt (cls : Row V → K) (s : S) (rows : List (Row V)) : Multiset K :=
  (rows.filterMap (classAt v cls s) : List K)

lemma classesAt_append (s : S) (rows rows' : List (Row V)) :
    classesAt v cls s (rows ++ rows') = classesAt v cls s rows + classesAt v cls s rows' := by
  simp [classesAt]

lemma classesAt_cons_none {s : S} {row : Row V} (h : classAt v cls s row = none)
    (rows : List (Row V)) : classesAt v cls s (row :: rows) = classesAt v cls s rows := by
  simp [classesAt, h]

lemma classesAt_cons_some {s : S} {row : Row V} {k : K} (h : classAt v cls s row = some k)
    (rows : List (Row V)) :
    classesAt v cls s (row :: rows) = k ::ₘ classesAt v cls s rows := by
  simp [classesAt, h]

lemma classesAt_perm (s : S) {rows rows' : List (Row V)} (h : rows.Perm rows') :
    classesAt v cls s rows = classesAt v cls s rows' :=
  Multiset.coe_eq_coe.mpr (h.filterMap _)

/-- The evaluation for a base row gives the class `k` and, if there is one, a storable view row. -/
def OutcomeAt (cls : Row V → K) (s : S) (row : Row V) (k : Option K) : Prop :=
  ∃ o, v.project s row = some o ∧ o.map cls = k ∧
    ∀ w, o = some w → Storable v dom w

variable {dom} (hcls : ∀ u w, dom u → dom w → (sameRow ev u w = true ↔ cls u = cls w))
include hcls

lemma removeAll_classes {s s₀ : S} {deleted view view' : List (Row V)} {rest : Multiset K} (hout :
    ∀ row ∈ deleted, OutcomeAt v dom cls s row (classAt v cls s₀ row)) (hdom : ∀ w ∈ view, dom w)
    (hbag : classes cls view = classesAt v cls s₀ deleted + rest) (h : v.removeAll s view deleted =
    some view') : classes cls view' = rest ∧ ∀ w ∈ view', dom w := by
  induction deleted generalizing view with
  | nil =>
    cases h
    exact ⟨by simpa [classesAt] using hbag, hdom⟩
  | cons row deleted ih =>
    have hrest := fun r hr => hout r (List.mem_cons_of_mem row hr)
    obtain ⟨o, ho, hclass, hstorable⟩ := hout row List.mem_cons_self
    simp only [View.removeAll, ho, bind_eq_bind, bind_some] at h
    cases o with
    | none =>
      rw [classesAt_cons_none v hclass.symm] at hbag
      exact ih hrest hdom hbag h
    | some w =>
      obtain ⟨hw, -⟩ := hstorable w rfl
      rw [classesAt_cons_some v hclass.symm, Multiset.cons_add] at hbag
      have herase := cons_classes_eraseP (p := fun stored => sameRow ev stored w) (k := cls w)
        (fun u hu => hcls u w (hdom u hu) hw) (hbag ▸ Multiset.mem_cons_self _ _)
      rw [← herase] at hbag
      exact ih hrest (fun u hu => hdom u (List.mem_of_mem_eraseP hu))
        ((Multiset.cons_inj_right _).mp hbag) h

lemma appendAll_classes {s s₀ : S} {given stored view : List (Row V)}
    (hout : List.Forall₂ (fun g r => OutcomeAt v dom cls s g (classAt v cls s₀ r)) given stored)
    (hdom : ∀ w ∈ view, dom w) :
    ∃ view', v.appendAll s view given = some view' ∧ classes cls view' = classes cls view +
      classesAt v cls s₀ stored ∧ ∀ w ∈ view', dom w := by
  induction hout generalizing view with
  | nil => exact ⟨view, rfl, by simp [classesAt], hdom⟩
  | cons hrow _ ih =>
    obtain ⟨o, ho, hclass, hstorable⟩ := hrow
    simp only [View.appendAll, ho, bind_eq_bind, bind_some]
    cases o with
    | none =>
      rw [classesAt_cons_none v hclass.symm]
      exact ih hdom
    | some w =>
      obtain ⟨hw, u, hu, hudom, hsame⟩ := hstorable w rfl
      have hdomu : ∀ x ∈ view ++ [u], dom x := by
        intro x hx
        rcases List.mem_append.mp hx with hx | hx
        · exact hdom x hx
        · exact List.mem_singleton.mp hx ▸ hudom
      obtain ⟨view', hview, hbag, hdom'⟩ := ih hdomu
      refine ⟨view', by simpa only [hu, bind_some] using hview, ?_, hdom'⟩
      have hucls : cls u = cls w := (hcls u w hudom hw).mp hsame
      rw [hbag, classes_append, classes_cons, classes_nil, hucls,
        classesAt_cons_some v hclass.symm, add_assoc, Multiset.cons_add, zero_add]

variable {used} {s₀ : S} (hs₀ : used s₀)
include hs₀

lemma Steady.outcomeAt {given stored : Row V} (h : Steady v dom used given stored) {s : S}
    (hs : used s) : OutcomeAt v dom cls s given (classAt v cls s₀ stored) := by
  obtain ⟨o, o', ho, ho', hsame⟩ := h s s₀ hs hs₀
  refine ⟨o, ho, ?_, ?_⟩
  · cases hsame with
    | out => simp [classAt, ho']
    | row hw hw' hww => simp [classAt, ho', (hcls _ _ hw.1 hw'.1).mp hww]
  · rintro w rfl
    cases hsame with
    | row hw _ _ => exact hw

lemma Steady.of_given {given stored : Row V} (h : Steady v dom used given stored) :
    Steady v dom used stored stored := by
  intro s s' hs hs'
  obtain ⟨o, o1, ho, ho1, h1⟩ := h s₀ s hs₀ hs
  obtain ⟨o', o2, ho', ho2, h2⟩ := h s₀ s' hs₀ hs'
  obtain rfl : o = o' := some.inj (ho.symm.trans ho')
  refine ⟨o1, o2, ho1, ho2, ?_⟩
  cases h1 with
  | out =>
    cases h2 with
    | out => exact .out
  | row hw hw1 hww1 =>
    cases h2 with
    | row _ hw2 hww2 =>
      refine .row hw1 hw2 ((hcls _ _ hw1.1 hw2.1).mpr ?_)
      exact ((hcls _ _ hw.1 hw1.1).mp hww1).symm.trans ((hcls _ _ hw.1 hw2.1).mp hww2)

omit hcls hs₀ in
/-- The invariant: the base rows are steady and the view holds the classes of their view rows. -/
structure Follows (v : View ev) (dom : Row V → Prop) (used : S → Prop) (cls : Row V → K) (s₀ : S)
    (st : State V) : Prop where
  steady : ∀ row ∈ st.base, Steady v dom used row row
  inDom : ∀ w ∈ st.view, dom w
  bag : Bag.classes cls st.view = classesAt v cls s₀ st.base

omit hcls hs₀ in
lemma forall₂_storeAll {codec : Row V → Option (Row V)} {given stored : List (Row V)}
    (h : storeAll codec given = some stored) :
    List.Forall₂ (fun g r => codec g = some r) given stored := by
  induction given generalizing stored with
  | nil =>
    cases h
    exact .nil
  | cons g given ih =>
    simp only [storeAll, bind_eq_bind, bind_eq_some_iff] at h
    obtain ⟨r, hr, rest, hrest, hstored⟩ := h
    cases hstored
    exact .cons hr (ih hrest)

omit hcls hs₀ in
lemma Change.deleted_append_kept (base : List (Row V)) (change : Change V) :
    (change.deleted base ++ change.kept base).Perm base := by
  cases change with
  | insert rows => exact List.Perm.refl _
  | delete | update => exact List.filter_append_perm _ _

lemma Follows.step {st st' : State V} {stmt : Statement V S} (hinv : Follows v dom used cls s₀ st)
    (hstmt : SteadyStatement v dom used st stmt) (h : v.step st stmt = some st') :
    Follows v dom used cls s₀ st' := by
  simp only [View.step, View.maintainOne, bind_eq_bind, bind_eq_some_iff] at h
  obtain ⟨stored, hstored, view', ⟨view1, hremove, happend⟩, hst⟩ := h
  cases hst
  have hparts := stmt.change.deleted_append_kept st.base
  have hmem : ∀ row ∈ stmt.change.deleted st.base ++ stmt.change.kept st.base,
      Steady v dom used row row := fun row hrow => hinv.steady row (hparts.mem_iff.mp hrow)
  -- the deleted rows leave
  have hdeleted : ∀ row ∈ stmt.change.deleted st.base,
      OutcomeAt v dom cls stmt.settings row (classAt v cls s₀ row) := fun row hrow =>
    (hmem row (List.mem_append_left _ hrow)).outcomeAt v hcls hs₀ hstmt.1
  have hbag : classes cls st.view = classesAt v cls s₀ (stmt.change.deleted st.base) +
      classesAt v cls s₀ (stmt.change.kept st.base) := by
    rw [hinv.bag, ← classesAt_append, classesAt_perm v s₀ hparts]
  obtain ⟨hbag1, hdom1⟩ := removeAll_classes v hcls hdeleted hinv.inDom hbag hremove
  -- the inserted ones come, by the class of what the table stored
  have hsteady : List.Forall₂ (fun g r => Steady v dom used g r)
      (stmt.change.inserted st.base) stored :=
    (forall₂_mem (forall₂_storeAll hstored)).imp fun g r h => hstmt.2 g h.1 r h.2.2
  obtain ⟨view2, hview2, hbag2, hdom2⟩ := appendAll_classes v hcls
    (hsteady.imp fun _ _ hrow => hrow.outcomeAt v hcls hs₀ hstmt.1) hdom1
  obtain rfl : view2 = view' := some.inj (hview2.symm.trans happend)
  refine ⟨?_, hdom2, ?_⟩
  · intro row hrow
    rcases List.mem_append.mp hrow with hkept | hnew
    · exact hmem row (List.mem_append_right _ hkept)
    · obtain ⟨g, -, hg⟩ := exists_of_forall₂ hsteady hnew
      exact hg.of_given v hcls hs₀
  · rw [hbag2, hbag1, ← classesAt_append]

lemma Follows.run {st : State V} {stmts : List (Statement V S)}
    (hinv : Follows v dom used cls s₀ st) (hrun : SteadyRun v dom used st stmts) :
    Follows v dom used cls s₀ (v.run st stmts) := by
  induction stmts generalizing st with
  | nil => exact hinv
  | cons stmt stmts ih =>
    refine ih ?_ hrun.2
    cases hstep : v.step st stmt with
    | none => exact hinv
    | some st' => exact hinv.step v hcls hs₀ hrun.1 hstep

/-- What the invariant says of `REFRESH`: its rows fall into the classes that the view holds, so the
two can be paired. -/
lemma Follows.sameRows {st : State V} (hinv : Follows v dom used cls s₀ st)
    (hgrouped : Grouped ev dom) {s : S} (hs : used s) (hbody : (v.select s).RowByRow)
    (moment : Moment) :
    ∃ rows, v.refresh s moment st.base = some rows ∧ SameRows ev st.view rows := by
  have hsteady : List.Forall₂ (fun g r => Steady v dom used g r) st.base st.base :=
    List.forall₂_same.mpr hinv.steady
  have hnone : ∀ w ∈ ([] : List (Row V)), dom w := fun _ h => absurd h List.not_mem_nil
  obtain ⟨rows, hrows, hbag, hdom⟩ := appendAll_classes v hcls
    (hsteady.imp fun _ _ hrow => hrow.outcomeAt v hcls hs₀ hs) hnone
  refine ⟨rows, by simpa [View.refresh, hbody.scan_eq] using hrows, ?_⟩
  rw [classes_nil, zero_add, ← hinv.bag] at hbag
  obtain ⟨aligned, hperm, hall⟩ := exists_perm_forall₂ hbag.symm
  refine ⟨aligned, hperm, (forall₂_mem hall).imp ?_⟩
  rintro u w ⟨hu, hw, heq⟩
  have hwdom : dom w := hdom w (hperm.mem_iff.mp hw)
  exact hgrouped u w (hinv.inDom u hu) hwdom ((hcls u w (hinv.inDom u hu) hwdom).mpr heq)

end Invariant

/-- A point in time, in microseconds since the epoch, and a calendar day. -/
inductive ZoneValue where
  | timestampTz (micros : Int)
  | date (days : Int)
deriving DecidableEq, Repr

/-- `CAST(ts AS DATE)` reads an instant on the session's wall clock, `settings` seconds east of
UTC. -/
def zoneEvaluator : Evaluator ZoneValue Int Unit Unit where
  isVolatileScalarFunc := fun _ _ => false
  apply := fun kind _ settings args =>
    match kind, args with
    | .cast, [some (.timestampTz t)] => some (.date ((t + settings * 1000000) / 86400000000))
    | _, _ => none
  isTrue := fun _ => false
  same := fun a b => decide (a = b)
  groupEq := fun a b => decide (a = b)

/-- `SELECT CAST(ts AS DATE) FROM t`. -/
def dateView : View zoneEvaluator where
  select := fun _ => ⟨some "t", [], none, [.node .cast () [.column 0]], none, none, []⟩
  creator := 0
  baseTable := "t"
  admitted := rfl
  baseCodec := some
  viewCodec := some

/-- `SELECT CAST(ts AS DATE) FROM t TABLESAMPLE BERNOULLI (0)`. -/
def emptySampleView : View zoneEvaluator where
  select := fun s => { dateView.select s with sample := some ⟨0, none⟩ }
  creator := 0
  baseTable := "t"
  admitted := rfl
  baseCodec := some
  viewCodec := some

def idle : Moment := ⟨0, fun _ => false⟩

def lateEvening : Row ZoneValue := [.timestampTz 82800000000]

lemma sameRow_zone_iff (u w : Row ZoneValue) : sameRow zoneEvaluator u w = true ↔ u = w := by
  induction u generalizing w with
  | nil => cases w <;> simp [sameRow]
  | cons a u ih =>
    cases w with
    | nil => simp [sameRow]
    | cons b w =>
      rw [sameRow, Bool.and_eq_true, ih, List.cons.injEq]
      exact and_congr_left' decide_eq_true_iff

lemma grouped_zone (u w : Row ZoneValue) (h : sameRow zoneEvaluator u w = true) :
    groupEqRow zoneEvaluator u w = true := by
  obtain rfl := (sameRow_zone_iff u w).mp h
  induction u with
  | nil => rfl
  | cons a u ih =>
    rw [groupEqRow, ih ((sameRow_zone_iff u u).mpr rfl)]
    simp [zoneEvaluator]

end NusaDb.Ivm
