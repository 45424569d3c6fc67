import NusaDb.Rollback.Erased
import NusaDb.Rollback.Locks

/-!
# Runs that return to a point

A run that keeps the discipline keeps its histories in step with the engine (`Traced`).
-/

namespace NusaDb

open List Engine

def Engine.histories (e : Engine) (hk : History × History) (ops : List Op) : History × History :=
  e.historyBut (fun _ => false) hk ops

/-- Every call of the run touches entries, on the indexes in question, only of rows written. -/
def Engine.CoversKeysAll (ixs : IndexId → Prop) : Engine → History → List Op → Prop
  | _, _, [] => True
  | e, h, op :: ops =>
    e.CoversKeys ixs h op ∧ (e.step op).1.CoversKeysAll ixs (h.record (op, (e.step op).2)) ops

instance decidableCoversKeysAll (ixs : IndexId → Prop)
    [∀ (e : Engine) (h : History) (op : Op), Decidable (e.CoversKeys ixs h op)] :
    (e : Engine) → (h : History) → (ops : List Op) → Decidable (e.CoversKeysAll ixs h ops)
  | _, _, [] => inferInstanceAs (Decidable True)
  | e, h, op :: ops =>
    have := decidableCoversKeysAll ixs (e.step op).1 (h.record (op, (e.step op).2)) ops
    inferInstanceAs (Decidable (_ ∧ _))

structure Traced (ixs : IndexId → Prop) (e : Engine) (h k : History) : Prop where
  inv : Inv e h
  passes : e.PassesOk h
  keys : KeyInv ixs True e h k

variable {ixs : IndexId → Prop} {point : Point} {txn : TxnId} {e : Engine} {h h' k k' : History}
  {op : Op}

lemma Traced.init (hf : e.Fresh) : Traced ixs e .init .init :=
  ⟨.init hf, .init hf _, .init hf⟩

lemma Traced.step (ht : Traced ixs e h k) (hc : e.CoversKeys ixs h op) :
    Traced ixs (e.step op).1 (h.record (op, (e.step op).2)) (k.recordKeys e op) :=
  ⟨ht.inv.step op, ht.passes.step ht.inv op, ht.keys.step ht.inv ht.passes op hc fun _ => trivial⟩

lemma Traced.run (ht : Traced ixs e h k) (ops : List Op) (hc : e.CoversKeysAll ixs h ops) :
    Traced ixs (e.run ops).1 (e.histories (h, k) ops).1 (e.histories (h, k) ops).2 := by
  induction ops generalizing e h k with
  | nil => exact ht
  | cons op ops ih => exact ih (ht.step hc.1) hc.2

lemma Engine.run_append (e : Engine) (ops ops' : List Op) :
    (e.run (ops ++ ops')).1 = ((e.run ops).1.run ops').1 := by
  induction ops generalizing e with
  | nil => rfl
  | cons op ops ih => exact ih (e.step op).1

lemma Engine.historyBut_append (skip : Op → Bool) (e : Engine) (hk : History × History)
    (ops ops' : List Op) : e.historyBut skip hk (ops ++ ops') =
      (e.run ops).1.historyBut skip (e.historyBut skip hk ops) ops' := by
  induction ops generalizing e hk with
  | nil => rfl
  | cons op ops ih => exact ih (e.step op).1 _

lemma Engine.coversKeysAll_append (ops ops' : List Op)
    (hc : e.CoversKeysAll ixs h (ops ++ ops')) :
    e.CoversKeysAll ixs h ops ∧
      (e.run ops).1.CoversKeysAll ixs (e.histories (h, k) ops).1 ops' := by
  induction ops generalizing e h k with
  | nil => exact ⟨trivial, hc⟩
  | cons op ops ih =>
    obtain ⟨hfirst, hrest⟩ := @ih _ _ (k.recordKeys e op) hc.2
    exact ⟨⟨hc.1, hfirst⟩, hrest⟩

/-- **Between the point and the return** both histories stand beside those without the calls. -/
theorem Kept.run (hh : Kept point txn h h') (hk : Kept point txn k k') (ops : List Op)
    (hreset : ∀ op ∈ ops, ¬point.ResetBy txn op) (htxn : txn < e.txns.nextTxnId) :
    Kept point txn (e.histories (h, k) ops).1 (e.historyBut (Op.writtenBy txn) (h', k') ops).1 ∧
      Kept point txn (e.histories (h, k) ops).2
        (e.historyBut (Op.writtenBy txn) (h', k') ops).2 := by
  induction ops generalizing e h h' k k' with
  | nil => exact ⟨hh, hk⟩
  | cons op ops ih =>
    have hlater : ∀ op' ∈ ops, ¬point.ResetBy txn op' :=
      fun op' hop' => hreset op' (mem_cons_of_mem _ hop')
    have hnext := lt_of_lt_of_le htxn (e.ids_step op).1
    have hnow := hreset op mem_cons_self
    -- a new transaction has a new id
    have hbegin : ∀ level, op = .begin level → (e.step op).2 ≠ .ok (.txn txn) := by
      rintro level rfl heq
      cases heq
      exact lt_irrefl _ htxn
    show Kept point txn ((e.step op).1.histories (h.record (op, (e.step op).2), k.recordKeys e op)
      ops).1 ((e.step op).1.historyBut _ (if Op.writtenBy txn op then _ else _) ops).1 ∧
        Kept point txn ((e.step op).1.histories (h.record (op, (e.step op).2), k.recordKeys e op)
          ops).2 ((e.step op).1.historyBut _ (if Op.writtenBy txn op then _ else _) ops).2
    by_cases hop : op.writer = some txn
    · have hskip : Op.writtenBy txn op = true := decide_eq_true hop
      rw [if_pos hskip]
      exact ih (hh.recordOwn hop _) (hk.recordKeysOwn e hop) hlater hnext
    · rw [if_neg (by simp [Op.writtenBy, hop])]
      exact ih (hh.record hop hnow hbegin) (hk.recordKeys e hop hnow hbegin) hlater hnext

lemma Beside.mark {g : History} {o : OpenTxn} (ho : g.running.get? txn = some o) (name : String) :
    Beside (.savepoint name) txn (g.mark txn name) (g.mark txn name) := by
  have hget : (g.mark txn name).running.get? txn =
      some { o with marks := (name, o.writes.length) :: o.marks.filter (·.1 ≠ name) } := by
    unfold History.mark
    rw [History.running_modify, if_pos rfl, ho]
    rfl
  refine ⟨rfl, rfl, fun _ _ => rfl, _, _, hget, hget, rfl, rfl, ⟨[], rfl⟩, o.marks.filter (·.1 ≠ name),
    fun hmem => ?_, .here⟩
  obtain ⟨p, hp, hname⟩ := mem_map.mp hmem
  exact of_decide_eq_true (mem_filter.mp hp).2 hname

/-- Right after a point is set, nothing was written since. -/
lemma Traced.beside (ht : Traced ixs e h k) (hset : point.SetBy txn op (e.step op).2) :
    Beside point txn (h.record (op, (e.step op).2)) (h.record (op, (e.step op).2)) ∧
      Beside point txn (k.recordKeys e op) (k.recordKeys e op) ∧
      txn < (e.step op).1.txns.nextTxnId := by
  cases point with
  | start =>
    obtain ⟨⟨level, rfl⟩, hout⟩ := hset
    obtain rfl : e.txns.nextTxnId = txn := by
      cases hout
      rfl
    have hnew : ∀ g : History, Beside .start e.txns.nextTxnId
        (g.record (.begin level, .ok (.txn e.txns.nextTxnId)))
        (g.record (.begin level, .ok (.txn e.txns.nextTxnId))) :=
      fun g => ⟨rfl, rfl, fun _ _ => rfl, _, _, OrdMap.get?_insert_self .., OrdMap.get?_insert_self ..,
        trivial⟩
    exact ⟨hnew h, hnew k, Nat.lt_succ_self _⟩
  | savepoint name =>
    obtain ⟨rfl, hok⟩ := hset
    obtain ⟨s, hs⟩ : ∃ s, e.txns.txns.get? txn = some s := by
      cases hs : e.txns.txns.get? txn with
      | some s => exact ⟨s, rfl⟩
      | none =>
        simp only [Engine.step, Engine.savepoint, hs] at hok
        cases hok
    have hout : (e.step (.savepoint txn name)).2 = .ok .unit := by
      simp only [Engine.step, Engine.savepoint, hs]
      rfl
    obtain ⟨o, ho⟩ := ht.inv.running_of_core (congrArg (Option.map _) hs)
    obtain ⟨ko, hko⟩ := ht.keys.cover.keys_of_running ho
    refine ⟨?_, ?_, ?_⟩
    · rw [hout]
      exact Beside.mark ho name
    · show Beside _ _ (k.record (.savepoint txn name, (e.step (.savepoint txn name)).2))
        (k.record (.savepoint txn name, (e.step (.savepoint txn name)).2))
      rw [hout]
      exact Beside.mark hko name
    · have hactive := ht.inv.mem_active_of_core (congrArg (Option.map _) hs)
      exact lt_of_lt_of_le (ht.inv.activeRange txn hactive).2 (e.ids_step _).1

lemma Engine.rollbackTo_ok {name : String} (hok : (e.step (.rollbackTo txn name)).2.isOk = true) :
    ∃ s, e.txns.txns.get? txn = some s ∧ name ∈ s.savepoints.map Prod.fst := by
  cases hs : e.txns.txns.get? txn with
  | none =>
    simp only [step, rollbackTo, hs] at hok
    cases hok
  | some s =>
    cases hdrop : s.savepoints.dropWhile (·.1 ≠ name) with
    | nil =>
      simp only [step, rollbackTo, hs, hdrop] at hok
      cases hok
    | cons p older =>
      refine ⟨s, rfl, mem_map.mpr ⟨p, ?_, fst_of_dropWhile hdrop⟩⟩
      exact (dropWhile_sublist _).subset (hdrop ▸ mem_cons_self)

lemma Traced.not_lost (ht : Traced ixs e h k) (hok : (e.step (point.undo txn)).2.isOk = true) :
    ¬Lost point txn h ∧ ¬Lost point txn k := by
  have hopen : ∀ {s : TxnState}, e.txns.txns.get? txn = some s →
      ∃ o ko, h.running.get? txn = some o ∧ k.running.get? txn = some ko := by
    intro s hs
    obtain ⟨o, ho⟩ := ht.inv.running_of_core (congrArg (Option.map _) hs)
    obtain ⟨ko, hko⟩ := ht.keys.cover.keys_of_running ho
    exact ⟨o, ko, ho, hko⟩
  cases point with
  | start =>
    have hok : (e.step (.rollback txn)).2.isOk = true := hok
    cases hs : e.txns.txns.get? txn with
    | none =>
      simp only [Engine.step, Engine.rollback, hs] at hok
      cases hok
    | some s =>
      obtain ⟨o, ko, ho, hko⟩ := hopen hs
      exact ⟨fun hlost => hlost o ho, fun hlost => hlost ko hko⟩
  | savepoint name =>
    obtain ⟨s, hs, hmem⟩ := rollbackTo_ok hok
    obtain ⟨o, ko, ho, hko⟩ := hopen hs
    -- the names are those of the engine's savepoints, in the rows' log and in the keys'
    have hnames : o.marks.map Prod.fst = s.savepoints.map Prod.fst :=
      (ht.inv.txn txn s.core o (congrArg (Option.map _) hs) ho).undo.rel.names
    have hkeys : ko.marks.map Prod.fst = o.marks.map Prod.fst :=
      (ht.keys.cover.cover txn o ko ho hko).names
    refine ⟨fun hlost => hlost o ho (hnames ▸ hmem), fun hlost => hlost ko hko ?_⟩
    rw [hkeys, hnames]
    exact hmem

/-- **The return makes the two histories one.** -/
theorem Traced.erased_eq (ht : Traced ixs e h k) (hset : point.SetBy txn op (e.step op).2)
    (mid : List Op) (hc : e.CoversKeysAll ixs h (op :: mid))
    (hreset : ∀ op ∈ mid, ¬point.ResetBy txn op)
    (hok : ((e.run (op :: mid)).1.step (point.undo txn)).2.isOk = true) (post : List Op) :
    (e.run (op :: mid)).1.histories
        ((e.step op).1.historyBut (Op.writtenBy txn)
          (h.record (op, (e.step op).2), k.recordKeys e op) mid) (point.undo txn :: post) =
      (e.run (op :: mid)).1.histories
        ((e.step op).1.histories (h.record (op, (e.step op).2), k.recordKeys e op) mid)
        (point.undo txn :: post) := by
  obtain ⟨hh, hk, htxn⟩ := ht.beside hset
  obtain ⟨hh, hk⟩ := Kept.run (Or.inl hh) (Or.inl hk) mid hreset htxn
  have htraced := (ht.step hc.1).run mid hc.2
  obtain ⟨hlost, hlostk⟩ := htraced.not_lost hok
  have hh := hh.resolve_right hlost
  have hk := hk.resolve_right hlostk
  have hplain : ∀ g : History, g.recordKeys (e.run (op :: mid)).1 (point.undo txn) =
      g.record (point.undo txn, ((e.run (op :: mid)).1.step (point.undo txn)).2) := by
    intro g
    cases point <;> rfl
  obtain ⟨v, hv⟩ : ∃ v, ((e.run (op :: mid)).1.step (point.undo txn)).2 = .ok v := by
    cases hout : ((e.run (op :: mid)).1.step (point.undo txn)).2 with
    | error err =>
      rw [hout] at hok
      cases hok
    | ok v => exact ⟨v, rfl⟩
  show histories _ (History.record _ _, History.recordKeys _ _ _) post =
    histories _ (History.record _ _, History.recordKeys _ _ _) post
  rw [hplain, hplain, hv, hh.undo, hk.undo]

end NusaDb
