import Mathlib.Logic.Relation
import NusaDb.Btree.Frame

/-!
# Lock sets

What a call does to the lock table is a sequence of moves of one transaction (`LockMove`). So an
open transaction holds every lock it held before, savepoint rollbacks included (`LocksMove`), and
lock table and lock sets agree (`LockTable`).
-/

namespace NusaDb

open Engine OrdMap Relation TxnDomain Option List

/-- The hold of a transaction on a lock: none, shared (`false`) or exclusive (`true`). -/
def Engine.lockOf (e : Engine) (txn : TxnId) (id : LockId) : Option Bool := (e.txns.locks id).get? txn

/-- A transaction holds all the locks it held, and those held exclusively still so. -/
def Engine.LocksKept (txn : TxnId) (e e' : Engine) : Prop :=
  ∀ id held, e.lockOf txn id = some held →
    ∃ held', e'.lockOf txn id = some held' ∧ (held = true → held' = true)

/-- Lock tables that differ in locks one transaction has acquired. -/
structure Acquires (txn : TxnId) (l l' : LockId → LockHolders) : Prop where
  others : ∀ t, t ≠ txn → ∀ id, (l' id).get? t = (l id).get? t
  own : ∀ id held, (l id).get? txn = some held →
    ∃ held', (l' id).get? txn = some held' ∧ (held = true → held' = true)

/-- What a call does to the locks, those of `txn` at most. -/
structure LocksMove (txn : TxnId) (e e' : Engine) : Prop where
  others : ∀ t, t ≠ txn → ∀ id, e'.lockOf t id = e.lockOf t id
  own : txn ∈ e'.txns.active → e.LocksKept txn e'
  new : ∀ id, (e'.lockOf txn id).isSome → (e.lockOf txn id).isSome ∨ txn ∈ e.txns.active

def Holds (locks : LockId → LockHolders) (txn : TxnId) (id : LockId) : Prop :=
  ((locks id).get? txn).isSome

def LockId.tableOf : LockId → Option TableId
  | .row t _ _ => some t
  | .key t _ => some t
  | .table _ => none

/-- One move of `txn`, as far as locks go. A lock in a table is taken under the table's, and so is
an undo record of a row in it. -/
inductive LockMove (txn : TxnId) (d d' : TxnDomain) : Prop where
  | keep (htxns : d'.txns = d.txns) (hlocks : d'.locks = d.locks) (hactive : d'.active ⊆ d.active)
  | modify {f : TxnState → TxnState} (htxns : d'.txns = d.txns.modify txn f)
      (hlocks : d'.locks = d.locks) (hactive : d'.active = d.active)
      (hset : ∀ s, (f s).locks = s.locks)
      (hundo : ∀ s, ∀ op ∈ (f s).undo,
        op ∈ s.undo ∨ ∀ table, op.rowTable = some table → Holds d.locks txn (.table table))
  | acquire {id : LockId} {exclusive : Bool}
      (hunder : ∀ table, id.tableOf = some table → Holds d.locks txn (.table table))
      (hok : d.acquireLock txn id exclusive = .ok d')
  | leave {s : TxnState} (hs : d.txns.get? txn = some s) (htxns : d'.txns = d.txns.erase txn)
      (hlocks : ∀ id t, (d'.locks id).get? t =
        if id ∈ s.locks ∧ t = txn then none else (d.locks id).get? t) (hgone : txn ∉ d'.active)

def LockMoves (txn : TxnId) : TxnDomain → TxnDomain → Prop := ReflTransGen (LockMove txn)

structure LockTable (txns : OrdMap TxnId TxnState) (locks : LockId → LockHolders) : Prop where
  sole : ∀ id t, (locks id).get? t = some true → ∀ t', Holds locks t' id → t' = t
  held : ∀ id t, Holds locks t id ↔ ∃ s, txns.get? t = some s ∧ id ∈ s.locks
  under : ∀ id table, id.tableOf = some table → ∀ t, Holds locks t id → Holds locks t (.table table)
  written : ∀ t s, txns.get? t = some s → ∀ op ∈ s.undo, ∀ table, op.rowTable = some table →
    Holds locks t (.table table)

variable {e e' : Engine} {txn : TxnId} {d d' : TxnDomain} {id : LockId} {exclusive : Bool}

lemma Acquires.refl (txn : TxnId) (l : LockId → LockHolders) : Acquires txn l l :=
  ⟨fun _ _ _ => rfl, fun _ held hheld => ⟨held, hheld, fun h => h⟩⟩

lemma Engine.LocksKept.refl (txn : TxnId) (e : Engine) : e.LocksKept txn e := (Acquires.refl ..).own

lemma Engine.LocksKept.trans {e'' : Engine} (h1 : e.LocksKept txn e') (h2 : e'.LocksKept txn e'') :
    e.LocksKept txn e'' := by
  intro id held hheld
  obtain ⟨held', hheld', hmono⟩ := h1 id held hheld
  obtain ⟨held'', hheld'', hmono'⟩ := h2 id held' hheld'
  exact ⟨held'', hheld'', fun h => hmono' (hmono h)⟩

lemma Acquires.trans {l l' l'' : LockId → LockHolders} (h1 : Acquires txn l l')
    (h2 : Acquires txn l' l'') : Acquires txn l l'' := by
  refine ⟨fun t ht id => (h2.others t ht id).trans (h1.others t ht id), fun id held hheld => ?_⟩
  obtain ⟨held', hheld', hmono⟩ := h1.own id held hheld
  obtain ⟨held'', hheld'', hmono'⟩ := h2.own id held' hheld'
  exact ⟨held'', hheld'', fun h => hmono' (hmono h)⟩

/-! ## The lock table under one operation -/

lemma TxnDomain.get?_setHolders_insert (d : TxnDomain) (id : LockId) (m : Bool) (id' : LockId)
    (t : TxnId) :
    ((d.setHolders id ((d.locks id).insert txn m)).locks id').get? t =
      if id' = id ∧ t = txn then some m else (d.locks id').get? t := by
  unfold setHolders
  dsimp only
  by_cases hid : id' = id
  · subst hid
    rw [if_pos rfl, get?_insert]
    simp only [true_and, eq_comm]
  · rw [if_neg hid, if_neg fun h => hid h.1]

lemma TxnDomain.get?_releaseLocks (d : TxnDomain) (txn : TxnId) (held : List LockId) (id : LockId)
    (t : TxnId) :
    ((d.releaseLocks txn held).locks id).get? t =
      if id ∈ held ∧ t = txn then none else (d.locks id).get? t := by
  unfold releaseLocks
  induction held generalizing d with
  | nil => simp only [foldl_nil, not_mem_nil, false_and, if_false]
  | cons id' held ih =>
    rw [foldl_cons, ih]
    unfold setHolders
    dsimp only
    by_cases hid : id = id'
    · subst hid
      rw [if_pos rfl, get?_erase]
      grind
    · grind

lemma LockTable.grant {txns txns' : OrdMap TxnId TxnState} (ht : LockTable txns d.locks) {m : Bool}
    (hunder : ∀ table, id.tableOf = some table → Holds d.locks txn (.table table))
    (hsole : ∀ t, t ≠ txn → (d.locks id).get? t ≠ some true ∧ (m = true → ¬Holds d.locks t id))
    (hsets : ∀ t id', (∃ s, txns'.get? t = some s ∧ id' ∈ s.locks) ↔
      (∃ s, txns.get? t = some s ∧ id' ∈ s.locks) ∨ id' = id ∧ t = txn)
    (hundo : ∀ t s', txns'.get? t = some s' → ∃ s, txns.get? t = some s ∧ s'.undo = s.undo) :
    LockTable txns' (d.setHolders id ((d.locks id).insert txn m)).locks := by
  have hholds : ∀ t id', Holds (d.setHolders id ((d.locks id).insert txn m)).locks t id' ↔
      Holds d.locks t id' ∨ id' = id ∧ t = txn := by
    intro t id'
    unfold Holds
    rw [d.get?_setHolders_insert]
    grind
  obtain ⟨hsole', hheld, hunder', hwritten⟩ := ht
  refine ⟨fun id' t htrue t' ht' => ?_, fun id' t => ?_, ?_, ?_⟩
  · -- a new holder next to an exclusive one, or the other way, is refused
    rw [d.get?_setHolders_insert] at htrue
    grind
  · rw [hholds, hheld, hsets]
  · grind
  · grind

/-- **Every move of the lock table keeps it**: holders and owners name each other. -/
theorem LockTable.move (ht : LockTable d.txns d.locks) (hm : LockMove txn d d') :
    LockTable d'.txns d'.locks := by
  cases hm with
  | keep htxns hlocks =>
    rw [htxns, hlocks]
    exact ht
  | @modify f htxns hlocks _ hset hundo =>
    rw [htxns, hlocks]
    refine ⟨ht.sole, fun id t => ?_, ht.under, fun t s' hs' op hop table htab => ?_⟩
    · rw [ht.held, get?_modify]
      split
      case isTrue htxn =>
        subst htxn
        simp only [map_eq_some_iff, ↓existsAndEq, and_true, hset]
      case isFalse => rfl
    · rw [get?_modify] at hs'
      split at hs'
      case isTrue htxn =>
        subst htxn
        obtain ⟨s, hs, rfl⟩ := map_eq_some_iff.mp hs'
        rcases hundo s op hop with hold | hnew
        · exact ht.written txn s hs op hold table htab
        · exact hnew table htab
      case isFalse => exact ht.written t s' hs' op hop table htab
  | @acquire id exclusive hunder hok =>
    rcases acquireLock_ok hok with
      ⟨-, rfl⟩ | ⟨hheld, hone, rfl⟩ | ⟨hnone, hcompat, rfl⟩
    · exact ht
    · -- the only holder of a lock is the transaction that upgrades it
      have honly : ∀ t, Holds d.locks t id → t = txn := by
        obtain ⟨k, hk⟩ := length_eq_one_iff.mp hone
        have hkey : ∀ t, Holds d.locks t id → t = k := by
          intro t hholds
          exact mem_singleton.mp (hk ▸ mem_keys.mpr hholds)
        intro t hholds
        exact (hkey t hholds).trans (hkey txn (by unfold Holds; rw [hheld]; rfl)).symm
      refine ht.grant hunder (fun t hne => ⟨fun htrue => hne (honly t ?_), fun _ h => hne (honly t h)⟩)
        (fun t id' => ?_) fun t s hs => ⟨s, hs, rfl⟩
      · unfold Holds
        rw [htrue]
        rfl
      · change (∃ s, d.txns.get? t = some s ∧ id' ∈ s.locks) ↔ _
        have hset := ht.held id txn
        unfold Holds at hset
        grind
    · obtain ⟨s, hs⟩ := acquireLock_open hok
      refine ht.grant hunder (fun t _ => ?_) (fun t id' => ?_) fun t s' hs' => ?_
      · unfold Holds
        cases hm : (d.locks id).get? t with
        | none => exact ⟨nofun, fun _ => nofun⟩
        | some m => grind
      · show (∃ s, (d.txns.modify txn _).get? t = some s ∧ id' ∈ s.locks) ↔ _
        rw [get?_modify]
        grind
      · change (d.txns.modify txn _).get? t = some s' at hs'
        rw [get?_modify] at hs'
        grind
  | @leave s hs htxns hlocks =>
    have hholds : ∀ t id, Holds d'.locks t id ↔ Holds d.locks t id ∧ t ≠ txn := by
      intro t id
      have hheld := ht.held id t
      unfold Holds at hheld ⊢
      grind
    have hstates : ∀ t s', d'.txns.get? t = some s' ↔ d.txns.get? t = some s' ∧ t ≠ txn := by
      intro t s'
      rw [htxns, get?_erase]
      grind
    obtain ⟨hsole, hheld, hunder, hwritten⟩ := ht
    refine ⟨fun id t htrue => ?_, fun id t => ?_, ?_, ?_⟩
    · grind
    · grind
    · grind
    · grind

lemma LockTable.moves (ht : LockTable d.txns d.locks) (hm : LockMoves txn d d') :
    LockTable d'.txns d'.locks := by
  induction hm with
  | refl => exact ht
  | tail _ hmove ih => exact ih.move hmove

lemma Acquires.acquireLock (hok : d.acquireLock txn id exclusive = .ok d') :
    Acquires txn d.locks d'.locks ∧ d'.active = d.active := by
  have hinsert : ∀ m, ((d.locks id).get? txn = some true → m = true) →
      Acquires txn d.locks (d.setHolders id ((d.locks id).insert txn m)).locks := by
    intro m hm
    refine ⟨fun t ht id' => ?_, fun id' held hheld => ?_⟩
    · rw [d.get?_setHolders_insert, if_neg fun h => ht h.2]
    · rw [d.get?_setHolders_insert]
      grind
  rcases acquireLock_ok hok with ⟨-, rfl⟩ | ⟨hheld, -, rfl⟩ | ⟨hnone, -, rfl⟩
  · exact ⟨.refl .., rfl⟩
  · exact ⟨hinsert true fun _ => rfl, rfl⟩
  · refine ⟨hinsert exclusive fun hheld => ?_, rfl⟩
    cases hnone.symm.trans hheld

/-- What one move does to the locks: others keep theirs, and `txn` adds to its own unless it ends. -/
lemma LockMove.locks (hm : LockMove txn d d') :
    (∀ t, t ≠ txn → ∀ id, (d'.locks id).get? t = (d.locks id).get? t) ∧
      (txn ∈ d'.active → txn ∈ d.active ∧ Acquires txn d.locks d'.locks) := by
  cases hm with
  | keep _ hlocks hsub =>
    rw [hlocks]
    exact ⟨fun _ _ _ => rfl, fun hin => ⟨hsub hin, .refl ..⟩⟩
  | modify _ hlocks heq =>
    rw [hlocks, heq]
    exact ⟨fun _ _ _ => rfl, fun hin => ⟨hin, .refl ..⟩⟩
  | acquire _ hok =>
    obtain ⟨hacq, heq⟩ := Acquires.acquireLock hok
    exact ⟨hacq.others, fun hin => ⟨heq ▸ hin, hacq⟩⟩
  | leave _ _ hlocks hgone =>
    refine ⟨fun t ht id => ?_, fun hin => absurd hin hgone⟩
    rw [hlocks, if_neg fun h => ht h.2]

lemma LockMove.not_open (hm : LockMove txn d d') (hnone : d.txns.get? txn = none) :
    d'.txns.get? txn = none ∧ d'.locks = d.locks := by
  cases hm with
  | keep htxns hlocks => exact ⟨htxns ▸ hnone, hlocks⟩
  | modify htxns hlocks =>
    rw [htxns, get?_modify, if_pos rfl, hnone]
    exact ⟨rfl, hlocks⟩
  | acquire _ hok =>
    obtain ⟨s, hs⟩ := acquireLock_open hok
    cases hnone.symm.trans hs
  | leave hs => cases hnone.symm.trans hs

lemma LockMoves.locks (hm : LockMoves txn d d') :
    (∀ t, t ≠ txn → ∀ id, (d'.locks id).get? t = (d.locks id).get? t) ∧
      (txn ∈ d'.active → Acquires txn d.locks d'.locks) ∧
      (d.txns.get? txn = none → d'.txns.get? txn = none ∧ d'.locks = d.locks) := by
  induction hm with
  | refl => exact ⟨fun _ _ _ => rfl, fun _ => .refl .., fun hnone => ⟨hnone, rfl⟩⟩
  | tail _ hmove ih =>
    obtain ⟨hothers, hown, hnone⟩ := ih
    obtain ⟨hothers', hown'⟩ := hmove.locks
    refine ⟨fun t ht id => (hothers' t ht id).trans (hothers t ht id),
      fun hin => (hown (hown' hin).1).trans (hown' hin).2, fun h => ?_⟩
    obtain ⟨hgone, hlocks⟩ := hmove.not_open (hnone h).1
    exact ⟨hgone, hlocks.trans (hnone h).2⟩

lemma LocksMove.of_moves (hact : ∀ t, (e.txns.txns.get? t).isSome → t ∈ e.txns.active)
    (hm : LockMoves txn e.txns e'.txns) : LocksMove txn e e' := by
  obtain ⟨hothers, hown, hnone⟩ := hm.locks
  refine ⟨hothers, fun hin => (hown hin).own, fun id hsome => ?_⟩
  cases hopen : e.txns.txns.get? txn with
  | some s => exact .inr (hact txn (by rw [hopen]; rfl))
  | none =>
    unfold lockOf at hsome ⊢
    rw [(hnone hopen).2] at hsome
    exact .inl hsome

/-! ## One call -/

lemma LockMoves.trans {d'' : TxnDomain} (h1 : LockMoves txn d d') (h2 : LockMoves txn d' d'') :
    LockMoves txn d d'' :=
  ReflTransGen.trans h1 h2

lemma LockMoves.same (htxns : d'.txns = d.txns) (hlocks : d'.locks = d.locks)
    (hactive : d'.active = d.active) : LockMoves txn d d' :=
  .single (.keep htxns hlocks (hactive ▸ fun _ h => h))

lemma LockMoves.modifyTxn {f : TxnState → TxnState} (hset : ∀ s, (f s).locks = s.locks)
    (hundo : ∀ s, (f s).undo ⊆ s.undo) : LockMoves txn d (d.modifyTxn txn f) :=
  .single (.modify rfl rfl rfl hset fun s _ hop => .inl (hundo s hop))

variable (e txn)

lemma LockMoves.pushAll (ops : List UndoOp)
    (hheld : ∀ op ∈ ops, ∀ table, op.rowTable = some table → Holds e.txns.locks txn (.table table)) :
    LockMoves txn e.txns (e.pushAll txn ops).txns := by
  refine .single (.modify rfl rfl rfl (fun _ => rfl) fun s op hop => ?_)
  rcases mem_append.mp hop with hnew | hold
  · exact .inr (hheld op hnew)
  · exact .inl hold

lemma LockMoves.pushEntries {pos : Pos} {ops : List UndoOp}
    (hone : OneAt pos ops) : LockMoves txn e.txns (e.pushAll txn ops).txns := by
  refine .pushAll e txn ops fun op hop table htab => ?_
  rcases hone with rfl | ⟨op', rfl, hpos⟩
  · cases hop
  cases mem_singleton.mp hop
  cases op with
  | indexInserted | indexDeleted => cases htab
  | _ => cases hpos

lemma LockMoves.pushUndo {op : UndoOp} {table : TableId}
    (htab : op.rowTable = some table) (hheld : Holds e.txns.locks txn (.table table)) :
    LockMoves txn e.txns (e.pushUndo txn op).txns := by
  refine LockMoves.pushAll e txn [op] ?_
  intro op' hop table' htab'
  cases mem_singleton.mp hop
  cases htab.symm.trans htab'
  exact hheld

variable {e txn}

lemma TxnDomain.acquireLock_holds (hok : d.acquireLock txn id exclusive = .ok d') :
    Holds d'.locks txn id := by
  have hinsert : ∀ m, Holds (d.setHolders id ((d.locks id).insert txn m)).locks txn id := by
    intro m
    unfold Holds
    rw [d.get?_setHolders_insert, if_pos ⟨rfl, rfl⟩]
    rfl
  rcases acquireLock_ok hok with ⟨hheld, rfl⟩ | ⟨-, -, rfl⟩ | ⟨-, -, rfl⟩
  · exact hheld
  · exact hinsert true
  · exact hinsert exclusive

namespace LockMoves

lemma tableLock {table : TableId}
    (hok : d.acquireLock txn (.table table) exclusive = .ok d') : LockMoves txn d d' := by
  refine .single (.acquire ?_ hok)
  intro _ htab
  cases htab

lemma lockUnder {table : TableId} (hid : id.tableOf = some table) {r : Except Error Unit}
    (hlock : e.lockUnder txn table id exclusive = (e', r)) :
    LockMoves txn e.txns e'.txns ∧ (r = .ok () → Holds e'.txns.locks txn (.table table)) := by
  unfold Engine.lockUnder at hlock
  split at hlock
  case isTrue =>
    cases hlock
    exact ⟨.refl, nofun⟩
  split at hlock
  case h_1 =>
    cases hlock
    exact ⟨.refl, nofun⟩
  case h_2 d hd =>
    have hfirst : LockMoves txn e.txns d := .tableLock hd
    have hheld : Holds d.locks txn (.table table) := acquireLock_holds hd
    split at hlock
    case h_1 =>
      cases hlock
      exact ⟨hfirst, fun _ => hheld⟩
    case h_2 d' hd' =>
      cases hlock
      refine ⟨hfirst.tail (.acquire ?_ hd'), fun _ => ?_⟩
      · intro table' htab
        cases hid.symm.trans htab
        exact hheld
      · obtain ⟨m, hm⟩ := isSome_iff_exists.mp hheld
        obtain ⟨m', hm', -⟩ := (Acquires.acquireLock hd').1.own _ m hm
        exact isSome_iff_exists.mpr ⟨m', hm'⟩

lemma insertRows (txn : TxnId) (table : TableId) (tuples : List Tuple) (e : Engine)
    (row : RowId) (hheld : Holds e.txns.locks txn (.table table)) :
    LockMoves txn e.txns (insertRows txn table e row tuples).txns := by
  induction tuples generalizing e row with
  | nil => exact .refl
  | cons tuple rest ih =>
    refine .trans ?_ (ih (Engine.pushUndo { e with tables := _ } txn (.inserted table row)) _ hheld)
    exact .pushUndo { e with tables := _ } txn rfl hheld

lemma abortWith {s : TxnState} (hs : d.txns.get? txn = some s)
    (htxns : e.txns.txns = d.txns.erase txn) (hlocks : e.txns.locks = d.locks) (logMarker : Bool) :
    LockMoves txn d (e.abortWith txn s logMarker).txns := by
  obtain ⟨htxns', hactive, -⟩ := e.abortWith_fields txn s logMarker
  refine .single (.leave hs (htxns'.trans htxns) (fun id t => ?_) ?_)
  · let d1 := { (e.undoOps txn s.undo).txns with
      active := (e.undoOps txn s.undo).txns.active.filter (· ≠ txn) }
    have hlock : ((e.abortWith txn s logMarker).txns.locks id).get? t =
        ((d1.releaseLocks txn s.locks).locks id).get? t := by
      unfold Engine.abortWith
      split <;> rfl
    rw [hlock, d1.get?_releaseLocks, ← hlocks, ← (e.undoOps_frame txn s.undo).1]
  · rw [hactive]
    exact fun hin => ((mem_filter_ne txn).mp hin).2 rfl

lemma abort {s : TxnState} (hs : d.txns.get? txn = some s)
    (htxns : e.txns.txns = d.txns) (hlocks : e.txns.locks = d.locks) :
    LockMoves txn d (e.abort txn s).txns :=
  LockMoves.abortWith (e := e.takeTxn txn) hs (congrArg (erase · txn) htxns) hlocks true

lemma finishCommit (hfrom : LockMoves txn d d') :
    LockMoves txn d (d'.finishCommit txn) := by
  refine hfrom.tail ?_
  unfold TxnDomain.finishCommit
  split
  case h_1 => exact .keep rfl rfl fun _ hin => (mem_filter.mp hin).1
  case h_2 s hs =>
    let d1 := { d' with txns := d'.txns.erase txn }
    refine .leave hs (releaseLocks_fields d1 txn s.locks).1 (fun id t => ?_) ?_
    · exact get?_releaseLocks d1 txn s.locks id t
    · exact fun hin => ((mem_filter_ne txn).mp hin).2 rfl

end LockMoves

variable (e txn)

lemma LockMoves.indexInsert (index : IndexId) (key : Key) (tid : Tid) :
    LockMoves txn e.txns (e.indexInsert txn index key tid).1.txns := by
  rcases e.indexInsert_cases txn index key tid with ⟨err, heq⟩ | ⟨s, i, -, -, heq⟩ <;> rw [heq]
  · exact .refl
  · exact .pushEntries _ txn (RowEntries.oneAt_insertOps ..)

lemma LockMoves.rollbackTo (name : String) :
    LockMoves txn e.txns (e.rollbackTo txn name).1.txns := by
  unfold Engine.rollbackTo
  split
  · exact .refl
  split
  · exact .refl
  show LockMoves txn _ (undoOps _ txn _).txns
  rw [(undoOps_frame _ txn _).1]
  exact .modifyTxn (fun _ => rfl) fun s => drop_subset _ s.undo

lemma LockMoves.rollback : LockMoves txn e.txns (e.rollback txn).1.txns := by
  unfold Engine.rollback
  split
  · exact .refl
  split
  · exact .refl
  · exact .abort ‹_› rfl rfl

lemma Engine.rollbackTo_locks (name : String) :
    (e.step (.rollbackTo txn name)).1.txns.locks = e.txns.locks := by
  simp only [step, rollbackTo]
  split
  · rfl
  split
  · rfl
  · rw [(undoOps_frame _ txn _).1]
    rfl

/-- **Every call but a begin is a sequence of moves of one transaction.** -/
theorem Engine.lockMoves_step {op : Op} (hop : ∀ level, op ≠ .begin level) :
    ∃ txn, LockMoves txn e.txns (e.step op).1.txns := by
  cases op with
  | begin level => exact absurd rfl (hop level)
  | beginStatement txn =>
    refine ⟨txn, ?_⟩
    simp only [step, beginStatement]
    split
    · exact .refl
    split
    · exact .modifyTxn (fun _ => rfl) fun _ _ h => h
    · exact .refl
  | insert txn table tuple =>
    refine ⟨txn, ?_⟩
    simp only [step, insert]
    split
    · exact .refl
    split
    · exact .refl
    split
    · exact .refl
    split
    · exact .refl
    rename_i d hd
    refine LockMoves.trans (.tableLock hd) ?_
    exact LockMoves.pushUndo { e with txns := d } txn rfl (acquireLock_holds hd)
  | insertBatch txn table tuples =>
    refine ⟨txn, ?_⟩
    simp only [step, insertBatch]
    split
    · exact .refl
    split
    · exact .refl
    split
    · exact .refl
    split
    · exact .refl
    split
    · exact .refl
    rename_i d hd
    refine LockMoves.trans (.tableLock hd) ?_
    exact LockMoves.insertRows txn table tuples { e with txns := d, tables := _ } _
      (acquireLock_holds hd)
  | update txn table tid tuple =>
    refine ⟨txn, ?_⟩
    simp only [step, update]
    split
    · exact .refl
    split
    · exact .refl
    split
    · exact (LockMoves.lockUnder rfl ‹_›).1
    rename_i hlock
    obtain ⟨hm, hheld⟩ := LockMoves.lockUnder rfl hlock
    split
    · exact hm
    split
    · exact hm
    · exact LockMoves.trans hm (.pushUndo _ txn rfl (hheld rfl))
  | delete txn table tid =>
    refine ⟨txn, ?_⟩
    simp only [step, delete]
    split
    · exact .refl
    split
    · exact (LockMoves.lockUnder rfl ‹_›).1
    rename_i hlock
    obtain ⟨hm, hheld⟩ := LockMoves.lockUnder rfl hlock
    split
    · exact hm
    split
    · exact hm
    · exact LockMoves.trans hm (.pushUndo _ txn rfl (hheld rfl))
  | scan txn table =>
    refine ⟨txn, ?_⟩
    simp only [step, scan]
    split
    · exact .refl
    split
    · exact .refl
    split
    · exact .modifyTxn (fun _ => rfl) fun _ _ h => h
    · exact .refl
  | scanCommitted txn table => exact ⟨txn, .refl⟩
  | indexInsert txn index key tid => exact ⟨txn, .indexInsert e txn index key tid⟩
  | indexInsertBatch txn index entries =>
    refine ⟨txn, ?_⟩
    refine indexInsertEach_induct (P := fun d => LockMoves txn e.txns d.txns) ?_ _ .refl
    intro d key tid hd
    exact .trans hd (.indexInsert d txn index key tid)
  | indexDelete txn index key tid =>
    refine ⟨txn, ?_⟩
    simp only [step]
    rcases e.indexDelete_cases txn index key tid with ⟨r, heq⟩ | ⟨s, i, -, -, heq⟩ <;> rw [heq]
    · exact .refl
    · exact .pushEntries _ txn (RowEntries.oneAt_deleteOps ..)
  | indexScan txn index lo hi backward limit =>
    refine ⟨txn, ?_⟩
    simp only [step, indexScan]
    split
    · exact .refl
    split
    · exact .refl
    split
    · exact .refl
    split
    · exact .modifyTxn (fun _ => rfl) fun _ _ h => h
    · exact .refl
  | indexScanCommitted txn index lo hi => exact ⟨txn, .refl⟩
  | savepoint txn name =>
    refine ⟨txn, ?_⟩
    simp only [step, savepoint]
    split
    · exact .refl
    · exact .modifyTxn (fun _ => rfl) fun _ _ h => h
  | rollbackTo txn name => exact ⟨txn, .rollbackTo e txn name⟩
  | releaseSavepoint txn name =>
    refine ⟨txn, ?_⟩
    simp only [step, releaseSavepoint]
    split
    · exact .refl
    split
    · exact .refl
    · exact .modifyTxn (fun _ => rfl) fun _ _ h => h
  | commit txn =>
    refine ⟨txn, ?_⟩
    simp only [step, commit]
    split
    · exact .refl
    split
    · exact .refl
    split
    · exact .abort ‹_› rfl rfl
    split
    · exact .finishCommit .refl
    · exact .finishCommit (.same rfl rfl rfl)
  | rollback txn => exact ⟨txn, .rollback e txn⟩
  | prepareTxn txn gid owner database =>
    refine ⟨txn, ?_⟩
    simp only [step, prepareTxn]
    split
    · exact .refl
    split
    · exact .refl
    split
    · exact .abort ‹_› rfl rfl
    split
    · exact .abort ‹_› rfl rfl
    split
    · exact .abort ‹_› rfl rfl
    · exact .single (.modify rfl rfl rfl (fun _ => rfl) fun _ _ h => .inl h)
  | finishPrepared gid owner commit =>
    simp only [step, finishPrepared]
    split
    · exact ⟨0, .refl⟩
    rename_i txn hgid
    refine ⟨txn, ?_⟩
    split
    · exact .refl
    cases commit with
    | true => exact .finishCommit (.same rfl rfl rfl)
    | false =>
      cases hs : e.txns.txns.get? txn with
      | none =>
        rw [finishTxn_none hs]
        exact .same rfl rfl rfl
      | some s =>
        rw [finishTxn_abort hs]
        refine LockMoves.abortWith hs ?_ ?_ false <;> rfl
  | lockRow txn table tid exclusive | lockKey txn table hash exclusive =>
    exact ⟨txn, (LockMoves.lockUnder rfl rfl).1⟩
  | lockRowCurrent txn table tid exclusive =>
    refine ⟨txn, ?_⟩
    simp only [step, lockRowCurrent_fst]
    exact (LockMoves.lockUnder rfl rfl).1
  | lockTable txn table exclusive =>
    refine ⟨txn, ?_⟩
    simp only [step, lockTable]
    split
    · exact .refl
    split
    · exact .tableLock ‹_›
    · exact .refl
  | purgeStart => exact ⟨0, .refl⟩
  | purgeStep pass pressure =>
    refine ⟨0, ?_⟩
    show LockMoves 0 e.txns (e.purgeStep pass pressure).txns
    rw [e.purgeStep_txns pass pressure]
    exact .refl

variable {e txn}

/-- **Every call moves the locks of one transaction at most.** -/
theorem Engine.locksMove_step (hact : ∀ t, (e.txns.txns.get? t).isSome → t ∈ e.txns.active)
    (op : Op) : ∃ txn, LocksMove txn e (e.step op).1 := by
  by_cases hop : ∀ level, op ≠ .begin level
  · obtain ⟨txn, hm⟩ := e.lockMoves_step hop
    exact ⟨txn, .of_moves hact hm⟩
  obtain ⟨level, rfl⟩ : ∃ level, op = .begin level := by
    simpa only [not_forall, not_not] using hop
  exact ⟨0, (Acquires.refl 0 _).others, fun _ => (Acquires.refl 0 _).own, fun _ => .inl⟩

/-! ## Whole runs -/

def Engine.LocksOk (e : Engine) : Prop :=
  ∀ t id, (e.lockOf t id).isSome → t < e.txns.nextTxnId

variable {h : History}

lemma Inv.active_of_open (hinv : Inv e h) :
    ∀ t, (e.txns.txns.get? t).isSome → t ∈ e.txns.active := by
  intro t ht
  rw [hinv.active]
  unfold core
  rwa [isSome_map]

lemma Engine.not_active_run {t : TxnId} (hgone : t ∉ e.txns.active) (hlt : t < e.txns.nextTxnId)
    (ops : List Op) : t ∉ (e.run ops).1.txns.active := by
  induction ops generalizing e with
  | nil => exact hgone
  | cons op ops ih =>
    refine ih (fun hin => ?_) (lt_of_lt_of_le hlt (e.ids_step op).1)
    rcases (e.ids_step op).2 t hin with hold | hnew
    · exact hgone hold
    · exact not_lt.mpr hnew hlt

/-- **A transaction that is still open has kept its locks.** -/
theorem Inv.locksKept_run (hinv : Inv e h) (hlt : txn < e.txns.nextTxnId) (ops : List Op)
    (hopen : txn ∈ (e.run ops).1.txns.active) : e.LocksKept txn (e.run ops).1 := by
  induction ops generalizing e h with
  | nil => exact .refl txn e
  | cons op ops ih =>
    have hnext := lt_of_lt_of_le hlt (e.ids_step op).1
    refine LocksKept.trans ?_ (ih (hinv.step op) hnext hopen)
    obtain ⟨t, hm⟩ := locksMove_step hinv.active_of_open op
    by_cases ht : txn = t
    · subst ht
      refine hm.own ?_
      by_contra hgone
      exact not_active_run hgone hnext ops hopen
    · intro id held hheld
      exact ⟨held, (hm.others txn ht id).trans hheld, fun h => h⟩

lemma Inv.lockTable_step (hinv : Inv e h) (ht : LockTable e.txns.txns e.txns.locks) (op : Op) :
    LockTable (e.step op).1.txns.txns (e.step op).1.txns.locks := by
  by_cases hop : ∀ level, op ≠ .begin level
  · obtain ⟨txn, hm⟩ := e.lockMoves_step hop
    exact ht.moves hm
  obtain ⟨level, rfl⟩ : ∃ level, op = .begin level := by
    simpa only [not_forall, not_not] using hop
  -- the new transaction was not open, so nothing is held in its name
  have hfresh : e.txns.txns.get? e.txns.nextTxnId = none := by
    rw [← not_isSome_iff_eq_none]
    exact fun hopen => lt_irrefl _ (hinv.activeRange _ (hinv.active_of_open _ hopen)).2
  refine ⟨ht.sole, fun id t => ?_, ht.under, fun t s hs op hop table htab => ?_⟩
  · show Holds e.txns.locks t id ↔ ∃ s, (e.txns.txns.insert e.txns.nextTxnId _).get? t = some s ∧ _
    rw [ht.held, get?_insert]
    split
    case isTrue hnew =>
      subst hnew
      simp [hfresh]
    case isFalse => rfl
  · change (e.txns.txns.insert e.txns.nextTxnId _).get? t = some s at hs
    rw [get?_insert] at hs
    split at hs
    · cases hs
      cases hop
    · exact ht.written t s hs op hop table htab

lemma Inv.lockTable_run (hinv : Inv e h) (ht : LockTable e.txns.txns e.txns.locks) (ops : List Op) :
    LockTable (e.run ops).1.txns.txns (e.run ops).1.txns.locks := by
  induction ops generalizing e h with
  | nil => exact ht
  | cons op ops ih => exact ih (hinv.step op) (hinv.lockTable_step ht op)

lemma LockTable.init (hf : e.Fresh) : LockTable e.txns.txns e.txns.locks := by
  rw [hf.txns]
  exact ⟨nofun, fun _ _ => ⟨nofun, nofun⟩, nofun, nofun⟩

lemma LockTable.locksOk (ht : LockTable e.txns.txns e.txns.locks) (hinv : Inv e h) : e.LocksOk := by
  intro t id hsome
  obtain ⟨s, hs, -⟩ := (ht.held id t).mp hsome
  exact (hinv.activeRange t (hinv.active_of_open t (by rw [hs]; rfl))).2

lemma LockTable.mem_heldLocks (ht : LockTable d.txns d.locks) (t : TxnId) (id : LockId) (m : Bool) :
    (⟨id, m⟩ : PreparedLock) ∈ heldLocks d t ↔ (d.locks id).get? t = some m := by
  have hheld := ht.held id t
  unfold Holds at hheld
  unfold heldLocks
  cases hm : (d.locks id).get? t <;> cases hs : d.txns.get? t <;> grind

/-- **The lock table of every reachable state.** A lock has one exclusive holder or only shared
ones. A transaction holds a lock in a mode exactly when it lists it so, and one neither open nor
parked holds none. While it has a table exclusively, no other has a row of it locked, nor a change
to one to undo. -/
theorem lockTable_reachable (hf : e.Fresh) (ops : List Op) : let d := (e.run ops).1.txns
    (∀ id, (∃ t, ∀ t' m, (d.locks id).get? t' = some m ↔ t' = t ∧ m = true) ∨
      ∀ t m, (d.locks id).get? t = some m → m = false) ∧
    (∀ t id m, (d.locks id).get? t = some m ↔ (⟨id, m⟩ : PreparedLock) ∈ heldLocks d t) ∧
    (∀ t, d.txns.get? t = none → ∀ id, (d.locks id).get? t = none) ∧
    ∀ t table, (d.locks (.table table)).get? t = some true → ∀ t', t' ≠ t →
      (∀ page slot, (d.locks (.row table page slot)).get? t' = none) ∧ table ∉ d.touchedTables t' := by
  intro d
  have ht := (Inv.init hf).lockTable_run (.init hf) ops
  refine ⟨fun id => ?_, fun t id m => (ht.mem_heldLocks t id m).symm, fun t hnone id => ?_,
    fun t table htrue t' hne => ⟨fun page slot => ?_, fun htouched => hne ?_⟩⟩
  · by_cases hex : ∃ t, (d.locks id).get? t = some true
    · obtain ⟨t, htrue⟩ := hex
      refine .inl ⟨t, fun t' m => ⟨fun hm => ?_, ?_⟩⟩
      · obtain rfl := ht.sole id t htrue t' (isSome_iff_exists.mpr ⟨m, hm⟩)
        exact ⟨rfl, some.inj (hm.symm.trans htrue)⟩
      · rintro ⟨rfl, rfl⟩
        exact htrue
    · refine .inr fun t m hm => Bool.eq_false_iff.mpr ?_
      rintro rfl
      exact hex ⟨t, hm⟩
  · rw [← not_isSome_iff_eq_none]
    intro hholds
    obtain ⟨s, hs, -⟩ := (ht.held id t).mp hholds
    cases hnone.symm.trans hs
  · rw [← not_isSome_iff_eq_none]
    exact fun hrow => hne (ht.sole _ t htrue t' (ht.under _ table rfl t' hrow))
  · unfold touchedTables at htouched
    split at htouched
    case h_1 => cases htouched
    case h_2 s hs =>
      obtain ⟨op, hop, htab⟩ := mem_filterMap.mp (mem_dedup.mp htouched)
      exact ht.sole _ t htrue t' (ht.written t' s hs op hop table htab)

/-- A table is locked by a transaction that has written to it, and the write of another is refused. -/
theorem lockTable_reachable_exclusive : let d := ((Engine.create [(1, Table.create "t")] [] 0).run
      [.begin .readCommitted, .insert 1 1 [7], .lockTable 1 1 true, .begin .readCommitted,
        .insert 2 1 [8]]).1.txns
    (d.locks (.table 1)).get? 1 = some true ∧ 1 ∈ d.touchedTables 1 ∧ 1 ∉ d.touchedTables 2 :=
  ⟨by decide +kernel, by decide +kernel,
    ((lockTable_reachable (create_fresh (by simp [Table.create]) (by simp)) _).2.2.2 1 1
      (by decide +kernel) 2 (by decide)).2⟩

/-- **Strict two-phase locking.** Between any two states of a run, a transaction still open has kept
every lock, and one that is not holds none. -/
theorem locks_held_to_end (e : {e : Engine // e.Fresh}) (ops ops' : List Op) (txn : TxnId) :
    let e₁ := (e.1.run ops).1
    let e₂ := (e₁.run ops').1
    if txn ∈ e₂.txns.active then e₁.LocksKept txn e₂ else ∀ id, e₂.lockOf txn id = none := by
  intro e₁ e₂
  have hinv : Inv e₁ _ := Inv.reachable e.2 ops
  have ht : LockTable e₁.txns.txns e₁.txns.locks := (Inv.init e.2).lockTable_run (.init e.2) ops
  split
  case isTrue hopen =>
    intro id held hheld
    -- a holder has begun, so the open transaction of that id is no later one
    have hlt := ht.locksOk hinv txn id (by rw [hheld]; rfl)
    exact hinv.locksKept_run hlt ops' hopen id held hheld
  case isFalse hgone =>
    intro id
    rw [← Option.not_isSome_iff_eq_none]
    intro hheld
    obtain ⟨s, hs, -⟩ := ((hinv.lockTable_run ht ops').held id txn).mp hheld
    exact hgone ((hinv.run ops').active_of_open txn (by rw [hs]; rfl))

end NusaDb
