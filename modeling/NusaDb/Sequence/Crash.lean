import NusaDb.Sequence.Counter

/-!
# Values across crashes

A run interleaves calls with crashes that keep any prefix of the log. Beside the engine stands what
it has handed out: each value with its sequence and the position of its record, forgotten when a
crash loses that record.

Two results are read off such runs: that no value is handed out twice, and that consecutive values
are one increment apart. Both rest on `Inv`, which says that every counter in memory or in an undo
list is the one the log has, and that every value on record stands in a relation `rel` to the counter
at each cut a crash may leave. For the first result `rel` is `≤`, for the second it is equality.
-/

namespace NusaDb.Sequence

open List Record

/-- A value a sequence was set to, with the position of the record that says so. -/
structure Given where
  pos : Nat
  id : Nat
  value : Int
  deriving DecidableEq, Repr

def Record.creates (id : Nat) : Record → Bool
  | .seqCreate id' _ => id' == id
  | _ => false

/-- Whether keeping `n` records cuts between the two that put a dropped sequence back. -/
def splitsRestore (log : List Record) (n : Nat) : Bool :=
  match (log.take n).getLast?, log[n]? with
  | some (.seqCreate id _), some (.seqSet id' _) =>
    id == id' && (log.take (n - 1)).any (Record.creates id)
  | _, _ => false

inductive Event where
  | begin
  | createSequence (txn : Nat) (definition : SequenceDef)
  | dropSequence (txn id : Nat)
  | sequenceNext (id : Nat)
  | sequenceSet (id : Nat) (value : Int)
  | alterSequence (txn id : Nat) (change : SequenceChange)
  | savepoint (txn : Nat) (name : String)
  | rollbackTo (txn : Nat) (name : String)
  | commit (txn : Nat)
  | rollback (txn : Nat)
  /-- A crash that keeps `n` records of the log, and the recovery from them. -/
  | crash (n : Nat)
  deriving DecidableEq, Repr

def Engine.step (e : Engine) : Event → Engine
  | .begin => e.begin.1
  | .createSequence txn d => (e.createSequence txn d).1
  | .dropSequence txn id => (e.dropSequence txn id).1
  | .sequenceNext id => (e.sequenceNext id).1
  | .sequenceSet id value => (e.sequenceSet id value).1
  | .alterSequence txn id change => (e.alterSequence txn id change).1
  | .savepoint txn name => (e.savepoint txn name).1
  | .rollbackTo txn name => (e.rollbackTo txn name).1
  | .commit txn => (e.commit txn).1
  | .rollback txn => (e.rollback txn).1
  | .crash n => .reopen (e.log.take n)

def Engine.run (e : Engine) (events : List Event) : Engine := events.foldl Engine.step e

/-- An engine and what it has handed out so far. -/
structure Run where
  engine : Engine
  given : List Given

namespace Run

def new : Run := ⟨.new, []⟩

def next (r : Run) (id : Nat) : Run :=
  match r.engine.sequenceNext id with
  | (engine, .ok value) => ⟨engine, r.given ++ [⟨r.engine.log.length, id, value⟩]⟩
  | (engine, .error _) => ⟨engine, r.given⟩

def step (r : Run) : Event → Run
  | .sequenceNext id => r.next id
  | .crash n => ⟨r.engine.step (.crash n), r.given.filter fun g => g.pos < n⟩
  | event => ⟨r.engine.step event, r.given⟩

def run (r : Run) (events : List Event) : Run := events.foldl step r

end Run

/-- A call that keeps every sequence ascending and sets no counter itself. -/
def Event.Ascending : Event → Prop
  | .createSequence _ d => d.Ascending
  | .alterSequence _ _ change =>
    (∀ v ∈ change.increment, 0 < v) ∧ change.cycle ≠ some true ∧ change.restart = none
  | .sequenceSet _ _ => False
  | _ => True

instance (event : Event) : Decidable event.Ascending := by
  cases event <;> unfold Event.Ascending <;> infer_instance

/-- No crash of the run comes between the two records of a restore. -/
def KeepsRestores (r : Run) : List Event → Prop
  | [] => True
  | event :: events =>
    (∀ n, event = .crash n → splitsRestore r.engine.log n = false) ∧ KeepsRestores (r.step event) events

instance decidableCrashKeeps (log : List Record) (event : Event) :
    Decidable (∀ n, event = .crash n → splitsRestore log n = false) :=
  match event with
  | .crash n => decidable_of_iff (splitsRestore log n = false)
      ⟨fun h m hm => by cases hm; exact h, fun h => h n rfl⟩
  | .begin | .createSequence _ _ | .dropSequence _ _ | .sequenceNext _ | .sequenceSet _ _
  | .alterSequence _ _ _ | .savepoint _ _ | .rollbackTo _ _ | .commit _ | .rollback _ =>
    .isTrue fun n h => by cases h

instance decidableKeepsRestores : (r : Run) → (events : List Event) → Decidable (KeepsRestores r events)
  | _, [] => .isTrue trivial
  | r, event :: events =>
    have := decidableKeepsRestores (r.step event) events
    inferInstanceAs (Decidable (_ ∧ _))

section

variable {log : List Record}

lemma splitsRestore_of_length_le {n : Nat} (h : log.length ≤ n) :
    splitsRestore log n = false := by
  unfold splitsRestore
  rw [getElem?_eq_none h]
  split
  · rename_i h'
    cases h'
  · rfl

lemma splitsRestore_append (records : List Record) {n : Nat} (h : n < log.length) :
    splitsRestore (log ++ records) n = splitsRestore log n := by
  unfold splitsRestore
  rw [take_append_of_le_length (le_of_lt h), getElem?_append_left h,
    take_append_of_le_length (by omega)]

lemma splitsRestore_take {m n : Nat} (h : m < n) :
    splitsRestore (log.take n) m = splitsRestore log m := by
  unfold splitsRestore
  rw [take_take, getElem?_take_of_lt h, take_take, Nat.min_eq_left (le_of_lt h),
    Nat.min_eq_left (by omega)]

lemma splitsRestore_restore {id : Nat} {d' : SequenceDef} (hcreated : .seqCreate id d' ∈ log)
    {d : SequenceDef} {value : Int} :
    splitsRestore (log ++ [seqCreate id d, seqSet id value]) (log.length + 1) = true := by
  have htake : (log ++ [seqCreate id d, seqSet id value]).take (log.length + 1) =
      log ++ [seqCreate id d] := by simp [take_append]
  have hnext : (log ++ [seqCreate id d, seqSet id value])[log.length + 1]? =
      some (.seqSet id value) := by simp
  have hbefore : (log ++ [seqCreate id d, seqSet id value]).take (log.length + 1 - 1) = log := by simp
  unfold splitsRestore
  rw [htake, hnext, hbefore, getLast?_concat]
  dsimp only
  rw [beq_self_eq_true, Bool.true_and]
  exact any_eq_true.mpr ⟨_, hcreated, beq_self_eq_true id⟩

end

/-- At every cut a crash may leave, what was given before the cut is in `rel` to the logged
counters. -/
def Cuts (rel : Int → Int → Prop) (log : List Record) (given : List Given) : Prop :=
  ∀ n ≤ log.length, splitsRestore log n = false → ∀ g ∈ given, g.pos < n →
    ∃ c, loggedCounter g.id (log.take n) = some c ∧ rel g.value c

namespace Cuts

variable {rel : Int → Int → Prop} {log : List Record} {given : List Given} (h : Cuts rel log given)

include h

lemma whole {g : Given} (hg : g ∈ given) (hpos : g.pos < log.length) :
    ∃ c, loggedCounter g.id log = some c ∧ rel g.value c := by
  have hcut := h log.length (le_rfl) (splitsRestore_of_length_le (le_rfl)) g hg hpos
  rw [take_length] at hcut
  exact hcut

lemma append {records : List Record}
    (hinner : ∀ k, 0 < k → k < records.length →
      splitsRestore (log ++ records) (log.length + k) = true)
    (hlast : ∀ g ∈ given, g.pos < log.length + records.length →
      ∃ c, loggedCounter g.id (log ++ records) = some c ∧ rel g.value c) :
    Cuts rel (log ++ records) given := by
  intro n hn hsplit g hg hpos
  rw [length_append] at hn
  rcases lt_or_ge log.length n with hlt | hle
  · -- past the old log
    rcases lt_or_ge n (log.length + records.length) with hin | hend
    · have hbad := hinner (n - log.length) (by omega) (by omega)
      rw [Nat.add_sub_cancel' (le_of_lt hlt), hsplit] at hbad
      cases hbad
    have hall : n = (log ++ records).length := by
      rw [length_append]
      omega
    rw [hall, take_length]
    exact hlast g hg (by omega)
  · rw [take_append_of_le_length hle]
    refine h n hle ?_ g hg hpos
    rcases Nat.lt_or_eq_of_le hle with hlt | heq
    · rw [← splitsRestore_append records hlt]
      exact hsplit
    · exact splitsRestore_of_length_le (le_of_eq heq.symm)

lemma snoc (hgiven : ∀ g ∈ given, g.pos < log.length) {record : Record}
    (hstep : ∀ g ∈ given, ∀ c, loggedCounter g.id log = some c → rel g.value c →
      ∃ c', counterStep g.id (some c) record = some c' ∧ rel g.value c') :
    Cuts rel (log ++ [record]) given := by
  refine h.append (fun k hk hlt => ?_) fun g hg _ => ?_
  · rw [length_singleton] at hlt
    omega
  · obtain ⟨c, hc, hle⟩ := h.whole hg (hgiven g hg)
    rw [loggedCounter_append, hc]
    exact hstep g hg c hc hle

lemma crash {n : Nat} (hsplit : ∀ g ∈ given, g.pos < n → splitsRestore log n = false) :
    Cuts rel (log.take n) (given.filter fun g => g.pos < n) := by
  intro m hm hm' g hg hpos
  rw [length_take] at hm
  have hle : m ≤ n := hm.trans (Nat.min_le_left _ _)
  rw [take_take, Nat.min_eq_left hle]
  refine h m (hm.trans (Nat.min_le_right _ _)) ?_ g (mem_of_mem_filter hg) hpos
  rcases Nat.lt_or_eq_of_le hle with hlt | heq
  · rw [← splitsRestore_take hlt]
    exact hm'
  · rw [heq]
    obtain ⟨hmem, hbefore⟩ := mem_filter.mp hg
    exact hsplit g hmem (of_decide_eq_true hbefore)

end Cuts

def drops (ops : List UndoOp) : List Nat :=
  ops.filterMap fun
    | .createdSequence _ _ => none
    | .droppedSequence id _ => some id

lemma mem_drops {ops : List UndoOp} {id : Nat} :
    id ∈ drops ops ↔ ∃ state, .droppedSequence id state ∈ ops := by
  unfold drops
  rw [mem_filterMap]
  constructor
  · rintro ⟨op, hop, h⟩
    cases op with
    | createdSequence => cases h
    | droppedSequence id' state =>
      cases h
      exact ⟨state, hop⟩
  · rintro ⟨state, h⟩
    exact ⟨_, h, rfl⟩

/-- The undo list of a transaction, or the operations being undone. -/
def Engine.held (e : Engine) (undoing : List UndoOp) : Option Nat → List UndoOp
  | none => undoing
  | some txn => ((e.txns txn).map TxnState.undo).getD []

/-- While `undoing` are being undone: a sequence is in memory or in one undo list, with the counter
the log has for it. -/
structure Inv (ok : SequenceDef → Prop) (rel : Int → Int → Prop) (e : Engine) (given : List Given)
    (undoing : List UndoOp) : Prop where
  memory : ∀ id state, e.seqs.sequences id = some state → Counted ok e.log id state
  dropped : ∀ h id state, .droppedSequence id state ∈ e.held undoing h →
    Counted ok e.log id state ∧ e.seqs.sequences id = none
  nodup : ∀ h, (drops (e.held undoing h)).Nodup
  apart : ∀ h h' id, h ≠ h' → id ∈ drops (e.held undoing h) → id ∉ drops (e.held undoing h')
  cuts : Cuts rel e.log given
  recorded : ∀ g ∈ given, g.pos < e.log.length ∧ ∃ d, .seqCreate g.id d ∈ e.log.take g.pos
  ids : ∀ id d, .seqCreate id d ∈ e.log → id < e.seqs.nextSequenceId
  described : ∀ record ∈ e.log, record.Describes ok

end NusaDb.Sequence
