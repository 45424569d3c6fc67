import NusaDb.Sequence.Steps

/-!
# No value is handed out twice

Over ascending sequences whose counters no call moves back, every value on record is at most the
counter, in memory and at every cut a crash may leave. So the next value is above all of them. The
one crash that breaks this comes between the two records that put a dropped sequence back: recovery
then finds the sequence created anew and its counter unset.
-/

namespace NusaDb.Sequence

open List Option Function Sequence.Engine SeqDomain Record

variable {e e' : Engine} {given : List Given} {id : Nat}

lemma advanceSequence_gt {state : SequenceState} (hd : state.definition.Ascending) {next : Int}
    (h : advanceSequence state = .ok next) : ∀ c, state.current = some c → c < next := by
  intro c hc
  rw [advanceSequence_step h hd.2 hc]
  exact Int.lt_add_of_pos_right c hd.1

/-- What is on record of a sequence is at most its counter, and an advance goes past it. -/
lemma Inv.given_lt_next (h : Inv SequenceDef.Ascending (· ≤ ·) e given []) {value : Int}
    (hnext : e.sequenceNext id = (e', .ok value)) : ∀ g ∈ given, g.id = id → g.value < value := by
  intro g hg heq
  obtain ⟨state, hstate, hadvance, -⟩ := sequenceNext_ok hnext
  have hc := h.memory id state hstate
  obtain ⟨c, hcounter, hle⟩ := h.cuts.whole hg (h.recorded g hg).1
  rw [heq, ← hc.current] at hcounter
  exact lt_of_le_of_lt hle (advanceSequence_gt hc.described hadvance c hcounter)

lemma ascending_apply {d : SequenceDef} (hd : d.Ascending) {txn : Nat} {change : SequenceChange}
    (hchange : (Event.alterSequence txn id change).Ascending) : (change.apply d).Ascending := by
  obtain ⟨hincrement, hcycle, -⟩ := hchange
  constructor
  · show 0 < change.increment.getD d.increment
    cases hinc : change.increment with
    | none => exact hd.1
    | some v => exact hincrement v hinc
  · show change.cycle.getD d.cycle = false
    cases hcyc : change.cycle with
    | none => exact hd.2
    | some c =>
      rw [hcyc] at hcycle
      cases c with
      | false => rfl
      | true => exact absurd rfl hcycle

namespace Run

lemma step_inv {r : Run} (h : Inv SequenceDef.Ascending (· ≤ ·) r.engine r.given []) {event : Event}
    (hasc : event.Ascending)
    (hkeeps : ∀ n, event = .crash n → splitsRestore r.engine.log n = false) :
    Inv SequenceDef.Ascending (· ≤ ·) (r.step event).engine (r.step event).given [] := by
  cases event with
  | begin => exact h.begin
  | createSequence txn d => exact h.createSequence txn hasc
  | dropSequence txn id => exact h.dropSequence txn id
  | sequenceNext id =>
    show Inv _ _ (r.next id).engine (r.next id).given []
    unfold next
    cases hnext : r.engine.sequenceNext id with
    | mk e' result =>
      cases result with
      | ok value =>
        exact h.sequenceNext le_refl hnext fun g hg heq => le_of_lt (h.given_lt_next hnext g hg heq)
      | error err =>
        have hsame := sequenceNext_error (congrArg Prod.snd hnext)
        rw [hnext] at hsame
        exact hsame ▸ h
  | sequenceSet => exact hasc.elim
  | alterSequence txn id change =>
    exact h.alterSequence txn id
      (fun state hstate => ascending_apply (h.memory id state hstate).described hasc) (.inl hasc.2.2)
  | savepoint txn name => exact h.savepoint txn name
  | rollbackTo txn name => exact h.rollbackTo txn name
  | commit txn => exact h.commit txn
  | rollback txn => exact h.rollback txn
  | crash n => exact h.crash fun _ _ _ => hkeeps n rfl

variable {events : List Event}

lemma run_inv {r : Run} (h : Inv SequenceDef.Ascending (· ≤ ·) r.engine r.given [])
    (hasc : ∀ event ∈ events, event.Ascending) (hkeeps : KeepsRestores r events) :
    Inv SequenceDef.Ascending (· ≤ ·) (r.run events).engine (r.run events).given [] := by
  induction events generalizing r with
  | nil => exact h
  | cons event events ih =>
    exact ih (step_inv h (hasc event mem_cons_self) hkeeps.1)
      (fun ev hev => hasc ev (mem_cons_of_mem _ hev)) hkeeps.2

/-- No value whose record is still in the log is handed out again, in any run whose crashes leave
every restored sequence whole. -/
theorem values_not_reused (hasc : ∀ event ∈ events, event.Ascending)
    (hkeeps : KeepsRestores .new events) {id : Nat} {value : Int} {engine : Engine}
    (hnext : (Run.new.run events).engine.sequenceNext id = (engine, .ok value)) :
    ∀ g ∈ (Run.new.run events).given, g.id = id → g.value ≠ value := by
  intro g hg heq
  have h := run_inv Inv.new hasc hkeeps
  exact ne_of_lt (h.given_lt_next hnext g hg heq)

def ids : SequenceDef := ⟨"ids", 1, 1, 1, 1000, false⟩

/-- A sequence hands out a value; then a transaction drops it and rolls back to a savepoint. -/
def dropUndone : List Event :=
  [.begin, .createSequence 1 ids, .commit 1, .sequenceNext 0, .begin, .savepoint 2 "s",
    .dropSequence 2 0, .rollbackTo 2 "s"]

/-- The log then ends with the two records that put the sequence back. A crash that keeps both goes
on with the next value. -/
theorem values_not_reused_restored : ∃ engine,
    (Run.new.run (dropUndone ++ [.crash 6])).engine.sequenceNext 0 = (engine, .ok 2) ∧
      ∀ g ∈ (Run.new.run (dropUndone ++ [.crash 6])).given, g.id = 0 → g.value ≠ 2 := by
  refine ⟨_, rfl, ?_⟩
  exact values_not_reused (by decide) (by decide) rfl

/-- A crash that keeps only the first forgets the counter: the value that is still recorded is handed
out again. -/
theorem split_restore_reuses_value :
    (∀ event ∈ dropUndone ++ [.crash 5], event.Ascending) ∧
      ⟨2, 0, 1⟩ ∈ (Run.new.run (dropUndone ++ [.crash 5])).given ∧
      ((Run.new.run (dropUndone ++ [.crash 5])).engine.sequenceNext 0).2 = .ok 1 := by
  refine ⟨by decide, by decide, rfl⟩

end Run

end NusaDb.Sequence
