import NusaDb.Sequence.Steps

/-!
# Values in order

Three things are said of the values a run hands out, in any mix of creates, advances, `setval`s,
`ALTER`s, rollbacks and crashes:

* a value is in the bounds of the definition in force exactly when the sequence was aimed at its
  range (`SequenceState.Aimed`), and an advance into the range leaves it aimed;
* without `CYCLE` the next value is one increment on from the last, whatever other calls, rollbacks
  and recoveries lie between the two;
* after `RESTART WITH r` the next value is `r`, unless that is past the bound moved towards or the
  increment has been changed since.

For the last two the counter has to rest in between: `Rests` excludes the calls that set it, and the
crash between the two records of a restore, after which the sequence starts over.
-/

namespace NusaDb.Sequence

open List Option Function Sequence.Engine Record

/-- Whether the call, made now, sets the counter of `id`. -/
def Event.moves (e : Engine) (id : Nat) : Event → Bool
  | .sequenceNext id' => id' == id && (e.sequenceNext id').2.isOk
  | .sequenceSet id' _ => id' == id
  | .alterSequence txn id' change =>
    id' == id && change.restart.isSome && (e.alterSequence txn id' change).2.isOk
  | _ => false

lemma Event.moves_sequenceNext {e : Engine} {id : Nat} {v : Int}
    (h : (e.sequenceNext id).2 = .ok v) : (Event.sequenceNext id).moves e id = true := by
  simp [Event.moves, h, Except.isOk, Except.toBool]

lemma Event.moves_sequenceSet (e : Engine) (id : Nat) (value : Int) :
    (Event.sequenceSet id value).moves e id = true := beq_self_eq_true id

lemma Event.moves_alterSequence {e : Engine} {txn id : Nat} {change : SequenceChange}
    (hrestart : change.restart ≠ none) (h : (e.alterSequence txn id change).2 = .ok ()) :
    (Event.alterSequence txn id change).moves e id = true := by
  simp [Event.moves, h, Except.isOk, Except.toBool, Option.isSome_iff_ne_none, hrestart]

/-- The counter of `id` rests over the events since the record at `pos` set it. A crash keeps that
record, as it was forced out before the call returned, and does not cut a restore in two. -/
def Rests (id pos : Nat) (e : Engine) : List Event → Prop
  | [] => True
  | event :: events =>
    event.moves e id = false ∧
      (∀ n, event = .crash n → pos < n) ∧ (∀ n, event = .crash n → splitsRestore e.log n = false) ∧
      Rests id pos (e.step event) events

instance decidableKeepsRecord (pos : Nat) (event : Event) :
    Decidable (∀ n, event = .crash n → pos < n) :=
  match event with
  | .crash n => decidable_of_iff (pos < n) ⟨fun h m hm => by cases hm; exact h, fun h => h n rfl⟩
  | .begin | .createSequence _ _ | .dropSequence _ _ | .sequenceNext _ | .sequenceSet _ _
  | .alterSequence _ _ _ | .savepoint _ _ | .rollbackTo _ _ | .commit _ | .rollback _ =>
    .isTrue fun n h => by cases h

instance decidableRests (id pos : Nat) : (e : Engine) → (events : List Event) →
    Decidable (Rests id pos e events)
  | _, [] => .isTrue trivial
  | e, event :: events =>
    have := decidableRests id pos (e.step event) events
    inferInstanceAs (Decidable (_ ∧ _ ∧ _ ∧ _))

/-- The invariant of this module: what is on record of a sequence is where its counter stands. -/
def Standing (e : Engine) (given : List Given) : Prop := Inv (fun _ => True) (· = ·) e given []

namespace Standing

variable {e : Engine} {given : List Given}

/-- Every call that moves no counter on record keeps it; every call does if nothing is on record. -/
lemma step (h : Standing e given) (event : Event) (hmoves : ∀ g ∈ given, event.moves e g.id = false)
    (hcrash : ∀ n, event = .crash n → ∀ g ∈ given, g.pos < n ∧ splitsRestore e.log n = false) :
    Standing (e.step event) given := by
  cases event with
  | begin => exact Inv.begin h
  | createSequence txn d => exact Inv.createSequence h txn trivial
  | dropSequence txn id => exact Inv.dropSequence h txn id
  | sequenceNext id =>
    show Standing (e.sequenceNext id).1 given
    cases hnext : e.sequenceNext id with
    | mk e' result =>
      cases result with
      | error err =>
        have hsame := sequenceNext_error (congrArg Prod.snd hnext)
        rw [hnext] at hsame
        exact hsame ▸ h
      | ok value =>
        obtain ⟨state, hstate, -, rfl⟩ := sequenceNext_ok hnext
        refine Inv.setCounter h hstate value fun g hg heq => ?_
        have hmoved := hmoves g hg
        rw [heq, Event.moves_sequenceNext (congrArg Prod.snd hnext)] at hmoved
        cases hmoved
  | sequenceSet id value =>
    refine Inv.sequenceSet h id value fun g hg heq => ?_
    have hmoved := hmoves g hg
    rw [heq, Event.moves_sequenceSet] at hmoved
    cases hmoved
  | alterSequence txn id change =>
    show Standing (e.alterSequence txn id change).1 given
    cases hresult : (e.alterSequence txn id change).2 with
    | error err =>
      rw [Inv.alterSequence_error hresult]
      exact h
    | ok _ =>
      refine Inv.alterSequence h txn id (fun _ _ => trivial) ?_
      by_cases hrestart : change.restart = none
      · exact .inl hrestart
      · refine .inr fun g hg heq => ?_
        have hmoved := hmoves g hg
        rw [heq, Event.moves_alterSequence hrestart hresult] at hmoved
        cases hmoved
  | savepoint txn name => exact Inv.savepoint h txn name
  | rollbackTo txn name => exact Inv.rollbackTo h txn name
  | commit txn => exact Inv.commit h txn
  | rollback txn => exact Inv.rollback h txn
  | crash n =>
    have hkept : given.filter (fun g => g.pos < n) = given :=
      filter_eq_self.mpr fun g hg => decide_eq_true (hcrash n rfl g hg).1
    have hreopened := Inv.crash h fun g hg _ => (hcrash n rfl g hg).2
    rw [hkept] at hreopened
    exact hreopened

/-- Before anything is on record, any calls and any crashes may come. -/
lemma run_nil (h : Standing e []) (events : List Event) : Standing (e.run events) [] := by
  induction events generalizing e with
  | nil => exact h
  | cons event events ih =>
    refine ih (h.step event (fun g hg => ?_) fun n _ g hg => ?_)
    · cases hg
    · cases hg

lemma run_rests {g : Given} (h : Standing e [g]) {events : List Event}
    (hrests : Rests g.id g.pos e events) : Standing (e.run events) [g] := by
  induction events generalizing e with
  | nil => exact h
  | cons event events ih =>
    obtain ⟨hmoves, hkept, hwhole, hrests⟩ := hrests
    refine ih (h.step event (fun g' hg' => ?_) fun n hn g' hg' => ?_) hrests
    · rw [mem_singleton.mp hg']
      exact hmoves
    · rw [mem_singleton.mp hg']
      exact ⟨hkept n hn, hwhole n hn⟩

lemma current {g : Given} (h : Standing e [g]) {state : SequenceState}
    (hstate : e.seqs.sequences g.id = some state) : state.current = some g.value := by
  obtain ⟨c, hlogged, hrel⟩ := Cuts.whole (Inv.cuts h) mem_cons_self (Inv.recorded h g mem_cons_self).1
  rw [(Inv.memory h g.id state hstate).current, hlogged, hrel]

/-- After an accepted `RESTART WITH r` the counter stands one increment before `r`. -/
lemma restart (h : Standing e []) {txn id : Nat} {change : SequenceChange} {r : Int} {e' : Engine}
    (hrestart : change.restart = some (.to r)) {old : SequenceState}
    (hold : e.seqs.sequences id = some old) (halter : e.alterSequence txn id change = (e', .ok ())) :
    Standing e' [⟨e.log.length, id, r - (change.apply old.definition).increment⟩] := by
  have hafter : Standing (e.alterSequence txn id change).1 [] :=
    Inv.alterSequence h txn id (fun _ _ => trivial) (.inr fun g hg => by cases hg)
  rw [halter] at hafter
  obtain ⟨state, target, hstate, -, htarget, rfl⟩ := Inv.alterSequence_ok halter
  cases hold.symm.trans hstate
  have hset : target = some (r - (change.apply old.definition).increment) := by
    unfold SequenceChange.restartAt checkedSub at htarget
    rw [hrestart] at htarget
    dsimp only at htarget
    split_ifs at htarget
    · cases htarget
      rfl
    · cases htarget
  subst hset
  obtain ⟨record, hrecord⟩ : ∃ record, alterRecord id old.definition (change.apply old.definition)
      (some (r - (change.apply old.definition).increment)) = [record] := by
    unfold alterRecord
    split_ifs
    · exact ⟨_, rfl⟩
    · exact ⟨_, rfl⟩
  have hlog : e.log ++ alterRecord id old.definition (change.apply old.definition)
      (some (r - (change.apply old.definition).increment)) = e.log ++ [record] := by rw [hrecord]
  refine Inv.give hafter (fun _ => rfl) hlog (Inv.memory h id old hold).created ?_
  show loggedCounter id (e.log ++ _) = _
  rw [loggedCounter_append, Inv.foldl_alterRecord, if_pos rfl]
  rfl

end Standing

/-- The values of a sequence over any run. `before` is the run up to the call that is looked at,
`between` what happens from there to the next advance of the sequence; both are arbitrary, up to the
counter being at rest in `between`. -/
theorem sequence_values_in_order (before : List Event) (id : Nat) :
    (∀ state ∈ (Engine.new.run before).seqs.sequences id, ∀ e v,
      (Engine.new.run before).sequenceNext id = (e, .ok v) →
        (state.definition.InBounds v ↔ state.Aimed) ∧
        (state.definition.InBounds v → ∀ after ∈ e.seqs.sequences id, after.Aimed)) ∧
    (∀ e v between, (Engine.new.run before).sequenceNext id = (e, .ok v) →
      Rests id (Engine.new.run before).log.length e between →
        ∀ state ∈ (e.run between).seqs.sequences id, state.definition.cycle = false →
          ∀ e' w, (e.run between).sequenceNext id = (e', .ok w) →
            w = v + state.definition.increment) ∧
    ∀ txn change r e between, inI64 r = true → change.restart = some (.to r) →
      (Engine.new.run before).alterSequence txn id change = (e, .ok ()) →
      Rests id (Engine.new.run before).log.length e between →
        ∀ old ∈ (Engine.new.run before).seqs.sequences id,
        ∀ state ∈ (e.run between).seqs.sequences id,
          state.definition.increment = (change.apply old.definition).increment →
          state.definition.Reaches r → ((e.run between).sequenceNext id).2 = .ok r := by
  have hstanding : Standing (Engine.new.run before) [] := Standing.run_nil Inv.new before
  refine ⟨fun state hstate e v hnext => ?_, fun e v between hnext hrests state hstate hcycle e' w hw => ?_,
    fun txn change r e between hr hrestart halter hrests old hold state hstate hincrement hreach => ?_⟩
  · obtain ⟨state', hstate', hadvance, rfl⟩ := sequenceNext_ok hnext
    cases hstate.symm.trans hstate'
    refine ⟨advanceSequence_inBounds_iff hadvance, fun hin after hafter => ?_⟩
    cases (update_self ..).symm.trans hafter
    exact aimed_of_inBounds rfl hin
  · have hgiven : Standing e [⟨(Engine.new.run before).log.length, id, v⟩] :=
      Inv.sequenceNext hstanding (fun _ => rfl) hnext fun g hg => by cases hg
    have hcurrent := (hgiven.run_rests hrests).current hstate
    obtain ⟨state', hstate', hadvance, -⟩ := sequenceNext_ok hw
    cases hstate.symm.trans hstate'
    exact advanceSequence_step hadvance hcycle hcurrent
  · have hgiven := hstanding.restart hrestart hold halter
    have hcurrent := (hgiven.run_rests hrests).current hstate
    refine sequenceNext_of_advance hstate (advanceSequence_restart ?_ hr hreach)
    rw [hcurrent, hincrement]

def upTo100 : SequenceDef := ⟨"s", 1, 1, 1, 100, false⟩

/-- A sequence is created, a transaction drops it and goes back to a savepoint, and the server is
lost and recovers. -/
def dropAndCrash (kept : Nat) : List Event :=
  [.begin, .savepoint 2 "a", .dropSequence 2 0, .rollbackTo 2 "a", .crash kept]

def created : List Event := [.begin, .createSequence 1 upTo100, .commit 1]

/-- With both records of the restore kept, 1 is followed by 2. -/
theorem dropAndCrash_counts_on :
    ((Engine.new.run created).sequenceNext 0).2 = .ok 1 ∧
      Rests 0 (Engine.new.run created).log.length ((Engine.new.run created).sequenceNext 0).1
        (dropAndCrash 6) ∧
      ∀ w, ((((Engine.new.run created).sequenceNext 0).1.run (dropAndCrash 6)).sequenceNext 0).2 =
        .ok w → w = 2 := by
  refine ⟨rfl, by decide, fun w hw => ?_⟩
  exact (sequence_values_in_order created 0).2.1 _ 1 (dropAndCrash 6) rfl (by decide)
    ⟨upTo100, some 1⟩ rfl rfl _ w (Prod.ext rfl hw)

/-- `ALTER SEQUENCE s MINVALUE 50 START 50`. -/
def raiseMinimum : SequenceChange := ⟨none, some 50, none, some 50, none, none⟩

/-- The `ALTER` is accepted after 1 has been handed out, and the next value is 2; so is
`setval('s', -10)`, and the next value is -9. A crash between the two records of a restore has 1
followed by 1. -/
theorem sequenceNext_below_minValue :
    ((Engine.new.run (created ++ [.sequenceNext 0, .begin])).alterSequence 2 0 raiseMinimum).2 =
        .ok () ∧
      ((Engine.new.run (created ++ [.sequenceNext 0, .begin, .alterSequence 2 0
        raiseMinimum])).seqs.sequences 0).map (·.definition.minValue) = some 50 ∧
      ((Engine.new.run (created ++ [.sequenceNext 0, .begin, .alterSequence 2 0
        raiseMinimum])).sequenceNext 0).2 = .ok 2 ∧
      ((Engine.new.run (created ++ [.sequenceNext 0, .sequenceSet 0 (-10)])).sequenceNext 0).2 =
        .ok (-9) ∧
      ((Engine.new.run created).sequenceNext 0).2 = .ok 1 ∧
      ((Engine.new.run (created ++ .sequenceNext 0 :: dropAndCrash 5)).sequenceNext 0).2 = .ok 1 := by
  refine ⟨rfl, rfl, rfl, rfl, rfl, rfl⟩

end NusaDb.Sequence
