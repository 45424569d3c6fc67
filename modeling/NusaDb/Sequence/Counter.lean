import NusaDb.Lib.OrdMap
import NusaDb.Sequence.Engine

/-!
# The counter in the log

Recovery sets a counter to the value set last since the sequence was last created. So at every cut a
crash may leave, that value must be at least every value handed out. The one cut where it is not
lies between the two records that put a dropped sequence back on a rollback to a savepoint.
-/

namespace NusaDb.Sequence

open List Record SeqDomain

def counterStep (id : Nat) (current : Option Int) : Record → Option Int
  | .seqCreate id' _ => if id' = id then none else current
  | .seqSet id' value => if id' = id then some value else current
  | .seqAlter id' _ c => if id' = id then c.or current else current
  | _ => current

/-- The value the records set last since they last created `id`. -/
def loggedCounter (id : Nat) (records : List Record) : Option Int :=
  records.foldl (counterStep id) none

lemma loggedCounter_append (id : Nat) (l records : List Record) :
    loggedCounter id (l ++ records) = records.foldl (counterStep id) (loggedCounter id l) :=
  foldl_append

def SequenceDef.Ascending (d : SequenceDef) : Prop := 0 < d.increment ∧ d.cycle = false

instance (d : SequenceDef) : Decidable d.Ascending := inferInstanceAs (Decidable (_ ∧ _))

/-- Every definition the record carries is as `ok` asks. -/
def Record.Describes (ok : SequenceDef → Prop) : Record → Prop
  | .seqCreate _ d => ok d
  | .seqAlter _ d _ => ok d
  | _ => True

/-- A drop or the end of a transaction: it describes no sequence and moves no counter. -/
def Record.Neutral : Record → Prop
  | .seqDrop _ _ | .commitTxn _ | .abortTxn _ => True
  | .seqCreate _ _ | .seqSet _ _ | .seqAlter _ _ _ => False

lemma Record.Neutral.counterStep {record : Record} (h : record.Neutral) (id : Nat)
    (current : Option Int) : counterStep id current record = current := by
  cases record with
  | seqDrop | commitTxn | abortTxn => rfl
  | seqCreate | seqSet | seqAlter => exact h.elim

lemma Record.Neutral.describes {record : Record} (h : record.Neutral) (ok : SequenceDef → Prop) :
    record.Describes ok := by
  cases record with
  | seqDrop | commitTxn | abortTxn => trivial
  | seqCreate | seqSet | seqAlter => exact h.elim

/-- The state of a sequence agrees with the log: its counter is the logged one. -/
structure Counted (ok : SequenceDef → Prop) (log : List Record) (id : Nat) (state : SequenceState) :
    Prop where
  current : state.current = loggedCounter id log
  described : ok state.definition
  created : ∃ d, .seqCreate id d ∈ log

variable {ok : SequenceDef → Prop}

/-- Records that leave the counter of a sequence alone leave the agreement. -/
lemma Counted.append {log records : List Record} {id : Nat} {state : SequenceState}
    (h : Counted ok log id state)
    (hsame : ∀ current, records.foldl (counterStep id) current = current) :
    Counted ok (log ++ records) id state := by
  refine ⟨?_, h.described, ?_⟩
  · rw [loggedCounter_append, hsame, h.current]
  · obtain ⟨d, hd⟩ := h.created
    exact ⟨d, mem_append_left _ hd⟩

namespace SeqDomain

variable (s : SeqDomain) (name : String) (txn id : Nat) (state : Option SequenceState)

@[simp] lemma claimName_sequences : (s.claimName name id).sequences = s.sequences := by
  unfold claimName
  split <;> rfl

@[simp] lemma releaseName_sequences : (s.releaseName name id).sequences = s.sequences := by
  unfold releaseName
  split <;> rfl

@[simp] lemma unreserve_sequences : (s.unreserve name txn).sequences = s.sequences := by
  unfold unreserve
  split
  · split <;> rfl
  · rfl

@[simp] lemma reserve_sequences : (s.reserve name txn).sequences = s.sequences := rfl

@[simp] lemma setState_sequences :
    (s.setState id state).sequences = Function.update s.sequences id state := rfl

@[simp] lemma claimName_nextSequenceId :
    (s.claimName name id).nextSequenceId = s.nextSequenceId := by
  unfold claimName
  split <;> rfl

@[simp] lemma releaseName_nextSequenceId :
    (s.releaseName name id).nextSequenceId = s.nextSequenceId := by
  unfold releaseName
  split <;> rfl

@[simp] lemma unreserve_nextSequenceId :
    (s.unreserve name txn).nextSequenceId = s.nextSequenceId := by
  unfold unreserve
  split
  · split <;> rfl
  · rfl

@[simp] lemma reserve_nextSequenceId :
    (s.reserve name txn).nextSequenceId = s.nextSequenceId := rfl

@[simp] lemma setState_nextSequenceId :
    (s.setState id state).nextSequenceId = s.nextSequenceId := rfl

end SeqDomain

section

variable {s : SeqDomain} {l : List Record} {record : Record}

section

variable (hs : ∀ id state, s.sequences id = some state → Counted ok l id state)
  (hrecord : record.Describes ok) (id : Nat) (state : SequenceState)

include hs hrecord

/-- Replaying one more record counts it. -/
lemma replayOp_counted (h : (replayOp s record).sequences id = some state) :
    Counted ok (l ++ [record]) id state := by
  -- a sequence the record is not about
  have hother : ∀ id', (∀ current, counterStep id' current record = current) →
      ∀ state', s.sequences id' = some state' → Counted ok (l ++ [record]) id' state' :=
    fun id' hsame state' h' => (hs id' state' h').append hsame
  cases record with
  | seqCreate id' d =>
    simp only [replayOp, setState_sequences, claimName_sequences] at h
    rcases update_eq_some h with ⟨rfl, hnew⟩ | ⟨heq, h⟩
    · cases hnew
      refine ⟨?_, hrecord, d, mem_append_right _ mem_cons_self⟩
      rw [loggedCounter_append]
      exact (if_pos rfl).symm
    · exact hother id (fun _ => if_neg (Ne.symm heq)) state h
  | seqDrop txn id' =>
    cases hget : s.sequences id' with
    | none =>
      simp only [replayOp, hget] at h
      exact hother id (fun _ => rfl) state h
    | some old =>
      simp only [replayOp, hget, releaseName_sequences, setState_sequences] at h
      rcases update_eq_some h with ⟨rfl, hnew⟩ | ⟨heq, h⟩
      · cases hnew
      · exact hother id (fun _ => rfl) state h
  | seqSet id' value =>
    cases hget : s.sequences id' with
    | none =>
      simp only [replayOp, hget] at h
      by_cases heq : id = id'
      · rw [heq] at h
        exact absurd (hget.symm.trans h) (Option.some_ne_none state).symm
      · exact hother id (fun _ => if_neg (Ne.symm heq)) state h
    | some old =>
      simp only [replayOp, hget, setState_sequences] at h
      rcases update_eq_some h with ⟨rfl, hnew⟩ | ⟨heq, h⟩
      · cases hnew
        have hold := hs id old hget
        obtain ⟨d, hd⟩ := hold.created
        refine ⟨?_, hold.described, d, mem_append_left _ hd⟩
        rw [loggedCounter_append]
        exact (if_pos rfl).symm
      · exact hother id (fun _ => if_neg (Ne.symm heq)) state h
  | seqAlter id' d c =>
    cases hget : s.sequences id' with
    | none =>
      simp only [replayOp, hget] at h
      by_cases heq : id = id'
      · rw [heq] at h
        exact absurd (hget.symm.trans h) (Option.some_ne_none state).symm
      · exact hother id (fun _ => if_neg (Ne.symm heq)) state h
    | some old =>
      simp only [replayOp, hget, setState_sequences] at h
      rcases update_eq_some h with ⟨rfl, hnew⟩ | ⟨heq, h⟩
      · cases hnew
        have hold := hs id old hget
        obtain ⟨d', hd'⟩ := hold.created
        refine ⟨?_, hrecord, d', mem_append_left _ hd'⟩
        rw [loggedCounter_append, ← hold.current]
        exact (if_pos rfl).symm
      · exact hother id (fun _ => if_neg (Ne.symm heq)) state h
  | commitTxn | abortTxn => exact hother id (fun _ => rfl) state h

lemma replayIf_counted {ended : Nat → Bool}
    (h : (replayIf ended s record).sequences id = some state) : Counted ok (l ++ [record]) id state := by
  unfold replayIf at h
  split at h
  case isTrue => exact replayOp_counted hs hrecord id state h
  case isFalse hskip =>
    -- only a drop or the end of a transaction is ever skipped
    refine (hs id state h).append fun current => ?_
    cases record with
    | seqCreate | seqSet | seqAlter => exact absurd rfl hskip
    | seqDrop | commitTxn | abortTxn => rfl

end

end

variable (ended : Nat → Bool)

lemma foldl_replayIf_counted (records : List Record) (hrecords : ∀ record ∈ records,
    record.Describes ok) (id : Nat) (state : SequenceState) (h : (records.foldl (replayIf ended)
    .empty).sequences id = some state) : Counted ok records id state := by
  induction records using reverseRecOn generalizing id state with
  | nil => cases h
  | append_singleton l record ih =>
    rw [foldl_concat] at h
    refine replayIf_counted (fun id' state' h' => ih (fun r hr => ?_) id' state' h')
      (hrecords record (mem_append_right _ mem_cons_self)) id state h
    exact hrecords r (mem_append_left _ hr)

lemma replayIf_nextSequenceId (s : SeqDomain) (record : Record) :
    s.nextSequenceId ≤ (replayIf ended s record).nextSequenceId ∧ ∀ id d, record = .seqCreate id d →
      id < (replayIf ended s record).nextSequenceId := by
  unfold replayIf
  cases record with
  | seqCreate id d =>
    refine ⟨?_, fun id' d' h => ?_⟩
    · simp [replayOp, isNonTransactional]
    · cases h
      simp [replayOp, isNonTransactional]
  | seqDrop txn id =>
    refine ⟨?_, fun _ _ h => by cases h⟩
    split
    · simp only [replayOp]
      split <;> simp
    · exact le_rfl
  | seqSet | seqAlter =>
    refine ⟨?_, fun _ _ h => by cases h⟩
    simp only [isNonTransactional, Bool.true_or, if_true, replayOp]
    split <;> simp
  | commitTxn | abortTxn =>
    refine ⟨?_, fun _ _ h => by cases h⟩
    split <;> exact le_rfl

lemma foldl_replayIf_nextSequenceId (records : List Record) {id : Nat} {d : SequenceDef} (h :
    .seqCreate id d ∈ records) : id < (records.foldl (replayIf ended) .empty).nextSequenceId := by
  induction records using reverseRecOn with
  | nil => cases h
  | append_singleton l record ih =>
    rw [foldl_concat]
    obtain ⟨hle, hnew⟩ := replayIf_nextSequenceId ended (l.foldl (replayIf ended) .empty) record
    rcases mem_append.mp h with h | h
    · exact lt_of_lt_of_le (ih h) hle
    · exact hnew id d (mem_singleton.mp h).symm

end NusaDb.Sequence
