import NusaDb.Sequence.Engine

/-!
# Values and bounds

An advance compares the value it steps to with the bound it moves towards and with no other. So a
counter that an `ALTER` or a `setval` left short of the range is stepped to a value outside it.

`SequenceState.Aimed` says what it takes for the next value to be in the range, and
`advanceSequence_inBounds_iff` that it is exactly this. The other lemmas say what one advance gives:
a first value is `START`, a later one is an increment on or the bound a cycle goes back to.
-/

namespace NusaDb.Sequence

open List Option Function

namespace SequenceDef

def InBounds (d : SequenceDef) (v : Int) : Prop := d.minValue ≤ v ∧ v ≤ d.maxValue

/-- The value is not past the bound the sequence moves towards. -/
def Reaches (d : SequenceDef) (v : Int) : Prop :=
  (0 ≤ d.increment → v ≤ d.maxValue) ∧ (d.increment < 0 → d.minValue ≤ v)

instance (d : SequenceDef) (v : Int) : Decidable (d.Reaches v) := inferInstanceAs (Decidable (_ ∧ _))

end SequenceDef

/-- The counter is so far outside the range that one step, if it does not overflow, does not lead
into it. -/
def SequenceState.Short (state : SequenceState) : Prop :=
  ∃ c, state.current = some c ∧ inI64 (c + state.definition.increment) = true ∧
    (0 ≤ state.definition.increment ∧ c + state.definition.increment < state.definition.minValue ∨
      state.definition.increment < 0 ∧ state.definition.maxValue < c + state.definition.increment)

/-- The next step leads into the range. `START` matters only while no value has been set: neither
`CREATE` nor `setval` compares it with the bounds, and a `setval` puts it out of use. -/
structure SequenceState.Aimed (state : SequenceState) : Prop where
  range : state.definition.minValue ≤ state.definition.maxValue
  first : state.current = none → state.definition.InBounds state.definition.start
  step : ¬state.Short

variable {state : SequenceState} {c v : Int}

lemma advanceSequence_some (hc : state.current = some c) :
    advanceSequence state =
      if inI64 (c + state.definition.increment) = true ∧
          state.definition.Reaches (c + state.definition.increment) then
        .ok (c + state.definition.increment)
      else if state.definition.cycle then
        .ok (if 0 ≤ state.definition.increment then state.definition.minValue
          else state.definition.maxValue)
      else .error (.sequence "sequence reached its limit") := by
  unfold advanceSequence checkedAdd SequenceDef.Reaches
  rw [hc]
  by_cases hin : inI64 (c + state.definition.increment) = true
  · simp only [hin, if_true, true_and]
    congr 1
    simp only [Bool.or_eq_true, Bool.and_eq_true, decide_eq_true_eq, eq_iff_iff]
    omega
  · simp only [hin, Bool.false_eq_true, false_and, if_false]

lemma advanceSequence_none (hc : state.current = none) (h : advanceSequence state = .ok v) :
    v = state.definition.start := by
  unfold advanceSequence at h
  rw [hc] at h
  cases h
  rfl

/-- A value handed out is in bounds exactly when the sequence was aimed at its range. -/
lemma advanceSequence_inBounds_iff (h : advanceSequence state = .ok v) :
    state.definition.InBounds v ↔ state.Aimed := by
  cases hc : state.current with
  | none =>
    rw [advanceSequence_none hc h]
    constructor
    · intro hin
      refine ⟨le_trans hin.1 hin.2, fun _ => hin, ?_⟩
      rintro ⟨c, hsome, -⟩
      rw [hc] at hsome
      cases hsome
    · intro haimed
      exact haimed.first hc
  | some c =>
    -- `START` is out of use, and only the one counter is to be looked at
    have haimed : state.Aimed ↔ state.definition.minValue ≤ state.definition.maxValue ∧
        ¬(inI64 (c + state.definition.increment) = true ∧
          (0 ≤ state.definition.increment ∧
              c + state.definition.increment < state.definition.minValue ∨
            state.definition.increment < 0 ∧
              state.definition.maxValue < c + state.definition.increment)) := by
      refine ⟨fun h => ⟨h.range, fun hshort => h.step ⟨c, hc, hshort⟩⟩, fun h => ⟨h.1, ?_, ?_⟩⟩
      · intro hnone
        rw [hc] at hnone
        cases hnone
      · rintro ⟨c', hc', hshort⟩
        rw [hc] at hc'
        cases hc'
        exact h.2 hshort
    rw [haimed]
    rw [advanceSequence_some hc] at h
    unfold SequenceDef.Reaches at h
    unfold SequenceDef.InBounds
    by_cases hin : inI64 (c + state.definition.increment) = true
    · simp only [hin, true_and] at h ⊢
      split_ifs at h <;> cases h <;> omega
    · simp only [hin, Bool.false_eq_true, false_and, if_false, not_false_eq_true, and_true] at h ⊢
      split_ifs at h <;> cases h <;> omega

/-- A counter that stands in the range is aimed at it. -/
lemma aimed_of_inBounds (hc : state.current = some c) (h : state.definition.InBounds c) :
    state.Aimed := by
  refine ⟨le_trans h.1 h.2, fun hnone => ?_, ?_⟩
  · rw [hc] at hnone
    cases hnone
  · rintro ⟨c', hc', -, hshort⟩
    rw [hc] at hc'
    cases hc'
    unfold SequenceDef.InBounds at h
    omega

lemma advanceSequence_step (h : advanceSequence state = .ok v)
    (hcycle : state.definition.cycle = false) (hc : state.current = some c) :
    v = c + state.definition.increment := by
  rw [advanceSequence_some hc, hcycle] at h
  simp only [Bool.false_eq_true, if_false] at h
  split_ifs at h
  cases h
  rfl

/-- A counter left one increment before `r` is advanced to `r`, if that is not past the bound. -/
lemma advanceSequence_restart {r : Int} (hc : state.current = some (r - state.definition.increment))
    (hr : inI64 r = true) (hreach : state.definition.Reaches r) : advanceSequence state = .ok r := by
  rw [advanceSequence_some hc, Int.sub_add_cancel, if_pos ⟨hr, hreach⟩]

variable {e e' : Engine} {id : Nat}

lemma sequenceNext_ok (h : e.sequenceNext id = (e', .ok v)) :
    ∃ state, e.seqs.sequences id = some state ∧ advanceSequence state = .ok v ∧
      e' = .append { e with seqs := e.seqs.setState id (some { state with current := some v }) }
        [.seqSet id v] := by
  unfold Engine.sequenceNext at h
  split at h
  · cases h
  rename_i state hstate
  split at h
  · cases h
  rename_i hadvance
  cases h
  exact ⟨state, hstate, hadvance, rfl⟩

/-- A refused advance changes nothing. -/
lemma sequenceNext_error {err : Error} (h : (e.sequenceNext id).2 = .error err) :
    (e.sequenceNext id).1 = e := by
  unfold Engine.sequenceNext at h ⊢
  split at h
  · rfl
  split at h
  · rfl
  · cases h

lemma sequenceNext_of_advance (hstate : e.seqs.sequences id = some state)
    (h : advanceSequence state = .ok v) : (e.sequenceNext id).2 = .ok v := by
  unfold Engine.sequenceNext
  rw [hstate]
  dsimp only
  rw [h]

end NusaDb.Sequence
