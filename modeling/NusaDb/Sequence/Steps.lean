import NusaDb.Sequence.Bounds
import NusaDb.Sequence.Crash

/-!
# Every call keeps the counters with the log

The invariant of `NusaDb.Sequence.Crash` is kept by every call, and by a crash that does not come
between the two records of a restore. The calls that set a counter (`sequenceNext`, `sequenceSet`,
`alterSequence`) go through one lemma, `Inv.setState`: the counter in memory and the record in the
log change together.
-/

namespace NusaDb.Sequence

open List Option Function Sequence.Engine SeqDomain Record

namespace Inv

variable {ok : SequenceDef → Prop} {rel : Int → Int → Prop} {e : Engine} {given : List Given}
  {undoing : List UndoOp}

lemma given_lt (h : Inv ok rel e given undoing) {g : Given} (hg : g ∈ given) :
    g.id < e.seqs.nextSequenceId := by
  obtain ⟨-, d, hd⟩ := h.recorded g hg
  exact h.ids g.id d (mem_of_mem_take hd)

lemma recorded_append (h : Inv ok rel e given undoing) (records : List Record) :
    ∀ g ∈ given, g.pos < (e.log ++ records).length ∧ ∃ d, .seqCreate g.id d ∈ (e.log ++ records).take g.pos := by
  intro g hg
  obtain ⟨hlt, d, hd⟩ := h.recorded g hg
  refine ⟨by rw [length_append]; omega, d, ?_⟩
  rw [take_append_of_le_length (le_of_lt hlt)]
  exact hd

lemma held_setTxn (e : Engine) (txn : Nat) (state : Option TxnState) (undoing undoing' : List UndoOp)
    (t : Nat) : (e.setTxn txn state).held undoing (some t) =
      if t = txn then (state.map TxnState.undo).getD [] else e.held undoing' (some t) := by
  unfold held setTxn
  dsimp only
  rw [update_apply]
  split <;> rfl

section

variable (h : Inv ok rel e given undoing)

include h

lemma setTxn (txn : Nat) (state : Option TxnState) (hsub : ((state.map TxnState.undo).getD
    []).Sublist (e.held undoing (some txn))) : Inv ok rel (e.setTxn txn state) given undoing := by
  have hheld : ∀ h, ((e.setTxn txn state).held undoing h).Sublist (e.held undoing h) := by
    intro h
    cases h with
    | none => exact Sublist.refl _
    | some t =>
      rw [held_setTxn e txn state undoing undoing]
      split
      · rename_i heq
        exact heq ▸ hsub
      · exact Sublist.refl _
  refine ⟨h.memory, fun t id st hmem => h.dropped t id st ((hheld t).subset hmem),
    fun t => (h.nodup t).sublist ((hheld t).filterMap _), fun t t' id hne hmem hmem' => ?_,
    h.cuts, h.recorded, h.ids, h.described⟩
  exact h.apart t t' id hne (((hheld t).filterMap _).subset hmem) (((hheld t').filterMap _).subset hmem')

/-- A neutral record says nothing of any counter. -/
lemma append_neutral {record : Record} (hrecord : record.Neutral) :
    Inv ok rel (e.append [record]) given undoing := by
  have hcounted : ∀ id state, Counted ok e.log id state → Counted ok (e.log ++ [record]) id state :=
    fun id state hc => hc.append (hrecord.counterStep id)
  refine ⟨fun id state hs => hcounted id state (h.memory id state hs),
    fun t id state ht => ⟨hcounted id state (h.dropped t id state ht).1, (h.dropped t id state ht).2⟩,
    h.nodup, h.apart, ?_, h.recorded_append [record], fun id d hmem => ?_,
    forall_mem_append.mpr ⟨h.described, forall_mem_singleton.mpr (hrecord.describes ok)⟩⟩
  · refine h.cuts.snoc (fun g hg => (h.recorded g hg).1) fun g _ c _ hle => ⟨c, ?_, hle⟩
    exact hrecord.counterStep g.id (some c)
  · rcases mem_append.mp hmem with hmem | hmem
    · exact h.ids id d hmem
    · rw [← mem_singleton.mp hmem] at hrecord
      exact hrecord.elim

lemma append_neutrals (records : List Record) (hrecords : ∀ record ∈ records, record.Neutral) :
    Inv ok rel (e.append records) given undoing := by
  induction records generalizing e with
  | nil =>
    have heq : e.append [] = e := by simp [append]
    rw [heq]
    exact h
  | cons record records ih =>
    have heq : e.append (record :: records) = (e.append [record]).append records := by
      simp [append]
    rw [heq]
    exact ih (h.append_neutral (hrecords record mem_cons_self))
      fun r hr => hrecords r (mem_cons_of_mem _ hr)

lemma setSeqs (seqs : SeqDomain)
    (hmemory : ∀ id state, seqs.sequences id = some state → Counted ok e.log id state)
    (hdropped : ∀ t id state, .droppedSequence id state ∈ e.held undoing t → seqs.sequences id = none)
    (hnext : e.seqs.nextSequenceId ≤ seqs.nextSequenceId) : Inv ok rel { e with seqs } given undoing :=
  ⟨hmemory, fun t id state ht => ⟨(h.dropped t id state ht).1, hdropped t id state ht⟩, h.nodup, h.apart,
    h.cuts, h.recorded, fun id d hmem => lt_of_lt_of_le (h.ids id d hmem) hnext, h.described⟩

lemma cuts_seqCreate {id : Nat} {d : SequenceDef} (hnone : ∀ g ∈ given, g.id ≠ id) :
    Cuts rel (e.log ++ [.seqCreate id d]) given := by
  refine h.cuts.snoc (fun g hg => (h.recorded g hg).1) fun g hg c _ hle => ⟨c, ?_, hle⟩
  exact if_neg (Ne.symm (hnone g hg))

end

/-! ### Undoing -/

lemma tail {op : UndoOp} (h : Inv ok rel e given (op :: undoing)) : Inv ok rel e given undoing := by
  have hheld : ∀ t, (e.held undoing t).Sublist (e.held (op :: undoing) t) := by
    intro t
    cases t with
    | none => exact sublist_cons_self _ _
    | some t => exact Sublist.refl _
  have hdrops : ∀ t, (drops (e.held undoing t)).Sublist (drops (e.held (op :: undoing) t)) :=
    fun t => (hheld t).filterMap _
  exact ⟨h.memory, fun t id state ht => h.dropped t id state ((hheld t).subset ht),
    fun t => (h.nodup t).sublist (hdrops t),
    fun t t' id hne hmem hmem' => h.apart t t' id hne ((hdrops t).subset hmem) ((hdrops t').subset hmem'),
    h.cuts, h.recorded, h.ids, h.described⟩

lemma undo_created {id : Nat} {name : String}
    (h : Inv ok rel e given (.createdSequence id name :: undoing)) (txn : Nat) :
    Inv ok rel { e with seqs := e.seqs.undoOp txn (.createdSequence id name) } given undoing := by
  have hseqs : (e.seqs.undoOp txn (.createdSequence id name)).sequences =
      update e.seqs.sequences id none := by simp [undoOp]
  apply h.tail.setSeqs
  · intro id' state hs
    rw [hseqs] at hs
    rcases update_eq_some hs with ⟨rfl, hnew⟩ | ⟨heq, hs⟩
    · cases hnew
    · exact h.memory id' state hs
  · intro t id' state ht
    rw [hseqs]
    by_cases heq : id' = id
    · rw [heq, update_self]
    · rw [update_of_ne heq, (h.tail.dropped t id' state ht).2]
  · simp [undoOp]

variable {state : SequenceState}

section

variable {id : Nat} (h : Inv ok rel e given (.droppedSequence id state :: undoing))

include id h

lemma undo_dropped (txn : Nat) :
    Inv ok rel { e with seqs := e.seqs.undoOp txn (.droppedSequence id state) } given undoing := by
  obtain ⟨hstate, -⟩ := h.dropped none id state mem_cons_self
  have hseqs : (e.seqs.undoOp txn (.droppedSequence id state)).sequences =
      update e.seqs.sequences id (some state) := by simp [undoOp]
  -- the sequence that comes back is in no other undo list
  have hother : ∀ t, id ∉ drops (e.held undoing t) := by
    intro t hmem
    cases t with
    | none =>
      have hnodup := h.nodup none
      exact (nodup_cons.mp hnodup).1 hmem
    | some t => exact h.apart none (some t) id (some_ne_none t).symm mem_cons_self hmem
  apply h.tail.setSeqs
  · intro id' state' hs
    rw [hseqs] at hs
    rcases update_eq_some hs with ⟨rfl, hnew⟩ | ⟨heq, hs⟩
    · cases hnew
      exact hstate
    · exact h.memory id' state' hs
  · intro t id' state' ht
    have hne : id' ≠ id := by
      rintro rfl
      exact hother t (mem_drops.mpr ⟨state', ht⟩)
    rw [hseqs, update_of_ne hne, (h.tail.dropped t id' state' ht).2]
  · simp [undoOp]

lemma compensate_dropped :
    Inv ok rel (e.append (compensations (.droppedSequence id state))) given
      (.droppedSequence id state :: undoing) := by
  obtain ⟨hstate, -⟩ := h.dropped none id state mem_cons_self
  -- for this sequence the records say what the log said, for every other nothing
  have hcounter : ∀ id', loggedCounter id' (e.log ++ compensations (.droppedSequence id state)) =
      loggedCounter id' e.log := by
    intro id'
    rw [loggedCounter_append]
    by_cases heq : id = id'
    · subst heq
      rw [← hstate.current]
      cases hcurrent : state.current <;> simp [compensations, hcurrent, counterStep]
    · cases hcurrent : state.current <;> simp [compensations, hcurrent, counterStep, heq]
  have hcounted : ∀ id' state', Counted ok e.log id' state' →
      Counted ok (e.log ++ compensations (.droppedSequence id state)) id' state' := by
    intro id' state' hc
    obtain ⟨d, hd⟩ := hc.created
    exact ⟨hc.current.trans (hcounter id').symm, hc.described, d, mem_append_left _ hd⟩
  refine ⟨fun id' state' hs => hcounted id' state' (h.memory id' state' hs), fun t id' state' ht =>
    ⟨hcounted id' state' (h.dropped t id' state' ht).1, (h.dropped t id' state' ht).2⟩, h.nodup, h.apart,
    ?_, h.recorded_append _, fun id' d hmem => ?_, forall_mem_append.mpr ⟨h.described, ?_⟩⟩
  · refine h.cuts.append (fun k hk hlt => ?_) fun g hg _ => ?_
    · -- the only cut inside lies between the two records
      obtain ⟨d', hd'⟩ := hstate.created
      cases hcurrent : state.current with
      | none =>
        simp only [compensations, hcurrent, toList_none, map_nil, length_singleton] at hlt
        omega
      | some value =>
        simp only [compensations, hcurrent, toList_some, map_cons, map_nil,
          length_cons, length_nil] at hlt
        have hk : k = 1 := by omega
        subst hk
        have hrestore : compensations (.droppedSequence id state) =
            [.seqCreate id state.definition, .seqSet id value] := by simp [compensations, hcurrent]
        rw [hrestore]
        exact splitsRestore_restore hd'
    · obtain ⟨c, hc, hle⟩ := h.cuts.whole hg (h.recorded g hg).1
      exact ⟨c, (hcounter g.id).trans hc, hle⟩
  · rcases mem_append.mp hmem with hmem | hmem
    · exact h.ids id' d hmem
    have hid : id' = id := by
      cases hcurrent : state.current <;> simp [compensations, hcurrent] at hmem <;> exact hmem.1
    obtain ⟨d', hd'⟩ := hstate.created
    exact hid ▸ h.ids id d' hd'
  · refine forall_mem_cons.mpr ⟨hstate.described, fun r hr => ?_⟩
    obtain ⟨_, -, rfl⟩ := mem_map.mp hr
    trivial

end

lemma undoOps {ops : List UndoOp} (h : Inv ok rel e given ops) (txn : Nat) (compensate : Bool) :
    Inv ok rel (append { e with seqs := e.seqs.undoOps txn ops }
      (ops.flatMap fun op => if compensate then compensations op else [])) given [] := by
  induction ops generalizing e with
  | nil =>
    have heq : append { e with seqs := e.seqs.undoOps txn [] } [] = e := by
      simp [append, undoOps]
    rw [flatMap_nil, heq]
    exact h
  | cons op ops ih =>
    have hone : Inv ok rel (append { e with seqs := e.seqs.undoOp txn op }
        (if compensate then compensations op else [])) given ops := by
      cases op with
      | createdSequence id name =>
        refine (h.undo_created txn).append_neutrals _ fun r hr => ?_
        cases compensate with
        | false => cases hr
        | true =>
          rw [mem_singleton.mp hr]
          trivial
      | droppedSequence id state =>
        cases compensate with
        | false =>
          refine (h.undo_dropped txn).append_neutrals _ fun r hr => ?_
          cases hr
        | true => exact h.compensate_dropped.undo_dropped txn
    have hrest := ih hone
    have heq : append { e with seqs := e.seqs.undoOps txn (op :: ops) }
        ((op :: ops).flatMap fun op => if compensate then compensations op else []) =
        append { (append { e with seqs := e.seqs.undoOp txn op }
            (if compensate then compensations op else [])) with
          seqs := (e.seqs.undoOp txn op).undoOps txn ops }
          (ops.flatMap fun op => if compensate then compensations op else []) := by
      simp [append, undoOps]
    rw [heq]
    exact hrest

variable {txn : Nat} (h : Inv ok rel e given [])

include h

/-- A transaction that ends or goes back hands over the undo entries it drops. -/
lemma takeUndo {state : TxnState} (hstate : e.txns txn = some state) (kept : Option TxnState)
    {ops : List UndoOp} (hsplit : state.undo = ops ++ (kept.map TxnState.undo).getD []) :
    Inv ok rel (e.setTxn txn kept) given ops := by
  have hold : e.held [] (some txn) = state.undo := by
    show ((e.txns txn).map TxnState.undo).getD [] = state.undo
    rw [hstate]
    rfl
  have hnodup := h.nodup (some txn)
  rw [hold, hsplit, drops, filterMap_append] at hnodup
  obtain ⟨hops, hkept, hdisjoint⟩ := nodup_append.mp hnodup
  have hself : (e.setTxn txn kept).held ops (some txn) = (kept.map TxnState.undo).getD [] :=
    (held_setTxn e txn kept ops [] txn).trans (if_pos rfl)
  have hothers : ∀ t, t ≠ txn → (e.setTxn txn kept).held ops (some t) = e.held [] (some t) :=
    fun t hne => (held_setTxn e txn kept ops [] t).trans (if_neg hne)
  -- where an operation was before
  have hwhere : ∀ t op, op ∈ (e.setTxn txn kept).held ops t →
      op ∈ e.held [] (some (t.getD txn)) := by
    intro t op hop
    cases t with
    | none =>
      show op ∈ e.held [] (some txn)
      rw [hold, hsplit]
      exact mem_append_left _ hop
    | some t =>
      by_cases heq : t = txn
      · subst heq
        rw [hself] at hop
        show op ∈ e.held [] (some t)
        rw [hold, hsplit]
        exact mem_append_right _ hop
      · rw [hothers t heq] at hop
        exact hop
  have hwhere' : ∀ t id, id ∈ drops ((e.setTxn txn kept).held ops t) →
      id ∈ drops (e.held [] (some (t.getD txn))) := by
    intro t id hid
    obtain ⟨st, hst⟩ := mem_drops.mp hid
    exact mem_drops.mpr ⟨st, hwhere t _ hst⟩
  refine ⟨h.memory, fun t id st hmem => h.dropped _ id st (hwhere t _ hmem), fun t => ?_,
    fun t t' id hne hmem hmem' => ?_, h.cuts, h.recorded, h.ids, h.described⟩
  · cases t with
    | none => exact hops
    | some t =>
      by_cases heq : t = txn
      · rw [heq, hself]
        exact hkept
      · rw [hothers t heq]
        exact h.nodup (some t)
  · by_cases hsame : t.getD txn = t'.getD txn
    · -- both are parts of the one undo list
      have hparts : ∀ {u : Option Nat}, u.getD txn = txn → u = none ∨ u = some txn := by
        intro u hu
        cases u with
        | none => exact .inl rfl
        | some u => exact .inr (congrArg some hu)
      cases t with
      | none =>
        rcases hparts hsame.symm with rfl | rfl
        · exact hne rfl
        · rw [hself] at hmem'
          exact hdisjoint id hmem id hmem' rfl
      | some t =>
        cases t' with
        | none =>
          have ht : t = txn := hsame
          subst ht
          rw [hself] at hmem
          exact hdisjoint id hmem' id hmem rfl
        | some t' => exact hne (congrArg some hsame)
    · exact h.apart _ _ id (fun heq => hsame (some_inj.mp heq)) (hwhere' t id hmem)
        (hwhere' t' id hmem')

/-! ### The calls -/

omit h in
lemma pushUndo_eq {e : Engine} {state : TxnState} (hstate : e.txns txn = some state) (op : UndoOp) :
    e.pushUndo txn op = e.setTxn txn (some { state with undo := op :: state.undo }) := by
  unfold pushUndo
  rw [hstate]

omit h in
lemma pushUndo_held {e : Engine} {state : TxnState} (hstate : e.txns txn = some state) (op : UndoOp)
    (t : Option Nat) : (e.pushUndo txn op).held [] t =
      if t = some txn then op :: e.held [] t else e.held [] t := by
  rw [pushUndo_eq hstate]
  rcases t with _ | t
  · rfl
  rw [held_setTxn e txn _ [] []]
  by_cases heq : t = txn
  · rw [if_pos heq, if_pos (congrArg some heq), heq]
    unfold held
    dsimp only
    rw [hstate]
    rfl
  · rw [if_neg heq, if_neg fun h => heq (some_inj.mp h)]

lemma pushUndo_created (txn id : Nat) (name : String) :
    Inv ok rel (e.pushUndo txn (.createdSequence id name)) given [] := by
  cases hstate : e.txns txn with
  | none =>
    unfold pushUndo
    rw [hstate]
    exact h
  | some state =>
    have hheld := pushUndo_held hstate (.createdSequence id name)
    have hdrops : ∀ t, drops ((e.pushUndo txn (.createdSequence id name)).held [] t) =
        drops (e.held [] t) := by
      intro t
      rw [hheld]
      split <;> rfl
    rw [pushUndo_eq hstate] at hheld hdrops ⊢
    refine ⟨h.memory, fun t id' st hmem => h.dropped t id' st ?_, fun t => ?_,
      fun t t' id' hne hmem => ?_, h.cuts, h.recorded, h.ids, h.described⟩
    · rw [hheld] at hmem
      split at hmem
      · rcases mem_cons.mp hmem with hmem | hmem
        · cases hmem
        · exact hmem
      · exact hmem
    · rw [hdrops]
      exact h.nodup t
    · rw [hdrops] at hmem ⊢
      exact h.apart t t' id' hne hmem

/-- A dropped sequence lives on in the undo entry that would restore it. -/
lemma pushUndo_dropped {id : Nat} {ts : TxnState} (hts : e.txns txn = some ts)
    (hstate : e.seqs.sequences id = some state) {seqs : SeqDomain}
    (hseqs : seqs.sequences = update e.seqs.sequences id none)
    (hnext : seqs.nextSequenceId = e.seqs.nextSequenceId) :
    Inv ok rel (pushUndo { e with seqs } txn (.droppedSequence id state)) given [] := by
  have hheld := pushUndo_held (e := { e with seqs }) hts (.droppedSequence id state)
  -- a sequence in memory is in no undo list
  have hnot : ∀ t, id ∉ drops (e.held [] t) := by
    intro t hmem
    obtain ⟨st, hst⟩ := mem_drops.mp hmem
    have hnone := (h.dropped t id st hst).2
    rw [hstate] at hnone
    cases hnone
  have hdrops : ∀ t, drops ((pushUndo { e with seqs } txn (.droppedSequence id state)).held [] t) =
      if t = some txn then id :: drops (e.held [] t) else drops (e.held [] t) := by
    intro t
    rw [hheld]
    split <;> rfl
  rw [pushUndo_eq (e := { e with seqs }) hts] at hheld hdrops ⊢
  refine ⟨fun id' st hs => ?_, fun t id' st hmem => ?_, fun t => ?_,
    fun t t' id' hne hmem hmem' => ?_, h.cuts, h.recorded, ?_, h.described⟩
  · rw [show (Engine.setTxn { e with seqs } txn _).seqs.sequences = _ from hseqs] at hs
    rcases update_eq_some hs with ⟨rfl, hnew⟩ | ⟨heq, hs⟩
    · cases hnew
    · exact h.memory id' st hs
  · have hcases : (id' = id ∧ st = state) ∨ .droppedSequence id' st ∈ e.held [] t := by
      rw [hheld] at hmem
      split at hmem
      · rcases mem_cons.mp hmem with hmem | hmem
        · cases hmem
          exact .inl ⟨rfl, rfl⟩
        · exact .inr hmem
      · exact .inr hmem
    show Counted ok e.log id' st ∧ seqs.sequences id' = none
    rw [hseqs]
    rcases hcases with ⟨rfl, rfl⟩ | hold
    · exact ⟨h.memory id' st hstate, update_self _ _ _⟩
    obtain ⟨hcounted, hnone⟩ := h.dropped t id' st hold
    refine ⟨hcounted, ?_⟩
    by_cases heq : id' = id
    · rw [heq, update_self]
    · rw [update_of_ne heq, hnone]
  · rw [hdrops]
    split
    · exact nodup_cons.mpr ⟨hnot t, h.nodup t⟩
    · exact h.nodup t
  · rw [hdrops] at hmem hmem'
    split at hmem
    case isTrue ht =>
      rw [if_neg fun ht' => hne (ht.trans ht'.symm)] at hmem'
      rcases mem_cons.mp hmem with rfl | hmem
      · exact hnot t' hmem'
      · exact h.apart t t' id' hne hmem hmem'
    case isFalse =>
      split at hmem'
      case isTrue =>
        rcases mem_cons.mp hmem' with rfl | hmem'
        · exact hnot t hmem
        · exact h.apart t t' id' hne hmem hmem'
      case isFalse => exact h.apart t t' id' hne hmem hmem'
  · show ∀ id' d, _ → id' < seqs.nextSequenceId
    rw [hnext]
    exact h.ids

lemma begin : Inv ok rel e.begin.1 given [] := by
  have hset := h.setTxn e.nextTxnId (some ⟨[], []⟩) (nil_sublist _)
  exact ⟨hset.memory, hset.dropped, hset.nodup, hset.apart, hset.cuts, hset.recorded, hset.ids,
    hset.described⟩

omit h in
lemma clearStale_ok {name : String} {seqs : SeqDomain} (h : e.clearStale txn name = .ok seqs) :
    seqs.sequences = e.seqs.sequences ∧ seqs.nextSequenceId = e.seqs.nextSequenceId := by
  unfold clearStale at h
  split at h
  · split_ifs at h
    · cases h
      exact ⟨rfl, rfl⟩
    · cases h
      exact ⟨rfl, rfl⟩
  · cases h
    exact ⟨rfl, rfl⟩

lemma createSequence (txn : Nat) {d : SequenceDef} (hd : ok d) :
    Inv ok rel (e.createSequence txn d).1 given [] := by
  unfold Engine.createSequence
  split_ifs
  · exact h
  rcases hclear : e.clearStale txn d.name with err | seqs
  · exact h
  obtain ⟨hseqs, hnext⟩ := clearStale_ok hclear
  dsimp only
  split_ifs
  · refine h.setSeqs seqs (fun id state hs => ?_) (fun t id state ht => ?_) (le_of_eq hnext.symm)
    · rw [hseqs] at hs
      exact h.memory id state hs
    · rw [hseqs]
      exact (h.dropped t id state ht).2
  apply pushUndo_created
  -- the id is new: it is in neither the log nor memory nor an undo list
  have hfresh : ∀ id' d', .seqCreate id' d' ∈ e.log → id' ≠ seqs.nextSequenceId := by
    intro id' d' hmem heq
    have hlt := h.ids id' d' hmem
    rw [heq, hnext] at hlt
    exact lt_irrefl _ hlt
  have hcounted : ∀ id' state, Counted ok e.log id' state →
      id' ≠ seqs.nextSequenceId ∧ Counted ok (e.log ++ [.seqCreate seqs.nextSequenceId d]) id' state := by
    intro id' state hc
    obtain ⟨d', hd'⟩ := hc.created
    have hne := hfresh id' d' hd'
    exact ⟨hne, hc.append fun current => if_neg (Ne.symm hne)⟩
  refine ⟨fun id' state hs => ?_, fun t id' state ht => ?_, h.nodup, h.apart, ?_,
    h.recorded_append _, fun id' d' hmem => ?_,
    forall_mem_append.mpr ⟨h.described, forall_mem_singleton.mpr hd⟩⟩
  · rw [show (append _ _).seqs.sequences = update seqs.sequences
      seqs.nextSequenceId (some ⟨d, none⟩) from rfl, hseqs] at hs
    rcases update_eq_some hs with ⟨rfl, hnew⟩ | ⟨heq, hs⟩
    · cases hnew
      refine ⟨?_, hd, d, mem_append_right _ mem_cons_self⟩
      show none = loggedCounter seqs.nextSequenceId (e.log ++ [.seqCreate seqs.nextSequenceId d])
      rw [loggedCounter_append]
      exact (if_pos rfl).symm
    · exact (hcounted id' state (h.memory id' state hs)).2
  · obtain ⟨hc, hnone⟩ := h.dropped t id' state ht
    obtain ⟨hne, hc'⟩ := hcounted id' state hc
    refine ⟨hc', ?_⟩
    show update seqs.sequences seqs.nextSequenceId _ id' = none
    rw [update_of_ne hne, hseqs, hnone]
  · refine h.cuts_seqCreate fun g hg heq => ?_
    have hlt := h.given_lt hg
    rw [heq, hnext] at hlt
    exact lt_irrefl _ hlt
  · show id' < seqs.nextSequenceId + 1
    rcases mem_append.mp hmem with hmem | hmem
    · rw [hnext]
      exact Nat.lt_succ_of_lt (h.ids id' d' hmem)
    · cases mem_singleton.mp hmem
      exact Nat.lt_succ_self _

omit h in
lemma append_pushUndo (e : Engine) (records : List Record) (txn : Nat) (op : UndoOp) :
    (e.append records).pushUndo txn op = (e.pushUndo txn op).append records := by
  have htxns : (e.append records).txns = e.txns := rfl
  unfold pushUndo
  rw [htxns]
  cases e.txns txn <;> rfl

lemma dropSequence (txn id : Nat) : Inv ok rel (e.dropSequence txn id).1 given [] := by
  unfold Engine.dropSequence
  rcases hts : e.txns txn with _ | ts
  · exact h
  cases hstate : e.seqs.sequences id with
  | none => exact h
  | some state =>
    dsimp only
    rw [append_pushUndo]
    refine append_neutral ?_ trivial
    exact h.pushUndo_dropped hts hstate (by simp) (by simp)

/-- The counter of a sequence in memory and the log change together: `records` hold at most one
record, which is about `id` and leads to the new counter. What was given for `id` must stay in `rel`
to it. -/
lemma setState {id : Nat} (hstate : e.seqs.sequences id = some state) (new : SequenceState)
    (hok : ok new.definition) {records : List Record} (hone : records.length ≤ 1)
    (hdescribes : ∀ record ∈ records, record.Describes ok)
    (hcreate : ∀ id' d, .seqCreate id' d ∉ records)
    (hself : records.foldl (counterStep id) state.current = new.current)
    (hother : ∀ id' current, id' ≠ id → records.foldl (counterStep id') current = current)
    (hgiven : ∀ g ∈ given, g.id = id → ∀ c, state.current = some c → rel g.value c →
      ∃ c', new.current = some c' ∧ rel g.value c') :
    Inv ok rel (append { e with seqs := e.seqs.setState id (some new) } records) given [] := by
  have hc := h.memory id state hstate
  refine ⟨fun id' st hs => ?_, fun t id' st ht => ?_, h.nodup, h.apart, ?_, h.recorded_append _,
    fun id' d hmem => ?_, forall_mem_append.mpr ⟨h.described, hdescribes⟩⟩
  · rcases update_eq_some hs with ⟨rfl, hnew⟩ | ⟨heq, hs⟩
    · cases hnew
      obtain ⟨d, hd⟩ := hc.created
      refine ⟨?_, hok, d, mem_append_left _ hd⟩
      show new.current = loggedCounter id' (e.log ++ records)
      rw [loggedCounter_append, ← hc.current, hself]
    · exact (h.memory id' st hs).append fun current => hother id' current heq
  · obtain ⟨hc', hnone⟩ := h.dropped t id' st ht
    -- a sequence in memory is in no undo list
    have hne : id' ≠ id := by
      rintro rfl
      rw [hstate] at hnone
      cases hnone
    refine ⟨hc'.append fun current => hother id' current hne, ?_⟩
    show update e.seqs.sequences id _ id' = none
    rw [update_of_ne hne, hnone]
  · refine h.cuts.append (fun k hk hlt => ?_) fun g hg _ => ?_
    · omega
    obtain ⟨c, hlogged, hrel⟩ := h.cuts.whole hg (h.recorded g hg).1
    rw [loggedCounter_append]
    by_cases heq : g.id = id
    · rw [heq, ← hc.current, hself]
      refine hgiven g hg heq c ?_ hrel
      rw [hc.current, ← heq]
      exact hlogged
    · rw [hother g.id _ heq]
      exact ⟨c, hlogged, hrel⟩
  · rcases mem_append.mp hmem with hmem | hmem
    · exact h.ids id' d hmem
    · exact absurd hmem (hcreate id' d)

/-- Setting the counter of a sequence to `value`, as an advance and a `setval` do. -/
lemma setCounter {id : Nat} (hstate : e.seqs.sequences id = some state) (value : Int)
    (hgiven : ∀ g ∈ given, g.id = id → ∀ c, state.current = some c → rel g.value c →
      rel g.value value) :
    Inv ok rel (append
      { e with seqs := e.seqs.setState id (some { state with current := some value }) }
      [.seqSet id value]) given [] := by
  refine h.setState hstate { state with current := some value } (h.memory id state hstate).described
    (le_refl 1) (fun r hr => ?_) (fun id' d hmem => ?_) (if_pos rfl)
    (fun id' current hne => if_neg (Ne.symm hne)) fun g hg heq c hc hrel =>
      ⟨value, rfl, hgiven g hg heq c hc hrel⟩
  · rw [mem_singleton.mp hr]
    trivial
  · cases mem_singleton.mp hmem

/-- Once a record of the log has set a counter, its value may be put on record, if nothing follows
it and the sequence was created before. -/
lemma give (hrefl : ∀ v, rel v v) {log : List Record} {record : Record} (hlog : e.log = log ++ [record])
    {id : Nat} {value : Int} (hcreated : ∃ d, .seqCreate id d ∈ log)
    (hcounter : loggedCounter id e.log = some value) :
    Inv ok rel e (given ++ [⟨log.length, id, value⟩]) [] := by
  refine ⟨h.memory, h.dropped, h.nodup, h.apart, ?_, fun g hg => ?_, h.ids, h.described⟩
  · intro n hn hsplit g hg hpos
    rcases mem_append.mp hg with hg | hg
    · exact h.cuts n hn hsplit g hg hpos
    -- the new value is only before the cut that keeps the whole log
    cases mem_singleton.mp hg
    refine ⟨value, ?_, hrefl value⟩
    have hlen : e.log.length ≤ n := by
      rw [hlog, length_append, length_singleton]
      exact hpos
    rw [take_of_length_le hlen]
    exact hcounter
  · rcases mem_append.mp hg with hg | hg
    · exact h.recorded g hg
    cases mem_singleton.mp hg
    obtain ⟨d, hd⟩ := hcreated
    refine ⟨?_, d, ?_⟩
    · rw [hlog, length_append]
      exact Nat.lt_succ_self _
    · rw [hlog, take_left]
      exact hd

lemma sequenceSet (id : Nat) (value : Int) (hgiven : ∀ g ∈ given, g.id ≠ id) :
    Inv ok rel (e.sequenceSet id value).1 given [] := by
  unfold Engine.sequenceSet
  cases hstate : e.seqs.sequences id with
  | none => exact h
  | some state => exact h.setCounter hstate value fun g hg heq => absurd heq (hgiven g hg)

/-- An advance that is given on record: the older values of the sequence must be in `rel` to it. -/
lemma sequenceNext (hrefl : ∀ v, rel v v) {id : Nat} {value : Int} {e' : Engine}
    (hnext : e.sequenceNext id = (e', .ok value))
    (hgiven : ∀ g ∈ given, g.id = id → rel g.value value) :
    Inv ok rel e' (given ++ [⟨e.log.length, id, value⟩]) [] := by
  obtain ⟨state, hstate, hadvance, rfl⟩ := sequenceNext_ok hnext
  refine (h.setCounter hstate value fun g hg heq _ _ _ => hgiven g hg heq).give hrefl rfl
    (h.memory id state hstate).created ?_
  show loggedCounter id (e.log ++ [seqSet id value]) = some value
  rw [loggedCounter_append]
  exact if_pos rfl

omit h in
lemma describes_of_mem_alterRecord {id : Nat} {old new : SequenceDef} {restart : Option Int}
    {record : Record} (hnew : ok new) (hmem : record ∈ alterRecord id old new restart) :
    record.Describes ok := by
  unfold alterRecord at hmem
  split_ifs at hmem
  · rw [mem_singleton.mp hmem]
    exact hnew
  · obtain ⟨_, -, rfl⟩ := mem_map.mp hmem
    trivial

omit h in
lemma seqCreate_notMem_alterRecord {id id' : Nat} {old new d : SequenceDef} {restart : Option Int} :
    .seqCreate id' d ∉ alterRecord id old new restart := by
  unfold alterRecord
  split_ifs <;> simp

omit h in
/-- What an `ALTER` logs moves the counter to where it restarts, if it does. -/
lemma foldl_alterRecord (id : Nat) (old new : SequenceDef) (restart : Option Int) (id' : Nat)
    (current : Option Int) : (alterRecord id old new restart).foldl (counterStep id') current =
      if id = id' then restart.or current else current := by
  unfold alterRecord
  split_ifs with hdef hid hid
  · exact if_pos hid
  · exact if_neg hid
  · cases restart with
    | none => rfl
    | some c => exact if_pos hid
  · cases restart with
    | none => rfl
    | some c => exact if_neg hid

omit h in
/-- What an accepted `ALTER` does. -/
lemma alterSequence_ok {id : Nat} {change : SequenceChange} {e' : Engine}
    (halter : e.alterSequence txn id change = (e', .ok ())) :
    ∃ state restart, e.seqs.sequences id = some state ∧
      (change.apply state.definition).refusal = none ∧
      change.restartAt (change.apply state.definition) = .ok restart ∧
      e' = append
        { e with
          seqs := e.seqs.setState id
            (some ⟨change.apply state.definition, restart.or state.current⟩) }
        (alterRecord id state.definition (change.apply state.definition) restart) := by
  unfold Engine.alterSequence at halter
  split_ifs at halter
  · cases halter
  split at halter
  · cases halter
  rename_i state hstate
  dsimp only at halter
  split at halter
  · cases halter
  rename_i hrefusal
  split at halter
  · cases halter
  rename_i restart hrestart
  cases halter
  exact ⟨state, restart, hstate, hrefusal, hrestart, rfl⟩

omit h in
/-- A refused `ALTER` changes nothing. -/
lemma alterSequence_error {id : Nat} {change : SequenceChange} {err : Error}
    (halter : (e.alterSequence txn id change).2 = .error err) :
    (e.alterSequence txn id change).1 = e := by
  unfold Engine.alterSequence at halter ⊢
  split_ifs at halter ⊢
  · rfl
  split at halter
  · rfl
  dsimp only at halter ⊢
  split at halter
  · rfl
  split at halter
  · rfl
  · cases halter

/-- A change of the definition keeps what was given; a restart is only allowed for a sequence of
which nothing is on record. -/
lemma alterSequence (txn id : Nat) {change : SequenceChange}
    (hok : ∀ state, e.seqs.sequences id = some state → ok (change.apply state.definition))
    (hgiven : change.restart = none ∨ ∀ g ∈ given, g.id ≠ id) :
    Inv ok rel (e.alterSequence txn id change).1 given [] := by
  cases halter : e.alterSequence txn id change with
  | mk e' result =>
    cases result with
    | error err =>
      have hsame := alterSequence_error (congrArg Prod.snd halter)
      rw [halter] at hsame
      exact hsame ▸ h
    | ok _ =>
      obtain ⟨state, restart, hstate, -, hrestart, rfl⟩ := alterSequence_ok halter
      refine h.setState hstate _ (hok state hstate) ?_ (fun r hr => ?_) (fun id' d hmem => ?_) ?_
        (fun id' current hne => ?_) fun g hg heq c hc hrel => ?_
      · unfold alterRecord
        split_ifs
        · exact le_refl 1
        · cases restart <;> simp
      · exact describes_of_mem_alterRecord (hok state hstate) hr
      · exact seqCreate_notMem_alterRecord hmem
      · rw [foldl_alterRecord, if_pos rfl]
      · rw [foldl_alterRecord, if_neg (Ne.symm hne)]
      · rcases hgiven with hnone | hne
        · -- without a restart the counter stays
          unfold SequenceChange.restartAt at hrestart
          rw [hnone] at hrestart
          cases hrestart
          exact ⟨c, hc, hrel⟩
        · exact absurd heq (hne g hg)

lemma savepoint (txn : Nat) (name : String) : Inv ok rel (e.savepoint txn name).1 given [] := by
  unfold Engine.savepoint
  cases hts : e.txns txn with
  | none => exact h
  | some ts =>
    refine h.setTxn txn _ ?_
    show ts.undo.Sublist (((e.txns txn).map TxnState.undo).getD [])
    rw [hts]
    exact Sublist.refl _

lemma rollbackTo (txn : Nat) (name : String) : Inv ok rel (e.rollbackTo txn name).1 given [] := by
  unfold Engine.rollbackTo
  rcases hts : e.txns txn with _ | ts
  · exact h
  dsimp only
  split
  case h_1 => exact h
  case h_2 mark older _ =>
    have htaken := h.takeUndo hts (some { ts with
      undo := ts.undo.drop (ts.undo.length - mark)
      savepoints := (name, mark) :: older }) (take_append_drop _ _).symm
    exact htaken.undoOps txn true

lemma commit (txn : Nat) : Inv ok rel (e.commit txn).1 given [] := by
  unfold Engine.commit
  cases hts : e.txns txn with
  | none => exact h
  | some ts =>
    refine (h.setTxn txn none (nil_sublist _)).append_neutrals _ fun r hr => ?_
    split_ifs at hr
    · cases hr
    · rw [mem_singleton.mp hr]
      trivial

lemma rollback (txn : Nat) : Inv ok rel (e.rollback txn).1 given [] := by
  unfold Engine.rollback
  rcases hts : e.txns txn with _ | ts
  · exact h
  have htaken := h.takeUndo hts none (append_nil _).symm
  have hundone := htaken.undoOps txn false
  have hnothing : (ts.undo.flatMap fun op => if false = true then compensations op else []) = [] := by
    simp
  rw [hnothing] at hundone
  have heq : append { e.setTxn txn none with seqs := e.seqs.undoOps txn ts.undo } [] =
      { e.setTxn txn none with seqs := e.seqs.undoOps txn ts.undo } := by simp [append]
  rw [show (e.setTxn txn none).seqs = e.seqs from rfl, heq] at hundone
  refine hundone.append_neutrals _ fun r hr => ?_
  rcases mem_cons.mp hr with rfl | hr
  · trivial
  · obtain ⟨id, -, rfl⟩ := mem_map.mp hr
    trivial

lemma crash {n : Nat} (hsplit : ∀ g ∈ given, g.pos < n → splitsRestore e.log n = false) :
    Inv ok rel (.reopen (e.log.take n)) (given.filter fun g => g.pos < n) [] := by
  have hdescribed : ∀ record ∈ e.log.take n, record.Describes ok :=
    fun r hr => h.described r (mem_of_mem_take hr)
  have hheld : ∀ t, (reopen (e.log.take n)).held [] t = [] := by
    intro t
    cases t <;> rfl
  refine ⟨foldl_replayIf_counted _ _ hdescribed, fun t id st hmem => ?_, fun t => ?_,
    fun t t' id _ hmem => ?_, h.cuts.crash hsplit, fun g hg => ?_,
    fun id d hmem => foldl_replayIf_nextSequenceId _ _ hmem, hdescribed⟩
  · rw [hheld] at hmem
    cases hmem
  · rw [hheld]
    exact nodup_nil
  · rw [hheld] at hmem
    cases hmem
  · obtain ⟨hmem, hpos⟩ := mem_filter.mp hg
    have hlt : g.pos < n := of_decide_eq_true hpos
    obtain ⟨hlen, d, hd⟩ := h.recorded g hmem
    refine ⟨?_, d, ?_⟩
    · show g.pos < (e.log.take n).length
      rw [length_take]
      omega
    · show _ ∈ (e.log.take n).take g.pos
      rw [take_take, Nat.min_eq_left (le_of_lt hlt)]
      exact hd

omit h

lemma new : Inv ok rel .new [] [] := by
  have hheld : ∀ t, Engine.new.held [] t = [] := by
    intro t
    cases t <;> rfl
  refine ⟨fun id st h => ?_, fun t id st hmem => ?_, fun t => ?_, fun t t' id _ hmem => ?_,
    fun n _ _ g hg => ?_, fun g hg => ?_, fun id d hmem => ?_, fun r hr => ?_⟩
  · cases h
  · rw [hheld] at hmem
    cases hmem
  · rw [hheld]
    exact nodup_nil
  · rw [hheld] at hmem
    cases hmem
  · cases hg
  · cases hg
  · cases hmem
  · cases hr

end Inv

end NusaDb.Sequence
