import Mathlib

/-!
# Sequences

Creating and dropping a sequence are undone with their transaction; advancing one is logged on its
own. A create is logged at once and neutralised if undone; a drop takes effect at recovery only if
its transaction committed, and a rollback to a savepoint logs records that put the sequence back.
Maps only looked up are functions here. Appending to the log succeeds.
-/

namespace NusaDb.Sequence

def i64Min : Int := -(2 ^ 63)

def i64Max : Int := 2 ^ 63 - 1

def inI64 (v : Int) : Bool := decide (i64Min ≤ v) && decide (v ≤ i64Max)

def checkedAdd (a b : Int) : Option Int := if inI64 (a + b) then some (a + b) else none

def checkedSub (a b : Int) : Option Int := if inI64 (a - b) then some (a - b) else none

structure SequenceDef where
  name : String
  start : Int
  increment : Int
  minValue : Int
  maxValue : Int
  cycle : Bool
  deriving DecidableEq, Repr

structure SequenceState where
  definition : SequenceDef
  current : Option Int
  deriving DecidableEq, Repr

inductive SequenceRestart where
  | to (target : Int)
  | toStart
  deriving DecidableEq, Repr

structure SequenceChange where
  increment : Option Int
  minValue : Option Int
  maxValue : Option Int
  start : Option Int
  cycle : Option Bool
  restart : Option SequenceRestart
  deriving DecidableEq, Repr

inductive Error where
  | sequence (text : String)
  | unknownTransaction (txn : Nat)
  | serializationConflict (txn : Nat)
  | savepointNotFound (text : String)
  deriving DecidableEq, Repr

def sequenceNotFound (id : Nat) : Error := .sequence ("sequence " ++ toString id ++ " not found")

inductive Record where
  | seqCreate (id : Nat) (definition : SequenceDef)
  | seqDrop (txn id : Nat)
  | seqSet (id : Nat) (value : Int)
  | seqAlter (id : Nat) (definition : SequenceDef) (current : Option Int)
  | commitTxn (txn : Nat)
  | abortTxn (txn : Nat)
  deriving DecidableEq, Repr

/-- The transaction a record belongs to or ends; `0` is none. -/
def Record.txn : Record → Nat
  | .seqDrop txn _ => txn
  | .commitTxn txn => txn
  | .abortTxn txn => txn
  | _ => 0

inductive UndoOp where
  | createdSequence (id : Nat) (name : String)
  | droppedSequence (id : Nat) (state : SequenceState)
  deriving DecidableEq, Repr

structure TxnState where
  /-- Newest first. -/
  undo : List UndoOp
  /-- Newest first: the name and how many operations there were. -/
  savepoints : List (String × Nat)

structure SeqDomain where
  sequences : Nat → Option SequenceState
  seqByName : String → Option Nat
  nextSequenceId : Nat
  /-- Names whose sequence a transaction has dropped, with that transaction and how many of its drops
  can still be undone. -/
  pendingDrops : String → Option (Nat × Nat)

structure Engine where
  seqs : SeqDomain
  txns : Nat → Option TxnState
  nextTxnId : Nat
  log : List Record

namespace SeqDomain

def empty : SeqDomain := ⟨fun _ => none, fun _ => none, 0, fun _ => none⟩

/-- Point `name` at `id`, unless another sequence already owns the name. -/
def claimName (s : SeqDomain) (name : String) (id : Nat) : SeqDomain :=
  match s.seqByName name with
  | none => { s with seqByName := Function.update s.seqByName name (some id) }
  | some _ => s

def releaseName (s : SeqDomain) (name : String) (id : Nat) : SeqDomain :=
  if s.seqByName name = some id then
    { s with seqByName := Function.update s.seqByName name none }
  else s

def setState (s : SeqDomain) (id : Nat) (state : Option SequenceState) : SeqDomain :=
  { s with sequences := Function.update s.sequences id state }

/-- Count a drop of `name` by `txn`; an entry of another transaction is stale and is replaced. -/
def reserve (s : SeqDomain) (name : String) (txn : Nat) : SeqDomain :=
  let depth := match s.pendingDrops name with
    | some (owner, depth) => if owner = txn then depth else 0
    | none => 0
  { s with pendingDrops := Function.update s.pendingDrops name (some (txn, depth + 1)) }

def unreserve (s : SeqDomain) (name : String) (txn : Nat) : SeqDomain :=
  match s.pendingDrops name with
  | some (owner, depth) =>
    if owner = txn then
      { s with
        pendingDrops := Function.update s.pendingDrops name
          (if depth - 1 = 0 then none else some (owner, depth - 1)) }
    else s
  | none => s

def undoOp (txn : Nat) (s : SeqDomain) : UndoOp → SeqDomain
  | .createdSequence id name => (s.setState id none).releaseName name id
  | .droppedSequence id state =>
    ((s.unreserve state.definition.name txn).claimName state.definition.name id).setState id
      (some state)

def undoOps (s : SeqDomain) (txn : Nat) (ops : List UndoOp) : SeqDomain := ops.foldl (undoOp txn) s

end SeqDomain

def advanceSequence (state : SequenceState) : Except Error Int :=
  let d := state.definition
  match state.current with
  | none => .ok d.start
  | some cur =>
    match checkedAdd cur d.increment with
    | some v =>
      if (decide (0 ≤ d.increment) && decide (v ≤ d.maxValue)) ||
          (decide (d.increment < 0) && decide (d.minValue ≤ v)) then .ok v
      else if d.cycle then .ok (if 0 ≤ d.increment then d.minValue else d.maxValue)
      else .error (.sequence "sequence reached its limit")
    | none =>
      if d.cycle then .ok (if 0 ≤ d.increment then d.minValue else d.maxValue)
      else .error (.sequence "sequence reached its limit")

def SequenceChange.apply (change : SequenceChange) (d : SequenceDef) : SequenceDef where
  name := d.name
  start := change.start.getD d.start
  increment := change.increment.getD d.increment
  minValue := change.minValue.getD d.minValue
  maxValue := change.maxValue.getD d.maxValue
  cycle := change.cycle.getD d.cycle

def SequenceDef.refusal (d : SequenceDef) : Option Error :=
  if d.increment = 0 then some (.sequence "sequence INCREMENT must not be zero")
  else if d.maxValue < d.minValue then
    some (.sequence "sequence MINVALUE must not exceed MAXVALUE")
  else if d.start < d.minValue || d.maxValue < d.start then
    some (.sequence "sequence START must be between MINVALUE and MAXVALUE")
  else none

/-- Where a `RESTART` puts the counter: the next advance returns the target. -/
def SequenceChange.restartAt (change : SequenceChange) (d : SequenceDef) : Except Error (Option Int) :=
  match change.restart with
  | none => .ok none
  | some (.to target) =>
    (checkedSub target d.increment).elim
      (.error (.sequence "sequence RESTART value out of range")) fun v => .ok (some v)
  | some .toStart =>
    (checkedSub d.start d.increment).elim
      (.error (.sequence "sequence RESTART value out of range")) fun v => .ok (some v)

/-- The records that undo an operation in the log. A create is neutralised; a drop may yet commit,
so the sequence is put back, counter included. -/
def compensations : UndoOp → List Record
  | .createdSequence id _ => [.seqDrop 0 id]
  | .droppedSequence id state =>
    .seqCreate id state.definition :: state.current.toList.map (Record.seqSet id)

namespace Record

/-- Records of the sequence family that apply whatever became of a transaction. -/
def isNonTransactional : Record → Bool
  | .seqCreate _ _ => true
  | .seqDrop txn _ => txn == 0
  | .seqSet _ _ => true
  | .seqAlter _ _ _ => true
  | _ => false

end Record

/-- A transaction counts as committed when it has a commit marker and no abort marker. -/
def committed (records : List Record) (txn : Nat) : Bool :=
  records.contains (.commitTxn txn) && !records.contains (.abortTxn txn)

def replayOp (s : SeqDomain) : Record → SeqDomain
  | .seqCreate id d =>
    let s := (s.claimName d.name id).setState id (some ⟨d, none⟩)
    { s with nextSequenceId := max s.nextSequenceId (id + 1) }
  | .seqDrop _ id =>
    match s.sequences id with
    | some state => (s.setState id none).releaseName state.definition.name id
    | none => s
  | .seqSet id value =>
    match s.sequences id with
    | some state => s.setState id (some { state with current := some value })
    | none => s
  | .seqAlter id d current =>
    match s.sequences id with
    | some state => s.setState id (some ⟨d, current.or state.current⟩)
    | none => s
  | _ => s

def replayIf (ended : Nat → Bool) (s : SeqDomain) (record : Record) : SeqDomain :=
  if record.isNonTransactional || ended record.txn then replayOp s record else s

def replay (records : List Record) : SeqDomain :=
  records.foldl (replayIf (committed records)) .empty

namespace Engine

def new : Engine := ⟨.empty, fun _ => none, 1, []⟩

def reopen (records : List Record) : Engine where
  seqs := replay records
  txns := fun _ => none
  nextTxnId := max 1 ((records.map Record.txn).foldl max 0 + 1)
  log := records

def append (e : Engine) (records : List Record) : Engine := { e with log := e.log ++ records }

def setTxn (e : Engine) (txn : Nat) (state : Option TxnState) : Engine :=
  { e with txns := Function.update e.txns txn state }

def pushUndo (e : Engine) (txn : Nat) (op : UndoOp) : Engine :=
  match e.txns txn with
  | none => e
  | some state => e.setTxn txn (some { state with undo := op :: state.undo })

def begin (e : Engine) : Engine × Nat :=
  ({ e.setTxn e.nextTxnId (some ⟨[], []⟩) with nextTxnId := e.nextTxnId + 1 }, e.nextTxnId)

/-- Forget that another transaction has dropped `name` once it has ended; refuse the name before
that. -/
def clearStale (e : Engine) (txn : Nat) (name : String) : Except Error SeqDomain :=
  match e.seqs.pendingDrops name with
  | some (owner, _) =>
    if owner = txn then .ok e.seqs
    else if (e.txns owner).isSome then .error (.serializationConflict txn)
    else .ok { e.seqs with pendingDrops := Function.update e.seqs.pendingDrops name none }
  | none => .ok e.seqs

def createSequence (e : Engine) (txn : Nat) (d : SequenceDef) : Engine × Except Error Nat :=
  if (e.txns txn).isNone then (e, .error (.unknownTransaction txn))
  else
    match e.clearStale txn d.name with
    | .error err => (e, .error err)
    | .ok seqs =>
      if (seqs.seqByName d.name).isSome then
        ({ e with seqs }, .error (.sequence ("sequence " ++ d.name ++ " already exists")))
      else
        let id := seqs.nextSequenceId
        let seqs := { seqs with
          nextSequenceId := id + 1
          seqByName := Function.update seqs.seqByName d.name (some id)
          sequences := Function.update seqs.sequences id (some ⟨d, none⟩) }
        ((append { e with seqs } [.seqCreate id d]).pushUndo txn (.createdSequence id d.name), .ok id)

def dropSequence (e : Engine) (txn id : Nat) : Engine × Except Error Unit :=
  if (e.txns txn).isNone then (e, .error (.unknownTransaction txn))
  else
    match e.seqs.sequences id with
    | none => (e, .error (sequenceNotFound id))
    | some state =>
      let name := state.definition.name
      let seqs := ((e.seqs.setState id none).releaseName name id).reserve name txn
      ((append { e with seqs } [.seqDrop txn id]).pushUndo txn (.droppedSequence id state), .ok ())

def sequenceNext (e : Engine) (id : Nat) : Engine × Except Error Int :=
  match e.seqs.sequences id with
  | none => (e, .error (sequenceNotFound id))
  | some state =>
    match advanceSequence state with
    | .error err => (e, .error err)
    | .ok next =>
      (append { e with seqs := e.seqs.setState id (some { state with current := some next }) }
        [.seqSet id next], .ok next)

/-- `setval`: no bound of the sequence is checked. -/
def sequenceSet (e : Engine) (id : Nat) (value : Int) : Engine × Except Error Unit :=
  match e.seqs.sequences id with
  | none => (e, .error (sequenceNotFound id))
  | some state =>
    (append { e with seqs := e.seqs.setState id (some { state with current := some value }) }
      [.seqSet id value], .ok ())

/-- What an `ALTER` logs: a change of the definition together with the restart, a restart alone, or
nothing. -/
def alterRecord (id : Nat) (old new : SequenceDef) (current : Option Int) : List Record :=
  if new ≠ old then [.seqAlter id new current] else current.toList.map (Record.seqSet id)

def alterSequence (e : Engine) (txn id : Nat) (change : SequenceChange) : Engine × Except Error Unit :=
  if (e.txns txn).isNone then (e, .error (.unknownTransaction txn))
  else
    match e.seqs.sequences id with
    | none => (e, .error (sequenceNotFound id))
    | some state =>
      let d := change.apply state.definition
      match d.refusal with
      | some err => (e, .error err)
      | none =>
        match change.restartAt d with
        | .error err => (e, .error err)
        | .ok current =>
          (append { e with seqs := e.seqs.setState id (some ⟨d, current.or state.current⟩) }
            (alterRecord id state.definition d current), .ok ())

def savepoint (e : Engine) (txn : Nat) (name : String) : Engine × Except Error Unit :=
  match e.txns txn with
  | none => (e, .error (.unknownTransaction txn))
  | some state =>
    -- a same-named savepoint replaces the older one
    (e.setTxn txn (some { state with
      savepoints := (name, state.undo.length) :: state.savepoints.filter (·.1 ≠ name) }), .ok ())

def rollbackTo (e : Engine) (txn : Nat) (name : String) : Engine × Except Error Unit :=
  match e.txns txn with
  | none => (e, .error (.unknownTransaction txn))
  | some state =>
    match state.savepoints.dropWhile (·.1 ≠ name) with
    | [] => (e, .error (.savepointNotFound ("savepoint " ++ name ++ " does not exist")))
    | (_, mark) :: older =>
      -- the savepoint itself stays; the later ones go
      let kept := { state with
        undo := state.undo.drop (state.undo.length - mark)
        savepoints := (name, mark) :: older }
      let tail := state.undo.take (state.undo.length - mark)
      (append { e.setTxn txn (some kept) with seqs := e.seqs.undoOps txn tail }
        (tail.flatMap compensations), .ok ())

def commit (e : Engine) (txn : Nat) : Engine × Except Error Unit :=
  match e.txns txn with
  | none => (e, .error (.unknownTransaction txn))
  | some state =>
    (append (e.setTxn txn none) (if state.undo.isEmpty then [] else [.commitTxn txn]), .ok ())

def createdSequences (undo : List UndoOp) : List Nat :=
  undo.reverse.filterMap fun
    | .createdSequence id _ => some id
    | .droppedSequence _ _ => none

def rollback (e : Engine) (txn : Nat) : Engine × Except Error Unit :=
  match e.txns txn with
  | none => (e, .error (.unknownTransaction txn))
  | some state =>
    (append { e.setTxn txn none with seqs := e.seqs.undoOps txn state.undo }
      (.abortTxn txn :: (createdSequences state.undo).map (Record.seqDrop 0)), .ok ())

end Engine

end NusaDb.Sequence
