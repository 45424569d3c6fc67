import NusaDb.Wal.Reader

/-!
# The log writer

`append` frames a record into a buffer and hands the buffer to the sink once full; `flush` hands
over the rest. A write may fail after storing any part of its bytes.
-/

namespace NusaDb.Wal

open List

def appendBufCap : Nat := 64 * 1024

/-- How the sink answers a `write_all`. -/
inductive SinkWrite where
  | stored
  /-- An error, after storing the first `n` bytes. -/
  | failed (n : Nat)
  deriving DecidableEq, Repr

structure WalWriter where
  sink : List Byte
  nextLsn : Nat
  recordSeal : Option RecordSeal
  /-- How many bodies the sealer has sealed. -/
  seals : Nat
  appendBuf : List Byte

namespace WalWriter

/-- A writer over an empty sink that numbers records from `start`. -/
def resume (recordSeal : Option RecordSeal) (start : UInt64) : WalWriter :=
  ⟨[], max start.toNat 1, recordSeal, 0, []⟩

/-- A writer that numbers records from `1`, which is where resuming from there starts as well. -/
def new (recordSeal : Option RecordSeal) : WalWriter := ⟨[], 1, recordSeal, 0, []⟩

example (recordSeal : Option RecordSeal) : new recordSeal = resume recordSeal 1 := rfl

def advancePast (w : WalWriter) (lsn : UInt64) : WalWriter :=
  if w.nextLsn ≤ lsn.toNat then { w with nextLsn := min (lsn.toNat + 1) (2 ^ 64 - 1) } else w

/-- `write_all` of the buffer; what was stored of it stays stored. -/
def drain (w : WalWriter) : SinkWrite → WalWriter × Except Error Unit
  | .stored => ({ w with sink := w.sink ++ w.appendBuf, appendBuf := [] }, .ok ())
  | .failed n => ({ w with sink := w.sink ++ w.appendBuf.take n }, .error .sink)

def drainIf (w : WalWriter) (due : Bool) (answer : SinkWrite) : WalWriter × Except Error Unit :=
  if due then w.drain answer else (w, .ok ())

def sealBody (w : WalWriter) (plain : List Byte) : WalWriter × Except Error (List Byte) :=
  match w.recordSeal with
  | none => (w, .ok plain)
  | some s =>
    let w' := { w with seals := w.seals + 1 }
    match s.sealer.sealInto w.seals (s.aad w.nextLsn) plain with
    | none => (w', .error (.other "encryption failed"))
    | some body => (w', .ok body)

/-- Put a frame into the buffer, drain the buffer if it is full, and number the next record. -/
def pushFrame (w : WalWriter) (body : List Byte) (answer : SinkWrite) :
    WalWriter × Except Error Nat :=
  let w := { w with appendBuf := w.appendBuf ++ frame w.nextLsn body }
  match w.drainIf (decide (appendBufCap ≤ w.appendBuf.length)) answer with
  | (w, .error err) => (w, .error err)
  | (w, .ok ()) =>
    -- builds check additions for overflow
    if w.nextLsn + 1 < 2 ^ 64 then ({ w with nextLsn := w.nextLsn + 1 }, .ok w.nextLsn)
    else (w, .error .overflow)

def append (codec : Codec) (w : WalWriter) (record : WalRecord) (answer : SinkWrite) :
    WalWriter × Except Error Nat :=
  match record.encode with
  | .error err => (w, .error err)
  | .ok payload =>
    match w.sealBody (plainBody codec payload) with
    | (w, .error err) => (w, .error err)
    | (w, .ok body) =>
      if maxRecordBytes < body.length then
        (w, .error (.other ("WAL record body of " ++ toString body.length ++ " bytes exceeds the " ++
          toString maxRecordBytes ++ " byte maximum a reader accepts")))
      else if 2 ^ 32 ≤ body.length then (w, .error (.other "WAL record body exceeds 4 GiB"))
      else w.pushFrame body answer

def flush (w : WalWriter) (answer : SinkWrite) (synced : Bool) : WalWriter × Except Error Unit :=
  match w.drainIf (!w.appendBuf.isEmpty) answer with
  | (w, .error err) => (w, .error err)
  | (w, .ok ()) => (w, if synced then .ok () else .error .sink)

end WalWriter

inductive WriterOp where
  | append (record : WalRecord) (answer : SinkWrite)
  | flush (answer : SinkWrite) (synced : Bool)
  | advancePast (lsn : UInt64)
  deriving DecidableEq, Repr

/-- A writer and the records whose append returned `Ok`, in order. -/
structure WriterRun where
  writer : WalWriter
  acked : List (Nat × WalRecord)

def WriterRun.step (codec : Codec) (r : WriterRun) : WriterOp → WriterRun
  | .append record answer =>
    match r.writer.append codec record answer with
    | (w, .ok lsn) => ⟨w, r.acked ++ [(lsn, record)]⟩
    | (w, .error _) => ⟨w, r.acked⟩
  | .flush answer synced => ⟨(r.writer.flush answer synced).1, r.acked⟩
  | .advancePast lsn => ⟨r.writer.advancePast lsn, r.acked⟩

def WriterRun.run (codec : Codec) (r : WriterRun) (ops : List WriterOp) : WriterRun :=
  ops.foldl (WriterRun.step codec) r

/-- The body of the frame that `append` buffers, unless it refuses the record before. -/
def WalWriter.bodyOf (codec : Codec) (w : WalWriter) (record : WalRecord) : Option (List Byte) :=
  match record.encode with
  | .error _ => none
  | .ok payload => (w.sealBody (plainBody codec payload)).2.toOption.filter
      fun body => decide (body.length ≤ maxRecordBytes)

/-- The call does not fail half way. For an append: if the frame fills the buffer, the sink stores
it, and there is a position left for the next record. For a flush: if there is anything to write, the
sink stores all of it or, failing, nothing. -/
def WriterOp.Clean (codec : Codec) (w : WalWriter) : WriterOp → Prop
  | .append record answer =>
    match w.bodyOf codec record with
    | none => True
    | some body => w.nextLsn + 1 < 2 ^ 64 ∧
        (w.appendBuf.length + 16 + body.length < appendBufCap ∨ answer = .stored)
  | .flush answer _ => w.appendBuf = [] ∨ answer = .stored ∨ answer = .failed 0
  | .advancePast _ => True

instance (codec : Codec) (w : WalWriter) : (op : WriterOp) → Decidable (op.Clean codec w)
  | .append record answer => by
    unfold WriterOp.Clean
    dsimp only
    split <;> infer_instance
  | .flush answer _ =>
    inferInstanceAs (Decidable (w.appendBuf = [] ∨ answer = .stored ∨ answer = .failed 0))
  | .advancePast _ => inferInstanceAs (Decidable True)

def WriterRun.AllClean (codec : Codec) : WriterRun → List WriterOp → Prop
  | _, [] => True
  | r, op :: ops => op.Clean codec r.writer ∧ (r.step codec op).AllClean codec ops

instance decidableAllClean (codec : Codec) :
    (r : WriterRun) → (ops : List WriterOp) → Decidable (r.AllClean codec ops)
  | _, [] => inferInstanceAs (Decidable True)
  | r, op :: ops =>
    have := decidableAllClean codec (r.step codec op) ops
    inferInstanceAs (Decidable (op.Clean codec r.writer ∧ (r.step codec op).AllClean codec ops))

/-- Sink and buffer hold the frames of `entries`. -/
structure Written (codec : Codec) (recordSeal : Option RecordSeal) (r : WriterRun)
    (entries : List Entry) : Prop where
  sealed : r.writer.recordSeal = recordSeal
  bytes : r.writer.sink ++ r.writer.appendBuf = framesOf entries
  acked : r.acked = recordsOf entries
  ok : ∀ entry ∈ entries, entry.Ok codec recordSeal
  increasing : entries.Pairwise fun a b => a.lsn < b.lsn
  below : ∀ entry ∈ entries, entry.lsn < r.writer.nextLsn
  next : r.writer.nextLsn < 2 ^ 64

variable {codec : Codec} {recordSeal : Option RecordSeal} {r : WriterRun} {w w' : WalWriter}
  {entries : List Entry}

lemma framesOf_append_one (entries : List Entry) (entry : Entry) :
    framesOf (entries ++ [entry]) = framesOf entries ++ entry.frame := by
  simp [framesOf]

lemma WalWriter.drainIf_ok {due : Bool} {answer : SinkWrite}
    (h : w.drainIf due answer = (w', .ok ())) :
    w'.sink ++ w'.appendBuf = w.sink ++ w.appendBuf ∧ w'.nextLsn = w.nextLsn ∧
      w'.recordSeal = w.recordSeal := by
  unfold WalWriter.drainIf at h
  split at h
  case isTrue =>
    cases answer with
    | stored =>
      cases h
      exact ⟨append_nil _, rfl, rfl⟩
    | failed n => cases h
  case isFalse =>
    cases h
    exact ⟨rfl, rfl, rfl⟩

lemma WalWriter.sealBody_ok {plain body : List Byte} (h : w.sealBody plain = (w', .ok body)) :
    (∃ n, w' = { w with seals := n }) ∧ openBody w.recordSeal w.nextLsn body = some plain := by
  unfold WalWriter.sealBody at h
  split at h
  case h_1 hseal =>
    obtain ⟨rfl, hbody⟩ := Prod.mk.inj h
    cases hbody
    refine ⟨⟨w.seals, rfl⟩, ?_⟩
    rw [hseal]
    rfl
  case h_2 s hseal =>
    split at h
    case h_1 => cases h
    case h_2 body' hsealed =>
      obtain ⟨rfl, hbody⟩ := Prod.mk.inj h
      cases hbody
      refine ⟨⟨w.seals + 1, rfl⟩, ?_⟩
      rw [hseal]
      exact s.sealer.open_seal _ _ _ _ hsealed

lemma Written.reseal (hw : Written codec recordSeal r entries) (n : Nat) :
    Written codec recordSeal ⟨{ r.writer with seals := n }, r.acked⟩ entries :=
  ⟨hw.sealed, hw.bytes, hw.acked, hw.ok, hw.increasing, hw.below, hw.next⟩

/-- A pushed frame follows the others, with the next sequence number. -/
lemma Written.pushFrame (hw : Written codec recordSeal r entries) (entry : Entry)
    (hlsn : entry.lsn = r.writer.nextLsn) (hok : entry.Ok codec recordSeal)
    {answer : SinkWrite} {lsn : Nat} (h : r.writer.pushFrame entry.body answer = (w', .ok lsn)) :
    Written codec recordSeal ⟨w', r.acked ++ [(lsn, entry.record)]⟩ (entries ++ [entry]) := by
  unfold WalWriter.pushFrame at h
  dsimp only at h
  split at h
  case h_1 => cases h
  case h_2 v hv =>
    -- drained or not, sink and buffer together have grown by the frame
    obtain ⟨hbytes, hnext, hseal⟩ := WalWriter.drainIf_ok hv
    dsimp only at hbytes hnext hseal
    split at h
    case isFalse => cases h
    case isTrue hlt =>
      obtain ⟨rfl, hlsn'⟩ := Prod.mk.inj h
      cases hlsn'
      refine ⟨hseal.trans hw.sealed, ?_, ?_, ?_, ?_, ?_, hlt⟩
      · show v.sink ++ v.appendBuf = _
        rw [hbytes, framesOf_append_one, ← hw.bytes, append_assoc]
        unfold Entry.frame
        rw [hlsn]
      · show r.acked ++ [(v.nextLsn, entry.record)] = recordsOf (entries ++ [entry])
        rw [hw.acked, hnext, ← hlsn]
        simp [recordsOf]
      · intro e he
        rcases mem_append.mp he with hold | hnew
        · exact hw.ok e hold
        · rw [mem_singleton.mp hnew]
          exact hok
      · refine pairwise_append.mpr ⟨hw.increasing, pairwise_singleton .., ?_⟩
        intro a ha b hb
        rw [mem_singleton.mp hb, hlsn]
        exact hw.below a ha
      · intro e he
        show e.lsn < v.nextLsn + 1
        rcases mem_append.mp he with hold | hnew
        · have hb := hw.below e hold
          omega
        · rw [mem_singleton.mp hnew, hlsn, hnext]
          omega

/-- `append` refuses the record before it touches the buffer, or pushes the frame of a body that
opens to what was encoded. -/
lemma WalWriter.append_cases (codec : Codec) (w : WalWriter) (record : WalRecord)
    (answer : SinkWrite) :
    (∃ n err, w.append codec record answer = ({ w with seals := n }, .error err)) ∨
      ∃ payload body n, record.encode = .ok payload ∧ w.bodyOf codec record = some body ∧
        openBody w.recordSeal w.nextLsn body = some (plainBody codec payload) ∧
        body.length ≤ maxRecordBytes ∧
        w.append codec record answer = { w with seals := n }.pushFrame body answer := by
  unfold append bodyOf
  cases record.encode with
  | error err => exact .inl ⟨w.seals, err, rfl⟩
  | ok payload =>
    dsimp only
    cases hseal : w.sealBody (plainBody codec payload) with
    | mk v out =>
      cases out with
      | error err =>
        -- a seal that failed has used up its number
        have hv : ∃ n, v = { w with seals := n } := by
          unfold sealBody at hseal
          split at hseal
          case h_1 => cases hseal
          case h_2 =>
            split at hseal
            · cases hseal
              exact ⟨w.seals + 1, rfl⟩
            · cases hseal
        obtain ⟨n, rfl⟩ := hv
        exact .inl ⟨n, err, rfl⟩
      | ok body =>
        obtain ⟨⟨n, rfl⟩, hopen⟩ := sealBody_ok hseal
        dsimp only
        by_cases hmax : maxRecordBytes < body.length
        · rw [if_pos hmax]
          exact .inl ⟨n, _, rfl⟩
        have hle : body.length ≤ maxRecordBytes := Nat.le_of_not_lt hmax
        have hlt : ¬2 ^ 32 ≤ body.length := by
          have hbound : maxRecordBytes < 2 ^ 32 := by decide
          omega
        rw [if_neg hmax, if_neg hlt]
        exact .inr ⟨payload, body, n, rfl, by simp [Except.toOption, hle], hopen, hle, rfl⟩

/-- With a position left and a sink that stores what fills the buffer, the frame is accepted. -/
lemma WalWriter.pushFrame_ok {body : List Byte} {answer : SinkWrite}
    (hnext : w.nextLsn + 1 < 2 ^ 64)
    (hroom : w.appendBuf.length + 16 + body.length < appendBufCap ∨ answer = .stored) :
    ∃ w', w.pushFrame body answer = (w', .ok w.nextLsn) := by
  unfold pushFrame
  dsimp only
  rw [length_append, length_frame]
  split
  case h_1 v err hdrain =>
    unfold drainIf at hdrain
    split at hdrain
    case isTrue hfull =>
      obtain rfl : answer = .stored := by
        have hfull := of_decide_eq_true hfull
        rcases hroom with hroom | h
        · omega
        · exact h
      cases hdrain
    case isFalse => cases hdrain
  case h_2 v hdrain =>
    obtain ⟨-, hsame, -⟩ := drainIf_ok hdrain
    dsimp only at hsame
    rw [hsame, if_pos hnext]
    exact ⟨_, rfl⟩

variable (hw : Written codec recordSeal r entries)

include hw

lemma Written.append (record : WalRecord) (answer : SinkWrite)
    (hclean : (WriterOp.append record answer).Clean codec r.writer) :
    ∃ entries', Written codec recordSeal (r.step codec (.append record answer)) entries' := by
  unfold WriterRun.step
  dsimp only
  rcases r.writer.append_cases codec record answer with
    ⟨n, err, heq⟩ | ⟨payload, body, n, henc, hbody, hopen, hle, heq⟩
  · rw [heq]
    exact ⟨entries, hw.reseal n⟩
  change (match r.writer.bodyOf codec record with | none => True | some body => _) at hclean
  rw [hbody] at hclean
  obtain ⟨w', hpush⟩ := WalWriter.pushFrame_ok (w := { r.writer with seals := n }) hclean.1 hclean.2
  rw [heq, hpush]
  let entry : Entry := ⟨r.writer.nextLsn, record, body⟩
  have hok : entry.Ok codec recordSeal := by
    refine ⟨hw.next, hle, ?_⟩
    show (openBody recordSeal r.writer.nextLsn body).bind _ = some record
    rw [← hw.sealed, hopen, Option.bind_some, decodePlainBody_plainBody]
    exact WalRecord.decode_encode henc
  exact ⟨entries ++ [entry], (hw.reseal n).pushFrame entry rfl hok hpush⟩

lemma Written.flush (answer : SinkWrite) (synced : Bool)
    (hclean : (WriterOp.flush answer synced).Clean codec r.writer) :
    Written codec recordSeal (r.step codec (.flush answer synced)) entries ∧
      ((r.writer.flush answer synced).2 = .ok () →
        (r.writer.flush answer synced).1.appendBuf = []) := by
  unfold WriterRun.step WalWriter.flush WalWriter.drainIf
  dsimp only
  by_cases hempty : r.writer.appendBuf = []
  · rw [if_neg (by rw [hempty]; decide)]
    exact ⟨hw, fun _ => hempty⟩
  rw [if_pos (by simpa using hempty)]
  have hanswer : answer = .stored ∨ answer = .failed 0 := by
    rcases hclean with hnil | h
    · exact absurd hnil hempty
    · exact h
  rcases hanswer with rfl | rfl
  · refine ⟨⟨hw.sealed, ?_, hw.acked, hw.ok, hw.increasing, hw.below, hw.next⟩, fun _ => rfl⟩
    show r.writer.sink ++ r.writer.appendBuf ++ [] = framesOf entries
    rw [append_nil]
    exact hw.bytes
  · refine ⟨⟨hw.sealed, ?_, hw.acked, hw.ok, hw.increasing, hw.below, hw.next⟩, nofun⟩
    show r.writer.sink ++ take 0 r.writer.appendBuf ++ r.writer.appendBuf = framesOf entries
    rw [take_zero, append_nil]
    exact hw.bytes

lemma Written.advancePast (lsn : UInt64) :
    Written codec recordSeal (r.step codec (.advancePast lsn)) entries := by
  have hlt : lsn.toNat < 2 ^ 64 := lsn.toNat_lt
  unfold WriterRun.step WalWriter.advancePast
  dsimp only
  split
  case isFalse => exact hw
  case isTrue hle =>
    refine ⟨hw.sealed, hw.bytes, hw.acked, hw.ok, hw.increasing, fun e he => ?_, ?_⟩
    · have hb := hw.below e he
      show e.lsn < min (lsn.toNat + 1) (2 ^ 64 - 1)
      omega
    · show min (lsn.toNat + 1) (2 ^ 64 - 1) < 2 ^ 64
      omega

/-- Every clean call keeps file, buffer and acknowledged records in step. -/
theorem Written.step (op : WriterOp) (hclean : op.Clean codec r.writer) :
    ∃ entries', Written codec recordSeal (r.step codec op) entries' := by
  cases op with
  | append record answer => exact hw.append record answer hclean
  | flush answer synced => exact ⟨entries, (hw.flush answer synced hclean).1⟩
  | advancePast lsn => exact ⟨entries, hw.advancePast lsn⟩

lemma Written.run (ops : List WriterOp) (hclean : r.AllClean codec ops) :
    ∃ entries', Written codec recordSeal (r.run codec ops) entries' := by
  induction ops generalizing r entries with
  | nil => exact ⟨entries, hw⟩
  | cons op ops ih =>
    obtain ⟨entries', hw'⟩ := hw.step op hclean.1
    exact ih hw' hclean.2

omit hw

lemma Written.resume (codec : Codec) (recordSeal : Option RecordSeal) (start : UInt64) :
    Written codec recordSeal ⟨.resume recordSeal start, []⟩ [] where
  sealed := rfl
  bytes := rfl
  acked := rfl
  ok _ he := nomatch he
  increasing := .nil
  below _ he := nomatch he
  next := by
    have hstart : start.toNat < 2 ^ 64 := start.toNat_lt
    show max start.toNat 1 < 2 ^ 64
    omega

end NusaDb.Wal
