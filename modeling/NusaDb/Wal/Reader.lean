import NusaDb.Wal.Frame

/-!
# Recovering a log's prefix

`recoverSealedPrefix` reads frames from the start of a buffered log. At an incomplete frame it stops
and keeps what it has; at one that fails validation it refuses if a later frame is readable.
-/

namespace NusaDb.Wal

open List

structure RecoveredPrefix where
  records : List (Nat × WalRecord)
  goodBytes : Nat
  lastLsn : Nat
  deriving DecidableEq, Repr

structure MidLogHole where
  pos : Nat
  nextValidAt : Option Nat
  forged : Bool
  deriving DecidableEq, Repr

section

variable (codec : Codec) (recordSeal : Option RecordSeal) (buf : List Byte)

/-- Whether a frame that validates, with a position past `lastLsn`, begins at `cand`. -/
def validAfter (lastLsn cand : Nat) : Bool :=
  match parseFrame codec recordSeal buf cand with
  | .record lsn _ _ => decide (lastLsn < lsn)
  | _ => false

/-- The first offset from `start` on where a later record can be read. -/
def findValidAfter (start lastLsn : Nat) : Option Nat :=
  (List.range' start (buf.length - start)).find? (validAfter codec recordSeal buf lastLsn)

/-- The scan from `off` on. Every record takes sixteen bytes or more, so the length of the log is
enough fuel. -/
def recoverLoop : Nat → RecoveredPrefix → Nat → Except MidLogHole RecoveredPrefix
  | 0, acc, _ => .ok acc
  | fuel + 1, acc, off =>
    match parseFrame codec recordSeal buf off with
    | .record lsn record next => recoverLoop fuel ⟨acc.records ++ [(lsn, record)], next, lsn⟩ next
    | .incomplete => .ok acc
    | .forged => .error ⟨off, none, true⟩
    | .corrupt =>
      let nextValid := findValidAfter codec recordSeal buf (off + 1) acc.lastLsn
      if nextValid.isSome || acc.goodBytes == 0 then .error ⟨off, nextValid, false⟩ else .ok acc

def recoverSealedPrefix : Except MidLogHole RecoveredPrefix :=
  recoverLoop codec recordSeal buf (buf.length + 1) ⟨[], 0, 0⟩ 0

end

def recoverPrefix (codec : Codec) (buf : List Byte) : Except MidLogHole RecoveredPrefix :=
  recoverSealedPrefix codec none buf

/-- The frames parsed one after another from `off` to `g`. -/
inductive Frames (codec : Codec) (recordSeal : Option RecordSeal) (buf : List Byte) :
    Nat → List (Nat × WalRecord) → Nat → Prop where
  | nil (off : Nat) : Frames codec recordSeal buf off [] off
  | cons {off lsn next g : Nat} {record : WalRecord} {rest : List (Nat × WalRecord)} :
    parseFrame codec recordSeal buf off = .record lsn record next →
    Frames codec recordSeal buf next rest g →
    Frames codec recordSeal buf off ((lsn, record) :: rest) g

def lastLsn (records : List (Nat × WalRecord)) : Nat :=
  (records.getLast?.map Prod.fst).getD 0

variable {codec : Codec} {recordSeal : Option RecordSeal} {buf : List Byte} {off g : Nat}
  {records : List (Nat × WalRecord)}

variable {lsn next : Nat} {record : WalRecord}

lemma Frames.append_one (hf : Frames codec recordSeal buf off records g)
    (hp : parseFrame codec recordSeal buf g = .record lsn record next) :
    Frames codec recordSeal buf off (records ++ [(lsn, record)]) next := by
  induction hf with
  | nil off => exact .cons hp (.nil next)
  | cons hfirst _ ih => exact .cons hfirst (ih hp)

/-- How a scan that succeeds ends: at an incomplete frame, or at an invalid one with a record before
it and nothing readable later. -/
inductive Stops (codec : Codec) (recordSeal : Option RecordSeal) (buf : List Byte) (p : RecoveredPrefix) :
    Prop where
  | incomplete : parseFrame codec recordSeal buf p.goodBytes = .incomplete →
    Stops codec recordSeal buf p
  | corrupt : parseFrame codec recordSeal buf p.goodBytes = .corrupt → p.goodBytes ≠ 0 →
    findValidAfter codec recordSeal buf (p.goodBytes + 1) p.lastLsn = none →
    Stops codec recordSeal buf p

structure Scanned (codec : Codec) (recordSeal : Option RecordSeal) (buf : List Byte)
    (acc : RecoveredPrefix) : Prop where
  frames : Frames codec recordSeal buf 0 acc.records acc.goodBytes
  last : acc.lastLsn = lastLsn acc.records

variable {acc : RecoveredPrefix}

lemma Scanned.push (hs : Scanned codec recordSeal buf acc)
    (hp : parseFrame codec recordSeal buf acc.goodBytes = .record lsn record next) :
    Scanned codec recordSeal buf ⟨acc.records ++ [(lsn, record)], next, lsn⟩ := by
  refine ⟨hs.frames.append_one hp, ?_⟩
  show lsn = lastLsn (acc.records ++ [(lsn, record)])
  unfold lastLsn
  rw [getLast?_concat]
  rfl

variable {p : RecoveredPrefix}

lemma recoverLoop_ok {fuel : Nat} (hs : Scanned codec recordSeal buf acc)
    (hfuel : buf.length < acc.goodBytes + fuel)
    (h : recoverLoop codec recordSeal buf fuel acc acc.goodBytes = .ok p) :
    Scanned codec recordSeal buf p ∧ Stops codec recordSeal buf p := by
  induction fuel generalizing acc with
  | zero =>
    -- out of fuel only past the end of the log, where no frame begins
    cases h
    refine ⟨hs, .incomplete ?_⟩
    unfold parseFrame
    rw [slice_eq_none (by omega)]
  | succ fuel ih =>
    unfold recoverLoop at h
    cases hp : parseFrame codec recordSeal buf acc.goodBytes with
    | record lsn record next =>
      rw [hp] at h
      have hbounds := parseFrame_record hp
      exact ih (hs.push hp) (by dsimp only; omega) h
    | incomplete =>
      rw [hp] at h
      cases h
      exact ⟨hs, .incomplete hp⟩
    | forged =>
      rw [hp] at h
      cases h
    | corrupt =>
      rw [hp] at h
      dsimp only at h
      split at h
      case isTrue => cases h
      case isFalse hcond =>
        cases h
        rw [Bool.or_eq_true, not_or, beq_iff_eq] at hcond
        refine ⟨hs, .corrupt hp hcond.2 ?_⟩
        exact Option.not_isSome_iff_eq_none.mp hcond.1

/-- **What recovery returns** is the chain of frames from the start of the log, up to where it
stops. -/
theorem recover_eq_ok (h : recoverSealedPrefix codec recordSeal buf = .ok p) :
    Scanned codec recordSeal buf p ∧ Stops codec recordSeal buf p :=
  recoverLoop_ok ⟨.nil 0, rfl⟩ (by omega) h

/-- The converse of `recoverLoop_ok`: a chain of frames up to where the scan may stop is returned.
Induction on the chain, the accumulator growing by one record a step. -/
lemma recoverLoop_of_frames {fuel : Nat} (acc : RecoveredPrefix)
    (hf : Frames codec recordSeal buf acc.goodBytes records g)
    (hstop : Stops codec recordSeal buf ⟨acc.records ++ records, g, lastLsn (acc.records ++ records)⟩)
    (hfuel : buf.length < acc.goodBytes + fuel) (hlast : acc.lastLsn = lastLsn acc.records) :
    recoverLoop codec recordSeal buf fuel acc acc.goodBytes =
      .ok ⟨acc.records ++ records, g, lastLsn (acc.records ++ records)⟩ := by
  generalize hoff : acc.goodBytes = off at hf hfuel
  induction hf generalizing acc fuel with
  | nil off =>
    subst hoff
    rw [append_nil, ← hlast] at hstop ⊢
    cases fuel with
    | zero => rfl
    | succ fuel =>
      unfold recoverLoop
      cases hstop with
      | incomplete hparse => rw [hparse]
      | corrupt hparse hne hnone =>
        dsimp only at hparse hne hnone
        rw [hparse]
        dsimp only
        rw [hnone, if_neg (by simpa using hne)]
  | @cons off lsn next g record rest hp _ ih =>
    have hbounds := parseFrame_record hp
    cases fuel with
    | zero => omega
    | succ fuel =>
      unfold recoverLoop
      rw [hp]
      have hnew : lsn = lastLsn (acc.records ++ [(lsn, record)]) := by
        unfold lastLsn
        rw [getLast?_concat]
        rfl
      have hnext : recoverLoop codec recordSeal buf fuel
          ⟨acc.records ++ [(lsn, record)], next, lsn⟩ next =
            .ok ⟨acc.records ++ [(lsn, record)] ++ rest, g,
              lastLsn (acc.records ++ [(lsn, record)] ++ rest)⟩ :=
        ih _ (by rwa [append_assoc]) hnew rfl (by omega)
      dsimp only
      rw [hnext, append_assoc]
      rfl

lemma recover_of_frames (hf : Frames codec recordSeal buf 0 records g)
    (hstop : Stops codec recordSeal buf ⟨records, g, lastLsn records⟩) :
    recoverSealedPrefix codec recordSeal buf = .ok ⟨records, g, lastLsn records⟩ :=
  recoverLoop_of_frames ⟨[], 0, 0⟩ hf hstop (by omega) rfl

def framesOf (entries : List Entry) : List Byte := entries.flatMap Entry.frame

def recordsOf (entries : List Entry) : List (Nat × WalRecord) :=
  entries.map fun entry => (entry.lsn, entry.record)

lemma frames_of_entries (before : List Byte) (entries : List Entry)
    (hok : ∀ entry ∈ entries, entry.Ok codec recordSeal) (tail : List Byte) :
    Frames codec recordSeal (before ++ (framesOf entries ++ tail)) before.length
      (recordsOf entries) (before.length + (framesOf entries).length) := by
  induction entries generalizing before with
  | nil => exact .nil _
  | cons entry entries ih =>
    have hfirst := (hok entry mem_cons_self).parseFrame before (framesOf entries ++ tail)
    have hrest := ih (before ++ entry.frame) fun e he => hok e (mem_cons_of_mem _ he)
    have hbuf : before ++ (framesOf (entry :: entries) ++ tail) =
        before ++ (entry.frame ++ (framesOf entries ++ tail)) := by
      simp [framesOf]
    have hbuf' : before ++ (entry.frame ++ (framesOf entries ++ tail)) =
        before ++ entry.frame ++ (framesOf entries ++ tail) :=
      (append_assoc ..).symm
    have hlen : before.length + (framesOf (entry :: entries)).length =
        (before ++ entry.frame).length + (framesOf entries).length := by
      simp [framesOf, add_assoc]
    rw [hbuf, hlen]
    refine .cons hfirst ?_
    rw [hbuf', ← length_append]
    exact hrest

/-- **A log of whole frames** with less than a frame at its end comes back whole. -/
theorem recover_frames (entries : List Entry) (hok : ∀ entry ∈ entries, entry.Ok codec recordSeal)
    {tail : List Byte}
    (htail : parseFrame codec recordSeal (framesOf entries ++ tail) (framesOf entries).length =
      .incomplete) :
    recoverSealedPrefix codec recordSeal (framesOf entries ++ tail) =
      .ok ⟨recordsOf entries, (framesOf entries).length, lastLsn (recordsOf entries)⟩ := by
  have hf := frames_of_entries [] entries hok tail
  rw [nil_append, length_nil, zero_add] at hf
  exact recover_of_frames hf (.incomplete htail)

end NusaDb.Wal
