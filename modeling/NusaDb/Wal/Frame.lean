import NusaDb.Wal.Record
import Mathlib.Data.Nat.Bitwise

/-!
# Frames

`[lsn:u64][len:u32][crc32:u32][body]`, all little-endian. The checksum covers position, length and
body; the body is a kind byte with the payload stored or compressed, sealed if the log is. What was
compressed, or sealed at a position, comes back.
-/

namespace NusaDb.Wal

open List

def maxRecordBytes : Nat := 64 * 1024 * 1024

def compressMinBytes : Nat := 64

def crcBit (crc : Nat) : Nat :=
  if crc % 2 = 1 then (crc / 2) ^^^ 0xEDB88320 else crc / 2

def crcByte (crc : Nat) (b : Byte) : Nat := Nat.iterate crcBit 8 (crc ^^^ b.val)

def crc32 (bytes : List Byte) : Nat := bytes.foldl crcByte 0xFFFFFFFF ^^^ 0xFFFFFFFF

lemma crcBit_lt {crc : Nat} (h : crc < 2 ^ 32) : crcBit crc < 2 ^ 32 := by
  unfold crcBit
  split
  · exact Nat.xor_lt_two_pow (by omega) (by decide)
  · omega

lemma crcByte_lt {crc : Nat} (h : crc < 2 ^ 32) (b : Byte) : crcByte crc b < 2 ^ 32 := by
  have hstart : crc ^^^ b.val < 2 ^ 32 := Nat.xor_lt_two_pow h (by omega)
  have hiter : ∀ n crc, crc < 2 ^ 32 → Nat.iterate crcBit n crc < 2 ^ 32 := by
    intro n
    induction n with
    | zero => exact fun _ h => h
    | succ n ih => exact fun crc h => ih (crcBit crc) (crcBit_lt h)
  exact hiter 8 _ hstart

lemma crc32_lt (bytes : List Byte) : crc32 bytes < 2 ^ 32 := by
  have hfold : ∀ (bytes : List Byte) (crc : Nat), crc < 2 ^ 32 →
      bytes.foldl crcByte crc < 2 ^ 32 := by
    intro bytes
    induction bytes with
    | nil => exact fun _ h => h
    | cons b bytes ih => exact fun crc h => ih (crcByte crc b) (crcByte_lt h b)
  exact Nat.xor_lt_two_pow (hfold bytes _ (by decide)) (by decide)

/-- The compressor (`lz4_flex`). -/
structure Codec where
  compress : List Byte → List Byte
  decompress : List Byte → Option (List Byte)
  decompress_compress : ∀ bytes, decompress (compress bytes) = some bytes

/-- The cipher: the `n`-th seal of a sealer, under additional data. -/
structure Sealer where
  sealInto : (n : Nat) → (aad plaintext : List Byte) → Option (List Byte)
  openSealed : (aad bytes : List Byte) → Option (List Byte)
  open_seal : ∀ n aad plaintext bytes, sealInto n aad plaintext = some bytes →
    openSealed aad bytes = some plaintext

structure RecordSeal where
  sealer : Sealer
  domain : Byte
  scope : UInt64

def RecordSeal.aad (s : RecordSeal) (lsn : Nat) : List Byte :=
  s.domain :: u64Bytes s.scope ++ leBytes 8 lsn

/-- The body of a payload before sealing: the kind byte, then the payload stored or compressed. -/
def plainBody (codec : Codec) (payload : List Byte) : List Byte :=
  if payload.length ≤ compressMinBytes then 0 :: payload else 1 :: codec.compress payload

def decodePlainBody (codec : Codec) : List Byte → Option WalRecord
  | [] => none
  | kind :: data =>
    match kind with
    | 0 => WalRecord.decode data
    | 1 => (codec.decompress data).bind WalRecord.decode
    | _ => none

lemma decodePlainBody_plainBody (codec : Codec) (payload : List Byte) :
    decodePlainBody codec (plainBody codec payload) = WalRecord.decode payload := by
  unfold plainBody
  split
  · rfl
  show (codec.decompress (codec.compress payload)).bind WalRecord.decode = _
  rw [codec.decompress_compress]
  rfl

def openBody (recordSeal : Option RecordSeal) (lsn : Nat) (body : List Byte) : Option (List Byte) :=
  match recordSeal with
  | none => some body
  | some s => s.sealer.openSealed (s.aad lsn) body

def header (lsn len : Nat) : List Byte := leBytes 8 lsn ++ leBytes 4 len

def frameCrc (header12 body : List Byte) : Nat := crc32 (header12 ++ body)

def frame (lsn : Nat) (body : List Byte) : List Byte :=
  header lsn body.length ++ leBytes 4 (frameCrc (header lsn body.length) body) ++ body

@[simp] lemma length_header (lsn len : Nat) : (header lsn len).length = 12 := by
  simp [header]

@[simp] lemma length_frame (lsn : Nat) (body : List Byte) :
    (frame lsn body).length = 16 + body.length := by
  simp only [frame, length_append, length_header, length_leBytes]

inductive FrameParse where
  | record (lsn : Nat) (record : WalRecord) (next : Nat)
  | incomplete
  | forged
  | corrupt
  deriving DecidableEq, Repr

def slice (buf : List Byte) (off n : Nat) : Option (List Byte) :=
  if off + n ≤ buf.length then some ((buf.drop off).take n) else none

def parseFrame (codec : Codec) (recordSeal : Option RecordSeal) (buf : List Byte) (off : Nat) :
    FrameParse :=
  match slice buf off 16 with
  | none => .incomplete
  | some head =>
    let lsn := ofLe (head.take 8)
    let len := ofLe ((head.drop 8).take 4)
    let crc := ofLe (head.drop 12)
    -- an implausible length: where the frame ends is unknown
    if maxRecordBytes < len then .corrupt
    else
      match slice buf (off + 16) len with
      | none => .incomplete
      | some body =>
        if frameCrc (head.take 12) body ≠ crc then .corrupt
        else
          match openBody recordSeal lsn body with
          | none => .forged
          | some plain =>
            match decodePlainBody codec plain with
            | none => .corrupt
            | some record => .record lsn record (off + 16 + len)

lemma slice_eq {buf : List Byte} {off n : Nat} (h : off + n ≤ buf.length) :
    slice buf off n = some ((buf.drop off).take n) :=
  if_pos h

lemma slice_eq_none {buf : List Byte} {off n : Nat} (h : buf.length < off + n) :
    slice buf off n = none :=
  if_neg (by omega)

lemma slice_append (before bytes rest : List Byte) :
    slice (before ++ (bytes ++ rest)) before.length bytes.length = some bytes := by
  rw [slice_eq (by simp), drop_left, take_left]

/-- What stands in a frame: position, record, and the body that holds it. -/
structure Entry where
  lsn : Nat
  record : WalRecord
  body : List Byte

/-- The body opens and decodes to the record, and position and length fit their fields. -/
structure Entry.Ok (codec : Codec) (recordSeal : Option RecordSeal) (entry : Entry) : Prop where
  lsn_lt : entry.lsn < 2 ^ 64
  length_le : entry.body.length ≤ maxRecordBytes
  decodes : (openBody recordSeal entry.lsn entry.body).bind (decodePlainBody codec) =
    some entry.record

def Entry.frame (entry : Entry) : List Byte := Wal.frame entry.lsn entry.body

variable {codec : Codec} {recordSeal : Option RecordSeal} {entry : Entry}

lemma header_reads (lsn len crc : Nat) (hlsn : lsn < 2 ^ 64) (hlen : len < 2 ^ 32)
    (hcrc : crc < 2 ^ 32) :
    let head := header lsn len ++ leBytes 4 crc
    ofLe (head.take 8) = lsn ∧ ofLe ((head.drop 8).take 4) = len ∧ head.take 12 = header lsn len ∧
      ofLe (head.drop 12) = crc := by
  have htake : (header lsn len ++ leBytes 4 crc).take 12 = header lsn len :=
    take_left' (length_header ..)
  have hhead : header lsn len ++ leBytes 4 crc =
      leBytes 8 lsn ++ (leBytes 4 len ++ leBytes 4 crc) := by
    unfold header
    rw [append_assoc]
  refine ⟨?_, ?_, htake, ?_⟩
  · rw [hhead, take_left' (length_leBytes ..)]
    exact ofLe_leBytes_of_lt hlsn
  · rw [hhead, drop_left' (length_leBytes ..), take_left' (length_leBytes ..)]
    exact ofLe_leBytes_of_lt hlen
  · exact ofLe_leBytes_of_lt hcrc

/-- **A frame that was written parses** as its record, wherever it stands. -/
theorem Entry.Ok.parseFrame (hok : entry.Ok codec recordSeal) (before rest : List Byte) :
    parseFrame codec recordSeal (before ++ (entry.frame ++ rest)) before.length =
      .record entry.lsn entry.record (before.length + entry.frame.length) := by
  obtain ⟨hlsn, hlen, hdec⟩ := hok
  let crc := frameCrc (header entry.lsn entry.body.length) entry.body
  let head := header entry.lsn entry.body.length ++ leBytes 4 crc
  have hheadLen : head.length = 16 := by simp [head]
  have hsplit : before ++ (entry.frame ++ rest) = before ++ (head ++ (entry.body ++ rest)) := by
    simp [head, crc, Entry.frame, Wal.frame]
  have hsplit' : before ++ (head ++ (entry.body ++ rest)) =
      (before ++ head) ++ (entry.body ++ rest) :=
    (append_assoc ..).symm
  have hhead : slice (before ++ (entry.frame ++ rest)) before.length 16 = some head := by
    exact slice_append before head _
  have hbody : slice (before ++ (entry.frame ++ rest)) (before.length + 16) entry.body.length =
      some entry.body := by
    have hoff : before.length + 16 = (before ++ head).length := by
      rw [length_append, hheadLen]
    rw [hsplit, hsplit', hoff]
    exact slice_append (before ++ head) entry.body rest
  have hlen32 : entry.body.length < 2 ^ 32 := lt_of_le_of_lt hlen (by decide)
  obtain ⟨hreadLsn, hreadLen, hreadHeader, hreadCrc⟩ :=
    header_reads entry.lsn entry.body.length crc hlsn hlen32 (crc32_lt _)
  have hsize : before.length + 16 + entry.body.length = before.length + entry.frame.length := by
    show _ = before.length + (Wal.frame entry.lsn entry.body).length
    rw [length_frame]
    omega
  unfold Wal.parseFrame
  rw [hhead]
  dsimp only
  rw [hreadLsn, hreadLen, hreadHeader, hreadCrc, if_neg (by omega), hbody]
  dsimp only
  rw [if_neg (fun h => h rfl)]
  cases hopen : openBody recordSeal entry.lsn entry.body with
  | none =>
    rw [hopen] at hdec
    cases hdec
  | some plain =>
    rw [hopen, Option.bind_some] at hdec
    dsimp only
    rw [hdec, hsize]

/-- **A frame that was cut is incomplete.** -/
theorem Entry.Ok.parseFrame_cut (hok : entry.Ok codec recordSeal) (before : List Byte) {n : Nat}
    (hn : n < entry.frame.length) :
    Wal.parseFrame codec recordSeal (before ++ entry.frame.take n) before.length = .incomplete := by
  obtain ⟨hlsn, hlen, -⟩ := hok
  have hframeLen : entry.frame.length = 16 + entry.body.length := length_frame ..
  have htotal : (before ++ entry.frame.take n).length = before.length + n := by
    rw [length_append, length_take, Nat.min_eq_left (by omega)]
  unfold Wal.parseFrame
  by_cases hshort : n < 16
  · rw [slice_eq_none (by omega)]
  -- the header is whole, and says that the body is not
  let crc := frameCrc (header entry.lsn entry.body.length) entry.body
  let head := header entry.lsn entry.body.length ++ leBytes 4 crc
  have hheadLen : head.length = 16 := by simp [head]
  have htake : entry.frame.take n = head ++ entry.body.take (n - 16) := by
    show (head ++ entry.body).take n = _
    rw [take_append, hheadLen, take_of_length_le (by omega)]
  have hhead : slice (before ++ entry.frame.take n) before.length 16 = some head := by
    rw [htake, ← hheadLen]
    exact slice_append before head _
  have hlen32 : entry.body.length < 2 ^ 32 := lt_of_le_of_lt hlen (by decide)
  obtain ⟨-, hreadLen, -, -⟩ :=
    header_reads entry.lsn entry.body.length crc hlsn hlen32 (crc32_lt _)
  rw [hhead]
  dsimp only
  rw [hreadLen, if_neg (by omega), slice_eq_none (by omega)]

lemma parseFrame_record {buf : List Byte} {off lsn next : Nat} {record : WalRecord}
    (h : parseFrame codec recordSeal buf off = .record lsn record next) :
    off + 16 ≤ next ∧ next ≤ buf.length := by
  unfold parseFrame at h
  split at h
  case h_1 => cases h
  case h_2 head hhead =>
    dsimp only at h
    split at h
    case isTrue => cases h
    split at h
    case h_1 => cases h
    case h_2 body hbody =>
      split at h
      case isTrue => cases h
      split at h
      case h_1 => cases h
      case h_2 plain hplain =>
        split at h
        case h_1 => cases h
        case h_2 record' hdec =>
          cases h
          refine ⟨Nat.le_add_right .., ?_⟩
          unfold slice at hbody
          split at hbody
          case isTrue hle => exact hle
          case isFalse => cases hbody

end NusaDb.Wal
