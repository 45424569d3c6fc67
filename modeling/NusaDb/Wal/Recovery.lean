import NusaDb.Wal.Writer

/-!
# What recovery keeps of a log
-/

namespace NusaDb.Wal

open List WriterRun WalWriter

def Codec.plain : Codec := ⟨id, some, fun _ => rfl⟩

variable {codec : Codec} {recordSeal : Option RecordSeal} {r : WriterRun} {entries : List Entry}

lemma parseFrame_end (buf : List Byte) :
    parseFrame codec recordSeal buf buf.length = .incomplete := by
  unfold parseFrame
  rw [slice_eq_none (by omega)]

lemma recover_whole (hok : ∀ entry ∈ entries, entry.Ok codec recordSeal) :
    recoverSealedPrefix codec recordSeal (framesOf entries) =
      .ok ⟨recordsOf entries, (framesOf entries).length, lastLsn (recordsOf entries)⟩ := by
  have hend : parseFrame codec recordSeal (framesOf entries ++ []) (framesOf entries).length =
      .incomplete := by
    rw [append_nil]
    exact parseFrame_end _
  have hrec := recover_frames entries hok hend
  rwa [append_nil] at hrec

/-- The log's bytes decode to the acknowledged records, at strictly increasing positions. -/
structure LogDecodes (codec : Codec) (r : WriterRun) : Prop where
  recovered : recoverSealedPrefix codec r.writer.recordSeal r.writer.sink =
    .ok ⟨r.acked, r.writer.sink.length, lastLsn r.acked⟩
  increasing : r.acked.Pairwise fun a b => a.1 < b.1

lemma Written.logDecodes (hw : Written codec recordSeal r entries) (hflushed : r.writer.appendBuf = []) :
    LogDecodes codec r := by
  have hsink : r.writer.sink = framesOf entries := by
    rw [← hw.bytes, hflushed, append_nil]
  constructor
  · rw [hsink, hw.acked, hw.sealed]
    exact recover_whole hw.ok
  · rw [hw.acked]
    unfold recordsOf
    rw [pairwise_map]
    exact hw.increasing

/-- **A flushed log decodes**: in a run in which no append fails at the sink and no failed flush
leaves bytes behind, after a successful flush the log holds exactly the records whose append
succeeded. -/
theorem flushed_log_decodes (codec : Codec) (recordSeal : Option RecordSeal) (start : UInt64)
    (ops : List WriterOp) (answer : SinkWrite) (synced : Bool)
    (hclean : WriterRun.AllClean codec ⟨.resume recordSeal start, []⟩ ops)
    (hlast : (WriterOp.flush answer synced).Clean codec
      (WriterRun.run codec ⟨.resume recordSeal start, []⟩ ops).writer)
    (hflush : ((WriterRun.run codec ⟨.resume recordSeal start, []⟩ ops).writer.flush answer
      synced).2 = .ok ()) :
    LogDecodes codec ((WriterRun.run codec ⟨.resume recordSeal start, []⟩ ops).step codec
      (.flush answer synced)) := by
  obtain ⟨entries, hw⟩ := (Written.resume codec recordSeal start).run ops hclean
  obtain ⟨hw', hempty⟩ := hw.flush answer synced hlast
  exact hw'.logDecodes (hempty hflush)

theorem flushed_log_decodes_retried :
    LogDecodes .plain ((WriterRun.run .plain ⟨.resume none 7, []⟩
      [.append (.beginTxn 1) .stored, .flush (.failed 0) true, .append (.commitTxn 1 5) .stored]).step
        .plain (.flush .stored true)) :=
  flushed_log_decodes .plain none 7 _ .stored true
    (by decide +kernel) (by decide +kernel) (by decide +kernel)

lemma WalWriter.append_refused {w : WalWriter} (hseal : w.recordSeal = none) {record : WalRecord}
    {payload : List Byte} (henc : record.encode = .ok payload)
    (hmax : (plainBody codec payload).length ≤ maxRecordBytes)
    (hfull : appendBufCap ≤ (w.appendBuf ++ frame w.nextLsn (plainBody codec payload)).length) :
    w.append codec record (.failed 0) =
      ({ w with appendBuf := w.appendBuf ++ frame w.nextLsn (plainBody codec payload) },
        .error .sink) := by
  have hbody : w.sealBody (plainBody codec payload) = (w, .ok (plainBody codec payload)) := by
    unfold sealBody
    rw [hseal]
  have hlt : ¬2 ^ 32 ≤ (plainBody codec payload).length := by
    have hbound : maxRecordBytes < 2 ^ 32 := by decide
    omega
  unfold append
  rw [henc]
  dsimp only
  rw [hbody]
  dsimp only
  rw [if_neg (not_lt.mpr hmax), if_neg hlt]
  unfold pushFrame drainIf drain
  dsimp only
  rw [if_pos (decide_eq_true hfull), take_zero, append_nil]

/-- **A failed write leaves its trace.** A flush that fails half way leaves its bytes in the log and
the next one writes the buffer again behind them, so the record is acknowledged and gone; an append
that fails at the sink is refused and in the log. -/
theorem failed_write_leaves_trace :
    ((WriterRun.run .plain ⟨.resume none 1, []⟩
        [.append (.beginTxn 1) .stored, .flush (.failed 1) true, .flush .stored true]).acked =
      [(1, .beginTxn 1)] ∧
    ((WriterRun.run .plain ⟨.resume none 1, []⟩
        [.append (.beginTxn 1) .stored, .flush (.failed 1) true]).writer.flush .stored true).2 =
      .ok () ∧
    recoverSealedPrefix .plain none (WriterRun.run .plain ⟨.resume none 1, []⟩
        [.append (.beginTxn 1) .stored, .flush (.failed 1) true, .flush .stored true]).writer.sink =
      .ok ⟨[], 0, 0⟩) ∧
    ∃ record n, (WriterRun.run .plain ⟨.resume none 1, []⟩
        [.append record (.failed 0), .flush .stored true]).acked = [] ∧
      recoverSealedPrefix .plain none (WriterRun.run .plain ⟨.resume none 1, []⟩
        [.append record (.failed 0), .flush .stored true]).writer.sink =
          .ok ⟨[(1, record)], n, 1⟩ := by
  refine ⟨by decide +kernel, ?_⟩
  -- a record that fills the buffer by itself
  obtain ⟨value, hvalue⟩ : ∃ value : List Byte, value.length = appendBufCap :=
    ⟨List.replicate appendBufCap 0, length_replicate⟩
  let record : WalRecord := .put [] value
  let payload : List Byte := [6] ++ leBytes 4 0 ++ [] ++ leBytes 4 value.length ++ value
  have hlen : payload.length = 9 + appendBufCap := by
    simp only [payload, length_append, length_leBytes, length_nil, length_singleton, hvalue]
  have henc : record.encode = .ok payload := by
    show (pushLenPrefixed [6] [] >>= fun buf => pushLenPrefixed buf value) = _
    show (if value.length < 2 ^ 32 then _ else _) = _
    rw [if_pos (by rw [hvalue]; decide)]
    rfl
  have hplain : plainBody .plain payload = 1 :: payload := by
    unfold plainBody
    rw [if_neg (by rw [hlen]; decide)]
    rfl
  have hbody : (plainBody .plain payload).length = 10 + appendBufCap := by
    rw [hplain, length_cons, hlen]
    rfl
  let entry : Entry := ⟨1, record, plainBody .plain payload⟩
  have happ : (resume none 1).append .plain record (.failed 0) =
      (⟨[], 1, none, 0, entry.frame⟩, .error .sink) :=
    append_refused rfl henc (by rw [hbody]; decide)
      (by rw [length_append, length_frame, hbody]; decide)
  have hok : entry.Ok .plain none := by
    refine ⟨show 1 < 2 ^ 64 by decide, ?_, ?_⟩
    · show (plainBody .plain payload).length ≤ maxRecordBytes
      rw [hbody]
      decide
    · show decodePlainBody .plain (plainBody .plain payload) = some record
      rw [decodePlainBody_plainBody]
      exact WalRecord.decode_encode henc
  have hflush : flush ⟨[], 1, none, 0, entry.frame⟩ .stored true =
      (⟨entry.frame, 1, none, 0, []⟩, .ok ()) := rfl
  have hrun : run .plain ⟨.resume none 1, []⟩
      [.append record (.failed 0), .flush .stored true] = ⟨⟨entry.frame, 1, none, 0, []⟩, []⟩ := by
    have hstep : step .plain ⟨.resume none 1, []⟩ (.append record (.failed 0)) =
        ⟨⟨[], 1, none, 0, entry.frame⟩, []⟩ := by
      unfold step
      dsimp only
      rw [happ]
    show step .plain (step .plain ⟨.resume none 1, []⟩
      (.append record (.failed 0))) (.flush .stored true) = _
    rw [hstep]
    unfold step
    dsimp only
    rw [hflush]
  have hentries : ∀ e ∈ [entry], e.Ok .plain none := fun e he => mem_singleton.mp he ▸ hok
  have hrec := recover_whole hentries
  rw [show framesOf [entry] = entry.frame from append_nil _] at hrec
  refine ⟨record, entry.frame.length, ?_⟩
  rw [hrun]
  exact ⟨rfl, hrec⟩

/-- The entries whose frames lie wholly in the first `cut` bytes. -/
def wholeBefore : Nat → List Entry → List Entry
  | _, [] => []
  | cut, entry :: rest =>
    if entry.frame.length ≤ cut then entry :: wholeBefore (cut - entry.frame.length) rest else []

lemma wholeBefore_sublist (cut : Nat) (entries : List Entry) :
    (wholeBefore cut entries).Sublist entries := by
  induction entries generalizing cut with
  | nil => exact .slnil
  | cons entry rest ih =>
    unfold wholeBefore
    split
    · exact (ih _).cons_cons entry
    · exact nil_sublist _

lemma take_framesOf (cut : Nat) (entries : List Entry) :
    ∃ tail, (framesOf entries).take cut = framesOf (wholeBefore cut entries) ++ tail ∧
      (tail = [] ∨ ∃ entry ∈ entries, ∃ n < entry.frame.length, tail = entry.frame.take n) := by
  induction entries generalizing cut with
  | nil => exact ⟨[], by simp [framesOf, wholeBefore], .inl rfl⟩
  | cons entry rest ih =>
    have hframes : framesOf (entry :: rest) = entry.frame ++ framesOf rest := rfl
    unfold wholeBefore
    split
    case isTrue hle =>
      obtain ⟨tail, htake, htail⟩ := ih (cut - entry.frame.length)
      refine ⟨tail, ?_, ?_⟩
      · rw [hframes, take_append, take_of_length_le hle, htake]
        exact (append_assoc ..).symm
      · rcases htail with hnil | ⟨e, he, n, hn, heq⟩
        · exact .inl hnil
        · exact .inr ⟨e, mem_cons_of_mem _ he, n, hn, heq⟩
    case isFalse hlt =>
      refine ⟨entry.frame.take cut, ?_, .inr ⟨entry, mem_cons_self, cut, by omega, rfl⟩⟩
      rw [hframes, take_append_of_le_length (by omega)]
      rfl

/-- **A cut log comes back up to its last whole frame.** -/
theorem recover_cut (hok : ∀ entry ∈ entries, entry.Ok codec recordSeal) (cut : Nat) :
    recoverSealedPrefix codec recordSeal ((framesOf entries).take cut) =
      .ok ⟨recordsOf (wholeBefore cut entries), (framesOf (wholeBefore cut entries)).length,
        lastLsn (recordsOf (wholeBefore cut entries))⟩ := by
  obtain ⟨tail, htake, htail⟩ := take_framesOf cut entries
  have hwhole : ∀ entry ∈ wholeBefore cut entries, entry.Ok codec recordSeal :=
    fun entry he => hok entry ((wholeBefore_sublist cut entries).subset he)
  rw [htake]
  refine recover_frames _ hwhole ?_
  rcases htail with rfl | ⟨entry, he, n, hn, rfl⟩
  · rw [append_nil]
    exact parseFrame_end _
  · exact (hok entry he).parseFrame_cut _ hn

/-- A complete frame with a valid checksum begins at `off`, with position `lsn`. Whether its body
decodes, and whether its length is one a reader takes for plausible, does not matter. -/
def Intact (buf : List Byte) (off lsn : Nat) : Prop :=
  match slice buf off 16 with
  | none => False
  | some head =>
    match slice buf (off + 16) (ofLe ((head.drop 8).take 4)) with
    | none => False
    | some body => frameCrc (head.take 12) body = ofLe (head.drop 12) ∧ ofLe (head.take 8) = lsn

instance (buf : List Byte) (off lsn : Nat) : Decidable (Intact buf off lsn) := by
  unfold Intact
  split
  · infer_instance
  · split <;> infer_instance

/-- What recovery returns is the frames from the start, and no intact frame with a later position is
left behind. -/
def NeverDiscards (codec : Codec) (buf : List Byte) : Prop :=
  ∀ p, recoverPrefix codec buf = .ok p →
    Frames codec none buf 0 p.records p.goodBytes ∧ p.lastLsn = lastLsn p.records ∧
      ∀ off lsn, p.goodBytes ≤ off → Intact buf off lsn → lsn ≤ p.lastLsn

/-- The length field of the frame at `off`. -/
def lenAt (buf : List Byte) (off : Nat) : Nat := ofLe ((((buf.drop off).take 16).drop 8).take 4)

/-- The frame at `g` is taken for a torn tail: its header is whole, and its length, a plausible one,
runs past the end of the log. -/
def Torn (buf : List Byte) (g : Nat) : Prop :=
  g + 16 ≤ buf.length ∧ lenAt buf g ≤ maxRecordBytes ∧ buf.length < g + 16 + lenAt buf g

/-- The frame at `g` is taken for a garbage tail: it fails validation behind some record, and no
frame after it decodes to one with a position past `last`. -/
def Garbage (codec : Codec) (buf : List Byte) (g last : Nat) : Prop :=
  parseFrame codec none buf g = .corrupt ∧ g ≠ 0 ∧
    findValidAfter codec none buf (g + 1) last = none

/-- The frames from the start lead to one taken for a torn or garbage tail, though an intact frame
with a later position begins there or behind it. -/
def StopsShort (codec : Codec) (buf : List Byte) : Prop :=
  ∃ records g, Frames codec none buf 0 records g ∧
    (Torn buf g ∨ Garbage codec buf g (lastLsn records)) ∧
    ∃ off lsn, g ≤ off ∧ Intact buf off lsn ∧ lastLsn records < lsn

lemma Intact.length_le {buf : List Byte} {off lsn : Nat} (hi : Intact buf off lsn) :
    off + 16 + lenAt buf off ≤ buf.length := by
  unfold Intact at hi
  by_cases hhead : off + 16 ≤ buf.length
  · rw [slice_eq hhead] at hi
    by_contra hbody
    dsimp only at hi
    rw [slice_eq_none (by unfold lenAt at hbody; omega)] at hi
    exact hi
  · rw [slice_eq_none (by omega)] at hi
    exact hi.elim

lemma parseFrame_eq_incomplete {buf : List Byte} {off : Nat} :
    parseFrame codec recordSeal buf off = .incomplete ↔
      buf.length < off + 16 ∨ Torn buf off := by
  unfold parseFrame Torn
  by_cases hhead : buf.length < off + 16
  · rw [slice_eq_none hhead]
    exact ⟨fun _ => .inl hhead, fun _ => rfl⟩
  rw [slice_eq (by omega)]
  dsimp only
  have hlen : ofLe (take 4 (drop 8 (take 16 (drop off buf)))) =
      lenAt buf off := rfl
  rw [hlen]
  by_cases hmax : maxRecordBytes < lenAt buf off
  · rw [if_pos hmax]
    refine ⟨nofun, fun h => ?_⟩
    rcases h with h | ⟨-, h, -⟩
    · exact absurd h hhead
    · omega
  rw [if_neg hmax]
  by_cases hbody : buf.length < off + 16 + lenAt buf off
  · rw [slice_eq_none hbody]
    exact ⟨fun _ => .inr ⟨by omega, by omega, hbody⟩, fun _ => rfl⟩
  rw [slice_eq (by omega)]
  dsimp only
  constructor
  · -- past this point every outcome is another
    intro h
    split at h
    case isTrue => cases h
    split at h
    case h_1 => cases h
    split at h
    case h_1 => cases h
    case h_2 => cases h
  · omega

/-- **The scan leaves an intact frame behind exactly where it stops short.** In one direction the
chain and its end say what recovery returns, in the other a scan that returned has ended at one of
the two kinds of tail. -/
theorem neverDiscards_iff (codec : Codec) (buf : List Byte) :
    NeverDiscards codec buf ↔ ¬StopsShort codec buf := by
  constructor
  · rintro hnever ⟨records, g, hframes, htail, off, lsn, hoff, hintact, hlater⟩
    have hstops : Stops codec none buf ⟨records, g, lastLsn records⟩ := by
      rcases htail with htorn | ⟨hcorrupt, hne, hnone⟩
      · exact .incomplete (parseFrame_eq_incomplete.mpr (.inr htorn))
      · exact .corrupt hcorrupt hne hnone
    obtain ⟨-, -, hkeeps⟩ := hnever _ (recover_of_frames hframes hstops)
    exact absurd (hkeeps off lsn hoff hintact) (Nat.not_le_of_lt hlater)
  · intro hno p hp
    obtain ⟨⟨hframes, hlast⟩, hstops⟩ := recover_eq_ok hp
    refine ⟨hframes, hlast, fun off lsn hoff hintact => ?_⟩
    by_contra hlater
    have hlen := hintact.length_le
    refine hno ⟨p.records, p.goodBytes, hframes, ?_, off, lsn, hoff, hintact, by omega⟩
    rw [← hlast]
    cases hstops with
    | incomplete hinc =>
      -- an intact frame behind leaves room for a header, so it is the body that is cut
      rcases parseFrame_eq_incomplete.mp hinc with hshort | htorn
      · omega
      · exact .inl htorn
    | corrupt hcorrupt hne hnone => exact .inr ⟨hcorrupt, hne, hnone⟩

/-- **Recovery of a log**: it returns the frames from the start and leaves no intact later frame
behind, unless it stops short; and a log produced without a write that failed half way, cut anywhere,
comes back with the records wholly before the cut. -/
theorem recovery_keeps_readable (codec : Codec) :
    (∀ buf, NeverDiscards codec buf ↔ ¬StopsShort codec buf) ∧
      ∀ (start : UInt64) (ops : List WriterOp),
        WriterRun.AllClean codec ⟨.resume none start, []⟩ ops →
        let r := WriterRun.run codec ⟨.resume none start, []⟩ ops
        ∃ entries, r.writer.sink ++ r.writer.appendBuf = framesOf entries ∧
          r.acked = recordsOf entries ∧ ∀ cut ≤ r.writer.sink.length,
            recoverPrefix codec (r.writer.sink.take cut) =
              .ok ⟨recordsOf (wholeBefore cut entries), (framesOf (wholeBefore cut entries)).length,
                lastLsn (recordsOf (wholeBefore cut entries))⟩ := by
  refine ⟨neverDiscards_iff codec, ?_⟩
  intro start ops hclean r
  obtain ⟨entries, hw⟩ := (Written.resume codec none start).run ops hclean
  refine ⟨entries, hw.bytes, hw.acked, fun cut hcut => ?_⟩
  have htake : r.writer.sink.take cut = (framesOf entries).take cut := by
    rw [← hw.bytes, take_append_of_le_length hcut]
  rw [htake]
  exact recover_cut hw.ok cut

theorem recovery_keeps_readable_examples :
    NeverDiscards .plain [] ∧
      ∃ entries, recoverPrefix .plain ((WriterRun.run .plain ⟨.resume none 1, []⟩
          [.append (.beginTxn 1) .stored, .append (.abortTxn 1) .stored,
            .flush .stored true]).writer.sink.take 30) =
        .ok ⟨recordsOf (wholeBefore 30 entries), (framesOf (wholeBefore 30 entries)).length,
          lastLsn (recordsOf (wholeBefore 30 entries))⟩ := by
  obtain ⟨hany, hcut⟩ := recovery_keeps_readable .plain
  constructor
  · refine (hany []).mpr ?_
    rintro ⟨-, -, -, -, off, lsn, -, hintact, -⟩
    exact absurd hintact.length_le (by simp)
  · obtain ⟨entries, -, -, hrec⟩ := hcut 1 [.append (.beginTxn 1) .stored,
      .append (.abortTxn 1) .stored, .flush .stored true] (by decide +kernel)
    exact ⟨entries, hrec 30 (by decide +kernel)⟩

/-- Three frames, the length of the second damaged so that it runs past the end. -/
def damagedLength : List Byte :=
  frame 1 (0 :: 0 :: u64Bytes 1) ++ (header 2 4096 ++ leBytes 4 0 ++ 0 :: 0 :: u64Bytes 2) ++
    frame 3 (0 :: 1 :: (u64Bytes 1 ++ u64Bytes 9))

/-- Two frames with valid checksums; the body of the second is none that decodes. -/
def undecodableBody : List Byte := frame 1 (0 :: 0 :: u64Bytes 1) ++ frame 2 [9, 9, 9]

/-- The scan stops at the damaged frame and returns the first record, though the third frame is
intact; and it drops a frame whose checksum is valid because its body does not decode. -/
theorem damaged_length_discards :
    (recoverPrefix .plain damagedLength = .ok ⟨[(1, .beginTxn 1)], 26, 1⟩ ∧
      Intact damagedLength 52 3) ∧
    recoverPrefix .plain undecodableBody = .ok ⟨[(1, .beginTxn 1)], 26, 1⟩ ∧
      Intact undecodableBody 26 2 := by
  decide +kernel

/-- Opening a log beside an image that covers the positions up to `covered`: the torn tail is cut
off, and the next record is numbered past every position read. -/
def reopen (codec : Codec) (recordSeal : Option RecordSeal) (covered : Nat) (buf : List Byte) :
    Except MidLogHole WriterRun :=
  (recoverSealedPrefix codec recordSeal buf).map fun p =>
    ⟨{ resume recordSeal (.ofNat (max covered ((p.records.map Prod.fst).foldr max 0) + 1)) with
        sink := buf.take p.goodBytes }, p.records⟩

/-- The states a log is in, written to and stopped any number of times. -/
inductive Life (codec : Codec) (recordSeal : Option RecordSeal) : WriterRun → Prop
  | new (start : UInt64) : Life codec recordSeal ⟨.resume recordSeal start, []⟩
  | call {r : WriterRun} (op : WriterOp) (hl : Life codec recordSeal r)
      (hclean : op.Clean codec r.writer) : Life codec recordSeal (r.step codec op)
  /-- Of the file only the first `cut` bytes are left; a checkpoint empties it. -/
  | crash {r r' : WriterRun} (covered : Fin r.writer.nextLsn)
      (cut : Fin (r.writer.sink.length + 1)) (hl : Life codec recordSeal r)
      (hopen : reopen codec recordSeal covered (r.writer.sink.take cut) = .ok r') :
      Life codec recordSeal r'

lemma Written.reopen (hw : Written codec recordSeal r entries) (covered : Fin r.writer.nextLsn)
    (cut : Fin (r.writer.sink.length + 1)) : ∃ r',
    reopen codec recordSeal covered (r.writer.sink.take cut) = .ok r' ∧
      Written codec recordSeal r' (wholeBefore cut entries) := by
  obtain ⟨tail, htail, -⟩ := take_framesOf cut entries
  have hsub := wholeBefore_sublist cut entries
  rw [Wal.reopen, ← take_append_of_le_length (Nat.le_of_lt_succ cut.2), hw.bytes, recover_cut hw.ok, htail]
  generalize wholeBefore cut entries = whole at hsub ⊢
  set last := max covered.1 (((recordsOf whole).map Prod.fst).foldr max 0)
  have hmax : ∀ e ∈ whole, e.lsn ≤ last := fun e he =>
    le_max_of_le_right (le_max_of_le (mem_map_of_mem (mem_map_of_mem he)) le_rfl)
  -- what is read back and what the image covers were numbered by this writer
  have hlt : last < r.writer.nextLsn := by
    refine max_lt covered.2 (Nat.lt_of_le_pred covered.pos (max_le_of_forall_le _ _ ?_))
    refine forall_mem_map.mpr (forall_mem_map.mpr fun e he => ?_)
    exact Nat.le_pred_of_lt (hw.below e (hsub.subset he))
  have hnext : (WalWriter.resume recordSeal (.ofNat (last + 1))).nextLsn = last + 1 := by
    have hn := hw.next
    rw [WalWriter.resume, UInt64.toNat_ofNat_of_lt' (show last + 1 < 2 ^ 64 by omega)]
    exact max_eq_left (Nat.le_add_left ..)
  refine ⟨_, rfl, rfl, (append_nil _).trans take_left, rfl, fun e he => hw.ok e (hsub.subset he),
    hw.increasing.sublist hsub, fun e he => ?_, hnext.trans_lt (Nat.lt_of_le_of_lt hlt hw.next)⟩
  exact (Nat.lt_succ_of_le (hmax e he)).trans_eq hnext.symm

lemma Life.written (hl : Life codec recordSeal r) : ∃ entries, Written codec recordSeal r entries := by
  induction hl with
  | new start => exact ⟨[], .resume codec recordSeal start⟩
  | call op _ hclean ih =>
    obtain ⟨entries, hw⟩ := ih
    exact hw.step op hclean
  | crash covered cut _ hopen ih =>
    obtain ⟨entries, hw⟩ := ih
    obtain ⟨r₁, hr₁, hw'⟩ := hw.reopen covered cut
    cases hopen.symm.trans hr₁
    exact ⟨_, hw'⟩

/-- **A log survives restarts.** However often it was stopped before, a log cut anywhere opens again:
with the frames that are left whole, their records in order, and its next position past theirs. -/
theorem reopen_keeps_whole (r : {r // Life codec recordSeal r}) (covered : Fin r.1.writer.nextLsn)
    (cut : Fin (r.1.writer.sink.length + 1)) :
    ∃ entries r', Written codec recordSeal r.1 entries ∧
      reopen codec recordSeal covered (r.1.writer.sink.take cut) = .ok r' ∧
      Written codec recordSeal r' (wholeBefore cut entries) := by
  obtain ⟨entries, hw⟩ := r.2.written
  obtain ⟨r', hopen, hw'⟩ := hw.reopen covered cut
  exact ⟨entries, r', hw, hopen, hw'⟩

end NusaDb.Wal
