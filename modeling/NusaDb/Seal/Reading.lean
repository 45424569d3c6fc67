import NusaDb.Seal.Written
import NusaDb.Wal.Recovery

/-!
# Every path that reads sealed data

Opening a database directory, restoring from an archive and applying a shipped segment, as far as
they read: which bytes are opened with which key, and which records are replayed. The files are
arbitrary bytes.
-/

namespace NusaDb.Seal

open List Option Fallible

open NusaDb.Wal (Codec RecordSeal MidLogHole recoverSealedPrefix crc32)
open NusaDb.Pager (Page Spill SpillSeal pageSize sealOverhead badPage)

/-! ## Opening a database -/

inductive RecoveryTarget where
  | latest
  | lsn (bound : Nat)
  | time (unixMs : UInt64)
  deriving DecidableEq, Repr

namespace RecoveryTarget

def isBefore (coveredLsn : Nat) (imageTime : UInt64) : RecoveryTarget → Bool
  | latest => false
  | lsn bound => bound < coveredLsn
  | time unixMs => unixMs < imageTime

def excludes (pos : Nat) (record : Wal.WalRecord) : RecoveryTarget → Bool
  | latest => false
  | lsn bound => bound < pos
  | time unixMs =>
    match record with
    | .commitTxn _ stamp => unixMs < stamp
    | _ => false

end RecoveryTarget

def imageCommitTime (records : List Wal.WalRecord) : Option UInt64 :=
  records.findSome? fun
    | .commitTxn _ unixMs => some unixMs
    | _ => none

inductive OpenError where
  | image (error : ImageError)
  | missingSegment
  | pastTarget
  | hole (hole : MidLogHole)
  /-- No archived image is at or before the restore target. -/
  | noImage
  /-- The archive has a gap before a source that starts at this position. -/
  | gap (start : Nat)
  /-- The archive's history goes on past the end of its segments. -/
  | segmentsMissing
  | targetNotReached
  /-- A shipped segment and the standby disagree on encryption. -/
  | encryptionDiffers
  deriving DecidableEq, Repr

/-- The files of a database: its image, its log, and the segment files by name. -/
structure Files where
  image : Option (List Byte)
  log : Option (List Byte)
  segments : List Byte → Option (List Byte)

/-- What an open reads: the image, the pages it describes, and the log records it replays. -/
structure Opened where
  image : ImageContents
  pages : Option PageFile
  replayed : List (Nat × Wal.WalRecord)

/-- The records replayed after those up to `acceptedUpTo`: positions climb, and the first record
past the target ends the replay. -/
def accepted (target : RecoveryTarget) : Nat → List (Nat × Wal.WalRecord) → List (Nat × Wal.WalRecord)
  | _, [] => []
  | acceptedUpTo, (pos, record) :: rest =>
    if pos ≤ acceptedUpTo then accepted target acceptedUpTo rest
    else if target.excludes pos record then []
    else (pos, record) :: accepted target pos rest

def readLog (codec : Codec) (recordSeal : Option RecordSeal) :
    Option (List Byte) → Except OpenError (List (Nat × Wal.WalRecord))
  | none => .ok []
  | some buf =>
    match recoverSealedPrefix codec recordSeal buf with
    | .error hole => .error (.hole hole)
    | .ok p => .ok p.records

def attachPages (key : Option DataKey) (files : Files) :
    Option ImagePages → Except OpenError (Option PageFile)
  | none => .ok none
  | some pages =>
    match openPageFile (files.image.getD []) files.segments pages key with
    | none => .error .missingSegment
    | some file => .ok (some file)

/-- The reading part of `open_impl`: image, pages, log. -/
def openImpl (codec : Codec) (key : Option DataKey) (target : RecoveryTarget) (files : Files) :
    Except OpenError Opened :=
  match readCheckpointImage codec key files.image with
  | .error e => .error (.image e)
  | .ok image =>
    match attachPages key files image.pages with
    | .error e => .error e
    | .ok pages =>
      if (imageCommitTime image.records).any fun time =>
          target.isBefore image.coveredLsn.toNat time then
        .error .pastTarget
      else
        match readLog codec (key.map DataKey.logSeal) files.log with
        | .error e => .error e
        | .ok records => .ok ⟨image, pages, accepted target image.coveredLsn.toNat records⟩

/-! ## Restoring from an archive -/

/-- An archive: images and log segments by the position they cover, ascending, the segment files,
and the forks as `(cut, sealed)`. -/
structure Archive where
  images : List (Nat × List Byte)
  logs : List (Nat × List Byte)
  segments : List Byte → Option (List Byte)
  forks : List (Nat × Nat)

/-- `choose_base_image` over the images from the newest on; one that cannot be read is skipped. -/
def chooseBaseImage (codec : Codec) (key : Option DataKey) (target : RecoveryTarget)
    (forks : List (Nat × Nat)) :
    List (Nat × List Byte) → Option (Nat × List Byte × RecoveryTarget)
  | [] => none
  | (pos, bytes) :: older =>
    match readCheckpointImage codec key (some bytes) with
    | .error _ => chooseBaseImage codec key target forks older
    | .ok contents =>
      -- the image that sealed a fork stands for every position from the fork's cut on
      let standsFor := match target with
        | .lsn bound => bound < pos && forks.any fun fork => fork.2 == pos && fork.1 ≤ bound
        | _ => false
      if standsFor then some (pos, bytes, .lsn pos)
      else if target.isBefore contents.coveredLsn.toNat
          ((imageCommitTime contents.records).getD 0) then
        chooseBaseImage codec key target forks older
      else some (pos, bytes, target)

structure LogSpan where
  first : Nat
  last : Nat
  goodBytes : Nat
  opensPastTarget : Bool
  reachesTarget : Bool

def logSpan (codec : Codec) (recordSeal : Option RecordSeal) (target : RecoveryTarget)
    (bytes : List Byte) : Except MidLogHole (Option LogSpan) :=
  match recoverSealedPrefix codec recordSeal bytes with
  | .error hole => .error hole
  | .ok p =>
    match p.records with
    | [] => .ok none
    | (first, _) :: _ =>
      let decisive := p.records.find? fun x =>
        match target, x.2 with
        | .lsn _, _ => true
        | _, .commitTxn _ _ => true
        | _, _ => false
      .ok (some
        { first := first
          last := p.lastLsn
          goodBytes := p.goodBytes
          opensPastTarget := decisive.any fun x => target.excludes x.1 x.2
          reachesTarget := p.records.any fun x => target.excludes x.1 x.2 })

structure AssembledChain where
  log : List Byte
  reached : Bool
  last : Nat

def RecoveryTarget.metBy (chainEnd : Nat) : RecoveryTarget → Bool
  | .lsn bound => bound ≤ chainEnd
  | _ => false

/-- `assemble_log` from the chain so far: the valid bytes of each source, in order, as far as the
target needs them. -/
def assembleLog (codec : Codec) (recordSeal : Option RecordSeal) (target : RecoveryTarget) :
    AssembledChain → List (List Byte) → Except OpenError AssembledChain
  | chain, [] => .ok chain
  | chain, source :: sources =>
    if target.metBy chain.last then .ok chain
    else
      match logSpan codec recordSeal target source with
      | .error hole => .error (.hole hole)
      | .ok none => assembleLog codec recordSeal target chain sources
      | .ok (some span) =>
        if chain.last + 1 < span.first then .error (.gap span.first)
        else if span.opensPastTarget then .ok { chain with reached := true }
        else
          let chain := { chain with
            log := chain.log ++ source.take span.goodBytes
            last := max chain.last span.last }
          if span.reachesTarget then .ok { chain with reached := true }
          else assembleLog codec recordSeal target chain sources

/-- A chain that ends short of the target is refused, unless the target is a moment or the end. -/
def checkReached (target : RecoveryTarget) (images : List (Nat × List Byte))
    (chain : AssembledChain) : Except OpenError Unit :=
  if chain.reached || target.metBy chain.last then .ok ()
  else if images.any fun image => chain.last < image.1 then .error .segmentsMissing
  else match target with
    | .lsn _ => .error .targetNotReached
    | _ => .ok ()

/-- The reading part of `restore_into`: the base image and the assembled log, opened like a
database up to the target. -/
def restoreInto (codec : Codec) (key : Option DataKey) (target : RecoveryTarget)
    (archive : Archive) (liveLog : Option (List Byte)) : Except OpenError Opened :=
  match chooseBaseImage codec key target archive.forks archive.images.reverse with
  | none => .error .noImage
  | some (base, image, target) =>
    let sources := (archive.logs.filter (base < ·.1)).map (·.2) ++ liveLog.toList
    match assembleLog codec (key.map DataKey.logSeal) target ⟨[], false, base⟩ sources with
    | .error e => .error e
    | .ok chain =>
      match checkReached target archive.images chain with
      | .error e => .error e
      | .ok () => openImpl codec key target ⟨some image, some chain.log, archive.segments⟩

/-! ## Applying a shipped segment -/

/-- How a record's contents are read: the transaction it ends, and the transaction of a put that
belongs to one. -/
structure OpReader where
  endedTxn : Wal.WalRecord → Option Nat
  putTxn : Wal.WalRecord → Option Nat

/-- The highest position at which the records end `txn`. -/
def OpReader.lastEnd (ops : OpReader) (records : List (Nat × Wal.WalRecord)) (txn : Nat) : Nat :=
  ((records.filter fun x => ops.endedTxn x.2 == some txn).map (·.1)).foldl max 0

structure Shipped where
  /-- To append to the standby's own log. -/
  appended : List (Nat × Wal.WalRecord)
  replay : List (Nat × Wal.WalRecord)

/-- `records_past`: a transaction's puts are replayed when its end lies past `applied`, everything
else by its own position. -/
def recordsPast (ops : OpReader) (records : List (Nat × Wal.WalRecord)) (applied : Nat) : Shipped where
  appended := records.filter fun x => applied < x.1
  replay := records.filter fun x =>
    match ops.putTxn x.2 with
    | some txn => applied < ops.lastEnd records txn
    | none => applied < x.1

/-- The reading part of `apply_shipped_segment_with_key`; a torn segment, or one with nothing past
`applied`, contributes nothing. -/
def applyShippedSegment (codec : Codec) (ops : OpReader) (standbyKey key : Option DataKey)
    (applied : Nat) (bytes : List Byte) : Except OpenError Shipped :=
  if key.isSome != standbyKey.isSome then .error .encryptionDiffers
  else
    match recoverSealedPrefix codec (key.map DataKey.logSeal) bytes with
    | .error hole => .error (.hole hole)
    | .ok p =>
      if p.goodBytes < bytes.length then .ok ⟨[], []⟩
      else
        let shipped := recordsPast ops p.records applied
        match shipped.appended with
        | [] => .ok ⟨[], []⟩
        | (first, _) :: _ => if applied + 1 < first then .error (.gap first) else .ok shipped

/-! ## What the reading paths read -/

def LogRecord (sealings : List Sealing) (x : Nat × Wal.WalRecord) : Prop :=
  ∃ lsn : UInt64, lsn.toNat = x.1 ∧ WasSealed sealings (.log lsn x.2)

/-- The records were written as records of an image covering this position, under their numbers. -/
def ImageRecords (sealings : List Sealing) (covered : UInt64) (records : List Wal.WalRecord) : Prop :=
  ∃ numbered : List (UInt64 × Wal.WalRecord), records = numbered.map (·.2) ∧
    ∀ x ∈ numbered, WasSealed sealings (.image covered x.1 x.2)

/-- The image is absent, or its directory was written with this header and these names, and its
records for the position it covers. -/
def GenuineImage (sealings : List Sealing) (image : ImageContents) : Prop :=
  (image.records = [] ∧ image.pages = none) ∨
    (ImageRecords sealings image.coveredLsn image.records ∧
      ∃ d, WasSealed sealings (.directory d) ∧ d.covered = image.coveredLsn ∧
        image.pages = some d.pages)

/-- Every page read was written for exactly the id, slot and segment name that the image's directory
gives it. -/
def GenuinePages (sealings : List Sealing) (image : ImageContents) (file : PageFile) : Prop :=
  ∀ id page, file.read id = .ok page →
    ∃ d entry name, image.pages = some (SealedDirectory.pages d) ∧ entry ∈ d.entries ∧
      entry.id = id ∧ d.names[entry.location.segment.toNat]? = some name ∧
      WasSealed sealings (.page id entry.location.slot name page)

structure Genuine (sealings : List Sealing) (opened : Opened) : Prop where
  image : GenuineImage sealings opened.image
  pages : ∀ file, opened.pages = some file → GenuinePages sealings opened.image file
  replayed : ∀ x ∈ opened.replayed, LogRecord sealings x

section

variable {codec : Codec} {key : DataKey} {sealings : List Sealing}

lemma accepted_subset (target : RecoveryTarget) (acceptedUpTo : Nat)
    (records : List (Nat × Wal.WalRecord)) : ∀ x ∈ accepted target acceptedUpTo records, x ∈ records := by
  induction records generalizing acceptedUpTo with
  | nil => exact fun _ h => h
  | cons y rest ih =>
    intro x hx
    unfold accepted at hx
    split at hx
    · exact mem_cons_of_mem _ (ih _ x hx)
    split at hx
    · cases hx
    rcases mem_cons.mp hx with rfl | hrest
    · exact mem_cons_self
    · exact mem_cons_of_mem _ (ih _ x hrest)

lemma Ideal.readLog (h : Ideal codec key.sealer sealings) {log : Option (List Byte)}
    {records : List (Nat × Wal.WalRecord)} (hread : readLog codec (some key.logSeal) log = .ok records) :
    ∀ x ∈ records, LogRecord sealings x := by
  unfold Seal.readLog at hread
  split at hread
  · cases hread
    exact fun _ hx => absurd hx not_mem_nil
  split at hread
  · cases hread
  rename_i hp
  cases hread
  exact h.log_records hp

lemma version_sealed {version : Nat} (h : checkSealed version (some key) = .ok ()) :
    version = ckptVersionSealed := by
  unfold checkSealed at h
  split at h
  · cases h
  · cases h
  rename_i hnot
  by_contra hne
  exact hnot key (decide_eq_false hne) rfl

lemma Ideal.readCheckpointImage (h : Ideal codec key.sealer sealings)
    {file : Option (List Byte)} {image : ImageContents}
    (hread : readCheckpointImage codec (some key) file = .ok image) :
    GenuineImage sealings image := by
  unfold Seal.readCheckpointImage at hread
  split at hread
  · cases hread
    exact .inl ⟨rfl, rfl⟩
  obtain ⟨⟨fixed, _⟩, -, hread⟩ := bind_eq_ok.mp hread
  obtain ⟨-, hread⟩ := refuseIf_bind_ok hread
  obtain ⟨checksummed, hchecksummed, hread⟩ := bind_eq_ok.mp hread
  obtain ⟨_, hversion, hread⟩ := bind_eq_ok.mp hread
  obtain ⟨⟨header, buf⟩, hheader, hread⟩ := bind_eq_ok.mp hread
  obtain ⟨-, hread⟩ := refuseIf_bind_ok hread
  obtain ⟨⟨pages, body⟩, hpages, hread⟩ := bind_eq_ok.mp hread
  obtain ⟨records, hrecords, hread⟩ := bind_eq_ok.mp hread
  cases hread
  have hsealed := version_sealed hversion
  rw [hsealed] at hchecksummed hpages
  cases hchecksummed
  have hlength : header.length = ckptV3HeaderLen := (readOr_ok hheader).1
  obtain ⟨⟨read, rest⟩, hdirectory, hpages⟩ := bind_eq_ok.mp hpages
  cases hpages
  obtain ⟨d, hwritten, rfl, rfl⟩ := h.directory hlength hdirectory
  refine .inr ⟨?_, d, hwritten, d.header_covered.symm, rfl⟩
  have hnumbered := h.image_records hrecords
  refine ⟨records.map fun x => (UInt64.ofNat x.1, x.2), by simp [List.map_map, Function.comp_def],
    ?_⟩
  intro x hx
  obtain ⟨y, hy, rfl⟩ := mem_map.mp hx
  obtain ⟨n, hn, hsealedRecord⟩ := hnumbered y hy
  have hback : UInt64.ofNat y.1 = n := by rw [← hn, UInt64.ofNat_toNat]
  rw [hback]
  exact hsealedRecord

lemma openSegments_name {names : List (List Byte)} {files : List Byte → Option (List Byte)}
    {slotBytes i : Nat} {segments : List Segment} {segment : Segment}
    (h : openSegments names files slotBytes = some segments) (hi : segments[i]? = some segment) :
    ∃ name, names[i]? = some name ∧ segment.name = some name := by
  induction names generalizing segments i with
  | nil =>
    cases h
    simp at hi
  | cons name names ih =>
    unfold openSegments at h
    rw [mapM_cons] at h
    obtain ⟨first, hfirst, h⟩ := bind_eq_some_iff.mp h
    obtain ⟨rest, hrest, h⟩ := bind_eq_some_iff.mp h
    cases h
    cases i with
    | zero =>
      obtain ⟨_, -, rfl⟩ := map_eq_some_iff.mp hfirst
      cases hi
      exact ⟨name, rfl, rfl⟩
    | succ i => exact ih hrest hi

lemma PageFile.read_opened {f : PageFile} (hkey : f.key = some key) {id : UInt64} {page : Page}
    (h : f.read id = .ok page) :
    ∃ (n : Nat) (location : Location) (segment : Segment) (sealedPage : List Byte),
      f.directory[n]? = some id ∧ f.locations[n]? = some location ∧
      f.segments[location.segment.toNat]? = some segment ∧
      key.openPage id location.slot (segment.name.getD []) sealedPage = some page := by
  unfold PageFile.read at h
  split at h
  · cases h
  rename_i n hn
  have hid : f.directory[n]? = some id := by
    obtain ⟨hlt, hfound, -⟩ := findIdx?_eq_some_iff_getElem.mp hn
    rw [getElem?_eq_getElem hlt, eq_of_beq hfound]
  split at h
  · cases h
  rename_i location hlocation
  split at h
  · cases h
  rename_i segment hsegment
  rw [hkey] at h
  dsimp only at h
  cases hbytes : readExactAt segment.file (pageSize + sealOverhead)
      (segment.base + location.slot.toNat * segment.slotBytes) with
  | error e =>
    rw [hbytes] at h
    cases h
  | ok sealedPage =>
    rw [hbytes] at h
    cases hopen : key.openPage id location.slot (segment.name.getD []) sealedPage with
    | none =>
      simp only [hopen, bind, Except.bind] at h
      cases h
    | some opened =>
      simp only [hopen, bind, Except.bind] at h
      split at h
      · cases h
      · cases h
        exact ⟨n, location, segment, sealedPage, hid, hlocation, hsegment, hopen⟩

variable (h : Ideal codec key.sealer sealings)

include h

lemma Ideal.page {id : UInt64} {slot : UInt32} {segment sealedPage : List Byte} {page : Page}
    (hopen : key.openPage id slot segment sealedPage = some page) :
    WasSealed sealings (.page id slot segment page) := by
  obtain ⟨plain, hplain, hpage⟩ := bind_eq_some_iff.mp hopen
  obtain ⟨what, hwritten, hwhere, htext⟩ := h.at_place (p := .page id slot segment) hplain
  cases what with
  | page id slot segment contents =>
    cases hwhere
    cases some.inj htext
    rw [Page.ofBytes?_bytes] at hpage
    cases hpage
    exact hwritten
  | log | image | directory | spill => cases hwhere

lemma Ideal.attachPages {files : Files} {image : ImageContents} {file : PageFile}
    (hgenuine : GenuineImage sealings image)
    (hattach : attachPages (some key) files image.pages = .ok (some file)) :
    GenuinePages sealings image file := by
  rcases hgenuine with ⟨-, hnone⟩ | ⟨-, d, -, -, hpages⟩
  · rw [hnone] at hattach
    cases hattach
  rw [hpages] at hattach
  unfold Seal.attachPages at hattach
  dsimp only at hattach
  split at hattach
  · cases hattach
  rename_i opened hopened
  cases hattach
  obtain ⟨segments, hsegments, rfl⟩ := map_eq_some_iff.mp hopened
  intro id page hread
  obtain ⟨n, location, segment, sealedPage, hid, hlocation, hsegment, hopen⟩ :=
    PageFile.read_opened rfl hread
  have hid' : (d.entries.map (·.id))[n]? = some id := hid
  have hlocation' : (d.entries.map (·.location))[n]? = some location := hlocation
  rw [getElem?_map] at hid'
  obtain ⟨entry, hentry, rfl⟩ := map_eq_some_iff.mp hid'
  rw [getElem?_map, hentry] at hlocation'
  cases hlocation'
  obtain ⟨name, hname, hsegmentName⟩ := openSegments_name hsegments hsegment
  rw [hsegmentName] at hopen
  exact ⟨d, entry, name, hpages, mem_of_getElem? hentry, rfl, hname, h.page hopen⟩

lemma Ideal.openImpl {target : RecoveryTarget} {files : Files} {opened : Opened}
    (hopen : openImpl codec (some key) target files = .ok opened) : Genuine sealings opened := by
  unfold Seal.openImpl at hopen
  split at hopen
  · cases hopen
  rename_i image himage
  have hgenuine := h.readCheckpointImage himage
  split at hopen
  · cases hopen
  rename_i pages hpages
  split at hopen
  · cases hopen
  split at hopen
  · cases hopen
  rename_i records hlog
  cases hopen
  refine ⟨hgenuine, ?_, ?_⟩
  · rintro file rfl
    exact h.attachPages hgenuine hpages
  · intro x hx
    exact h.readLog hlog x (accepted_subset _ _ _ x hx)

lemma Ideal.restoreInto {target : RecoveryTarget} {archive : Archive}
    {liveLog : Option (List Byte)} {opened : Opened}
    (hrestore : restoreInto codec (some key) target archive liveLog = .ok opened) :
    Genuine sealings opened := by
  unfold Seal.restoreInto at hrestore
  split at hrestore
  · cases hrestore
  dsimp only at hrestore
  split at hrestore
  · cases hrestore
  split at hrestore
  · cases hrestore
  · exact h.openImpl hrestore

lemma Ideal.applyShippedSegment {ops : OpReader} {standbyKey : Option DataKey} {applied : Nat}
    {bytes : List Byte} {shipped : Shipped}
    (hship : applyShippedSegment codec ops standbyKey (some key) applied bytes = .ok shipped) :
    ∀ x ∈ shipped.appended ++ shipped.replay, LogRecord sealings x := by
  unfold Seal.applyShippedSegment at hship
  split at hship
  · cases hship
  split at hship
  · cases hship
  rename_i p hp
  split at hship
  · cases hship
    exact fun _ hx => absurd hx not_mem_nil
  dsimp only at hship
  split at hship
  · cases hship
    exact fun _ hx => absurd hx not_mem_nil
  split at hship
  · cases hship
  cases hship
  intro x hx
  rcases mem_append.mp hx with happended | hreplay
  · exact h.log_records hp x (mem_of_mem_filter happended)
  · exact h.log_records hp x (mem_of_mem_filter hreplay)

omit h

/-- A page read from a sealed spill file was spilled as that page, with that generation. -/
lemma Ideal.spill {spill : Spill} {sealing : SpillSeal}
    (hideal : Ideal codec sealing.sealer sealings) (hseal : spill.sealWith = some sealing)
    {id generation : UInt64} {readable : Bool} {page : Page}
    (hget : spill.get id.toNat readable = .ok (some (page, generation.toNat))) :
    WasSealed sealings (.spill id generation page) := by
  unfold Spill.get at hget
  split at hget
  · split at hget
    · cases hget
    split at hget
    · cases hget
    rename_i opened hopened
    cases hget
    unfold Spill.openBody at hopened
    rw [hseal] at hopened
    obtain ⟨plain, hplain, hpage⟩ := bind_eq_some_iff.mp hopened
    obtain ⟨what, hwritten, hwhere, htext⟩ := hideal.at_place (p := .spill id generation) hplain
    cases what with
    | spill id generation contents =>
      cases hwhere
      cases some.inj htext
      rw [Page.ofBytes?_bytes] at hpage
      cases hpage
      exact hwritten
    | log | image | page | directory => cases hwhere
  · cases hget

/-- **Sealed data are accepted only where they were sealed.** Whatever bytes stand in the files of
an encrypted database, an archive or a shipped segment, what is read of them was sealed under the
data key for the place it is read at. A page read from the spill file, whose key lives as long as the
process, was spilled as that page with that generation. -/
theorem sealed_data_read_where_sealed (codec : Codec) (key : DataKey) (sealings : List Sealing)
    (hideal : Ideal codec key.sealer sealings) :
    (∀ target files opened, openImpl codec (some key) target files = .ok opened →
      Genuine sealings opened) ∧
    (∀ target archive liveLog opened,
      restoreInto codec (some key) target archive liveLog = .ok opened →
        Genuine sealings opened) ∧
    (∀ ops standbyKey applied bytes shipped,
      applyShippedSegment codec ops standbyKey (some key) applied bytes = .ok shipped →
        ∀ x ∈ shipped.appended ++ shipped.replay, LogRecord sealings x) ∧
    (∀ (spill : Spill) (sealing : SpillSeal) (spilled : List Sealing),
      spill.sealWith = some sealing → Ideal codec sealing.sealer spilled →
        ∀ (id generation : UInt64) readable page,
          spill.get id.toNat readable = .ok (some (page, generation.toNat)) →
            WasSealed spilled (.spill id generation page)) := by
  refine ⟨?_, ?_, ?_, ?_⟩
  · intro target files opened hopen
    exact hideal.openImpl hopen
  · intro target archive liveLog opened hrestore
    exact hideal.restoreInto hrestore
  · intro ops standbyKey applied bytes shipped hship
    exact hideal.applyShippedSegment hship
  · intro spill sealing spilled hseal hspilled id generation readable page hget
    exact hspilled.spill hseal hget

end

/-! ## A database with one of each -/

section

variable {codec : Codec} {sealings : List Sealing}

/-- The cipher that opens what the sealings say and nothing else. -/
def tableSealer (codec : Codec) (sealings : List Sealing) : Wal.Sealer where
  sealInto _ _ _ := none
  openSealed aad bytes :=
    (sealings.find? fun s => s.what.place.aad = aad ∧ s.bytes = bytes).bind (·.what.plaintext codec)
  open_seal := nofun

/-- There is an ideal cipher for any sealings. -/
lemma tableSealer_ideal : Ideal codec (tableSealer codec sealings) sealings := by
  intro aad bytes plain h
  obtain ⟨s, hs, hplain⟩ := bind_eq_some_iff.mp h
  have hfound := find?_some hs
  obtain ⟨haad, hbytes⟩ := decide_eq_true_eq.mp hfound
  exact ⟨s, mem_of_find?_eq_some hs, haad, hbytes, hplain⟩

/-- If no place is sealed twice, everything sealed opens at its place. -/
lemma tableSealer_open (hnodup : (sealings.map fun s => s.what.place).Nodup) {s : Sealing}
    (hs : s ∈ sealings) :
    (tableSealer codec sealings).openSealed s.what.place.aad s.bytes = s.what.plaintext codec := by
  have hfind : sealings.find? (fun t => t.what.place.aad = s.what.place.aad ∧ t.bytes = s.bytes) =
      some s := by
    induction sealings with
    | nil => cases hs
    | cons t rest ih =>
      obtain ⟨hfirst, hnodup⟩ := nodup_cons.mp hnodup
      rcases mem_cons.mp hs with rfl | hs
      · exact find?_cons_of_pos (decide_eq_true ⟨rfl, rfl⟩)
      rw [find?_cons_of_neg]
      · exact ih hnodup hs
      · rw [decide_eq_true_eq]
        rintro ⟨haad, -⟩
        exact hfirst (mem_map.mpr ⟨s, hs, (Place.aad_injective haad).symm⟩)
  show (sealings.find? _).bind _ = _
  rw [hfind, bind_some]

end

/-! An image covering position `3` has one record and one page, the log goes on at `4`, and a copy of
the page is in the spill. -/

namespace Sample

def segmentName : List Byte := replicate 20 48 ++ [45, 49]

def sealedDirectory : List Byte := replicate (ckptV3EntryLen + sealOverhead) 9

def imageFrames : List Byte := Wal.framesOf [⟨1, .beginTxn 1, [8]⟩]

def logFrames : List Byte := Wal.framesOf [⟨4, .beginTxn 2, [7]⟩]

section

variable (page : Page) (sealedPage : List Byte)

def directory : SealedDirectory where
  covered := 3
  pageCount := 1
  names := [segmentName]
  entries := [⟨0, ⟨0, 0⟩, UInt32.ofNat (crc32 page.bytes)⟩]
  name_lt := by decide
  names_lt := by decide
  entries_lt := Nat.one_lt_two_pow (by decide)

def sealings : List Sealing :=
  [⟨.log 4 (.beginTxn 2), [7]⟩, ⟨.image 3 1 (.beginTxn 1), [8]⟩,
    ⟨.page 0 0 segmentName page, sealedPage⟩, ⟨.directory (directory page), sealedDirectory⟩]

def key : DataKey := ⟨tableSealer .plain (sealings page sealedPage)⟩

def files : Files where
  image := some ((directory page).bytes sealedDirectory ++ imageFrames)
  log := some logFrames
  segments := fun _ => some sealedPage

def pageFile : PageFile where
  segments := [⟨some segmentName, sealedPage, 0, pageSize + sealOverhead⟩]
  pageCount := 1
  directory := [0]
  locations := [⟨0, 0⟩]
  checksums := [UInt32.ofNat (crc32 page.bytes)]
  key := some (key page sealedPage)

def opened : Opened :=
  ⟨⟨[.beginTxn 1], 3, some (directory page).pages⟩, some (pageFile page sealedPage),
    [(4, .beginTxn 2)]⟩

def spilled : List Sealing := [⟨.spill 0 1 page, sealedPage⟩]

def spill : Spill :=
  { Spill.default with
    file := some sealedPage
    slots := OrdMap.empty.insert 0 (0, 1)
    sealWith := some ⟨tableSealer .plain (spilled page sealedPage), nofun⟩ }

variable {page sealedPage}

lemma opens {s : Sealing} (hs : s ∈ sealings page sealedPage) :
    (key page sealedPage).sealer.openSealed s.what.place.aad s.bytes = s.what.plaintext .plain :=
  tableSealer_open (by simp [sealings, Written.place]) hs

/-- A log with one record is read back if the record's body opens. -/
lemma recovers {recordSeal : RecordSeal} {lsn : Nat} {record : Wal.WalRecord} {body : List Byte}
    (hopen : recordSeal.sealer.openSealed (recordSeal.aad lsn) body =
      record.encode.toOption.map (Wal.plainBody .plain))
    (hdecode : (record.encode.toOption.map (Wal.plainBody .plain)).bind
      (Wal.decodePlainBody .plain) = some record)
    (hlsn : lsn < 2 ^ 64) (hbody : body.length ≤ Wal.maxRecordBytes) :
    recoverSealedPrefix .plain (some recordSeal) (Wal.framesOf [⟨lsn, record, body⟩]) =
      .ok ⟨[(lsn, record)], (Wal.framesOf [⟨lsn, record, body⟩]).length, lsn⟩ := by
  have hok : Wal.Entry.Ok .plain (some recordSeal) ⟨lsn, record, body⟩ :=
    ⟨hlsn, hbody, (congrArg (Option.bind · _) hopen).trans hdecode⟩
  have hend : Wal.parseFrame .plain (some recordSeal) (Wal.framesOf [⟨lsn, record, body⟩] ++ [])
      (Wal.framesOf [⟨lsn, record, body⟩]).length = .incomplete := by
    unfold Wal.parseFrame
    rw [append_nil, Wal.slice_eq_none (Nat.lt_add_of_pos_right (by decide))]
  have hread := Wal.recover_frames [⟨lsn, record, body⟩] (forall_mem_singleton.mpr hok) hend
  rw [append_nil] at hread
  exact hread

lemma read_image : readCheckpointImage .plain (some (key page sealedPage)) (files page sealedPage).image =
    .ok (opened page sealedPage).image := by
  have hread : recoverSealedPrefix .plain (some ((key page sealedPage).imageSeal 3)) imageFrames = _ :=
    recovers (opens (s := ⟨.image 3 1 (.beginTxn 1), [8]⟩) (by simp [sealings])) (by decide)
      (by decide) (by decide)
  have hrecords : readImageRecords .plain (some (key page sealedPage)) 3 imageFrames =
      .ok [(1, .beginTxn 1)] := by
    unfold readImageRecords
    rw [map_some, hread]
    exact if_neg (not_not.mpr rfl)
  have hname : isSegmentName segmentName = true := by decide
  have hok : (directory page).Ok :=
    ⟨by simp [directory, hname], by simp [directory], by simp [directory, misordered]⟩
  exact (directory page).read_image hok
    (opens (s := ⟨.directory (directory page), sealedDirectory⟩) (by simp [sealings])) rfl
    (by simp [sealedDirectory, ckptV3EntryLen, sealOverhead]) hrecords

lemma open_files : openImpl .plain (some (key page sealedPage)) .latest (files page sealedPage) =
    .ok (opened page sealedPage) := by
  have hlog : recoverSealedPrefix .plain (some (key page sealedPage).logSeal) logFrames = _ :=
    recovers (opens (s := ⟨.log 4 (.beginTxn 2), [7]⟩) (by simp [sealings])) (by decide) (by decide)
      (by decide)
  unfold openImpl readLog
  rw [read_image]
  simp only [files, map_some, hlog]
  rfl

variable (hlength : sealedPage.length = pageSize + sealOverhead)

include hlength

lemma read_page : (pageFile page sealedPage).read 0 = .ok page := by
  have hbytes : readExactAt sealedPage (pageSize + sealOverhead) 0 = .ok sealedPage := by
    unfold readExactAt
    rw [zero_add, if_pos hlength.ge, drop_zero, take_of_length_le hlength.le]
  have hplain : (key page sealedPage).sealer.openSealed (pageAad 0 0 segmentName) sealedPage =
      some page.bytes := opens (s := ⟨.page 0 0 segmentName page, sealedPage⟩) (by simp [sealings])
  have hopen : (key page sealedPage).openPage 0 0 segmentName sealedPage = some page := by
    unfold DataKey.openPage
    rw [hplain, bind_some, page.ofBytes?_bytes]
  have hsum : (UInt32.ofNat (crc32 page.bytes)).toNat = crc32 page.bytes :=
    UInt32.toNat_ofNat_of_lt' (Wal.crc32_lt _)
  simp [PageFile.read, pageFile, hbytes, hopen, hsum, bind, Except.bind]

lemma get_spilled : (spill page sealedPage).get 0 true = .ok (some (page, 1)) := by
  have hbytes : readAt sealedPage (0 * (spill page sealedPage).slotBytes)
      (spill page sealedPage).slotBytes = some sealedPage := by
    have hslot : (spill page sealedPage).slotBytes = sealedPage.length := hlength.symm
    unfold readAt
    rw [hslot, zero_mul, zero_add, if_pos le_rfl, drop_zero, take_length]
  have hplain : (tableSealer .plain (spilled page sealedPage)).openSealed (Pager.spillAad 0 1)
      sealedPage = some page.bytes :=
    tableSealer_open (s := ⟨.spill 0 1 page, sealedPage⟩) (by simp [spilled]) (by simp [spilled])
  have hopen : (spill page sealedPage).openBody 0 1 sealedPage = some page := by
    show ((tableSealer .plain (spilled page sealedPage)).openSealed _ _).bind _ = _
    rw [hplain, bind_some, page.ofBytes?_bytes]
  have hslot : (spill page sealedPage).slots.get? 0 = some (0, 1) := OrdMap.get?_insert_self ..
  unfold Spill.get
  rw [hslot, show (spill page sealedPage).file = some sealedPage from rfl]
  simp only [if_true, hbytes, hopen]

end

end Sample

/-- All of it is read, and is genuine. -/
theorem sealed_database_read_where_sealed :
    let page : Page := .filled 7
    let sealedPage : List Byte := replicate (pageSize + sealOverhead) 10
    openImpl .plain (some (Sample.key page sealedPage)) .latest (Sample.files page sealedPage) =
        .ok (Sample.opened page sealedPage) ∧
      (Sample.pageFile page sealedPage).read 0 = .ok page ∧
      (Sample.spill page sealedPage).get 0 true = .ok (some (page, 1)) ∧
      Genuine (Sample.sealings page sealedPage) (Sample.opened page sealedPage) ∧
      WasSealed (Sample.spilled page sealedPage) (.spill 0 1 page) := by
  intro page sealedPage
  have hlength : sealedPage.length = pageSize + sealOverhead := length_replicate
  obtain ⟨hopen, -, -, hspill⟩ := sealed_data_read_where_sealed .plain (Sample.key page sealedPage)
    (Sample.sealings page sealedPage) tableSealer_ideal
  exact ⟨Sample.open_files, Sample.read_page hlength, Sample.get_spilled hlength,
    hopen .latest (Sample.files page sealedPage) _ Sample.open_files,
    hspill (Sample.spill page sealedPage) _ _ rfl tableSealer_ideal 0 1 true page
      (Sample.get_spilled hlength)⟩

end NusaDb.Seal
