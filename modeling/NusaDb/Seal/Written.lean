import NusaDb.Lib.Fallible
import NusaDb.Seal.Image

/-!
# What the engine seals, and what opens

`Written`: the log records, image records, pages and page directories sealed under a data key, and the
copies of pages in a spill file, sealed under its own. Under an ideal cipher what a reader opens at a
place was written for that place (`Ideal.at_place`); the readers are then taken one by one. The other
way round, a sealed image is read back as it was written (`SealedDirectory.read_image`).
-/

namespace NusaDb.Seal

open List Fallible

open NusaDb.Wal (Codec RecordSeal Sealer crc32 crc32_lt u64Bytes recoverSealedPrefix
  parseFrame plainBody decodePlainBody decodePlainBody_plainBody openBody Frames recover_eq_ok
  maxRecordBytes)
open NusaDb.Pager (Page pageSize sealOverhead badPage)

@[simp] lemma length_ckptMagic : ckptMagic.length = 4 := by simp [ckptMagic]

def headerFields (version : Nat) (covered pageCount : UInt64) (live segments : Nat) : List Byte :=
  ckptMagic ++ (leBytes 4 version ++ (u64Bytes covered ++ (u64Bytes pageCount ++
    (leBytes 8 live ++ leBytes 8 segments))))

def ckptV3HeaderBytes (version : Nat) (covered pageCount : UInt64) (live segments : Nat) :
    List Byte :=
  headerFields version covered pageCount live segments ++
    leBytes 4 (crc32 (headerFields version covered pageCount live segments))

/-- The page directory of a sealed image, as written: names too long for their length field are
refused, and the counts fit theirs. -/
structure SealedDirectory where
  covered : UInt64
  pageCount : UInt64
  names : List (List Byte)
  entries : List DirectoryEntry
  name_lt : ∀ name ∈ names, name.length < 2 ^ 16
  names_lt : names.length < 2 ^ 64
  entries_lt : entries.length < 2 ^ 64

def nameBytes (name : List Byte) : List Byte := leBytes 2 name.length ++ name

namespace SealedDirectory

def header (d : SealedDirectory) : List Byte :=
  ckptV3HeaderBytes ckptVersionSealed d.covered d.pageCount d.entries.length d.names.length

def rawNames (d : SealedDirectory) : List Byte := d.names.flatMap nameBytes

def entryBytes (d : SealedDirectory) : List Byte := d.entries.flatMap DirectoryEntry.bytes

def pages (d : SealedDirectory) : ImagePages := .ofEntries d.pageCount d.names d.entries

lemma length_header (d : SealedDirectory) : d.header.length = ckptV3HeaderLen := by
  simp [header, ckptV3HeaderBytes, headerFields, ckptV3HeaderLen]

end SealedDirectory

inductive Written where
  | log (lsn : UInt64) (record : Wal.WalRecord)
  /-- Record `n` of the image covering `covered`. -/
  | image (covered n : UInt64) (record : Wal.WalRecord)
  | page (id : UInt64) (slot : UInt32) (segment : List Byte) (page : Page)
  | directory (d : SealedDirectory)
  /-- The copy of a page in the spill file, with its write generation. -/
  | spill (id generation : UInt64) (page : Page)

namespace Written

def place : Written → Place
  | log lsn _ => .log lsn
  | image covered n _ => .image covered n
  | page id slot segment _ => .page id slot segment
  | directory d => .directory d.header d.length_header d.rawNames
  | spill id generation _ => .spill id generation

/-- The bytes that are sealed; a record that does not encode is refused before. -/
def plaintext (codec : Codec) : Written → Option (List Byte)
  | log _ record => record.encode.toOption.map (plainBody codec)
  | image _ _ record => record.encode.toOption.map (plainBody codec)
  | page _ _ _ contents => some contents.bytes
  | directory d => some d.entryBytes
  | spill _ _ contents => some contents.bytes

end Written

structure Sealing where
  what : Written
  bytes : List Byte

/-- **The ideal cipher**: a string opens under additional data only if it was sealed under that
data, and to what was sealed. -/
def Ideal (codec : Codec) (sealer : Sealer) (sealings : List Sealing) : Prop :=
  ∀ aad bytes plain, sealer.openSealed aad bytes = some plain →
    ∃ s ∈ sealings, s.what.place.aad = aad ∧ s.bytes = bytes ∧ s.what.plaintext codec = some plain

def WasSealed (sealings : List Sealing) (what : Written) : Prop := ∃ s ∈ sealings, s.what = what

variable {codec : Codec} {key : DataKey} {sealings : List Sealing}

lemma Ideal.at_place {sealer : Sealer} (h : Ideal codec sealer sealings) {p : Place}
    {bytes plain : List Byte} (hopen : sealer.openSealed p.aad bytes = some plain) :
    ∃ what, WasSealed sealings what ∧ what.place = p ∧ what.plaintext codec = some plain := by
  obtain ⟨s, hs, haad, -, hplain⟩ := h p.aad bytes plain hopen
  exact ⟨s.what, ⟨s, hs, rfl⟩, Place.aad_injective haad, hplain⟩

variable (h : Ideal codec key.sealer sealings)

include h

variable {record : Wal.WalRecord}

omit h in
lemma decode_encoded (codec : Codec) {read : Wal.WalRecord} {plain : List Byte}
    (hplain : record.encode.toOption.map (plainBody codec) = some plain)
    (hread : decodePlainBody codec plain = some read) : read = record := by
  obtain ⟨payload, hpayload, rfl⟩ := Option.map_eq_some_iff.mp hplain
  have hencode : record.encode = .ok payload := by
    cases hcase : record.encode with
    | error e =>
      rw [hcase] at hpayload
      cases hpayload
    | ok bytes =>
      rw [hcase] at hpayload
      cases hpayload
      rfl
  rw [decodePlainBody_plainBody, Wal.WalRecord.decode_encode hencode] at hread
  exact (Option.some.inj hread).symm

variable {recordSeal : RecordSeal} {buf : List Byte}

omit h in
lemma parseFrame_opened {off lsn next : Nat}
    (h : parseFrame codec (some recordSeal) buf off = .record lsn record next) :
    lsn < 2 ^ 64 ∧ ∃ body plain, recordSeal.sealer.openSealed (recordSeal.aad lsn) body = some plain ∧
      decodePlainBody codec plain = some record := by
  unfold parseFrame at h
  split at h
  · cases h
  rename_i head hhead
  dsimp only at h
  split at h
  · cases h
  split at h
  · cases h
  rename_i body _
  split at h
  · cases h
  split at h
  · cases h
  rename_i plain hplain
  split at h
  · cases h
  rename_i read hread
  cases h
  refine ⟨?_, body, plain, hplain, hread⟩
  have hlt := ofLe_lt (head.take 8)
  have hlen : (head.take 8).length ≤ 8 := by simp
  exact lt_of_lt_of_le hlt (Nat.pow_le_pow_right (by decide) hlen)

variable {records : List (Nat × Wal.WalRecord)}

omit h in
lemma frames_opened {off g : Nat} (h : Frames codec (some recordSeal) buf off records g) :
    ∀ x ∈ records, x.1 < 2 ^ 64 ∧ ∃ body plain,
      recordSeal.sealer.openSealed (recordSeal.aad x.1) body = some plain ∧
        decodePlainBody codec plain = some x.2 := by
  induction h with
  | nil => exact fun x hx => absurd hx not_mem_nil
  | cons hfirst _ ih => exact forall_mem_cons.mpr ⟨parseFrame_opened hfirst, ih⟩

variable {p : Wal.RecoveredPrefix}

lemma Ideal.records_at {place : UInt64 → Place} (hsealer : recordSeal.sealer = key.sealer)
    (haad : ∀ n : UInt64, recordSeal.aad n.toNat = (place n).aad)
    (hread : recoverSealedPrefix codec (some recordSeal) buf = .ok p) :
    ∀ x ∈ p.records, ∃ n : UInt64, n.toNat = x.1 ∧ ∃ what plain, WasSealed sealings what ∧
      what.place = place n ∧ what.plaintext codec = some plain ∧
        decodePlainBody codec plain = some x.2 := by
  intro x hx
  obtain ⟨hlt, body, plain, hopen, hdecode⟩ := frames_opened (recover_eq_ok hread).1.frames x hx
  have hn : (UInt64.ofNat x.1).toNat = x.1 := UInt64.toNat_ofNat_of_lt' hlt
  rw [← hn, haad, hsealer] at hopen
  obtain ⟨what, hwritten, hwhere, hplain⟩ := h.at_place hopen
  exact ⟨UInt64.ofNat x.1, hn, what, plain, hwritten, hwhere, hplain, hdecode⟩

lemma Ideal.log_records (hread : recoverSealedPrefix codec (some key.logSeal) buf = .ok p) :
    ∀ x ∈ p.records, ∃ lsn : UInt64, lsn.toNat = x.1 ∧ WasSealed sealings (.log lsn x.2) := by
  intro x hx
  obtain ⟨lsn, hlsn, what, plain, hwritten, hwhere, hplain, hdecode⟩ :=
    h.records_at rfl (fun lsn => show _ = (Place.log lsn).aad from rfl) hread x hx
  refine ⟨lsn, hlsn, ?_⟩
  cases what with
  | log lsn record =>
    cases hwhere
    have hrecord : x.2 = record := decode_encoded codec hplain hdecode
    rw [hrecord]
    exact hwritten
  | image | page | directory | spill => cases hwhere

lemma Ideal.image_records {covered : UInt64} {body : List Byte}
    (hread : readImageRecords codec (some key) covered body = .ok records) :
    ∀ x ∈ records, ∃ n : UInt64, n.toNat = x.1 ∧ WasSealed sealings (.image covered n x.2) := by
  intro x hx
  unfold readImageRecords at hread
  split at hread
  · cases hread
  rename_i p hp
  split at hread
  · cases hread
  cases hread
  obtain ⟨n, hn, what, plain, hwritten, hwhere, hplain, hdecode⟩ :=
    h.records_at rfl (fun n => show _ = (Place.image covered n).aad from rfl) hp x hx
  refine ⟨n, hn, ?_⟩
  cases what with
  | image covered n record =>
    cases hwhere
    have hrecord : x.2 = record := decode_encoded codec hplain hdecode
    rw [hrecord]
    exact hwritten
  | log | page | directory | spill => cases hwhere

omit h

/-! ## Numbers at their offsets -/

/-- A number that lies behind `a` is read in what follows `a`. -/
lemma numberAt_skip {a b : List Byte} {start n : Nat} (ha : a.length ≤ start) :
    numberAt (a ++ b) start n = numberAt b (start - a.length) n := by
  unfold numberAt
  rw [drop_append, drop_eq_nil_of_le ha, nil_append]

lemma numberAt_here (width : Nat) {v : Nat} (hv : v < 256 ^ width) (rest : List Byte) :
    numberAt (leBytes width v ++ rest) 0 width = v := by
  unfold numberAt
  rw [drop_zero, take_left' (length_leBytes width v), ofLe_leBytes_of_lt hv]

lemma leBytes_ofLe (bytes : List Byte) : leBytes bytes.length (ofLe bytes) = bytes := by
  induction bytes with
  | nil => rfl
  | cons b bytes ih =>
    have hmod : (b.val + 256 * ofLe bytes) % 256 = b.val := by omega
    have hdiv : (b.val + 256 * ofLe bytes) / 256 = ofLe bytes := by omega
    show ⟨(b.val + 256 * ofLe bytes) % 256, _⟩ ::
      leBytes bytes.length ((b.val + 256 * ofLe bytes) / 256) = b :: bytes
    simp only [hmod, hdiv, ih]

namespace SealedDirectory

variable (d : SealedDirectory)

/-- The header, one field after the other. -/
lemma header_eq : d.header = ckptMagic ++ (leBytes 4 ckptVersionSealed ++
    (leBytes 8 d.covered.toNat ++ (leBytes 8 d.pageCount.toNat ++ (leBytes 8 d.entries.length ++
      (leBytes 8 d.names.length ++ leBytes 4 (crc32 (headerFields ckptVersionSealed d.covered
        d.pageCount d.entries.length d.names.length))))))) := by
  simp only [header, ckptV3HeaderBytes, headerFields, u64Bytes, append_assoc]

lemma header_covered : u64At d.header 8 = d.covered := by
  have hat : numberAt d.header 8 8 = d.covered.toNat := by
    simp [header_eq, numberAt_skip, numberAt_here 8 d.covered.toNat_lt]
  rw [u64At, hat, UInt64.ofNat_toNat]

lemma header_pageCount : u64At d.header 16 = d.pageCount := by
  have hat : numberAt d.header 16 8 = d.pageCount.toNat := by
    simp [header_eq, numberAt_skip, numberAt_here 8 d.pageCount.toNat_lt]
  rw [u64At, hat, UInt64.ofNat_toNat]

lemma header_live : (u64At d.header 24).toNat = d.entries.length := by
  have hat : numberAt d.header 24 8 = d.entries.length := by
    simp [header_eq, numberAt_skip, numberAt_here 8 d.entries_lt]
  rw [u64At, hat]
  exact UInt64.toNat_ofNat_of_lt' d.entries_lt

lemma header_segments : (u64At d.header 32).toNat = d.names.length := by
  have hat : numberAt d.header 32 8 = d.names.length := by
    simp [header_eq, numberAt_skip, numberAt_here 8 d.names_lt]
  rw [u64At, hat]
  exact UInt64.toNat_ofNat_of_lt' d.names_lt

end SealedDirectory

variable {rest : List Byte}

lemma readOr_ok {what : String} {n : Nat} {bytes : List Byte}
    (h : readOr what n buf = .ok (bytes, rest)) : bytes.length = n ∧ bytes ++ rest = buf := by
  unfold readOr readExact at h
  split at h
  · cases h
  rename_i read hread
  cases h
  split at hread
  · rename_i hle
    cases hread
    exact ⟨length_take_of_le hle, take_append_drop n buf⟩
  · cases hread

lemma refuseIf_bind_ok {α : Type} {bad : Bool} {what : String} {next : Unit → Except ImageError α}
    {result : α} (h : (refuseIf bad what >>= next) = .ok result) :
    bad = false ∧ next () = .ok result := by
  cases bad with
  | true => cases h
  | false => exact ⟨rfl, h⟩

variable {names : List (List Byte)}

lemma readNames_spec {n : Nat} {raw : List Byte} (h : readNames n buf = .ok (names, raw, rest)) :
    names.length = n ∧ raw = names.flatMap nameBytes ∧ ∀ name ∈ names, name.length < 2 ^ 16 := by
  induction n generalizing buf names raw rest with
  | zero =>
    cases h
    exact ⟨rfl, rfl, fun _ hmem => absurd hmem not_mem_nil⟩
  | succ n ih =>
    obtain ⟨⟨lenBytes, buf1⟩, hlen, h⟩ := bind_eq_ok.mp h
    obtain ⟨⟨name, buf2⟩, hname, h⟩ := bind_eq_ok.mp h
    obtain ⟨-, h⟩ := refuseIf_bind_ok h
    obtain ⟨⟨names', raw', rest'⟩, hrest, h⟩ := bind_eq_ok.mp h
    cases h
    obtain ⟨hcount, hraw, hall⟩ := ih hrest
    have hwidth : lenBytes.length = 2 := (readOr_ok hlen).1
    have hlength : name.length = ofLe lenBytes := (readOr_ok hname).1
    have hback := leBytes_ofLe lenBytes
    have hlt := ofLe_lt lenBytes
    rw [hwidth, ← hlength] at hback hlt
    refine ⟨congrArg (· + 1) hcount, ?_, forall_mem_cons.mpr ⟨hlt, hall⟩⟩
    rw [flatMap_cons, nameBytes, hback, hraw]

lemma names_of_raw {names' : List (List Byte)} (hlength : names.length = names'.length)
    (hlt : ∀ name ∈ names, name.length < 2 ^ 16) (hlt' : ∀ name ∈ names', name.length < 2 ^ 16)
    (h : names.flatMap nameBytes = names'.flatMap nameBytes) : names = names' := by
  induction names generalizing names' with
  | nil => exact (length_eq_zero_iff.mp hlength.symm).symm
  | cons name names ih =>
    cases names' with
    | nil => cases hlength
    | cons name' names' =>
      obtain ⟨hname, hnames⟩ := forall_mem_cons.mp hlt
      obtain ⟨hname', hnames'⟩ := forall_mem_cons.mp hlt'
      simp only [flatMap_cons, nameBytes, append_assoc] at h
      obtain ⟨hlen, hrest⟩ := append_inj h (by simp)
      have hsame : name.length = name'.length := (leBytes_eq_iff hname hname').mp hlen
      obtain ⟨rfl, htail⟩ := append_inj hrest hsame
      rw [ih (Nat.succ.inj hlength) hnames hnames' htail]

@[simp] lemma DirectoryEntry.length_bytes (e : DirectoryEntry) :
    e.bytes.length = ckptV3EntryLen := by
  simp [DirectoryEntry.bytes, ckptV3EntryLen]

lemma parseEntry_bytes (e : DirectoryEntry) : parseEntry e.bytes = e := by
  obtain ⟨id, ⟨segment, slot⟩, checksum⟩ := e
  have hchecksum := numberAt_here 4 checksum.toNat_lt []
  rw [append_nil] at hchecksum
  simp [parseEntry, DirectoryEntry.bytes, u64At, u32At, u64Bytes, u32Bytes, numberAt_skip,
    numberAt_here 8 id.toNat_lt, numberAt_here 4 segment.toNat_lt, numberAt_here 4 slot.toNat_lt, hchecksum]

variable {read : List DirectoryEntry}

lemma parseEntries_bytes {segments : Nat} {entries : List DirectoryEntry}
    (h : parseEntries segments entries.length (entries.flatMap DirectoryEntry.bytes) = .ok read) :
    read = entries := by
  induction entries generalizing read with
  | nil =>
    cases h
    rfl
  | cons e entries ih =>
    rw [length_cons, flatMap_cons] at h
    unfold parseEntries at h
    rw [take_left' e.length_bytes, drop_left' e.length_bytes, parseEntry_bytes] at h
    obtain ⟨-, h⟩ := refuseIf_bind_ok h
    obtain ⟨rest, hrest, h⟩ := bind_eq_ok.mp h
    cases h
    rw [ih hrest]

lemma SealedDirectory.length_entryBytes (d : SealedDirectory) :
    d.entryBytes.length = d.entries.length * ckptV3EntryLen := by
  have hmap : d.entries.map (fun e => e.bytes.length) = d.entries.map (fun _ => ckptV3EntryLen) :=
    map_congr_left fun e _ => e.length_bytes
  rw [SealedDirectory.entryBytes, length_flatMap, hmap, map_const', sum_replicate, smul_eq_mul]

lemma SealedDirectory.parse_entryBytes (d : SealedDirectory) {segments : Nat}
    (h : parseDirectoryEntries d.entryBytes segments = .ok read) : read = d.entries := by
  unfold parseDirectoryEntries at h
  rw [d.length_entryBytes, Nat.mul_div_cancel _ (by decide)] at h
  exact parseEntries_bytes h

lemma Ideal.directory (h : Ideal codec key.sealer sealings) {header : List Byte} {fileLen : Nat}
    {live segments : UInt64} {pages : ImagePages} (hheader : header.length = ckptV3HeaderLen)
    (hread : readSealedDirectory key header fileLen buf (u64At header 16) live segments =
      .ok (pages, rest)) :
    ∃ d, WasSealed sealings (.directory d) ∧ d.header = header ∧ pages = d.pages := by
  obtain ⟨⟨names, rawNames, buf1⟩, hnames, hread⟩ := bind_eq_ok.mp hread
  obtain ⟨-, hread⟩ := refuseIf_bind_ok hread
  obtain ⟨⟨lenBytes, buf2⟩, -, hread⟩ := bind_eq_ok.mp hread
  obtain ⟨-, hread⟩ := refuseIf_bind_ok hread
  obtain ⟨⟨sealedDirectory, buf3⟩, -, hread⟩ := bind_eq_ok.mp hread
  dsimp only at hread
  split at hread
  · cases hread
  rename_i raw hraw
  obtain ⟨entries, hentries, hread⟩ := bind_eq_ok.mp hread
  obtain ⟨-, hread⟩ := refuseIf_bind_ok hread
  cases hread
  obtain ⟨what, hwritten, hwhere, hplain⟩ :=
    h.at_place (p := .directory header hheader rawNames) hraw
  cases what with
  | directory d =>
    obtain ⟨rfl, rfl⟩ := hwhere
    cases Option.some.inj hplain
    refine ⟨d, hwritten, rfl, ?_⟩
    -- the names read are the names written, and so are the entries
    obtain ⟨⟨names', raw', buf'⟩, hnames', hnames⟩ := bind_eq_ok.mp hnames
    obtain ⟨_, -, hnames⟩ := bind_eq_ok.mp hnames
    obtain ⟨-, hnames⟩ := refuseIf_bind_ok hnames
    cases hnames
    obtain ⟨-, hnames'⟩ := refuseIf_bind_ok hnames'
    obtain ⟨hcount, hraw', hlt⟩ := readNames_spec hnames'
    rw [d.header_segments] at hcount
    have hsame : names = d.names :=
      names_of_raw hcount hlt d.name_lt hraw'.symm
    rw [d.parse_entryBytes hentries, hsame, d.header_pageCount]
    rfl
  | log | image | page | spill => cases hwhere

/-! ## A sealed image read back -/

/-- The head of an image as written: header, names and their checksum, sealed directory. -/
def SealedDirectory.bytes (d : SealedDirectory) (sealedDirectory : List Byte) : List Byte :=
  d.header ++ (d.rawNames ++ (leBytes 4 (crc32 d.rawNames) ++
    (leBytes 8 sealedDirectory.length ++ sealedDirectory)))

/-- What the writer of an image makes sure of. -/
structure SealedDirectory.Ok (d : SealedDirectory) : Prop where
  names : ∀ name ∈ d.names, isSegmentName name = true
  segments : ∀ entry ∈ d.entries, entry.location.segment.toNat < d.names.length
  ordered : misordered (d.entries.map (·.id)) d.pageCount = false

lemma readOr_append (what : String) {a : List Byte} {n : Nat} (ha : a.length = n) (b : List Byte) :
    readOr what n (a ++ b) = .ok (a, b) := by
  have hle : n ≤ (a ++ b).length := by
    rw [length_append]
    omega
  unfold readOr readExact
  rw [if_pos hle, take_left' ha, drop_left' ha]

lemma refuseIf_ok {bad : Bool} (hbad : bad = false) (what : String) : refuseIf bad what = .ok () := by
  rw [hbad]
  rfl

lemma readNames_bytes (hnames : ∀ name ∈ names, isSegmentName name = true)
    (hlt : ∀ name ∈ names, name.length < 2 ^ 16) (rest : List Byte) :
    readNames names.length (names.flatMap nameBytes ++ rest) =
      .ok (names, names.flatMap nameBytes, rest) := by
  induction names with
  | nil => rfl
  | cons name names ih =>
    obtain ⟨hname, hnames⟩ := forall_mem_cons.mp hnames
    obtain ⟨hfirst, hlt⟩ := forall_mem_cons.mp hlt
    have hlength : name.length = ofLe (leBytes 2 name.length) := (ofLe_leBytes_of_lt hfirst).symm
    simp only [flatMap_cons, nameBytes, append_assoc]
    refine bind_eq_ok.mpr ⟨_, readOr_append _ (length_leBytes ..) _, ?_⟩
    refine bind_eq_ok.mpr ⟨_, readOr_append _ hlength _, ?_⟩
    refine bind_eq_ok.mpr ⟨_, refuseIf_ok (by rw [hname]; rfl) _, ?_⟩
    refine bind_eq_ok.mpr ⟨_, ih hnames hlt, ?_⟩
    rfl

lemma parseEntries_ok {segments : Nat} {entries : List DirectoryEntry}
    (hsegments : ∀ entry ∈ entries, entry.location.segment.toNat < segments) :
    parseEntries segments entries.length (entries.flatMap DirectoryEntry.bytes) = .ok entries := by
  induction entries with
  | nil => rfl
  | cons e entries ih =>
    obtain ⟨hfirst, hrest⟩ := forall_mem_cons.mp hsegments
    rw [length_cons, flatMap_cons]
    unfold parseEntries
    rw [take_left' e.length_bytes, drop_left' e.length_bytes, parseEntry_bytes]
    refine bind_eq_ok.mpr ⟨_, refuseIf_ok (decide_eq_false (not_le.mpr hfirst)) _, ?_⟩
    exact bind_eq_ok.mpr ⟨_, ih hrest, rfl⟩

lemma length_flatMap_nameBytes (names : List (List Byte)) :
    names.length * 2 ≤ (names.flatMap nameBytes).length := by
  induction names with
  | nil => exact Nat.zero_le _
  | cons name names ih =>
    rw [flatMap_cons, length_append, nameBytes, length_append, length_leBytes, length_cons]
    omega

section

variable (d : SealedDirectory) (hok : d.Ok) {sealedDirectory : List Byte}
  (hopen : key.sealer.openSealed (sealedDirectoryAad d.header d.rawNames) sealedDirectory =
    some d.entryBytes)
  (hlength : sealedDirectory.length = d.entries.length * ckptV3EntryLen + sealOverhead)
  (hfits : sealedDirectory.length < 2 ^ 64)

include hok hopen hlength hfits

/-- What the writer lays out behind the names is what the reader opens. -/
lemma SealedDirectory.read_directory {fileLen : Nat} {segments : UInt64}
    (hfile : (d.bytes sealedDirectory).length ≤ fileLen) (hsegments : segments.toNat = d.names.length)
    (body : List Byte) :
    readSealedDirectory key d.header fileLen (d.rawNames ++ (leBytes 4 (crc32 d.rawNames) ++
        (leBytes 8 sealedDirectory.length ++ (sealedDirectory ++ body)))) d.pageCount
      (u64At d.header 24) segments = .ok (d.pages, body) := by
  have hnamesLe := length_flatMap_nameBytes d.names
  simp only [SealedDirectory.bytes, length_append, length_leBytes] at hfile
  have hnames : readSealedNames d.header fileLen (d.rawNames ++ (leBytes 4 (crc32 d.rawNames) ++
      (leBytes 8 sealedDirectory.length ++ (sealedDirectory ++ body)))) =
        .ok (d.names, d.rawNames, leBytes 8 sealedDirectory.length ++ (sealedDirectory ++ body)) := by
    unfold readSealedNames readSegmentNames
    rw [d.header_segments]
    have hcount : decide (fileLen < d.names.length * 2) = false :=
      decide_eq_false (not_lt.mpr (by unfold SealedDirectory.rawNames at hfile; omega))
    refine bind_eq_ok.mpr ⟨_, bind_eq_ok.mpr ⟨_, refuseIf_ok hcount _,
      readNames_bytes hok.names d.name_lt _⟩, ?_⟩
    refine bind_eq_ok.mpr ⟨_, readOr_append _ (length_leBytes ..) _, ?_⟩
    refine bind_eq_ok.mpr ⟨_, refuseIf_ok ?_ _, rfl⟩
    rw [ofLe_leBytes_of_lt (crc32_lt _)]
    exact bne_self_eq_false _
  have hentries : parseDirectoryEntries d.entryBytes d.names.length = .ok d.entries := by
    unfold parseDirectoryEntries
    rw [d.length_entryBytes, Nat.mul_div_cancel _ (by decide)]
    exact parseEntries_ok hok.segments
  have hexpected : (u64At d.header 24).toNat * ckptV3EntryLen + sealOverhead =
      sealedDirectory.length := by rw [d.header_live, hlength]
  unfold readSealedDirectory
  refine bind_eq_ok.mpr ⟨_, hnames, ?_⟩
  refine bind_eq_ok.mpr ⟨_, refuseIf_ok (by rw [hsegments]; exact bne_self_eq_false _) _, ?_⟩
  refine bind_eq_ok.mpr ⟨_, readOr_append _ (length_leBytes ..) _, ?_⟩
  simp only [hexpected]
  refine bind_eq_ok.mpr ⟨_, refuseIf_ok ?_ _, ?_⟩
  · rw [ofLe_leBytes_of_lt hfits, bne_self_eq_false, Bool.false_or]
    exact decide_eq_false (not_lt.mpr (by omega))
  refine bind_eq_ok.mpr ⟨_, readOr_append _ rfl _, ?_⟩
  dsimp only
  rw [hopen]
  refine bind_eq_ok.mpr ⟨_, hentries, ?_⟩
  exact bind_eq_ok.mpr ⟨_, refuseIf_ok hok.ordered _, rfl⟩

/-- **A sealed image is read back as it was written.** -/
theorem SealedDirectory.read_image {body : List Byte}
    (hrecords : readImageRecords codec (some key) d.covered body = .ok records) :
    readCheckpointImage codec (some key) (some (d.bytes sealedDirectory ++ body)) =
      .ok ⟨records.map (·.2), d.covered, some d.pages⟩ := by
  let fields := headerFields ckptVersionSealed d.covered d.pageCount d.entries.length d.names.length
  let tail := d.rawNames ++ (leBytes 4 (crc32 d.rawNames) ++ (leBytes 8 sealedDirectory.length ++
    (sealedDirectory ++ body)))
  have hfields : fields.length = 40 := by simp [fields, headerFields]
  have hfile : d.bytes sealedDirectory ++ body = d.header ++ tail := by
    simp only [SealedDirectory.bytes, append_assoc, tail]
  obtain ⟨rest, hmagic⟩ : ∃ rest, d.header ++ tail = ckptMagic ++ leBytes 4 ckptVersionSealed ++ rest := by
    rw [header_eq]
    simp only [append_assoc]
    exact ⟨_, rfl⟩
  have hpages : readPages (some key) ckptVersionSealed (d.header ++ tail) d.header tail =
      .ok (some d.pages, body) := by
    unfold readPages
    rw [if_neg (by decide), if_neg (by decide), if_pos rfl, d.header_pageCount]
    refine bind_eq_ok.mpr ⟨_, d.read_directory hok hopen hlength hfits ?_ d.header_segments body, rfl⟩
    rw [← hfile, length_append]
    exact Nat.le_add_right ..
  rw [hfile]
  refine bind_eq_ok.mpr ⟨(ckptMagic ++ leBytes 4 ckptVersionSealed, rest), ?_, ?_⟩
  · rw [hmagic]
    exact readOr_append _ (by simp) _
  refine bind_eq_ok.mpr ⟨_, refuseIf_ok (by rfl) _, bind_eq_ok.mpr ⟨40, rfl, ?_⟩⟩
  refine bind_eq_ok.mpr ⟨(), rfl, bind_eq_ok.mpr ⟨_, readOr_append _ d.length_header _, ?_⟩⟩
  refine bind_eq_ok.mpr ⟨_, refuseIf_ok ?_ _, ?_⟩
  · have hsplit : d.header = fields ++ leBytes 4 (crc32 fields) := rfl
    rw [hsplit, take_left' hfields, drop_left' hfields, ofLe_leBytes_of_lt (crc32_lt _)]
    exact bne_self_eq_false _
  dsimp only
  rw [d.header_covered]
  exact bind_eq_ok.mpr ⟨_, hpages, bind_eq_ok.mpr ⟨_, hrecords, rfl⟩⟩

end

end NusaDb.Seal
