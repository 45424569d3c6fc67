import NusaDb.Seal.Places
import NusaDb.Pager.PagedStore

/-!
# Reading a checkpoint image

`readCheckpointImage` reads header, page section and logical records; a database with a key reads
sealed images only. `PageFile` then reads single pages.
-/

namespace NusaDb.Seal

open NusaDb.Wal (Codec RecordSeal Sealer crc32 u64Bytes recoverSealedPrefix)
open NusaDb.Pager (Page pageSize sealOverhead badPage)

inductive ImageError where
  /-- The image is invalid, and why. -/
  | corrupt (what : String)
  /-- Written in this version by a newer release. -/
  | newer (version : Nat)
  /-- The image is sealed and no key was given. -/
  | encrypted
  deriving DecidableEq, Repr

def readExact (n : Nat) (buf : List Byte) : Option (List Byte × List Byte) :=
  if n ≤ buf.length then some (buf.take n, buf.drop n) else none

def readOr (what : String) (n : Nat) (buf : List Byte) :
    Except ImageError (List Byte × List Byte) :=
  match readExact n buf with
  | none => .error (.corrupt what)
  | some read => .ok read

def refuseIf (bad : Bool) (what : String) : Except ImageError Unit :=
  if bad then .error (.corrupt what) else .ok ()

def fullMark : List Byte := [45, 102, 117, 108, 108]

def isAsciiDigit (b : Byte) : Bool := 48 ≤ b.val && b.val ≤ 57

def isAsciiHexdigit (b : Byte) : Bool :=
  isAsciiDigit b || (97 ≤ b.val && b.val ≤ 102) || (65 ≤ b.val && b.val ≤ 70)

/-- A log position, a dash, a hex stamp, and an optional `-full` mark. -/
def isSegmentName (name : List Byte) : Bool :=
  let base := if fullMark.isSuffixOf name then name.take (name.length - 5) else name
  match base.span (· != 45) with
  | (_, []) => false
  | (position, _ :: stamp) =>
    position.length == 20 && position.all isAsciiDigit && !stamp.isEmpty && stamp.length ≤ 16 &&
      stamp.all isAsciiHexdigit

/-- The name table: the names, the bytes they were read from, and what follows. -/
def readNames : Nat → List Byte → Except ImageError (List (List Byte) × List Byte × List Byte)
  | 0, buf => .ok ([], [], buf)
  | n + 1, buf => do
    let (lenBytes, buf) ← readOr "truncated segment table" 2 buf
    let (name, buf) ← readOr "truncated segment table" (ofLe lenBytes) buf
    refuseIf (!isSegmentName name) "segment name"
    let (names, raw, rest) ← readNames n buf
    .ok (name :: names, lenBytes ++ name ++ raw, rest)

/-- `read_segment_names`: each name takes two bytes at least, so the file bounds their number. -/
def readSegmentNames (fileLen segments : Nat) (buf : List Byte) :
    Except ImageError (List (List Byte) × List Byte × List Byte) := do
  refuseIf (fileLen < segments * 2) "segment table larger than the image"
  readNames segments buf

structure Location where
  segment : UInt32
  slot : UInt32
  deriving DecidableEq, Repr

structure DirectoryEntry where
  id : UInt64
  location : Location
  checksum : UInt32
  deriving DecidableEq, Repr

def ckptV3EntryLen : Nat := 20

def DirectoryEntry.bytes (e : DirectoryEntry) : List Byte :=
  u64Bytes e.id ++ (u32Bytes e.location.segment ++ (u32Bytes e.location.slot ++ u32Bytes e.checksum))

def numberAt (bytes : List Byte) (start n : Nat) : Nat := ofLe ((bytes.drop start).take n)

def u64At (bytes : List Byte) (start : Nat) : UInt64 := UInt64.ofNat (numberAt bytes start 8)

def u32At (bytes : List Byte) (start : Nat) : UInt32 := UInt32.ofNat (numberAt bytes start 4)

def parseEntry (entry : List Byte) : DirectoryEntry where
  id := u64At entry 0
  location := ⟨u32At entry 8, u32At entry 12⟩
  checksum := u32At entry 16

/-- `parse_directory_entries` over the first `count` chunks, each naming one of `segments`
segments. -/
def parseEntries (segments : Nat) : Nat → List Byte → Except ImageError (List DirectoryEntry)
  | 0, _ => .ok []
  | count + 1, raw => do
    let entry := parseEntry (raw.take ckptV3EntryLen)
    refuseIf (segments ≤ entry.location.segment.toNat)
      "page directory names a segment the image does not list"
    let entries ← parseEntries segments count (raw.drop ckptV3EntryLen)
    .ok (entry :: entries)

def parseDirectoryEntries (raw : List Byte) (segments : Nat) :
    Except ImageError (List DirectoryEntry) :=
  parseEntries segments (raw.length / ckptV3EntryLen) raw

inductive PageLayout where
  | inline (offset : Nat)
  | segments (names : List (List Byte)) (locations : List Location)
  deriving DecidableEq, Repr

structure ImagePages where
  pageCount : UInt64
  directory : List UInt64
  checksums : List UInt32
  layout : PageLayout
  deriving DecidableEq, Repr

def ImagePages.ofEntries (pageCount : UInt64) (names : List (List Byte))
    (entries : List DirectoryEntry) : ImagePages where
  pageCount := pageCount
  directory := entries.map (·.id)
  checksums := entries.map (·.checksum)
  layout := .segments names (entries.map (·.location))

def misordered (directory : List UInt64) (pageCount : UInt64) : Bool :=
  !decide (directory.Pairwise (· < ·)) || directory.getLast?.any (pageCount ≤ ·)

/-- `read_page_section`: `file` is the whole image, `buf` what follows its header. -/
def readPageSection (file buf : List Byte) (headerLen : Nat) (pageCount live : UInt64) :
    Except ImageError (ImagePages × List Byte) := do
  let dirBytes := live.toNat * 8
  refuseIf (file.length < dirBytes) "page directory larger than the image"
  let (raw, _) ← readOr "truncated page directory" dirBytes buf
  let directory := (List.range live.toNat).map fun i => u64At raw (i * 8)
  refuseIf (misordered directory pageCount) "page directory out of order or out of range"
  let offset := headerLen + dirBytes
  let pageEnd := live.toNat * pageSize + offset
  refuseIf (file.length < pageEnd) "truncated page section"
  let tableBytes := live.toNat * 4
  let (table, rest) ← readOr "truncated page checksum table" (tableBytes + 4) (file.drop pageEnd)
  refuseIf (crc32 (raw ++ table.take tableBytes) != ofLe (table.drop tableBytes))
    "page directory checksum mismatch"
  let checksums := (List.range live.toNat).map fun i => u32At table (i * 4)
  .ok (⟨pageCount, directory, checksums, .inline offset⟩, rest)

/-- `read_segment_directory`: names and directory in the clear, under one checksum. -/
def readSegmentDirectory (fileLen : Nat) (buf : List Byte) (pageCount live segments : UInt64) :
    Except ImageError (ImagePages × List Byte) := do
  let (names, rawNames, buf) ← readSegmentNames fileLen segments.toNat buf
  let dirBytes := live.toNat * ckptV3EntryLen
  refuseIf (fileLen < dirBytes) "page directory larger than the image"
  let (raw, buf) ← readOr "truncated page directory" dirBytes buf
  let (stored, rest) ← readOr "truncated page directory" 4 buf
  refuseIf (crc32 (rawNames ++ raw) != ofLe stored) "page directory checksum mismatch"
  let entries ← parseDirectoryEntries raw names.length
  refuseIf (misordered (entries.map (·.id)) pageCount)
    "page directory out of order or out of range"
  .ok (.ofEntries pageCount names entries, rest)

/-- `read_sealed_names`: the names of a sealed image and their checksum, in the clear. -/
def readSealedNames (header : List Byte) (fileLen : Nat) (buf : List Byte) :
    Except ImageError (List (List Byte) × List Byte × List Byte) := do
  let (names, raw, buf) ← readSegmentNames fileLen (u64At header 32).toNat buf
  let (stored, rest) ← readOr "truncated segment table" 4 buf
  refuseIf (crc32 raw != ofLe stored) "segment table checksum mismatch"
  .ok (names, raw, rest)

/-- `read_sealed_directory`: the directory opens only under this header and these names. -/
def readSealedDirectory (key : DataKey) (header : List Byte) (fileLen : Nat) (buf : List Byte)
    (pageCount live segments : UInt64) : Except ImageError (ImagePages × List Byte) := do
  let (names, rawNames, buf) ← readSealedNames header fileLen buf
  refuseIf (names.length != segments.toNat) "segment table"
  let (lenBytes, buf) ← readOr "truncated page directory" 8 buf
  let expected := live.toNat * ckptV3EntryLen + sealOverhead
  refuseIf (expected != ofLe lenBytes || fileLen < expected) "page directory size"
  let (sealedDirectory, rest) ← readOr "truncated page directory" expected buf
  match key.sealer.openSealed (sealedDirectoryAad header rawNames) sealedDirectory with
  | none => .error (.corrupt
      "the page directory fails authentication: altered, or sealed under another key")
  | some raw => do
    let entries ← parseDirectoryEntries raw names.length
    refuseIf (misordered (entries.map (·.id)) pageCount)
      "page directory out of order or out of range"
    .ok (.ofEntries pageCount names entries, rest)

def ckptMagic : List Byte := [78, 67, 75, 80]

def ckptVersionLogical : Nat := 1

def ckptVersion : Nat := 2

def ckptVersionSegmented : Nat := 3

def ckptVersionSealed : Nat := 4

/-- The length of the header's checksummed part, by version; the checksum follows it. -/
def checksummedLen (version : Nat) : Except ImageError Nat :=
  if version = ckptVersionLogical then .ok 16
  else if version = ckptVersion then .ok 32
  else if version = ckptVersionSegmented ∨ version = ckptVersionSealed then .ok 40
  else if ckptVersionSealed < version then .error (.newer version)
  else .error (.corrupt "unsupported format version")

/-- An encrypted database reads sealed images only, and a sealed image needs the key. -/
def checkSealed (version : Nat) (key : Option DataKey) : Except ImageError Unit :=
  match decide (version = ckptVersionSealed), key with
  | true, none => .error .encrypted
  | false, some _ => .error (.corrupt "an encrypted database's image is not sealed")
  | _, _ => .ok ()

structure ImageContents where
  records : List Wal.WalRecord
  coveredLsn : UInt64
  pages : Option ImagePages

def readPages (key : Option DataKey) (version : Nat) (file header buf : List Byte) :
    Except ImageError (Option ImagePages × List Byte) :=
  let pageCount := u64At header 16
  let live := u64At header 24
  let segments := u64At header 32
  if version = ckptVersion then do
    let (pages, rest) ← readPageSection file buf header.length pageCount live
    .ok (some pages, rest)
  else if version = ckptVersionSegmented then do
    let (pages, rest) ← readSegmentDirectory file.length buf pageCount live segments
    .ok (some pages, rest)
  else if version = ckptVersionSealed then
    match key with
    | none => .error (.corrupt "no key")
    | some key => do
      let (pages, rest) ← readSealedDirectory key header file.length buf pageCount live segments
      .ok (some pages, rest)
  else .ok (none, buf)

/-- The logical records at the end of an image, with their numbers in it. -/
def readImageRecords (codec : Codec) (key : Option DataKey) (covered : UInt64) (body : List Byte) :
    Except ImageError (List (Nat × Wal.WalRecord)) :=
  match recoverSealedPrefix codec (key.map fun key => key.imageSeal covered) body with
  | .error hole => .error (.corrupt (if hole.forged
      then "a record fails authentication: altered, or sealed under another key"
      else "corrupt record body"))
  | .ok p =>
    if p.goodBytes ≠ body.length then
      .error (.corrupt "trailing bytes after the last valid record")
    else .ok p.records

/-- `read_checkpoint_image` of the file's bytes; without a file the image is empty. -/
def readCheckpointImage (codec : Codec) (key : Option DataKey) :
    Option (List Byte) → Except ImageError ImageContents
  | none => .ok ⟨[], 0, none⟩
  | some file => do
    let (fixed, _) ← readOr "bad magic" 8 file
    refuseIf (fixed.take 4 != ckptMagic) "bad magic"
    let version := numberAt fixed 4 4
    let checksummed ← checksummedLen version
    checkSealed version key
    let (header, buf) ← readOr "truncated header" (checksummed + 4) file
    refuseIf (crc32 (header.take checksummed) != ofLe (header.drop checksummed))
      "header checksum mismatch"
    let covered := u64At header 8
    let (pages, body) ← readPages key version file header buf
    let records ← readImageRecords codec key covered body
    .ok ⟨records.map (·.2), covered, pages⟩

structure Segment where
  /-- The segment's name; none for the pages of a single-file image. -/
  name : Option (List Byte)
  file : List Byte
  base : Nat
  slotBytes : Nat

structure PageFile where
  segments : List Segment
  pageCount : UInt64
  directory : List UInt64
  locations : List Location
  checksums : List UInt32
  key : Option DataKey

/-- `open_segments` over the segment files by name; `none` when one is missing. -/
def openSegments (names : List (List Byte)) (files : List Byte → Option (List Byte))
    (slotBytes : Nat) : Option (List Segment) :=
  names.mapM fun name => (files name).map fun file => ⟨some name, file, 0, slotBytes⟩

/-- `open_page_file`: the pages in the image itself, or in segment files. -/
def openPageFile (image : List Byte) (files : List Byte → Option (List Byte)) (pages : ImagePages)
    (key : Option DataKey) : Option PageFile :=
  match pages.layout with
  | .inline offset => some
      { segments := [⟨none, image, offset, pageSize⟩]
        pageCount := pages.pageCount
        directory := pages.directory
        locations := (List.range pages.directory.length).map fun n => ⟨0, UInt32.ofNat n⟩
        checksums := pages.checksums
        key := none }
  | .segments names locations =>
    let slotBytes := if key.isSome then pageSize + sealOverhead else pageSize
    (openSegments names files slotBytes).map fun segments =>
      { segments := segments
        pageCount := pages.pageCount
        directory := pages.directory
        locations := locations
        checksums := pages.checksums
        key := key }

def readExactAt (file : List Byte) (n start : Nat) : Except Pager.Error (List Byte) :=
  if start + n ≤ file.length then .ok ((file.drop start).take n) else .error .device

def PageFile.read (f : PageFile) (id : UInt64) : Except Pager.Error Page :=
  match f.directory.findIdx? (· == id) with
  | none => .error (badPage id.toNat)
  | some n =>
    match f.locations[n]? with
    | none => .error (badPage id.toNat)
    | some location =>
      match f.segments[location.segment.toNat]? with
      | none => .error (badPage id.toNat)
      | some segment => do
        let start := segment.base + location.slot.toNat * segment.slotBytes
        let page ← match f.key with
          | some key => do
            let sealedPage ← readExactAt segment.file (pageSize + sealOverhead) start
            match key.openPage id location.slot (segment.name.getD []) sealedPage with
            | none => .error (.invalidData (s!"nusadb-btree: page {id} in the segment fails " ++
                "authentication: it was altered, moved, or written under another key. Restore " ++
                "the database from a backup or the archive"))
            | some page => .ok page
          | none => do
            let bytes ← readExactAt segment.file pageSize start
            match Page.ofBytes? bytes with
            | none => .error .device
            | some page => .ok page
        if f.checksums[n]?.map (·.toNat) ≠ some (crc32 page.bytes) then
          .error (.invalidData (s!"nusadb-btree: page {id} of the checkpoint image fails its " ++
            "checksum; the image is damaged. Restore it from a backup or the archive"))
        else .ok page

end NusaDb.Seal
