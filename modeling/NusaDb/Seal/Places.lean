import NusaDb.Pager.Spill

/-!
# Where sealed data belongs

Everything the engine seals is bound to its place by additional authenticated data. The first byte
tells the kinds apart and the fixed-width fields come before the names, so the data of two places
never agree (`Place.aad_injective`).
-/

namespace NusaDb.Seal

open List NusaDb.Wal NusaDb.Pager

lemma leBytes_eq_iff {width a b : Nat} (ha : a < 256 ^ width) (hb : b < 256 ^ width) :
    leBytes width a = leBytes width b ↔ a = b := by
  constructor
  · intro h
    have hof := congrArg ofLe h
    rwa [ofLe_leBytes_of_lt ha, ofLe_leBytes_of_lt hb] at hof
  · rintro rfl
    rfl

lemma ofLe_lt (bytes : List Byte) : ofLe bytes < 256 ^ bytes.length := by
  induction bytes with
  | nil => exact Nat.one_pos
  | cons b bytes ih =>
    rw [length_cons, Nat.pow_succ]
    show b.val + 256 * ofLe bytes < _
    omega

def u32Bytes (v : UInt32) : List Byte := leBytes 4 v.toNat

lemma u64Bytes_injective {a b : UInt64} (h : u64Bytes a = u64Bytes b) : a = b :=
  UInt64.toNat_inj.mp ((leBytes_eq_iff a.toNat_lt b.toNat_lt).mp h)

lemma u32Bytes_injective {a b : UInt32} (h : u32Bytes a = u32Bytes b) : a = b :=
  UInt32.toNat_inj.mp ((leBytes_eq_iff a.toNat_lt b.toNat_lt).mp h)

@[simp] lemma length_u64Bytes (v : UInt64) : (u64Bytes v).length = 8 := length_leBytes 8 _

@[simp] lemma length_u32Bytes (v : UInt32) : (u32Bytes v).length = 4 := length_leBytes 4 _

def domainLog : Byte := 1

def domainImage : Byte := 2

def domainPage : Byte := 3

def domainDirectory : Byte := 4

def domainSpill : Byte := 5

def ckptV3HeaderLen : Nat := 44

inductive Place where
  | log (lsn : UInt64)
  /-- Record `n` of the image covering `covered`. -/
  | image (covered n : UInt64)
  | page (id : UInt64) (slot : UInt32) (segment : List Byte)
  /-- The page directory of the image with this header and this raw segment name table. -/
  | directory (header : List Byte) (header_length : header.length = ckptV3HeaderLen)
      (names : List Byte)
  | spill (id generation : UInt64)

def pageAad (id : UInt64) (slot : UInt32) (segment : List Byte) : List Byte :=
  domainPage :: (u64Bytes id ++ (u32Bytes slot ++ segment))

def sealedDirectoryAad (header names : List Byte) : List Byte :=
  domainDirectory :: (header ++ names)

structure DataKey where
  sealer : Sealer

namespace DataKey

def logSeal (key : DataKey) : RecordSeal := ⟨key.sealer, domainLog, 0⟩

def imageSeal (key : DataKey) (covered : UInt64) : RecordSeal := ⟨key.sealer, domainImage, covered⟩

def openPage (key : DataKey) (id : UInt64) (slot : UInt32) (segment sealedPage : List Byte) :
    Option Page :=
  (key.sealer.openSealed (pageAad id slot segment) sealedPage).bind Page.ofBytes?

end DataKey

namespace Place

def aad : Place → List Byte
  | log lsn => domainLog :: (u64Bytes 0 ++ u64Bytes lsn)
  | image covered n => domainImage :: (u64Bytes covered ++ u64Bytes n)
  | page id slot segment => pageAad id slot segment
  | directory header _ names => sealedDirectoryAad header names
  | spill id generation => domainSpill :: (u64Bytes id ++ u64Bytes generation)

def domain : Place → Byte
  | log _ => domainLog
  | image _ _ => domainImage
  | page _ _ _ => domainPage
  | directory _ _ _ => domainDirectory
  | spill _ _ => domainSpill

lemma aad_head (p : Place) : p.aad.head? = some p.domain := by
  cases p <;> rfl

/-- **Two places never share their additional data.** -/
theorem aad_injective {p q : Place} (h : p.aad = q.aad) : p = q := by
  have hdomain : some p.domain = some q.domain := by
    rw [← aad_head, ← aad_head, h]
  have hkind := Option.some.inj hdomain
  -- places of different kinds differ in the first byte
  cases p <;> cases q <;> first | exact absurd hkind (by simp only [domain]; decide) | clear hkind hdomain
  case log.log a b =>
    obtain ⟨-, hlsn⟩ := append_inj (cons.inj h).2 (by simp)
    rw [u64Bytes_injective hlsn]
  case image.image =>
    obtain ⟨hcovered, hn⟩ := append_inj (cons.inj h).2 (by simp)
    rw [u64Bytes_injective hcovered, u64Bytes_injective hn]
  case page.page =>
    obtain ⟨hid, hrest⟩ := append_inj (cons.inj h).2 (by simp)
    obtain ⟨hslot, hsegment⟩ := append_inj hrest (by simp)
    rw [u64Bytes_injective hid, u32Bytes_injective hslot, hsegment]
  case directory.directory header hlength names header' hlength' names' =>
    obtain ⟨hheader, hnames⟩ := append_inj (cons.inj h).2 (hlength.trans hlength'.symm)
    subst hheader hnames
    rfl
  case spill.spill =>
    obtain ⟨hid, hgeneration⟩ := append_inj (cons.inj h).2 (by simp)
    rw [u64Bytes_injective hid, u64Bytes_injective hgeneration]

end Place

end NusaDb.Seal
