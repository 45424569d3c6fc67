import NusaDb.Lib.LittleEndian
import NusaDb.Btree.Mvcc

/-!
# Log records

The kinds of record a log holds and the encoding of each one's payload. Reading a payload goes
through a cursor, here the bytes that are still to be read.
-/

namespace NusaDb.Wal

instance byteNeZero : NeZero 256 := ⟨by decide⟩

inductive WalRecord where
  | beginTxn (txn : UInt64)
  | commitTxn (txn unixMs : UInt64)
  | abortTxn (txn : UInt64)
  | pageUpdate (txn page : UInt64) (offset : UInt16) (image : List Byte)
  | fullPageWrite (txn page : UInt64) (image : List Byte)
  | checkpoint (lsn : UInt64)
  | put (key value : List Byte)
  | delete (key : List Byte)
  deriving DecidableEq, Repr

inductive Error where
  | other (message : String)
  | sink
  /-- A counter would pass the end of its type: the process stops. -/
  | overflow
  deriving DecidableEq, Repr

def pushLenPrefixed (buf bytes : List Byte) : Except Error (List Byte) :=
  if bytes.length < 2 ^ 32 then .ok (buf ++ leBytes 4 bytes.length ++ bytes)
  else .error (.other "WAL record field exceeds 4 GiB")

def u64Bytes (v : UInt64) : List Byte := leBytes 8 v.toNat

namespace WalRecord

def encode : WalRecord → Except Error (List Byte)
  | .beginTxn txn => .ok (0 :: u64Bytes txn)
  | .commitTxn txn unixMs => .ok (1 :: u64Bytes txn ++ u64Bytes unixMs)
  | .abortTxn txn => .ok (2 :: u64Bytes txn)
  | .pageUpdate txn page offset image =>
    pushLenPrefixed (3 :: u64Bytes txn ++ u64Bytes page ++ leBytes 2 offset.toNat) image
  | .fullPageWrite txn page image => pushLenPrefixed (4 :: u64Bytes txn ++ u64Bytes page) image
  | .checkpoint lsn => .ok (5 :: u64Bytes lsn)
  | .put key value => do
    let buf ← pushLenPrefixed [6] key
    pushLenPrefixed buf value
  | .delete key => pushLenPrefixed [7] key

end WalRecord

abbrev Cursor := List Byte

namespace Cursor

def take (n : Nat) (cur : Cursor) : Option (List Byte × Cursor) :=
  if n ≤ cur.length then some (List.take n cur, List.drop n cur) else none

def le (width : Nat) (cur : Cursor) : Option (Nat × Cursor) :=
  (Cursor.take width cur).map fun p => (ofLe p.1, p.2)

def u8 : Cursor → Option (Byte × Cursor)
  | [] => none
  | b :: cur => some (b, cur)

def u16 (cur : Cursor) : Option (UInt16 × Cursor) :=
  (Cursor.le 2 cur).map fun p => (UInt16.ofNat p.1, p.2)

def u32 (cur : Cursor) : Option (Nat × Cursor) := Cursor.le 4 cur

def u64 (cur : Cursor) : Option (UInt64 × Cursor) :=
  (Cursor.le 8 cur).map fun p => (UInt64.ofNat p.1, p.2)

lemma take_append (bytes rest : List Byte) :
    Cursor.take bytes.length (bytes ++ rest) = some (bytes, rest) := by
  unfold Cursor.take
  rw [if_pos (by simp), List.take_left, List.drop_left]

lemma le_append {width v : Nat} (h : v < 256 ^ width) (rest : List Byte) :
    Cursor.le width (leBytes width v ++ rest) = some (v, rest) := by
  have htake := take_append (leBytes width v) rest
  rw [length_leBytes] at htake
  unfold Cursor.le
  rw [htake, Option.map_some, ofLe_leBytes_of_lt h]

lemma u16_append (v : UInt16) (rest : List Byte) :
    Cursor.u16 (leBytes 2 v.toNat ++ rest) = some (v, rest) := by
  unfold Cursor.u16
  rw [le_append (show v.toNat < 256 ^ 2 from v.toNat_lt), Option.map_some, UInt16.ofNat_toNat]

lemma u32_append {v : Nat} (h : v < 2 ^ 32) (rest : List Byte) :
    Cursor.u32 (leBytes 4 v ++ rest) = some (v, rest) :=
  le_append (show v < 256 ^ 4 from h) rest

lemma u64_append (v : UInt64) (rest : List Byte) :
    Cursor.u64 (u64Bytes v ++ rest) = some (v, rest) := by
  unfold Cursor.u64 u64Bytes
  rw [le_append (show v.toNat < 256 ^ 8 from v.toNat_lt), Option.map_some, UInt64.ofNat_toNat]

end Cursor

def Cursor.lenPrefixed (cur : Cursor) : Option (List Byte × Cursor) := do
  let (len, cur) ← Cursor.u32 cur
  Cursor.take len cur

lemma Cursor.lenPrefixed_append {bytes : List Byte} (h : bytes.length < 2 ^ 32)
    (rest : List Byte) :
    Cursor.lenPrefixed (leBytes 4 bytes.length ++ (bytes ++ rest)) = some (bytes, rest) := by
  unfold Cursor.lenPrefixed
  rw [Cursor.u32_append h]
  exact Cursor.take_append bytes rest

def WalRecord.decode (payload : List Byte) : Option WalRecord := do
  let (tag, cur) ← Cursor.u8 payload
  match tag with
  | 0 =>
    let (txn, _) ← Cursor.u64 cur
    return .beginTxn txn
  | 1 =>
    let (txn, cur) ← Cursor.u64 cur
    -- absent on records written before commits carried a time
    let unixMs := ((Cursor.u64 cur).map Prod.fst).getD 0
    return .commitTxn txn unixMs
  | 2 =>
    let (txn, _) ← Cursor.u64 cur
    return .abortTxn txn
  | 3 =>
    let (txn, cur) ← Cursor.u64 cur
    let (page, cur) ← Cursor.u64 cur
    let (offset, cur) ← Cursor.u16 cur
    let (image, _) ← Cursor.lenPrefixed cur
    return .pageUpdate txn page offset image
  | 4 =>
    let (txn, cur) ← Cursor.u64 cur
    let (page, cur) ← Cursor.u64 cur
    let (image, _) ← Cursor.lenPrefixed cur
    return .fullPageWrite txn page image
  | 5 =>
    let (lsn, _) ← Cursor.u64 cur
    return .checkpoint lsn
  | 6 =>
    let (key, cur) ← Cursor.lenPrefixed cur
    let (value, _) ← Cursor.lenPrefixed cur
    return .put key value
  | 7 =>
    let (key, _) ← Cursor.lenPrefixed cur
    return .delete key
  | _ => none

lemma pushLenPrefixed_ok {buf bytes out : List Byte} (h : pushLenPrefixed buf bytes = .ok out) :
    bytes.length < 2 ^ 32 ∧ out = buf ++ leBytes 4 bytes.length ++ bytes := by
  unfold pushLenPrefixed at h
  split at h
  case isTrue hlt => exact ⟨hlt, (Except.ok.inj h).symm⟩
  case isFalse => cases h

/-- **Round trip**: what a record is encoded as decodes to the record. -/
theorem WalRecord.decode_encode {record : WalRecord} {payload : List Byte}
    (h : record.encode = .ok payload) : WalRecord.decode payload = some record := by
  have hu64 : ∀ v : UInt64, Cursor.u64 (u64Bytes v) = some (v, []) := by
    intro v
    have happ := Cursor.u64_append v []
    rwa [List.append_nil] at happ
  have hfield : ∀ bytes : List Byte, bytes.length < 2 ^ 32 →
      Cursor.lenPrefixed (leBytes 4 bytes.length ++ bytes) = some (bytes, []) := by
    intro bytes hlt
    have happ := Cursor.lenPrefixed_append hlt []
    rwa [List.append_nil] at happ
  cases record with
  | beginTxn | abortTxn | checkpoint =>
    cases h
    simp [decode, Cursor.u8, hu64]
  | commitTxn txn unixMs =>
    cases h
    simp [decode, Cursor.u8, Cursor.u64_append, hu64]
  | pageUpdate txn page offset image =>
    obtain ⟨hlt, rfl⟩ := pushLenPrefixed_ok h
    simp [decode, Cursor.u8, Cursor.u64_append, Cursor.u16_append, hfield image hlt]
  | fullPageWrite txn page image =>
    obtain ⟨hlt, rfl⟩ := pushLenPrefixed_ok h
    simp [decode, Cursor.u8, Cursor.u64_append, hfield image hlt]
  | put key value =>
    change (pushLenPrefixed [6] key >>= fun buf => pushLenPrefixed buf value) = .ok payload at h
    cases hkey : pushLenPrefixed [6] key with
    | error err =>
      rw [hkey] at h
      cases h
    | ok buf =>
      rw [hkey] at h
      obtain ⟨hklt, rfl⟩ := pushLenPrefixed_ok hkey
      obtain ⟨hvlt, rfl⟩ := pushLenPrefixed_ok h
      simp [decode, Cursor.u8, Cursor.lenPrefixed_append hklt, hfield value hvlt]
  | delete key =>
    obtain ⟨hlt, rfl⟩ := pushLenPrefixed_ok h
    simp [decode, Cursor.u8, hfield key hlt]

end NusaDb.Wal
