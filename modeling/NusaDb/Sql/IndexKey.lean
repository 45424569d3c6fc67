import NusaDb.Sql.DecimalOrder

/-!
# Index keys

The remaining value types with a key form (`Scalar`), and the encoder of `executor/index_key.rs`:
one field a column, a tag byte and an order-preserving payload. The encoder refuses `INET` and
`BIT`, which the set operations name, and the types of `rest`.
-/

namespace NusaDb.Sql

/-- The variants of `ast::Value` beside booleans and numbers. A text is its UTF-8 bytes. -/
inductive Scalar (I R : Type) where
  | text (s : List UInt8)
  | json (s : List UInt8)
  | bytes (b : List UInt8)
  | date (days : Int)
  | time (micros : Int)
  | timeTz (packed : Int)
  | timestamp (micros : Int)
  | timestampTz (micros : Int)
  | uuid (b : List UInt8)
  | macaddr (b : List UInt8)
  | macaddr8 (b : List UInt8)
  | enum (ordinal : Nat)
  | inet (a : I)
  | bit (b : List Bool)
  | rest (r : R)
deriving DecidableEq, Repr

/-- What is not opened of the types: floats, addresses and the types without a key form. -/
structure Unopened (F I R : Type) where
  floatTotalCmp : F → F → Ordering
  intToFloat : Int → F
  decimalToFloat : Decimal → F
  networkCmp : I → I → Ordering
  compareRest : R → R → Ordering
  restRank : R → Nat
  floatKey : F → Option (List UInt8)

variable {F I R : Type}

namespace Unopened

variable (op : Unopened F I R)

def scalarRank : Scalar I R → Nat
  | .text _ => 5
  | .json _ => 6
  | .date _ => 7
  | .time _ => 8
  | .timestamp _ => 9
  | .timestampTz _ => 10
  | .uuid _ => 11
  | .timeTz _ => 14
  | .bytes _ => 16
  | .macaddr _ => 17
  | .inet _ => 18
  | .bit _ => 19
  | .macaddr8 _ => 21
  | .enum _ => 26
  | .rest r => op.restRank r

def compareScalar : Scalar I R → Scalar I R → Ordering
  | .text a, .text b => Ord.compare a b
  | .json a, .json b => Ord.compare a b
  | .bytes a, .bytes b => Ord.compare a b
  | .date a, .date b => Ord.compare a b
  | .time a, .time b => Ord.compare a b
  | .timeTz a, .timeTz b => Ord.compare a b
  | .timestamp a, .timestamp b => Ord.compare a b
  | .timestampTz a, .timestampTz b => Ord.compare a b
  | .uuid a, .uuid b => Ord.compare a b
  | .macaddr a, .macaddr b => Ord.compare a b
  | .macaddr8 a, .macaddr8 b => Ord.compare a b
  | .enum a, .enum b => Ord.compare a b
  | .inet a, .inet b => op.networkCmp a b
  | .bit a, .bit b => Ord.compare a b
  | .rest a, .rest b => op.compareRest a b
  | a, b => Ord.compare (op.scalarRank a) (op.scalarRank b)

def types : Types F (Scalar I R) Empty where
  floatTotalCmp := op.floatTotalCmp
  intToFloat := op.intToFloat
  decimalToFloat := op.decimalToFloat
  floatNeg := id
  compareOther := op.compareScalar
  typeRank := op.scalarRank
  castOther := fun _ _ => none
  encodeOther := fun _ _ => none

end Unopened

inductive KeyError where
  | unsupported (message : String)
  | limitExceeded (message : String)
  | invalidParameterValue (message : String)
deriving DecidableEq, Repr

def toBeBytes : Nat → Nat → List UInt8
  | 0, _ => []
  | width + 1, n => toBeBytes width (n / 256) ++ [UInt8.ofNat (n % 256)]

def flipSign (bits : Nat) (v : Int) : Nat := (v % 2 ^ bits).toNat ^^^ 2 ^ (bits - 1)

def encodeOrderedBytes : List UInt8 → List UInt8
  | [] => [0x00]
  | b :: bs => (if b = 0x00 then [0x00, 0xFF] else [b]) ++ encodeOrderedBytes bs

def decimalText (n : Nat) : List UInt8 := (Nat.toDigits 10 n).map Char.toUInt8

def numericIntDigits : Nat := 39

def numericFracDigits : Nat := Decimal.maxScale

def splitDigits (digits : List UInt8) (scale : Nat) : List UInt8 × List UInt8 :=
  if digits.length > scale then
    (digits.take (digits.length - scale), digits.drop (digits.length - scale))
  else ([], List.replicate (scale - digits.length) 48 ++ digits)

def emit (negative : Bool) (c : UInt8) : UInt8 := if negative then 57 - (c - 48) else c

def encodeNumeric (d : Decimal) : Except KeyError (List UInt8) :=
  if d.isNan then .ok (0x03 :: List.replicate (numericIntDigits + numericFracDigits) 48)
  else if d.scale > numericFracDigits then
    .error (.limitExceeded "NUMERIC scale beyond the index key limit")
  else
    let negative := decide (d.mantissa < 0)
    let (intPart, fracPart) := splitDigits (decimalText d.mantissa.natAbs) d.scale
    .ok ((if negative then 0x00 else 0x02) ::
      (List.replicate (numericIntDigits - intPart.length) 48 ++ intPart ++ fracPart ++
        List.replicate (numericFracDigits - fracPart.length) 48).map (emit negative))

def noKeyForm : KeyError :=
  .unsupported ("INTERVAL / ARRAY / VECTOR / INET / CIDR / BIT / RANGE / GEOMETRY / " ++
    "TSVECTOR / TSQUERY / XML columns cannot yet be index keys")

def encodeScalar : Scalar I R → Except KeyError (List UInt8)
  | .text s | .json s | .bytes s => .ok (encodeOrderedBytes s)
  | .date v => .ok (toBeBytes 4 (flipSign 32 v))
  | .time v | .timeTz v | .timestamp v | .timestampTz v => .ok (toBeBytes 8 (flipSign 64 v))
  | .uuid b | .macaddr b | .macaddr8 b => .ok b
  | .enum ordinal => .ok (toBeBytes 4 ordinal)
  | .inet _ | .bit _ | .rest _ => .error noKeyForm

/-- `encode_field`: a tag, then `encode_non_null`. -/
def Unopened.encodeField (op : Unopened F I R) :
    SqlValue F (Scalar I R) → Except KeyError (List UInt8)
  | .null => .ok [0x00]
  | .bool b => .ok [0x01, if b then 1 else 0]
  | .int v => .ok (0x01 :: toBeBytes 8 (flipSign 64 v))
  | .float f =>
    match op.floatKey f with
    | some bytes => .ok (0x01 :: bytes)
    | none => .error (.invalidParameterValue "NaN cannot be used as an index key")
  | .numeric d => (encodeNumeric d).map (0x01 :: ·)
  | .other s => (encodeScalar s).map (0x01 :: ·)

def Unopened.encodeIndexKey (op : Unopened F I R) :
    List (SqlValue F (Scalar I R)) → Except KeyError (List UInt8)
  | [] => .ok []
  | value :: values => do
    let field ← op.encodeField value
    let rest ← op.encodeIndexKey values
    .ok (field ++ rest)

end NusaDb.Sql
