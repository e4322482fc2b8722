/-
This file models log records, their storage types and the configuration of the RLOG writer.
-/

import Ravel.Construction.Logs.CanonicalAttrs

namespace Ravel.Logs

/-- The third-party BLAKE3 digest of a byte run. -/
abbrev Blake3 := List UInt8 → Vector UInt8 32

/-- The type of a dynamic attribute column. -/
inductive FieldType where
  | str
  | i64
  | f64
  | bool
  | bytes
  deriving DecidableEq, Repr

namespace FieldType

def toU8 : FieldType → Nat
  | str => 1
  | i64 => 2
  | f64 => 3
  | bool => 4
  | bytes => 5

/-- The types that carry a NumStat. -/
def isNumeric : FieldType → Bool
  | i64 => true
  | f64 => true
  | bool => true
  | _ => false

end FieldType

/-- An attribute value resolved to its storage type. -/
inductive ColumnValue where
  | i64 (value : Int64)
  | f64 (bits : UInt64)
  | bool (value : Bool)
  | str (value : List UInt8)
  | bytes (value : List UInt8)
  deriving DecidableEq, Repr

/-- A list or map is stored as its canonical bytes. -/
def resolveValue : AttrValue → FieldType × ColumnValue
  | .str value => (.str, .str (utf8Bytes value))
  | .i64 value => (.i64, .i64 value)
  | .f64 bits => (.f64, .f64 bits)
  | .bool value => (.bool, .bool value)
  | .bytes value => (.bytes, .bytes value)
  | .list items => (.bytes, .bytes (canonicalValueBytes (.list items)))
  | .map entries => (.bytes, .bytes (canonicalValueBytes (.map entries)))

def hexDigit (value : Nat) : Char :=
  "0123456789abcdef".toList.getD value '0'

/-- The lowercase hexadecimal text of bytes. -/
def hexLower (bytes : List UInt8) : String :=
  String.ofList (bytes.flatMap fun byte => [hexDigit (byte.toNat / 16), hexDigit (byte.toNat % 16)])

/-- The 128-bit identity of a log stream. -/
structure LogStreamId where
  bytes : Vector UInt8 16
  deriving DecidableEq, Repr

/-- A log record as handed to the writer. -/
structure RlogRecord extends LogRecord where
  streamId : LogStreamId
  observedTsNs : Int
  severityNum : UInt8
  severityText : String
  body : String
  traceId : Option (Vector UInt8 16)
  spanId : Option (Vector UInt8 8)
  flags : UInt32

/-- The key types of the KEY_IDX section. -/
inductive KeyType where
  | id16
  | i64
  | str
  | bytes
  deriving DecidableEq, Repr

/-- The debug text of a key type. -/
def KeyType.debug : KeyType → String
  | .id16 => "Id16"
  | .i64 => "I64"
  | .str => "Str"
  | .bytes => "Bytes"

abbrev Key8 := List UInt8

/-- The eight big-endian bytes of a value. -/
def toBeBytes (value : UInt64) : List UInt8 :=
  (toLeBytes value).reverse

def key8I64 (value : Int64) : Key8 :=
  toBeBytes (value.toUInt64 ^^^ ((1 : UInt64) <<< 63))

def key8Bytes (blake3 : Blake3) (value : List UInt8) : Key8 :=
  (blake3 value).toList.take 8

/-- The key of a merged-view value of the field's declared type. -/
def key8Of (blake3 : Blake3) : ColumnValue → Option Key8
  | .i64 value => some (key8I64 value)
  | .str value => some (key8Bytes blake3 value)
  | .bytes value => some (key8Bytes blake3 value)
  | .f64 _ => none
  | .bool _ => none

/-- The string columns that BLOOM covers besides `body` and `severity_text`. -/
inductive BloomScope where
  | all
  | undeclared (declared : List String)
  | text
  deriving DecidableEq, Repr

/-- A sort descriptor resolved for one build. -/
structure ClusterOrder where
  bucketNs : Int
  keys : List (String × FieldType)
  deriving DecidableEq, Repr

structure RlogConfig where
  blockTargetRecords : Nat
  blockMaxBytes : Nat
  maxDynamicColumns : Nat
  bloomSeed : UInt64
  postingsMaxDistinct : Nat
  chunkOrder : List String
  deriving DecidableEq, Repr

/-- A length that an allocation of the platform can have. -/
def addressable (length : Nat) : Prop :=
  length < 2 ^ 63

instance (length : Nat) : Decidable (addressable length) :=
  inferInstanceAs (Decidable (length < 2 ^ 63))

/-- The buffered records and the settings of one object.
The canonical bytes of a record's attributes fit in memory. -/
structure RlogWriter where
  cfg : RlogConfig
  records : List RlogRecord
  indexedFields : List String
  keyIndexFields : List (String × KeyType)
  bloomScope : BloomScope
  cluster : Option ClusterOrder
  fits : ∀ record ∈ records, addressable (canonicalAttrBytes record.attrs).length

end Ravel.Logs
