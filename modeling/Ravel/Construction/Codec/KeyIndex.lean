/-
This file models the KEY_IDX section: the buckets that its writer fills, and the lookup that reads one of them.
-/

import Ravel.Construction.Codec.Integers
import Ravel.Library.SortedDistinct

namespace Ravel.Codec

open Library

/-- The key that an entry is indexed and probed by. -/
abbrev Key8 := Vector UInt8 8

/-- A block that holds the key. -/
structure KeyEntry where
  key8 : Key8
  block : UInt32
  deriving DecidableEq

namespace KeyEntry

/-- By the key, and then by the block. -/
instance : LE KeyEntry where
  le left right := left.key8.toList < right.key8.toList ∨ left.key8 = right.key8 ∧ left.block ≤ right.block

instance : LT KeyEntry where
  lt left right := left ≤ right ∧ ¬right ≤ left

instance : DecidableLE KeyEntry := fun left right =>
  inferInstanceAs (Decidable (left.key8.toList < right.key8.toList ∨ left.key8 = right.key8 ∧ left.block ≤ right.block))

end KeyEntry

/-- A section indexes each field under one of these. -/
inductive KeyType where
  | id16
  | i64
  | str
  | bytes
  deriving DecidableEq, Repr

def KeyType.name : KeyType → String
  | id16 => "Id16"
  | i64 => "I64"
  | str => "Str"
  | bytes => "Bytes"

def keyIdxMinBucketBits : Nat := 1

def keyIdxMaxBucketBits : Nat := 16

def keyIdxBucketMaxEntries : Nat := 2 ^ 20

def keyIdxMaxFields : Nat := 64

def keyIdxMaxNameLen : Nat := 128

def bucketMix : UInt64 := 0x9E3779B97F4A7C15

/-- The first eight bytes of an identity. -/
def key8Id16 (id : Vector UInt8 16) : Key8 :=
  Vector.ofFn fun index => id[index.val]

def bigEndian64 (bytes : List UInt8) : UInt64 :=
  bytes.foldl (fun number byte => number <<< 8 ||| byte.toUInt64) 0

/-- The bucket of a key: the highest bits of a product. -/
def mix (key8 : Key8) (bucketBits : Nat) : Nat :=
  (bigEndian64 key8.toList * bucketMix).toNat / 2 ^ (64 - bucketBits)

def bucketCount (bucketBits : Nat) : Nat :=
  2 ^ bucketBits

def keyIdxCorrupted {Value : Type} (message : String) : Except CodecError Value :=
  .error (.corrupted s!"key_idx: {message}")

def checkBucketBits (bucketBits : Nat) : Except CodecError Unit :=
  if keyIdxMinBucketBits ≤ bucketBits ∧ bucketBits ≤ keyIdxMaxBucketBits then .ok ()
  else keyIdxCorrupted s!"bucket_bits {bucketBits} outside {keyIdxMinBucketBits}..={keyIdxMaxBucketBits}"

structure KeyIdxFieldInput where
  name : String
  keyType : KeyType
  entries : List KeyEntry

/-- A field of a section, with the entries that the frame of each bucket holds. An empty bucket has no frame. -/
structure KeyIdxField where
  name : String
  keyType : KeyType
  entryCount : Nat
  frames : List (List KeyEntry)

structure KeyIdxSection where
  bucketBits : Nat
  fields : List KeyIdxField

/-- One frame, whose count the reader bounds as well. -/
def encodeFrame (entries : List KeyEntry) : Except CodecError (List KeyEntry) :=
  let count := entries.length
  if count ≤ keyIdxBucketMaxEntries then .ok entries
  else keyIdxCorrupted
    s!"writer bucket of {count} entries over KEY_IDX_BUCKET_MAX_ENTRIES {keyIdxBucketMaxEntries}"

/-- The distinct entries in their order, each bucket a run of them. -/
def bucketField (field : KeyIdxFieldInput) (bucketBits : Nat) : Except CodecError KeyIdxField := do
  let keyed := sortedDistinct field.entries
  let frames ← (List.range (bucketCount bucketBits)).mapM fun bucket =>
    encodeFrame (keyed.filter fun entry => mix entry.key8 bucketBits = bucket)
  return { name := field.name, keyType := field.keyType, entryCount := keyed.length, frames }

/-- The fields in order. Their names ascend. -/
def bucketFields (bucketBits : Nat) : Option String → List KeyIdxFieldInput → Except CodecError (List KeyIdxField)
  | _, [] => .ok []
  | previous, field :: rest => do
    let size := field.name.utf8ByteSize
    if size = 0 ∨ keyIdxMaxNameLen < size then
      keyIdxCorrupted s!"writer field name of {size} bytes, outside 1..={keyIdxMaxNameLen}"
    else if previous.any fun last => decide (field.name ≤ last) then
      let quoted := field.name.quote
      keyIdxCorrupted s!"writer field names not ascending and unique at {quoted}"
    else
      let parts ← bucketField field bucketBits
      let later ← bucketFields bucketBits (some field.name) rest
      return parts :: later

def encodeKeyIdxWithBucketBits (fields : List KeyIdxFieldInput) (bucketBits : Nat) : Except CodecError KeyIdxSection := do
  checkBucketBits bucketBits
  let count := fields.length
  if count = 0 ∨ keyIdxMaxFields < count then
    keyIdxCorrupted s!"writer given {count} fields, outside 1..={keyIdxMaxFields}"
  else
    let parts ← bucketFields bucketBits none fields
    return { bucketBits, fields := parts }

/-- The bucket that a probe reads, with the key that it is for. -/
structure KeyIdxBucket where
  key8 : Key8
  bucket : Nat
  bucketBits : Nat
  fieldEntryCount : Nat
  frame : List KeyEntry

/-- The lookup declines when the section does not name the field under the type. -/
def KeyIdxSection.locate (index : KeyIdxSection) (name : String) (keyType : KeyType) (key8 : Key8) :
    Except CodecError (Option KeyIdxBucket) :=
  match index.fields.find? fun field => field.name = name with
  | none => .ok none
  | some field =>
    if field.keyType ≠ keyType then .ok none
    else
      let bucket := mix key8 index.bucketBits
      match field.frames[bucket]? with
      | none => keyIdxCorrupted s!"bucket {bucket} outside the directory"
      | some frame =>
        .ok (some {
          key8, bucket, frame
          bucketBits := index.bucketBits
          fieldEntryCount := field.entryCount })

/-- Each entry of a frame belongs to the bucket and comes after the one before. -/
def checkEntries (bucket bucketBits : Nat) : Option KeyEntry → List KeyEntry → Except CodecError Unit
  | _, [] => .ok ()
  | previous, entry :: rest =>
    let home := mix entry.key8 bucketBits
    if home ≠ bucket then keyIdxCorrupted s!"bucket {bucket} holds a key that mixes to bucket {home}"
    else if previous = some entry then keyIdxCorrupted s!"bucket {bucket} duplicate entry"
    else if previous.any fun last => decide (¬last ≤ entry) then
      keyIdxCorrupted s!"bucket {bucket} entries not sorted by (key8, block)"
    else checkEntries bucket bucketBits (some entry) rest

namespace KeyIdxBucket

/-- The entries of the bucket, whichever key they belong to. -/
def entries (located : KeyIdxBucket) : Except CodecError (List KeyEntry) := do
  let bucket := located.bucket
  let count := located.frame.length
  let whole := located.fieldEntryCount
  if count = 0 then return []
  else if keyIdxBucketMaxEntries < count then
    let excess := s!"over KEY_IDX_BUCKET_MAX_ENTRIES {keyIdxBucketMaxEntries}, refused before allocation"
    keyIdxCorrupted s!"bucket {bucket} frame entry_count {count} {excess}"
  else if whole < count then
    let excess := s!"over the field's entry_count {whole}, refused before allocation"
    keyIdxCorrupted s!"bucket {bucket} frame entry_count {count} {excess}"
  else
    checkEntries bucket located.bucketBits none located.frame
    return located.frame

/-- The blocks of the probed key. -/
def matching (located : KeyIdxBucket) (entries : List KeyEntry) : List UInt32 :=
  (entries.filter fun entry => entry.key8 = located.key8).map KeyEntry.block

end KeyIdxBucket

end Ravel.Codec
