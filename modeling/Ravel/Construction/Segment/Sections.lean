/-
This file models the catalog sections of a segment: the footer that names them, their stored form, and the label dictionary.
-/

import Ravel.Construction.Promql.Evaluation
import Ravel.Construction.Segment.TimestampPages

namespace Ravel.Segment

open Codec Logs

def labelDictKind : Nat := 1
def tsPagesKind : Nat := 3
def valPagesKind : Nat := 4
def seriesIdsKind : Nat := 5
def seriesMetaKind : Nat := 6
def histPagesKind : Nat := 7
def seriesIdxKind : Nat := 8
def seriesMetaChunksKind : Nat := 9

structure Section where
  kind : Nat
  len : Nat
  uncompressedLen : Nat
  comp : Int
  crc32c : UInt32

structure Footer where
  sections : List Section
  seriesCount : Nat
  baseCreatedUnixNs : Int64
  minEventTsNs : Int64

structure ReaderLimits where
  maxSectionUncompressedBytes : Nat

/-- The checksum and the decompressors, which come from other packages. -/
structure SectionPrimitives where
  crc32c : Bytes → UInt32
  lz4Decompress : Bytes → Except String Bytes
  zstdDecompress : Bytes → Nat → Except String Bytes

def findSection (footer : Footer) (kind : Nat) : Option Section :=
  footer.sections.find? fun stored => stored.kind = kind

def needSection (footer : Footer) (kind : Nat) (missing : SegmentError) : Except SegmentError Section :=
  match findSection footer kind with
  | some stored => .ok stored
  | none => .error missing

def sectionLen (footer : Footer) (kind : Nat) : Nat :=
  ((findSection footer kind).map Section.len).getD 0

def takeBytes (count : Nat) (bytes : Bytes) : Except SegmentError (Bytes × Bytes) :=
  if bytes.length < count then .error .truncated else .ok (bytes.take count, bytes.drop count)

def takeU8 (bytes : Bytes) : Except SegmentError (UInt8 × Bytes) :=
  match bytes with
  | [] => .error .truncated
  | byte :: rest => .ok (byte, rest)

def takeU32 (bytes : Bytes) : Except SegmentError (Nat × Bytes) :=
  match bytes with
  | first :: second :: third :: fourth :: rest => .ok ((fromLeBytes32 first second third fourth).toNat, rest)
  | _ => .error .truncated

def takeU64 (bytes : Bytes) : Except SegmentError (Nat × Bytes) := do
  let (word, rest) ← takeBytes 8 bytes
  return ((littleEndian64 word).toNat, rest)

/-- A block after its length. -/
def takeBlock (bytes : Bytes) : Except SegmentError (Bytes × Bytes) := do
  let (length, rest) ← readUvarint bytes
  takeBytes length.toNat rest

/-- The values that a step reads, one for each input. -/
def readEach {Input Value : Type} (read : Input → Bytes → Except SegmentError (Value × Bytes)) :
    List Input → Bytes → Except SegmentError (List Value × Bytes)
  | [], bytes => .ok ([], bytes)
  | input :: inputs, bytes => do
    let (value, rest) ← read input bytes
    let (values, rest) ← readEach read inputs rest
    return (value :: values, rest)

/-- One block whose values are read in full. -/
def blockOf {Input Value : Type} (read : Input → Bytes → Except SegmentError (Value × Bytes)) (inputs : List Input)
    (bytes : Bytes) : Except SegmentError (List Value × Bytes) := do
  let (block, rest) ← takeBlock bytes
  let (values, left) ← readEach read inputs block
  if left.isEmpty then return (values, rest) else throw .badBlockLen

def units (count : Nat) : List Unit := List.replicate count ()

/-- A block of as many varints as counted. -/
def readUvarintBlock (count : Nat) (bytes : Bytes) : Except SegmentError (List UInt64 × Bytes) :=
  blockOf (fun _ => readUvarint) (units count) bytes

/-- The bytes of a whole section, verified and decompressed. -/
def decodeSectionBytes (primitives : SectionPrimitives) (named : Section) (stored : Bytes) (limits : ReaderLimits) :
    Except SegmentError Bytes :=
  if stored.length ≠ named.len then .error .sectionOutOfBounds
  else if primitives.crc32c stored ≠ named.crc32c then .error .sectionCrcMismatch
  else if limits.maxSectionUncompressedBytes < named.uncompressedLen then
    .error (.sectionTooLarge named.uncompressedLen limits.maxSectionUncompressedBytes)
  else do
    let decompressed ←
      if named.comp = 0 then
        if stored.length ≠ named.uncompressedLen then
          throw (.decompressedLenMismatch named.uncompressedLen stored.length)
        else pure stored
      else if named.comp = 1 then
        match stored with
        | first :: second :: third :: fourth :: _ =>
          let declared := (fromLeBytes32 first second third fourth).toNat
          if limits.maxSectionUncompressedBytes < declared then
            throw (.sectionTooLarge declared limits.maxSectionUncompressedBytes)
          else (primitives.lz4Decompress stored).mapError .decompress
        | _ => throw .truncated
      else if named.comp = 2 then (primitives.zstdDecompress stored named.uncompressedLen).mapError .decompress
      else throw (.invalidSectionCompression named.comp)
    if decompressed.length ≠ named.uncompressedLen then
      throw (.decompressedLenMismatch named.uncompressedLen decompressed.length)
    else return decompressed

/-- The strings of a dictionary after those that are seen. A string that is stored twice is refused. -/
def dictEntries : Nat → List Bytes → Bytes → Except SegmentError (List Bytes × Bytes)
  | 0, _, bytes => .ok ([], bytes)
  | count + 1, seen, bytes => do
    let (length, rest) ← readUvarint bytes
    let (entry, rest) ← takeBytes length.toNat rest
    if entry ∈ seen then throw .duplicateDictString
    else do
      let (entries, rest) ← dictEntries count (seen ++ [entry]) rest
      return (entry :: entries, rest)

/-- The bytes of each ordinal. The source keeps their ranges. -/
def indexLabelDict (bytes : Bytes) : Except SegmentError (List Bytes) := do
  let (count, rest) ← takeU32 bytes
  let (entries, rest) ← dictEntries count [] rest
  if rest.isEmpty then return entries else throw .trailingBytes

/-- The string of an ordinal. -/
def resolveOrdinal (dict : List Bytes) (ord : UInt64) : Except SegmentError String :=
  match dict[ord.toNat]? with
  | none => .error (.badOrdinal ord.toNat)
  | some entry =>
    match String.fromUTF8? entry.toByteArray with
    | some text => .ok text
    | none => .error .badUtf8

/-- Ids of sixteen bytes in ascending order. -/
def readSeriesIds : Nat → Option Bytes → Bytes → Except SegmentError (List Bytes × Bytes)
  | 0, _, bytes => .ok ([], bytes)
  | count + 1, previous, bytes => do
    let (id, rest) ← takeBytes 16 bytes
    if previous.any fun earlier => !decide (earlier < id) then throw .seriesIdsUnsorted
    else do
      let (ids, rest) ← readSeriesIds count (some id) rest
      return (id :: ids, rest)

def parseSeriesIds (bytes : Bytes) : Except SegmentError (List Bytes) := do
  let (count, rest) ← takeU32 bytes
  let (ids, rest) ← readSeriesIds count none rest
  if rest.isEmpty then return ids else throw .trailingBytes

/-- The first name that two neighbours share. -/
def repeatedName : List (String × String) → Option String
  | first :: second :: rest => if first.1 = second.1 then some first.1 else repeatedName (second :: rest)
  | _ => none

def newLabelSet (pairs : List (String × String)) : Except SegmentError Promql.LabelSet :=
  match Promql.LabelSet.new pairs with
  | some labels => .ok labels
  | none => .error (.labels ((repeatedName (pairs.insertionSort fun first second => first.1 ≤ second.1)).getD ""))

/-- The pairs of a schema's names and a series' values. -/
def labelPairs (dict : List Bytes) (nameOrds valueOrds : List UInt64) : Except SegmentError (List (String × String)) :=
  (nameOrds.zip valueOrds).mapM fun ords => do
    let name ← resolveOrdinal dict ords.1
    let value ← resolveOrdinal dict ords.2
    return (name, value)

end Ravel.Segment
