/-
This file models the varints of a segment, and the errors of the decoders of its pages.
-/

import Ravel.Construction.Codec.Integers

namespace Ravel.Segment

open Codec Logs

abbrev Bytes := List UInt8

/-- The errors that the page and catalog decoders return. -/
inductive SegmentError where
  | truncated
  | trailingBytes
  | fieldOverflow
  | pageCrcMismatch
  | invalidEncoding (encoding : UInt8)
  | invalidCompression (compression : UInt8)
  | timestampOverflow
  | timestampOutOfBounds (ts min max : Int)
  | corruptGorilla
  | badVarint
  | pageTooLarge (len cap : Nat)
  | decompress (text : String)
  | decompressedLenMismatch (expected actual : Nat)
  | valuePageCodec (text : String)
  | missingSection (name : String)
  | sectionOutOfBounds
  | sectionTooLarge (len cap : Nat)
  | sectionCrcMismatch
  | invalidSectionCompression (comp : Int)
  | badOrdinal (ord : Nat)
  | badUtf8
  | duplicateDictString
  | labels (duplicateLabelName : String)
  | seriesIdsUnsorted
  | seriesCountMismatch (seriesIds seriesMeta footer : Nat)
  | badBlockLen
  | schemaRefOutOfRange (ref : Nat)
  | schemaNameCountTooLarge (count : Nat)
  | schemaNamesUnsorted
  | zeroSampleCount
  | invalidValueKind (kind : UInt8)
  | scalarSeriesHasHistPage
  | histogramSeriesHasValPage
  | zeroHistPageLen
  | valueKindPageCountMismatch (kind : String) (valueKindCount pageCount : Nat)
  | unexpectedSectionPresent (name : String)
  | zeroRunCount
  | runCountSumMismatch (runCountSum runTotal : Nat)
  | provenanceBoundsOverflow
  | runTotalLiveBudgetExceeded (runTotal liveBytes cap : Nat)
  | unsupportedSparseIndexVersion (version : UInt8)
  | zeroStride
  | chunkCrcMismatch
  | badChunkFrame
  | sparseSectionsIncomplete
  | badSparseIndex (text : String)
  | invalidProvenancePresence (flag : Nat)
  | emptyProvenanceExtension
  | provenanceColumnCodec (text : String)
  | provenanceLiveBudgetExceeded (liveBytes cap : Nat)
  | histogramReservedFlagsNonZero
  | histogramScaleTooSmall (scale : Int32)
  | histogramCustomValuesMismatch
  | histogramSpanLengthZero
  | histogramCountInconsistent
  deriving DecidableEq, Repr

def maxVarintBytes : Nat := 10

/-- The reader of a segment accepts a redundant last group. -/
def segmentVarintErrors : VarintErrors SegmentError where
  truncated := .truncated
  outOfRange := .badVarint
  tooLong := .badVarint
  nonCanonical := none

def readUvarint (bytes : Bytes) : Except SegmentError (UInt64 × Bytes) :=
  readVarintLoop segmentVarintErrors 0 Segment.maxVarintBytes bytes

def readZigzagVarint (bytes : Bytes) : Except SegmentError (Int64 × Bytes) := do
  let (value, rest) ← readUvarint bytes
  return (zigzagDecode value, rest)

/-- The text of a failure of the shared codecs. -/
def codecErrorText : CodecError → String
  | .corrupted what => "corrupted segment: " ++ what

end Ravel.Segment
