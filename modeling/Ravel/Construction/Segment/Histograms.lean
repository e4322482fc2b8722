/-
This file models the histogram pages of a segment: the record of one value, its checks on both sides, and the page of records.
-/

import Ravel.Construction.Segment.Sections

namespace Ravel.Segment

open Codec Logs

inductive ResetHint where
  | unknown
  | yes
  | no
  | gauge
  deriving DecidableEq, Repr

def ResetHint.wire : ResetHint → UInt8
  | .unknown => 0
  | .yes => 1
  | .no => 2
  | .gauge => 3

/-- A run of buckets, after a gap from the run before it. -/
structure HistogramSpan where
  offset : Int32
  length : UInt32
  deriving DecidableEq, Repr

/-- The counts of a value. A float is its bits. -/
inductive HistogramCounts where
  | int (zeroCount count : UInt64) (positive negative : List UInt64)
  | float (zeroCount count : UInt64) (positive negative : List UInt64)
  deriving DecidableEq, Repr

structure HistogramValue where
  scale : Int32
  zeroThreshold : UInt64
  sum : Option UInt64
  customValues : Option (List UInt64)
  positiveSpans : List HistogramSpan
  negativeSpans : List HistogramSpan
  counts : HistogramCounts
  resetHint : ResetHint
  deriving DecidableEq, Repr

/-- The float steps that both sides share. -/
structure FloatSteps where
  less : UInt64 → UInt64 → Bool
  sum : List UInt64 → UInt64

inductive HistogramWriteError where
  | scaleTooSmall (scale : Int32)
  | customValuesMismatch
  | spanLengthZero
  | bucketCountLenMismatch
  | countInconsistent
  deriving DecidableEq, Repr

/-- Each bound is less than the next. -/
def ascendingBounds (steps : FloatSteps) : List UInt64 → Bool
  | first :: second :: rest => steps.less first second && ascendingBounds steps (second :: rest)
  | _ => true

def spansSideLen : List HistogramSpan → Nat → Except HistogramWriteError Nat
  | [], total => .ok total
  | span :: spans, total =>
    if span.length = 0 then .error .spanLengthZero
    else if total + span.length.toNat < 2 ^ 64 then spansSideLen spans (total + span.length.toNat)
    else .error .bucketCountLenMismatch

/-- The sum of counts, unless it overflows. -/
def checkedTotal (counts : List UInt64) : Option Nat :=
  counts.foldlM (fun total count => if total + count.toNat < 2 ^ 64 then some (total + count.toNat) else none) 0

def checkCustomValues (steps : FloatSteps) (scale : Int32) (customValues : Option (List UInt64)) : Except HistogramWriteError Unit :=
  match customValues with
  | some bounds =>
    if scale ≠ -53 ∨ bounds = [] then .error .customValuesMismatch
    else if ascendingBounds steps bounds then .ok ()
    else .error .customValuesMismatch
  | none => if scale = -53 then .error .customValuesMismatch else .ok ()

def checkCounts (steps : FloatSteps) (counts : HistogramCounts) (positiveExpected negativeExpected : Nat) :
    Except HistogramWriteError Unit :=
  match counts with
  | .int zeroCount count positive negative =>
    if positive.length ≠ positiveExpected ∨ negative.length ≠ negativeExpected then .error .bucketCountLenMismatch
    else
      match checkedTotal (positive ++ negative) with
      | none => .error .countInconsistent
      | some total => if count < zeroCount ∨ count.toNat < total then .error .countInconsistent else .ok ()
  | .float zeroCount count positive negative =>
    if positive.length ≠ positiveExpected ∨ negative.length ≠ negativeExpected then .error .bucketCountLenMismatch
    else if steps.less count zeroCount || steps.less count (steps.sum (positive ++ negative)) then .error .countInconsistent
    else .ok ()

/-- The checks of the writer, in its order. -/
def checkHistogram (steps : FloatSteps) (value : HistogramValue) : Except HistogramWriteError Unit := do
  if value.scale < -53 then throw (.scaleTooSmall value.scale)
  else
    checkCustomValues steps value.scale value.customValues
    let positiveExpected ← spansSideLen value.positiveSpans 0
    let negativeExpected ← spansSideLen value.negativeSpans 0
    checkCounts steps value.counts positiveExpected negativeExpected

def writeSideSpans (spans : List HistogramSpan) : Bytes :=
  putUvarint (UInt64.ofNat spans.length) ++
    spans.flatMap fun span => putIvarint span.offset.toInt64 ++ putUvarint span.length.toUInt64

def HistogramCounts.kind : HistogramCounts → UInt8
  | .int .. => 0
  | .float .. => 1

/-- A count is a varint, or the bits of a float. -/
def HistogramCounts.putCount : HistogramCounts → UInt64 → Bytes
  | .int .. => putUvarint
  | .float .. => toLeBytes

def HistogramCounts.zeroCount : HistogramCounts → UInt64
  | .int zeroCount _ _ _ => zeroCount
  | .float zeroCount _ _ _ => zeroCount

def HistogramCounts.count : HistogramCounts → UInt64
  | .int _ count _ _ => count
  | .float _ count _ _ => count

def HistogramCounts.positive : HistogramCounts → List UInt64
  | .int _ _ positive _ => positive
  | .float _ _ positive _ => positive

def HistogramCounts.negative : HistogramCounts → List UInt64
  | .int _ _ _ negative => negative
  | .float _ _ _ negative => negative

def histogramFlags (value : HistogramValue) : UInt8 :=
  value.counts.kind ||| ((if value.sum.isSome then (1 : UInt8) else 0) <<< 1) ||| (value.resetHint.wire <<< 2)

/-- The layout of one record. -/
def histogramRecord (value : HistogramValue) : Bytes :=
  histogramFlags value ::
    (putIvarint value.scale.toInt64 ++
      (toLeBytes value.zeroThreshold ++
        (value.counts.putCount value.counts.zeroCount ++
          (value.counts.putCount value.counts.count ++
            ((value.sum.map toLeBytes).getD [] ++
              ((value.customValues.map fun bounds => putUvarint (UInt64.ofNat bounds.length) ++ bounds.flatMap toLeBytes).getD [] ++
                (writeSideSpans value.positiveSpans ++
                  (value.counts.positive.flatMap value.counts.putCount ++
                    (writeSideSpans value.negativeSpans ++ value.counts.negative.flatMap value.counts.putCount)))))))))

def encodeHistogramRecordInto (steps : FloatSteps) (out : Bytes) (value : HistogramValue) : Except HistogramWriteError Bytes := do
  checkHistogram steps value
  return out ++ histogramRecord value

def histSpans : UInt8 := 32

/-- The page of the values of a series. It is never compressed. -/
def frameHistPage (primitives : PagePrimitives) (steps : FloatSteps) (seriesId : Bytes) (values : List HistogramValue) :
    Except HistogramWriteError Bytes := do
  let payload ← values.foldlM (encodeHistogramRecordInto steps) []
  return framePage primitives seriesId histSpans compNone payload

def takeF64Le (bytes : Bytes) : Except SegmentError (UInt64 × Bytes) := do
  let (word, rest) ← takeBytes 8 bytes
  return (littleEndian64 word, rest)

def narrowI32 (value : Int64) : Except SegmentError Int32 :=
  if -2 ^ 31 ≤ value.toInt ∧ value.toInt < 2 ^ 31 then .ok value.toInt32 else .error .fieldOverflow

def decodeHistSpansLoop : Nat → Nat → Bytes → Except SegmentError (List HistogramSpan × Nat × Bytes)
  | 0, total, bytes => .ok ([], total, bytes)
  | wanted + 1, total, bytes => do
    let (offset, bytes) ← readZigzagVarint bytes
    let offset ← narrowI32 offset
    let (length, bytes) ← readUvarint bytes
    if length = 0 then throw .histogramSpanLengthZero
    else if 2 ^ 32 ≤ length.toNat then throw .fieldOverflow
    else if 2 ^ 64 ≤ total + length.toNat then throw .fieldOverflow
    else
      let (spans, total, bytes) ← decodeHistSpansLoop wanted (total + length.toNat) bytes
      return (⟨offset, length.toUInt32⟩ :: spans, total, bytes)

def decodeHistSpans (bytes : Bytes) : Except SegmentError (List HistogramSpan × Nat × Bytes) := do
  let (spanCount, bytes) ← readUvarint bytes
  decodeHistSpansLoop spanCount.toNat 0 bytes

def decodeHistIntCounts (bytes : Bytes) (count : Nat) : Except SegmentError (List UInt64 × Bytes) :=
  readEach (fun _ => readUvarint) (units count) bytes

def decodeHistFloatCounts (bytes : Bytes) (count : Nat) : Except SegmentError (List UInt64 × Bytes) :=
  readEach (fun _ => takeF64Le) (units count) bytes

def resetHintOf (bits : UInt8) : ResetHint :=
  match bits.toNat with
  | 0 => .unknown
  | 1 => .yes
  | 2 => .no
  | _ => .gauge

/-- The bounds of a value with custom buckets. -/
def decodeCustomValues (steps : FloatSteps) (scale : Int32) (bytes : Bytes) : Except SegmentError (Option (List UInt64) × Bytes) :=
  if scale = -53 then do
    let (boundCount, bytes) ← readUvarint bytes
    if boundCount = 0 then throw .histogramCustomValuesMismatch
    else
      let (bounds, bytes) ← decodeHistFloatCounts bytes boundCount.toNat
      if ascendingBounds steps bounds then return (some bounds, bytes) else throw .histogramCustomValuesMismatch
  else .ok (none, bytes)

/-- The buckets of both sides, the counts of each after its spans. -/
def decodeSides (readCounts : Bytes → Nat → Except SegmentError (List UInt64 × Bytes)) (bytes : Bytes) :
    Except SegmentError ((List HistogramSpan × List UInt64) × (List HistogramSpan × List UInt64) × Bytes) := do
  let (positiveSpans, positiveLen, bytes) ← decodeHistSpans bytes
  let (positive, bytes) ← readCounts bytes positiveLen
  let (negativeSpans, negativeLen, bytes) ← decodeHistSpans bytes
  let (negative, bytes) ← readCounts bytes negativeLen
  return ((positiveSpans, positive), (negativeSpans, negative), bytes)

def checkIntCounts (zeroCount count : UInt64) (positive negative : List UInt64) : Except SegmentError Unit :=
  match checkedTotal (positive ++ negative) with
  | none => .error .histogramCountInconsistent
  | some total => if count < zeroCount ∨ count.toNat < total then .error .histogramCountInconsistent else .ok ()

def checkFloatCounts (steps : FloatSteps) (zeroCount count : UInt64) (positive negative : List UInt64) : Except SegmentError Unit :=
  if steps.less count zeroCount || steps.less count (steps.sum (positive ++ negative)) then .error .histogramCountInconsistent
  else .ok ()

def decodeSum (hasSum : Bool) (bytes : Bytes) : Except SegmentError (Option UInt64 × Bytes) :=
  if hasSum then do
    let (sum, bytes) ← takeF64Le bytes
    return (some sum, bytes)
  else .ok (none, bytes)

/-- What a value stores before its counts. -/
structure HistogramHead where
  scale : Int32
  zeroThreshold : UInt64
  hasSum : Bool
  resetHint : ResetHint

/-- The counts of a value and what stands between them. Both kinds of counts have this layout. -/
def decodeCounted (steps : FloatSteps) (head : HistogramHead) (readCount : Bytes → Except SegmentError (UInt64 × Bytes))
    (readCounts : Bytes → Nat → Except SegmentError (List UInt64 × Bytes))
    (check : UInt64 → UInt64 → List UInt64 → List UInt64 → Except SegmentError Unit)
    (counted : UInt64 → UInt64 → List UInt64 → List UInt64 → HistogramCounts) (bytes : Bytes) :
    Except SegmentError (HistogramValue × Bytes) := do
  let (zeroCount, bytes) ← readCount bytes
  let (count, bytes) ← readCount bytes
  let (sum, bytes) ← decodeSum head.hasSum bytes
  let (customValues, bytes) ← decodeCustomValues steps head.scale bytes
  let ((positiveSpans, positive), (negativeSpans, negative), bytes) ← decodeSides readCounts bytes
  check zeroCount count positive negative
  return ({ scale := head.scale, zeroThreshold := head.zeroThreshold, sum, customValues, positiveSpans, negativeSpans,
            counts := counted zeroCount count positive negative, resetHint := head.resetHint }, bytes)

def decodeHistogramRecord (steps : FloatSteps) (bytes : Bytes) : Except SegmentError (HistogramValue × Bytes) := do
  let (flags, bytes) ← takeU8 bytes
  if flags >>> 4 ≠ 0 then throw .histogramReservedFlagsNonZero
  else
    let (scale, bytes) ← readZigzagVarint bytes
    let scale ← narrowI32 scale
    if scale < -53 then throw (.histogramScaleTooSmall scale)
    else
      let (zeroThreshold, bytes) ← takeF64Le bytes
      let head := ⟨scale, zeroThreshold, (flags >>> 1) &&& 1 = 1, resetHintOf ((flags >>> 2) &&& 3)⟩
      if flags &&& 1 = 0 then decodeCounted steps head readUvarint decodeHistIntCounts checkIntCounts .int bytes
      else decodeCounted steps head takeF64Le decodeHistFloatCounts (checkFloatCounts steps) .float bytes

/-- As many records as there are samples, and nothing after them. -/
def decodeHistPageInto (primitives : PagePrimitives) (steps : FloatSteps) (seriesId : Bytes) (sampleCount : UInt32) (page : Bytes)
    (maxPageUncompressedBytes : Nat) : Except SegmentError (List HistogramValue) := do
  let (enc, comp, payload) ← splitPageHeader primitives seriesId page
  if enc ≠ histSpans then throw (.invalidEncoding enc)
  else
    let scratch ← decompressPagePayload primitives comp payload maxPageUncompressedBytes
    let (values, rest) ← readEach (fun _ => decodeHistogramRecord steps) (units sampleCount.toNat) scratch
    if rest.isEmpty then return values else throw .trailingBytes

end Ravel.Segment
