/-
This file models the timestamp pages of a segment: the two encodings, the frame of a page, and the choice that the writer makes.
-/

import Ravel.Construction.Segment.Varints

namespace Ravel.Segment

open Codec Logs

/-- The deltas of timestamps, the first from the minimum of the run, unless one overflows. -/
def encodeTsDeltas (previous : Int64) : List Int64 → Option Bytes
  | [] => some []
  | ts :: rest => do
    let delta ← Codec.checkedSub ts previous
    let later ← encodeTsDeltas ts rest
    return putIvarint delta ++ later

/-- The timestamps of deltas from the last one on, each within the bounds of the run. -/
def decodeTsDeltasLoop (minTsNs maxTsNs : Int64) : Nat → Int64 → Bytes → List Int64 → Except SegmentError (List Int64)
  | 0, _, bytes, out => if bytes.isEmpty then .ok out else .error .trailingBytes
  | count + 1, accum, bytes, out => do
    let (delta, rest) ← readZigzagVarint bytes
    match checkedAdd accum delta with
    | none => throw .timestampOverflow
    | some ts =>
      if ts < minTsNs ∨ maxTsNs < ts then
        throw (.timestampOutOfBounds ts.toInt minTsNs.toInt maxTsNs.toInt)
      else decodeTsDeltasLoop minTsNs maxTsNs count ts rest (out ++ [ts])

/-- The first delta is from the minimum. -/
def decodeTsDeltasInto (bytes : Bytes) (count : Nat) (minTsNs maxTsNs : Int64) (out : List Int64) :
    Except SegmentError (List Int64) :=
  decodeTsDeltasLoop minTsNs maxTsNs count minTsNs bytes out

/-- The greatest common divisor of magnitudes, as the machine casts it. -/
def gcdI64 (left right : Int64) : Int64 :=
  Int64.ofNat (Nat.gcd left.toInt.natAbs right.toInt.natAbs)

/-- The divisor of a page, at least one. -/
def pageGcd (timestamps : List Int64) : Int64 :=
  max (timestamps.foldl gcdI64 0) 1

def encodeTsGcd (timestamps : List Int64) : Bytes :=
  let divisor := pageGcd timestamps
  let encoded := encodeI64 (timestamps.map fun ts => ts / divisor)
  putUvarint divisor.toUInt64 ++ encoded.1.toU8 :: encoded.2

/-- The multiples of the divisor, each within the bounds of the run. -/
def scaleTimestamps (divisor minTsNs maxTsNs : Int64) : List Int64 → List Int64 → Except SegmentError (List Int64)
  | [], out => .ok out
  | quotient :: rest, out =>
    match checkedMul quotient divisor with
    | none => .error .timestampOverflow
    | some ts =>
      if ts < minTsNs ∨ maxTsNs < ts then
        .error (.timestampOutOfBounds ts.toInt minTsNs.toInt maxTsNs.toInt)
      else scaleTimestamps divisor minTsNs maxTsNs rest (out ++ [ts])

def decodeTsGcdInto (bytes : Bytes) (count : Nat) (minTsNs maxTsNs : Int64) (out : List Int64) :
    Except SegmentError (List Int64) := do
  let (divisor, rest) ← readUvarint bytes
  if divisor = 0 then throw (.valuePageCodec "TS_GCD divisor is zero")
  else if 2 ^ 63 ≤ divisor.toNat then throw .fieldOverflow
  else
    match rest with
    | [] => throw .truncated
    | tag :: payload =>
      match Enc.fromU8 tag with
      | .error _ => throw (.valuePageCodec "TS_GCD integer encoding tag invalid")
      | .ok enc =>
        match decodeI64 enc payload count with
        | .error error => throw (.valuePageCodec (codecErrorText error))
        | .ok divided =>
          if divided.length ≠ count then throw (.valuePageCodec "TS_GCD integer stream length mismatch")
          else scaleTimestamps divisor.toInt64 minTsNs maxTsNs divided out

/-- The block compressor and the checksum, which come from other packages. The decompressor fills a buffer of the given length,
and returns what it wrote. -/
structure PagePrimitives where
  compressBlock : Bytes → Bytes
  decompressInto : Bytes → Nat → Except String Bytes
  crc32c : Bytes → UInt32
  crc32cAppend : UInt32 → Bytes → UInt32

def pageCrc (primitives : PagePrimitives) (seriesId : Bytes) (enc comp : UInt8) (payload : Bytes) : UInt32 :=
  primitives.crc32cAppend (primitives.crc32cAppend (primitives.crc32c seriesId) [enc, comp]) payload

/-- The four little-endian bytes of a value. -/
def toLeBytes32 (value : UInt32) : Bytes :=
  [value.toUInt8, (value >>> 8).toUInt8, (value >>> 16).toUInt8, (value >>> 24).toUInt8]

def fromLeBytes32 (first second third fourth : UInt8) : UInt32 :=
  first.toUInt32 ||| (second.toUInt32 <<< 8) ||| (third.toUInt32 <<< 16) ||| (fourth.toUInt32 <<< 24)

def framePage (primitives : PagePrimitives) (seriesId : Bytes) (enc comp : UInt8) (payload : Bytes) : Bytes :=
  enc :: comp :: toLeBytes32 (pageCrc primitives seriesId enc comp payload) ++ payload

def tsDeltaVarint : UInt8 := 1
def tsGcdI64 : UInt8 := 2
def compNone : UInt8 := 0
def compLz4 : UInt8 := 1

def lz4MinTsPayloadBytes : Nat := 64

/-- The compressed block after the length of its content, which is cut to 32 bits. -/
def compressPrependSize (primitives : PagePrimitives) (payload : Bytes) : Bytes :=
  toLeBytes32 (UInt32.ofNat payload.length) ++ primitives.compressBlock payload

inductive WriteError where
  | timestampDeltaOverflow
  deriving DecidableEq, Repr

/-- The compression and the body of a payload: compressed when it is long enough and shrinks. -/
def compressedBody (primitives : PagePrimitives) (payload : Bytes) : UInt8 × Bytes :=
  let candidate := compressPrependSize primitives payload
  if lz4MinTsPayloadBytes ≤ payload.length ∧ candidate.length < payload.length then (compLz4, candidate)
  else (compNone, payload)

/-- The smaller of the two pages. A tie keeps the page of deltas. -/
def frameTsPage (primitives : PagePrimitives) (seriesId : Bytes) (timestamps : List Int64) (runMinTsNs : Int64) :
    Except WriteError Bytes :=
  match encodeTsDeltas runMinTsNs timestamps with
  | none => .error .timestampDeltaOverflow
  | some payload =>
    let (comp, body) := compressedBody primitives payload
    let incumbent := framePage primitives seriesId tsDeltaVarint comp body
    let candidate := framePage primitives seriesId tsGcdI64 compNone (encodeTsGcd timestamps)
    if candidate.length < incumbent.length then .ok candidate else .ok incumbent

/-- The encoding, the compression and the payload of a page whose checksum matches. -/
def splitPageHeader (primitives : PagePrimitives) (seriesId page : Bytes) : Except SegmentError (UInt8 × UInt8 × Bytes) :=
  match page with
  | enc :: comp :: first :: second :: third :: fourth :: payload =>
    if pageCrc primitives seriesId enc comp payload ≠ fromLeBytes32 first second third fourth then .error .pageCrcMismatch
    else .ok (enc, comp, payload)
  | _ => .error .truncated

def decompressPagePayload (primitives : PagePrimitives) (comp : UInt8) (payload : Bytes) (maxPageUncompressedBytes : Nat) :
    Except SegmentError Bytes :=
  if comp = compNone then
    if maxPageUncompressedBytes < payload.length then .error (.pageTooLarge payload.length maxPageUncompressedBytes)
    else .ok payload
  else if comp = compLz4 then
    match payload with
    | first :: second :: third :: fourth :: block =>
      let expected := (fromLeBytes32 first second third fourth).toNat
      if maxPageUncompressedBytes < expected then .error (.pageTooLarge expected maxPageUncompressedBytes)
      else
        match primitives.decompressInto block expected with
        | .error text => .error (.decompress text)
        | .ok written =>
          if written.length ≠ expected then .error (.decompressedLenMismatch expected written.length) else .ok written
    | _ => .error .truncated
  else .error (.invalidCompression comp)

def decodeTsPageInto (primitives : PagePrimitives) (seriesId : Bytes) (sampleCount : UInt32) (minTsNs maxTsNs : Int64)
    (page : Bytes) (maxPageUncompressedBytes : Nat) (out : List Int64) : Except SegmentError (List Int64) := do
  let (enc, comp, payload) ← splitPageHeader primitives seriesId page
  let scratch ← decompressPagePayload primitives comp payload maxPageUncompressedBytes
  if enc = tsDeltaVarint then decodeTsDeltasInto scratch sampleCount.toNat minTsNs maxTsNs out
  else if enc = tsGcdI64 then decodeTsGcdInto scratch sampleCount.toNat minTsNs maxTsNs out
  else throw (.invalidEncoding enc)

end Ravel.Segment
