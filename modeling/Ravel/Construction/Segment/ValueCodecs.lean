/-
This file models the value pages of a segment that store values as decimal digits: ALP, and deltas over their greatest common
divisor.
-/

import Ravel.Construction.Segment.Gorilla
import Ravel.Construction.Segment.TimestampPages

namespace Ravel.Segment

open Codec Logs

def maxDecimalExp : Nat := 18

/-- The floating-point steps of the model: the rounded digit of a scaled value, where it is finite and in range, and the value
that the decoder computes of a digit. -/
structure DecimalSteps where
  scaledDigit : Pattern → Nat → Option Int64
  reconstruct : Int64 → Nat → Pattern

/-- The digit of a value under an exponent, when the decoder gives the same bits back. -/
def digitFor (steps : DecimalSteps) (value : Pattern) (exponent : Nat) : Option Int64 :=
  match steps.scaledDigit value exponent with
  | none => none
  | some digit => if steps.reconstruct digit exponent = value then some digit else none

def fitCount (steps : DecimalSteps) (values : List Pattern) (exponent : Nat) : Nat :=
  (values.filter fun value => (digitFor steps value exponent).isSome).length

/-- The exponents from one on, until one fits every value. -/
def bestExponentLoop (steps : DecimalSteps) (values : List Pattern) : Nat → Nat → Nat × Nat → Nat × Nat
  | 0, _, best => best
  | remaining + 1, exponent, best =>
    let fits := fitCount steps values exponent
    if best.2 < fits then
      if fits = values.length then (exponent, fits) else bestExponentLoop steps values remaining (exponent + 1) (exponent, fits)
    else bestExponentLoop steps values remaining (exponent + 1) best

def bestExponent (steps : DecimalSteps) (values : List Pattern) : Nat × Nat :=
  bestExponentLoop steps values (maxDecimalExp + 1) 0 (0, 0)

/-- The digits under the first exponent that fits every value. -/
def modelDigitsLoop (steps : DecimalSteps) (values : List Pattern) : Nat → Nat → Option (Nat × List Int64)
  | 0, _ => none
  | remaining + 1, exponent =>
    match values.mapM fun value => digitFor steps value exponent with
    | some digits => some (exponent, digits)
    | none => modelDigitsLoop steps values remaining (exponent + 1)

def modelDigitsAll (steps : DecimalSteps) (values : List Pattern) : Option (Nat × List Int64) :=
  modelDigitsLoop steps values (maxDecimalExp + 1) 0

def maxOffset (offsets : List UInt64) : UInt64 :=
  (offsets.max?).getD 0

/-- The base, the width and the packed offsets. -/
def forPack (values : List Int64) : Bytes :=
  let base := minI64 values
  let offsets := values.map (offsetFrom base)
  let bitWidth := widthFor (maxOffset offsets)
  putIvarint base ++ UInt8.ofNat bitWidth :: packBits offsets bitWidth

/-- Bytes join the accumulator until it holds a value. The region has the bytes that its values need. -/
def refill (bitWidth : Nat) : Nat → BitVec 128 → Nat → Bytes → BitVec 128 × Nat × Bytes
  | 0, acc, nbits, bytes => (acc, nbits, bytes)
  | steps + 1, acc, nbits, bytes =>
    if nbits < bitWidth then
      match bytes with
      | [] => (acc, nbits, bytes)
      | byte :: rest => refill bitWidth steps (acc ||| byte.toBitVec.zeroExtend 128 <<< nbits) (nbits + 8) rest
    else (acc, nbits, bytes)

def unpackLoop (bitWidth : Nat) (base : Int64) : Nat → BitVec 128 → Nat → Bytes → List Int64
  | 0, _, _, _ => []
  | count + 1, acc, nbits, bytes =>
    let (filled, held, rest) := refill bitWidth 8 acc nbits bytes
    addOffset base (filled.truncate 64 &&& widthMask bitWidth) ::
      unpackLoop bitWidth base count (filled >>> bitWidth) (held - bitWidth) rest

def forUnpack (bytes : Bytes) (count : Nat) : Except SegmentError (List Int64 × Bytes) := do
  let (base, rest) ← readZigzagVarint bytes
  match rest with
  | [] => throw .truncated
  | width :: packed =>
    let bitWidth := width.toNat
    if 64 < bitWidth then throw (.valuePageCodec "FOR bit width exceeds 64")
    else if bitWidth = 0 then return (List.replicate count base, packed)
    else if 2 ^ 64 ≤ count * bitWidth then throw .fieldOverflow
    else
      let need := (count * bitWidth + 7) / 8
      if packed.length < need then throw .truncated
      else return (unpackLoop bitWidth base count 0#128 0 (packed.take need), packed.drop need)

/-- The digits of values, a placeholder where a value has none, and the values without a digit by position. -/
def splitExceptions (steps : DecimalSteps) (exponent : Nat) : Nat → List Pattern → List Int64 × List (Nat × Pattern)
  | _, [] => ([], [])
  | index, value :: values =>
    let (digits, exceptions) := splitExceptions steps exponent (index + 1) values
    match digitFor steps value exponent with
    | some digit => (digit :: digits, exceptions)
    | none => (0 :: digits, (index, value) :: exceptions)

def patternBytes (value : Pattern) : Bytes :=
  toLeBytes (UInt64.ofBitVec value)

def encodeAlp (steps : DecimalSteps) (values : List Pattern) : Bytes :=
  if values.isEmpty then []
  else
    let exponent := (bestExponent steps values).1
    let (digits, exceptions) := splitExceptions steps exponent 0 values
    let encoded := encodeI64 digits
    UInt8.ofNat exponent :: encoded.1.toU8 :: putUvarint (UInt64.ofNat encoded.2.length) ++ encoded.2 ++
      putUvarint (UInt64.ofNat exceptions.length) ++
      exceptions.flatMap fun exception => putUvarint (UInt64.ofNat exception.1) ++ patternBytes exception.2

/-- Exceptions overwrite the values at their positions. -/
def patchExceptions : Nat → Bytes → List Pattern → Except SegmentError (List Pattern × Bytes)
  | 0, bytes, out => .ok (out, bytes)
  | count + 1, bytes, out => do
    let (index, rest) ← readUvarint bytes
    if rest.length < 8 then throw .truncated
    else if out.length ≤ index.toNat then throw (.valuePageCodec "ALP exception index out of range")
    else patchExceptions count (rest.drop 8) (out.set index.toNat (littleEndian64 (rest.take 8)).toBitVec)

def decodeAlp (steps : DecimalSteps) (bytes : Bytes) (count : Nat) : Except SegmentError (List Pattern) :=
  if count = 0 then
    if bytes.isEmpty then .ok [] else .error (.valuePageCodec "ALP payload for zero values is non-empty")
  else
    match bytes with
    | [] => .error .truncated
    | exponent :: tagged =>
      if maxDecimalExp < exponent.toNat then .error (.valuePageCodec "ALP exponent out of range")
      else
        match tagged with
        | [] => .error .truncated
        | tag :: body =>
          match Enc.fromU8 tag with
          | .error _ => .error (.valuePageCodec "ALP integer encoding tag invalid")
          | .ok enc => do
            let (length, rest) ← readUvarint body
            if rest.length < length.toNat then throw .truncated
            else
              match decodeI64 enc (rest.take length.toNat) count with
              | .error error => throw (.valuePageCodec (codecErrorText error))
              | .ok digits =>
                if digits.length ≠ count then throw (.valuePageCodec "ALP integer stream length mismatch")
                else do
                  let (exceptions, rest) ← readUvarint (rest.drop length.toNat)
                  let (out, rest) ← patchExceptions exceptions.toNat rest
                    (digits.map fun digit => steps.reconstruct digit exponent.toNat)
                  if rest.isEmpty then return out else throw .trailingBytes

def gdfRaw : UInt8 := 0
def gdfModel : UInt8 := 1

/-- The greatest common divisor of the magnitudes of deltas, at least one. -/
def deltasGcd (deltas : List Int64) : Nat :=
  max (deltas.foldl (fun divisor delta => Nat.gcd divisor delta.toInt.natAbs) 0) 1

/-- The page of digits, when one exponent fits every value and no delta overflows. -/
def encodeModelled (steps : DecimalSteps) (values : List Pattern) : Option Bytes := do
  let (exponent, digits) ← modelDigitsAll steps values
  let deltas ← checkedDeltas digits
  let divisor := deltasGcd deltas
  return gdfModel :: UInt8.ofNat exponent :: putIvarint (digits.headD 0) ++ putUvarint (UInt64.ofNat divisor) ++
    forPack (deltas.map fun delta => delta / Int64.ofNat divisor)

def encodeGcdDeltaFor (steps : DecimalSteps) (values : List Pattern) : Bytes :=
  if values.isEmpty then []
  else (encodeModelled steps values).getD (gdfRaw :: values.flatMap patternBytes)

/-- The values of eight bytes each. -/
def rawPatterns : Nat → Bytes → List Pattern
  | 0, _ => []
  | count + 1, bytes => (littleEndian64 (bytes.take 8)).toBitVec :: rawPatterns count (bytes.drop 8)

/-- The digits that scaled deltas sum to. -/
def accumulate (divisor : Int64) (acc : Int64) : List Int64 → Except SegmentError (List Int64)
  | [] => .ok []
  | reduced :: rest =>
    match checkedMul reduced divisor with
    | none => .error (.valuePageCodec "GCD-FOR delta overflow")
    | some step =>
      match checkedAdd acc step with
      | none => .error (.valuePageCodec "GCD-FOR accumulation overflow")
      | some next => do return next :: (← accumulate divisor next rest)

def decodeGcdDeltaFor (steps : DecimalSteps) (bytes : Bytes) (count : Nat) : Except SegmentError (List Pattern) :=
  if count = 0 then
    if bytes.isEmpty then .ok [] else .error (.valuePageCodec "GCD-FOR payload for zero values is non-empty")
  else
    match bytes with
    | [] => .error .truncated
    | marker :: body =>
      if marker = gdfRaw then
        if 2 ^ 64 ≤ count * 8 then .error .fieldOverflow
        else if body.length ≠ count * 8 then .error (.valuePageCodec "GCD-FOR raw body length mismatch")
        else .ok (rawPatterns count body)
      else if marker = gdfModel then
        match body with
        | [] => .error .truncated
        | exponent :: rest =>
          if maxDecimalExp < exponent.toNat then .error (.valuePageCodec "GCD-FOR exponent out of range")
          else do
            let (first, rest) ← readZigzagVarint rest
            let (divisor, rest) ← readUvarint rest
            if divisor = 0 then throw (.valuePageCodec "GCD-FOR divisor is zero")
            else do
              let (reduced, rest) ← forUnpack rest (count - 1)
              if !rest.isEmpty then throw .trailingBytes
              else do
                let later ← accumulate divisor.toInt64 first reduced
                return (first :: later).map fun digit => steps.reconstruct digit exponent.toNat
      else .error (.valuePageCodec "GCD-FOR marker byte invalid")

end Ravel.Segment
