/-
This file models the reader of bit-packed values, with the machine arithmetic and the indexing that can panic, and the
integer decoder that reads one value at a time, which the bulk decoder is compared with.
-/

import Ravel.Construction.Codec.Integers

namespace Ravel.Codec

open Logs

/-- How a decoder fails: with a typed error, or by a panic. -/
inductive Fault where
  | corrupted (error : CodecError)
  | panicked
  deriving DecidableEq, Repr

/-- A step that only fails with a typed error. -/
def typed {Value : Type} (outcome : Except CodecError Value) : Except Fault Value :=
  outcome.mapError .corrupted

/-- A sum of machine words. A build with overflow checks panics when it does not fit. -/
def addUsize (left right : Nat) : Except Fault Nat :=
  if left + right < 2 ^ 64 then .ok (left + right) else .error .panicked

def mulUsize (left right : Nat) : Except Fault Nat :=
  if left * right < 2 ^ 64 then .ok (left * right) else .error .panicked

def byteAt (bytes : Bytes) (index : Nat) : Except Fault UInt8 :=
  match bytes[index]? with
  | some byte => .ok byte
  | none => .error .panicked

/-- Bytes join the accumulator until it holds a value. A value has at most 64 bits, so that eight bytes are enough. -/
def fillBits (buf : Bytes) (bitWidth : Nat) : Nat → BitVec 128 → Nat → Nat → Except Fault (BitVec 128 × Nat × Nat)
  | 0, acc, nbits, idx => .ok (acc, nbits, idx)
  | steps + 1, acc, nbits, idx =>
    if nbits < bitWidth then do
      let byte ← byteAt buf idx
      let next ← addUsize idx 1
      fillBits buf bitWidth steps (acc ||| byte.toBitVec.zeroExtend 128 <<< nbits) (nbits + 8) next
    else .ok (acc, nbits, idx)

def unpackLoop (buf : Bytes) (bitWidth : Nat) : Nat → BitVec 128 → Nat → Nat → Except Fault (List UInt64)
  | 0, _, _, _ => .ok []
  | wanted + 1, acc, nbits, idx => do
    let (acc, nbits, idx) ← fillBits buf bitWidth 8 acc nbits idx
    let values ← unpackLoop buf bitWidth wanted (acc >>> bitWidth) (nbits - bitWidth) idx
    return UInt64.ofBitVec (acc.truncate 64 &&& widthMask bitWidth) :: values

def unpackBits (buf : Bytes) (count bitWidth : Nat) : Except Fault (List UInt64) := do
  typed (checkPackedLen buf count bitWidth)
  if bitWidth = 0 then return List.replicate count 0 else unpackLoop buf bitWidth count 0#128 0 0

end Ravel.Codec

namespace Ravel.Codec.Oracle

open Logs

/-- One varint for each value: those that are read, and the bytes left or the failure. -/
def ivarintsEach : Nat → Bytes → Partial
  | 0, bytes => ([], .ok bytes)
  | wanted + 1, bytes =>
    match getIvarint bytes with
    | .error error => ([], .error error)
    | .ok (value, rest) => Partial.prepend [value] (ivarintsEach wanted rest)

def plainEach : Nat → Bytes → Except CodecError (List Int64 × Bytes)
  | 0, bytes => .ok ([], bytes)
  | wanted + 1, bytes => do
    let (value, rest) ← getIvarint bytes
    let (values, rest) ← plainEach wanted rest
    return (value :: values, rest)

def rleEach (count : Nat) : Nat → Nat → Bytes → Except CodecError (List Int64 × Bytes)
  | 0, total, bytes => if total = count then .ok ([], bytes) else .error (.corrupted "rle short of count")
  | runs + 1, total, bytes => do
    let (value, rest) ← getIvarint bytes
    let (run, rest) ← getUvarint rest
    if 2 ^ 64 ≤ total + run.toNat then throw (.corrupted "rle run overflow")
    else if count < total + run.toNat then throw (.corrupted "rle exceeds count")
    else do
      let (values, rest) ← rleEach count runs (total + run.toNat) rest
      return (List.replicate run.toNat value ++ values, rest)

/-- A sum that is checked, with the text of its failure. -/
def sumOr (text : String) (left right : Int64) : Except CodecError Int64 :=
  match checkedAdd left right with
  | some sum => .ok sum
  | none => .error (.corrupted text)

/-- The values after the first, summed as their deltas are read. -/
def deltaEach : Nat → Int64 → Bytes → Except CodecError (List Int64 × Bytes)
  | 0, _, bytes => .ok ([], bytes)
  | wanted + 1, acc, bytes => do
    let (delta, rest) ← getIvarint bytes
    let acc ← sumOr "delta overflow" acc delta
    let (values, rest) ← deltaEach wanted acc rest
    return (acc :: values, rest)

/-- The values after the second, summed as the differences of deltas are read. -/
def doubleDeltaEach : Nat → Int64 → Int64 → Bytes → Except CodecError (List Int64 × Bytes)
  | 0, _, _, bytes => .ok ([], bytes)
  | wanted + 1, value, prevDelta, bytes => do
    let (dod, rest) ← getIvarint bytes
    let prevDelta ← sumOr "double-delta overflow" prevDelta dod
    let value ← sumOr "double-delta overflow" value prevDelta
    let (values, rest) ← doubleDeltaEach wanted value prevDelta rest
    return (value :: values, rest)

/-- The values of a page that stores varints, and the bytes left. -/
def varintsEach (enc : Enc) (count : Nat) (bytes : Bytes) : Except CodecError (List Int64 × Bytes) :=
  match enc, count with
  | .deltaZigzag, later + 1 => do
    let (first, rest) ← getIvarint bytes
    let (values, rest) ← deltaEach later first rest
    return (first :: values, rest)
  | .doubleDelta, 1 => do
    let (first, rest) ← getIvarint bytes
    return ([first], rest)
  | .doubleDelta, later + 2 => do
    let (first, rest) ← getIvarint bytes
    let (prevDelta, rest) ← getIvarint rest
    let second ← sumOr "double-delta overflow" first prevDelta
    let (values, rest) ← doubleDeltaEach later second prevDelta rest
    return (first :: second :: values, rest)
  | .plain, count => plainEach count bytes
  | _, _ => .ok ([], bytes)

/-- The values in the order in which they are handed on. Nothing of the page may be left. -/
def decodeI64 (enc : Enc) (bytes : Bytes) (count : Nat) : Except Fault (List Int64) :=
  match enc with
  | .plain | .deltaZigzag | .doubleDelta => do
    let (values, rest) ← typed (varintsEach enc count bytes)
    typed (expectConsumed rest bytes)
    return values
  | .constant => do
    let (value, rest) ← typed (getIvarint bytes)
    typed (expectConsumed rest bytes)
    return List.replicate count value
  | .rle => do
    let (runCount, rest) ← typed (getUvarint bytes)
    let (values, rest) ← typed (rleEach count runCount.toNat 0 rest)
    typed (expectConsumed rest bytes)
    return values
  | .forBitpack => do
    let (base, rest) ← typed (getIvarint bytes)
    match rest with
    | [] => throw (.corrupted (.corrupted "for truncated"))
    | bitWidth :: payload => do
      let offsets ← unpackBits payload count bitWidth.toNat
      return offsets.map fun offset => addOffset base offset.toBitVec
  | other =>
    let name := other.name
    .error (.corrupted (.corrupted s!"enc {name} is not an integer codec"))

end Ravel.Codec.Oracle
