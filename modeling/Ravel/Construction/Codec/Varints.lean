/-
This file models the LEB128 varints of the page codecs and the checked arithmetic of their 64-bit values.
-/

import Ravel.Construction.Logs.CanonicalAttrs

namespace Ravel.Codec

open Logs

abbrev Bytes := List UInt8

/-- How a reader of varints fails. A reader without an error for a redundant last group accepts it. -/
structure VarintErrors (Error : Type) where
  truncated : Error
  outOfRange : Error
  tooLong : Error
  nonCanonical : Option Error

/-- The LEB128 loop with `remaining` bytes left before the encoding is too long. It returns the bytes that it leaves. -/
def readVarintLoop {Error : Type} (errors : VarintErrors Error) (result : UInt64) :
    Nat → Bytes → Except Error (UInt64 × Bytes)
  | 0, _ => .error errors.tooLong
  | _ + 1, [] => .error errors.truncated
  | remaining + 1, byte :: rest =>
    let index := maxVarintBytes - (remaining + 1)
    let low7 := (byte &&& 0x7f).toUInt64
    -- The tenth byte carries one meaningful bit.
    if index = maxVarintBytes - 1 ∧ 1 < low7 then .error errors.outOfRange
    else
      let combined := result ||| (low7 <<< UInt64.ofNat (7 * index))
      if byte &&& 0x80 = 0 then
        match errors.nonCanonical with
        | some error => if 0 < index ∧ byte = 0 then .error error else .ok (combined, rest)
        | none => .ok (combined, rest)
      else readVarintLoop errors combined remaining rest

inductive CodecError where
  | corrupted (what : String)
  deriving DecidableEq, Repr

def codecVarintErrors : VarintErrors CodecError where
  truncated := .corrupted "varint truncated"
  outOfRange := .corrupted "varint out of range"
  tooLong := .corrupted "varint too long"
  nonCanonical := some (.corrupted "non-canonical varint")

def getUvarint (bytes : Bytes) : Except CodecError (UInt64 × Bytes) :=
  readVarintLoop codecVarintErrors 0 maxVarintBytes bytes

def getIvarint (bytes : Bytes) : Except CodecError (Int64 × Bytes) := do
  let (value, rest) ← getUvarint bytes
  return (zigzagDecode value, rest)

def putIvarint (value : Int64) : Bytes :=
  putUvarint (zigzag value)

/-- The value of an integer, unless it overflows. -/
def ofIntChecked (value : Int) : Option Int64 :=
  if -2 ^ 63 ≤ value ∧ value < 2 ^ 63 then some (Int64.ofInt value) else none

def checkedAdd (left right : Int64) : Option Int64 :=
  ofIntChecked (left.toInt + right.toInt)

def checkedSub (left right : Int64) : Option Int64 :=
  ofIntChecked (left.toInt - right.toInt)

def checkedMul (left right : Int64) : Option Int64 :=
  ofIntChecked (left.toInt * right.toInt)

end Ravel.Codec
