/-
This file models the decoder of a page into the rows of a block: the count of present rows, and the move of the values in place.
-/

import Ravel.Construction.Codec.Integers

namespace Ravel.Codec

open Logs Library

/-- The set bits among the lowest ones of a number. -/
def countOnes (width number : Nat) : Nat :=
  (List.range width).countP fun index => number.testBit index

/-- The set bits among the first rows: the whole bytes eight at a time, the bytes left, and the bits of the last byte. -/
def countPresent (bits : Bytes) (rows : Nat) : Except CodecError Nat :=
  let length := bits.length
  let need := (rows + 7) / 8
  if length ≠ need then .error (.corrupted s!"bitmap length {length} != {need}")
  else
    let full := rows / 8
    let words := (List.range (full / 8)).map fun index => ((bits.take full).drop (8 * index)).take 8
    let rest := (bits.take full).drop (8 * (full / 8))
    let tail := rows % 8
    let last := if 0 < tail then countOnes 8 ((bits.getD full 0).toNat &&& (2 ^ tail - 1)) else 0
    .ok ((words.map fun word => countOnes 64 (littleEndian word)).sum +
      (rest.map fun byte => countOnes 8 byte.toNat).sum + last)

/-- The rows from one on, each overwritten. -/
def overwrite (out : List Int64) (start : Nat) (values : List Int64) : List Int64 :=
  out.take start ++ values ++ out.drop (start + values.length)

/-- The rows of a byte from values that are taken before a row is written. Each row takes the value of its rank. -/
def rankedRows (byte : UInt8) (vals : List Int64) : Nat → Nat → Nat → List Int64 × Nat
  | 0, _, rank => ([], rank)
  | left + 1, bit, rank =>
    let present : Nat := if byte.toNat.testBit bit then 1 else 0
    let (rows, last) := rankedRows byte vals left (bit + 1) (rank + present)
    ((vals.getD rank 0 &&& -Int64.ofNat present) :: rows, last)

/-- The rows of a byte one by one, each from the slot of the next value. -/
def movedRows (byte : UInt8) (base : Nat) : Nat → Nat → Nat → List Int64 → List Int64 × Nat
  | 0, _, src, out => (out, src)
  | left + 1, bit, src, out =>
    if byte.toNat.testBit bit then movedRows byte base left (bit + 1) (src + 1) (out.set (base + bit) (out.getD src 0))
    else movedRows byte base left (bit + 1) src (out.set (base + bit) 0)

/-- The values at the back move to the rows of the bytes, in order. When the next value stands at the next row, every value
that is left is in place. -/
def scatterLoop : Bytes → Nat → Nat → List Int64 → List Int64
  | [], _, _, out => out
  | stored :: bits, base, src, out =>
    if src = base then out
    else
      let width := min (out.length - base) 8
      let byte := stored &&& UInt8.ofNat (0xff >>> (8 - width))
      if byte = 0 then scatterLoop bits (base + 8) src (overwrite out base (List.replicate width 0))
      else if width = 8 ∧ src + 8 ≤ out.length then
        let (rows, rank) := rankedRows byte ((out.drop src).take 8) 8 0 0
        scatterLoop bits (base + 8) (src + rank) (overwrite out base rows)
      else
        let (out, src) := movedRows byte base width 0 src out
        scatterLoop bits (base + 8) src out

def scatterPresent (bits : Bytes) (out : List Int64) (count : Nat) : List Int64 :=
  scatterLoop bits 0 (out.length - count) out

/-- Exactly as many values as counted, each mapped. Nothing of the page may be left. -/
def decodeDense (enc : Enc) (bytes : Bytes) (count : Nat) (map : Int64 → Except CodecError Int64) :
    Except CodecError (List Int64) :=
  match enc with
  | .constant => do
    let (value, rest) ← getIvarint bytes
    let values ← if count = 0 then pure [] else List.replicate count <$> map value
    expectConsumed rest bytes
    return values
  | .rle => do
    let (values, rest) ← decodeRle bytes count map
    expectConsumed rest bytes
    return values
  | .forBitpack => do
    let (base, bitWidth, payload) ← forHeader bytes count
    (unpackFor payload bitWidth base count).mapM map
  | .plain | .deltaZigzag | .doubleDelta => do
    let (values, rest) ← decodeVarints enc bytes count map
    expectConsumed rest bytes
    return values
  | other =>
    let name := other.name
    .error (.corrupted s!"enc {name} is not an integer codec")

/-- The present values of a page in the rows of a block, and how many there are. -/
def decodeI64Into (enc : Enc) (bytes : Bytes) (presence : Option Bytes) (out : List Int64)
    (map : Int64 → Except CodecError Int64) : Except CodecError (Nat × List Int64) :=
  match presence with
  | none => do
    let values ← decodeDense enc bytes out.length map
    return (out.length, values)
  | some bits => do
    let count ← countPresent bits out.length
    let values ← decodeDense enc bytes count map
    return (count, scatterPresent bits (overwrite out (out.length - count) values) count)

end Ravel.Codec
