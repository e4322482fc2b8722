/-
This file models the Gorilla pages of a segment: the bit writer and the bit reader, and the XOR code of a list of patterns.
-/

import Ravel.Construction.Segment.Varints

namespace Ravel.Segment

/-- The bits of an `f64`. -/
abbrev Pattern := BitVec 64

/-- Packs bits into bytes, the most significant first. -/
structure BitWriter where
  buf : Bytes
  cur : UInt8
  nbits : Nat

namespace BitWriter

def new (buf : Bytes) : BitWriter := ⟨buf, 0, 0⟩

def writeBit (writer : BitWriter) (bit : Bool) : BitWriter :=
  let cur := (writer.cur <<< 1) ||| (if bit then 1 else 0)
  if writer.nbits + 1 = 8 then ⟨writer.buf ++ [cur], 0, 0⟩ else ⟨writer.buf, cur, writer.nbits + 1⟩

/-- The low bits of a value, from the given number of them down. -/
def writeBits (writer : BitWriter) (value : Pattern) : Nat → BitWriter
  | 0 => writer
  | count + 1 => writeBits (writer.writeBit (decide ((value >>> count) &&& 1#64 = 1#64))) value count

def finish (writer : BitWriter) : Bytes :=
  if 0 < writer.nbits then writer.buf ++ [writer.cur <<< UInt8.ofNat (8 - writer.nbits)] else writer.buf

end BitWriter

/-- The shifts of a decoder whose amounts come from stored bytes: of a byte to the right, and of a word to the left. -/
structure Shifts where
  byteRight : UInt8 → Nat → UInt8
  wordLeft : Pattern → Nat → Option Pattern

/-- A checked shift refuses to shift a word by its width or more. -/
def machineShifts : Shifts where
  byteRight byte amount := byte >>> UInt8.ofNat amount
  wordLeft bits amount := if amount < 64 then some (bits <<< amount) else none

structure BitReader where
  data : Bytes
  bitPos : Nat

namespace BitReader

def readBit (shifts : Shifts) (reader : BitReader) : Except SegmentError (Bool × BitReader) :=
  let bitIdx := 7 - reader.bitPos % 8
  match reader.data[reader.bitPos / 8]? with
  | none => .error .truncated
  | some byte => .ok (decide (shifts.byteRight byte bitIdx &&& 1 = 1), ⟨reader.data, reader.bitPos + 1⟩)

def readBitsLoop (shifts : Shifts) : Nat → Pattern → BitReader → Except SegmentError (Pattern × BitReader)
  | 0, result, reader => .ok (result, reader)
  | count + 1, result, reader => do
    let (bit, next) ← reader.readBit shifts
    readBitsLoop shifts count ((result <<< 1) ||| (if bit then 1#64 else 0#64)) next

def readBits (shifts : Shifts) (reader : BitReader) (nbits : Nat) : Except SegmentError (Pattern × BitReader) :=
  if 64 < nbits then .error .corruptGorilla else readBitsLoop shifts nbits 0#64 reader

end BitReader

def mask64 (nbits : Nat) : Pattern :=
  if 64 ≤ nbits then BitVec.allOnes 64 else (1#64 <<< nbits) - 1#64

/-- The count of zero bits above the highest set bit. -/
def leadingZeros (bits : Pattern) : Nat :=
  ((List.range 64).takeWhile fun index => !bits.getLsbD (63 - index)).length

/-- The count of zero bits below the lowest set bit. -/
def trailingZeros (bits : Pattern) : Nat :=
  ((List.range 64).takeWhile fun index => !bits.getLsbD index).length

/-- The leading and trailing zeros of the block that the last new block opened. -/
abbrev BlockWindow := Option (Nat × Nat)

def reusesWindow (window : BlockWindow) (lead trail : Nat) : Bool :=
  match window with
  | none => false
  | some (windowLead, windowTrail) => decide (windowLead ≤ lead) && decide (windowTrail ≤ trail)

/-- One value after the first. -/
def encodeNext (writer : BitWriter) (prev cur : Pattern) (window : BlockWindow) : BitWriter × BlockWindow :=
  let xor := cur ^^^ prev
  if xor = 0#64 then (writer.writeBit false, window)
  else
    let realLead := leadingZeros xor
    let trail := trailingZeros xor
    match window, reusesWindow window realLead trail with
    | some (windowLead, windowTrail), true =>
      let meaningfulLen := 64 - windowLead - windowTrail
      let meaningful := (xor >>> windowTrail) &&& mask64 meaningfulLen
      ((((writer.writeBit true).writeBit false).writeBits meaningful meaningfulLen), window)
    | _, _ =>
      let lead := min realLead 31
      let meaningfulLen := 64 - lead - trail
      let meaningful := (xor >>> trail) &&& mask64 meaningfulLen
      let header := ((((writer.writeBit true).writeBit true).writeBits (BitVec.ofNat 64 lead) 5).writeBits
        (BitVec.ofNat 64 (meaningfulLen - 1)) 6)
      (header.writeBits meaningful meaningfulLen, some (lead, trail))

def encodeRest (writer : BitWriter) (prev : Pattern) (window : BlockWindow) : List Pattern → BitWriter
  | [] => writer
  | cur :: rest =>
    let (next, nextWindow) := encodeNext writer prev cur window
    encodeRest next cur nextWindow rest

def encodeGorillaInto (values : List Pattern) (out : Bytes) : Bytes :=
  match values with
  | [] => (BitWriter.new out).finish
  | first :: rest => (encodeRest ((BitWriter.new out).writeBits first 64) first none rest).finish

structure DecodeState where
  reader : BitReader
  prev : Pattern
  window : BlockWindow

def checkedSub (left right : Nat) : Option Nat :=
  if right ≤ left then some (left - right) else none

/-- The pattern that the meaningful bits of a block change the last one by. -/
def shiftedBits (shifts : Shifts) (reader : BitReader) (meaningfulLen trail : Nat) :
    Except SegmentError (Pattern × BitReader) := do
  let (bits, next) ← reader.readBits shifts meaningfulLen
  match shifts.wordLeft bits trail with
  | none => throw .corruptGorilla
  | some xor => return (xor, next)

/-- One value after the first. -/
def decodeNext (shifts : Shifts) (state : DecodeState) : Except SegmentError DecodeState := do
  let (changed, reader) ← state.reader.readBit shifts
  if !changed then return ⟨reader, state.prev, state.window⟩
  else
    let (opens, reader) ← reader.readBit shifts
    if !opens then
      match state.window with
      | none => throw .corruptGorilla
      | some (lead, trail) =>
        match ((checkedSub 64 lead).bind fun rest => checkedSub rest trail).filter fun length => 0 < length with
        | none => throw .corruptGorilla
        | some meaningfulLen => do
          let (xor, reader) ← shiftedBits shifts reader meaningfulLen trail
          return ⟨reader, state.prev ^^^ xor, state.window⟩
    else
      let (lead, reader) ← reader.readBits shifts 5
      let (lenMinus1, reader) ← reader.readBits shifts 6
      let meaningfulLen := lenMinus1.toNat + 1
      match (checkedSub 64 lead.toNat).bind fun rest => checkedSub rest meaningfulLen with
      | none => throw .corruptGorilla
      | some trail => do
        let (xor, reader) ← shiftedBits shifts reader meaningfulLen trail
        return ⟨reader, state.prev ^^^ xor, some (lead.toNat, trail)⟩

def decodeRest (shifts : Shifts) : Nat → DecodeState → List Pattern → Except SegmentError (List Pattern)
  | 0, _, out => .ok out
  | count + 1, state, out => do
    let next ← decodeNext shifts state
    decodeRest shifts count next (out ++ [next.prev])

/-- The decoder, over the shifts that it uses. -/
def decodeGorillaWith (shifts : Shifts) (bytes : Bytes) (count : Nat) (out : List Pattern) :
    Except SegmentError (List Pattern) :=
  match count with
  | 0 => .ok out
  | rest + 1 => do
    let (first, reader) ← (BitReader.mk bytes 0).readBits shifts 64
    decodeRest shifts rest ⟨reader, first, none⟩ (out ++ [first])

def decodeGorillaInto (bytes : Bytes) (count : Nat) (out : List Pattern) : Except SegmentError (List Pattern) :=
  decodeGorillaWith machineShifts bytes count out

end Ravel.Segment
