/-
This file models the integer codecs of a page: the candidates that the writer measures, and the decoder of each.
-/

import Ravel.Construction.Codec.Varints
import Ravel.Library.LittleEndian

namespace Ravel.Codec

open Logs Library

/-- The encoding tags of the format. -/
inductive Enc where
  | plain
  | constant
  | rle
  | deltaZigzag
  | doubleDelta
  | forBitpack
  | dict
  | bitmap
  | fixedWidth
  | gcdI64
  | columnRef
  | dictPage
  | dictIds
  deriving DecidableEq, Repr

namespace Enc

def toU8 : Enc → UInt8
  | .plain => 1
  | .constant => 2
  | .rle => 3
  | .deltaZigzag => 4
  | .doubleDelta => 5
  | .forBitpack => 6
  | .dict => 7
  | .bitmap => 8
  | .fixedWidth => 9
  | .gcdI64 => 10
  | .columnRef => 11
  | .dictPage => 12
  | .dictIds => 13

def fromU8 (tag : UInt8) : Except CodecError Enc :=
  match tag.toNat with
  | 1 => .ok .plain
  | 2 => .ok .constant
  | 3 => .ok .rle
  | 4 => .ok .deltaZigzag
  | 5 => .ok .doubleDelta
  | 6 => .ok .forBitpack
  | 7 => .ok .dict
  | 8 => .ok .bitmap
  | 9 => .ok .fixedWidth
  | 10 => .ok .gcdI64
  | 11 => .ok .columnRef
  | 12 => .ok .dictPage
  | 13 => .ok .dictIds
  | other => .error (.corrupted s!"unknown enc tag {other}")

/-- The name that error texts print. -/
def name : Enc → String
  | .plain => "Plain"
  | .constant => "Constant"
  | .rle => "Rle"
  | .deltaZigzag => "DeltaZigzag"
  | .doubleDelta => "DoubleDelta"
  | .forBitpack => "ForBitpack"
  | .dict => "Dict"
  | .bitmap => "Bitmap"
  | .fixedWidth => "FixedWidth"
  | .gcdI64 => "GcdI64"
  | .columnRef => "ColumnRef"
  | .dictPage => "DictPage"
  | .dictIds => "DictIds"

end Enc

/-- Nothing may be left of the bytes of a page. -/
def expectConsumed (rest bytes : Bytes) : Except CodecError Unit :=
  if rest.isEmpty then .ok ()
  else
    let left := rest.length
    let total := bytes.length
    .error (.corrupted s!"codec left {left} of {total} bytes unconsumed")

/-- The low bits of a word. -/
def widthMask (bitWidth : Nat) : BitVec 64 :=
  if bitWidth = 64 then BitVec.allOnes 64 else (1#64 <<< bitWidth) - 1#64

/-- The whole bytes of the accumulator, and what it keeps. -/
def flushBytes : Nat → BitVec 128 → Nat → Bytes × BitVec 128 × Nat
  | 0, acc, nbits => ([], acc, nbits)
  | steps + 1, acc, nbits =>
    if nbits < 8 then ([], acc, nbits)
    else
      let (bytes, kept, left) := flushBytes steps (acc >>> 8) (nbits - 8)
      (UInt8.ofBitVec (acc.truncate 8) :: bytes, kept, left)

/-- Packs values from the least significant bit on. A value adds at most 64 bits to the at most 7 that are kept. -/
def packLoop (bitWidth : Nat) : List UInt64 → BitVec 128 → Nat → Bytes
  | [], acc, nbits => if 0 < nbits then [UInt8.ofBitVec (acc.truncate 8)] else []
  | value :: rest, acc, nbits =>
    let (bytes, kept, left) :=
      flushBytes 9 (acc ||| (value.toBitVec &&& widthMask bitWidth).zeroExtend 128 <<< nbits) (nbits + bitWidth)
    bytes ++ packLoop bitWidth rest kept left

def packBits (values : List UInt64) (bitWidth : Nat) : Bytes :=
  if bitWidth = 0 then [] else packLoop bitWidth values 0#128 0

/-- The bits that a value takes. -/
def widthFor (range : UInt64) : Nat :=
  if range = 0 then 0 else 64 - range.toBitVec.clz.toNat

def encPlainI64 (values : List Int64) : Bytes :=
  values.flatMap putIvarint

def encConstantI64 (value : Int64) : Bytes :=
  putIvarint value

/-- A value lengthens the last run, or starts one. -/
def pushRun (runs : List (Int64 × Nat)) (value : Int64) : List (Int64 × Nat) :=
  match runs.getLast? with
  | some (runValue, length) =>
    if runValue = value then runs.dropLast ++ [(runValue, length + 1)] else runs ++ [(value, 1)]
  | none => [(value, 1)]

def encRleI64 (values : List Int64) : Bytes :=
  let runs := values.foldl pushRun []
  putUvarint (UInt64.ofNat runs.length) ++
    runs.flatMap fun run => putIvarint run.1 ++ putUvarint (UInt64.ofNat run.2)

/-- The deltas between neighbours, unless one overflows. -/
def checkedDeltas : List Int64 → Option (List Int64)
  | first :: second :: rest => do
    let delta ← checkedSub second first
    let deltas ← checkedDeltas (second :: rest)
    return delta :: deltas
  | _ => some []

/-- Delta-zigzag, unless a delta overflows. -/
def encDeltaI64 (values : List Int64) : Option Bytes :=
  match values with
  | [] => some []
  | first :: _ => do
    let deltas ← checkedDeltas values
    return putIvarint first ++ deltas.flatMap putIvarint

/-- The differences of the deltas after the first, unless a delta or a difference overflows. -/
def checkedDoubleDeltas (prevDelta : Int64) : List Int64 → Option (List Int64)
  | previous :: value :: rest => do
    let delta ← checkedSub value previous
    let dod ← checkedSub delta prevDelta
    let dods ← checkedDoubleDeltas delta (value :: rest)
    return dod :: dods
  | _ => some []

def encDoubleDeltaI64 (values : List Int64) : Option Bytes :=
  match values with
  | [] => some []
  | [first] => some (putIvarint first)
  | first :: second :: rest => do
    let delta ← checkedSub second first
    let dods ← checkedDoubleDeltas delta (second :: rest)
    return putIvarint first ++ putIvarint delta ++ dods.flatMap putIvarint

def minI64 (values : List Int64) : Int64 :=
  (values.min?).getD 0

def maxI64 (values : List Int64) : Int64 :=
  (values.max?).getD 0

/-- The distance of a value from the base, wrapping. -/
def offsetFrom (base value : Int64) : UInt64 :=
  value.toUInt64 - base.toUInt64

def encForI64 (values : List Int64) : Bytes :=
  let base := minI64 values
  let bitWidth := widthFor (offsetFrom base (maxI64 values))
  putIvarint base ++ UInt8.ofNat bitWidth :: packBits (values.map (offsetFrom base)) bitWidth

/-- The applicable codecs in the order that breaks ties. -/
def candidatesI64 (values : List Int64) (first : Int64) : List (Enc × Bytes) :=
  (if values.all fun value => value = first then [(.constant, encConstantI64 first)] else []) ++
    [(.rle, encRleI64 values), (.plain, encPlainI64 values)] ++
    (encDeltaI64 values).toList.map (fun bytes => (.deltaZigzag, bytes)) ++
    (encDoubleDeltaI64 values).toList.map (fun bytes => (.doubleDelta, bytes)) ++
    [(.forBitpack, encForI64 values)]

/-- A candidate replaces the best when it is shorter. -/
def keepSmaller (best : Option (Enc × Bytes)) (candidate : Enc × Bytes) : Option (Enc × Bytes) :=
  match best with
  | some kept => if kept.2.length ≤ candidate.2.length then best else some candidate
  | none => some candidate

def encodeI64 (values : List Int64) : Enc × Bytes :=
  match values with
  | [] => (.plain, [])
  | first :: _ => ((candidatesI64 values first).foldl keepSmaller none).getD (.plain, [])

/-- The number that bytes spell, the least significant first. -/
def littleEndianWord (bytes : Bytes) : BitVec 64 :=
  BitVec.ofNat 64 (littleEndian bytes)

/-- The eight bytes at the front, as one word. -/
def loadWindow (bytes : Bytes) : Option (BitVec 64) :=
  if bytes.length < 8 then none else some (littleEndianWord (bytes.take 8))

/-- A read of several values: those that are final, and the bytes left or the failure. -/
abbrev Partial := List Int64 × Except CodecError Bytes

def Partial.prepend (values : List Int64) (later : Partial) : Partial :=
  (values ++ later.1, later.2)

/-- One varint. The form of one byte is taken inline. -/
def readIvarint (bytes : Bytes) : Except CodecError (Int64 × Bytes) :=
  match bytes with
  | byte :: rest => if byte < 0x80 then .ok (zigzagDecode byte.toUInt64, rest) else getIvarint bytes
  | [] => getIvarint bytes

/-- The last varints of a page, one at a time. -/
def readRemaining : Nat → Bytes → Partial
  | 0, bytes => ([], .ok bytes)
  | wanted + 1, bytes =>
    match readIvarint bytes with
    | .error error => ([], .error error)
    | .ok (value, rest) => Partial.prepend [value] (readRemaining wanted rest)

/-- The highest bit of each byte of a word. -/
def stopBits : BitVec 64 := 0x8080808080808080#64

/-- Joins the seven-bit groups of up to eight bytes: pairs of bytes, then of pairs, then of fours. -/
def compactVarint (word : BitVec 64) : BitVec 64 :=
  let pairs := (word &&& 0x007f007f007f007f#64) ||| ((word &&& 0x7f007f007f007f00#64) >>> 1)
  let fours := (pairs &&& 0x00003fff00003fff#64) ||| ((pairs &&& 0x3fff00003fff0000#64) >>> 2)
  (fours &&& 0x000000000fffffff#64) ||| ((fours &&& 0x0fffffff00000000#64) >>> 4)

/-- The value of a varint of the given number of bits. One of two bytes is joined directly. -/
def joinVarint (word : BitVec 64) (bits : Nat) : BitVec 64 :=
  if bits ≤ 16 then (word &&& 0x7f#64) ||| ((word >>> 1) &&& 0x3f80#64) else compactVarint word

/-- The varints that end inside a window, from a bit offset on, with the offset that they end at. The stops are the highest
bits of the bytes not yet passed that end a varint. -/
def windowVarints (window : BitVec 64) : Nat → Nat → BitVec 64 → List Int64 × Nat
  | 0, start, _ => ([], start)
  | wanted + 1, start, stops =>
    if stops = 0#64 then ([], start)
    else
      let stop := stops.ctz.toNat + 1
      let bits := stop - start
      let word := (window >>> start) &&& (BitVec.allOnes 64 >>> (64 - bits))
      -- A last byte of zero after the first is not canonical.
      if 8 < bits ∧ word >>> (bits - 8) = 0#64 then ([], start)
      else
        let (values, last) := windowVarints window wanted stop (stops &&& (stops - 1#64))
        (zigzagDecode (UInt64.ofBitVec (joinVarint word bits)) :: values, last)

/-- The varints of a page through eight-byte windows. A step reads a value or reaches the last bytes of the page, so the number
of values bounds the steps. -/
def varintsLoop : Nat → Nat → Bytes → Partial
  | 0, wanted, bytes => readRemaining wanted bytes
  | steps + 1, wanted, bytes =>
    if wanted = 0 then ([], .ok bytes)
    else
      match loadWindow bytes with
      | none => readRemaining wanted bytes
      | some window =>
        if window &&& stopBits = 0#64 ∧ 8 ≤ wanted then
          Partial.prepend ((bytes.take 8).map fun byte => zigzagDecode byte.toUInt64)
            (varintsLoop steps (wanted - 8) (bytes.drop 8))
        else
          let (values, last) := windowVarints window wanted 0 (~~~window &&& stopBits)
          if last = 0 then
            match getIvarint bytes with
            | .error error => ([], .error error)
            | .ok (value, rest) => Partial.prepend [value] (varintsLoop steps (wanted - 1) rest)
          else Partial.prepend values (varintsLoop steps (wanted - values.length) (bytes.drop (last / 8)))

def varintsInto (bytes : Bytes) (wanted : Nat) : Partial :=
  varintsLoop wanted wanted bytes

/-- The values of a first value and its deltas that do not overflow, and the failure at the one that does. -/
def deltaSumsFrom (previous : Int64) : List Int64 → List Int64 × Option CodecError
  | [] => ([], none)
  | delta :: rest =>
    match checkedAdd previous delta with
    | none => ([], some (.corrupted "delta overflow"))
    | some value =>
      let (values, failure) := deltaSumsFrom value rest
      (value :: values, failure)

def deltaSums : List Int64 → List Int64 × Option CodecError
  | [] => ([], none)
  | first :: rest =>
    let (values, failure) := deltaSumsFrom first rest
    (first :: values, failure)

def doubleDeltaSumsFrom (value prevDelta : Int64) : List Int64 → List Int64 × Option CodecError
  | [] => ([], none)
  | dod :: rest =>
    match checkedAdd prevDelta dod with
    | none => ([], some (.corrupted "double-delta overflow"))
    | some delta =>
      match checkedAdd value delta with
      | none => ([], some (.corrupted "double-delta overflow"))
      | some next =>
        let (values, failure) := doubleDeltaSumsFrom next delta rest
        (next :: values, failure)

def doubleDeltaSums : List Int64 → List Int64 × Option CodecError
  | [] => ([], none)
  | [first] => ([first], none)
  | first :: delta :: rest =>
    match checkedAdd first delta with
    | none => ([first], some (.corrupted "double-delta overflow"))
    | some value =>
      let (values, failure) := doubleDeltaSumsFrom value delta rest
      (first :: value :: values, failure)

def sumsOf (enc : Enc) (values : List Int64) : List Int64 × Option CodecError :=
  match enc with
  | .deltaZigzag => deltaSums values
  | .doubleDelta => doubleDeltaSums values
  | _ => (values, none)

/-- The values of a page of varints, each mapped. On a failure the values before it are mapped first. -/
def decodeVarints (enc : Enc) (bytes : Bytes) (count : Nat) (map : Int64 → Except CodecError Int64) :
    Except CodecError (List Int64 × Bytes) :=
  let read := varintsInto bytes count
  let (values, failure) := sumsOf enc read.1
  match failure, read.2 with
  | some error, _ => do
    let _ ← values.mapM map
    throw error
  | none, .error error => do
    let _ ← values.mapM map
    throw error
  | none, .ok rest => do return (← values.mapM map, rest)

/-- The runs of a page, each value mapped, until their lengths sum to the count. -/
def decodeRleLoop (count : Nat) (map : Int64 → Except CodecError Int64) :
    Nat → Nat → Bytes → Except CodecError (List Int64 × Bytes)
  | 0, total, bytes => if total = count then .ok ([], bytes) else .error (.corrupted "rle short of count")
  | runs + 1, total, bytes => do
    let (value, rest) ← getIvarint bytes
    let (run, rest) ← getUvarint rest
    if 2 ^ 64 ≤ total + run.toNat then throw (.corrupted "rle run overflow")
    else if count < total + run.toNat then throw (.corrupted "rle exceeds count")
    else
      let filled ← if 0 < run.toNat then List.replicate run.toNat <$> map value else pure []
      let (values, rest) ← decodeRleLoop count map runs (total + run.toNat) rest
      return (filled ++ values, rest)

def decodeRle (bytes : Bytes) (count : Nat) (map : Int64 → Except CodecError Int64) :
    Except CodecError (List Int64 × Bytes) := do
  let (runCount, rest) ← getUvarint bytes
  decodeRleLoop count map runCount.toNat 0 rest

/-- The packed bytes are exactly as long as the values take. -/
def checkPackedLen (buf : Bytes) (count bitWidth : Nat) : Except CodecError Unit :=
  if 64 < bitWidth then .error (.corrupted s!"bit_width {bitWidth} > 64")
  else if bitWidth = 0 then if buf.isEmpty then .ok () else .error (.corrupted "bit_width 0 with payload")
  else if 2 ^ 64 ≤ count * bitWidth then .error (.corrupted "packed length overflow")
  else
    let need := (count * bitWidth + 7) / 8
    let length := buf.length
    if length = need then .ok () else .error (.corrupted s!"packed length {length} != {need}")

def forHeader (bytes : Bytes) (count : Nat) : Except CodecError (Int64 × Nat × Bytes) := do
  let (base, rest) ← getIvarint bytes
  match rest with
  | [] => throw (.corrupted "for truncated")
  | bitWidth :: payload => do
    checkPackedLen payload count bitWidth.toNat
    return (base, bitWidth.toNat, payload)

/-- The value at an offset from the base, wrapping. -/
def addOffset (base : Int64) (offset : BitVec 64) : Int64 :=
  (base.toUInt64 + UInt64.ofBitVec offset).toInt64

/-- Up to nine bytes, for a value that one window may not hold. -/
def wideOffset (buf : Bytes) (bitWidth index : Nat) : BitVec 64 :=
  let offset := index * bitWidth
  let acc := BitVec.ofNat 128 (littleEndian ((buf.drop (offset / 8)).take 9))
  (acc >>> (offset % 8)).truncate 64 &&& widthMask bitWidth

def unpackWide (buf : Bytes) (bitWidth : Nat) (base : Int64) : Nat → Nat → List Int64
  | 0, _ => []
  | wanted + 1, index => addOffset base (wideOffset buf bitWidth index) :: unpackWide buf bitWidth base wanted (index + 1)

/-- The values whose window is in the buffer, and the rest from wider reads. -/
def unpackWindows (buf : Bytes) (bitWidth : Nat) (base : Int64) : Nat → Nat → List Int64
  | 0, _ => []
  | wanted + 1, index =>
    let offset := index * bitWidth
    match loadWindow (buf.drop (offset / 8)) with
    | none => unpackWide buf bitWidth base (wanted + 1) index
    | some window =>
      addOffset base ((window >>> (offset % 8)) &&& widthMask bitWidth) ::
        unpackWindows buf bitWidth base wanted (index + 1)

def unpackFor (buf : Bytes) (bitWidth : Nat) (base : Int64) (count : Nat) : List Int64 :=
  if bitWidth = 0 then List.replicate count base
  else if bitWidth ≤ 56 then unpackWindows buf bitWidth base count 0
  else unpackWide buf bitWidth base count 0

def decodeI64 (enc : Enc) (bytes : Bytes) (count : Nat) : Except CodecError (List Int64) :=
  match enc with
  | .constant => do
    let (value, rest) ← getIvarint bytes
    expectConsumed rest bytes
    return List.replicate count value
  | .rle => do
    let (values, rest) ← decodeRle bytes count .ok
    expectConsumed rest bytes
    return values
  | .forBitpack => do
    let (base, bitWidth, payload) ← forHeader bytes count
    return unpackFor payload bitWidth base count
  | .plain | .deltaZigzag | .doubleDelta =>
    if bytes.length < count then do
      -- A value takes a byte, so there are fewer than `count`.
      let (_, rest) ← decodeVarints enc bytes bytes.length .ok
      let _ ← getIvarint rest
      throw (.corrupted "varint truncated")
    else do
      let (values, rest) ← decodeVarints enc bytes count .ok
      expectConsumed rest bytes
      return values
  | other =>
    let name := other.name
    .error (.corrupted s!"enc {name} is not an integer codec")

end Ravel.Codec
