/-
This file models log attribute values and the decoder of the `stream_attrs` blob.
-/

import Mathlib.Algebra.Order.Ring.Int
import Mathlib.Data.List.Basic

namespace Ravel.Logs

/-- A typed attribute value. An `f64` is its bit pattern. -/
inductive AttrValue where
  | str (value : String)
  | i64 (value : Int64)
  | f64 (bits : UInt64)
  | bool (value : Bool)
  | bytes (value : List UInt8)
  | list (items : List AttrValue)
  | map (entries : List (String × AttrValue))

inductive LogSegError where
  | corrupted (what : String)
  | limitExceeded (what : String)
  | inconsistentStreamAttrs (what : String)
  deriving DecidableEq, Repr

/-- The read position in a blob together with the bytes after it. -/
structure Cursor where
  pos : Nat
  rest : List UInt8

abbrev Decoder := StateT Cursor (Except LogSegError)

def corrupt (what : String) : LogSegError :=
  .corrupted ("stream_attrs: " ++ what)

/-- The next byte, or the given error at the end of the blob. -/
def nextByte (truncated : LogSegError) : Decoder UInt8 := fun cursor =>
  match cursor.rest with
  | [] => .error truncated
  | byte :: rest => .ok (byte, ⟨cursor.pos + 1, rest⟩)

def readU8 : Decoder UInt8 :=
  nextByte (corrupt "stream_attrs truncated")

/-- The next `count` bytes. The position is a 64-bit `usize`. -/
def advance (count : Nat) : Decoder (List UInt8) := fun cursor =>
  if 2 ^ 64 ≤ cursor.pos + count then .error (corrupt "stream_attrs length overflow")
  else if cursor.rest.length < count then .error (corrupt "stream_attrs truncated")
  else .ok (cursor.rest.take count, ⟨cursor.pos + count, cursor.rest.drop count⟩)

def maxVarintBytes : Nat := 10

/-- The LEB128 loop with `remaining` bytes left before the encoding is too long. -/
def getUvarintLoop (result : UInt64) : Nat → Decoder UInt64
  | 0 => throw (.corrupted "varint too long")
  | remaining + 1 => do
    let index := maxVarintBytes - (remaining + 1)
    let byte ← nextByte (.corrupted "varint truncated")
    let low7 := (byte &&& 0x7f).toUInt64
    -- The tenth byte carries one meaningful bit.
    if index = maxVarintBytes - 1 ∧ 1 < low7 then throw (.corrupted "varint out of range")
    else
      let combined := result ||| (low7 <<< UInt64.ofNat (7 * index))
      if byte &&& 0x80 = 0 then
        if 0 < index ∧ byte = 0 then throw (.corrupted "non-canonical varint") else pure combined
      else getUvarintLoop combined remaining

def getUvarint : Decoder UInt64 :=
  getUvarintLoop 0 maxVarintBytes

def zigzagDecode (value : UInt64) : Int64 :=
  (value >>> 1).toInt64 ^^^ -(value &&& 1).toInt64

def getIvarint : Decoder Int64 := do
  return zigzagDecode (← getUvarint)

/-- The text of a byte run, or the given error when it is not UTF-8. -/
def utf8Text (invalid : String) (bytes : List UInt8) : Decoder String :=
  match String.fromUTF8? bytes.toByteArray with
  | some text => pure text
  | none => throw (corrupt invalid)

/-- A length-prefixed text. -/
def decodeText (invalid : String) : Decoder String := do
  let length ← getUvarint
  utf8Text invalid (← advance length.toNat)

def maxAttrDepth : Nat := 32

def maxAttrEntries : UInt64 := 1048576

/-- The decoder runs `count` times and its values are in order. -/
def decodeTimes {Value : Type} (decode : Decoder Value) : Nat → Decoder (List Value)
  | 0 => pure []
  | count + 1 => do
    let first ← decode
    let rest ← decodeTimes decode count
    return first :: rest

/-- The little-endian value of eight bytes. -/
def littleEndian64 (bytes : List UInt8) : UInt64 :=
  bytes.foldr (fun byte value => (value <<< 8) ||| byte.toUInt64) 0

/- A level past the depth cap has budget zero: the budget at depth `d` is `maxAttrDepth + 1 - d`. -/
mutual

def decodeAttrSet : Nat → Decoder (List (String × AttrValue))
  | 0 => throw (corrupt "stream_attrs nesting too deep")
  | budget + 1 => do
    let count ← getUvarint
    if maxAttrEntries < count then throw (corrupt "stream_attrs entry count over cap")
    else
      decodeTimes (do
        let key ← decodeText "stream_attrs key not utf-8"
        let value ← decodeValue budget
        return (key, value)) count.toNat

def decodeValue : Nat → Decoder AttrValue
  | 0 => throw (corrupt "stream_attrs nesting too deep")
  | budget + 1 => do
    let tag ← readU8
    match tag with
    | 1 => return .str (← decodeText "stream_attrs str not utf-8")
    | 2 => return .i64 (← getIvarint)
    | 3 => return .f64 (littleEndian64 (← advance 8))
    | 4 => return .bool ((← readU8) != 0)
    | 5 => return .bytes (← advance (← getUvarint).toNat)
    | 6 =>
      let count ← getUvarint
      if maxAttrEntries < count then throw (corrupt "stream_attrs list length over cap")
      else return .list (← decodeTimes (decodeValue budget) count.toNat)
    | 7 => return .map (← decodeAttrSet budget)
    | _ => throw (corrupt "bad stream_attrs value tag")

end

/-- The decoded form of a `stream_attrs` blob. -/
structure StreamAttrs where
  resource : List (String × AttrValue)
  scopeName : String
  scopeVersion : String
  scopeAttrs : List (String × AttrValue)

/-- The decoder of a whole blob. Bytes after the scope attributes are ignored. -/
def decodeStreamAttrs (blob : List UInt8) : Except LogSegError StreamAttrs :=
  let decoder : Decoder StreamAttrs := do
    let resource ← decodeAttrSet (maxAttrDepth + 1)
    let scopeName ← decodeText "stream_attrs scope name/version not utf-8"
    let scopeVersion ← decodeText "stream_attrs scope name/version not utf-8"
    let scopeAttrs ← decodeAttrSet (maxAttrDepth + 1)
    return ⟨resource, scopeName, scopeVersion, scopeAttrs⟩
  (decoder ⟨0, blob⟩).map Prod.fst

/-- The fields of a log record that erasure reads. -/
structure LogRecord where
  streamAttrs : List UInt8
  tsNs : Int
  attrs : List (String × AttrValue)

end Ravel.Logs
