/-
This file models the events of a span: the hexadecimal attribute that carries them, its parser, and the value rebuilt on read.
-/

import Ravel.Construction.Codec.Varints
import Ravel.Construction.Logs.Records

namespace Ravel.Spans

open Codec Logs

/-- One event, with the whole serialized message and two fields projected out of it. -/
structure SpanEvent where
  tsNs : Int64
  name : String
  attrsBlob : Bytes
  deriving DecidableEq

inductive WireField where
  | varint (value : UInt64)
  | fixed64 (bytes : Bytes)
  | fixed32
  | len (bytes : Bytes)

/-- The next bytes of a message, unless it ends before. -/
def takeExactly (count : Nat) (rest : Bytes) : Option (Bytes × Bytes) :=
  if count ≤ rest.length then some (rest.take count, rest.drop count) else none

/-- The next field of a message: its number and its value. -/
def nextWireField (chunk : Bytes) : Option (UInt64 × WireField × Bytes) := do
  if chunk.isEmpty then none
  else
    let (tag, rest) ← (getUvarint chunk).toOption
    let field := tag >>> 3
    match (tag &&& 7).toNat with
    | 0 =>
      let (value, rest) ← (getUvarint rest).toOption
      return (field, .varint value, rest)
    | 1 =>
      let (bytes, rest) ← takeExactly 8 rest
      return (field, .fixed64 bytes, rest)
    | 2 =>
      let (length, rest) ← (getUvarint rest).toOption
      let (bytes, rest) ← takeExactly length.toNat rest
      return (field, .len bytes, rest)
    | 5 =>
      let (_, rest) ← takeExactly 4 rest
      return (field, .fixed32, rest)
    | _ => none

def eventTimeField : UInt64 := 1

def eventNameField : UInt64 := 2

/-- The last time and the last readable name among the fields. Each field takes at least one byte. -/
def scanFields : Nat → Bytes → Int64 × String → Int64 × String
  | 0, _, found => found
  | steps + 1, chunk, (tsNs, name) =>
    match nextWireField chunk with
    | none => (tsNs, name)
    | some (field, value, rest) =>
      match value with
      | .fixed64 bytes =>
        scanFields steps rest (if field = eventTimeField then (littleEndian64 bytes).toInt64 else tsNs, name)
      | .len bytes =>
        scanFields steps rest
          (tsNs, if field = eventNameField then (String.fromUTF8? bytes.toByteArray).getD name else name)
      | _ => scanFields steps rest (tsNs, name)

def scanEventTsName (chunk : Bytes) : Int64 × String :=
  scanFields chunk.length chunk (0, "")

def eventOf (chunk : Bytes) : SpanEvent :=
  let (tsNs, name) := scanEventTsName chunk
  { tsNs, name, attrsBlob := chunk }

/-- The value of a digit, in either letter case. -/
def nibble (digit : UInt8) : Option UInt8 :=
  if 0x30 ≤ digit ∧ digit ≤ 0x39 then some (digit - 0x30)
  else if 0x61 ≤ digit ∧ digit ≤ 0x66 then some (digit - 0x61 + 10)
  else if 0x41 ≤ digit ∧ digit ≤ 0x46 then some (digit - 0x41 + 10)
  else none

def hexPairs : Bytes → Option Bytes
  | high :: low :: rest => do
    let upper ← nibble high
    let lower ← nibble low
    let bytes ← hexPairs rest
    return (upper <<< 4 ||| lower) :: bytes
  | _ => some []

def hexDecode (text : String) : Option Bytes :=
  let bytes := utf8Bytes text
  if bytes.length % 2 ≠ 0 then none else hexPairs bytes

def hexEncode (bytes : Bytes) : String :=
  hexLower bytes

/-- The length-delimited chunks of a blob. Each takes at least the byte of its length. -/
def parseChunks : Nat → Bytes → Option (List SpanEvent)
  | 0, rest => if rest.isEmpty then some [] else none
  | steps + 1, rest =>
    if rest.isEmpty then some []
    else do
      let (length, rest) ← (getUvarint rest).toOption
      let (chunk, rest) ← takeExactly length.toNat rest
      let events ← parseChunks steps rest
      return eventOf chunk :: events

/-- The events of the attribute, unless it is not a blob of events. -/
def parseEvents (value : String) : Option (List SpanEvent) := do
  let bytes ← hexDecode value
  if bytes.isEmpty then none
  else
    let events ← parseChunks bytes.length bytes
    if events.isEmpty then none else some events

/-- The attribute is rebuilt from the messages alone. -/
def reconstructEventsRaw (events : List SpanEvent) : String :=
  hexEncode (events.flatMap fun event => lengthPrefixed event.attrsBlob)

end Ravel.Spans
