/-
This file models the canonical encoding of attribute sets and the decoder of the `attrs_raw` blob.
-/

import Mathlib.Data.List.Sort
import Ravel.Construction.Logs.StreamAttrs

namespace Ravel.Logs

/-- The UTF-8 bytes of a text. -/
def utf8Bytes (text : String) : List UInt8 :=
  text.toByteArray.data.toList

/-- The LEB128 loop with `remaining` groups left. Ten groups hold every `u64`. -/
def putUvarintLoop (value : UInt64) : Nat → List UInt8
  | 0 => []
  | remaining + 1 =>
    let byte := (value &&& 0x7f).toUInt8
    let next := value >>> 7
    if next = 0 then [byte] else (byte ||| 0x80) :: putUvarintLoop next remaining

def putUvarint (value : UInt64) : List UInt8 :=
  putUvarintLoop value maxVarintBytes

def zigzag (value : Int64) : UInt64 :=
  (value.toUInt64 <<< 1) ^^^ (value >>> 63).toUInt64

/-- The eight little-endian bytes of a value. -/
def toLeBytes (value : UInt64) : List UInt8 :=
  (List.range 8).map fun index => (value >>> UInt64.ofNat (8 * index)).toUInt8

/-- A length-prefixed byte run. -/
def lengthPrefixed (bytes : List UInt8) : List UInt8 :=
  putUvarint (UInt64.ofNat bytes.length) ++ bytes

/-- The order of `encode_attrs`: by key bytes, then by encoded value bytes. -/
def encodedEntryLe (left right : String × List UInt8) : Prop :=
  utf8Bytes left.1 < utf8Bytes right.1 ∨ utf8Bytes left.1 = utf8Bytes right.1 ∧ left.2 ≤ right.2

instance : DecidableRel encodedEntryLe := fun _ _ =>
  inferInstanceAs (Decidable (_ ∨ _ ∧ _))

/-- The sorted entries of a set after its entry count. -/
def encodeEntrySet (entries : List (String × List UInt8)) : List UInt8 :=
  putUvarint (UInt64.ofNat entries.length) ++
    (entries.insertionSort encodedEntryLe).flatMap fun entry => lengthPrefixed (utf8Bytes entry.1) ++ entry.2

/- The recursion follows the value. The entries of a map keep their keys until the sort. -/
mutual

def encodeValue : AttrValue → List UInt8
  | .str value => 1 :: lengthPrefixed (utf8Bytes value)
  | .i64 value => 2 :: putUvarint (zigzag value)
  | .f64 bits => 3 :: toLeBytes bits
  | .bool value => [4, if value then 1 else 0]
  | .bytes value => 5 :: lengthPrefixed value
  | .list items => 6 :: (putUvarint (UInt64.ofNat items.length) ++ encodeItems items)
  | .map entries => 7 :: encodeEntrySet (encodeEntries entries)

def encodeItems : List AttrValue → List UInt8
  | [] => []
  | item :: items => encodeValue item ++ encodeItems items

def encodeEntries : List (String × AttrValue) → List (String × List UInt8)
  | [] => []
  | (key, value) :: entries => (key, encodeValue value) :: encodeEntries entries

end

def canonicalAttrBytes (attrs : List (String × AttrValue)) : List UInt8 :=
  encodeEntrySet (encodeEntries attrs)

/-- The canonical bytes of one value, as a set with one entry under the empty key. -/
def canonicalValueBytes (value : AttrValue) : List UInt8 :=
  canonicalAttrBytes [("", value)]

/-- The `stream_attrs` blob of a resource and a scope. -/
def streamAttrsBytes (resourceAttrs : List (String × AttrValue)) (scopeName scopeVersion : String)
    (scopeAttrs : List (String × AttrValue)) : List UInt8 :=
  canonicalAttrBytes resourceAttrs ++ (lengthPrefixed (utf8Bytes scopeName) ++
    (lengthPrefixed (utf8Bytes scopeVersion) ++ canonicalAttrBytes scopeAttrs))

/-- The bytes that `log_stream_id` hashes. They name no tenant. -/
def logStreamPreimage (resourceAttrs : List (String × AttrValue)) (scopeName scopeVersion : String)
    (scopeAttrs : List (String × AttrValue)) : List UInt8 :=
  utf8Bytes "ravel-logstream-v1" ++ streamAttrsBytes resourceAttrs scopeName scopeVersion scopeAttrs

/- A value at `depth` has its items one level below it. The entry set of a map takes a level of its own. -/
mutual

def valueFitsAt : AttrValue → Nat → Bool
  | .list items, depth =>
    if maxAttrDepth < depth then false
    else decide (items.length ≤ maxAttrEntries.toNat) && itemsFitAt items (depth + 1)
  | .map entries, depth =>
    if maxAttrDepth < depth then false
    else decide (depth < maxAttrDepth) && decide (entries.length ≤ maxAttrEntries.toNat) && entriesFitAt entries (depth + 2)
  | _, depth => !decide (maxAttrDepth < depth)

def itemsFitAt : List AttrValue → Nat → Bool
  | [], _ => true
  | item :: items, depth => valueFitsAt item depth && itemsFitAt items depth

def entriesFitAt : List (String × AttrValue) → Nat → Bool
  | [], _ => true
  | (_, value) :: entries, depth => valueFitsAt value depth && entriesFitAt entries depth

end

/-- The admission rule of a value in a top-level attribute set. -/
def attrValueFitsStorage (value : AttrValue) : Bool :=
  valueFitsAt value 1

/-- The bound on the maps and lists around a map's entry set. -/
def attrsRawMapDepthCap : Nat := 32

/-- The bound on the maps and lists around a map or list. -/
def attrsRawReadDepthCap : Nat := 128

def attrsRawTooDeep : LogSegError := .corrupted "attrs_raw too deep"

def attrsRawSetDepth (depth : Nat) : Except LogSegError Unit :=
  if attrsRawMapDepthCap < depth then .error attrsRawTooDeep else .ok ()

def attrsRawSetCount (count : Nat) : Except LogSegError Unit :=
  if maxAttrEntries.toNat < count then .error (.corrupted "attrs_raw count over cap") else .ok ()

def attrsRawListCount (count : Nat) : Except LogSegError Unit :=
  if maxAttrEntries.toNat < count then .error (.corrupted "attr list over cap") else .ok ()

/-- The depth of the contents of a map or list at `depth`. -/
def attrsRawInnerDepth (depth : Nat) : Except LogSegError Nat :=
  if attrsRawReadDepthCap < depth + 1 then .error attrsRawTooDeep else .ok (depth + 1)

mutual

def checkAttrsRawValue : Nat → AttrValue → Except LogSegError Unit
  | depth, .list items => do
    let inner ← attrsRawInnerDepth depth
    attrsRawListCount items.length
    checkAttrsRawItems inner items
  | depth, .map entries => do
    let inner ← attrsRawInnerDepth depth
    attrsRawSetDepth inner
    attrsRawSetCount entries.length
    checkAttrsRawEntries inner entries
  | _, _ => .ok ()

def checkAttrsRawItems : Nat → List AttrValue → Except LogSegError Unit
  | _, [] => .ok ()
  | depth, item :: items => do
    checkAttrsRawValue depth item
    checkAttrsRawItems depth items

def checkAttrsRawEntries : Nat → List (String × AttrValue) → Except LogSegError Unit
  | _, [] => .ok ()
  | depth, (_, value) :: entries => do
    checkAttrsRawValue depth value
    checkAttrsRawEntries depth entries

end

def checkAttrsRawSet (attrs : List (String × AttrValue)) (depth : Nat) : Except LogSegError Unit := do
  attrsRawSetDepth depth
  attrsRawSetCount attrs.length
  checkAttrsRawEntries depth attrs

def checkAttrsRawDecodable (attrs : List (String × AttrValue)) : Except LogSegError Unit :=
  checkAttrsRawSet attrs 0

/-- The next `count` bytes, with the errors of the named field. -/
def takeBytes (what : String) (count : Nat) : Decoder (List UInt8) := fun cursor =>
  if 2 ^ 64 ≤ cursor.pos + count then .error (.corrupted (what ++ " overflow"))
  else if cursor.rest.length < count then .error (.corrupted (what ++ " truncated"))
  else .ok (cursor.rest.take count, ⟨cursor.pos + count, cursor.rest.drop count⟩)

/-- A length-prefixed byte run of the named field. -/
def decodeRawBytes (what : String) : Decoder (List UInt8) := do
  takeBytes what (← getUvarint).toNat

/-- A length-prefixed text of the named field. -/
def decodeRawText (what : String) : Decoder String := do
  let bytes ← decodeRawBytes what
  match String.fromUTF8? bytes.toByteArray with
  | some text => return text
  | none => throw (.corrupted (what ++ " not utf-8"))

/-- A checked bound inside a decoder. -/
def checked (bound : Except LogSegError Unit) : Decoder Unit := fun cursor =>
  bound.map fun _ => ((), cursor)

/-- `decode_attr_set` at `depth`, with the decoder of its values. -/
def decodeRawSet (decodeValue : Decoder AttrValue) (depth : Nat) : Decoder (List (String × AttrValue)) := do
  checked (attrsRawSetDepth depth)
  let count ← getUvarint
  checked (attrsRawSetCount count.toNat)
  decodeTimes (do
    let key ← decodeRawText "attr key"
    let value ← decodeValue
    return (key, value)) count.toNat

/-- The elements of a list, with the decoder of its elements. -/
def decodeRawList (decodeValue : Decoder AttrValue) : Decoder (List AttrValue) := do
  let count ← getUvarint
  checked (attrsRawListCount count.toNat)
  decodeTimes decodeValue count.toNat

/-- `decode_attr_value` with the decoders of the contents of lists and maps. -/
def decodeRawTagged (decodeList : Decoder (List AttrValue)) (decodeMap : Decoder (List (String × AttrValue))) :
    Decoder AttrValue := do
  let tag ← nextByte (.corrupted "attr tag truncated")
  match tag with
  | 1 => return .str (← decodeRawText "attr str")
  | 2 => return .i64 (← getIvarint)
  | 3 => return .f64 (littleEndian64 (← takeBytes "attr f64" 8))
  | 4 => return .bool ((← nextByte (.corrupted "attr bool truncated")) != 0)
  | 5 => return .bytes (← decodeRawBytes "attr bytes")
  | 6 => return .list (← decodeList)
  | 7 => return .map (← decodeMap)
  | other => throw (.corrupted ("attr tag " ++ toString other.toNat))

/-- The decoder of a value with `budget` more levels before the read cap. The depth is the rest of the cap. -/
def decodeRawValue : Nat → Decoder AttrValue
  | 0 => decodeRawTagged (throw attrsRawTooDeep) (throw attrsRawTooDeep)
  | inner + 1 =>
    decodeRawTagged (decodeRawList (decodeRawValue inner))
      (decodeRawSet (decodeRawValue inner) (attrsRawReadDepthCap - inner))

def decodeCanonicalAttrs (bytes : List UInt8) : Except LogSegError (List (String × AttrValue)) := do
  let (attrs, cursor) ← decodeRawSet (decodeRawValue attrsRawReadDepthCap) 0 ⟨0, bytes⟩
  if cursor.rest.isEmpty then return attrs else throw (.corrupted "attrs_raw trailing bytes")

end Ravel.Logs
