/-
This file models the codecs of byte strings, of float bits and of fixed-width values, and the dictionary pages that they share.
-/

import Ravel.Construction.Codec.PackedValues
import Ravel.Library.SortedDistinct

namespace Ravel.Codec

open Logs Library

/-- The most entries that a decoder makes room for. -/
def cap (count : Nat) : Nat :=
  min count (2 ^ 16)

def corrupt {Value : Type} (what : String) : Except Fault Value :=
  .error (.corrupted (.corrupted what))

/-- The bitmap of a column has one bit for each row. -/
def decodeBitmap (bytes : Bytes) (count : Nat) : Except Fault (List Bool) :=
  let length := bytes.length
  let need := (count + 7) / 8
  if length ≠ need then corrupt s!"bitmap length {length} != {need}"
  else (List.range count).mapM fun index => do
    let byte ← byteAt bytes (index / 8)
    return byte &&& (1 <<< UInt8.ofNat (index % 8)) != 0

/-- The ids of a dictionary page: their bit width and then the packed ids. -/
def encodeDictIds (ids : List UInt64) (dictCount : Nat) : Bytes :=
  let bitWidth := widthFor (UInt64.ofNat (dictCount - 1))
  UInt8.ofNat bitWidth :: packBits ids bitWidth

def decodeDictIds (rest : Bytes) (count dictCount : Nat) : Except Fault (List UInt64) :=
  match rest with
  | [] => corrupt "dict ids truncated"
  | bitWidth :: packed => do
    let ids ← unpackBits packed count bitWidth.toNat
    match ids.find? fun id => dictCount ≤ id.toNat with
    | some id => corrupt s!"dict id {id} >= dict_count {dictCount}"
    | none => return ids

/-- A dictionary pays when at most half of the values are distinct. -/
def dictIsWorthIt (distinct total : Nat) : Bool :=
  0 < total && min (2 * distinct) (2 ^ 64 - 1) ≤ total

/-- A page of distinct entries and of one id for each value. -/
def dictPage {Value : Type} [LT Value] [DecidableLT Value] (putEntry : Value → Bytes) (values sorted : List Value) : Bytes :=
  putUvarint (UInt64.ofNat sorted.length) ++ sorted.flatMap putEntry ++
    encodeDictIds (values.map fun value => UInt64.ofNat (entryOf sorted value)) sorted.length

/-- The next bytes of a page. Their end is computed before it is compared, so that a long length can overflow. -/
def takeEntry (bytes rest : Bytes) (length : Nat) (truncated : String) : Except Fault (Bytes × Bytes) := do
  let stop ← addUsize (bytes.length - rest.length) length
  if bytes.length < stop then corrupt truncated
  else return (rest.take length, rest.drop length)

def readEntries {Value : Type} (readEntry : Bytes → Except Fault (Value × Bytes)) : Nat → Bytes → Except Fault (List Value × Bytes)
  | 0, rest => .ok ([], rest)
  | wanted + 1, rest => do
    let (entry, rest) ← readEntry rest
    let (entries, rest) ← readEntries readEntry wanted rest
    return (entry :: entries, rest)

/-- The entries and the ids of a dictionary page. The ids run to the end of the page. -/
def readDict {Value : Type} (readEntry : Bytes → Except Fault (Value × Bytes)) (bytes : Bytes) (count : Nat) :
    Except Fault (List Value × List UInt64) := do
  let (dictCount, rest) ← typed (getUvarint bytes)
  if cap (bytes.length + 1) < dictCount.toNat then corrupt "dict_count too large"
  else
    let (dict, rest) ← readEntries readEntry dictCount.toNat rest
    let ids ← decodeDictIds rest count dictCount.toNat
    return (dict, ids)

def entryAt {Value : Type} (dict : List Value) (index : Nat) : Except Fault Value :=
  match dict[index]? with
  | some entry => .ok entry
  | none => .error .panicked

def encPlainStrings (values : List Bytes) : Bytes :=
  (values.flatMap fun value => putUvarint (UInt64.ofNat value.length)) ++ values.flatten

def encDictStrings (values sorted : List Bytes) : Bytes :=
  dictPage lengthPrefixed values sorted

def encodeStrings (values : List Bytes) : Enc × Bytes :=
  if values.isEmpty then (.plain, [])
  else
    let sorted := sortedDistinct values
    if dictIsWorthIt sorted.length values.length then (.dict, encDictStrings values sorted) else (.plain, encPlainStrings values)

/-- The entries that an id refers to, each when the first id refers to it. -/
def markReferenced (dict : List Bytes) : List UInt32 → List Bool → Except Fault (List Bool × List Bytes)
  | [], referenced => .ok (referenced, [])
  | id :: ids, referenced => do
    let index := id.toNat
    let seen ← entryAt referenced index
    if seen then markReferenced dict ids referenced
    else
      let entry ← entryAt dict index
      let (referenced, distinct) ← markReferenced dict ids (referenced.set index true)
      return (referenced, entry :: distinct)

/-- The position of each referenced entry among the sorted ones. An entry that no id refers to has the position 0. -/
def positionsOf (dict : List Bytes) (referenced : List Bool) (sorted : List Bytes) : List UInt32 :=
  (dict.zip referenced).map fun (entry, seen) => if seen then UInt32.ofNat (entryOf sorted entry) else 0

/-- The page of a column that comes as a dictionary and one id for each row. -/
def encodeStringsDict (dict : List Bytes) (presentIds : List UInt32) : Except Fault (Enc × Bytes) :=
  if presentIds.isEmpty then .ok (.plain, [])
  else do
    let (referenced, distinct) ← markReferenced dict presentIds (List.replicate dict.length false)
    let sorted := sortedDistinct distinct
    if dictIsWorthIt sorted.length presentIds.length then do
      let positions := positionsOf dict referenced sorted
      let ids ← presentIds.mapM fun id => do
        let position ← entryAt positions id.toNat
        return position.toUInt64
      return (.dict, putUvarint (UInt64.ofNat sorted.length) ++ sorted.flatMap lengthPrefixed ++ encodeDictIds ids sorted.length)
    else do
      let values ← presentIds.mapM fun id => entryAt dict id.toNat
      return (.plain, encPlainStrings values)

inductive DecodedStrings where
  | plain (values : List Bytes)
  | dict (entries : List Bytes) (ids : List UInt32)
  deriving DecidableEq, Repr

/-- One value for each row. -/
def DecodedStrings.fuse : DecodedStrings → Except Fault (List Bytes)
  | .plain values => .ok values
  | .dict entries ids => ids.mapM fun id => entryAt entries id.toNat

/-- The lengths of a plain page and their sum. -/
def readLengths : Nat → Nat → Bytes → Except CodecError (List UInt64 × Nat × Bytes)
  | 0, total, rest => .ok ([], total, rest)
  | wanted + 1, total, rest => do
    let (length, rest) ← getUvarint rest
    if total + length.toNat < 2 ^ 64 then do
      let (lengths, total, rest) ← readLengths wanted (total + length.toNat) rest
      return (length :: lengths, total, rest)
    else .error (.corrupted "string length overflow")

/-- A range of a slice. -/
def sliceOf (bytes : Bytes) (start stop : Nat) : Except Fault Bytes :=
  if start ≤ stop ∧ stop ≤ bytes.length then .ok ((bytes.take stop).drop start) else .error .panicked

/-- The blob of a plain page, cut at the lengths. -/
def cutBlob (blob : Bytes) : List UInt64 → Nat → Except Fault (List Bytes)
  | [], _ => .ok []
  | length :: lengths, start => do
    let stop ← addUsize start length.toNat
    let value ← sliceOf blob start stop
    let values ← cutBlob blob lengths stop
    return value :: values

def readString (bytes rest : Bytes) : Except Fault (Bytes × Bytes) := do
  let (length, rest) ← typed (getUvarint rest)
  takeEntry bytes rest length.toNat "dict entry truncated"

/-- Both layouts end with the page, so that no byte is left over. -/
def decodeStringsColumnar (enc : Enc) (bytes : Bytes) (count : Nat) : Except Fault DecodedStrings :=
  match enc with
  | .plain => do
    let (lengths, total, blob) ← typed (readLengths count 0 bytes)
    let length := blob.length
    if length ≠ total then corrupt s!"string blob {length} != declared {total}"
    else do
      let values ← cutBlob blob lengths 0
      return .plain values
  | .dict => do
    let (dict, ids) ← readDict (readString bytes) bytes count
    return .dict dict (ids.map UInt64.toUInt32)
  | other =>
    let name := other.name
    corrupt s!"enc {name} is not a string codec"

def decodeStrings (enc : Enc) (bytes : Bytes) (count : Nat) : Except Fault (List Bytes) := do
  let decoded ← decodeStringsColumnar enc bytes count
  decoded.fuse

def encodeF64 (values : List UInt64) : Enc × Bytes :=
  match values with
  | [] => (.plain, [])
  | first :: _ =>
    if values.all (· = first) then (.constant, toLeBytes first)
    else
      let sorted := sortedDistinct values
      if dictIsWorthIt sorted.length values.length then (.dict, dictPage toLeBytes values sorted)
      else (.plain, values.flatMap toLeBytes)

def readU64Le (bytes rest : Bytes) : Except Fault (UInt64 × Bytes) := do
  let (slice, rest) ← takeEntry bytes rest 8 "f64 bits truncated"
  return (littleEndian64 slice, rest)

/-- A vector of one value. Its bytes must fit in the address space, which is checked before it is filled. -/
def repeated (value : UInt64) (count : Nat) : Except Fault (List UInt64) :=
  if 8 * count < 2 ^ 63 then .ok (List.replicate count value) else .error .panicked

/-- The values of a page and what they leave of it. -/
def readF64 (enc : Enc) (bytes : Bytes) (count : Nat) : Except Fault (List UInt64 × Bytes) :=
  match enc with
  | .plain => readEntries (readU64Le bytes) count bytes
  | .constant => do
    let (value, rest) ← readU64Le bytes bytes
    let values ← repeated value count
    return (values, rest)
  | .dict => do
    let (dict, ids) ← readDict (readU64Le bytes) bytes count
    let values ← ids.mapM fun id => entryAt dict id.toNat
    return (values, [])
  | other =>
    let name := other.name
    corrupt s!"enc {name} is not an f64 codec"

def decodeF64 (enc : Enc) (bytes : Bytes) (count : Nat) : Except Fault (List UInt64) := do
  let (values, rest) ← readF64 enc bytes count
  typed (expectConsumed rest bytes)
  return values

/-- The width only sizes the buffer of the page. -/
def encodeFixed (values : List Bytes) (_width : Nat) : Enc × Bytes :=
  if values.isEmpty then (.fixedWidth, [])
  else
    let sorted := sortedDistinct values
    if dictIsWorthIt sorted.length values.length then (.dict, dictPage id values sorted) else (.fixedWidth, values.flatten)

def readFixed (bytes : Bytes) (width : Nat) (rest : Bytes) : Except Fault (Bytes × Bytes) :=
  takeEntry bytes rest width "fixed dict entry truncated"

def decodeFixed (enc : Enc) (bytes : Bytes) (count width : Nat) : Except Fault (List Bytes) :=
  match enc with
  | .fixedWidth =>
    let length := bytes.length
    let need := count * width
    if 2 ^ 64 ≤ need then corrupt "fixed length overflow"
    else if length ≠ need then corrupt s!"fixed length {length} != {need}"
    else (List.range count).mapM fun index => do
      let start ← mulUsize index width
      let stop ← addUsize start width
      sliceOf bytes start stop
  | .dict => do
    let (dict, ids) ← readDict (readFixed bytes width) bytes count
    ids.mapM fun id => entryAt dict id.toNat
  | other =>
    let name := other.name
    corrupt s!"enc {name} is not a fixed-width codec"

end Ravel.Codec
