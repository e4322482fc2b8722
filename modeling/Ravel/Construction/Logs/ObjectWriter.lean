/-
This file models the RLOG object writer: column assignment, row resolution, blocks and index sections.
The pages of a block are its resolved rows.
-/

import Ravel.Construction.Logs.Bloom
import Ravel.Construction.Logs.Stamp

namespace Ravel.Logs

def colSeverityText : Nat := 4

def colBody : Nat := 5

/-- The first column id of the dynamic columns. -/
def firstDynamicCol : Nat := 10

def maxColumnId : Nat := 1048576

def maxDynamicColumns : Nat := maxColumnId - firstDynamicCol + 1

/-- The first blob of each stream. A second blob of one stream refuses the object. -/
def insertStream (streams : List (LogStreamId × List UInt8)) (record : RlogRecord) :
    Except LogSegError (List (LogStreamId × List UInt8)) :=
  match streams.find? fun stream => stream.1 = record.streamId with
  | none => .ok (streams ++ [(record.streamId, record.streamAttrs)])
  | some (_, blob) =>
    if blob = record.streamAttrs then .ok streams
    else
      .error (.inconsistentStreamAttrs ("stream " ++ hexLower record.streamId.bytes.toList ++
        " carries two different stream_attrs blobs (" ++ toString blob.length ++ " and " ++
        toString record.streamAttrs.length ++ " bytes)"))

def streamLe (left right : LogStreamId × List UInt8) : Prop :=
  left.1.bytes.toList ≤ right.1.bytes.toList

instance : DecidableRel streamLe := fun _ _ =>
  inferInstanceAs (Decidable (_ ≤ _))

/-- The streams of the records, ascending by id. -/
def collectStreams (records : List RlogRecord) : Except LogSegError (List (LogStreamId × List UInt8)) := do
  return (← records.foldlM insertStream []).insertionSort streamLe

/-- The resource pairs of a blob, then its scope pairs. -/
def streamAttrPairs (blob : List UInt8) : Except LogSegError (List (String × AttrValue)) := do
  let attrs ← decodeStreamAttrs blob
  return attrs.resource ++ attrs.scopeAttrs

def streamLevelColumnEligible (name : String) (ty : FieldType) (indexedFields : List String) : Bool :=
  indexedFields.contains name || ty.isNumeric

/-- The order of `(name bytes, type)`. -/
def pairLe (left right : String × FieldType) : Prop :=
  utf8Bytes left.1 < utf8Bytes right.1 ∨ utf8Bytes left.1 = utf8Bytes right.1 ∧ left.2.toU8 ≤ right.2.toU8

instance : DecidableRel pairLe := fun _ _ =>
  inferInstanceAs (Decidable (_ ∨ _ ∧ _))

def typedPair (attr : String × AttrValue) : String × FieldType :=
  (attr.1, (resolveValue attr.2).1)

/-- The distinct `(name, type)` pairs that compete for columns, ascending. -/
def distinctPairs (records : List RlogRecord) (streamPairs : List (String × AttrValue))
    (indexedFields : List String) : List (String × FieldType) :=
  let recordPairs := records.flatMap fun record => record.attrs.map typedPair
  let streamLevel := (streamPairs.map typedPair).filter fun pair =>
    streamLevelColumnEligible pair.1 pair.2 indexedFields
  (recordPairs ++ streamLevel).dedup.insertionSort pairLe

/-- The listed names come first in the order of the list, and the other pairs follow. -/
def dynamicColumnOrder (distinct : List (String × FieldType)) (chunkOrder : List String) :
    List (String × FieldType) :=
  (distinct.filter fun pair => chunkOrder.contains pair.1).insertionSort
      (fun left right => chunkOrder.idxOf left.1 ≤ chunkOrder.idxOf right.1) ++
    distinct.filter fun pair => !chunkOrder.contains pair.1

/-- The first `max_dynamic_columns` pairs get columns. -/
def assignColumns (distinct : List (String × FieldType)) (cfg : RlogConfig) : List Column :=
  ((dynamicColumnOrder distinct cfg.chunkOrder).take cfg.maxDynamicColumns).zipIdx.map fun entry =>
    ⟨entry.1.1, entry.1.2, firstDynamicCol + entry.2⟩

def keyIdxMaxFields : Nat := 64

def keyIdxMaxNameLen : Nat := 128

def traceIdField : String := "trace_id"

/-- The storage type of an attribute field. Only the fixed `trace_id` column takes an id key. -/
def attrFieldType : KeyType → Option FieldType
  | .id16 => none
  | .i64 => some .i64
  | .str => some .str
  | .bytes => some .bytes

def keyFieldLe (left right : String × KeyType) : Prop :=
  utf8Bytes left.1 ≤ utf8Bytes right.1

instance : DecidableRel keyFieldLe := fun _ _ =>
  inferInstanceAs (Decidable (_ ≤ _))

/-- The repeated name of a sorted field list. -/
def repeatedField : List (String × KeyType) → Option String
  | first :: second :: rest => if first.1 = second.1 then some first.1 else repeatedField (second :: rest)
  | _ => none

def checkKeyField (field : String × KeyType) : Except LogSegError Unit :=
  let length := (utf8Bytes field.1).length
  if length = 0 ∨ keyIdxMaxNameLen < length then
    .error (.limitExceeded ("key index field name of " ++ toString length ++ " bytes, outside 1..=" ++
      toString keyIdxMaxNameLen))
  else if (field.1 = traceIdField) ↔ attrFieldType field.2 = none then .ok ()
  else
    .error (.limitExceeded ("key index field " ++ field.1.quote ++ " of key type " ++ field.2.debug ++ ": " ++ traceIdField.quote ++
      " is indexed as Id16 and only it is"))

/-- The fields of the KEY_IDX section in name order. -/
def keyIndexPlan (fields : List (String × KeyType)) : Except LogSegError (List (String × KeyType)) := do
  if keyIdxMaxFields < fields.length then
    throw (.limitExceeded (toString fields.length ++ " key index fields, at most " ++ toString keyIdxMaxFields))
  let sorted := fields.insertionSort keyFieldLe
  match repeatedField sorted with
  | some name => throw (.limitExceeded ("key index field " ++ name.quote ++ " named twice"))
  | none =>
    sorted.forM checkKeyField
    return sorted

/-- The attribute fields of the plan with their field index and storage type. -/
def keyAttrFields (plan : List (String × KeyType)) : List (String × Nat × FieldType) :=
  plan.zipIdx.filterMap fun entry => (attrFieldType entry.1.2).map fun ty => (entry.1.1, entry.2, ty)

def nameLe (left right : String) : Prop :=
  utf8Bytes left ≤ utf8Bytes right

instance : DecidableRel nameLe := fun _ _ =>
  inferInstanceAs (Decidable (_ ≤ _))

def stampIndex (columns : List Column) (indexedFields : List String) (plan : List (String × KeyType)) :
    StampIndex :=
  let numstatNames := (columns.filter fun column => column.ty.isNumeric).map Column.name
  let keyFields := keyAttrFields plan
  { names := (indexedFields ++ numstatNames ++ keyFields.map Prod.fst).dedup.insertionSort nameLe
    indexedNames := indexedFields
    numstatNames := numstatNames
    keyFields := keyFields
    columns := columns }

/-- A log record resolved for storage.
The key pairs are the row's entry of the parallel KEY_IDX vector. -/
structure ResolvedRow where
  streamRef : Nat
  tsNs : Int
  observedTsNs : Int
  severityNum : UInt8
  severityText : String
  body : String
  traceId : Option (Vector UInt8 16)
  spanId : Option (Vector UInt8 8)
  flags : UInt32
  attrsRaw : Option (List UInt8)
  columns : List (Nat × ColumnValue)
  indexedTerms : List (Nat × ColumnValue)
  statWinners : List (Nat × ColumnValue)
  keys : List (Nat × Key8)
  deriving DecidableEq

/-- The attributes of one record, split between its columns and its overflow. -/
structure RowSplit where
  cols : List (Nat × ColumnValue)
  overflow : List (String × AttrValue)
  stamp : StampScratch

/-- One attribute takes its column, unless there is none or the row already uses it. -/
def splitAttr (index : StampIndex) (split : RowSplit) (attr : String × AttrValue) : RowSplit :=
  let resolved := resolveValue attr.2
  let overflowed : RowSplit :=
    { split with
      overflow := split.overflow ++ [attr]
      stamp := if index.isTracked attr.1 then { split.stamp with overflow := split.stamp.overflow ++ [attr] }
        else split.stamp }
  match columnLookup index.columns attr.1 resolved.1 with
  | some columnId =>
    if split.cols.any fun cell => cell.1 = columnId then overflowed
    else
      { split with
        cols := split.cols ++ [(columnId, resolved.2)]
        stamp := if index.isTracked attr.1 then
            { split.stamp with cols := split.stamp.cols ++ [⟨attr.1, resolved.1, resolved.2⟩] }
          else split.stamp }
  | none => overflowed

def splitAttrs (index : StampIndex) (attrs : List (String × AttrValue)) : RowSplit :=
  attrs.foldl (splitAttr index) ⟨[], [], ⟨[], []⟩⟩

def cellLe (left right : Nat × ColumnValue) : Prop :=
  left.1 ≤ right.1

instance : DecidableRel cellLe := fun _ _ =>
  inferInstanceAs (Decidable (_ ≤ _))

def encodeOverflow (overflow : List (String × AttrValue)) : Except LogSegError (Option (List UInt8)) :=
  if overflow.isEmpty then .ok none
  else do
    checkAttrsRawDecodable overflow
    return some (canonicalAttrBytes overflow)

def resolveRow (platform : Platform) (streams : List (LogStreamId × List UInt8)) (index : StampIndex)
    (seedOf : LogStreamId → StreamSeed) (record : RlogRecord) : Except LogSegError ResolvedRow := do
  let split := splitAttrs index record.attrs
  let attrsRaw ← encodeOverflow split.overflow
  let stamped := split.stamp.finish platform.blake3 index (seedOf record.streamId)
  return {
    streamRef := streams.findIdx fun stream => stream.1 = record.streamId
    tsNs := record.tsNs
    observedTsNs := record.observedTsNs
    severityNum := record.severityNum
    severityText := record.severityText
    body := record.body
    traceId := record.traceId
    spanId := record.spanId
    flags := record.flags
    attrsRaw := attrsRaw
    columns := split.cols.insertionSort cellLe
    indexedTerms := stamped.indexed
    statWinners := stamped.stat
    keys := stamped.key }

/-- A clustering key value. -/
inductive KeyValue where
  | i64 (value : Int64)
  | bool (value : Bool)
  | bytes (value : List UInt8)
  deriving DecidableEq

def columnKeyValue : ColumnValue → Option KeyValue
  | .i64 value => some (.i64 value)
  | .bool value => some (.bool value)
  | .str value => some (.bytes value)
  | .bytes value => some (.bytes value)
  | .f64 _ => none

def recordKeyValue (attrs : List (String × AttrValue)) (name : String) (ty : FieldType) : Option KeyValue :=
  attrs.findSome? fun attr =>
    if attr.1 = name ∧ (resolveValue attr.2).1 = ty then columnKeyValue (resolveValue attr.2).2 else none

/-- The derived order of key values: by variant, then by value. -/
def compareKeyValue : KeyValue → KeyValue → Ordering
  | .i64 left, .i64 right => compare left.toInt right.toInt
  | .bool left, .bool right => compare left right
  | .bytes left, .bytes right => if left < right then .lt else if left = right then .eq else .gt
  | .i64 _, _ => .lt
  | _, .i64 _ => .gt
  | .bool _, .bytes _ => .lt
  | .bytes _, .bool _ => .gt

/-- An absent value is before every value. -/
def compareOptionalKey : Option KeyValue → Option KeyValue → Ordering
  | none, none => .eq
  | none, some _ => .lt
  | some _, none => .gt
  | some left, some right => compareKeyValue left right

/-- The first pair of keys that differs decides. -/
def compareKeys : List (Option KeyValue) → List (Option KeyValue) → Ordering
  | left :: lefts, right :: rights => (compareOptionalKey left right).then (compareKeys lefts rights)
  | _, _ => .eq

/-- The row order: by stream and timestamp, with the clustering keys of a bucket in between. -/
def compareRows (cluster : Option ClusterOrder) (left right : RlogRecord × ResolvedRow) : Ordering :=
  match cluster with
  | none => (compare left.2.streamRef right.2.streamRef).then (compare left.2.tsNs right.2.tsNs)
  | some order =>
    let keys (record : RlogRecord) := order.keys.map fun key => recordKeyValue record.attrs key.1 key.2
    (compare left.2.streamRef right.2.streamRef).then
      ((compare (left.2.tsNs / order.bucketNs) (right.2.tsNs / order.bucketNs)).then
        ((compareKeys (keys left.1) (keys right.1)).then (compare left.2.tsNs right.2.tsNs)))

def sortRows (cluster : Option ClusterOrder) (rows : List (RlogRecord × ResolvedRow)) :
    List (RlogRecord × ResolvedRow) :=
  rows.insertionSort fun left right => compareRows cluster left right ≠ .gt

/-- The byte estimate of a row. -/
def rowEstimate (row : ResolvedRow) : Nat :=
  40 + (utf8Bytes row.body).length + (utf8Bytes row.severityText).length + (row.attrsRaw.getD []).length +
    (row.columns.map fun cell =>
      match cell.2 with
      | .str value => value.length + 2
      | .bytes value => value.length + 2
      | _ => 8).sum

/-- The chunk loop with the open block and its byte estimate. -/
def chunkLoop (cfg : RlogConfig) (block : List ResolvedRow) (bytes : Nat) :
    List ResolvedRow → List (List ResolvedRow)
  | [] => if block.isEmpty then [] else [block]
  | row :: rest =>
    let estimate := rowEstimate row
    if 0 < block.length ∧ (cfg.blockTargetRecords ≤ block.length ∨ cfg.blockMaxBytes < bytes + estimate) then
      block :: chunkLoop cfg [row] estimate rest
    else chunkLoop cfg (block ++ [row]) (bytes + estimate) rest

def chunkBlocks (cfg : RlogConfig) (rows : List ResolvedRow) : List (List ResolvedRow) :=
  chunkLoop cfg [] 0 rows

end Ravel.Logs
