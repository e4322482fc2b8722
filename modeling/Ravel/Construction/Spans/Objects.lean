/-
This file models the RSPAN object: its writer, the bounds of its blocks, and the pruning of its blocks.
The pages of a block are its resolved rows.
-/

import Mathlib.Data.Nat.Log
import Ravel.Construction.Codec.KeyIndex
import Ravel.Construction.Logs.Bloom
import Ravel.Construction.Spans.Events

namespace Ravel.Spans

open Codec Logs Library

inductive SpanSegError where
  | corrupted (message : String)
  | limitExceeded (message : String)
  | keyIdxBucketOverflow (bucket entries cap : Nat)
  deriving DecidableEq, Repr

/-- An error of the shared codec is one of the format. -/
def codec {Value : Type} (outcome : Except CodecError Value) : Except SpanSegError Value :=
  outcome.mapError fun
    | .corrupted message => .corrupted message

abbrev TraceId := Vector UInt8 16

inductive StatusCode where
  | unset
  | ok
  | error
  deriving DecidableEq, Repr

namespace StatusCode

def toU8 : StatusCode → UInt8
  | unset => 0
  | ok => 1
  | error => 2

def fromU8 (byte : UInt8) : Option StatusCode :=
  if byte = 0 then some unset
  else if byte = 1 then some ok
  else if byte = 2 then some error
  else none

/-- The bit of a status in the mask of a block. -/
def bit : StatusCode → UInt8
  | unset => 1
  | ok => 2
  | error => 4

end StatusCode

structure SpanRecord where
  traceId : TraceId
  spanId : Vector UInt8 8
  parentSpanId : Option (Vector UInt8 8)
  name : String
  startTsNs : Int64
  endTsNs : Int64
  statusCode : StatusCode
  statusMessage : Option String
  attrs : List (String × String)

/-- A record in storage form: the service lifted out, the other attributes in columns or in one blob, the events decoded. -/
structure ResolvedSpanRow where
  traceId : TraceId
  spanId : Vector UInt8 8
  parentSpanId : Option (Vector UInt8 8)
  name : String
  startTsNs : Int64
  endTsNs : Int64
  statusCode : StatusCode
  statusMessage : Option String
  serviceName : Option String
  columns : List (Nat × String)
  attrsRaw : Option Bytes
  events : List SpanEvent

def colName : Nat := 3

def colServiceName : Nat := 9

def firstDynamicCol : Nat := 14

def serviceNameKey : String := "service.name"

def eventsRawKey : String := "_events_raw"

def maxDynamicColumns : Nat := 1000

/-- One attribute into a map in key order. It replaces an earlier value. -/
def insertAttr (key value : String) : List (String × String) → List (String × String)
  | [] => [(key, value)]
  | entry :: rest =>
    if key = entry.1 then (key, value) :: rest
    else if key < entry.1 then (key, value) :: entry :: rest
    else entry :: insertAttr key value rest

/-- The attributes as a map. The last value of a key wins. -/
def attrMap (attrs : List (String × String)) : List (String × String) :=
  attrs.foldl (fun map attr => insertAttr attr.1 attr.2 map) []

def removeAttr (key : String) (map : List (String × String)) : List (String × String) :=
  map.filter fun entry => entry.1 ≠ key

def encodeAttrs (attrs : List (String × String)) : Bytes :=
  let map := attrMap attrs
  putUvarint (UInt64.ofNat map.length) ++
    map.flatMap fun entry => lengthPrefixed (utf8Bytes entry.1) ++ lengthPrefixed (utf8Bytes entry.2)

/-- A record with its service, its events and its other attributes split off. -/
structure PreResolved where
  record : SpanRecord
  serviceName : Option String
  events : List SpanEvent
  other : List (String × String)

/-- Events that do not parse stay an ordinary attribute. -/
def preResolve (record : SpanRecord) : PreResolved :=
  let map := attrMap record.attrs
  let serviceName := map.lookup serviceNameKey
  let rest := removeAttr serviceNameKey map
  match (rest.lookup eventsRawKey).bind parseEvents with
  | some events => { record, serviceName, events, other := removeAttr eventsRawKey rest }
  | none => { record, serviceName, events := [], other := rest }

/-- The attribute keys that get a column, in order. -/
def dynamicColumns (records : List PreResolved) : List String :=
  (sortedDistinct (records.flatMap fun pre => pre.other.map Prod.fst)).take maxDynamicColumns

/-- An attribute past the budget of columns goes into the blob. -/
def resolveRow (names : List String) (pre : PreResolved) : ResolvedSpanRow :=
  let overflow := pre.other.filter fun attr => !names.contains attr.1
  { traceId := pre.record.traceId
    spanId := pre.record.spanId
    parentSpanId := pre.record.parentSpanId
    name := pre.record.name
    startTsNs := pre.record.startTsNs
    endTsNs := pre.record.endTsNs
    statusCode := pre.record.statusCode
    statusMessage := pre.record.statusMessage
    serviceName := pre.serviceName
    columns := ((pre.other.filter fun attr => names.contains attr.1).map fun attr =>
      (firstDynamicCol + names.idxOf attr.1, attr.2)).insertionSort fun left right => left.1 ≤ right.1
    attrsRaw := if overflow.isEmpty then none else some (encodeAttrs overflow)
    events := pre.events }

structure RspanConfig where
  blockTargetRecords : Nat
  blockMaxBytes : Nat

/-- The byte estimate of a row. -/
def rowEstimate (row : ResolvedSpanRow) : Nat :=
  48 + row.name.utf8ByteSize + (row.statusMessage.getD "").utf8ByteSize + (row.serviceName.getD "").utf8ByteSize +
    (row.attrsRaw.getD []).length + (row.columns.map fun cell => cell.2.utf8ByteSize + 4).sum +
    (row.events.map fun event => 12 + event.name.utf8ByteSize + event.attrsBlob.length).sum

/-- The chunk loop with the open block and its byte estimate. -/
def chunkLoop (cfg : RspanConfig) (block : List ResolvedSpanRow) (bytes : Nat) :
    List ResolvedSpanRow → List (List ResolvedSpanRow)
  | [] => if block.isEmpty then [] else [block]
  | row :: rest =>
    let estimate := rowEstimate row
    if 0 < block.length ∧ (cfg.blockTargetRecords ≤ block.length ∨ cfg.blockMaxBytes < bytes + estimate) then
      block :: chunkLoop cfg [row] estimate rest
    else chunkLoop cfg (block ++ [row]) (bytes + estimate) rest

def chunkBlocks (cfg : RspanConfig) (rows : List ResolvedSpanRow) : List (List ResolvedSpanRow) :=
  chunkLoop cfg [] 0 rows

/-- The bounds of a block in the skip index. -/
structure BlockEntry where
  minTraceId : TraceId
  maxTraceId : TraceId
  minStartTs : Int64
  maxEndTs : Int64
  minDurationNs : Int64
  maxDurationNs : Int64
  statusMask : UInt8

/-- The durations and the statuses of the rows so far. -/
structure RowBounds where
  minDurationNs : Int64
  maxDurationNs : Int64
  statusMask : UInt8

/-- One row of a block. A duration that overflows refuses the object. -/
def RowBounds.add (bounds : RowBounds) (row : ResolvedSpanRow) : Except SpanSegError RowBounds :=
  match checkedSub row.endTsNs row.startTsNs with
  | none => .error (.corrupted "span duration overflow")
  | some duration =>
    let byte := row.statusCode.toU8
    match StatusCode.fromU8 byte with
    | none => .error (.corrupted s!"unknown status code {byte}")
    | some status =>
      .ok {
        minDurationNs := min bounds.minDurationNs duration
        maxDurationNs := max bounds.maxDurationNs duration
        statusMask := bounds.statusMask ||| status.bit }

/-- The bounds of the rows. Their trace ids ascend, so that the first and the last are the extremes. -/
def writeBlock : List ResolvedSpanRow → Except SpanSegError BlockEntry
  | [] => .error (.corrupted "empty block")
  | first :: rest => do
    let rows := first :: rest
    let bounds ← rows.foldlM RowBounds.add ⟨Int64.maxValue, Int64.minValue, 0⟩
    return {
      minTraceId := first.traceId
      maxTraceId := (rows.getLast (List.cons_ne_nil first rest)).traceId
      minStartTs := minI64 (rows.map ResolvedSpanRow.startTsNs)
      maxEndTs := maxI64 (rows.map ResolvedSpanRow.endTsNs)
      minDurationNs := bounds.minDurationNs
      maxDurationNs := bounds.maxDurationNs
      statusMask := bounds.statusMask }

def bloomSeed : UInt64 := 0

/-- The keys of a row in the filter of its block. -/
def rowBloomKeys (platform : Platform) (row : ResolvedSpanRow) : List (Nat × List UInt8) :=
  ((tokens platform row.name).map fun token => (colName, token)) ++
    match row.serviceName with
    | none => []
    | some service => (tokens platform service).map fun token => (colServiceName, token)

/-- A filter of this format has a power of two of bits. -/
def powerOfTwoSize (target : Nat) : Nat :=
  2 ^ Nat.clog 2 (max target bloomBlockBits)

def buildBlockBloom (platform : Platform) (rows : List ResolvedSpanRow) : BloomFilter :=
  bloomFinishSized platform powerOfTwoSize bloomSeed (rows.flatMap (rowBloomKeys platform))

def traceIdField : String := "trace_id"

def traceKeyIdxBucketBits : Nat := 8

/-- The section of the pairs of a trace and a block. The lowest bucket past the cap is reported. -/
def encodeTraceKeyIdxCapped (pairs : List (TraceId × UInt32)) (cap : Nat) : Except SpanSegError KeyIdxSection :=
  let entries := sortedDistinct (pairs.map fun pair => KeyEntry.mk (key8Id16 pair.1) pair.2)
  let counts := (List.range (bucketCount traceKeyIdxBucketBits)).map fun bucket =>
    (bucket, entries.countP fun entry => mix entry.key8 traceKeyIdxBucketBits = bucket)
  match counts.find? fun count => decide (cap < count.2) with
  | some (bucket, count) => .error (.keyIdxBucketOverflow bucket count cap)
  | none =>
    codec (encodeKeyIdxWithBucketBits [{ name := traceIdField, keyType := .id16, entries }] traceKeyIdxBucketBits)

/-- The sort order of the records. -/
def recordLe (left right : SpanRecord) : Prop :=
  left.traceId.toList < right.traceId.toList ∨ left.traceId = right.traceId ∧ left.startTsNs ≤ right.startTsNs

instance : DecidableRel recordLe := fun _ _ =>
  inferInstanceAs (Decidable (_ ∨ _ ∧ _))

/-- A written object: the rows of each block, and the sections that index them. -/
structure RspanObject where
  blocks : List (List ResolvedSpanRow)
  skip : List BlockEntry
  bloom : List BloomFilter
  keyIdx : KeyIdxSection

structure RspanWriter where
  cfg : RspanConfig
  records : List SpanRecord
  keyIdxBucketCap : Nat

namespace RspanWriter

/-- The records in sort order, split. -/
def preResolved (writer : RspanWriter) : List PreResolved :=
  (writer.records.insertionSort recordLe).map preResolve

/-- The row that a record is stored as. -/
def stored (writer : RspanWriter) (record : SpanRecord) : ResolvedSpanRow :=
  resolveRow (dynamicColumns writer.preResolved) (preResolve record)

def finish (platform : Platform) (writer : RspanWriter) : Except SpanSegError RspanObject := do
  if writer.records.isEmpty then throw (.limitExceeded "empty object")
  else
    let pre := writer.preResolved
    let rows := pre.map (resolveRow (dynamicColumns pre))
    let blocks := chunkBlocks writer.cfg rows
    let skip ← blocks.mapM writeBlock
    let keyIdx ← encodeTraceKeyIdxCapped
      (blocks.zipIdx.flatMap fun block => block.1.map fun row => (row.traceId, UInt32.ofNat block.2)) writer.keyIdxBucketCap
    return { blocks, skip, bloom := blocks.map (buildBlockBloom platform), keyIdx }

end RspanWriter

/-- The block has no record that can match. -/
def blockPruned (entry : BlockEntry) (traceId : Option TraceId) (tsMin tsMax : Int64) (durationNs : Option (Int64 × Int64))
    (statusMask : Option UInt8) : Bool :=
  decide (entry.maxEndTs < tsMin ∨ tsMax < entry.minStartTs) ||
    (traceId.any fun id => decide (id.toList < entry.minTraceId.toList ∨ entry.maxTraceId.toList < id.toList)) ||
    (durationNs.any fun window => decide (entry.maxDurationNs < window.1 ∨ window.2 < entry.minDurationNs)) ||
    statusMask.any fun mask => entry.statusMask &&& mask == 0

/-- A field of the filters and the literal that its value must equal. -/
structure BloomPredicate where
  fieldId : Nat
  literal : String

/-- The view of one entry. It refuses a size that is not a power of two of at least one block of bits. -/
def bloomEntry (bloom : List BloomFilter) (index : Nat) : Except CodecError BloomFilter :=
  match bloom[index]? with
  | none => .error (.corrupted s!"bloom index {index} out of range")
  | some filter =>
    let mBits := filter.mBits
    if bloomBlockBits ≤ mBits ∧ 2 ^ Nat.log 2 mBits = mBits then .ok filter
    else .error (.corrupted s!"bloom m_bits {mBits}")

/-- Some token of some literal is absent from the block. -/
def prunedByBloom (platform : Platform) (view : BloomFilter) (tokenized : List (Nat × List (List UInt8))) : Bool :=
  tokenized.any fun literal => !literal.2.isEmpty && !literal.2.all fun token => view.mayContain platform literal.1 token

/-- The blocks whose filter proves no token absent. -/
def keepUnpruned (platform : Platform) (bloom : List BloomFilter) (tokenized : List (Nat × List (List UInt8))) :
    List Nat → Except SpanSegError (List Nat)
  | [] => .ok []
  | index :: rest => do
    let view ← codec (bloomEntry bloom index)
    let later ← keepUnpruned platform bloom tokenized rest
    return if prunedByBloom platform view tokenized then later else index :: later

/-- What a probe says about the blocks of a trace. -/
inductive TraceKeyProbe where
  | absent
  | present (blocks : List UInt32)
  | declined
  deriving DecidableEq, Repr

namespace RspanObject

def candidateBlocks (object : RspanObject) (traceId : Option TraceId) (tsMin tsMax : Int64)
    (durationNs : Option (Int64 × Int64)) (statusMask : Option UInt8) : List Nat :=
  (object.skip.zipIdx.filter fun entry => !blockPruned entry.1 traceId tsMin tsMax durationNs statusMask).map Prod.snd

def candidateBlocksWithBloom (platform : Platform) (object : RspanObject) (traceId : Option TraceId) (tsMin tsMax : Int64)
    (durationNs : Option (Int64 × Int64)) (statusMask : Option UInt8) (predicates : List BloomPredicate) :
    Except SpanSegError (List Nat) := do
  let entries := object.bloom.length
  let blocks := object.skip.length
  if entries ≠ blocks then throw (.corrupted s!"bloom entry count {entries} != block count {blocks}")
  else
    let base := object.candidateBlocks traceId tsMin tsMax durationNs statusMask
    if predicates.isEmpty then return base
    else
      let tokenized := predicates.map fun predicate => (predicate.fieldId, tokens platform predicate.literal)
      keepUnpruned platform object.bloom tokenized base

/-- The section indexes the trace ids and nothing else. -/
def checkParameters (index : KeyIdxSection) : Except SpanSegError Unit :=
  match index.fields with
  | [field] =>
    if field.name = traceIdField ∧ field.keyType = .id16 then .ok ()
    else
      let name := field.name.quote
      let quoted := traceIdField.quote
      let keyType := field.keyType
      .error (.corrupted
        ("KEY_IDX field is " ++ name ++ " of key type " ++ keyType.name ++ ", RSPAN requires " ++ quoted ++ " of Id16"))
  | fields =>
    let count := fields.length
    .error (.corrupted s!"KEY_IDX names {count} fields, RSPAN requires exactly one")

/-- The answer of the one bucket that the trace is in. A block past the last one refuses the whole bucket. -/
def probeTrace (object : RspanObject) (traceId : TraceId) : Except SpanSegError TraceKeyProbe := do
  checkParameters object.keyIdx
  match ← codec (object.keyIdx.locate traceIdField .id16 (key8Id16 traceId)) with
  | none => return .declined
  | some located =>
    if located.frame.isEmpty then return .absent
    else
      let entries ← codec located.entries
      let blockCount := object.skip.length
      match entries.find? fun entry => decide (blockCount ≤ entry.block.toNat) with
      | some entry =>
        let bucket := located.bucket
        let block := entry.block
        throw (.corrupted s!"KEY_IDX bucket {bucket} names block {block}, object has {blockCount} blocks")
      | none =>
        let blocks := located.matching entries
        return if blocks.isEmpty then .absent else .present blocks

end RspanObject

end Ravel.Spans
