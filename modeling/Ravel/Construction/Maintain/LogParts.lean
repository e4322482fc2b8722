/-
This file models the output parts of a log compaction: the writer of a part and the fold of its declared-column stamps.
-/

import Ravel.Construction.Logs.MetadataAggregates

namespace Ravel.Maintain

open Logs

/-- Two inputs carry different blobs for one stream. -/
structure StreamAttrsConflict where
  streamId : String
  aLen : Nat
  bLen : Nat
  deriving DecidableEq, Repr

/-- The first blob of a stream stays. A different one ends the merge. -/
def mergeStream (merged : List (LogStreamId × List UInt8)) (entry : LogStreamId × List UInt8) :
    Except StreamAttrsConflict (List (LogStreamId × List UInt8)) :=
  match merged.find? fun stream => stream.1 = entry.1 with
  | none => .ok (merged ++ [entry])
  | some (_, blob) =>
    if blob = entry.2 then .ok merged
    else .error ⟨hexLower entry.1.bytes.toList, blob.length, entry.2.length⟩

/-- The streams of the inputs with their blobs, ascending by id. -/
def mergedStreams (inputs : List RlogObject) : Except StreamAttrsConflict (List (LogStreamId × List UInt8)) := do
  return (← (inputs.flatMap RlogObject.streamDir).foldlM mergeStream []).insertionSort streamLe

/-- The running extrema of one column and its count of non-null rows. -/
structure Running (Value : Type) where
  min : Value
  max : Value
  nonNull : Nat
  deriving DecidableEq, Repr

namespace Running

variable {Value : Type}

def start (value : Value) : Running Value := ⟨value, value, 1⟩

def observe [LT Value] [DecidableLT Value] (run : Running Value) (value : Value) : Running Value where
  min := if value < run.min then value else run.min
  max := if run.max < value then value else run.max
  nonNull := run.nonNull + 1

/-- The run starts at its first value. -/
def extend [LT Value] [DecidableLT Value] (run : Option (Running Value)) (value : Value) : Option (Running Value) :=
  match run with
  | some run => some (run.observe value)
  | none => some (start value)

end Running

/-- One occurrence of a declared name in a record. -/
inductive PendingValue where
  | i64 (value : Int64)
  | bool (value : Bool)
  | other
  deriving DecidableEq, Repr

def PendingValue.ofAttr : AttrValue → PendingValue
  | .i64 value => .i64 value
  | .bool value => .bool value
  | _ => .other

structure ColumnAccum where
  i64Run : Option (Running Int64)
  boolRun : Option (Running Bool)
  /-- The epoch of the record that named the column last. -/
  mentionEpoch : Nat
  /-- The last occurrence of the name in the record that is folded. -/
  pending : Option PendingValue
  deriving DecidableEq, Repr

namespace ColumnAccum

def default : ColumnAccum := ⟨none, none, 0, none⟩

def observe (column : ColumnAccum) : DeclaredStatValue → ColumnAccum
  | .i64 value => { column with i64Run := Running.extend column.i64Run value }
  | .bool value => { column with boolRun := Running.extend column.boolRun value }

/-- The pending occurrence is folded when it has the declared type. -/
def foldWinner (declared : DeclaredStatType) (column : ColumnAccum) : ColumnAccum :=
  let taken := { column with pending := none }
  match declared, column.pending with
  | .i64, some (.i64 value) => taken.observe (.i64 value)
  | .bool, some (.bool value) => taken.observe (.bool value)
  | _, _ => taken

end ColumnAccum

/-- The declared columns of a merge and the values that its streams supply for them. -/
structure DeclaredSchema where
  cols : List (String × DeclaredStatType)
  fallbacks : List (LogStreamId × List (Nat × DeclaredStatValue))
  unresolved : Bool
  deriving DecidableEq, Repr

/-- The position of a declared name. A later column of one name replaces an earlier one. -/
def declaredIndex (cols : List (String × DeclaredStatType)) (name : String) : Option Nat :=
  ((cols.zipIdx.filter fun entry => entry.1.1 = name).getLast?).map Prod.snd

/-- The value of a declared column, when it has the declared type. -/
def typedStat : DeclaredStatType → AttrValue → Option DeclaredStatValue
  | .i64, .i64 value => some (.i64 value)
  | .bool, .bool value => some (.bool value)
  | _, _ => none

/-- The declared columns that a stream has claimed, with the typed values. -/
structure StreamClaims where
  claimed : List Nat
  values : List (Nat × DeclaredStatValue)

/-- The first scalar occurrence of a declared name claims its column. -/
def StreamClaims.claim (cols : List (String × DeclaredStatType)) (claims : StreamClaims) (pair : String × AttrValue) :
    StreamClaims :=
  if isNested pair.2 then claims
  else
    match declaredIndex cols pair.1 with
    | none => claims
    | some column =>
      if claims.claimed.contains column then claims
      else
        match (cols[column]?).bind fun declared => typedStat declared.2 pair.2 with
        | none => { claims with claimed := column :: claims.claimed }
        | some value => ⟨column :: claims.claimed, claims.values ++ [(column, value)]⟩

namespace DeclaredSchema

def addStream (schema : DeclaredSchema) (stream : LogStreamId × List UInt8) : DeclaredSchema :=
  match streamAttrPairs stream.2 with
  | .error _ => { schema with unresolved := true }
  | .ok pairs =>
    let claims := pairs.foldl (StreamClaims.claim schema.cols) ⟨[], []⟩
    if claims.values.isEmpty then schema
    else { schema with fallbacks := schema.fallbacks ++ [(stream.1, claims.values)] }

def build (declared : List (String × DeclaredStatType)) (streams : List (LogStreamId × List UInt8)) : DeclaredSchema :=
  if declared.isEmpty then ⟨declared, [], false⟩ else streams.foldl addStream ⟨declared, [], false⟩

def fallbacksFor (schema : DeclaredSchema) (streamId : LogStreamId) : List (Nat × DeclaredStatValue) :=
  ((schema.fallbacks.find? fun stream => stream.1 = streamId).map Prod.snd).getD []

end DeclaredSchema

/-- The fold of the declared columns over the records of one part. -/
structure DeclaredStatAccum where
  cols : List ColumnAccum
  touched : List Nat
  epoch : Nat
  deriving DecidableEq, Repr

namespace DeclaredStatAccum

def new (schema : DeclaredSchema) : DeclaredStatAccum :=
  ⟨schema.cols.map fun _ => .default, [], 0⟩

/-- One attribute of the record. The last occurrence of a name stays pending. -/
def mention (schema : DeclaredSchema) (accum : DeclaredStatAccum) (attr : String × AttrValue) : DeclaredStatAccum :=
  match declaredIndex schema.cols attr.1 with
  | none => accum
  | some column =>
    match accum.cols[column]? with
    | none => accum
    | some found =>
      { accum with
        touched := if found.mentionEpoch = accum.epoch then accum.touched else accum.touched ++ [column]
        cols := accum.cols.set column
          { found with mentionEpoch := accum.epoch, pending := some (.ofAttr attr.2) } }

def foldTouched (schema : DeclaredSchema) (cols : List ColumnAccum) (column : Nat) : List ColumnAccum :=
  match schema.cols[column]? with
  | none => cols
  | some declared => cols.modify column (ColumnAccum.foldWinner declared.2)

/-- The stream's value of a column that the record does not name. -/
def foldFallback (epoch : Nat) (cols : List ColumnAccum) (fallback : Nat × DeclaredStatValue) : List ColumnAccum :=
  cols.modify fallback.1 fun column =>
    if column.mentionEpoch = epoch then column else column.observe fallback.2

def observeRecord (schema : DeclaredSchema) (accum : DeclaredStatAccum) (record : RlogRecord) : DeclaredStatAccum :=
  if accum.cols.isEmpty then accum
  else
    let mentioned := record.attrs.foldl (mention schema) { accum with epoch := accum.epoch + 1, touched := [] }
    let folded := mentioned.touched.foldl (foldTouched schema) mentioned.cols
    { mentioned with cols := (schema.fallbacksFor record.streamId).foldl (foldFallback mentioned.epoch) folded }

/-- The extrema and the count of a run. -/
def observed {Value : Type} (wrap : Value → DeclaredStatValue) (run : Option (Running Value)) :
    Option (DeclaredStatValue × DeclaredStatValue × Nat) :=
  run.map fun run => (wrap run.min, wrap run.max, run.nonNull)

/-- One stamp, unless the rows are fewer than the non-null values or the statistic is refused. -/
def buildOne (name : String) (declared : DeclaredStatType)
    (observed : Option (DeclaredStatValue × DeclaredStatValue × Nat)) (sampleCount : Nat) : Option DeclaredColumnStat :=
  match observed with
  | some (min, max, nonNull) =>
    if sampleCount < nonNull then none
    else (DeclaredColumnStat.build name declared (some min) (some max) (sampleCount - nonNull)).toOption
  | none => (DeclaredColumnStat.build name declared none none sampleCount).toOption

def buildStamps (schema : DeclaredSchema) (accum : DeclaredStatAccum) (sampleCount : Nat) : List DeclaredColumnStat :=
  if schema.unresolved then []
  else
    (accum.cols.zip schema.cols).filterMap fun entry =>
      buildOne entry.2.1 entry.2.2
        (match entry.2.2 with
          | .i64 => observed .i64 entry.1.i64Run
          | .bool => observed .bool entry.1.boolRun)
        sampleCount

end DeclaredStatAccum

/-- The settings that every part of a merge is written with. -/
structure PartWriterSettings where
  indexedFields : List String
  keyIndexFields : List (String × KeyType)
  cluster : Option ClusterOrder
  bloomScope : BloomScope

/-- The default configuration of the writer. -/
def rlogConfigDefault : RlogConfig where
  blockTargetRecords := 8192
  blockMaxBytes := 8388608
  maxDynamicColumns := 1000
  bloomSeed := 0
  postingsMaxDistinct := 10000
  chunkOrder := []

/-- A part in progress: its records in the order of the merge and the fold of its declared columns. -/
structure PartBuilder where
  records : List RlogRecord
  declaredAccum : DeclaredStatAccum

namespace PartBuilder

def new (schema : DeclaredSchema) : PartBuilder := ⟨[], .new schema⟩

def push (schema : DeclaredSchema) (part : PartBuilder) (record : RlogRecord) : PartBuilder where
  records := part.records ++ [record]
  declaredAccum := part.declaredAccum.observeRecord schema record

/-- The part of a sequence of records. -/
def ofRecords (schema : DeclaredSchema) (records : List RlogRecord) : PartBuilder :=
  records.foldl (push schema) (new schema)

def buildWriter (settings : PartWriterSettings) (records : List RlogRecord)
    (fits : ∀ record ∈ records, addressable (canonicalAttrBytes record.attrs).length) : RlogWriter where
  cfg := rlogConfigDefault
  records := records
  indexedFields := settings.indexedFields
  keyIndexFields := settings.keyIndexFields
  bloomScope := settings.bloomScope
  cluster := settings.cluster
  fits := fits

end PartBuilder

end Ravel.Maintain
