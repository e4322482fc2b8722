/-
This file models the index sections of an RLOG object and the assembly of the object.
-/

import Ravel.Construction.Logs.ObjectWriter

namespace Ravel.Logs

/-- The statistics of one numeric column in one block. -/
structure NumStat where
  columnId : Nat
  ty : FieldType
  minBits : UInt64
  maxBits : UInt64
  nullCount : Nat
  hasNan : Bool
  deriving DecidableEq, Repr

/-- The sort key of `f64::total_cmp`. -/
def totalCmpKey (bits : UInt64) : Int :=
  if bits < 0x8000000000000000 then bits.toNat else -(bits.toNat - 0x8000000000000000 : Int) - 1

def f64IsNan (bits : UInt64) : Bool :=
  0x7ff0000000000000 < bits &&& 0x7fffffffffffffff

/-- The smallest element by the key, the first of equals. -/
def minBy {Value : Type} (key : Value → Int) : List Value → Option Value
  | [] => none
  | first :: rest => some (rest.foldl (fun least value => if key least ≤ key value then least else value) first)

/-- The largest element by the key, the first of equals. -/
def maxBy {Value : Type} (key : Value → Int) : List Value → Option Value
  | [] => none
  | first :: rest => some (rest.foldl (fun most value => if key value ≤ key most then most else value) first)

/-- The NumStat of the rows' contributions to a column. A column with no value has zero bounds. -/
def numStat (columnId : Nat) (ty : FieldType) (winners : List (Option ColumnValue)) : NumStat :=
  match ty with
  | .f64 =>
    let values := winners.filterMap fun winner =>
      match winner with
      | some (.f64 bits) => some bits
      | _ => none
    let ordered := values.filter fun bits => !f64IsNan bits
    { columnId := columnId
      ty := .f64
      minBits := (minBy totalCmpKey ordered).getD 0
      maxBits := (maxBy totalCmpKey ordered).getD 0
      nullCount := winners.length - values.length
      hasNan := values.any f64IsNan }
  | .bool =>
    let values := winners.filterMap fun winner =>
      match winner with
      | some (.bool value) => some value
      | _ => none
    let bit (value : Bool) : UInt64 := if value then 1 else 0
    { columnId := columnId
      ty := .bool
      minBits := ((minBy (fun value => (bit value).toNat) values).map bit).getD 0
      maxBits := ((maxBy (fun value => (bit value).toNat) values).map bit).getD 0
      nullCount := winners.length - values.length
      hasNan := false }
  | _ =>
    let values := winners.filterMap fun winner =>
      match winner with
      | some (.i64 value) => some value
      | _ => none
    { columnId := columnId
      ty := .i64
      minBits := ((minBy Int64.toInt values).map Int64.toUInt64).getD 0
      maxBits := ((maxBy Int64.toInt values).map Int64.toUInt64).getD 0
      nullCount := winners.length - values.length
      hasNan := false }

/-- The value of a row under a column id. -/
def cellOf (cells : List (Nat × ColumnValue)) (columnId : Nat) : Option ColumnValue :=
  (cells.find? fun cell => cell.1 = columnId).map Prod.snd

/-- The columns of a block that get a plan: those of a stored cell or of a NumStat winner. -/
def plannedColumns (columns : List Column) (rows : List ResolvedRow) : List Column :=
  columns.filter fun column => rows.any fun row =>
    row.columns.any (fun cell => cell.1 = column.columnId) ||
      row.statWinners.any fun cell => cell.1 = column.columnId

def blockStats (columns : List Column) (rows : List ResolvedRow) : List NumStat :=
  ((plannedColumns columns rows).filter fun column => column.ty.isNumeric).map fun column =>
    numStat column.columnId column.ty (rows.map fun row => cellOf row.statWinners column.columnId)

/-- The bounds of a block or of a group of blocks. -/
structure SkipBounds where
  minTs : Int
  maxTs : Int
  minStreamRef : Nat
  maxStreamRef : Nat
  deriving DecidableEq, Repr

structure Level0Entry where
  bounds : SkipBounds
  stats : List NumStat
  deriving DecidableEq, Repr

def rowBounds (row : ResolvedRow) : SkipBounds :=
  ⟨row.tsNs, row.tsNs, row.streamRef, row.streamRef⟩

def joinBounds (left right : SkipBounds) : SkipBounds :=
  ⟨min left.minTs right.minTs, max left.maxTs right.maxTs, min left.minStreamRef right.minStreamRef,
    max left.maxStreamRef right.maxStreamRef⟩

/-- The bounds of a nonempty list. -/
def boundsOf : List SkipBounds → SkipBounds
  | [] => ⟨0, 0, 0, 0⟩
  | first :: rest => rest.foldl joinBounds first

def skipFanout : Nat := 64

/-- The chunks of a list of at most `fuel` elements. -/
def chunksLoop {Value : Type} (size : Nat) : Nat → List Value → List (List Value)
  | 0, _ => []
  | _, [] => []
  | fuel + 1, values => values.take size :: chunksLoop size fuel (values.drop size)

structure SkipIndex where
  l0 : List Level0Entry
  l1 : List SkipBounds
  deriving DecidableEq, Repr

def buildSkipIndex (l0 : List Level0Entry) : SkipIndex :=
  { l0 := l0
    l1 := (chunksLoop skipFanout l0.length l0).map fun chunk => boundsOf (chunk.map Level0Entry.bounds) }

/-- The equality key of a stored value. -/
def termKey : ColumnValue → List UInt8
  | .str value => value
  | .bytes value => value
  | .i64 value => toBeBytes value.toUInt64
  | .f64 bits => toBeBytes bits
  | .bool value => [if value then 1 else 0]

/-- The postings of one indexed column. -/
inductive FieldTerms where
  | capped
  | terms (map : List (List UInt8 × List Nat))
  deriving DecidableEq, Repr

/-- A block joins the posting list of a term. -/
def insertTerm (map : List (List UInt8 × List Nat)) (term : List UInt8) (block : Nat) :
    List (List UInt8 × List Nat) :=
  match map with
  | [] => [(term, [block])]
  | entry :: rest =>
    if entry.1 = term then (entry.1, if entry.2.contains block then entry.2 else entry.2 ++ [block]) :: rest
    else entry :: insertTerm rest term block

/-- A field past its distinct-value cap drops its terms and takes no more. -/
def postTerm (maxDistinct : Nat) (field : FieldTerms) (posting : Nat × List UInt8) : FieldTerms :=
  match field with
  | .capped => .capped
  | .terms map =>
    let next := insertTerm map posting.2 posting.1
    if maxDistinct < next.length then .capped else .terms next

/-- The postings of a column in block order. -/
def columnPostings (columnId : Nat) (blocks : List (List ResolvedRow)) : List (Nat × List UInt8) :=
  blocks.zipIdx.flatMap fun block => block.1.flatMap fun row =>
    row.indexedTerms.filterMap fun term => if term.1 = columnId then some (block.2, termKey term.2) else none

def buildPostings (cfg : RlogConfig) (columns : List Column) (indexedFields : List String)
    (blocks : List (List ResolvedRow)) : List (Nat × FieldTerms) :=
  (columns.filter fun column => indexedFields.contains column.name).map fun column =>
    (column.columnId, (columnPostings column.columnId blocks).foldl (postTerm cfg.postingsMaxDistinct) (.terms []))

/-- The blocks of a term. A column without postings and a capped one answer nothing. -/
def probePostings (postings : List (Nat × FieldTerms)) (columnId : Nat) (term : List UInt8) : Option (List Nat) :=
  match postings.find? fun field => field.1 = columnId with
  | none => none
  | some (_, .capped) => none
  | some (_, .terms map) => some (((map.find? fun entry => entry.1 = term).map Prod.snd).getD [])

/-- The bloom scope keeps the string column. -/
def bloomKeeps (scope : BloomScope) (column : Column) : Bool :=
  match scope with
  | .all => true
  | .undeclared declared => !declared.contains column.name
  | .text => false

def bloomCovered (scope : BloomScope) (columns : List Column) : List Nat :=
  [colSeverityText, colBody] ++
    (columns.filter fun column => column.ty = .str && bloomKeeps scope column).map Column.columnId

def bloomSkip (scope : BloomScope) (columns : List Column) : List Nat :=
  (columns.filter fun column => column.ty = .str && !bloomKeeps scope column).map Column.columnId

/-- The keys of a row in the filter of its block. -/
def rowBloomKeys (platform : Platform) (skip : List Nat) (row : ResolvedRow) : List (Nat × List UInt8) :=
  insertText platform colBody (utf8Bytes row.body) ++
    insertText platform colSeverityText (utf8Bytes row.severityText) ++
    row.columns.flatMap fun cell =>
      match cell.2 with
      | .str bytes => if skip.contains cell.1 then [] else insertText platform cell.1 bytes
      | _ => []

def blockBloom (platform : Platform) (seed : UInt64) (skip : List Nat) (rows : List ResolvedRow) : BloomFilter :=
  bloomFinish platform seed (rows.flatMap (rowBloomKeys platform skip))

/-- One block of KEY_IDX pairs, with the trace ids under their field. -/
def blockKeys (traceField : Option Nat) (rows : List ResolvedRow) : List (Nat × Key8) :=
  (rows.flatMap fun row => row.keys ++
    match traceField, row.traceId with
    | some field, some id => [(field, id.toList.take 8)]
    | _, _ => []).dedup

/-- A finished object with its sections decoded. -/
structure RlogObject where
  /-- The streams, ascending by id. The stream ref is the position. -/
  streamDir : List (LogStreamId × List UInt8)
  /-- The columns, ascending by name and type. -/
  fieldDir : List Column
  blocks : List (List ResolvedRow)
  skip : SkipIndex
  postings : List (Nat × FieldTerms)
  bloomCovered : List Nat
  bloom : List BloomFilter
  /-- The KEY_IDX fields in name order. -/
  keyPlan : List (String × KeyType)
  /-- The distinct keys of each field, block by block. -/
  keyIdx : List (List (Nat × Key8))

def fieldEntryLe (left right : Column) : Prop :=
  pairLe (left.name, left.ty) (right.name, right.ty)

instance : DecidableRel fieldEntryLe := fun _ _ =>
  inferInstanceAs (Decidable (pairLe _ _))

namespace RlogWriter

/-- The decoded pairs of every stream. A corrupt blob refuses the object. -/
def streamPairs (streams : List (LogStreamId × List UInt8)) :
    Except LogSegError (List (LogStreamId × List (String × AttrValue))) :=
  streams.mapM fun stream => do return (stream.1, ← streamAttrPairs stream.2)

/-- The pairs of a stream, empty for a stream that the list lacks. -/
def pairsOf (pairs : List (LogStreamId × List (String × AttrValue))) (id : LogStreamId) :
    List (String × AttrValue) :=
  ((pairs.find? fun stream => stream.1 = id).map Prod.snd).getD []

/-- The plan of an object before its rows are resolved. -/
structure Layout where
  streams : List (LogStreamId × List UInt8)
  pairs : List (LogStreamId × List (String × AttrValue))
  keyPlan : List (String × KeyType)
  columns : List Column

def layout (writer : RlogWriter) : Except LogSegError Layout := do
  if maxDynamicColumns < writer.cfg.maxDynamicColumns then
    throw (.limitExceeded ("max_dynamic_columns " ++ toString writer.cfg.maxDynamicColumns ++ " exceeds " ++
      toString maxDynamicColumns ++ ", the most the decoder can read back"))
  if writer.records.isEmpty then throw (.limitExceeded "empty object")
  let streams ← collectStreams writer.records
  let keyPlan ← keyIndexPlan writer.keyIndexFields
  let pairs ← streamPairs streams
  let distinct := distinctPairs writer.records (pairs.flatMap Prod.snd) writer.indexedFields
  return ⟨streams, pairs, keyPlan, assignColumns distinct writer.cfg⟩

def Layout.index (plan : Layout) (writer : RlogWriter) : StampIndex :=
  stampIndex plan.columns writer.indexedFields plan.keyPlan

def Layout.seedOf (plan : Layout) (writer : RlogWriter) (id : LogStreamId) : StreamSeed :=
  StreamSeed.build (plan.index writer) (pairsOf plan.pairs id)

/-- The position of the `trace_id` field in the KEY_IDX plan. -/
def Layout.traceField (plan : Layout) : Option Nat :=
  plan.keyPlan.findIdx? fun field => field.1 = traceIdField

/-- The rows of the object in row order, each with its record. -/
def resolveRows (platform : Platform) (writer : RlogWriter) (plan : Layout) :
    Except LogSegError (List (RlogRecord × ResolvedRow)) := do
  let rows ← writer.records.mapM fun record => do
    return (record, ← resolveRow platform plan.streams (plan.index writer) (plan.seedOf writer) record)
  return sortRows writer.cluster rows

/-- The sections over the blocks. -/
def assemble (platform : Platform) (writer : RlogWriter) (plan : Layout) (rows : List ResolvedRow) : RlogObject :=
  let blocks := chunkBlocks writer.cfg rows
  { streamDir := plan.streams
    fieldDir := plan.columns.insertionSort fieldEntryLe
    blocks := blocks
    skip := buildSkipIndex (blocks.map fun block =>
      ⟨boundsOf (block.map rowBounds), blockStats plan.columns block⟩)
    postings := buildPostings writer.cfg plan.columns writer.indexedFields blocks
    bloomCovered := bloomCovered writer.bloomScope plan.columns
    bloom := blocks.map (blockBloom platform writer.cfg.bloomSeed (bloomSkip writer.bloomScope plan.columns))
    keyPlan := plan.keyPlan
    keyIdx := blocks.map (blockKeys plan.traceField) }

/-- `finish`: the object of the buffered records. -/
def finish (platform : Platform) (writer : RlogWriter) : Except LogSegError RlogObject := do
  let plan ← writer.layout
  let rows ← writer.resolveRows platform plan
  return writer.assemble platform plan (rows.map Prod.snd)

end RlogWriter

end Ravel.Logs
