/-
This file models the statistics of a declared attribute column, and its aggregates that are answered from statistics alone.
-/

import Ravel.Construction.Logs.ColumnStats

namespace Ravel.Logs

open Library

/-- The declared types whose columns carry an exact minimum and maximum. -/
inductive DeclaredStatType where
  | i64
  | bool
  deriving DecidableEq, Repr

/-- One extremum of a declared column. -/
inductive DeclaredStatValue where
  | i64 (value : Int64)
  | bool (value : Bool)
  deriving DecidableEq, Repr

namespace DeclaredStatValue

def statType : DeclaredStatValue → DeclaredStatType
  | .i64 _ => .i64
  | .bool _ => .bool

/-- The rank of a value within one declared type. -/
def orderRank : DeclaredStatValue → Int
  | .i64 value => value.toInt
  | .bool false => 0
  | .bool true => 1

end DeclaredStatValue

/-- The text of a declared type in an error. -/
def DeclaredStatType.display : DeclaredStatType → String
  | .i64 => "I64"
  | .bool => "BOOL"

inductive DeclaredStatError where
  | emptyName
  | presenceMismatch (name minState maxState : String)
  | valueTypeMismatch (name : String) (declared actual : DeclaredStatType) (which : String)
  | minAboveMax (name : String) (min max : DeclaredStatValue)
  deriving DecidableEq, Repr

/-- The statistics of one declared column over an object. -/
structure DeclaredColumnStat where
  name : String
  declaredType : DeclaredStatType
  min : Option DeclaredStatValue
  max : Option DeclaredStatValue
  nullCount : Nat
  deriving DecidableEq, Repr

namespace DeclaredColumnStat

/-- An extremum of another type than the declared one is refused. -/
def checkType (name : String) (declared : DeclaredStatType) (which : String) :
    Option DeclaredStatValue → Except DeclaredStatError Unit
  | some value =>
    if value.statType = declared then .ok ()
    else .error (.valueTypeMismatch name declared value.statType which)
  | none => .ok ()

def presence (value : Option DeclaredStatValue) : String :=
  if value.isSome then "present" else "absent"

/-- `new`: both extrema are present or both are absent, and they are in order. -/
def build (name : String) (declared : DeclaredStatType) (min max : Option DeclaredStatValue) (nullCount : Nat) :
    Except DeclaredStatError DeclaredColumnStat := do
  if name.isEmpty then throw .emptyName
  checkType name declared "min" min
  checkType name declared "max" max
  match min, max with
  | some low, some high => if high.orderRank < low.orderRank then throw (.minAboveMax name low high)
  | none, none => pure ()
  | _, _ => throw (.presenceMismatch name (presence min) (presence max))
  return ⟨name, declared, min, max, nullCount⟩

end DeclaredColumnStat

/-- A value that is not null of a declared column. A `Str` column has none here. -/
inductive ScalarValue where
  | int64 (value : Int64)
  | boolean (value : Bool)
  | binary (value : List UInt8)
  deriving DecidableEq, Repr

/-- The segment of a snapshot. The row count and the stamps come from its commit record. -/
structure SegmentRef where
  contentHash : Vector UInt8 32
  identity : Nat × Nat × Vector UInt8 16 × Nat × Nat
  sampleCount : Nat
  declaredColumnStats : List DeclaredColumnStat

/-- The statistics of one object. -/
structure ColumnStatsSegment where
  columns : List ColumnStat

inductive HeldDictionaries where
  | all
  | columns (names : List String)

def HeldDictionaries.holds : HeldDictionaries → String → Bool
  | .all, _ => true
  | .columns names, column => names.contains column

structure PartColumnStats where
  segments : List ((Nat × Nat × Vector UInt8 16 × Nat × Nat) × ColumnStatsSegment)
  byContentHash : List (Vector UInt8 32 × ColumnStatsSegment)
  dictionaries : HeldDictionaries

abbrev LoadedColumnStats := List PartColumnStats

namespace LoadedColumnStats

def dictionaryLoaded (stats : LoadedColumnStats) (column : String) : Bool :=
  stats.all fun part => part.dictionaries.holds column

/-- A later part wins over an earlier one, and a content hash over an identity. -/
def statFor (stats : LoadedColumnStats) (seg : SegmentRef) : Option ColumnStatsSegment :=
  (stats.reverse.findSome? fun part =>
      (part.byContentHash.find? fun entry => entry.1 = seg.contentHash).map Prod.snd).or
    (stats.reverse.findSome? fun part =>
      (part.segments.find? fun entry => entry.1 = seg.identity).map Prod.snd)

end LoadedColumnStats

/-- The only entry of a name. -/
def uniqueColumnStat (columns : List ColumnStat) (name : String) : Option ColumnStat :=
  match columns.filter fun column => column.name = name with
  | [stat] => some stat
  | _ => none

/-- The value of a statistic as the declared type reads it. -/
def declaredScalar : DeclaredType → CstatValue → Option ScalarValue
  | .i64, .i64 value => some (.int64 value)
  | .bool, .b value => some (.boolean value)
  | .bytes, .bytesVal value => some (.binary value)
  | _, _ => none

structure SegmentCoverage where
  min : Option ScalarValue
  max : Option ScalarValue
  nullCount : Nat
  deriving DecidableEq

/-- The stamp type of a declared type. Byte strings carry no stamp. -/
def stampTypeOf : DeclaredType → Option DeclaredStatType
  | .i64 => some .i64
  | .bool => some .bool
  | .str => none
  | .bytes => none

def stampScalar : DeclaredType → DeclaredStatValue → Option ScalarValue
  | .i64, .i64 value => some (.int64 value)
  | .bool, .bool value => some (.boolean value)
  | _, _ => none

/-- An extremum that is absent stays absent, and one of another type refuses the coverage. -/
def coverExtremum {Value : Type} (read : Value → Option ScalarValue) : Option Value → Option (Option ScalarValue)
  | none => some none
  | some value => (read value).map some

/-- What the stamps of a segment say about a declared column. -/
def stampCoverage (declared : DeclaredColumn) (stamps : List DeclaredColumnStat) : Option SegmentCoverage := do
  let statType ← stampTypeOf declared.ty
  let stat ← stamps.find? fun stat => stat.name = declared.key
  if stat.declaredType ≠ statType then none
  else
    let min ← coverExtremum (stampScalar declared.ty) stat.min
    let max ← coverExtremum (stampScalar declared.ty) stat.max
    return ⟨min, max, stat.nullCount⟩

/-- The entry of a column whose row accounting is that of the segment. -/
def reconciledColumnStat (segStats : ColumnStatsSegment) (seg : SegmentRef) (key : String) : Option ColumnStat :=
  (uniqueColumnStat segStats.columns key).filter fun stat => stat.nonNullCount + stat.nullCount = seg.sampleCount

/-- `validate_min_max_presence`: the extrema are present exactly when there are values. -/
def minMaxPresent (stat : ColumnStat) : Bool :=
  if stat.nonNullCount = 0 then stat.min.isNone && stat.max.isNone else stat.min.isSome && stat.max.isSome

def entryCoverage (declared : DeclaredColumn) (stat : ColumnStat) : Option SegmentCoverage := do
  if minMaxPresent stat then
    let min ← coverExtremum (declaredScalar declared.ty) stat.min
    let max ← coverExtremum (declaredScalar declared.ty) stat.max
    return ⟨min, max, stat.nullCount⟩
  else none

/-- The entry of a segment whose stamp states the same extrema and null count. -/
def mergedViewEntry (declared : DeclaredColumn) (seg : SegmentRef) (segStats : ColumnStatsSegment) :
    Option ColumnStat := do
  let stat ← reconciledColumnStat segStats seg declared.key
  let stamp ← stampCoverage declared seg.declaredColumnStats
  if stamp = (← entryCoverage declared stat) then some stat else none

structure DeclaredGroupCounts where
  counts : List (ScalarValue × Nat)
  nullCount : Nat

structure DeclaredColumnSum where
  sum : Int
  nonNullCount : Nat

/-- What the aggregates read of a scan. The gate holds when the query has no filter, no pending erasure and a time bound
that clips no segment. The keys of a declaration are distinct. -/
structure LogsScanExec where
  metadataRewriteStatsAreExact : Bool
  declared : List DeclaredColumn
  distinct : (declared.map DeclaredColumn.key).Nodup
  segments : List SegmentRef
  columnStats : Option LoadedColumnStats

/-- The dictionary of an entry as the declared type reads it, when its counts are those of the values. -/
def readDictionary (declared : DeclaredColumn) (stat : ColumnStat) : Option (List (ScalarValue × Nat)) := do
  if !stat.dictionaryPresent then none
  else
    let entries ← stat.dictionary.mapM fun entry => (declaredScalar declared.ty entry.1).map fun value => (value, entry.2)
    if (entries.map Prod.snd).sum = stat.nonNullCount then some entries else none

namespace LogsScanExec

/-- The statistics and the column of an aggregate that reads dictionaries. -/
def dictionaryColumn (scan : LogsScanExec) (k : Nat) : Option (DeclaredColumn × LoadedColumnStats) := do
  if !scan.metadataRewriteStatsAreExact then none
  else
    let declared ← scan.declared[k]?
    if declared.ty = .str then none
    else
      let stats ← scan.columnStats
      if !stats.dictionaryLoaded declared.key then none else some (declared, stats)

def declaredNotEqualCount (scan : LogsScanExec) (k : Nat) (literal : ScalarValue) : Option Nat := do
  let (declared, stats) ← scan.dictionaryColumn k
  scan.segments.foldlM (fun total seg => do
    let stat ← mergedViewEntry declared seg (← stats.statFor seg)
    let entries ← readDictionary declared stat
    let matching := ((entries.filter fun entry => entry.1 = literal).map Prod.snd).sum
    if matching ≤ stat.nonNullCount then some (total + (stat.nonNullCount - matching)) else none) 0

def declaredGroupCounts (scan : LogsScanExec) (k : Nat) : Option DeclaredGroupCounts := do
  let (declared, stats) ← scan.dictionaryColumn k
  scan.segments.foldlM (fun merged seg => do
    let stat ← mergedViewEntry declared seg (← stats.statFor seg)
    let entries ← readDictionary declared stat
    return ⟨mergeCounts merged.counts entries, merged.nullCount + stat.nullCount⟩) ⟨[], 0⟩

def declaredColumnSum (scan : LogsScanExec) (k : Nat) : Option DeclaredColumnSum := do
  if !scan.metadataRewriteStatsAreExact then none
  else
    let declared ← scan.declared[k]?
    if declared.ty ≠ .i64 then none
    else
      let stats ← scan.columnStats
      scan.segments.foldlM (fun total seg => do
        let stat ← mergedViewEntry declared seg (← stats.statFor seg)
        let sum ← stat.sum
        return ⟨total.sum + sum.toInt, total.nonNullCount + stat.nonNullCount⟩) ⟨0, 0⟩

end LogsScanExec

/-- `declared_column_array`: the value of a declared column in a merged view. A value of another type is null. -/
def declaredCell (declared : DeclaredColumn) (view : List (String × AttrValue)) : Option ScalarValue :=
  match declared.ty, (view.find? fun entry => entry.1 = declared.key).map Prod.snd with
  | .i64, some (.i64 value) => some (.int64 value)
  | .bool, some (.bool value) => some (.boolean value)
  | .bytes, some (.bytes value) => some (.binary value)
  | .bytes, some (.list items) => some (.binary (canonicalValueBytes (.list items)))
  | .bytes, some (.map entries) => some (.binary (canonicalValueBytes (.map entries)))
  | _, _ => none

end Ravel.Logs
