/-
This file models the column statistics that a fold tallies from an object.
-/

import Ravel.Construction.Logs.ObjectReader
import Ravel.Library.CountedKeys

namespace Ravel.Logs

open Library

/-- The declared types of a typed attribute column. -/
inductive DeclaredType where
  | str
  | i64
  | bool
  | bytes
  deriving DecidableEq, Repr

/-- `declared_type_to_field_type`. -/
def DeclaredType.fieldType : DeclaredType → FieldType
  | .str => .str
  | .i64 => .i64
  | .bool => .bool
  | .bytes => .bytes

/-- `declared_type_to_stats_tag`. -/
def DeclaredType.statsTag : DeclaredType → Nat
  | .str => 1
  | .i64 => 2
  | .bool => 3
  | .bytes => 4

structure DeclaredColumn where
  key : String
  ty : DeclaredType
  deriving DecidableEq, Repr

/-- A value of a column statistic. -/
inductive CstatValue where
  | i64 (value : Int64)
  | b (value : Bool)
  | strUtf8 (value : String)
  | bytesVal (value : List UInt8)
  deriving DecidableEq, Repr

/-- The statistics of one column over an object. -/
structure ColumnStat where
  name : String
  declaredType : Nat
  nonNullCount : Nat
  nullCount : Nat
  min : Option CstatValue
  max : Option CstatValue
  dictionaryPresent : Bool
  dictionary : List (CstatValue × Nat)
  sum : Option Int64
  deriving DecidableEq, Repr

inductive ColumnStatsBuildError where
  | nonUtf8StrValue (name : String)
  deriving DecidableEq, Repr

def defaultMaxColumnDictionaryEntries : Nat := 10000

/-- The extrema and the dictionary of the folded values. A dictionary over the ceiling is gone for good. -/
structure FoldedValues (Value : Type) where
  min : Option Value
  max : Option Value
  dict : Option (List (Value × Nat))

def FoldedValues.empty {Value : Type} : FoldedValues Value := ⟨none, none, some []⟩

section Fold

variable {Value : Type} [LE Value] [DecidableLE Value] [DecidableEq Value]

/-- `fold_value`. -/
def FoldedValues.foldValue (folded : FoldedValues Value) (value : Value) : FoldedValues Value where
  min :=
    match folded.min with
    | some low => if low ≤ value then some low else some value
    | none => some value
  max :=
    match folded.max with
    | some high => if value ≤ high then some high else some value
    | none => some value
  dict :=
    folded.dict.bind fun counts =>
      let counts := addCount value 1 counts
      if defaultMaxColumnDictionaryEntries < counts.length then none else some counts

end Fold

inductive TallyState where
  | i64 (folded : FoldedValues Int64) (sum : Int)
  | bool (folded : FoldedValues Bool)
  | str (folded : FoldedValues String)
  | bytes (folded : FoldedValues (List UInt8))

structure ColumnTally where
  ty : DeclaredType
  nonNullCount : Nat
  nullCount : Nat
  state : TallyState

namespace ColumnTally

def new (ty : DeclaredType) : ColumnTally where
  ty := ty
  nonNullCount := 0
  nullCount := 0
  state :=
    match ty with
    | .i64 => .i64 .empty 0
    | .bool => .bool .empty
    | .str => .str .empty
    | .bytes => .bytes .empty

/-- A null is counted. A value is counted and folded into the state. -/
def observe {Value : Type} (fold : Value → TallyState → TallyState) (tally : ColumnTally) : Option Value → ColumnTally
  | none => { tally with nullCount := tally.nullCount + 1 }
  | some value => { tally with nonNullCount := tally.nonNullCount + 1, state := fold value tally.state }

/-- A state of another type keeps its values. -/
def observeI64 : ColumnTally → Option Int64 → ColumnTally :=
  observe fun value state =>
    match state with
    | .i64 folded sum => .i64 (folded.foldValue value) (sum + value.toInt)
    | state => state

def observeBool : ColumnTally → Option Bool → ColumnTally :=
  observe fun value state =>
    match state with
    | .bool folded => .bool (folded.foldValue value)
    | state => state

def observeBytes : ColumnTally → Option (List UInt8) → ColumnTally :=
  observe fun value state =>
    match state with
    | .bytes folded => .bytes (folded.foldValue value)
    | state => state

/-- Stored bytes that are not UTF-8 refuse the object. -/
def observeStr (tally : ColumnTally) (name : String) (cell : Option (List UInt8)) :
    Except ColumnStatsBuildError ColumnTally := do
  let text ← cell.mapM fun bytes =>
    match String.fromUTF8? bytes.toByteArray with
    | some text => .ok text
    | none => .error (.nonUtf8StrValue name)
  return tally.observe (fun value state =>
    match state with
    | .str folded => .str (folded.foldValue value)
    | state => state) text

/-- `i64::try_from`. -/
def tryI64 (value : Int) : Option Int64 :=
  if -(2 ^ 63) ≤ value ∧ value < 2 ^ 63 then some (Int64.ofInt value) else none

def toProto (tally : ColumnTally) (name : String) : ColumnStat :=
  let stat {Value : Type} (wrap : Value → CstatValue) (folded : FoldedValues Value) (sum : Option Int64) : ColumnStat :=
    { name := name
      declaredType := tally.ty.statsTag
      nonNullCount := tally.nonNullCount
      nullCount := tally.nullCount
      min := folded.min.map wrap
      max := folded.max.map wrap
      dictionaryPresent := folded.dict.isSome
      dictionary := (folded.dict.getD []).map fun entry => (wrap entry.1, entry.2)
      sum := sum }
  match tally.state with
  | .i64 folded sum => stat .i64 folded (tryI64 sum)
  | .bool folded => stat .b folded none
  | .str folded => stat .strUtf8 folded none
  | .bytes folded => stat .bytesVal folded none

end ColumnTally

def i64At (row : ResolvedRow) (columnId : Nat) : Option Int64 :=
  match cellOf row.columns columnId with
  | some (.i64 value) => some value
  | _ => none

def boolAt (row : ResolvedRow) (columnId : Nat) : Option Bool :=
  match cellOf row.columns columnId with
  | some (.bool value) => some value
  | _ => none

namespace RlogObject

/-- The cell of one row goes to the tally of its column. -/
def tallyRow (column : DeclaredColumn) (columnId : Nat) (tally : ColumnTally) (row : ResolvedRow) :
    Except ColumnStatsBuildError ColumnTally :=
  match column.ty with
  | .i64 => .ok (tally.observeI64 (i64At row columnId))
  | .bool => .ok (tally.observeBool (boolAt row columnId))
  | .str => tally.observeStr column.key (strAt row columnId)
  | .bytes => .ok (tally.observeBytes (strAt row columnId))

def tallyOf (tallies : List (String × ColumnTally)) (key : String) : Option ColumnTally :=
  (tallies.find? fun entry => entry.1 = key).map Prod.snd

def setTally (tallies : List (String × ColumnTally)) (key : String) (tally : ColumnTally) : List (String × ColumnTally) :=
  (key, tally) :: tallies.filter fun entry => entry.1 ≠ key

/-- One column of one block. A column that the object does not have gets no tally. -/
def tallyColumn (object : RlogObject) (block : List ResolvedRow) (tallies : List (String × ColumnTally))
    (column : DeclaredColumn) : Except ColumnStatsBuildError (List (String × ColumnTally)) :=
  match object.column column.key column.ty.fieldType with
  | none => .ok tallies
  | some attr => do
    let tally := (tallyOf tallies column.key).getD (.new column.ty)
    return setTally tallies column.key (← block.foldlM (tallyRow column attr.columnId) tally)

def tallyBlock (object : RlogObject) (typedColumns : List DeclaredColumn) (tallies : List (String × ColumnTally))
    (block : List ResolvedRow) : Except ColumnStatsBuildError (List (String × ColumnTally)) :=
  typedColumns.foldlM (object.tallyColumn block) tallies

/-- The statistics of the typed columns, ascending by name. -/
def tallyObjectColumns (object : RlogObject) (typedColumns : List DeclaredColumn) :
    Except ColumnStatsBuildError (List ColumnStat) := do
  let tallies ← object.blocks.foldlM (object.tallyBlock typedColumns) []
  return (tallies.map fun entry => entry.2.toProto entry.1).insertionSort fun left right => nameLe left.name right.name

end RlogObject

end Ravel.Logs
