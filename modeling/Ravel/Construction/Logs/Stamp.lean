/-
This file models the stamp of a record: its POSTINGS terms, NumStat winners and KEY_IDX keys.
A slot of the source is the tracked name itself here.
-/

import Ravel.Construction.Logs.Records

namespace Ravel.Logs

/-- A dynamic column of an object. -/
structure Column where
  name : String
  ty : FieldType
  columnId : Nat
  deriving DecidableEq, Repr

/-- The column of a `(name, type)` pair, when the pair has one. -/
def columnLookup (columns : List Column) (name : String) (ty : FieldType) : Option Nat :=
  (columns.find? fun column => column.name = name && column.ty = ty).map Column.columnId

/-- One entry of a merged view. -/
structure ViewEntry where
  slot : String
  ty : FieldType
  value : ColumnValue
  deriving DecidableEq, Repr

/-- What the stamp reads about the tracked names of an object. -/
structure StampIndex where
  /-- The tracked names, ascending by bytes. -/
  names : List String
  indexedNames : List String
  numstatNames : List String
  keyFields : List (String × Nat × FieldType)
  columns : List Column

namespace StampIndex

def isTracked (index : StampIndex) (name : String) : Bool := index.names.contains name

def isIndexed (index : StampIndex) (name : String) : Bool := index.indexedNames.contains name

def isNumstat (index : StampIndex) (name : String) : Bool := index.numstatNames.contains name

/-- The KEY_IDX field of a name, with the field's storage type. -/
def key (index : StampIndex) (name : String) : Option (Nat × FieldType) :=
  (index.keyFields.find? fun field => field.1 = name).map Prod.snd

end StampIndex

/-- One resolved resource or scope pair of a tracked name. -/
structure SeedEntry where
  slot : String
  ty : FieldType
  value : ColumnValue
  firstOfSlot : Bool
  firstInView : Bool
  nested : Bool

def isNested : AttrValue → Bool
  | .list _ => true
  | .map _ => true
  | _ => false

abbrev StreamSeed := List SeedEntry

namespace StreamSeed

def carries (seed : StreamSeed) (slot : String) : Bool :=
  seed.any fun entry => entry.slot = slot

/-- The seed holds a scalar entry of the slot. -/
def carriesInView (seed : StreamSeed) (slot : String) : Bool :=
  seed.any fun entry => entry.slot = slot && !entry.nested

/-- One pair of the stream layer over the entries before it. -/
def buildStep (index : StampIndex) (seed : StreamSeed) (pair : String × AttrValue) : StreamSeed :=
  if index.isTracked pair.1 then
    let nested := isNested pair.2
    let resolved := resolveValue pair.2
    seed ++ [{
      slot := pair.1
      ty := resolved.1
      value := resolved.2
      firstOfSlot := !carries seed pair.1
      firstInView := !nested && !carriesInView seed pair.1
      nested := nested }]
  else seed

def build (index : StampIndex) (pairs : List (String × AttrValue)) : StreamSeed :=
  pairs.foldl (buildStep index) []

end StreamSeed

/-- The tracked occurrences of one record, in encounter order. -/
structure StampScratch where
  cols : List ViewEntry
  overflow : List (String × AttrValue)

namespace StampScratch

/-- The last columnar occurrence of the slot whose type byte is not below the incumbent's. -/
def pickColumnar (scratch : StampScratch) (slot : String) : Option ViewEntry :=
  scratch.cols.foldl (fun pick entry =>
    if entry.slot = slot then
      match pick with
      | none => some entry
      | some incumbent => if incumbent.ty.toU8 ≤ entry.ty.toU8 then some entry else some incumbent
    else pick) none

/-- The last overflow occurrence of the slot whose canonical bytes are not below the incumbent's. -/
def pickOverflow (scratch : StampScratch) (slot : String) : Option AttrValue :=
  scratch.overflow.foldl (fun pick entry =>
    if entry.1 = slot then
      match pick with
      | none => some entry.2
      | some incumbent =>
        if canonicalValueBytes incumbent ≤ canonicalValueBytes entry.2 then some entry.2 else some incumbent
    else pick) none

/-- The record-level winner of a slot. The overflow tier wins outright. -/
def winner (scratch : StampScratch) (slot : String) : Option ViewEntry :=
  match scratch.pickOverflow slot with
  | some value =>
    let resolved := resolveValue value
    some ⟨slot, resolved.1, resolved.2⟩
  | none => scratch.pickColumnar slot

/-- The winners of the record, ascending by slot. -/
def winners (scratch : StampScratch) (index : StampIndex) : List ViewEntry :=
  index.names.filterMap scratch.winner

/-- The stream layer as the blob carries it with winners in place, then the other winners. -/
def postingsEntries (scratch : StampScratch) (index : StampIndex) (seed : StreamSeed) : List ViewEntry :=
  seed.map (fun entry =>
    match (scratch.winner entry.slot).filter fun _ => entry.firstOfSlot with
    | some win => win
    | none => ⟨entry.slot, entry.ty, entry.value⟩) ++
  (scratch.winners index).filter fun win => !seed.carries win.slot

/-- The reader's merged view: the scalar stream layer with winners in place, then the other winners. -/
def viewEntries (scratch : StampScratch) (index : StampIndex) (seed : StreamSeed) : List ViewEntry :=
  (seed.filter fun entry => !entry.nested).map (fun entry =>
    match (scratch.winner entry.slot).filter fun _ => entry.firstInView with
    | some win => win
    | none => ⟨entry.slot, entry.ty, entry.value⟩) ++
  (scratch.winners index).filter fun win => !seed.carriesInView win.slot

end StampScratch

/-- The POSTINGS term of an entry, when its name is indexed and its type has a column. -/
def emitPostings (index : StampIndex) (entry : ViewEntry) : Option (Nat × ColumnValue) :=
  if index.isIndexed entry.slot then
    (columnLookup index.columns entry.slot entry.ty).map fun columnId => (columnId, entry.value)
  else none

/-- The NumStat winners of a view. The first entry of a name shadows the later ones. -/
def emitStats (index : StampIndex) (seen : List String) : List ViewEntry → List (Nat × ColumnValue)
  | [] => []
  | entry :: rest =>
    if index.isNumstat entry.slot && !seen.contains entry.slot then
      let later := emitStats index (entry.slot :: seen) rest
      if entry.ty.isNumeric then
        match columnLookup index.columns entry.slot entry.ty with
        | some columnId => (columnId, entry.value) :: later
        | none => later
      else later
    else emitStats index seen rest

/-- The KEY_IDX keys of a view, by the same rule and from the value's own type. -/
def emitKeys (blake3 : Blake3) (index : StampIndex) (seen : List String) : List ViewEntry → List (Nat × Key8)
  | [] => []
  | entry :: rest =>
    match index.key entry.slot with
    | some (field, keyTy) =>
      if seen.contains entry.slot then emitKeys blake3 index seen rest
      else
        let later := emitKeys blake3 index (entry.slot :: seen) rest
        if entry.ty = keyTy then
          match key8Of blake3 entry.value with
          | some key8 => (field, key8) :: later
          | none => later
        else later
    | none => emitKeys blake3 index seen rest

/-- The three outputs of the stamp for one record. -/
structure StampOut where
  indexed : List (Nat × ColumnValue)
  stat : List (Nat × ColumnValue)
  key : List (Nat × Key8)
  deriving DecidableEq

namespace StampScratch

def finish (blake3 : Blake3) (scratch : StampScratch) (index : StampIndex) (seed : StreamSeed) : StampOut :=
  let view := scratch.viewEntries index seed
  { indexed := (scratch.postingsEntries index seed).filterMap (emitPostings index)
    stat := emitStats index [] view
    key := emitKeys blake3 index [] view }

end StampScratch

end Ravel.Logs
