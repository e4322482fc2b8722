/-
This file models the resolve of a query from a folded snapshot: the extraction of entries, pruned by the name postings where
these bind to every loaded part.
-/

import Mathlib.Data.String.Basic
import Ravel.Construction.Snapshot.Parts
import Ravel.Library.PartitionPoints

namespace Ravel.Snapshot

open Commit Library

/-- A decoded part. Its decoder refuses entries out of hour order. -/
structure SnapshotPart where
  entries : List SnapshotEntry
  hourMajor : entries.Pairwise fun first second => first.ingestHourBucket.toNat ≤ second.ingestHourBucket.toNat

/-- The ordinals of the entries that carry a name. -/
structure NamePostings where
  name : String
  ordinals : List Nat

/-- Decoded postings. Their decoder refuses names and ordinals that do not ascend strictly. -/
structure Postings where
  partBlake3 : List Bytes
  names : List NamePostings
  namesAscend : names.Pairwise fun first second => first.name < second.name
  ordinalsAscend : ∀ postings ∈ names, postings.ordinals.Pairwise (· < ·)

/-- The loaded parts of a snapshot, with their hashes. -/
structure SnapshotWindow where
  parts : List SnapshotPart
  partBlake3 : List Bytes
  postings : Option Postings

structure SegmentPartOrigin where
  part : Nat
  ordinal : Nat
  deriving DecidableEq, Repr

structure TimeRange where
  startNs : Int64
  endNs : Int64

def TimeRange.overlaps (range other : TimeRange) : Bool :=
  decide (range.startNs ≤ other.endNs) && decide (other.startNs ≤ range.endNs)

/-- What an extraction writes: the count of pruned entries, and the segments and their origins, each key once. -/
structure Extraction where
  pruned : Nat
  out : List (String × SegmentRef)
  partOrigins : Option (List (String × SegmentPartOrigin))

/-- Marks a filter as a literal prefix. -/
def prefixFilterSentinel : Char := '\x01'

/-- The text after a leading character. -/
def stripPrefix (leading : Char) (text : String) : Option String :=
  match text.toList with
  | [] => none
  | first :: rest => if first = leading then some (String.ofList rest) else none

def startsWith (text leading : String) : Bool :=
  leading.toList.isPrefixOf text.toList

/-- Sorted and without repetitions. -/
def sortDedup (ordinals : List Nat) : List Nat :=
  dedupAdjacent (ordinals.mergeSort fun first second => decide (first ≤ second))

namespace SnapshotWindow

def postingsBindAllParts (window : SnapshotWindow) : Bool :=
  match window.postings with
  | none => false
  | some postings => decide (postings.partBlake3 = window.partBlake3)

def postingsOrdinalsFor (window : SnapshotWindow) (name : String) : Option (List Nat) :=
  if !window.postingsBindAllParts then none
  else
    match window.postings with
    | none => none
    | some postings =>
      match postings.names.find? fun entry => decide (entry.name = name) with
      | some entry => some entry.ordinals
      | none => some []

def postingsPrefixOrdinalsFor (window : SnapshotWindow) (leading : String) : Option (List Nat) :=
  if leading.isEmpty then none
  else if !window.postingsBindAllParts then none
  else
    match window.postings with
    | none => none
    | some postings =>
      let lo := partitionPoint (fun entry => decide (entry.name < leading)) postings.names
      let hi := partitionPoint (fun entry => decide (entry.name < leading) || startsWith entry.name leading) postings.names
      some (sortDedup (((postings.names.take hi).drop lo).flatMap (·.ordinals)))

/-- The ordinals that a filter keeps, or none where pruning does not apply. -/
def postingsOrdinalsForFilter (window : SnapshotWindow) (nameFilter : Option String) : Option (List Nat) :=
  match nameFilter with
  | none => none
  | some filter =>
    match stripPrefix prefixFilterSentinel filter with
    | none => window.postingsOrdinalsFor filter
    | some leading =>
      match window.postingsPrefixOrdinalsFor leading with
      | none => none
      | some ordinals =>
        -- a stored name that is the whole encoded text keeps its entries too
        match window.postingsOrdinalsFor filter with
        | none => some ordinals
        | some exact => if exact.isEmpty then some ordinals else some (sortDedup (ordinals ++ exact))

end SnapshotWindow

/-- The parameters of one extraction. The window of hours that a resolve passes is never inverted. -/
structure ExtractQuery where
  tenant : Bytes
  signal : Catalog.Signal
  lowerHour : UInt32
  upperHour : UInt32
  hoursOrdered : lowerHour ≤ upperHour
  range : TimeRange

/-- An entry that overlaps the query's range is recorded, unless its key is there already. -/
def maybeInsert (query : ExtractQuery) (entry : SnapshotEntry) (origin : Option SegmentPartOrigin) (state : Extraction) :
    Except EntryError Extraction :=
  if !(TimeRange.mk entry.minEventTsNs entry.maxEventTsNs).overlaps query.range then .ok state
  else do
    let segment ← buildSegmentRefFromEntry query.tenant query.signal entry
    if state.out.any fun held => held.1 = segment.dataObjectKey then return state
    else
      let partOrigins := match state.partOrigins, origin with
        | some origins, some origin => some (origins ++ [(segment.dataObjectKey, origin)])
        | origins, _ => origins
      return ⟨state.pruned, state.out ++ [(segment.dataObjectKey, segment)], partOrigins⟩

/-- The closure `insert` of `extract_into`, at an entry of a part. -/
def insertAt (query : ExtractQuery) (partIndex : Nat) (part : SnapshotPart) (state : Extraction) (position : Nat) :
    Except EntryError Extraction :=
  match part.entries[position]? with
  | none => .ok state
  | some entry =>
    let origin := if partIndex < 2 ^ 32 ∧ position < 2 ^ 32 then some ⟨partIndex, position⟩ else none
    maybeInsert query entry origin state

/-- The loop over the parts, with the count of the entries of the earlier ones. -/
def extractParts (query : ExtractQuery) (ordinals : Option (List Nat)) :
    Nat → Nat → List SnapshotPart → Extraction → Except EntryError Extraction
  | _, _, [], state => .ok state
  | partIndex, partBase, part :: rest, state => do
    let start := partitionPoint (fun entry => decide (entry.ingestHourBucket < query.lowerHour)) part.entries
    let stop := partitionPoint (fun entry => decide (entry.ingestHourBucket ≤ query.upperHour)) part.entries
    let extracted ←
      match ordinals with
      | none => (List.range' start (stop - start)).foldlM (insertAt query partIndex part) state
      | some ordinals =>
        let lo := partitionPoint (fun ordinal => decide (ordinal < partBase + start)) ordinals
        let hi := partitionPoint (fun ordinal => decide (ordinal < partBase + stop)) ordinals
        (((ordinals.take hi).drop lo).map (· - partBase)).foldlM (insertAt query partIndex part)
          { state with pruned := state.pruned + ((stop - start) - (hi - lo)) }
    extractParts query ordinals (partIndex + 1) (partBase + part.entries.length) rest extracted

def SnapshotWindow.extractInto (window : SnapshotWindow) (query : ExtractQuery) (nameFilter : Option String)
    (state : Extraction) : Except EntryError Extraction :=
  extractParts query (window.postingsOrdinalsForFilter nameFilter) 0 0 window.parts state

end Ravel.Snapshot
