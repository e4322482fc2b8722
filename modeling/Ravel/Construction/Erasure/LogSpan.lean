/-
This file models the erasure of log records and spans, at query time and in the physical rewrite.
-/

import Ravel.Construction.Erasure.Request
import Ravel.Construction.Logs.StreamAttrs

namespace Ravel.Erasure

open Logs

/-- The text of a string value. Other values never satisfy a matcher. -/
def attrText : AttrValue → Option String
  | .str value => some value
  | _ => none

/-- The first string value under the key. -/
def firstText (attrs : List (String × AttrValue)) (key : String) : Option String :=
  attrs.findSome? fun entry => if entry.1 = key then attrText entry.2 else none

namespace ErasurePredicate

def matchesLogAttrs (predicate : ErasurePredicate) (attrs : List (String × AttrValue)) : Bool :=
  predicate.matchersSatisfied (firstText attrs)

/-- The first value under the key decides for string-valued attributes. -/
def matchesStrAttrs (predicate : ErasurePredicate) (attrs : List (String × String)) : Bool :=
  predicate.matchersSatisfied fun key => attrs.findSome? fun entry => if entry.1 = key then some entry.2 else none

end ErasurePredicate

/-- A span is erased by a predicate that matches it inside the predicate's window. -/
def isErasedSpan (attrs : List (String × String)) (eventTsNs : Int) (predicates : List ErasurePredicate) : Bool :=
  predicates.any fun predicate => predicate.matchesStrAttrs attrs && predicate.coversTime eventTsNs

/-- A predicate erases a record with these attributes. -/
def erasedByAttrs (predicates : List ErasurePredicate) (attrs : List (String × AttrValue)) (tsNs : Int) : Bool :=
  predicates.any fun predicate => predicate.matchesLogAttrs attrs && predicate.coversTime tsNs

/-- The fetcher's filter over the record's own attributes. -/
def retainLogRecords (records : List LogRecord) (predicates : List ErasurePredicate) : List LogRecord :=
  if predicates.isEmpty then records
  else records.filter fun record => !erasedByAttrs predicates record.attrs record.tsNs

/-- A map or a list is not part of the merged view. -/
def isScalar : AttrValue → Bool
  | .map _ => false
  | .list _ => false
  | _ => true

/-- The scalar resource and scope attributes of a blob, resource first. -/
def streamIdentityAttrs (blob : List UInt8) : Except LogSegError (List (String × AttrValue)) := do
  let attrs ← decodeStreamAttrs blob
  return (attrs.resource ++ attrs.scopeAttrs).filter fun entry => isScalar entry.2

/-- One record attribute over the view: it replaces the first entry with its key, or it is appended. -/
def overlayAttr (merged : List (String × AttrValue)) (attr : String × AttrValue) : List (String × AttrValue) :=
  match merged with
  | [] => [attr]
  | entry :: rest => if entry.1 = attr.1 then (entry.1, attr.2) :: rest else entry :: overlayAttr rest attr

/-- The record's attributes over its resource and scope attributes. -/
def mergedLogAttrs (record : LogRecord) : Except LogSegError (List (String × AttrValue)) := do
  let identity ← streamIdentityAttrs record.streamAttrs
  return record.attrs.foldl overlayAttr identity

/-- The loop of the authoritative filter. The first corrupt blob ends it. -/
def retainUnerasedLoop (predicates : List ErasurePredicate) :
    List LogRecord → Except LogSegError (List LogRecord)
  | [] => .ok []
  | record :: rest => do
    let merged ← mergedLogAttrs record
    let survivors ← retainUnerasedLoop predicates rest
    return if erasedByAttrs predicates merged record.tsNs then survivors else record :: survivors

/-- The authoritative filter over the merged view. -/
def retainUnerasedLogRecords (records : List LogRecord) (predicates : List ErasurePredicate) :
    Except LogSegError (List LogRecord) :=
  if predicates.isEmpty then .ok records else retainUnerasedLoop predicates records

/-- The records that a query serves while the requests are pending. -/
def servedLogRecords (records : List LogRecord) (requests : List ErasureRequest) :
    Except LogSegError (List LogRecord) :=
  let predicates := snapshotPendingErasurePredicates requests
  retainUnerasedLogRecords (retainLogRecords records predicates) predicates

namespace RewriteMatcher

/-- `LogErasureMatcher::matches_attrs`: some own attribute carries each pair. -/
def matchesLogAttrs (matcher : RewriteMatcher) (attrs : List (String × AttrValue)) : Bool :=
  matcher.matchesBy fun key value => attrs.any fun entry => entry.1 == key && attrText entry.2 == some value

/-- `SpanErasureMatcher::matches_attrs`: some span attribute carries each pair. -/
def matchesSpanAttrs (matcher : RewriteMatcher) (attrs : List (String × String)) : Bool :=
  matcher.matchesBy fun key value => attrs.any fun entry => entry.1 == key && entry.2 == value

def dropsLogRecord (matcher : RewriteMatcher) (attrs : List (String × AttrValue)) (tsNs : Int) : Bool :=
  matcher.matchesLogAttrs attrs && matcher.inWindow tsNs

def dropsSpanRecord (matcher : RewriteMatcher) (attrs : List (String × String)) (tsNs : Int) : Bool :=
  matcher.matchesSpanAttrs attrs && matcher.inWindow tsNs

end RewriteMatcher

def firstDroppingLogRequest (requests : List ApplicableRequest) (attrs : List (String × AttrValue))
    (tsNs : Int) : Option Nat :=
  requests.findIdx? fun request => request.matcher.dropsLogRecord attrs tsNs

def firstDroppingSpanRequest (requests : List ApplicableRequest) (attrs : List (String × String))
    (tsNs : Int) : Option Nat :=
  requests.findIdx? fun request => request.matcher.dropsSpanRecord attrs tsNs

/-- The outcome of a record rewrite. The written parts hold the survivors in merge order. -/
structure RecordRewriteBuild (Record : Type) where
  survivors : List Record
  inputSampleCount : Nat
  outputSampleCount : Nat
  drops : List RewriteDrop

inductive RewriteError where
  | invariant (message : String)
  | inputConservation (scannedRecordCount footerRecordCount : Nat)
  deriving DecidableEq, Repr

/-- The checked `u64` sum of the footers' record counts. -/
def checkedSampleSum (counts : List Nat) : Except RewriteError Nat :=
  counts.foldlM (fun sum count =>
    if sum + count < 2 ^ 64 then .ok (sum + count)
    else .error (.invariant "sample_count sum overflowed u64")) 0

/-- The merge state: the survivors so far and the drop count of each request. -/
structure RewriteState (Record : Type) where
  kept : List Record
  droppedCounts : List Nat

/-- One record of the merge. A dropped record is charged to its first dropping request. -/
def rewriteStep {Record : Type} (firstDropping : Record → Option Nat) (state : RewriteState Record)
    (record : Record) : RewriteState Record :=
  match firstDropping record with
  | some index => { state with droppedCounts := state.droppedCounts.modify index (· + 1) }
  | none => { state with kept := state.kept ++ [record] }

/-- The rewrite of one merged record sequence, with the input footers' declared counts. -/
def buildRewriteRecords {Record : Type} (firstDropping : Record → Option Nat)
    (requests : List ApplicableRequest) (footerRecordCounts : List Nat) (merged : List Record) :
    Except RewriteError (RecordRewriteBuild Record) := do
  let footerRecordCount ← checkedSampleSum footerRecordCounts
  let state := merged.foldl (rewriteStep firstDropping) ⟨[], List.replicate requests.length 0⟩
  if merged.length ≠ footerRecordCount then throw (.inputConservation merged.length footerRecordCount)
  else
    return {
      survivors := state.kept
      inputSampleCount := merged.length
      outputSampleCount := state.kept.length
      drops := List.zipWith (fun request count => ⟨request.requestId, count⟩) requests state.droppedCounts }

def buildRewriteLogs (requests : List ApplicableRequest) (footerRecordCounts : List Nat)
    (merged : List LogRecord) : Except RewriteError (RecordRewriteBuild LogRecord) :=
  buildRewriteRecords (fun record => firstDroppingLogRequest requests record.attrs record.tsNs) requests
    footerRecordCounts merged

/-- The fields of a span that erasure reads. -/
structure SpanRecord where
  startTsNs : Int
  attrs : List (String × String)
  deriving DecidableEq, Repr

def buildRewriteSpans (requests : List ApplicableRequest) (footerRecordCounts : List Nat)
    (merged : List SpanRecord) : Except RewriteError (RecordRewriteBuild SpanRecord) :=
  buildRewriteRecords (fun record => firstDroppingSpanRequest requests record.attrs record.startTsNs) requests
    footerRecordCounts merged

end Ravel.Erasure
