/-
This file models the distributed count: the gate that admits it, and the slices of a snapshot that its workers fetch.
-/

import Ravel.Construction.Catalog.ShardGenerations
import Ravel.Construction.Promql.MergedSource
import Ravel.Library.SortedGroups

namespace Ravel.Promql

/-- The first eight bytes of the identity, the least significant first. -/
def SeriesId.leadingBytes (seriesId : SeriesId) : UInt64 :=
  (seriesId.bytes.toList.take 8).foldr (fun byte rest => byte.toUInt64 + 256 * rest) 0

/-- A resolved segment with the shard and the ingest hour of its bucket. -/
structure RoutedSegment where
  shard : UInt32
  ingestHourBucket : UInt32
  segment : MetricSegment

/-- The segment has a run of the series. -/
def RoutedSegment.Holds (routed : RoutedSegment) (seriesId : SeriesId) : Prop :=
  (∃ run ∈ routed.segment.scalars, run.seriesId = seriesId) ∨ ∃ run ∈ routed.segment.histograms, run.seriesId = seriesId

/-- The loop over the hours, with the generation that owned the hours before. -/
def ownedByOne (generations : List Catalog.ShardGeneration) (slackHours : UInt32) : Option UInt32 → List UInt32 → Bool
  | owner, [] => owner.isSome
  | owner, hour :: rest =>
    match Catalog.stableGenerationForHour generations hour slackHours with
    | none => false
    | some generation =>
      match owner with
      | none => ownedByOne generations slackHours (some generation) rest
      | some seen => if seen = generation then ownedByOne generations slackHours (some seen) rest else false

/-- One and the same generation alone owns every hour. -/
def allHoursInOneStableGeneration (generations : List Catalog.ShardGeneration) (hours : List UInt32) (slackHours : UInt32) :
    Bool :=
  ownedByOne generations slackHours none hours

/-- The gate of the distributed count. -/
def isPushdownEligible {Federation : Type} (federation : Option Federation) (segments : List RoutedSegment)
    (generations : List Catalog.ShardGeneration) : Bool :=
  if federation.isSome then false
  else
    allHoursInOneStableGeneration generations (segments.map (·.ingestHourBucket)) Catalog.defaultScanSlackHours

/-- The chunks of a list of at most `fuel` entries, each of `size` entries but the last. -/
def sliceChunks {Entry : Type} (size : Nat) : Nat → List Entry → List (List Entry)
  | 0, _ => []
  | _ + 1, [] => []
  | fuel + 1, entry :: rest => (entry :: rest).take size :: sliceChunks size fuel ((entry :: rest).drop size)

/-- The segments of each shard, in ascending shard order. -/
def shardGroups (segments : List RoutedSegment) : List (List RoutedSegment) :=
  (SortedGroups.groupAll (segments.map fun routed => (routed.shard.toNat, routed))).map Prod.snd

/-- The shard-major slices of a snapshot. -/
def partitionSnapshot (segments : List RoutedSegment) (maxParallelSlices : Nat) : List (List RoutedSegment) :=
  if segments.isEmpty then []
  else
    let cap := max maxParallelSlices 1
    let groups := shardGroups segments
    let sliceCount := min groups.length cap
    let chunkLen := (groups.length + sliceCount - 1) / sliceCount
    ((sliceChunks chunkLen groups.length groups).map List.flatten).filter fun slice => !slice.isEmpty

/-- The runs that the worker of a slice fetches. -/
def sliceScalars (regex : RegexMatch) (matchers : List LabelMatcher) (slice : List RoutedSegment) : List ScalarRun :=
  fetchScalars regex (slice.map (·.segment)) matchers

/-- The answers of the workers, one for each slice. -/
def sliceAnswers (regex : RegexMatch) (matchers : List LabelMatcher) (startNs endNs : Int) (slices : List (List RoutedSegment)) :
    Except Metrics.QueryError (List (List PartialAggregate)) :=
  slices.mapM fun slice => reducePartialAggregates (sliceScalars regex matchers slice) startNs endNs

end Ravel.Promql
