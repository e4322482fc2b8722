/-
This file models the erasure of metric samples, at query time and in the physical rewrite.
-/

import Ravel.Construction.Erasure.Request
import Ravel.Construction.Metrics.Compaction

namespace Ravel.Erasure

open Metrics SortedGroups

namespace ErasurePredicate

def matchesLabels (predicate : ErasurePredicate) (labels : LabelSet) : Bool :=
  predicate.matchersSatisfied fun key => labels.lookup key

end ErasurePredicate

/-- One series of one fetched segment: its labels and one run with its provenance. -/
structure FetchedSeries (Value : Type) where
  labels : LabelSet
  run : RunOutput Value
  deriving DecidableEq, Repr

/-- The predicates that match the labels. -/
def matchingPredicates (labels : LabelSet) (predicates : List ErasurePredicate) : List ErasurePredicate :=
  predicates.filter fun predicate => predicate.matchesLabels labels

def sampleSurvives (tsNs : Int) (matching : List ErasurePredicate) : Bool :=
  !matching.any fun predicate => predicate.inWindow tsNs

variable {Value : Type}

/-- The explicit keys that a run-wide triple and `count` positions imply. -/
def pinnedColumn (triple : RunTriple) (count : Nat) : List SamplePriority :=
  (List.range count).map fun pos =>
    ⟨triple.createdUnixNs, triple.writerEpoch, triple.writerSeq, min pos u32Max⟩

/-- A run without a column gets the keys of its positions. -/
def pinRunWidePositions (priorities : Option (List SamplePriority)) (triple : RunTriple) (count : Nat) :
    List SamplePriority :=
  priorities.getD (pinnedColumn triple count)

/-- The entries of a parallel list whose sample is kept. -/
def keptBeside {Item : Type} (keep : Sample Value → Bool) (samples : List (Sample Value)) (items : List Item) :
    List Item :=
  ((samples.zip items).filter fun pair => keep pair.1).map Prod.snd

/-- The compaction of one run. A run that loses nothing stays as fetched, and a column of another length than the
samples is left alone. -/
def compactParallel (run : RunOutput Value) (matching : List ErasurePredicate) : RunOutput Value :=
  let keep := fun sample : Sample Value => sampleSurvives sample.tsNs matching
  if run.samples.all keep then run
  else
    let column := pinRunWidePositions run.provenance run.triple run.samples.length
    { run with
      samples := run.samples.filter keep
      provenance := some
        (if column.length = run.samples.length then keptBeside keep run.samples column else column) }

/-- The exclusion of one fetched series. A windowless match drops it whole. -/
def retainOne (predicates : List ErasurePredicate) (series : FetchedSeries Value) :
    Option (FetchedSeries Value) :=
  let matching := matchingPredicates series.labels predicates
  if matching.isEmpty then some series
  else if matching.any fun predicate => !predicate.hasWindow then none
  else
    let run := compactParallel series.run matching
    if run.samples.isEmpty then none else some { series with run := run }

/-- The exclusion of every fetched series. The scalar and histogram shapes share the rule. -/
def retainSeriesBy (series : List (FetchedSeries Value)) (predicates : List ErasurePredicate) :
    List (FetchedSeries Value) :=
  if predicates.isEmpty then series else series.filterMap (retainOne predicates)

def retainSeriesSoa (series : List (FetchedSeries UInt64)) (predicates : List ErasurePredicate) :
    List (FetchedSeries UInt64) :=
  retainSeriesBy series predicates

def retainHistogramSeries (series : List (FetchedSeries HistogramValue)) (predicates : List ErasurePredicate) :
    List (FetchedSeries HistogramValue) :=
  retainSeriesBy series predicates

namespace RewriteMatcher

/-- `ErasureMatcher::matches_labels`. -/
def matchesLabels (matcher : RewriteMatcher) (labels : LabelSet) : Bool :=
  matcher.matchesBy fun key value => labels.lookup key == some value

def dropsSample (matcher : RewriteMatcher) (labels : LabelSet) (tsNs : Int) : Bool :=
  matcher.matchesLabels labels && matcher.inWindow tsNs

end RewriteMatcher

/-- Where a rewrite takes the provenance of its input runs from. -/
inductive RunProvenance where
  | commitRecord
  | stored
  deriving DecidableEq, Repr

/-- One run's provenance as its part's own catalog stores it. -/
structure StoredRun where
  triple : RunTriple
  samples : Option (List SamplePriority)
  deriving DecidableEq, Repr

/-- A fetched input: its loaded catalog and the provenance its own catalog stores. -/
structure RewriteInput where
  catalog : InputCatalog
  storedRuns : List (SeriesId × List StoredRun)

inductive MetricRewriteError where
  | storedCatalogDisagrees (objectKey : String) (seriesId : SeriesId)
  | provenanceColumnLength (entries decoded : Nat)
  | sampleIndexExceedsU32
  | inputSampleCountOverflow
  | outputSampleCountOverflow
  deriving DecidableEq, Repr

/-- One run of either kind. -/
inductive KindRun (Run : Type → Type) where
  | scalar (run : Run UInt64)
  | histogram (run : Run HistogramValue)

/-- The input runs of a plan with the provenance of their commit record. -/
def commitRuns : KindRuns RunPlan → List (KindRun RunOutput)
  | .scalar runs => runs.map fun run => .scalar ⟨run.triple, run.samples, none⟩
  | .histogram runs => runs.map fun run => .histogram ⟨run.triple, run.samples, none⟩

/-- The input runs of a plan, restamped from the stored catalog. -/
def restampedRuns : KindRuns RunPlan → List StoredRun → List (KindRun RunOutput)
  | .scalar runs, stored =>
    List.zipWith (fun run entry => .scalar ⟨entry.triple, run.samples, entry.samples⟩) runs stored
  | .histogram runs, stored =>
    List.zipWith (fun run entry => .histogram ⟨entry.triple, run.samples, entry.samples⟩) runs stored

def KindRuns.runCount : KindRuns RunPlan → Nat
  | .scalar runs => runs.length
  | .histogram runs => runs.length

/-- The live runs of one contribution. -/
def liveRuns (provenance : RunProvenance) (input : RewriteInput) (plan : SeriesPlan) :
    Except MetricRewriteError (List (KindRun RunOutput)) :=
  match provenance with
  | .commitRecord => .ok (commitRuns plan.runs)
  | .stored =>
    match input.storedRuns.lookup plan.seriesId with
    | some stored =>
      if stored.length = KindRuns.runCount plan.runs then .ok (restampedRuns plan.runs stored)
      else .error (.storedCatalogDisagrees input.catalog.objectKey plan.seriesId)
    | none => .error (.storedCatalogDisagrees input.catalog.objectKey plan.seriesId)

/-- The first applicable request that drops a sample. -/
def firstDroppingRequest (applicable : List Nat) (requests : List ApplicableRequest) (labels : LabelSet)
    (tsNs : Int) : Option Nat :=
  applicable.find? fun index =>
    match requests[index]? with
    | some request => request.matcher.dropsSample labels tsNs
    | none => false

/-- The requests whose matchers match the labels, by index. -/
def applicableRequests (requests : List ApplicableRequest) (labels : LabelSet) : List Nat :=
  (requests.zipIdx.filter fun entry => entry.1.matcher.matchesLabels labels).map Prod.snd

/-- The survivors' original positions, from a position on. -/
def keptIndexes (dropping : Int → Option Nat) : Nat → List (Sample Value) → List Nat
  | _, [] => []
  | pos, sample :: rest =>
    match dropping sample.tsNs with
    | some _ => keptIndexes dropping (pos + 1) rest
    | none => pos :: keptIndexes dropping (pos + 1) rest

def survivingSamples (dropping : Int → Option Nat) (samples : List (Sample Value)) : List (Sample Value) :=
  samples.filter fun sample => (dropping sample.tsNs).isNone

/-- Each dropped sample is charged to its first dropping request. -/
def chargeDrops (dropping : Int → Option Nat) (counts : List Nat) (samples : List (Sample Value)) : List Nat :=
  samples.foldl (fun counts sample =>
    match dropping sample.tsNs with
    | some index => counts.modify index (· + 1)
    | none => counts) counts

/-- The explicit keys of survivors at their original positions. -/
def pinnedSurvivors (triple : RunTriple) : List Nat → Except MetricRewriteError (List SamplePriority)
  | [] => .ok []
  | index :: rest => do
    if u32Max < index then throw .sampleIndexExceedsU32
    else
      let others ← pinnedSurvivors triple rest
      return ⟨triple.createdUnixNs, triple.writerEpoch, triple.writerSeq, index⟩ :: others

/-- The provenance column of a filtered run. -/
def survivorProvenance (triple : RunTriple) (column : Option (List SamplePriority)) (kept : List Nat)
    (decoded : Nat) : Except MetricRewriteError (Option (List SamplePriority)) :=
  match column with
  | some column =>
    if column.length ≠ decoded then .error (.provenanceColumnLength column.length decoded)
    else .ok (some (kept.filterMap fun index => column[index]?))
  | none => if kept.length = decoded then .ok none else (pinnedSurvivors triple kept).map some

/-- The run-wide triple of a filtered run: the least of its survivors' keys when it has a column. -/
def survivorRunPrefix (triple : RunTriple) (provenance : Option (List SamplePriority)) : RunTriple :=
  match provenance with
  | some (first :: rest) => mergedRunPrefix (first :: rest)
  | _ => triple

/-- The running counts of a rewrite. -/
structure RewriteTally where
  inputSampleCount : Nat
  outputSampleCount : Nat
  droppedCounts : List Nat
  deriving DecidableEq, Repr

def checkedAdd (failure : MetricRewriteError) (left right : Nat) : Except MetricRewriteError Nat :=
  if left + right < 2 ^ 64 then .ok (left + right) else .error failure

/-- The survivors of one run. A run without survivors is left out. -/
def filterRun (dropping : Int → Option Nat) (inputSampleCount : Nat) (tally : RewriteTally) (run : RunOutput Value) :
    Except MetricRewriteError (RewriteTally × Option (RunOutput Value)) :=
  let survivors := survivingSamples dropping run.samples
  let droppedCounts := chargeDrops dropping tally.droppedCounts run.samples
  if survivors.isEmpty then
    return (⟨inputSampleCount, tally.outputSampleCount, droppedCounts⟩, none)
  else do
    let outputSampleCount ← checkedAdd .outputSampleCountOverflow tally.outputSampleCount survivors.length
    let kept := keptIndexes dropping 0 run.samples
    let provenance ← survivorProvenance run.triple run.provenance kept run.samples.length
    return (⟨inputSampleCount, outputSampleCount, droppedCounts⟩,
      some ⟨survivorRunPrefix run.triple provenance, survivors, provenance⟩)

/-- The rewrite of one run: a verbatim copy without applicable requests, else its survivors. -/
def rewriteRun (applicable : List Nat) (requests : List ApplicableRequest) (labels : LabelSet)
    (tally : RewriteTally) (run : RunOutput Value) :
    Except MetricRewriteError (RewriteTally × Option (RunOutput Value)) := do
  let inputSampleCount ← checkedAdd .inputSampleCountOverflow tally.inputSampleCount run.samples.length
  if applicable.isEmpty then
    let outputSampleCount ← checkedAdd .outputSampleCountOverflow tally.outputSampleCount run.samples.length
    return ({ tally with inputSampleCount := inputSampleCount, outputSampleCount := outputSampleCount }, some run)
  else filterRun (firstDroppingRequest applicable requests labels) inputSampleCount tally run

/-- The rewrite of one run of either kind. -/
def rewriteKindRun (applicable : List Nat) (requests : List ApplicableRequest) (labels : LabelSet)
    (tally : RewriteTally) :
    KindRun RunOutput → Except MetricRewriteError (RewriteTally × Option (KindRun RunOutput))
  | .scalar run =>
    (rewriteRun applicable requests labels tally run).map fun result => (result.1, result.2.map .scalar)
  | .histogram run =>
    (rewriteRun applicable requests labels tally run).map fun result => (result.1, result.2.map .histogram)

/-- The rewrite of a series' runs in order. -/
def rewriteRuns (applicable : List Nat) (requests : List ApplicableRequest) (labels : LabelSet) :
    RewriteTally → List (KindRun RunOutput) →
      Except MetricRewriteError (RewriteTally × List (KindRun RunOutput))
  | tally, [] => .ok (tally, [])
  | tally, run :: rest => do
    let (tally, rewritten) ← rewriteKindRun applicable requests labels tally run
    let (tally, others) ← rewriteRuns applicable requests labels tally rest
    return (tally, rewritten.toList ++ others)

/-- One series of the rewritten part. -/
structure RewrittenSeries where
  seriesId : SeriesId
  labels : LabelSet
  runs : List (KindRun RunOutput)

/-- The live runs of every contribution, in canonical input order. -/
def contributionRuns (provenance : RunProvenance) :
    List (RewriteInput × SeriesPlan) → Except MetricRewriteError (List (KindRun RunOutput))
  | [] => .ok []
  | (input, plan) :: rest => do
    let runs ← liveRuns provenance input plan
    let others ← contributionRuns provenance rest
    return runs ++ others

/-- The rewrite of every series in ascending id order. A series without surviving runs is left out. -/
def rewriteSeries (provenance : RunProvenance) (requests : List ApplicableRequest) :
    RewriteTally → List (SeriesId × List (RewriteInput × SeriesPlan)) →
      Except MetricRewriteError (RewriteTally × List RewrittenSeries)
  | tally, [] => .ok (tally, [])
  | tally, (_, []) :: rest => rewriteSeries provenance requests tally rest
  | tally, (seriesId, first :: contributions) :: rest => do
    let labels := first.2.labels
    let live ← contributionRuns provenance (first :: contributions)
    let (tally, runs) ← rewriteRuns (applicableRequests requests labels) requests labels tally live
    let (tally, others) ← rewriteSeries provenance requests tally rest
    return (tally, if runs.isEmpty then others else ⟨seriesId, labels, runs⟩ :: others)

/-- Every contribution of the inputs, keyed by its series. -/
def inputContributions (inputs : List RewriteInput) : List (SeriesId × (RewriteInput × SeriesPlan)) :=
  inputs.flatMap fun input => input.catalog.series.map fun plan => (plan.seriesId, (input, plan))

/-- An exemplar is kept when its series survives and no request drops it. -/
def keepsExemplar (requests : List ApplicableRequest) (groups : List (SeriesId × List (RewriteInput × SeriesPlan)))
    (series : List RewrittenSeries) (record : Exemplar) : Bool :=
  (series.any fun entry => entry.seriesId == record.seriesId) &&
    match lookup record.seriesId groups with
    | first :: _ =>
      (firstDroppingRequest (applicableRequests requests first.2.labels) requests first.2.labels
        record.tsNs).isNone
    | [] => false

/-- The outcome of a metric rewrite. -/
structure MetricRewriteBuild where
  series : List RewrittenSeries
  exemplars : List Exemplar
  inputSampleCount : Nat
  outputSampleCount : Nat
  drops : List RewriteDrop
  exemplarsKept : Nat
  exemplarsDropped : Nat

/-- The rewrite of one bucket's live runs against every applicable request. -/
def buildRewrite (provenance : RunProvenance) (inputs : List RewriteInput) (requests : List ApplicableRequest) :
    Except MetricRewriteError MetricRewriteBuild := do
  let groups := groupAll (inputContributions inputs)
  let start : RewriteTally := ⟨0, 0, List.replicate requests.length 0⟩
  let (tally, series) ← rewriteSeries provenance requests start groups
  let exemplars := inputs.flatMap fun input => input.catalog.exemplars
  let kept := exemplars.filter (keepsExemplar requests groups series)
  return {
    series := series
    exemplars := kept
    inputSampleCount := tally.inputSampleCount
    outputSampleCount := tally.outputSampleCount
    drops := List.zipWith (fun request count => ⟨request.requestId, count⟩) requests tally.droppedCounts
    exemplarsKept := kept.length
    exemplarsDropped := exemplars.length - kept.length }

end Ravel.Erasure
