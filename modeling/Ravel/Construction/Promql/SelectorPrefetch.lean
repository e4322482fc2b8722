/-
This file models the prefetch of all selectors of a query: the scalar pool, the histogram pool and the log pool.
-/

import Ravel.Construction.Promql.LogSeries

namespace Ravel.Promql

open Erasure Logs

/-- The evaluator's histogram. Every `f64` is its bit pattern. -/
structure FloatHistogram where
  counterResetHint : Metrics.ResetHint
  scale : Int
  zeroThreshold : UInt64
  zeroCount : UInt64
  count : UInt64
  sum : UInt64
  positiveSpans : List Metrics.HistogramSpan
  negativeSpans : List Metrics.HistogramSpan
  positiveBuckets : List UInt64
  negativeBuckets : List UInt64
  customValues : List UInt64
  deriving DecidableEq, Repr

/-- The bits of `f64::NAN`. -/
def nanBits : UInt64 := 0x7ff8000000000000

/-- `histogram_value_to_float`. The conversion of an integer count is given. -/
def histogramValueToFloat (ofCount : UInt64 → UInt64) (value : Metrics.HistogramValue) : FloatHistogram :=
  let counts := match value.counts with
    | .int zeroCount count positive negative =>
      (ofCount zeroCount, ofCount count, positive.map ofCount, negative.map ofCount)
    | .float zeroCount count positive negative => (zeroCount, count, positive, negative)
  { counterResetHint := value.resetHint
    scale := value.scale
    zeroThreshold := value.zeroThreshold
    zeroCount := counts.1
    count := counts.2.1
    sum := value.sum.getD nanBits
    positiveSpans := value.positiveSpans
    negativeSpans := value.negativeSpans
    positiveBuckets := counts.2.2.1
    negativeBuckets := counts.2.2.2
    customValues := value.customValues.getD [] }

/-- The derived lexicographic order of the source's key. -/
abbrev FloatHistogramSortKey :=
  Int ×ₗ Nat ×ₗ Nat ×ₗ Nat ×ₗ Nat ×ₗ Metrics.SpansKey ×ₗ Metrics.SpansKey ×ₗ List Nat ×ₗ List Nat ×ₗ List Nat ×ₗ Nat

def floatHistogramSortKey (value : FloatHistogram) : FloatHistogramSortKey :=
  toLex (value.scale, toLex (value.zeroThreshold.toNat, toLex (value.zeroCount.toNat, toLex (value.count.toNat,
    toLex (value.sum.toNat, toLex (Metrics.spansSortKey value.positiveSpans,
      toLex (Metrics.spansSortKey value.negativeSpans, toLex (value.positiveBuckets.map UInt64.toNat,
        toLex (value.negativeBuckets.map UInt64.toNat, toLex (value.customValues.map UInt64.toNat,
          Metrics.resetHintRank value.counterResetHint))))))))))

abbrev HistogramSample := Metrics.Sample FloatHistogram

/-- The walk over the second list while the first has `sample` at its front. -/
def unionInto (sample : HistogramSample) (rest : List HistogramSample)
    (later : List HistogramSample → List HistogramSample) : List HistogramSample → List HistogramSample
  | [] => sample :: rest
  | other :: others =>
    if sample.tsNs < other.tsNs then sample :: later (other :: others)
    else if other.tsNs < sample.tsNs then other :: unionInto sample rest later others
    else (if floatHistogramSortKey sample.value < floatHistogramSortKey other.value then other else sample) ::
      later others

/-- `union_histogram_samples`: every sample of both lists, the greater one at a common timestamp. -/
def unionHistogramSamples : List HistogramSample → List HistogramSample → List HistogramSample
  | [], second => second
  | sample :: rest, second => unionInto sample rest (unionHistogramSamples rest) second

/-- `insert_or_union_histogram_series` on the entries of a map by label set. -/
def insertOrUnionHistogramSeries (series : HistogramSeriesData FloatHistogram) :
    List (HistogramSeriesData FloatHistogram) → List (HistogramSeriesData FloatHistogram)
  | [] => [series]
  | entry :: rest =>
    if entry.labels = series.labels then ⟨entry.labels, unionHistogramSamples entry.samples series.samples⟩ :: rest
    else entry :: insertOrUnionHistogramSeries series rest

/-- The histogram series of one matcher set. -/
def planHistograms (ofCount : UInt64 → UInt64) (runs : List HistogramRun) :
    Except Metrics.QueryError (List (HistogramSeriesData FloatHistogram)) := do
  let fold ← Metrics.absorb Metrics.histogramIsGreater runs []
  return (fold.intoSeries Metrics.histogramIsGreater).map fun series =>
    ⟨series.1, series.2.map fun sample => ⟨sample.tsNs, histogramValueToFloat ofCount sample.value⟩⟩

/-- The histogram pool of the matcher sets' series in their order of arrival. -/
def histogramPool (arrived : List (List (HistogramSeriesData FloatHistogram))) :
    List (HistogramSeriesData FloatHistogram) :=
  sortByLabels HistogramSeriesData.labels
    (arrived.flatten.foldl (fun combined series => insertOrUnionHistogramSeries series combined) [])

/-- The hull of some windows. No window is asked for an empty list. -/
def paddedRange : List TimeRange → TimeRange
  | [] => ⟨0, 0⟩
  | first :: rest => rest.foldl (fun padded window =>
    ⟨min padded.startNs window.startNs, max padded.endNs window.endNs⟩) first

def logPlans (plans : List SelectorPlan) : List SelectorPlan :=
  plans.filter fun plan => (logMetricOf plan.matchers).isSome

/-- The log segments of a snapshot for a window. -/
def resolveLogSegments (segments : List LogSegment) (window : TimeRange) : List LogSegment :=
  segments.filter fun segment => window.overlaps ⟨segment.minEventTsNs, segment.maxEventTsNs⟩

/-- What the fetches of a query read: the committed segments of both signals and the pending erasures. -/
structure FetchedState where
  metrics : List MetricSegment
  logs : List LogSegment
  erasure : List ErasurePredicate

section Prefetch

variable (platform : Platform) (regex : RegexMatch) (ofLength : Nat → UInt64) (ofCount : UInt64 → UInt64)
  (state : FetchedState) (evalWindow : EvalWindow)

/-- The fetch of one log plan over the common log window. -/
def fetchLogPlan (padded : TimeRange) (plan : SelectorPlan) : Except LogSeriesError (List SeriesData) :=
  match logMetricOf plan.matchers with
  | none => .ok []
  | some metric =>
    fetchLogSeries platform regex ofLength ⟨metric, plan.matchers, padded, state.erasure⟩
      (resolveLogSegments state.logs padded)

/-- The prefetch of raw runs. The fetches of the distinct matcher sets run at once and arrive in some order. -/
structure Prefetch (plans : List SelectorPlan) (source : MergedSource FloatHistogram) : Prop where
  scalars : ∃ windows arrived, (metricPlans plans).mapM (fun plan => selectorFetchWindow plan evalWindow) = .ok windows ∧
    arrived.Perm (fetchedRuns regex (resolveSegments state.metrics (paddedRange windows))
      (distinctPlansByMatcher (metricPlans plans))) ∧
    scalarPool arrived = .ok source.series
  histograms : ∃ windows fetched arrived,
    (metricPlans plans).mapM (fun plan => selectorFetchWindow plan evalWindow) = .ok windows ∧
    (distinctPlansByMatcher (metricPlans plans)).mapM (fun plan => planHistograms ofCount
      (fetchHistograms regex (resolveSegments state.metrics (paddedRange windows)) plan.matchers)) = .ok fetched ∧
    arrived.Perm fetched ∧ source.histogramSeries = histogramPool arrived
  logs : ∃ windows outs, (logPlans plans).mapM (fun plan => selectorFetchWindow plan evalWindow) = .ok windows ∧
    (logPlans plans).mapM (fetchLogPlan platform regex ofLength state (paddedRange windows)) = .ok outs ∧
    source.logSeries = outs.flatten
  counted : source.precomputedCount = none

end Prefetch

end Ravel.Promql
