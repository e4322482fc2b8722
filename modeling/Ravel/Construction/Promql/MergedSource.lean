/-
This file models the fetch of the metric selectors of a query and the pooled source that the evaluator reads.
-/

import Ravel.Construction.Promql.Evaluation

namespace Ravel.Promql

/-- The third-party regex engine: the text of an anchored pattern against a subject. -/
abbrev RegexMatch := String → String → Bool

/-- The operator of a matcher on a raw text. -/
def LabelMatcher.matchesStr (regex : RegexMatch) (matcher : LabelMatcher) (subject : String) : Bool :=
  match matcher.op with
  | .eq => matcher.value == subject
  | .ne => matcher.value != subject
  | .re pattern => regex pattern subject
  | .nre pattern => !regex pattern subject

/-- An absent label is the empty text. -/
def LabelMatcher.isMatch (regex : RegexMatch) (matcher : LabelMatcher) (labels : LabelSet) : Bool :=
  matcher.matchesStr regex ((labels.get matcher.name).getD "")

def matchesSeries (regex : RegexMatch) (matchers : List LabelMatcher) (labels : LabelSet) : Bool :=
  matchers.all fun matcher => matcher.isMatch regex labels

inductive LogMetric where
  | lines
  | bytes
  deriving DecidableEq, Repr

def logLinesMetric : String := "ravel_log_lines"

def logBytesMetric : String := "ravel_log_bytes"

def LogMetric.name : LogMetric → String
  | .lines => logLinesMetric
  | .bytes => logBytesMetric

/-- The log metric that the first name matcher of a selector is equal to. -/
def logMetricOf (matchers : List LabelMatcher) : Option LogMetric :=
  match matchers.find? fun matcher => matcher.name = metricNameLabel with
  | none => none
  | some matcher =>
    if matcher.op = .eq then
      if matcher.value = logLinesMetric then some .lines
      else if matcher.value = logBytesMetric then some .bytes
      else none
    else none

/-- The matcher-only label of a record's body. -/
def bodyMatcherLabel : String := "__body__"

/-- The 128-bit identity of a metric series. -/
structure SeriesId where
  bytes : Vector UInt8 16
  deriving DecidableEq, Repr

abbrev ScalarRun := Metrics.FoldRun SeriesId LabelSet UInt64

abbrev HistogramRun := Metrics.FoldRun SeriesId LabelSet Metrics.HistogramValue

/-- A resolved metric segment with its event-time bounds and its runs. -/
structure MetricSegment where
  minEventTsNs : Int
  maxEventTsNs : Int
  scalars : List ScalarRun
  histograms : List HistogramRun

/-- Two closed windows meet. -/
def TimeRange.overlaps (first second : TimeRange) : Bool :=
  decide (first.startNs ≤ second.endNs) && decide (second.startNs ≤ first.endNs)

/-- The segments of a snapshot for a window. -/
def resolveSegments (segments : List MetricSegment) (window : TimeRange) : List MetricSegment :=
  segments.filter fun segment => window.overlaps ⟨segment.minEventTsNs, segment.maxEventTsNs⟩

/-- The scalar runs that a matcher set selects. The fetch has no window of its own. -/
def fetchScalars (regex : RegexMatch) (segments : List MetricSegment) (matchers : List LabelMatcher) : List ScalarRun :=
  segments.flatMap fun segment => segment.scalars.filter fun run => matchesSeries regex matchers run.labels

def fetchHistograms (regex : RegexMatch) (segments : List MetricSegment) (matchers : List LabelMatcher) :
    List HistogramRun :=
  segments.flatMap fun segment => segment.histograms.filter fun run => matchesSeries regex matchers run.labels

/-- The first plan of each matcher set. -/
def distinctPlansByMatcher (plans : List SelectorPlan) : List SelectorPlan :=
  plans.foldl (fun distinct plan =>
    if distinct.any fun earlier => earlier.matchers = plan.matchers then distinct else distinct ++ [plan]) []

/-- The order of label sets: names and values in turn. -/
def LabelSet.key (labels : LabelSet) : List (String ×ₗ String) := labels.labels.map toLex

/-- A stable sort by label set. -/
def sortByLabels {Entry : Type} (labels : Entry → LabelSet) (entries : List Entry) : List Entry :=
  entries.insertionSort fun first second => (labels first).key ≤ (labels second).key

/-- The scalar pool of some runs in their order of arrival. -/
def scalarPool (runs : List ScalarRun) : Except Metrics.QueryError (List SeriesData) := do
  let fold ← Metrics.absorb Metrics.isGreater runs []
  return sortByLabels SeriesData.labels
    ((fold.intoSeries Metrics.isGreater).map fun series => ⟨series.1, series.2⟩)

/-- The target of a pushed-down `count_over_time`: its matcher set and its window, which is left-open. -/
structure PushdownTarget where
  matchers : List LabelMatcher
  reduceStartNs : Int
  reduceEndNs : Int
  deriving DecidableEq, Repr

def countOverTimePushdownTarget (plans : List SelectorPlan) (evalWindow : EvalWindow) (snapshotEligible : Bool) :
    Except Error (Option PushdownTarget) :=
  match evalWindow with
  | .range _ _ _ => .ok none
  | .instant _ =>
    if !snapshotEligible then .ok none
    else
      match plans.filter fun plan => plan.countOverTimePushdownCandidate with
      | [candidate] =>
        if (plans.filter fun plan => plan.matchers = candidate.matchers).length ≠ 1 then .ok none
        else do
          let window ← selectorFetchWindow candidate evalWindow
          return some ⟨candidate.matchers, window.startNs, window.endNs⟩
      | _ => .ok none

/-- The counts of one worker's answer. -/
structure PartialAggregate where
  seriesId : SeriesId
  labels : LabelSet
  count : Option Nat
  deriving DecidableEq

/-- The runs of each series in the order of its first run. -/
def groupRuns : List ScalarRun → List (SeriesId × List ScalarRun)
  | [] => []
  | run :: rest =>
    (run.seriesId, run :: rest.filter fun other => other.seriesId = run.seriesId) ::
      (groupRuns rest).filter fun group => group.1 ≠ run.seriesId

def usizeMax : Nat := 2 ^ 64 - 1

/-- The partial of one series: its runs are merged before staleness and the window drop samples. -/
def reduceSeries (startNs endNs : Int) (group : SeriesId × List ScalarRun) :
    Except Metrics.QueryError (Option PartialAggregate) :=
  match group.2 with
  | [] => .ok none
  | first :: _ => do
    let merged ← Metrics.mergeSeriesRuns (group.2.map fun run => run.run) ⟨0, usizeMax⟩
    let live := merged.2.filter fun sample =>
      decide (startNs < sample.tsNs) && decide (sample.tsNs ≤ endNs) && isLive sample
    return some ⟨group.1, first.labels, some live.length⟩

/-- `reduce_partial_aggregates` on the runs that one worker fetched. -/
def reducePartialAggregates (runs : List ScalarRun) (startNs endNs : Int) :
    Except Metrics.QueryError (List PartialAggregate) := do
  let partials ← (groupRuns runs).mapM (reduceSeries startNs endNs)
  return partials.filterMap id

/-- The count table: a zero is no sample. -/
def sortedPushdownCounts (partials : List PartialAggregate) : List (LabelSet × Nat) :=
  sortByLabels Prod.fst (partials.filterMap fun part =>
    part.count.bind fun count => if count ≠ 0 then some (part.labels, count) else none)

structure PrecomputedCount where
  matchers : List LabelMatcher
  startNs : Int
  endNs : Int
  counts : List (LabelSet × Nat)
  deriving DecidableEq

structure HistogramSeriesData (Histogram : Type) where
  labels : LabelSet
  samples : List (Metrics.Sample Histogram)
  deriving DecidableEq

structure MergedSource (Histogram : Type) where
  series : List SeriesData
  histogramSeries : List (HistogramSeriesData Histogram)
  logSeries : List SeriesData
  precomputedCount : Option PrecomputedCount

/-- The samples of an ascending list inside a closed window, between two partition points. -/
def windowSlice {Value : Type} (samples : List (Metrics.Sample Value)) (window : TimeRange) :
    List (Metrics.Sample Value) :=
  let lo := (samples.takeWhile fun sample => sample.tsNs < window.startNs).length
  let hi := (samples.takeWhile fun sample => sample.tsNs ≤ window.endNs).length
  (samples.take (max hi lo)).drop lo

section Reads

variable {Histogram : Type} (regex : RegexMatch) (source : MergedSource Histogram)

/-- A log selector reads the log pool and leaves its body matchers out. -/
def MergedSource.query (matchers : List LabelMatcher) (window : TimeRange) : List SeriesData :=
  let pool := if (logMetricOf matchers).isSome then source.logSeries else source.series
  let labelMatchers :=
    if (logMetricOf matchers).isSome then matchers.filter fun matcher => matcher.name ≠ bodyMatcherLabel else matchers
  (pool.filter fun series => matchesSeries regex labelMatchers series.labels).map fun series =>
    ⟨series.labels, windowSlice series.samples window⟩

def MergedSource.queryHistograms (matchers : List LabelMatcher) (window : TimeRange) :
    List (HistogramSeriesData Histogram) :=
  (source.histogramSeries.filter fun series => matchesSeries regex matchers series.labels).map fun series =>
    ⟨series.labels, windowSlice series.samples window⟩

/-- The table answers for its own matchers and bounds only. -/
def MergedSource.queryPrecomputedCount (matchers : List LabelMatcher) (startNs endNs : Int) :
    Option (List (LabelSet × Nat)) :=
  match source.precomputedCount with
  | some table =>
    if table.matchers = matchers ∧ table.startNs = startNs ∧ table.endNs = endNs then some table.counts else none
  | none => none

/-- The source as the evaluator sees it. -/
def MergedSource.toSeriesSource : SeriesSource :=
  ⟨fun matchers window => .ok (source.query regex matchers window),
    fun matchers startNs endNs => .ok (source.queryPrecomputedCount matchers startNs endNs)⟩

end Reads

section Prefetch

variable {Histogram : Type} (regex : RegexMatch) (segments : List MetricSegment)

def metricPlans (plans : List SelectorPlan) : List SelectorPlan :=
  plans.filter fun plan => (logMetricOf plan.matchers).isNone

/-- The runs that the fetches of some plans deliver. -/
def fetchedRuns (plans : List SelectorPlan) : List ScalarRun :=
  plans.flatMap fun plan => fetchScalars regex segments plan.matchers

/-- The source of raw runs. The fetches of the distinct matcher sets run at once and arrive in some order. -/
structure RawPrefetch (plans : List SelectorPlan) (source : MergedSource Histogram) : Prop where
  pooled : ∃ arrived, arrived.Perm (fetchedRuns regex segments (distinctPlansByMatcher (metricPlans plans))) ∧
    scalarPool arrived = .ok source.series
  counted : source.precomputedCount = none

/-- The source of a pushed-down count. The workers return the partials of the target's matcher set, each series from
one worker, and no raw runs of it. -/
structure PushedPrefetch (plans : List SelectorPlan) (target : PushdownTarget) (source : MergedSource Histogram) :
    Prop where
  pooled : ∃ arrived, arrived.Perm (fetchedRuns regex segments
      ((distinctPlansByMatcher (metricPlans plans)).filter fun plan => plan.matchers ≠ target.matchers)) ∧
    scalarPool arrived = .ok source.series
  counted : ∃ (workers : List (List ScalarRun)) (answers : List (List PartialAggregate)),
    workers.flatten.Perm (fetchScalars regex segments target.matchers) ∧
    workers.Pairwise (fun first second => ∀ run ∈ first, ∀ other ∈ second, run.seriesId ≠ other.seriesId) ∧
    workers.mapM (fun runs => reducePartialAggregates runs target.reduceStartNs target.reduceEndNs) = .ok answers ∧
    source.precomputedCount = some ⟨target.matchers, target.reduceStartNs, target.reduceEndNs,
      sortedPushdownCounts answers.flatten⟩

end Prefetch

end Ravel.Promql
