import Ravel.Proof.Promql.LabelledPools
import Ravel.Proof.Promql.LogSeriesExact

namespace Ravel.Promql

open List Library Metrics Logs Erasure

section Histograms

/-- A list united with itself stays. -/
theorem unionHistogramSamples_self (samples : List HistogramSample) : unionHistogramSamples samples samples = samples := by
  induction samples with
  | nil => rfl
  | cons sample rest ih =>
    rw [unionHistogramSamples, unionInto, if_neg (lt_irrefl _), if_neg (lt_irrefl _), if_neg (lt_irrefl _),
      ih]

variable {series : HistogramSeriesData FloatHistogram} {combined : List (HistogramSeriesData FloatHistogram)}

/-- A series that is already there changes nothing. -/
theorem insertOrUnion_of_known (same : ∀ entry ∈ combined, entry.labels = series.labels → entry = series)
    (known : ∃ entry ∈ combined, entry.labels = series.labels) :
    insertOrUnionHistogramSeries series combined = combined := by
  induction combined with
  | nil =>
    obtain ⟨entry, absent, _⟩ := known
    cases absent
  | cons entry rest ih =>
    rw [insertOrUnionHistogramSeries]
    by_cases here : entry.labels = series.labels
    · obtain rfl := same entry mem_cons_self here
      rw [if_pos rfl, unionHistogramSamples_self]
    · rw [if_neg here, ih fun other member => same other (mem_cons_of_mem _ member)]
      obtain ⟨other, member, labelled⟩ := known
      rcases mem_cons.mp member with rfl | later
      · exact absurd labelled here
      · exact ⟨other, later, labelled⟩

theorem insertOrUnion_of_new (new : ∀ entry ∈ combined, entry.labels ≠ series.labels) :
    insertOrUnionHistogramSeries series combined = combined ++ [series] := by
  induction combined with
  | nil => rfl
  | cons entry rest ih =>
    rw [insertOrUnionHistogramSeries, if_neg (new entry mem_cons_self),
      ih fun other member => new other (mem_cons_of_mem _ member)]
    rfl

/-- Series that agree where their labels agree are united into one entry a label set. -/
theorem foldl_insertOrUnion (arrived : List (HistogramSeriesData FloatHistogram)) :
    ∀ {combined : List (HistogramSeriesData FloatHistogram)}, (combined.map HistogramSeriesData.labels).Nodup →
      (∀ first ∈ combined ++ arrived, ∀ second ∈ combined ++ arrived, first.labels = second.labels → first = second) →
      ((arrived.foldl (fun combined series => insertOrUnionHistogramSeries series combined) combined).map
          HistogramSeriesData.labels).Nodup ∧
        ∀ series, series ∈ arrived.foldl (fun combined series => insertOrUnionHistogramSeries series combined) combined ↔
          series ∈ combined ++ arrived := by
  induction arrived with
  | nil =>
    intro combined distinct _
    refine ⟨distinct, ?_⟩
    intro series
    rw [append_nil]
    rfl
  | cons series rest ih =>
    intro combined distinct same
    rw [foldl_cons]
    have seriesIn : series ∈ combined ++ series :: rest := mem_append_right _ mem_cons_self
    by_cases known : ∃ entry ∈ combined, entry.labels = series.labels
    · have sameAsSeries : ∀ entry ∈ combined, entry.labels = series.labels → entry = series :=
        fun entry member => same entry (mem_append_left _ member) series seriesIn
      rw [insertOrUnion_of_known sameAsSeries known]
      obtain ⟨entry, entryIn, labelled⟩ := known
      obtain rfl := sameAsSeries entry entryIn labelled
      have members (other : HistogramSeriesData FloatHistogram) :
          other ∈ combined ++ rest ↔ other ∈ combined ++ entry :: rest := by
        simp only [mem_append, mem_cons]
        constructor
        · tauto
        · rintro (earlier | rfl | later)
          · exact .inl earlier
          · exact .inl entryIn
          · exact .inr later
      have folded := ih distinct fun first firstIn second secondIn =>
        same first ((members first).mp firstIn) second ((members second).mp secondIn)
      refine ⟨folded.1, ?_⟩
      intro other
      rw [folded.2 other, members other]
    · push Not at known
      rw [insertOrUnion_of_new known]
      have folded := @ih (combined ++ [series]) (by
        rw [map_append, nodup_append]
        refine ⟨distinct, by simp, ?_⟩
        rintro labels member other single rfl
        obtain rfl := mem_singleton.mp single
        obtain ⟨entry, entryIn, labelled⟩ := mem_map.mp member
        exact known entry entryIn labelled) (by
        rw [← append_cons]
        exact same)
      refine ⟨folded.1, ?_⟩
      intro other
      rw [folded.2 other, ← append_cons]

end Histograms

section Windows

theorem paddedRange_hull {windows : List TimeRange} {window : TimeRange} (member : window ∈ windows) :
    (paddedRange windows).startNs ≤ window.startNs ∧ window.endNs ≤ (paddedRange windows).endNs := by
  have hull (rest : List TimeRange) : ∀ padded : TimeRange,
      ∀ other, other = padded ∨ other ∈ rest →
        (rest.foldl (fun padded window => ⟨min padded.startNs window.startNs, max padded.endNs window.endNs⟩)
          padded).startNs ≤ other.startNs ∧ other.endNs ≤ (rest.foldl (fun padded window =>
            ⟨min padded.startNs window.startNs, max padded.endNs window.endNs⟩) padded).endNs := by
    induction rest with
    | nil =>
      rintro padded other (rfl | absent)
      · exact ⟨le_refl _, le_refl _⟩
      · cases absent
    | cons first rest ih =>
      intro padded other listed
      rw [foldl_cons]
      have grown := ih ⟨min padded.startNs first.startNs, max padded.endNs first.endNs⟩ _ (.inl rfl)
      simp only at grown
      rcases listed with rfl | listed
      · omega
      · rcases mem_cons.mp listed with rfl | later
        · omega
        · exact ih _ other (.inr later)
  cases windows with
  | nil => cases member
  | cons first rest => exact hull rest first window (mem_cons.mp member)

/-- A segment with a sample in a window overlaps every window around it. -/
theorem overlaps_of_holds {window outer : TimeRange} {tsNs minNs maxNs : Int} (held : window.holds tsNs = true)
    (starts : outer.startNs ≤ window.startNs) (ends : window.endNs ≤ outer.endNs) (low : minNs ≤ tsNs) (high : tsNs ≤ maxNs) :
    outer.overlaps ⟨minNs, maxNs⟩ = true := by
  simp only [TimeRange.holds, TimeRange.overlaps, Bool.and_eq_true, decide_eq_true_eq] at held ⊢
  omega

theorem overlaps_mono {inner outer other : TimeRange} (starts : outer.startNs ≤ inner.startNs)
    (ends : inner.endNs ≤ outer.endNs) (meets : inner.overlaps other = true) : outer.overlaps other = true := by
  simp only [TimeRange.overlaps, Bool.and_eq_true, decide_eq_true_eq] at meets ⊢
  omega

end Windows

section MetricLane

variable {Value : Type} {pick : MetricSegment → List (FoldRun SeriesId LabelSet Value)} {regex : RegexMatch}

/-- The runs of one kind that the fetches of some plans deliver. -/
def pickedRuns (pick : MetricSegment → List (FoldRun SeriesId LabelSet Value)) (regex : RegexMatch)
    (segments : List MetricSegment) (plans : List SelectorPlan) : List (FoldRun SeriesId LabelSet Value) :=
  plans.flatMap fun plan => segments.flatMap fun segment => (pick segment).filter fun run =>
    matchesSeries regex plan.matchers run.labels

theorem mem_pickedRuns {segments : List MetricSegment} {plans : List SelectorPlan}
    {run : FoldRun SeriesId LabelSet Value} : run ∈ pickedRuns pick regex segments plans ↔
      ∃ plan ∈ plans, ∃ segment ∈ segments, run ∈ pick segment ∧ matchesSeries regex plan.matchers run.labels = true := by
  simp only [pickedRuns, mem_flatMap, mem_filter]

/-- The bounds of the segments hold the samples of their runs of one kind. -/
def BoundsHold (pick : MetricSegment → List (FoldRun SeriesId LabelSet Value)) (segments : List MetricSegment) : Prop :=
  ∀ segment ∈ segments, ∀ run ∈ pick segment, ∀ sample ∈ run.run.samples,
    segment.minEventTsNs ≤ sample.tsNs ∧ sample.tsNs ≤ segment.maxEventTsNs

variable {segments : List MetricSegment} {plans : List SelectorPlan} {plan : SelectorPlan} {planned padded window : TimeRange}

theorem pickedRuns_inside (member : plan ∈ plans) (starts : padded.startNs ≤ planned.startNs)
    (ends : planned.endNs ≤ padded.endNs) {run : FoldRun SeriesId LabelSet Value}
    (alone : run ∈ pickedRuns pick regex (resolveSegments segments planned) (distinctPlansByMatcher [plan])) :
    run ∈ pickedRuns pick regex (resolveSegments segments padded) (distinctPlansByMatcher plans) := by
  obtain ⟨other, otherIn, segment, segmentIn, stored, matched⟩ := mem_pickedRuns.mp alone
  obtain rfl : other = plan := mem_singleton.mp otherIn
  obtain ⟨first, listed, same⟩ := (mem_distinctPlansByMatcher plans).2 other member
  obtain ⟨committed, meets⟩ := mem_filter.mp segmentIn
  refine mem_pickedRuns.mpr ⟨first, listed, segment, ?_, stored, ?_⟩
  · exact mem_filter.mpr ⟨committed, overlaps_mono starts ends meets⟩
  · rw [same]
    exact matched

/-- A run of the query that the plan's matchers take and that reaches into the plan's window is delivered alone. -/
theorem pickedRuns_reaches (bounds : BoundsHold pick segments) (starts : planned.startNs ≤ window.startNs)
    (ends : window.endNs ≤ planned.endNs) {run : FoldRun SeriesId LabelSet Value}
    (joint : run ∈ pickedRuns pick regex (resolveSegments segments padded) plans)
    (matched : matchesSeries regex plan.matchers run.labels = true) {entry : Int × Candidate Value}
    (entryIn : entry ∈ runEntries run.run.priorities 0 run.run.samples) (held : window.holds entry.1 = true) :
    run ∈ pickedRuns pick regex (resolveSegments segments planned) (distinctPlansByMatcher [plan]) := by
  obtain ⟨_, _, segment, segmentIn, stored, _⟩ := mem_pickedRuns.mp joint
  have committed := (mem_filter.mp segmentIn).1
  obtain ⟨sample, sampleIn, sameTime⟩ := exists_sample_of_mem_runEntries entryIn
  obtain ⟨low, high⟩ := bounds segment committed run stored sample sampleIn
  rw [sameTime] at low high
  refine mem_pickedRuns.mpr ⟨plan, mem_singleton.mpr rfl, segment, ?_, stored, matched⟩
  exact mem_filter.mpr ⟨committed, overlaps_of_holds held starts ends low high⟩

theorem pickedRuns_subset (resolved : TimeRange) :
    pickedRuns pick regex (resolveSegments segments resolved) plans ⊆ segments.flatMap pick := by
  intro run fetched
  obtain ⟨_, _, segment, segmentIn, stored, _⟩ := mem_pickedRuns.mp fetched
  exact mem_flatMap.mpr ⟨segment, (mem_filter.mp segmentIn).1, stored⟩

end MetricLane

section Pooled

theorem pools_scalarPool {runs arrived : List ScalarRun} {pool : List SeriesData} (named : RunsNamed runs)
    (order : arrived.Perm runs) (pooled : scalarPool arrived = .ok pool) :
    Pools scalarOrder id runs (pool.map fun series => (series.labels, series.samples)) := by
  obtain ⟨fold, absorbed, returned⟩ := ok_of_bind pooled
  cases returned
  have pools := @pools_intoSeries _ _ _ _ scalarOrder _ _ (named.subset order.subset) absorbed (id : UInt64 → UInt64)
  apply pools.perm fun run => order.mem_iff
  have sorted := (perm_insertionSort (fun first second : SeriesData => first.labels.key ≤ second.labels.key)
    ((fold.intoSeries isGreater).map fun series => ⟨series.1, series.2⟩)).map fun series => (series.labels, series.samples)
  refine sorted.trans (Perm.of_eq ?_)
  rw [map_map]
  apply map_congr_left
  intro series _
  simp

/-- The series of one matcher set in pairs. -/
theorem pools_planHistograms {ofCount : UInt64 → UInt64} {runs : List HistogramRun}
    {series : List (HistogramSeriesData FloatHistogram)} (named : RunsNamed runs)
    (fetched : planHistograms ofCount runs = .ok series) :
    Pools histogramOrder (histogramValueToFloat ofCount) runs (series.map fun data => (data.labels, data.samples)) := by
  obtain ⟨fold, absorbed, returned⟩ := ok_of_bind fetched
  cases returned
  have pools := @pools_intoSeries _ _ _ _ histogramOrder _ _ named absorbed (histogramValueToFloat ofCount)
  rw [map_map]
  exact pools

/-- The histogram pool in pairs. The series that several matcher sets take are the same in all of them. -/
theorem pools_histogramPool {ofCount : UInt64 → UInt64} {regex : RegexMatch} {segments : List MetricSegment}
    {plans : List SelectorPlan} {fetched arrived : List (List (HistogramSeriesData FloatHistogram))}
    (named : RunsNamed (segments.flatMap MetricSegment.histograms))
    (ran : plans.mapM (fun plan => planHistograms ofCount (fetchHistograms regex segments plan.matchers)) = .ok fetched)
    (order : arrived.Perm fetched) :
    Pools histogramOrder (histogramValueToFloat ofCount) (pickedRuns MetricSegment.histograms regex segments plans)
      ((histogramPool arrived).map fun data => (data.labels, data.samples)) := by
  have subset : pickedRuns MetricSegment.histograms regex segments plans ⊆ segments.flatMap MetricSegment.histograms := by
    intro run picked
    obtain ⟨_, _, segment, segmentIn, stored, _⟩ := mem_pickedRuns.mp picked
    exact mem_flatMap.mpr ⟨segment, segmentIn, stored⟩
  have single (plan : SelectorPlan) : fetchHistograms regex segments plan.matchers =
      pickedRuns MetricSegment.histograms regex segments [plan] := by
    rw [pickedRuns, flatMap_singleton]
    rfl
  -- What a matcher set fetches under one of its label sets is all that the query fetches under it.
  have whole {plan : SelectorPlan} (planIn : plan ∈ plans) {labels : LabelSet}
      (matched : matchesSeries regex plan.matchers labels = true) (run : HistogramRun) (labelled : run.labels = labels) :
      run ∈ fetchHistograms regex segments plan.matchers ↔ run ∈ pickedRuns MetricSegment.histograms regex segments plans := by
    rw [single, mem_pickedRuns, mem_pickedRuns]
    constructor
    · rintro ⟨other, otherIn, rest⟩
      rw [mem_singleton.mp otherIn] at rest
      exact ⟨plan, planIn, rest⟩
    · rintro ⟨_, _, segment, segmentIn, stored, _⟩
      exact ⟨plan, mem_singleton.mpr rfl, segment, segmentIn, stored, by rw [labelled]; exact matched⟩
  have ofPlan {plan : SelectorPlan} (planIn : plan ∈ plans) {series : List (HistogramSeriesData FloatHistogram)}
      (fetchedPlan : planHistograms ofCount (fetchHistograms regex segments plan.matchers) = .ok series) :
      Pools histogramOrder (histogramValueToFloat ofCount) (fetchHistograms regex segments plan.matchers)
        (series.map fun data => (data.labels, data.samples)) := by
    apply pools_planHistograms (named.subset ?_) fetchedPlan
    rw [single]
    intro run picked
    obtain ⟨other, otherIn, rest⟩ := mem_pickedRuns.mp picked
    rw [mem_singleton.mp otherIn] at rest
    exact subset (mem_pickedRuns.mpr ⟨plan, planIn, rest⟩)
  have served {data : HistogramSeriesData FloatHistogram} (member : data ∈ arrived.flatten) :
      (∃ run ∈ pickedRuns MetricSegment.histograms regex segments plans, run.labels = data.labels) ∧
        ∃ chosen, SelectsEntries histogramOrder
          (entriesOf (pickedRuns MetricSegment.histograms regex segments plans) data.labels) chosen ∧
          data.samples = shownSamples (histogramValueToFloat ofCount) chosen := by
    obtain ⟨series, seriesIn, dataIn⟩ := mem_flatten.mp member
    obtain ⟨plan, planIn, fetchedPlan⟩ := mem_of_mapM ran (order.mem_iff.mp seriesIn)
    have pools := ofPlan planIn fetchedPlan
    have pairIn : (data.labels, data.samples) ∈ series.map fun data => (data.labels, data.samples) :=
      mem_map_of_mem (f := fun data : HistogramSeriesData FloatHistogram => (data.labels, data.samples)) dataIn
    obtain ⟨run, runIn, labelled⟩ := pools.labelled _ pairIn
    have matched : matchesSeries regex plan.matchers data.labels = true := by
      rw [single] at runIn
      obtain ⟨other, otherIn, _, _, _, taken⟩ := mem_pickedRuns.mp runIn
      rw [← mem_singleton.mp otherIn]
      simpa [labelled] using taken
    refine ⟨⟨run, (whole planIn matched run labelled).mp runIn, labelled⟩, ?_⟩
    rw [← entriesOf_congr (whole planIn matched)]
    exact pools.selected _ pairIn
  have united := @foldl_insertOrUnion arrived.flatten [] nodup_nil (by
    intro first firstIn second secondIn sameLabels
    obtain ⟨_, left, leftSelects, leftShown⟩ := served firstIn
    obtain ⟨_, right, rightSelects, rightShown⟩ := served secondIn
    rw [sameLabels] at leftSelects
    rw [leftSelects.unique rightSelects, ← rightShown] at leftShown
    cases first
    cases second
    cases sameLabels
    cases leftShown
    rfl)
  have sorted : (histogramPool arrived).Perm
      (arrived.flatten.foldl (fun combined series => insertOrUnionHistogramSeries series combined) []) :=
    perm_insertionSort _ _
  have members (data : HistogramSeriesData FloatHistogram) : data ∈ histogramPool arrived ↔ data ∈ arrived.flatten := by
    rw [sorted.mem_iff, united.2, nil_append]
  refine ⟨?_, ?_, ?_, ?_⟩
  · rw [map_map]
    exact (sorted.map HistogramSeriesData.labels).nodup_iff.mpr united.1
  · intro pair pairIn
    obtain ⟨data, dataIn, rfl⟩ := mem_map.mp pairIn
    exact (served ((members data).mp dataIn)).1
  · intro run picked
    obtain ⟨plan, planIn, segment, segmentIn, stored, matched⟩ := mem_pickedRuns.mp picked
    obtain ⟨series, seriesIn, fetchedPlan⟩ := exists_of_mapM ran planIn
    obtain ⟨pair, pairIn, labelled⟩ := (ofPlan planIn fetchedPlan).found run ((whole planIn matched run rfl).mpr picked)
    obtain ⟨data, dataIn, rfl⟩ := mem_map.mp pairIn
    have pooled := (members data).mpr (mem_flatten.mpr ⟨series, order.mem_iff.mpr seriesIn, dataIn⟩)
    exact ⟨_, mem_map_of_mem pooled, labelled⟩
  · intro pair pairIn
    obtain ⟨data, dataIn, rfl⟩ := mem_map.mp pairIn
    exact (served ((members data).mp dataIn)).2

end Pooled

section LogLane

variable {platform : Platform} {regex : RegexMatch} {ofLength : Nat → UInt64} {state : FetchedState}

instance : Std.Total sampleLe where
  total first second := by
    unfold sampleLe
    rcases lt_trichotomy first.tsNs second.tsNs with before | same | after
    · exact .inl (.inl before)
    · rcases UInt64.le_total first.value second.value with below | above
      · exact .inl (.inr ⟨same, below⟩)
      · exact .inr (.inr ⟨same.symm, above⟩)
    · exact .inr (.inl after)

instance : IsTrans Sample sampleLe where
  trans first second third := by
    unfold sampleLe
    rintro (before | ⟨same, below⟩) (later | ⟨equal, above⟩)
    · exact .inl (before.trans later)
    · exact .inl (equal ▸ before)
    · exact .inl (same ▸ later)
    · exact .inr ⟨same.trans equal, UInt64.le_trans below above⟩

/-- The request of a log plan over a window. -/
def logRequest (state : FetchedState) (metric : LogMetric) (matchers : List LabelMatcher) (window : TimeRange) :
    LogSeriesRequest := ⟨metric, matchers, window, state.erasure⟩

/-- The log segments as their writers left them, and one blob under each stream id. -/
structure LogsHold (segments : List LogSegment) : Prop where
  each : ∀ segment ∈ segments, SegmentHolds segment
  oneBlob : ∀ first ∈ segments.flatMap fun segment => segment.object.streamDir,
    ∀ second ∈ segments.flatMap fun segment => segment.object.streamDir, first.1 = second.1 → first.2 = second.2

theorem LogsHold.subset {segments others : List LogSegment} (holds : LogsHold segments) (inside : others ⊆ segments) :
    LogsHold others := by
  have streams : ∀ entry ∈ others.flatMap fun segment => segment.object.streamDir,
      entry ∈ segments.flatMap fun segment => segment.object.streamDir := by
    intro entry member
    obtain ⟨segment, listed, entryIn⟩ := mem_flatMap.mp member
    exact mem_flatMap.mpr ⟨segment, inside listed, entryIn⟩
  exact ⟨fun segment member => holds.each segment (inside member),
    fun first firstIn second secondIn => holds.oneBlob first (streams first firstIn) second (streams second secondIn)⟩

/-- No two label sets of the records share a series key. -/
def KeysDetermine (platform : Platform) (metric : LogMetric) (state : FetchedState) : Prop :=
  ∀ first ∈ state.logs.flatMap storedRecords, ∀ second ∈ state.logs.flatMap storedRecords,
    seriesKey (recordLabels platform (logRequest state metric [] ⟨0, 0⟩) first) =
        seriesKey (recordLabels platform (logRequest state metric [] ⟨0, 0⟩) second) →
      recordLabels platform (logRequest state metric [] ⟨0, 0⟩) first =
        recordLabels platform (logRequest state metric [] ⟨0, 0⟩) second

theorem fetchLogSeries_exact (ascii : AsciiTables platform) (plain : PlainPatterns regex) (holds : LogsHold state.logs)
    {metric : LogMetric} (determined : KeysDetermine platform metric state) {matchers : List LabelMatcher}
    (compiled : ∀ matcher ∈ matchers, matcher.Compiled) {window : TimeRange} {out : List SeriesData}
    (fetched : fetchLogSeries platform regex ofLength (logRequest state metric matchers window)
      (resolveLogSegments state.logs window) = .ok out) :
    ExactSeries (recordLabels platform (logRequest state metric matchers window))
      (recordSample ofLength (logRequest state metric matchers window))
      (((resolveLogSegments state.logs window).flatMap storedRecords).filter
        (selects platform regex (logRequest state metric matchers window))) out := by
  have resolved : LogsHold (resolveLogSegments state.logs window) := holds.subset filter_sublist.subset
  obtain ⟨series, ran, groups⟩ := @fetchLogSeries_groups platform regex ofLength
    (logRequest state metric matchers window) ascii plain compiled _ resolved.each resolved.oneBlob
  rw [ran] at fetched
  cases fetched
  rw [← filter_true (((resolveLogSegments state.logs window).flatMap storedRecords).filter _)] at groups
  apply (exactSeries_iff groups).mpr
  refine ⟨fun _ _ => rfl, ?_⟩
  have stored {record : RlogRecord} (member : record ∈ ((resolveLogSegments state.logs window).flatMap storedRecords).filter
      (selects platform regex (logRequest state metric matchers window))) : record ∈ state.logs.flatMap storedRecords := by
    obtain ⟨segment, segmentIn, recordIn⟩ := mem_flatMap.mp (mem_filter.mp member).1
    exact mem_flatMap.mpr ⟨segment, (mem_filter.mp segmentIn).1, recordIn⟩
  intro first firstIn second secondIn
  exact determined first (stored firstIn) second (stored secondIn)

/-- The part of the selection that does not look at the window. -/
def selectsAnytime (platform : Platform) (regex : RegexMatch) (request : LogSeriesRequest) (record : RlogRecord) : Bool :=
  matchesSeries regex (labelMatchers request) (recordLabels platform request record) &&
    bodyMatches regex (bodyMatchers request.matchers) record.body && !erasedInView request.erasure record &&
    !ownErased request record

theorem selects_eq (request : LogSeriesRequest) (record : RlogRecord) :
    selects platform regex request record =
      (request.window.holds record.tsNs && selectsAnytime platform regex request record) := by
  simp only [selects, admits, selectsAnytime, TimeRange.holds, Bool.and_assoc]

/-- Inside of a window a fetch over any wider window selects the same records. -/
theorem selected_within {segments : List LogSegment} (each : ∀ segment ∈ segments, SegmentHolds segment)
    {request : LogSeriesRequest} {window : TimeRange} (starts : request.window.startNs ≤ window.startNs)
    (ends : window.endNs ≤ request.window.endNs) :
    (((resolveLogSegments segments request.window).flatMap storedRecords).filter (selects platform regex request)).filter
        (fun record => window.holds record.tsNs) =
      ((segments.flatMap storedRecords).filter (selectsAnytime platform regex request)).filter
        fun record => window.holds record.tsNs := by
  induction segments with
  | nil => rfl
  | cons segment rest ih =>
    obtain ⟨holds, each⟩ := forall_mem_cons.mp each
    have later := ih each
    have inside (record : RlogRecord) (held : window.holds record.tsNs = true) :
        request.window.holds record.tsNs = true := by
      simp only [TimeRange.holds, Bool.and_eq_true, decide_eq_true_eq] at held ⊢
      omega
    have own : ((storedRecords segment).filter (selects platform regex request)).filter
          (fun record => window.holds record.tsNs) =
        ((storedRecords segment).filter (selectsAnytime platform regex request)).filter
          fun record => window.holds record.tsNs := by
      rw [filter_filter, filter_filter]
      apply filter_congr
      intro record _
      rw [selects_eq]
      cases held : window.holds record.tsNs with
      | false => rfl
      | true => rw [inside record held, Bool.true_and]
    rw [resolveLogSegments, filter_cons, flatMap_cons, filter_append, filter_append]
    split
    · rw [flatMap_cons, filter_append, filter_append, own]
      exact congrArg _ later
    · rename_i apart
      have none : ((storedRecords segment).filter (selectsAnytime platform regex request)).filter
          (fun record => window.holds record.tsNs) = [] := by
        rw [filter_eq_nil_iff]
        intro record member held
        obtain ⟨row, rowIn, rfl⟩ := mem_map.mp (mem_filter.mp member).1
        obtain ⟨low, high⟩ := holds.bounds row rowIn
        exact apart (overlaps_of_holds held starts ends low high)
      rw [none, nil_append]
      exact later

/-- A slice of a series in sample order. -/
theorem windowSlice_sorted (samples : List Sample) (window : TimeRange) :
    windowSlice (samples.insertionSort sampleLe) window =
      (samples.filter fun sample => window.holds sample.tsNs).insertionSort sampleLe := by
  have ordered : KeyOrdered Metrics.Sample.tsNs (samples.insertionSort sampleLe) := by
    apply (pairwise_insertionSort sampleLe samples).imp
    rintro first second (before | ⟨same, _⟩)
    · exact le_of_lt before
    · exact le_of_eq same
  rw [windowSlice_eq_filter window ordered]
  exact filter_insertionSort sampleLe _ samples

theorem ExactSeries.readsAlone {Record : Type} {labels : Record → LabelSet} {sample : Record → Sample}
    {joint alone : List Record} {jointOut aloneOut : List SeriesData} (jointly : ExactSeries labels sample joint jointOut)
    (alonely : ExactSeries labels sample alone aloneOut) {window : TimeRange} (subset : ∀ record ∈ alone, record ∈ joint)
    (agree : (joint.filter fun record => window.holds (sample record).tsNs) =
      alone.filter fun record => window.holds (sample record).tsNs) (test : LabelSet → Bool) :
    ReadsAlone SeriesData.labels SeriesData.samples
      ((jointOut.filter fun series => test series.labels).map fun series => ⟨series.labels, windowSlice series.samples window⟩)
      ((aloneOut.filter fun series => test series.labels).map fun series =>
        ⟨series.labels, windowSlice series.samples window⟩) := by
  have slice {records : List Record} {out : List SeriesData} (exact : ExactSeries labels sample records out)
      {series : SeriesData} (member : series ∈ out) : windowSlice series.samples window =
        (((records.filter fun record => window.holds (sample record).tsNs).filter
          fun record => labels record = series.labels).map sample).insertionSort sampleLe := by
    rw [exact.samples series member, windowSlice_sorted, filter_map, filter_filter, filter_filter]
    congr 2
    apply filter_congr
    intro record _
    exact Bool.and_comm _ _
  refine ⟨?_, ?_, ?_⟩
  · rw [map_map]
    exact jointly.distinct.sublist ((filter_sublist).map _)
  · intro series member
    obtain ⟨data, shown, rfl⟩ := mem_map.mp member
    obtain ⟨pooled, tested⟩ := mem_filter.mp shown
    obtain ⟨record, recordIn, labelled⟩ := mem_map.mp ((alonely.present _).mp (mem_map_of_mem pooled))
    obtain ⟨other, otherIn, same⟩ :=
      mem_map.mp ((jointly.present data.labels).mpr (mem_map.mpr ⟨record, subset record recordIn, labelled⟩))
    refine mem_map.mpr ⟨other, mem_filter.mpr ⟨otherIn, by rw [same]; exact tested⟩, ?_⟩
    rw [slice jointly otherIn, slice alonely pooled, same, agree]
  · intro series member
    obtain ⟨data, shown, rfl⟩ := mem_map.mp member
    obtain ⟨pooled, tested⟩ := mem_filter.mp shown
    by_cases empty : windowSlice data.samples window = []
    · exact .inr empty
    · left
      have shownSlice := slice jointly pooled
      rw [agree] at shownSlice
      rw [shownSlice] at empty
      obtain ⟨point, pointIn⟩ := exists_mem_of_ne_nil _ empty
      obtain ⟨record, recordIn, _⟩ := mem_map.mp ((mem_insertionSort _).mp pointIn)
      obtain ⟨heldIn, labelled⟩ := mem_filter.mp recordIn
      have aloneIn := (mem_filter.mp heldIn).1
      obtain ⟨other, otherIn, same⟩ := mem_map.mp ((alonely.present data.labels).mpr
        (mem_map.mpr ⟨record, aloneIn, by simpa using labelled⟩))
      refine mem_map.mpr ⟨other, mem_filter.mpr ⟨otherIn, by rw [same]; exact tested⟩, ?_⟩
      rw [slice alonely otherIn, same, shownSlice]

end LogLane

section Isolation

theorem ReadsAlone.map {Value First Second : Type} {labels : First → LabelSet}
    {samples : First → List (Metrics.Sample Value)} {joint alone : List First} (reads : ReadsAlone labels samples joint alone)
    (view : First → Second) {viewLabels : Second → LabelSet} {viewSamples : Second → List (Metrics.Sample Value)}
    (sameLabels : ∀ series, viewLabels (view series) = labels series)
    (sameSamples : ∀ series, viewSamples (view series) = samples series) :
    ReadsAlone viewLabels viewSamples (joint.map view) (alone.map view) where
  once := by
    rw [map_map]
    have composed : viewLabels ∘ view = labels := funext sameLabels
    rw [composed]
    exact reads.once
  kept := by
    intro series member
    obtain ⟨origin, originIn, rfl⟩ := mem_map.mp member
    exact mem_map_of_mem (reads.kept origin originIn)
  extra := by
    intro series member
    obtain ⟨origin, originIn, rfl⟩ := mem_map.mp member
    rcases reads.extra origin originIn with shown | empty
    · exact .inl (mem_map_of_mem shown)
    · exact .inr ((sameSamples origin).trans empty)

variable {platform : Platform} {regex : RegexMatch} {ofLength : Nat → UInt64} {ofCount : UInt64 → UInt64}
  {state : FetchedState} {evalWindow : EvalWindow}

/-- The metric segments as their writers left them. -/
structure MetricsHold (segments : List MetricSegment) : Prop where
  scalarsNamed : RunsNamed (segments.flatMap MetricSegment.scalars)
  histogramsNamed : RunsNamed (segments.flatMap MetricSegment.histograms)
  scalarBounds : BoundsHold MetricSegment.scalars segments
  histogramBounds : BoundsHold MetricSegment.histograms segments

/-- The pools of a prefetch in pairs, over the hull of the metric windows. -/
theorem Prefetch.pools (holds : MetricsHold state.metrics) {plans : List SelectorPlan} {source : MergedSource FloatHistogram}
    (prefetched : Prefetch platform regex ofLength ofCount state evalWindow plans source) :
    ∃ windows, (metricPlans plans).mapM (fun plan => selectorFetchWindow plan evalWindow) = .ok windows ∧
      Pools scalarOrder id (pickedRuns MetricSegment.scalars regex
        (resolveSegments state.metrics (paddedRange windows)) (distinctPlansByMatcher (metricPlans plans)))
        (source.series.map fun series => (series.labels, series.samples)) ∧
      Pools histogramOrder (histogramValueToFloat ofCount) (pickedRuns MetricSegment.histograms regex
        (resolveSegments state.metrics (paddedRange windows)) (distinctPlansByMatcher (metricPlans plans)))
        (source.histogramSeries.map fun series => (series.labels, series.samples)) := by
  obtain ⟨windows, arrived, planned, order, pooled⟩ := prefetched.scalars
  obtain ⟨others, fetched, histograms, alsoPlanned, ran, arrivedOrder, isPool⟩ := prefetched.histograms
  rw [planned] at alsoPlanned
  cases alsoPlanned
  refine ⟨windows, planned, ?_, ?_⟩
  · exact pools_scalarPool (holds.scalarsNamed.subset (pickedRuns_subset _)) order pooled
  · rw [isPool]
    have resolved : (resolveSegments state.metrics (paddedRange windows)).flatMap MetricSegment.histograms ⊆
        state.metrics.flatMap MetricSegment.histograms := by
      intro run stored
      obtain ⟨segment, segmentIn, runIn⟩ := mem_flatMap.mp stored
      exact mem_flatMap.mpr ⟨segment, (mem_filter.mp segmentIn).1, runIn⟩
    exact pools_histogramPool (holds.histogramsNamed.subset resolved) ran arrivedOrder

variable {before after : List SelectorPlan} {plan : SelectorPlan} {source single : MergedSource FloatHistogram}
  {planned window : TimeRange}

/-- A metric selector reads both pools as it does alone. -/
theorem metricReads (holds : MetricsHold state.metrics)
    (joint : Prefetch platform regex ofLength ofCount state evalWindow (before ++ plan :: after) source)
    (alone : Prefetch platform regex ofLength ofCount state evalWindow [plan] single)
    (notLog : logMetricOf plan.matchers = none) (isPlanned : selectorFetchWindow plan evalWindow = .ok planned)
    (starts : planned.startNs ≤ window.startNs) (ends : window.endNs ≤ planned.endNs) :
    ReadsAlone SeriesData.labels SeriesData.samples (source.query regex plan.matchers window)
        (single.query regex plan.matchers window) ∧
      ReadsAlone HistogramSeriesData.labels HistogramSeriesData.samples
        (source.queryHistograms regex plan.matchers window) (single.queryHistograms regex plan.matchers window) := by
  have isMetric : metricPlans [plan] = [plan] := by simp [metricPlans, notLog]
  have member : plan ∈ metricPlans (before ++ plan :: after) := by
    simp [metricPlans, notLog]
  obtain ⟨windows, jointPlanned, jointScalars, jointHistograms⟩ := joint.pools holds
  obtain ⟨alone', alonePlanned, aloneScalars, aloneHistograms⟩ := alone.pools holds
  rw [isMetric] at alonePlanned aloneScalars aloneHistograms
  obtain ⟨_, windowIn, planWindow⟩ := exists_of_mapM jointPlanned member
  rw [isPlanned] at planWindow
  cases planWindow
  obtain ⟨hullStarts, hullEnds⟩ := paddedRange_hull windowIn
  obtain rfl : alone' = [planned] := by
    rw [mapM_cons, isPlanned] at alonePlanned
    cases alonePlanned
    rfl
  have scalars := jointScalars.readsAlone aloneScalars
    (fun run inAlone => pickedRuns_inside member hullStarts hullEnds inAlone)
    fun run inJoint tested entry entryIn held =>
      pickedRuns_reaches holds.scalarBounds starts ends inJoint tested entryIn held
  have histograms := jointHistograms.readsAlone aloneHistograms
    (fun run inAlone => pickedRuns_inside member hullStarts hullEnds inAlone)
    fun run inJoint tested entry entryIn held =>
      pickedRuns_reaches holds.histogramBounds starts ends inJoint tested entryIn held
  have query (read : MergedSource FloatHistogram) : read.query regex plan.matchers window =
      (readPool (read.series.map fun series => (series.labels, series.samples)) (matchesSeries regex plan.matchers)
        window).map fun pair => ⟨pair.1, pair.2⟩ := by
    simp only [MergedSource.query, notLog, Option.isSome_none, Bool.false_eq_true, if_false, readPool, filter_map,
      map_map]
    rfl
  have queryHistograms (read : MergedSource FloatHistogram) : read.queryHistograms regex plan.matchers window =
      (readPool (read.histogramSeries.map fun series => (series.labels, series.samples))
        (matchesSeries regex plan.matchers) window).map fun pair => ⟨pair.1, pair.2⟩ := by
    simp only [MergedSource.queryHistograms, readPool, filter_map, map_map]
    rfl
  rw [query source, query single, queryHistograms source, queryHistograms single]
  exact ⟨scalars.map _ (fun _ => rfl) fun _ => rfl, histograms.map _ (fun _ => rfl) fun _ => rfl⟩

/-- Nothing that is fetched for another selector passes the label matchers of a log selector, and the series keys
determine the label sets. -/
structure Undisturbed (platform : Platform) (regex : RegexMatch) (ofLength : Nat → UInt64) (state : FetchedState)
    (evalWindow : EvalWindow) (before after : List SelectorPlan) (plan : SelectorPlan) : Prop where
  keys : ∀ metric, logMetricOf plan.matchers = some metric → KeysDetermine platform metric state
  logs : ∀ windows, (logPlans (before ++ plan :: after)).mapM (fun plan => selectorFetchWindow plan evalWindow) = .ok windows →
    ∀ other ∈ logPlans (before ++ after), ∀ out,
      fetchLogPlan platform regex ofLength state (paddedRange windows) other = .ok out →
      ∀ series ∈ out, matchesSeries regex (plan.matchers.filter fun matcher => matcher.name ≠ bodyMatcherLabel)
        series.labels = false
  histograms : ∀ run ∈ state.metrics.flatMap MetricSegment.histograms, matchesSeries regex plan.matchers run.labels = false

theorem logSeries_filter {metric : LogMetric} (isLog : logMetricOf plan.matchers = some metric)
    (undisturbed : Undisturbed platform regex ofLength state evalWindow before after plan)
    (joint : Prefetch platform regex ofLength ofCount state evalWindow (before ++ plan :: after) source)
    (isPlanned : selectorFetchWindow plan evalWindow = .ok planned) :
    ∃ windows own, (logPlans (before ++ plan :: after)).mapM (fun plan => selectorFetchWindow plan evalWindow) = .ok windows ∧
      planned ∈ windows ∧
      fetchLogSeries platform regex ofLength (logRequest state metric plan.matchers (paddedRange windows))
        (resolveLogSegments state.logs (paddedRange windows)) = .ok own ∧
      (source.logSeries.filter fun series => matchesSeries regex
          (plan.matchers.filter fun matcher => matcher.name ≠ bodyMatcherLabel) series.labels) =
        own.filter fun series => matchesSeries regex
          (plan.matchers.filter fun matcher => matcher.name ≠ bodyMatcherLabel) series.labels := by
  obtain ⟨windows, outs, windowed, ran, isPool⟩ := joint.logs
  have split : logPlans (before ++ plan :: after) = logPlans before ++ plan :: logPlans after := by
    simp [logPlans, isLog]
  have member : plan ∈ logPlans (before ++ plan :: after) := by
    rw [split]
    exact mem_append_right _ mem_cons_self
  obtain ⟨_, windowIn, planWindow⟩ := exists_of_mapM windowed member
  rw [isPlanned] at planWindow
  cases planWindow
  have others := undisturbed.logs windows windowed
  have listed : logPlans (before ++ after) = logPlans before ++ logPlans after := filter_append _ _
  rw [listed] at others
  rw [split, mapM_append] at ran
  obtain ⟨first, firstRan, ran⟩ := ok_of_bind ran
  obtain ⟨second, secondRan, ran⟩ := ok_of_bind ran
  cases ran
  rw [mapM_cons] at secondRan
  obtain ⟨own, ownRan, secondRan⟩ := ok_of_bind secondRan
  obtain ⟨last, lastRan, secondRan⟩ := ok_of_bind secondRan
  cases secondRan
  have none {some : List SelectorPlan} {some' : List (List SeriesData)}
      (inside : ∀ other ∈ some, other ∈ logPlans before ++ logPlans after)
      (fetched : some.mapM (fetchLogPlan platform regex ofLength state (paddedRange windows)) = .ok some') :
      (some'.flatten.filter fun series => matchesSeries regex
        (plan.matchers.filter fun matcher => matcher.name ≠ bodyMatcherLabel) series.labels) = [] := by
    rw [filter_eq_nil_iff]
    intro series seriesIn matched
    obtain ⟨out, outIn, inOut⟩ := mem_flatten.mp seriesIn
    obtain ⟨other, otherIn, otherRan⟩ := mem_of_mapM fetched outIn
    rw [others other (inside other otherIn) out otherRan series inOut] at matched
    cases matched
  refine ⟨windows, own, windowed, windowIn, ?_, ?_⟩
  · rw [fetchLogPlan, isLog] at ownRan
    exact ownRan
  · rw [isPool, flatten_append, flatten_cons, filter_append, filter_append,
      none (fun other otherIn => mem_append_left _ otherIn) firstRan,
      none (fun other otherIn => mem_append_right _ otherIn) lastRan, nil_append, append_nil]

/-- No histogram passes the matchers of an undisturbed log selector. -/
theorem queryHistograms_eq_nil (holds : MetricsHold state.metrics) {plans : List SelectorPlan}
    (prefetched : Prefetch platform regex ofLength ofCount state evalWindow plans source)
    (absent : ∀ run ∈ state.metrics.flatMap MetricSegment.histograms, matchesSeries regex plan.matchers run.labels = false) :
    source.queryHistograms regex plan.matchers window = [] := by
  obtain ⟨windows, _, _, histograms⟩ := prefetched.pools holds
  rw [MergedSource.queryHistograms, map_eq_nil_iff, filter_eq_nil_iff]
  intro series pooled matched
  obtain ⟨run, picked, labelled⟩ := histograms.labelled _ (mem_map_of_mem pooled)
  have stored := pickedRuns_subset _ picked
  have refused := absent run stored
  simp only at labelled
  rw [labelled, matched] at refused
  cases refused

theorem logReads (ascii : AsciiTables platform) (plain : PlainPatterns regex)
    (compiled : ∀ matcher ∈ plan.matchers, matcher.Compiled) (holds : MetricsHold state.metrics)
    (logsHold : LogsHold state.logs) {metric : LogMetric} (isLog : logMetricOf plan.matchers = some metric)
    (undisturbed : Undisturbed platform regex ofLength state evalWindow before after plan)
    (joint : Prefetch platform regex ofLength ofCount state evalWindow (before ++ plan :: after) source)
    (alone : Prefetch platform regex ofLength ofCount state evalWindow [plan] single)
    (isPlanned : selectorFetchWindow plan evalWindow = .ok planned)
    (starts : planned.startNs ≤ window.startNs) (ends : window.endNs ≤ planned.endNs) :
    ReadsAlone SeriesData.labels SeriesData.samples (source.query regex plan.matchers window)
        (single.query regex plan.matchers window) ∧
      ReadsAlone HistogramSeriesData.labels HistogramSeriesData.samples
        (source.queryHistograms regex plan.matchers window) (single.queryHistograms regex plan.matchers window) := by
  have byItself : Undisturbed platform regex ofLength state evalWindow [] [] plan := by
    refine ⟨undisturbed.keys, ?_, undisturbed.histograms⟩
    intro _ _ other absent
    cases absent
  obtain ⟨windows, own, _, windowIn, fetched, pool⟩ := logSeries_filter isLog undisturbed joint isPlanned
  obtain ⟨windows', own', windowed', _, fetched', pool'⟩ := logSeries_filter isLog byItself alone isPlanned
  obtain rfl : windows' = [planned] := by
    have only : logPlans ([] ++ plan :: []) = [plan] := by simp [logPlans, isLog]
    rw [only, mapM_cons, isPlanned] at windowed'
    cases windowed'
    rfl
  obtain ⟨hullStarts, hullEnds⟩ := paddedRange_hull windowIn
  have jointly := fetchLogSeries_exact ascii plain logsHold (undisturbed.keys metric isLog) compiled fetched
  have alonely := fetchLogSeries_exact ascii plain logsHold (undisturbed.keys metric isLog) compiled fetched'
  have wide := @selected_within platform regex _ logsHold.each
    (logRequest state metric plan.matchers (paddedRange windows)) window (hullStarts.trans starts) (ends.trans hullEnds)
  have narrow := @selected_within platform regex _ logsHold.each
    (logRequest state metric plan.matchers (paddedRange [planned])) window starts ends
  have subset : ∀ record ∈ ((resolveLogSegments state.logs (paddedRange [planned])).flatMap storedRecords).filter
      (selects platform regex (logRequest state metric plan.matchers (paddedRange [planned]))),
      record ∈ ((resolveLogSegments state.logs (paddedRange windows)).flatMap storedRecords).filter
        (selects platform regex (logRequest state metric plan.matchers (paddedRange windows))) := by
    intro record selected
    obtain ⟨stored, taken⟩ := mem_filter.mp selected
    obtain ⟨segment, segmentIn, recordIn⟩ := mem_flatMap.mp stored
    obtain ⟨committed, meets⟩ := mem_filter.mp segmentIn
    rw [selects_eq, Bool.and_eq_true] at taken
    refine mem_filter.mpr ⟨mem_flatMap.mpr ⟨segment, ?_, recordIn⟩, ?_⟩
    · exact mem_filter.mpr ⟨committed, overlaps_mono hullStarts hullEnds meets⟩
    · rw [selects_eq, Bool.and_eq_true]
      refine ⟨?_, taken.2⟩
      have held : planned.holds record.tsNs = true := taken.1
      show (paddedRange windows).holds record.tsNs = true
      simp only [TimeRange.holds, Bool.and_eq_true, decide_eq_true_eq] at held ⊢
      omega
  have reads := jointly.readsAlone alonely subset (wide.trans narrow.symm)
    (matchesSeries regex (plan.matchers.filter fun matcher => matcher.name ≠ bodyMatcherLabel))
  refine ⟨?_, ?_⟩
  · simp only [MergedSource.query, isLog, Option.isSome_some, if_true]
    rw [pool, pool']
    exact reads
  · rw [queryHistograms_eq_nil holds joint undisturbed.histograms, queryHistograms_eq_nil holds alone undisturbed.histograms]
    exact ⟨nodup_nil, by simp, by simp⟩

/-- Every selector reads from the prefetched pools of the query what it reads when it is prefetched alone, apart from
series without a sample in the window. A log selector has to be undisturbed. -/
theorem prefetch_isolated (ascii : AsciiTables platform) (plain : PlainPatterns regex)
    (compiled : ∀ matcher ∈ plan.matchers, matcher.Compiled) (holds : MetricsHold state.metrics)
    (logsHold : LogsHold state.logs)
    (joint : Prefetch platform regex ofLength ofCount state evalWindow (before ++ plan :: after) source)
    (alone : Prefetch platform regex ofLength ofCount state evalWindow [plan] single)
    (undisturbed : (logMetricOf plan.matchers).isSome = true →
      Undisturbed platform regex ofLength state evalWindow before after plan)
    (isPlanned : selectorFetchWindow plan evalWindow = .ok planned)
    (starts : planned.startNs ≤ window.startNs) (ends : window.endNs ≤ planned.endNs) :
    ReadsAlone SeriesData.labels SeriesData.samples (source.query regex plan.matchers window)
        (single.query regex plan.matchers window) ∧
      ReadsAlone HistogramSeriesData.labels HistogramSeriesData.samples
        (source.queryHistograms regex plan.matchers window) (single.queryHistograms regex plan.matchers window) := by
  cases isLog : logMetricOf plan.matchers with
  | none => exact metricReads holds joint alone isLog isPlanned starts ends
  | some metric =>
    have apart := undisturbed (by rw [isLog]; rfl)
    exact logReads ascii plain compiled holds logsHold isLog apart joint alone isPlanned starts ends

end Isolation

section Samples

/-- The labels of `up`. -/
def upLabels : LabelSet := .single "__name__" "up"

/-- A segment with one sample of `up` at the epoch. -/
def epochSegment : MetricSegment :=
  ⟨0, 0, [⟨⟨Vector.replicate 16 1⟩, upLabels, ⟨[⟨0, oneBits⟩], .runWide ⟨0, 0, 0⟩⟩⟩], []⟩

/-- The selector `up` with a lookback of five minutes and an offset. -/
def epochPlan (offsetNs : Int) : SelectorPlan := ⟨[⟨metricNameLabel, .eq, "up"⟩], 300000000000, offsetNs, .window, false⟩

/-- The selector of the log records. -/
def linesPlan : SelectorPlan := ⟨sampleRequest.matchers, 300000000000, 0, .window, false⟩

def sampleState : FetchedState := ⟨[epochSegment], [sampleSegment [plainBlob]], []⟩

theorem sampleState_metrics : MetricsHold sampleState.metrics where
  scalarsNamed := by
    intro run member other otherIn
    rw [mem_singleton.mp member, mem_singleton.mp otherIn]
    exact iff_of_true rfl rfl
  histogramsNamed := by
    intro run absent
    cases absent
  scalarBounds := by
    intro segment segmentIn run runIn sample sampleIn
    obtain rfl := mem_singleton.mp segmentIn
    obtain rfl := mem_singleton.mp runIn
    obtain rfl := mem_singleton.mp sampleIn
    exact ⟨le_refl 0, le_refl 0⟩
  histogramBounds := by
    intro segment segmentIn run absent
    obtain rfl := mem_singleton.mp segmentIn
    cases absent

theorem sampleState_logs : LogsHold sampleState.logs := by
  refine ⟨?_, sampleSegment_oneBlob⟩
  intro segment member
  rw [mem_singleton.mp member]
  exact sampleSegment_holds

/-- In an instant query of `up` and the log lines, the lines read as they do alone. -/
theorem prefetch_isolated_lines : ∃ source single,
    Prefetch samplePlatform plainRegex (fun _ => 0) id sampleState (.instant 300000000000)
      ([] ++ linesPlan :: [epochPlan 0]) source ∧
    Prefetch samplePlatform plainRegex (fun _ => 0) id sampleState (.instant 300000000000) [linesPlan] single ∧
    ReadsAlone SeriesData.labels SeriesData.samples (source.query plainRegex linesPlan.matchers ⟨0, 300000000000⟩)
      (single.query plainRegex linesPlan.matchers ⟨0, 300000000000⟩) := by
  obtain ⟨series, fetched, _⟩ := @fetchLogSeries_groups samplePlatform plainRegex (fun _ => 0)
    (logRequest sampleState .lines linesPlan.matchers ⟨0, 300000000000⟩) samplePlatform_ascii plainRegex_plain
    sampleRequest_compiled _ sampleState_logs.each sampleState_logs.oneBlob
  have logs : [linesPlan].mapM (fetchLogPlan samplePlatform plainRegex (fun _ => 0) sampleState ⟨0, 300000000000⟩) =
      .ok [finishSeries series] := mapM_eq_ok.mpr (.cons fetched .nil)
  have joint : Prefetch samplePlatform plainRegex (fun _ => 0) id sampleState (.instant 300000000000)
      ([] ++ linesPlan :: [epochPlan 0]) ⟨[⟨upLabels, [⟨0, oneBits⟩]⟩], [], finishSeries series, none⟩ :=
    ⟨⟨_, epochSegment.scalars, rfl, Perm.refl _, rfl⟩, ⟨_, [[]], [[]], rfl, rfl, Perm.refl _, rfl⟩,
      ⟨[⟨0, 300000000000⟩], [finishSeries series], rfl, logs, by simp⟩, rfl⟩
  have alone : Prefetch samplePlatform plainRegex (fun _ => 0) id sampleState (.instant 300000000000) [linesPlan]
      ⟨[], [], finishSeries series, none⟩ :=
    ⟨⟨[], [], rfl, Perm.refl _, rfl⟩, ⟨[], [], [], rfl, rfl, Perm.refl _, rfl⟩,
      ⟨[⟨0, 300000000000⟩], [finishSeries series], rfl, logs, by simp⟩, rfl⟩
  have undisturbed : Undisturbed samplePlatform plainRegex (fun _ => 0) sampleState (.instant 300000000000) []
      [epochPlan 0] linesPlan := by
    refine ⟨?_, ?_, ?_⟩
    · intro metric _ first firstIn second secondIn _
      have same : first = second := (mem_singleton.mp firstIn).trans (mem_singleton.mp secondIn).symm
      rw [same]
    · intro windows _ other absent
      cases absent
    · intro run absent
      cases absent
  exact ⟨_, _, joint, alone, (prefetch_isolated samplePlatform_ascii plainRegex_plain sampleRequest_compiled
    sampleState_metrics sampleState_logs joint alone (fun _ => undisturbed) rfl (le_refl _) (le_refl _)).1⟩

/-- Beside a selector with an offset the selector `up` also reads the old series, with no sample. -/
theorem prefetch_shows_old_series : ∃ source single : MergedSource FloatHistogram,
    Prefetch samplePlatform plainRegex (fun _ => 0) id sampleState (.instant 3600000000000)
      [epochPlan 0, epochPlan 3600000000000] source ∧
    Prefetch samplePlatform plainRegex (fun _ => 0) id sampleState (.instant 3600000000000) [epochPlan 0] single ∧
    source.query plainRegex (epochPlan 0).matchers ⟨3300000000000, 3600000000000⟩ = [⟨upLabels, []⟩] ∧
    single.query plainRegex (epochPlan 0).matchers ⟨3300000000000, 3600000000000⟩ = [] := by
  refine ⟨⟨[⟨upLabels, [⟨0, oneBits⟩]⟩], [], [], none⟩, ⟨[], [], [], none⟩, ?_, ?_, ?_, ?_⟩
  · exact ⟨⟨_, epochSegment.scalars, rfl, Perm.refl _, rfl⟩, ⟨_, [[]], [[]], rfl, rfl, Perm.refl _, rfl⟩,
      ⟨[], [], rfl, rfl, rfl⟩, rfl⟩
  · exact ⟨⟨_, [], rfl, Perm.refl _, rfl⟩, ⟨_, [[]], [[]], rfl, rfl, Perm.refl _, rfl⟩,
      ⟨[], [], rfl, rfl, rfl⟩, rfl⟩
  · rfl
  · rfl

end Samples

end Ravel.Promql
