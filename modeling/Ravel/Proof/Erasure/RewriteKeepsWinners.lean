import Ravel.Proof.Erasure.MetricRewrite

namespace Ravel.Erasure

open List Metrics SortedGroups Library

/-- The scalar run of a run of either kind. -/
def KindRun.scalar? : KindRun RunOutput → Option (RunOutput UInt64)
  | .scalar run => some run
  | .histogram _ => none

/-- The histogram run of a run of either kind. -/
def KindRun.histogram? : KindRun RunOutput → Option (RunOutput HistogramValue)
  | .scalar _ => none
  | .histogram run => some run

/-- A selection of the runs of one kind, which the rewrite of a run respects. -/
structure KindSelection (Value : Type) where
  select : KindRun RunOutput → Option (RunOutput Value)
  rewritten : ∀ (applicable : List Nat) (requests : List ApplicableRequest) (labels : LabelSet)
    (tally next : RewriteTally) (run : KindRun RunOutput) (result : Option (KindRun RunOutput)),
    rewriteKindRun applicable requests labels tally run = .ok (next, result) →
      match select run with
      | some own => rewriteRun applicable requests labels tally own = .ok (next, result.bind select)
      | none => result.bind select = none

/-- A mapped computation that succeeds comes from one that succeeds. -/
theorem except_map_ok {Failure First Second : Type} {step : First → Second} {computed : Except Failure First}
    {result : Second} (accepted : computed.map step = .ok result) :
    ∃ value, computed = .ok value ∧ step value = result := by
  cases computed with
  | error failure => cases accepted
  | ok value =>
    cases accepted
    exact ⟨value, rfl, rfl⟩

/-- The scalar runs of a rewrite are the rewritten scalar runs. -/
def scalarSelection : KindSelection UInt64 where
  select := KindRun.scalar?
  rewritten applicable requests labels tally next run result accepted := by
    cases run with
    | scalar own =>
      obtain ⟨⟨after, kept⟩, computed, same⟩ := except_map_ok accepted
      cases same
      cases kept <;> exact computed
    | histogram own =>
      obtain ⟨⟨after, kept⟩, computed, same⟩ := except_map_ok accepted
      cases same
      cases kept <;> rfl

/-- The histogram runs of a rewrite are the rewritten histogram runs. -/
def histogramSelection : KindSelection HistogramValue where
  select := KindRun.histogram?
  rewritten applicable requests labels tally next run result accepted := by
    cases run with
    | scalar own =>
      obtain ⟨⟨after, kept⟩, computed, same⟩ := except_map_ok accepted
      cases same
      cases kept <;> rfl
    | histogram own =>
      obtain ⟨⟨after, kept⟩, computed, same⟩ := except_map_ok accepted
      cases same
      cases kept <;> exact computed

variable {Value : Type}

/-- The selected runs of a series as the query fetches them. -/
def selectedSeries (selection : KindSelection Value) (labels : LabelSet) (runs : List (KindRun RunOutput)) :
    List (FetchedSeries Value) :=
  (runs.filterMap selection.select).map (FetchedSeries.mk labels)

/-- The exclusion treats every fetched series alone. -/
theorem retainSeriesBy_eq (series : List (FetchedSeries Value)) (predicates : List ErasurePredicate) :
    retainSeriesBy series predicates = series.filterMap (retainOne predicates) := by
  rw [retainSeriesBy]
  by_cases empty : predicates.isEmpty = true
  · have unchanged : (retainOne predicates : FetchedSeries Value → Option (FetchedSeries Value)) = some := by
      funext entry
      rw [retainOne, matchingPredicates, List.isEmpty_iff.mp empty]
      rfl
    rw [if_pos empty, unchanged, filterMap_some]
  · rw [if_neg empty]

/-- What the rewrite of several series' runs does. -/
structure SeriesRewritten (requests : List ErasureRequest) (live rewritten : List (FetchedSeries Value)) : Prop where
  served : rewritten.map FetchedSeries.served =
    (retainSeriesBy live (snapshotPendingErasurePredicates requests)).map FetchedSeries.served
  settled : ∀ series ∈ rewritten,
    retainOne (snapshotPendingErasurePredicates requests) series = some series

theorem SeriesRewritten.nil (requests : List ErasureRequest) :
    SeriesRewritten requests ([] : List (FetchedSeries Value)) [] := by
  refine ⟨?_, ?_⟩
  · rw [retainSeriesBy_eq]
    rfl
  · intro series member
    cases member

variable {requests : List ErasureRequest} {labels : LabelSet} {tally next : RewriteTally} {run : KindRun RunOutput}
  {result : Option (KindRun RunOutput)} (selection : KindSelection Value) {provenance : RunProvenance}
  {inputs : List RewriteInput}

/-- Rewrites of two lists of series make a rewrite of both. -/
theorem SeriesRewritten.append {firstLive firstRewritten secondLive secondRewritten : List (FetchedSeries Value)}
    (first : SeriesRewritten requests firstLive firstRewritten)
    (second : SeriesRewritten requests secondLive secondRewritten) :
    SeriesRewritten requests (firstLive ++ secondLive) (firstRewritten ++ secondRewritten) := by
  refine ⟨?_, ?_⟩
  · rw [map_append, first.served, second.served, retainSeriesBy_eq, retainSeriesBy_eq, retainSeriesBy_eq,
      filterMap_append, map_append]
  · intro series member
    rcases mem_append.mp member with inFirst | inSecond
    · exact first.settled series inFirst
    · exact second.settled series inSecond

section

variable
  (accepted : rewriteKindRun (applicableRequests (requests.map ApplicableRequest.ofRequest) labels) (requests.map ApplicableRequest.ofRequest) labels tally run = .ok (next, result))

include accepted

theorem rewriteKindRun_balanced (balanced : Balanced requests tally) : Balanced requests next := by
  cases run with
  | scalar own =>
    obtain ⟨⟨after, kept⟩, computed, same⟩ := except_map_ok accepted
    cases same
    exact (rewriteRun_rewritten computed).balanced balanced
  | histogram own =>
    obtain ⟨⟨after, kept⟩, computed, same⟩ := except_map_ok accepted
    cases same
    exact (rewriteRun_rewritten computed).balanced balanced

theorem rewriteKindRun_rewritten :
    SeriesRewritten requests (selectedSeries selection labels [run]) (selectedSeries selection labels result.toList) := by
  have own := selection.rewritten _ _ _ _ _ _ _ accepted
  have results : selectedSeries selection labels result.toList =
      (result.bind selection.select).toList.map (FetchedSeries.mk labels) := by
    cases result with
    | none => rfl
    | some kept => cases picked : selection.select kept <;> simp [selectedSeries, picked]
  rw [results]
  cases picked : selection.select run with
  | none =>
    rw [picked] at own
    have empty : selectedSeries selection labels [run] = [] := by
      simp [selectedSeries, picked]
    rw [empty, own]
    exact SeriesRewritten.nil requests
  | some live =>
    rw [picked] at own
    have spec := rewriteRun_rewritten own
    have single : selectedSeries selection labels [run] = [⟨labels, live⟩] := by
      simp [selectedSeries, picked]
    rw [single]
    refine ⟨?_, ?_⟩
    · have served := congrArg Option.toList spec.served
      rw [Option.toList_map, Option.toList_map] at served
      have alone : List.filterMap (retainOne (snapshotPendingErasurePredicates requests)) [⟨labels, live⟩] =
          (retainOne (snapshotPendingErasurePredicates requests) ⟨labels, live⟩).toList := by
        cases kept : retainOne (snapshotPendingErasurePredicates requests) ⟨labels, live⟩ <;> simp [kept]
      rw [retainSeriesBy_eq, map_map, alone]
      exact served
    · intro series member
      obtain ⟨kept, inResult, rfl⟩ := mem_map.mp member
      exact spec.settled kept (Option.mem_toList.mp inResult)

end

theorem rewriteRuns_rewritten {live runs : List (KindRun RunOutput)}
    (accepted : rewriteRuns (applicableRequests (requests.map ApplicableRequest.ofRequest) labels) (requests.map ApplicableRequest.ofRequest) labels tally live = .ok (next, runs)) :
    (Balanced requests tally → Balanced requests next) ∧
      SeriesRewritten requests (selectedSeries selection labels live) (selectedSeries selection labels runs) := by
  induction live generalizing tally runs with
  | nil =>
    cases accepted
    exact ⟨id, SeriesRewritten.nil requests⟩
  | cons run rest ih =>
    rw [rewriteRuns] at accepted
    obtain ⟨⟨middle, result⟩, first, accepted⟩ := ok_of_bind accepted
    obtain ⟨later, inner, accepted⟩ := ok_of_bind accepted
    cases accepted
    obtain ⟨restBalanced, restRewritten⟩ := ih inner
    refine ⟨fun balanced => restBalanced (rewriteKindRun_balanced first balanced), ?_⟩
    have both := (rewriteKindRun_rewritten selection first).append restRewritten
    simp only [selectedSeries, ← map_append, ← filterMap_append] at both
    exact both

/-- The selected live runs of a list of contributions, each with the labels of its own plan. -/
def liveSeries (selection : KindSelection Value) (provenance : RunProvenance)
    (contributions : List (RewriteInput × SeriesPlan)) : List (FetchedSeries Value) :=
  contributions.flatMap fun contribution =>
    match liveRuns provenance contribution.1 contribution.2 with
    | .ok runs => selectedSeries selection contribution.2.labels runs
    | .error _ => []

/-- The selected runs of one series in a rewritten part. -/
def writtenSeries (selection : KindSelection Value) (series : List RewrittenSeries) (seriesId : SeriesId) :
    List (FetchedSeries Value) :=
  (series.filter fun entry => entry.seriesId = seriesId).flatMap fun entry =>
    selectedSeries selection entry.labels entry.runs

theorem contributionRuns_ok {contributions : List (RewriteInput × SeriesPlan)} {live : List (KindRun RunOutput)}
    (labelled : ∀ contribution ∈ contributions, contribution.2.labels = labels)
    (accepted : contributionRuns provenance contributions = .ok live) :
    selectedSeries selection labels live = liveSeries selection provenance contributions := by
  induction contributions generalizing live with
  | nil =>
    cases accepted
    rfl
  | cons contribution rest ih =>
    obtain ⟨input, plan⟩ := contribution
    rw [forall_mem_cons] at labelled
    rw [contributionRuns] at accepted
    obtain ⟨runs, first, accepted⟩ := ok_of_bind accepted
    obtain ⟨others, inner, accepted⟩ := ok_of_bind accepted
    cases accepted
    rw [liveSeries, flatMap_cons, ← liveSeries, ← ih labelled.2 inner]
    have same : plan.labels = labels := labelled.1
    simp only [first, selectedSeries, filterMap_append, map_append, same]

theorem liveSeries_append (provenance : RunProvenance) (first second : List (RewriteInput × SeriesPlan)) :
    liveSeries selection provenance (first ++ second) =
      liveSeries selection provenance first ++ liveSeries selection provenance second :=
  flatMap_append

/-- A series without surviving runs is left out and has no written runs. -/
theorem writtenSeries_cons (groupId : SeriesId) (labels : LabelSet) (runs : List (KindRun RunOutput))
    (others : List RewrittenSeries) (seriesId : SeriesId) :
    writtenSeries selection (if runs.isEmpty then others else ⟨groupId, labels, runs⟩ :: others) seriesId =
      if groupId = seriesId then selectedSeries selection labels runs ++ writtenSeries selection others seriesId
      else writtenSeries selection others seriesId := by
  by_cases empty : runs.isEmpty = true
  · rw [if_pos empty, List.isEmpty_iff.mp empty]
    by_cases same : groupId = seriesId
    · rw [if_pos same]
      rfl
    · rw [if_neg same]
  · rw [if_neg empty, writtenSeries]
    by_cases same : groupId = seriesId
    · rw [filter_cons_of_pos (by simpa using same), if_pos same, flatMap_cons]
      rfl
    · rw [filter_cons_of_neg (by simpa using same), if_neg same]
      rfl

/-- The rewrite of all groups rewrites every series and keeps the counts balanced. -/
theorem rewriteSeries_rewritten {groups : List (SeriesId × List (RewriteInput × SeriesPlan))}
    {series : List RewrittenSeries}
    (labelled : ∀ group ∈ groups, ∀ first ∈ group.2, ∀ second ∈ group.2, first.2.labels = second.2.labels)
    (accepted : rewriteSeries provenance (requests.map ApplicableRequest.ofRequest) tally groups = .ok (next, series)) :
    (Balanced requests tally → Balanced requests next) ∧
      ∀ seriesId, SeriesRewritten requests
        (liveSeries selection provenance ((groups.filter fun group => group.1 = seriesId).flatMap Prod.snd))
        (writtenSeries selection series seriesId) := by
  induction groups generalizing tally series with
  | nil =>
    cases accepted
    exact ⟨id, fun seriesId => SeriesRewritten.nil requests⟩
  | cons group rest ih =>
    obtain ⟨groupId, contributions⟩ := group
    rw [forall_mem_cons] at labelled
    cases contributions with
    | nil =>
      rw [rewriteSeries] at accepted
      obtain ⟨balanced, rewritten⟩ := ih labelled.2 accepted
      refine ⟨balanced, fun seriesId => ?_⟩
      have same : (List.filter (fun group => group.1 = seriesId) ((groupId, []) :: rest)).flatMap Prod.snd =
          (rest.filter fun group => group.1 = seriesId).flatMap Prod.snd := by
        rw [filter_cons]
        split <;> rfl
      rw [same]
      exact rewritten seriesId
    | cons first others =>
      rw [rewriteSeries] at accepted
      obtain ⟨live, gathered, accepted⟩ := ok_of_bind accepted
      simp only [bind, Except.bind] at accepted
      cases own : rewriteRuns
          (applicableRequests (requests.map ApplicableRequest.ofRequest) first.2.labels)
          (requests.map ApplicableRequest.ofRequest) first.2.labels tally live with
      | error failure =>
        rw [own] at accepted
        cases accepted
      | ok step =>
        obtain ⟨middle, runs⟩ := step
        rw [own] at accepted
        obtain ⟨later, inner, accepted⟩ := ok_of_bind accepted
        obtain ⟨last, tail⟩ := later
        simp only [inner] at accepted
        cases accepted
        obtain ⟨ownBalanced, ownRewritten⟩ := rewriteRuns_rewritten selection own
        obtain ⟨restBalanced, restRewritten⟩ := ih labelled.2 inner
        refine ⟨fun balanced => restBalanced (ownBalanced balanced), fun seriesId => ?_⟩
        rw [contributionRuns_ok selection (fun contribution member =>
          labelled.1 contribution member first mem_cons_self) gathered] at ownRewritten
        rw [writtenSeries_cons]
        by_cases same : groupId = seriesId
        · rw [filter_cons_of_pos (by simpa using same), if_pos same, flatMap_cons,
            liveSeries_append]
          exact ownRewritten.append (restRewritten seriesId)
        · rw [filter_cons_of_neg (by simpa using same), if_neg same]
          exact restRewritten seriesId

/-- A series id is a digest of its labels, so the plans of one id have one label set. -/
def LabelsById (inputs : List RewriteInput) : Prop :=
  ∀ first ∈ inputContributions inputs, ∀ second ∈ inputContributions inputs,
    first.1 = second.1 → first.2.2.labels = second.2.2.labels

/-- The selected live runs of one series in a bucket, as the query fetches them. -/
def bucketSeries (selection : KindSelection Value) (provenance : RunProvenance) (inputs : List RewriteInput)
    (seriesId : SeriesId) : List (FetchedSeries Value) :=
  liveSeries selection provenance
    (((inputContributions inputs).filter fun entry => entry.1 = seriesId).map Prod.snd)

/-- The groups of a bucket have one label set each. -/
theorem groups_labelled (labelled : LabelsById inputs) :
    ∀ group ∈ groupAll (inputContributions inputs), ∀ first ∈ group.2, ∀ second ∈ group.2,
      first.2.labels = second.2.labels := by
  intro group member first inFirst second inSecond
  have items := lookup_of_mem (groupAll_sorted _) member
  rw [lookup_groupAll] at items
  rw [← items] at inFirst inSecond
  obtain ⟨firstEntry, firstMember, rfl⟩ := mem_map.mp inFirst
  obtain ⟨secondEntry, secondMember, rfl⟩ := mem_map.mp inSecond
  obtain ⟨firstInside, firstKey⟩ := mem_filter.mp firstMember
  obtain ⟨secondInside, secondKey⟩ := mem_filter.mp secondMember
  refine labelled firstEntry firstInside secondEntry secondInside ?_
  rw [of_decide_eq_true firstKey, of_decide_eq_true secondKey]

theorem buildRewrite_rewritten {build : MetricRewriteBuild} (labelled : LabelsById inputs)
    (accepted : buildRewrite provenance inputs (requests.map ApplicableRequest.ofRequest) = .ok build) :
    (∀ seriesId, SeriesRewritten requests (bucketSeries selection provenance inputs seriesId)
        (writtenSeries selection build.series seriesId)) ∧
      build.inputSampleCount = build.outputSampleCount + (build.drops.map RewriteDrop.droppedCount).sum := by
  rw [buildRewrite] at accepted
  cases looped : rewriteSeries provenance (requests.map ApplicableRequest.ofRequest)
      ⟨0, 0, List.replicate (requests.map ApplicableRequest.ofRequest).length 0⟩
      (groupAll (inputContributions inputs)) with
  | error failure =>
    rw [looped] at accepted
    cases accepted
  | ok result =>
    obtain ⟨tally, series⟩ := result
    rw [looped] at accepted
    cases accepted
    obtain ⟨keepsBalance, rewritten⟩ := rewriteSeries_rewritten selection (groups_labelled labelled) looped
    have balanced := keepsBalance ⟨by simp, by simp⟩
    refine ⟨fun seriesId => ?_, ?_⟩
    · have own := rewritten seriesId
      rw [flatMap_filter (groupAll_sorted _), lookup_groupAll] at own
      exact own
    · have counts : (List.zipWith (fun (request : ApplicableRequest) count => RewriteDrop.mk request.requestId count)
          (requests.map ApplicableRequest.ofRequest) tally.droppedCounts).map RewriteDrop.droppedCount =
            tally.droppedCounts := by
        have aligned : tally.droppedCounts.length ≤ (requests.map ApplicableRequest.ofRequest).length := by
          rw [balanced.charged, length_map]
        have second := map_snd_zip aligned
        rw [map_zip_eq_zipWith] at second
        rw [map_zipWith]
        exact second
      change _ = _ + (List.map RewriteDrop.droppedCount (List.zipWith _ _ _)).sum
      rw [counts]
      exact balanced.conserved

/-- The entries beside survivors are as many as the survivors. -/
theorem length_keptBeside {Item : Type} (keep : Sample Value → Bool) {samples : List (Sample Value)}
    {items : List Item} (parallel : items.length = samples.length) :
    (keptBeside keep samples items).length = (samples.filter keep).length := by
  have firsts : (samples.zip items).map Prod.fst = samples := map_fst_zip (le_of_eq parallel.symm)
  have kept : samples.filter keep = ((samples.zip items).filter fun pair => keep pair.1).map Prod.fst := by
    nth_rewrite 1 [← firsts]
    rw [filter_map]
    rfl
  rw [kept, keptBeside, length_map, length_map]

theorem compactParallel_wellFormed {run : RunOutput Value} (formed : run.served.WellFormed)
    (matching : List ErasurePredicate) : (compactParallel run matching).served.WellFormed := by
  by_cases all : (run.samples.all fun sample => sampleSurvives sample.tsNs matching) = true
  · rw [compactParallel_of_all run all]
    exact formed
  · obtain ⟨triple, samples, provenance⟩ := run
    have ascending : Ascending samples := by
      cases provenance <;> exact formed.ascending
    have parallel : (pinRunWidePositions provenance triple samples.length).length = samples.length := by
      cases provenance with
      | none => simp [pinRunWidePositions, pinnedColumn]
      | some column => exact formed.parallel column rfl
    rw [compactParallel_served ⟨triple, samples, provenance⟩ all rfl parallel]
    refine ⟨ascending.filter _, ?_⟩
    intro column source
    cases source
    exact length_keptBeside _ parallel

theorem retainOne_wellFormed {series kept : FetchedSeries Value} (formed : series.served.WellFormed)
    (retained : retainOne (snapshotPendingErasurePredicates requests) series = some kept) : kept.served.WellFormed := by
  by_cases targeted : Targeted requests series.labels
  · rw [retainOne_of_targeted series rfl targeted] at retained
    split at retained <;> cases retained
    exact compactParallel_wellFormed formed _
  · rw [retainOne_of_not_targeted targeted] at retained
    cases retained
    exact formed

variable {Key : Type} [LinearOrder Key]

variable (order : CandidateOrder Value Key) {requests : List ErasureRequest}

theorem mergeRunsBy_perm {first second : List (SeriesRun Value)} (formed : ∀ run ∈ second, run.WellFormed)
    (reordered : first.Perm second) (budget : YieldBudget) :
    mergeRunsBy order.greater first budget = mergeRunsBy order.greater second budget :=
  mergeRunsBy_congr order (fun run member => formed run (reordered.mem_iff.mp member)) formed
    (fun _ => (runsEntries_perm reordered).mem_iff) budget

/-- A rewritten series is served like its excluded live runs beside any other runs, with the exclusion still applied
or no longer applied to the rewritten runs. -/
theorem SeriesRewritten.merge_eq {live rewritten others original after : List (FetchedSeries Value)}
    (spec : SeriesRewritten requests live rewritten) (formed : ∀ series ∈ original, series.served.WellFormed)
    (before : original.Perm (live ++ others)) (budget : YieldBudget)
    (replaced : after.Perm (rewritten ++ retainSeriesBy others (snapshotPendingErasurePredicates requests))) :
    mergeRunsBy order.greater (after.map FetchedSeries.served) budget =
      mergeRunsBy order.greater ((retainSeriesBy original (snapshotPendingErasurePredicates requests)).map
        FetchedSeries.served) budget := by
  refine mergeRunsBy_perm order ?_ ?_ budget
  · intro run member
    obtain ⟨kept, inRetained, rfl⟩ := mem_map.mp member
    rw [retainSeriesBy_eq] at inRetained
    obtain ⟨series, inOriginal, retained⟩ := mem_filterMap.mp inRetained
    exact retainOne_wellFormed (formed series inOriginal) retained
  · have both : (rewritten ++ retainSeriesBy others (snapshotPendingErasurePredicates requests)).map
        FetchedSeries.served = (retainSeriesBy (live ++ others) (snapshotPendingErasurePredicates requests)).map
          FetchedSeries.served := by
      rw [map_append, spec.served, retainSeriesBy_eq, retainSeriesBy_eq, retainSeriesBy_eq,
        filterMap_append, map_append]
    refine (replaced.map FetchedSeries.served).trans ?_
    rw [both, retainSeriesBy_eq, retainSeriesBy_eq]
    exact ((before.filterMap _).map _).symm

/-- The exclusion leaves rewritten series alone. -/
theorem SeriesRewritten.retain_perm {live rewritten others after : List (FetchedSeries Value)}
    (spec : SeriesRewritten requests live rewritten) (replaced : after.Perm (rewritten ++ others)) :
    (retainSeriesBy after (snapshotPendingErasurePredicates requests)).Perm
      (rewritten ++ retainSeriesBy others (snapshotPendingErasurePredicates requests)) := by
  have settled : rewritten.filterMap (retainOne (snapshotPendingErasurePredicates requests)) = rewritten := by
    rw [filterMap_congr spec.settled, filterMap_some]
  have excluded := replaced.filterMap (retainOne (snapshotPendingErasurePredicates requests))
  rw [filterMap_append, settled] at excluded
  rw [retainSeriesBy_eq, retainSeriesBy_eq]
  exact excluded

/-- Beside any other runs of the series, in any order, the written runs are served like the excluded live runs: when
the exclusion still filters every run, and when it filters the other runs only. -/
def KeepsWinners (retain : List (FetchedSeries Value) → List (FetchedSeries Value))
    (merge : List (SeriesRun Value) → YieldBudget → Except QueryError (YieldBudget × List (Sample Value)))
    (live written : List (FetchedSeries Value)) : Prop :=
  ∀ (others original after : List (FetchedSeries Value)) (budget : YieldBudget),
    (∀ series ∈ original, series.served.WellFormed) → original.Perm (live ++ others) →
      (after.Perm (written ++ others) →
        merge ((retain after).map FetchedSeries.served) budget =
          merge ((retain original).map FetchedSeries.served) budget) ∧
      (after.Perm (written ++ retain others) →
        merge (after.map FetchedSeries.served) budget = merge ((retain original).map FetchedSeries.served) budget)

theorem SeriesRewritten.keepsWinners {live rewritten : List (FetchedSeries Value)}
    (spec : SeriesRewritten requests live rewritten) :
    KeepsWinners (fun series => retainSeriesBy series (snapshotPendingErasurePredicates requests))
      (mergeRunsBy order.greater) live rewritten := by
  intro others original after budget formed before
  refine ⟨?_, ?_⟩
  · intro replaced
    exact spec.merge_eq order formed before budget (spec.retain_perm replaced)
  · intro replaced
    exact spec.merge_eq order formed before budget replaced

/-- After a rewrite the query merge yields what it yields over the live runs under the pending requests, for every
series and kind, and every input sample is either written or charged to one request. -/
theorem metric_rewrite_keeps_winners (provenance : RunProvenance) (inputs : List RewriteInput)
    (requests : List ErasureRequest) (build : MetricRewriteBuild) (labelled : LabelsById inputs)
    (accepted : buildRewrite provenance inputs (requests.map ApplicableRequest.ofRequest) = .ok build) :
    (∀ seriesId,
      KeepsWinners (fun series => retainSeriesSoa series (snapshotPendingErasurePredicates requests)) mergeSeriesRuns
        (bucketSeries scalarSelection provenance inputs seriesId)
        (writtenSeries scalarSelection build.series seriesId) ∧
      KeepsWinners (fun series => retainHistogramSeries series (snapshotPendingErasurePredicates requests))
        mergeHistogramSeriesRuns
        (bucketSeries histogramSelection provenance inputs seriesId)
        (writtenSeries histogramSelection build.series seriesId)) ∧
      build.inputSampleCount = build.outputSampleCount + (build.drops.map RewriteDrop.droppedCount).sum := by
  obtain ⟨scalars, conserved⟩ := buildRewrite_rewritten scalarSelection labelled accepted
  obtain ⟨histograms, -⟩ := buildRewrite_rewritten histogramSelection labelled accepted
  refine ⟨fun seriesId => ⟨?_, ?_⟩, conserved⟩
  · exact (scalars seriesId).keepsWinners scalarOrder
  · exact (histograms seriesId).keepsWinners histogramOrder

/-- A windowed request over the series of one user. -/
def userWindow : ErasureRequest :=
  ⟨"r1", [("user", "ann")], 15, 25⟩

/-- One stored part of the user's series, whose second run has a provenance column. -/
def storedPart : RewriteInput where
  catalog := ⟨"part", [⟨5, [("user", "ann")],
    .scalar [⟨⟨9, 1, 1⟩, [⟨10, 1⟩, ⟨20, 2⟩, ⟨30, 3⟩]⟩, ⟨⟨9, 1, 1⟩, [⟨20, 4⟩, ⟨30, 5⟩, ⟨30, 6⟩]⟩]⟩], []⟩
  storedRuns := [(5, [⟨⟨7, 1, 1⟩, none⟩, ⟨⟨7, 1, 1⟩, some [⟨7, 1, 1, 0⟩, ⟨7, 1, 1, 2⟩, ⟨7, 1, 1, 1⟩]⟩])]

example : (buildRewrite .stored [storedPart] [.ofRequest userWindow]).toOption.map (fun build =>
    ((writtenSeries scalarSelection build.series 5).map fun series => series.run, build.drops)) =
      some ([⟨⟨7, 1, 1⟩, [⟨10, 1⟩, ⟨30, 3⟩], some [⟨7, 1, 1, 0⟩, ⟨7, 1, 1, 2⟩]⟩,
        ⟨⟨7, 1, 1⟩, [⟨30, 5⟩, ⟨30, 6⟩], some [⟨7, 1, 1, 2⟩, ⟨7, 1, 1, 1⟩]⟩], [⟨"r1", 2⟩]) := by
  decide

/-- The live runs of the stored part have the provenance that its own catalog stores. -/
theorem storedPart_live : bucketSeries scalarSelection .stored [storedPart] 5 =
    [⟨[("user", "ann")], ⟨⟨7, 1, 1⟩, [⟨10, 1⟩, ⟨20, 2⟩, ⟨30, 3⟩], none⟩⟩,
      ⟨[("user", "ann")], ⟨⟨7, 1, 1⟩, [⟨20, 4⟩, ⟨30, 5⟩, ⟨30, 6⟩],
        some [⟨7, 1, 1, 0⟩, ⟨7, 1, 1, 2⟩, ⟨7, 1, 1, 1⟩]⟩⟩] := by
  decide

/-- The rewrite of the stored part keeps the winners at 10 and 30. -/
theorem metric_rewrite_keeps_stored_winners :
    ∃ build, buildRewrite .stored [storedPart] [.ofRequest userWindow] = .ok build ∧
      mergeSeriesRuns ((writtenSeries scalarSelection build.series 5).map FetchedSeries.served) ⟨0, 9⟩ =
        mergeSeriesRuns ((retainSeriesSoa (bucketSeries scalarSelection .stored [storedPart] 5)
          (snapshotPendingErasurePredicates [userWindow])).map FetchedSeries.served) ⟨0, 9⟩ ∧
      build.inputSampleCount = build.outputSampleCount + (build.drops.map RewriteDrop.droppedCount).sum := by
  have succeeds : (buildRewrite .stored [storedPart] [.ofRequest userWindow]).isOk = true := by decide
  cases built : buildRewrite .stored [storedPart] [.ofRequest userWindow] with
  | error failure =>
    rw [built] at succeeds
    cases succeeds
  | ok build =>
    have labelled : LabelsById [storedPart] := by
      simp [LabelsById, inputContributions, storedPart]
    obtain ⟨winners, conserved⟩ :=
      metric_rewrite_keeps_winners .stored [storedPart] [userWindow] build labelled built
    have formed : ∀ series ∈ bucketSeries scalarSelection .stored [storedPart] 5, series.served.WellFormed := by
      rw [storedPart_live, forall_mem_cons, forall_mem_singleton]
      refine ⟨⟨?_, ?_⟩, ⟨?_, ?_⟩⟩
      · simp [FetchedSeries.served, RunOutput.served, Ascending]
      · intro column source
        cases source
      · simp [FetchedSeries.served, RunOutput.served, Ascending]
      · intro column source
        cases source
        rfl
    refine ⟨build, rfl, ?_, conserved⟩
    exact ((winners 5).1 [] _ _ ⟨0, 9⟩ formed (by rw [append_nil])).2
      (Perm.of_eq (append_nil _).symm)

end Ravel.Erasure
