import Ravel.Proof.Metrics.RunReplacement

namespace Ravel.Metrics

open List hiding lookup
open SortedGroups Library

/-- The scalar runs of a series. A histogram series has none. -/
def KindRuns.scalarRuns {Run : Type → Type} : KindRuns Run → List (Run UInt64)
  | .scalar runs => runs
  | .histogram _ => []

/-- The histogram runs of a series. A scalar series has none. -/
def KindRuns.histogramRuns {Run : Type → Type} : KindRuns Run → List (Run HistogramValue)
  | .scalar _ => []
  | .histogram runs => runs

/-- The runs that a projection finds in one series' plans over all inputs. -/
def catalogRuns {Value : Type} (runs : KindRuns RunPlan → List (RunPlan Value)) (catalogs : List InputCatalog)
    (seriesId : SeriesId) : List (SeriesRun Value) :=
  (((catalogPlans catalogs).filter fun entry => entry.1 = seriesId).flatMap fun entry => runs entry.2.runs).map
    RunPlan.served

/-- The runs that a projection finds in one series over a list of written series. -/
def outputRuns {Value : Type} (runs : KindRuns RunOutput → List (RunOutput Value)) (series : List SeriesOutput)
    (seriesId : SeriesId) : List (SeriesRun Value) :=
  ((series.filter fun output => output.seriesId = seriesId).flatMap fun output => runs output.runs).map
    RunOutput.served

/-- All series of a list of parts, in order. -/
def partsSeries (parts : List BuiltPart) : List SeriesOutput :=
  parts.flatMap BuiltPart.series

/-- All exemplars of a list of parts, in order. -/
def partsExemplars (parts : List BuiltPart) : List Exemplar :=
  parts.flatMap BuiltPart.exemplars

/-- A projection that a join of plans concatenates. -/
def Concatenates {Run : Type → Type} {Value : Type} (runs : KindRuns Run → List (Run Value)) : Prop :=
  ∀ first second joined, first.join? second = some joined → runs joined = runs first ++ runs second

variable {Run : Type → Type} {Value : Type} {runs : KindRuns RunPlan → List (RunPlan Value)}
  {builds : List SeriesBuild} {original : List (SeriesId × List Exemplar)} {total : Nat} {state : PartsState}
  {maxL1PartBytes : Nat} {outputs : List SeriesOutput} (catalogs : List InputCatalog) {inputCount : Nat}
  {parts : List BuiltPart}

theorem scalarRuns_concatenates : Concatenates (@KindRuns.scalarRuns Run) := by
  intro first second joined same
  cases first <;> cases second <;> cases same <;> rfl

theorem histogramRuns_concatenates : Concatenates (@KindRuns.histogramRuns Run) := by
  intro first second joined same
  cases first <;> cases second <;> cases same <;> rfl

theorem joinContributions_ok (concatenates : Concatenates runs) {seriesId : SeriesId}
    {first joined : KindRuns RunPlan} {plans : List SeriesPlan}
    (accepted : joinContributions seriesId first plans = .ok joined) :
    runs joined = runs first ++ plans.flatMap fun plan => runs plan.runs := by
  induction plans generalizing first with
  | nil =>
    cases accepted
    simp
  | cons plan rest ih =>
    unfold joinContributions at accepted
    cases step : first.join? plan.runs with
    | none =>
      rw [step] at accepted
      cases accepted
    | some next =>
      rw [step] at accepted
      rw [ih accepted, concatenates _ _ _ step, flatMap_cons, append_assoc]

theorem seriesBuilds_ok (concatenates : Concatenates runs) {groups : List (SeriesId × List SeriesPlan)}
    (nonempty : ∀ group ∈ groups, group.2 ≠ []) (accepted : seriesBuilds groups = .ok builds) :
    builds.map SeriesBuild.seriesId = groups.map Prod.fst ∧
      ∀ seriesId, ((builds.filter fun build => build.seriesId = seriesId).flatMap fun build => runs build.runs) =
        ((groups.filter fun group => group.1 = seriesId).flatMap Prod.snd).flatMap fun plan => runs plan.runs := by
  induction groups generalizing builds with
  | nil =>
    cases accepted
    exact ⟨rfl, fun _ => rfl⟩
  | cons group rest ih =>
    obtain ⟨groupId, plans⟩ := group
    rw [forall_mem_cons] at nonempty
    cases plans with
    | nil => exact absurd rfl nonempty.1
    | cons first others =>
      unfold seriesBuilds at accepted
      obtain ⟨joinedRuns, joined, accepted⟩ := ok_of_bind accepted
      obtain ⟨tail, inner, accepted⟩ := ok_of_bind accepted
      cases accepted
      obtain ⟨ids, held⟩ := ih nonempty.2 inner
      refine ⟨by rw [map_cons, ids, map_cons], ?_⟩
      intro seriesId
      by_cases same : groupId = seriesId
      · rw [filter_cons_of_pos (by simpa using same), filter_cons_of_pos (by simpa using same),
          flatMap_cons, flatMap_cons, flatMap_append, held,
          joinContributions_ok concatenates joined, flatMap_cons]
      · rw [filter_cons_of_neg (by simpa using same), filter_cons_of_neg (by simpa using same),
          held]

/-- A materialized series keeps its id, and its written runs have the candidates of its planned runs. -/
structure Conserves (build : SeriesBuild) (output : SeriesOutput) : Prop where
  seriesId : output.seriesId = build.seriesId
  scalar : (runsEntries (output.runs.scalarRuns.map RunOutput.served)).Perm
    (runsEntries (build.runs.scalarRuns.map RunPlan.served))
  histogram : (runsEntries (output.runs.histogramRuns.map RunOutput.served)).Perm
    (runsEntries (build.runs.histogramRuns.map RunPlan.served))

/-- Both branches of the materialization conserve the series. -/
theorem materializeSeries_conserves {build : SeriesBuild} {output : SeriesOutput}
    (accepted : materializeSeries build = .ok output) : Conserves build output := by
  obtain ⟨seriesId, labels, runs⟩ := build
  unfold materializeSeries at accepted
  split at accepted
  · cases accepted
  · cases accepted
  · rename_i only same
    cases accepted
    cases same
    exact ⟨rfl, Perm.refl _, Perm.refl _⟩
  · rename_i only same
    cases accepted
    cases same
    exact ⟨rfl, Perm.refl _, Perm.refl _⟩
  · rename_i several _ _ same
    cases same
    obtain ⟨run, merged, accepted⟩ := ok_of_bind accepted
    cases accepted
    exact ⟨rfl, (mergedRun_spec sortMergedScalar_timeSort merged).2, Perm.refl _⟩
  · rename_i several _ _ same
    cases same
    obtain ⟨run, merged, accepted⟩ := ok_of_bind accepted
    cases accepted
    exact ⟨rfl, Perm.refl _, (mergedRun_spec sortMergedHistogram_timeSort merged).2⟩

/-- The series of a state: those in parts and those pending. -/
def PartsState.allSeries (state : PartsState) : List SeriesOutput :=
  partsSeries state.parts ++ state.pending

/-- The exemplars of a state: those in parts and those pending. -/
def PartsState.allExemplars (state : PartsState) : List Exemplar :=
  partsExemplars state.parts ++ state.pendingExemplars

/-- Every exemplar names a series that stands beside it. -/
def Placed (exemplars : List Exemplar) (series : List SeriesOutput) : Prop :=
  ∀ record ∈ exemplars, record.seriesId ∈ series.map SeriesOutput.seriesId

/-- The bookkeeping of exemplars: those assigned and those still grouped are the original ones. -/
structure Tracked (original : List (SeriesId × List Exemplar)) (total : Nat) (state : PartsState) : Prop where
  sorted : Sorted state.exemplarsBySeries
  keyed : ∀ seriesId, ∀ record ∈ lookup seriesId state.exemplarsBySeries, record.seriesId = seriesId
  conserved : ∀ seriesId, ((state.allExemplars.filter fun record => record.seriesId = seriesId) ++
    lookup seriesId state.exemplarsBySeries).Perm (lookup seriesId original)
  counted : state.exemplarsAssigned + size state.exemplarsBySeries = total
  placed : ∀ part ∈ state.parts, Placed part.exemplars part.series
  pendingPlaced : Placed state.pendingExemplars state.pending

/-- A flush moves the pending series into a part and loses nothing. -/
theorem flush_allSeries (state : PartsState) : state.flush.allSeries = state.allSeries := by
  simp [PartsState.flush, PartsState.allSeries, partsSeries]

theorem flush_allExemplars (state : PartsState) : state.flush.allExemplars = state.allExemplars := by
  simp [PartsState.flush, PartsState.allExemplars, partsExemplars]

theorem Tracked.flush (tracked : Tracked original total state) : Tracked original total state.flush where
  sorted := tracked.sorted
  keyed := tracked.keyed
  conserved := by
    rw [flush_allExemplars]
    exact tracked.conserved
  counted := tracked.counted
  placed part member := by
    rcases mem_append.mp member with earlier | last
    · exact tracked.placed part earlier
    · rw [mem_singleton.mp last]
      exact tracked.pendingPlaced
  pendingPlaced record member := by cases member

/-- The state after a series joined the pending part and before the size check. -/
def PartsState.joined (sizes : PageSizes) (state : PartsState) (series : SeriesOutput) : PartsState :=
  { state with
    pending := state.pending ++ [series]
    pendingExemplars := state.pendingExemplars ++ lookup series.seriesId state.exemplarsBySeries
    estimate := (lookup series.seriesId state.exemplarsBySeries).foldl PartSizeEstimate.pushExemplar
      (state.estimate.pushSeries sizes series)
    exemplarsBySeries := remove series.seriesId state.exemplarsBySeries
    exemplarsAssigned := state.exemplarsAssigned + (lookup series.seriesId state.exemplarsBySeries).length }

theorem addSeries_eq (sizes : PageSizes) (maxL1PartBytes : Nat) (state : PartsState) (series : SeriesOutput) :
    state.addSeries sizes maxL1PartBytes series =
      if maxL1PartBytes ≤ (state.joined sizes series).estimate.bytes then (state.joined sizes series).flush
      else state.joined sizes series :=
  rfl

/-- A joining series takes its exemplars along. -/
theorem Tracked.joined (tracked : Tracked original total state) (sizes : PageSizes) (series : SeriesOutput) :
    Tracked original total (state.joined sizes series) where
  sorted := remove_sorted _ tracked.sorted
  keyed seriesId record member := by
    simp only [PartsState.joined, lookup_remove] at member
    split at member
    · cases member
    · exact tracked.keyed seriesId record member
  conserved seriesId := by
    have moved : (state.joined sizes series).allExemplars =
        state.allExemplars ++ lookup series.seriesId state.exemplarsBySeries := by
      simp [PartsState.joined, PartsState.allExemplars]
    have before := tracked.conserved seriesId
    rw [moved, filter_append]
    simp only [PartsState.joined, lookup_remove]
    by_cases same : seriesId = series.seriesId
    · subst same
      have all : (lookup series.seriesId state.exemplarsBySeries).filter
          (fun record => record.seriesId = series.seriesId) = lookup series.seriesId state.exemplarsBySeries :=
        filter_eq_self.mpr fun record member => by simpa using tracked.keyed _ record member
      rw [if_pos rfl, all, append_nil]
      exact before
    · have none : (lookup series.seriesId state.exemplarsBySeries).filter
          (fun record => record.seriesId = seriesId) = [] := by
        refine filter_eq_nil_iff.mpr fun record member => ?_
        rw [tracked.keyed _ record member]
        simpa using Ne.symm same
      rw [if_neg same, none, append_nil]
      exact before
  counted := by
    have taken := size_remove series.seriesId tracked.sorted
    have before := tracked.counted
    simp only [PartsState.joined]
    omega
  placed := tracked.placed
  pendingPlaced record member := by
    simp only [PartsState.joined, map_append, mem_append] at member ⊢
    rcases member with earlier | taken
    · exact .inl (tracked.pendingPlaced record earlier)
    · exact .inr (by simp [tracked.keyed _ record taken])

/-- One turn of the loop appends its series and keeps the bookkeeping. -/
theorem addSeries_spec (tracked : Tracked original total state) (sizes : PageSizes) (maxL1PartBytes : Nat)
    (series : SeriesOutput) : (state.addSeries sizes maxL1PartBytes series).allSeries = state.allSeries ++ [series] ∧
      Tracked original total (state.addSeries sizes maxL1PartBytes series) := by
  have appended : (state.joined sizes series).allSeries = state.allSeries ++ [series] := by
    simp [PartsState.joined, PartsState.allSeries]
  rw [addSeries_eq]
  split
  · rw [flush_allSeries]
    exact ⟨appended, (tracked.joined sizes series).flush⟩
  · exact ⟨appended, tracked.joined sizes series⟩

/-- A whole run of the loop appends one conserving series for each build plan. -/
theorem partsLoop_ok {sizes : PageSizes} {final : PartsState} (tracked : Tracked original total state)
    (looped : partsLoop sizes maxL1PartBytes state builds = .ok final) : Tracked original total final ∧
      ∃ outputs, Forall₂ Conserves builds outputs ∧ final.allSeries = state.allSeries ++ outputs := by
  induction builds generalizing state with
  | nil =>
    cases looped
    exact ⟨tracked, [], Forall₂.nil, (append_nil _).symm⟩
  | cons build rest ih =>
    unfold partsLoop at looped
    obtain ⟨series, materialized, looped⟩ := ok_of_bind looped
    obtain ⟨appended, stepTracked⟩ := addSeries_spec tracked sizes maxL1PartBytes series
    obtain ⟨finalTracked, outputs, conserves, same⟩ := ih stepTracked looped
    refine ⟨finalTracked, series :: outputs, ?_, ?_⟩
    · exact Forall₂.cons (materializeSeries_conserves materialized) conserves
    · rw [same, appended, append_assoc, singleton_append]

theorem outputRuns_perm {planned : KindRuns RunPlan → List (RunPlan Value)}
    {written : KindRuns RunOutput → List (RunOutput Value)}
    (project : ∀ build output, Conserves build output → (runsEntries ((written output.runs).map RunOutput.served)).Perm (runsEntries ((planned build.runs).map RunPlan.served)))
    (conserves : Forall₂ Conserves builds outputs) (seriesId : SeriesId) :
    (runsEntries (outputRuns written outputs seriesId)).Perm
      (runsEntries (((builds.filter fun build => build.seriesId = seriesId).flatMap fun build =>
        planned build.runs).map RunPlan.served)) := by
  induction conserves with
  | nil => exact Perm.refl _
  | @cons build output restBuilds restOutputs conserved _ ih =>
    unfold outputRuns at ih ⊢
    by_cases same : build.seriesId = seriesId
    · rw [filter_cons_of_pos (by simpa [conserved.seriesId] using same),
        filter_cons_of_pos (by simpa using same), flatMap_cons, flatMap_cons, map_append,
        map_append, runsEntries, runsEntries, flatMap_append, flatMap_append]
      exact (project build output conserved).append ih
    · rw [filter_cons_of_neg (by simpa [conserved.seriesId] using same),
        filter_cons_of_neg (by simpa using same)]
      exact ih

/-- Conserving series have the ids of their build plans. -/
theorem seriesId_eq_of_conserves (conserves : Forall₂ Conserves builds outputs) :
    outputs.map SeriesOutput.seriesId = builds.map SeriesBuild.seriesId := by
  induction conserves with
  | nil => rfl
  | cons conserved _ ih => rw [map_cons, map_cons, ih, conserved.seriesId]

/-- The parts of a compaction, compared with its inputs. -/
structure PartsConserve (catalogs : List InputCatalog) (parts : List BuiltPart) : Prop where
  ascending : ((partsSeries parts).map SeriesOutput.seriesId).Pairwise (· < ·)
  ids : ∀ seriesId, seriesId ∈ (partsSeries parts).map SeriesOutput.seriesId ↔
    seriesId ∈ (catalogPlans catalogs).map Prod.fst
  scalar : ∀ seriesId, (runsEntries (outputRuns KindRuns.scalarRuns (partsSeries parts) seriesId)).Perm
    (runsEntries (catalogRuns KindRuns.scalarRuns catalogs seriesId))
  histogram : ∀ seriesId, (runsEntries (outputRuns KindRuns.histogramRuns (partsSeries parts) seriesId)).Perm
    (runsEntries (catalogRuns KindRuns.histogramRuns catalogs seriesId))
  exemplars : ∀ seriesId, ((partsExemplars parts).filter fun record => record.seriesId = seriesId).Perm
    ((catalogs.flatMap InputCatalog.exemplars).filter fun record => record.seriesId = seriesId)
  placed : ∀ part ∈ parts, Placed part.exemplars part.series

theorem lookup_catalogExemplars (seriesId : SeriesId) : lookup seriesId (groupAll (catalogExemplars catalogs)) =
      (catalogs.flatMap InputCatalog.exemplars).filter fun record => record.seriesId = seriesId := by
  rw [lookup_groupAll, catalogExemplars]
  induction catalogs with
  | nil => rfl
  | cons catalog rest ih =>
    rw [flatMap_cons, flatMap_cons, filter_append, filter_append, map_append, ih,
      filter_map, map_map]
    congr 1
    exact map_id _

/-- A successful compaction planned its series, ran the loop and assigned every exemplar. -/
theorem buildParts_ok {sizes : PageSizes} {catalogs : List InputCatalog}
    (built : buildParts sizes maxL1PartBytes inputCount catalogs = .ok parts) :
    ∃ builds looped, seriesBuilds (groupAll (catalogPlans catalogs)) = .ok builds ∧
      partsLoop sizes maxL1PartBytes (.start catalogs) builds = .ok looped ∧
      looped.finish.exemplarsAssigned = (catalogExemplars catalogs).length ∧ parts = looped.finish.parts := by
  unfold buildParts at built
  split at built
  · cases built
  obtain ⟨builds, planned, built⟩ := ok_of_bind built
  obtain ⟨final, looped, built⟩ := ok_of_bind built
  dsimp only at built
  split at built
  · cases built
  · rename_i assigned
    cases built
    exact ⟨builds, final, planned, looped, not_not.mp assigned, rfl⟩

/-- The finished state has no pending series, and it keeps the series and the bookkeeping. -/
theorem finish_spec (tracked : Tracked original total state) :
    partsSeries state.finish.parts = state.allSeries ∧ Tracked original total state.finish ∧
      (partsExemplars state.finish.parts = state.finish.allExemplars) := by
  unfold PartsState.finish
  split
  · rename_i empty
    have noPending : state.pending = [] := List.isEmpty_iff.mp empty
    have noExemplars : state.pendingExemplars = [] := by
      refine eq_nil_iff_forall_not_mem.mpr fun record member => ?_
      have beside := tracked.pendingPlaced record member
      rw [noPending] at beside
      cases beside
    refine ⟨?_, tracked, ?_⟩
    · rw [PartsState.allSeries, noPending, append_nil]
    · rw [PartsState.allExemplars, noExemplars, append_nil]
  · refine ⟨?_, tracked.flush, ?_⟩
    · rw [← flush_allSeries, PartsState.allSeries]
      exact (append_nil _).symm
    · exact (append_nil _).symm

theorem start_tracked :
    Tracked (groupAll (catalogExemplars catalogs)) (catalogExemplars catalogs).length (.start catalogs) where
  sorted := groupAll_sorted _
  keyed seriesId record member := by
    simp only [PartsState.start, lookup_catalogExemplars, mem_filter, decide_eq_true_eq] at member
    exact member.2
  conserved seriesId := Perm.refl _
  counted := by
    simp only [PartsState.start, size_groupAll, Nat.zero_add]
  placed part member := by cases member
  pendingPlaced record member := by cases member

/-- The compactor conserves samples and exemplars and splits the series by id. -/
theorem buildParts_conserve {sizes : PageSizes} {catalogs : List InputCatalog}
    (built : buildParts sizes maxL1PartBytes inputCount catalogs = .ok parts) : PartsConserve catalogs parts := by
  obtain ⟨builds, looped, planned, ran, assigned, rfl⟩ := buildParts_ok built
  obtain ⟨keys, nonempty⟩ := groupAll_keys (catalogPlans catalogs)
  have sorted := groupAll_sorted (catalogPlans catalogs)
  obtain ⟨tracked, outputs, conserves, series⟩ := partsLoop_ok (start_tracked catalogs) ran
  obtain ⟨finalSeries, finalTracked, finalExemplars⟩ := finish_spec tracked
  rw [show (PartsState.start catalogs).allSeries = [] from rfl, nil_append] at series
  rw [series] at finalSeries
  obtain ⟨ids, scalarRuns⟩ := seriesBuilds_ok scalarRuns_concatenates nonempty planned
  obtain ⟨-, histogramRuns⟩ := seriesBuilds_ok histogramRuns_concatenates nonempty planned
  have outputIds := (seriesId_eq_of_conserves conserves).trans ids
  have plans : ∀ seriesId, (((groupAll (catalogPlans catalogs)).filter fun group => group.1 = seriesId).flatMap
      Prod.snd) = ((catalogPlans catalogs).filter fun entry => entry.1 = seriesId).map Prod.snd := by
    intro seriesId
    rw [flatMap_filter sorted, lookup_groupAll]
  refine ⟨?_, ?_, ?_, ?_, ?_, finalTracked.placed⟩
  · rw [finalSeries, outputIds]
    exact pairwise_map.mpr sorted
  · intro seriesId
    rw [finalSeries, outputIds]
    exact keys seriesId
  · intro seriesId
    have conserved := outputRuns_perm (fun _ _ kept => kept.scalar) conserves seriesId
    rw [scalarRuns, plans, flatMap_map] at conserved
    rw [finalSeries]
    exact conserved
  · intro seriesId
    have conserved := outputRuns_perm (fun _ _ kept => kept.histogram) conserves seriesId
    rw [histogramRuns, plans, flatMap_map] at conserved
    rw [finalSeries]
    exact conserved
  · intro seriesId
    have left : size looped.finish.exemplarsBySeries = 0 := by
      have counted := finalTracked.counted
      omega
    have conserved := finalTracked.conserved seriesId
    rw [lookup_eq_nil_of_size left, append_nil, ← finalExemplars, lookup_catalogExemplars] at conserved
    exact conserved

/-- The query merge yields the same samples after a subset of the runs is replaced by its merged run, or is served
beside it, and the compactor's parts conserve samples and exemplars. -/
theorem compaction_invisible_to_queries :
    (∀ (runs kept served : List (SeriesRun UInt64)) (chosen : List (RunPlan UInt64)) (merged : RunOutput UInt64)
        (budget : YieldBudget),
      (∀ run ∈ runs, run.WellFormed) → runs.Perm (kept ++ chosen.map RunPlan.served) →
      mergeScalarRuns chosen = .ok merged →
      served.Perm (kept ++ [merged.served]) ∨ served.Perm (runs ++ [merged.served]) →
      mergeSeriesRuns served budget = mergeSeriesRuns runs budget) ∧
    (∀ (runs kept served : List (SeriesRun HistogramValue)) (chosen : List (RunPlan HistogramValue))
        (merged : RunOutput HistogramValue) (budget : YieldBudget),
      (∀ run ∈ runs, run.WellFormed) → runs.Perm (kept ++ chosen.map RunPlan.served) →
      mergeHistogramRuns chosen = .ok merged →
      served.Perm (kept ++ [merged.served]) ∨ served.Perm (runs ++ [merged.served]) →
      mergeHistogramSeriesRuns served budget = mergeHistogramSeriesRuns runs budget) ∧
    ∀ (sizes : PageSizes) (maxL1PartBytes inputCount : Nat) (catalogs : List InputCatalog) (parts : List BuiltPart),
      buildParts sizes maxL1PartBytes inputCount catalogs = .ok parts → PartsConserve catalogs parts := by
  refine ⟨?_, ?_, ?_⟩
  · intro runs kept served chosen merged budget formed split accepted replaced
    exact mergeRunsBy_replaced scalarOrder sortMergedScalar_timeSort formed split accepted replaced budget
  · intro runs kept served chosen merged budget formed split accepted replaced
    exact mergeRunsBy_replaced histogramOrder sortMergedHistogram_timeSort formed split accepted replaced budget
  · intro sizes maxL1PartBytes inputCount catalogs parts built
    exact buildParts_conserve built

/-- Two runs of one write race at timestamp 20. -/
def racingRuns : List (RunPlan UInt64) :=
  [⟨⟨7, 1, 1⟩, [⟨10, 3⟩, ⟨20, 4⟩]⟩, ⟨⟨7, 1, 1⟩, [⟨20, 5⟩, ⟨20, 6⟩]⟩]

example : mergeScalarRuns racingRuns = .ok ⟨⟨7, 1, 1⟩, [⟨10, 3⟩, ⟨20, 5⟩, ⟨20, 4⟩, ⟨20, 6⟩],
    some [⟨7, 1, 1, 0⟩, ⟨7, 1, 1, 0⟩, ⟨7, 1, 1, 1⟩, ⟨7, 1, 1, 1⟩]⟩ := by
  decide

example : mergeSeriesRuns (racingRuns.map RunPlan.served) ⟨0, 9⟩ = .ok (⟨2, 9⟩, [⟨10, 3⟩, ⟨20, 6⟩]) := by
  decide

/-- The merged run of the racing runs. -/
def racedRun : RunOutput UInt64 :=
  ⟨⟨7, 1, 1⟩, [⟨10, 3⟩, ⟨20, 5⟩, ⟨20, 4⟩, ⟨20, 6⟩],
    some [⟨7, 1, 1, 0⟩, ⟨7, 1, 1, 0⟩, ⟨7, 1, 1, 1⟩, ⟨7, 1, 1, 1⟩]⟩

def emptyHistogram : HistogramValue :=
  ⟨0, 0, none, none, [], [], .int 0 0 [] [], .unknown⟩

def racingHistograms : List (RunPlan HistogramValue) :=
  [⟨⟨7, 1, 1⟩, [⟨20, emptyHistogram⟩]⟩, ⟨⟨8, 1, 1⟩, [⟨20, { emptyHistogram with scale := 1 }⟩]⟩]

def racedHistogram : RunOutput HistogramValue :=
  ⟨⟨7, 1, 1⟩, [⟨20, emptyHistogram⟩, ⟨20, { emptyHistogram with scale := 1 }⟩],
    some [⟨7, 1, 1, 0⟩, ⟨8, 1, 1, 0⟩]⟩

/-- Two inputs that carry the racing series and one exemplar. -/
def racingCatalogs : List InputCatalog :=
  [⟨"first", [⟨5, [], .scalar racingRuns⟩, ⟨9, [], .histogram racingHistograms⟩], [⟨5, 10, 3, [], [], []⟩]⟩,
    ⟨"second", [⟨5, [], .scalar racingRuns⟩], []⟩]

/-- The racing runs are merged without a visible change, and their parts conserve them. -/
theorem compaction_invisible_to_racing_queries :
    mergeSeriesRuns [racedRun.served] ⟨0, 9⟩ = mergeSeriesRuns (racingRuns.map RunPlan.served) ⟨0, 9⟩ ∧
      mergeHistogramSeriesRuns [racedHistogram.served] ⟨0, 9⟩ =
        mergeHistogramSeriesRuns (racingHistograms.map RunPlan.served) ⟨0, 9⟩ ∧
      ∃ parts, buildParts ⟨fun _ => 10, fun _ => 10⟩ 600 2 racingCatalogs = .ok parts ∧
        PartsConserve racingCatalogs parts := by
  obtain ⟨scalar, histogram, conserves⟩ := compaction_invisible_to_queries
  refine ⟨?_, ?_, ?_⟩
  · refine scalar _ [] _ racingRuns racedRun ⟨0, 9⟩ ?_ (List.Perm.refl _) (by decide) (.inl (List.Perm.refl _))
    exact served_wellFormed (by simp [racingRuns, Ascending])
  · refine histogram _ [] _ racingHistograms racedHistogram ⟨0, 9⟩ ?_ (List.Perm.refl _) (by decide)
      (.inl (List.Perm.refl _))
    exact served_wellFormed (by simp [racingHistograms, Ascending])
  · have succeeds : (buildParts ⟨fun _ => 10, fun _ => 10⟩ 600 2 racingCatalogs).isOk = true := by decide
    cases built : buildParts ⟨fun _ => 10, fun _ => 10⟩ 600 2 racingCatalogs with
    | error failure =>
      rw [built] at succeeds
      cases succeeds
    | ok parts => exact ⟨parts, rfl, conserves _ _ _ _ _ built⟩

end Ravel.Metrics
