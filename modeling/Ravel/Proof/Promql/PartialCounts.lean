import Ravel.Library.OptionalRuns
import Ravel.Proof.Promql.PooledRuns
import Ravel.Proof.Promql.SourceContract

namespace Ravel.Promql

open List Library Metrics

/-- The slice between the partition points is the closed window. -/
theorem windowSlice_eq_filter {Value : Type} {samples : List (Metrics.Sample Value)} (window : TimeRange)
    (ordered : KeyOrdered Metrics.Sample.tsNs samples) : windowSlice samples window =
      samples.filter fun sample => decide (window.startNs ≤ sample.tsNs) && decide (sample.tsNs ≤ window.endNs) := by
  induction samples with
  | nil => rfl
  | cons sample rest ih =>
    obtain ⟨after, orderedRest⟩ := pairwise_cons.mp ordered
    by_cases early : sample.tsNs < window.startNs
    · rw [filter_cons_of_neg (by simp; omega), ← ih orderedRest]
      by_cases inside : sample.tsNs ≤ window.endNs
      · simp [windowSlice, early, inside, Nat.succ_max_succ]
      · have none : rest.takeWhile (fun sample => decide (sample.tsNs ≤ window.endNs)) = [] := by
          rw [KeyOrdered.takeWhile_le orderedRest, filter_eq_nil_iff]
          intro later member
          have := after later member
          simp
          omega
        simp [windowSlice, early, inside, none]
    · have opened : ∀ later ∈ sample :: rest, window.startNs ≤ later.tsNs := by
        intro later member
        rcases mem_cons.mp member with rfl | inRest
        · omega
        · have := after later inRest
          omega
      have kept : (sample :: rest).filter (fun sample =>
            decide (window.startNs ≤ sample.tsNs) && decide (sample.tsNs ≤ window.endNs)) =
          (sample :: rest).filter fun sample => sample.tsNs ≤ window.endNs := by
        apply filter_congr
        intro later member
        simp [opened later member]
      have lo : (sample :: rest).takeWhile (fun sample => decide (sample.tsNs < window.startNs)) = [] :=
        takeWhile_cons_of_neg (by simpa using early)
      rw [kept, ← ordered.takeWhile_le]
      simp only [windowSlice, lo, length_nil, Nat.max_zero, drop_zero]
      exact (prefix_iff_eq_take.mp (List.takeWhile_prefix _)).symm

/-- The samples of a window that is closed in the slice and left-open in the filter are live ones. -/
theorem liveWithin_windowSlice {samples : List Sample} (window : TimeRange)
    (ordered : KeyOrdered Metrics.Sample.tsNs samples) :
    ((windowSlice samples window).filter fun sample => decide (window.startNs < sample.tsNs) && isLive sample) =
      liveWithin window.startNs window.endNs samples := by
  rw [windowSlice_eq_filter window ordered, filter_filter]
  apply filter_congr
  intro sample _
  by_cases after : window.startNs < sample.tsNs
  · simp [after, after.le, Bool.and_comm]
  · simp [after]

section Workers

theorem mem_groupRuns {runs : List ScalarRun} {group : SeriesId × List ScalarRun} :
    group ∈ groupRuns runs ↔ (∃ run ∈ runs, run.seriesId = group.1) ∧
      group.2 = runs.filter fun run => run.seriesId = group.1 := by
  induction runs with
  | nil => simp [groupRuns]
  | cons run rest ih =>
    rw [groupRuns, mem_cons, mem_filter, ih]
    by_cases same : run.seriesId = group.1
    · rw [filter_cons_of_pos (by simpa using same)]
      constructor
      · rintro (rfl | ⟨_, different⟩)
        · exact ⟨⟨run, mem_cons_self, rfl⟩, rfl⟩
        · exact absurd same.symm (by simpa using different)
      · rintro ⟨_, whole⟩
        refine .inl (Prod.ext same.symm ?_)
        rw [whole, same]
    · rw [filter_cons_of_neg (by simpa using same)]
      constructor
      · rintro (rfl | ⟨⟨⟨other, member, named⟩, whole⟩, _⟩)
        · exact absurd rfl same
        · exact ⟨⟨other, mem_cons_of_mem _ member, named⟩, whole⟩
      · rintro ⟨⟨other, member, named⟩, whole⟩
        rcases mem_cons.mp member with rfl | inRest
        · exact absurd named same
        · exact .inr ⟨⟨⟨other, inRest, named⟩, whole⟩, by simpa using Ne.symm same⟩

theorem nodup_groupRuns (runs : List ScalarRun) : ((groupRuns runs).map Prod.fst).Nodup := by
  induction runs with
  | nil => exact nodup_nil
  | cons run rest ih =>
    rw [groupRuns, map_cons, nodup_cons]
    refine ⟨?_, ih.sublist (filter_sublist.map _)⟩
    rw [mem_map]
    rintro ⟨group, member, same⟩
    have different := (mem_filter.mp member).2
    exact absurd same (by simpa using different)

/-- A merge within its budget yields the whole selection. -/
theorem eq_of_yieldAll {selected : List (Int × Candidate UInt64)} :
    ∀ {budget rest : YieldBudget} {out samples : List Sample}, yieldAll budget out selected = .ok (rest, samples) →
      samples = out ++ selected.map fun entry => ⟨entry.1, entry.2.value⟩ := by
  induction selected with
  | nil =>
    intro budget rest out samples yielded
    cases yielded
    simp
  | cons entry selected ih =>
    intro budget rest out samples yielded
    rw [yieldAll] at yielded
    split at yielded
    · cases yielded
    · rw [ih yielded, map_cons, append_assoc, singleton_append]

variable {startNs endNs : Int}

/-- The partial counts the samples of its label set. -/
def Counts (startNs endNs : Int) (runs : List ScalarRun) (part : PartialAggregate) : Prop :=
  ∃ samples, SamplesOf runs part.labels samples ∧ part.count = some (liveWithin startNs endNs samples).length

/-- A worker's answer has one exact partial for each of its series. -/
structure AnswerHolds (startNs endNs : Int) (runs : List ScalarRun) (partials : List PartialAggregate) : Prop where
  distinct : (partials.map PartialAggregate.labels).Nodup
  labelled : ∀ part ∈ partials, ∃ run ∈ runs, run.labels = part.labels
  found : ∀ run ∈ runs, ∃ part ∈ partials, part.labels = run.labels
  counted : ∀ part ∈ partials, Counts startNs endNs runs part

variable {runs : List ScalarRun} {partials : List PartialAggregate} {first second : List ScalarRun}

theorem reduceSeries_eq_ok (named : SeriesNamed runs) (formed : ∀ run ∈ runs, run.run.WellFormed)
    {group : SeriesId × List ScalarRun} (grouped : group ∈ groupRuns runs) {outcome : Option PartialAggregate}
    (reduced : reduceSeries startNs endNs group = .ok outcome) :
    ∃ part, outcome = some part ∧ (∃ run ∈ runs, run.seriesId = group.1 ∧ run.labels = part.labels) ∧
      Counts startNs endNs runs part := by
  obtain ⟨seriesId, members⟩ := group
  obtain ⟨⟨run, arrived, sameId⟩, whole⟩ := mem_groupRuns.mp grouped
  simp only at sameId whole
  unfold reduceSeries at reduced
  split at reduced
  · rename_i empty
    simp only at empty
    rw [empty] at whole
    have kept : run ∈ runs.filter fun run => run.seriesId = seriesId :=
      mem_filter.mpr ⟨arrived, by simpa using sameId⟩
    rw [← whole] at kept
    cases kept
  · rename_i first rest split
    simp only at split
    obtain ⟨merged, mergedOk, reduced⟩ := ok_of_bind reduced
    cases reduced
    have inGroup : first ∈ runs.filter fun run => run.seriesId = seriesId := by
      rw [← whole, split]
      exact mem_cons_self
    obtain ⟨firstArrived, firstId⟩ := mem_filter.mp inGroup
    have firstId : first.seriesId = seriesId := by simpa using firstId
    refine ⟨_, rfl, ⟨first, firstArrived, firstId, rfl⟩, merged.2, ?_, rfl⟩
    have allFormed : ∀ member ∈ members.map fun run => run.run, member.WellFormed := by
      intro member inside
      obtain ⟨run, inMembers, rfl⟩ := mem_map.mp inside
      rw [whole] at inMembers
      exact formed run (mem_filter.mp inMembers).1
    obtain ⟨selected, selects, merges⟩ := mergeRunsBy_eq scalarOrder allFormed
    have yielded : yieldAll ⟨0, usizeMax⟩ [] selected = .ok (merged.1, merged.2) :=
      (merges ⟨0, usizeMax⟩).symm.trans mergedOk
    refine ⟨selected, ?_, by simpa using eq_of_yieldAll yielded⟩
    have entries : {entry | entry ∈ runsEntries (members.map fun run => run.run)} = labelEntries runs first.labels := by
      ext entry
      simp only [Set.mem_ofPred_eq, runsEntries, flatMap_map, mem_flatMap, whole, mem_filter,
        decide_eq_true_eq]
      constructor
      · rintro ⟨other, ⟨otherArrived, otherId⟩, inside⟩
        exact ⟨other, otherArrived,
          (named other otherArrived first firstArrived).mp (otherId.trans firstId.symm), inside⟩
      · rintro ⟨other, otherArrived, sameLabels, inside⟩
        exact ⟨other, ⟨otherArrived,
          ((named other otherArrived first firstArrived).mpr sameLabels).trans firstId⟩, inside⟩
    rwa [entries] at selects

/-- A worker's answer is exact. -/
theorem reducePartialAggregates_holds (named : SeriesNamed runs) (formed : ∀ run ∈ runs, run.run.WellFormed)
    (reduced : reducePartialAggregates runs startNs endNs = .ok partials) :
    AnswerHolds startNs endNs runs partials := by
  obtain ⟨outcomes, mapped, returned⟩ := ok_of_bind reduced
  cases returned
  have onto : ∀ {groups : List (SeriesId × List ScalarRun)} {outcomes : List (Option PartialAggregate)},
      Forall₂ (fun group outcome => reduceSeries startNs endNs group = .ok outcome) groups outcomes →
      (∀ group ∈ groups, group ∈ groupRuns runs) →
      Forall₂ (fun group part => (∃ run ∈ runs, run.seriesId = group.1 ∧ run.labels = part.labels) ∧
        Counts startNs endNs runs part) groups (outcomes.filterMap id) := by
    intro groups outcomes aligned
    induction aligned with
    | nil =>
      intro _
      exact .nil
    | cons stepped _ ih =>
      intro inside
      obtain ⟨grouped, later⟩ := forall_mem_cons.mp inside
      obtain ⟨part, rfl, facts⟩ := reduceSeries_eq_ok named formed grouped stepped
      exact .cons facts (ih later)
  have parts := onto (mapM_eq_ok.mp mapped) fun _ member => member
  refine ⟨?_, ?_, ?_, ?_⟩
  · apply nodup_of_forall₂ parts (nodup_groupRuns runs)
    rintro group part otherGroup otherPart ⟨⟨run, arrived, runId, runLabels⟩, _⟩
      ⟨⟨other, otherArrived, otherId, otherLabels⟩, _⟩ same
    rw [← runId, ← otherId]
    apply (named run arrived other otherArrived).mpr
    rw [runLabels, otherLabels, same]
  · intro part member
    obtain ⟨_, _, ⟨run, arrived, _, labelled⟩, _⟩ := exists_left_of_forall₂ parts member
    exact ⟨run, arrived, labelled⟩
  · intro run arrived
    have grouped : (run.seriesId, runs.filter fun other => other.seriesId = run.seriesId) ∈ groupRuns runs :=
      mem_groupRuns.mpr ⟨⟨run, arrived, rfl⟩, rfl⟩
    obtain ⟨part, member, ⟨other, otherArrived, otherId, otherLabels⟩, _⟩ := exists_right_of_forall₂ parts grouped
    exact ⟨part, member, otherLabels.symm.trans ((named other otherArrived run arrived).mp otherId)⟩
  · intro part member
    obtain ⟨_, _, _, counted⟩ := exists_left_of_forall₂ parts member
    exact counted

theorem Counts.congr {part : PartialAggregate} (counted : Counts startNs endNs first part)
    (same : ∀ run : ScalarRun, run.labels = part.labels → (run ∈ first ↔ run ∈ second)) :
    Counts startNs endNs second part := by
  obtain ⟨samples, served, counts⟩ := counted
  exact ⟨samples, (SamplesOf.congr same).mp served, counts⟩

/-- Only the set of runs counts. -/
theorem AnswerHolds.congr (holds : AnswerHolds startNs endNs first partials)
    (same : ∀ run, run ∈ first ↔ run ∈ second) : AnswerHolds startNs endNs second partials where
  distinct := holds.distinct
  labelled part member := by
    obtain ⟨run, arrived, labelled⟩ := holds.labelled part member
    exact ⟨run, (same run).mp arrived, labelled⟩
  found run arrived := holds.found run ((same run).mpr arrived)
  counted part member := (holds.counted part member).congr fun run _ => same run

/-- The answers of two workers without a common series. -/
theorem AnswerHolds.append {more : List PartialAggregate} (left : AnswerHolds startNs endNs first partials)
    (right : AnswerHolds startNs endNs second more) (named : SeriesNamed (first ++ second))
    (apart : ∀ run ∈ first, ∀ other ∈ second, run.seriesId ≠ other.seriesId) :
    AnswerHolds startNs endNs (first ++ second) (partials ++ more) := by
  have different : ∀ run ∈ first, ∀ other ∈ second, run.labels ≠ other.labels := by
    intro run arrived other otherArrived same
    exact apart run arrived other otherArrived ((named run (mem_append_left _ arrived) other
      (mem_append_right _ otherArrived)).mpr same)
  refine ⟨?_, ?_, ?_, ?_⟩
  · rw [map_append, nodup_append]
    refine ⟨left.distinct, right.distinct, ?_⟩
    intro labels inFirst others inSecond same
    obtain ⟨part, member, rfl⟩ := mem_map.mp inFirst
    obtain ⟨otherPart, otherMember, rfl⟩ := mem_map.mp inSecond
    obtain ⟨run, arrived, labelled⟩ := left.labelled part member
    obtain ⟨other, otherArrived, otherLabelled⟩ := right.labelled otherPart otherMember
    exact different run arrived other otherArrived (by rw [labelled, otherLabelled, same])
  · intro part member
    rcases mem_append.mp member with inFirst | inSecond
    · obtain ⟨run, arrived, labelled⟩ := left.labelled part inFirst
      exact ⟨run, mem_append_left _ arrived, labelled⟩
    · obtain ⟨run, arrived, labelled⟩ := right.labelled part inSecond
      exact ⟨run, mem_append_right _ arrived, labelled⟩
  · intro run arrived
    rcases mem_append.mp arrived with inFirst | inSecond
    · obtain ⟨part, member, labelled⟩ := left.found run inFirst
      exact ⟨part, mem_append_left _ member, labelled⟩
    · obtain ⟨part, member, labelled⟩ := right.found run inSecond
      exact ⟨part, mem_append_right _ member, labelled⟩
  · intro part member
    rcases mem_append.mp member with inFirst | inSecond
    · obtain ⟨run, arrived, labelled⟩ := left.labelled part inFirst
      refine (left.counted part inFirst).congr fun other sameLabels => ?_
      refine ⟨mem_append_left _, fun both => (mem_append.mp both).resolve_right fun inSecond => ?_⟩
      exact different run arrived other inSecond (labelled.trans sameLabels.symm)
    · obtain ⟨run, arrived, labelled⟩ := right.labelled part inSecond
      refine (right.counted part inSecond).congr fun other sameLabels => ?_
      refine ⟨mem_append_right _, fun both => (mem_append.mp both).resolve_left fun inFirst => ?_⟩
      exact different other inFirst run arrived (sameLabels.trans labelled.symm)

theorem answers_hold {workers : List (List ScalarRun)} {answers : List (List PartialAggregate)}
    (reduced : workers.mapM (fun runs => reducePartialAggregates runs startNs endNs) = .ok answers)
    (named : SeriesNamed workers.flatten) (formed : ∀ run ∈ workers.flatten, run.run.WellFormed)
    (apart : workers.Pairwise fun first second => ∀ run ∈ first, ∀ other ∈ second, run.seriesId ≠ other.seriesId) :
    AnswerHolds startNs endNs workers.flatten answers.flatten := by
  have aligned := mapM_eq_ok.mp reduced
  clear reduced
  induction aligned with
  | nil => exact ⟨nodup_nil, by simp, by simp, by simp⟩
  | @cons runs partials workers answers first _ ih =>
    obtain ⟨apartFirst, apart⟩ := pairwise_cons.mp apart
    rw [flatten_cons] at named formed
    rw [flatten_cons, flatten_cons]
    obtain ⟨formedFirst, formedRest⟩ := forall_mem_append.mp formed
    have left := reducePartialAggregates_holds (named.subset (subset_append_left _ _)) formedFirst first
    have right := ih (named.subset (subset_append_right _ _)) formedRest apart
    refine left.append right named ?_
    intro run arrived other otherArrived
    obtain ⟨worker, isWorker, inside⟩ := mem_flatten.mp otherArrived
    exact apartFirst worker isWorker run arrived other inside

theorem mem_sortedPushdownCounts {entry : LabelSet × Nat} : entry ∈ sortedPushdownCounts partials ↔
      ∃ part ∈ partials, part.labels = entry.1 ∧ part.count = some entry.2 ∧ entry.2 ≠ 0 := by
  rw [sortedPushdownCounts, sortByLabels, mem_insertionSort, mem_filterMap]
  refine exists_congr fun part => and_congr_right fun _ => ?_
  obtain ⟨labels, count⟩ := entry
  cases counted : part.count with
  | none => simp
  | some found =>
    by_cases zero : found = 0
    · simp only [Option.bind_some, zero, ne_eq, not_true_eq_false, if_false, reduceCtorEq, Option.some.injEq, false_iff]
      rintro ⟨_, rfl, nonzero⟩
      exact nonzero rfl
    · simp only [Option.bind_some, ne_eq, zero, not_false_eq_true, if_true, Option.some.injEq, Prod.mk.injEq]
      constructor
      · rintro ⟨sameLabels, rfl⟩
        exact ⟨sameLabels, rfl, zero⟩
      · rintro ⟨sameLabels, rfl, _⟩
        exact ⟨sameLabels, rfl⟩

theorem labelOrdered_sortedPushdownCounts (distinct : (partials.map PartialAggregate.labels).Nodup) :
    LabelOrdered Prod.fst (sortedPushdownCounts partials) := by
  apply labelOrdered_sortByLabels
  refine distinct.sublist ?_
  rw [map_filterMap]
  have same : ∀ part : PartialAggregate, ((part.count.bind fun count =>
      if count ≠ 0 then some (part.labels, count) else none).map Prod.fst) =
      if part.count.any (fun count => decide (count ≠ 0)) then some part.labels else none := by
    intro part
    cases part.count with
    | none => rfl
    | some count =>
      by_cases zero : count = 0 <;> simp [zero]
  simp only [same]
  induction partials with
  | nil => exact Sublist.refl _
  | cons part partials ih =>
    have later := ih (nodup_cons.mp distinct).2
    rw [filterMap_cons, map_cons]
    split
    · exact later.cons _
    · rename_i found
      split at found
      · cases found
        exact later.cons₂ _
      · cases found

theorem sortedPushdownCounts_eq {fetched : List ScalarRun} {pool : List SeriesData} (holds : PoolHolds runs pool)
    (answer : AnswerHolds startNs endNs fetched partials) {test : LabelSet → Bool}
    (passes : ∀ run ∈ fetched, test run.labels = true)
    (same : ∀ run : ScalarRun, test run.labels = true → (run ∈ runs ↔ run ∈ fetched)) :
    sortedPushdownCounts partials = nonzeroCounts startNs endNs (pool.filter fun series => test series.labels) := by
  refine (labelOrdered_sortedPushdownCounts answer.distinct).eq_of_mem_iff ?_ ?_
  · apply List.Pairwise.filter
    exact pairwise_map.mpr (holds.ordered.filter _)
  · rintro ⟨labels, count⟩
    rw [mem_sortedPushdownCounts, nonzeroCounts, mem_filter, mem_map]
    have agreed : ∀ run : ScalarRun, test labels = true → run.labels = labels → (run ∈ runs ↔ run ∈ fetched) := by
      intro run tested labelled
      apply same
      rw [labelled]
      exact tested
    constructor
    · rintro ⟨part, member, rfl, counted, nonzero⟩
      obtain ⟨run, arrived, labelled⟩ := answer.labelled part member
      obtain ⟨samples, served, counts⟩ := answer.counted part member
      have tested : test part.labels = true := by
        rw [← labelled]
        exact passes run arrived
      refine ⟨⟨⟨part.labels, samples⟩, mem_filter.mpr ⟨(holds.listed _).mpr ⟨⟨run, ?_, labelled⟩, ?_⟩, tested⟩, ?_⟩, ?_⟩
      · exact (agreed run tested labelled).mpr arrived
      · exact (SamplesOf.congr fun other => agreed other tested).mpr served
      · rw [counted] at counts
        exact Prod.ext rfl (Option.some.inj counts).symm
      · simpa using nonzero
    · rintro ⟨⟨series, inside, isEntry⟩, nonzero⟩
      obtain ⟨rfl, rfl⟩ := Prod.mk.inj isEntry
      obtain ⟨listed, tested⟩ := mem_filter.mp inside
      obtain ⟨⟨run, arrived, labelled⟩, served⟩ := (holds.listed series).mp listed
      obtain ⟨part, member, partLabels⟩ := answer.found run ((agreed run tested labelled).mp arrived)
      obtain ⟨samples, partServed, counts⟩ := answer.counted part member
      rw [partLabels, labelled] at partServed
      have sameSamples := partServed.unique ((SamplesOf.congr fun other => agreed other tested).mp served)
      refine ⟨part, member, partLabels.trans labelled, ?_, by simpa using nonzero⟩
      rw [counts, sameSamples]

end Workers

end Ravel.Promql
