import Mathlib.Data.List.Induction
import Ravel.Construction.Promql.MergedSource
import Ravel.Proof.Metrics.CandidateOrders
import Ravel.Proof.Metrics.FoldedRuns

namespace Ravel.Promql

open List Library Metrics

/-- A series id is the digest of its labels. -/
def SeriesNamed (runs : List ScalarRun) : Prop :=
  ∀ run ∈ runs, ∀ other ∈ runs, run.seriesId = other.seriesId ↔ run.labels = other.labels

variable {runs : List ScalarRun} {samples : List Sample} {Entry : Type} {labels : Entry → LabelSet}

theorem SeriesNamed.subset {others : List ScalarRun} (named : SeriesNamed runs) (inside : others ⊆ runs) :
    SeriesNamed others :=
  fun run member other otherMember => named run (inside member) other (inside otherMember)

/-- The candidates of one label set in some runs. -/
def labelEntries (runs : List ScalarRun) (labels : LabelSet) : Set (FoldedSample UInt64) :=
  {entry | ∃ run ∈ runs, run.labels = labels ∧ entry ∈ runEntries run.run.priorities 0 run.run.samples}

theorem seriesEntries_eq_labelEntries (named : SeriesNamed runs) {run : ScalarRun} (member : run ∈ runs) :
    seriesEntries runs run.seriesId = labelEntries runs run.labels := by
  ext entry
  constructor
  · rintro ⟨other, otherMember, sameId, inside⟩
    exact ⟨other, otherMember, (named other otherMember run member).mp sameId, inside⟩
  · rintro ⟨other, otherMember, sameLabels, inside⟩
    exact ⟨other, otherMember, (named other otherMember run member).mpr sameLabels, inside⟩

/-- The samples of a label set are its greatest candidates. -/
def SamplesOf (runs : List ScalarRun) (labels : LabelSet) (samples : List Sample) : Prop :=
  ∃ selected, SelectsEntries scalarOrder (labelEntries runs labels) selected ∧
    samples = selected.map fun entry => ⟨entry.1, entry.2.value⟩

theorem SamplesOf.unique {labels : LabelSet} {first second : List Sample} (left : SamplesOf runs labels first)
    (right : SamplesOf runs labels second) : first = second := by
  obtain ⟨firstSelected, firstSelects, rfl⟩ := left
  obtain ⟨secondSelected, secondSelects, rfl⟩ := right
  rw [firstSelects.unique secondSelects]

theorem SamplesOf.congr {first second : List ScalarRun} {labels : LabelSet}
    (same : ∀ run : ScalarRun, run.labels = labels → (run ∈ first ↔ run ∈ second)) :
    SamplesOf first labels samples ↔ SamplesOf second labels samples := by
  have entries : labelEntries first labels = labelEntries second labels := by
    ext entry
    constructor
    · rintro ⟨run, member, labelled, inside⟩
      exact ⟨run, (same run labelled).mp member, labelled, inside⟩
    · rintro ⟨run, member, labelled, inside⟩
      exact ⟨run, (same run labelled).mpr member, labelled, inside⟩
  rw [SamplesOf, SamplesOf, entries]

theorem SamplesOf.ascending {labels : LabelSet} (served : SamplesOf runs labels samples) :
    samples.Pairwise fun before after => before.tsNs < after.tsNs := by
  obtain ⟨selected, selects, rfl⟩ := served
  exact pairwise_map.mpr selects.ascending

theorem LabelSet.key_injective : Function.Injective LabelSet.key := by
  intro first second same
  have labels : first.labels = second.labels := map_injective_iff.mpr toLex.injective same
  cases first
  cases second
  cases labels
  rfl

/-- The entries have each label set once, in label order. -/
abbrev LabelOrdered {Entry : Type} (labels : Entry → LabelSet) (entries : List Entry) : Prop :=
  entries.Pairwise fun first second => (labels first).key < (labels second).key

theorem LabelOrdered.eq_of_mem_iff {first second : List Entry} (left : LabelOrdered labels first)
    (right : LabelOrdered labels second) (same : ∀ entry, entry ∈ first ↔ entry ∈ second) : first = second := by
  have : Std.Irrefl fun first second : Entry => (labels first).key < (labels second).key :=
    ⟨fun entry => lt_irrefl _⟩
  have : Std.Antisymm fun first second : Entry => (labels first).key < (labels second).key :=
    ⟨fun first second forward backward => absurd (lt_trans forward backward) (lt_irrefl _)⟩
  exact List.Pairwise.eq_of_mem_iff left right same

/-- A sort of distinct label sets puts them in strict order. -/
theorem labelOrdered_sortByLabels {entries : List Entry} (distinct : (entries.map labels).Nodup) :
    LabelOrdered labels (sortByLabels labels entries) := by
  have : Std.Total fun first second : Entry => (labels first).key ≤ (labels second).key :=
    ⟨fun first second => le_total _ _⟩
  have : IsTrans Entry fun first second => (labels first).key ≤ (labels second).key :=
    ⟨fun first second third => le_trans⟩
  have sorted := pairwise_insertionSort
    (fun first second : Entry => (labels first).key ≤ (labels second).key) entries
  have stillDistinct : ((sortByLabels labels entries).map labels).Nodup :=
    ((perm_insertionSort _ entries).map labels).nodup_iff.mpr distinct
  refine List.Pairwise.imp₂ ?_ sorted (pairwise_map.mp stillDistinct)
  intro first second atMost different
  exact lt_of_le_of_ne atMost fun same => different (LabelSet.key_injective same)

/-- The pool has each label set of the runs once, with its samples. -/
structure PoolHolds (runs : List ScalarRun) (pool : List SeriesData) : Prop where
  ordered : LabelOrdered SeriesData.labels pool
  listed : ∀ series, series ∈ pool ↔
    (∃ run ∈ runs, run.labels = series.labels) ∧ SamplesOf runs series.labels series.samples

theorem scalarPool_holds {pool : List SeriesData} (named : SeriesNamed runs) (pooled : scalarPool runs = .ok pool) :
    PoolHolds runs pool := by
  obtain ⟨fold, absorbed, returned⟩ := ok_of_bind pooled
  cases returned
  have holds : FoldHolds scalarOrder fold runs := absorb_holds absorbed
  have served : ∀ entry ∈ fold, SamplesOf runs entry.2.labels
      ((collapseLevels isGreater entry.2.levels).map fun sample => ⟨sample.1, sample.2.value⟩) := by
    intro entry member
    obtain ⟨run, arrived, sameId, sameLabels⟩ := holds.labelled entry member
    have covers := covers_collapseLevels (holds.held entry member)
    rw [← sameId, seriesEntries_eq_labelEntries named arrived, sameLabels] at covers
    exact ⟨_, coversSamples_selects scalarOrder covers, rfl⟩
  have found : ∀ run ∈ runs, ∃ entry ∈ fold, entry.2.labels = run.labels := by
    intro run arrived
    obtain ⟨entry, member, sameId⟩ := mem_map.mp ((holds.listed run.seriesId).mpr ⟨run, arrived, rfl⟩)
    obtain ⟨first, firstArrived, firstId, firstLabels⟩ := holds.labelled entry member
    refine ⟨entry, member, ?_⟩
    rw [← firstLabels]
    exact (named first firstArrived run arrived).mp (firstId.trans sameId)
  have distinct : (fold.map fun entry => entry.2.labels).Nodup := by
    apply pairwise_map.mpr
    apply (pairwise_map.mp holds.distinct).imp_of_mem
    intro first second firstMember secondMember different same
    obtain ⟨run, arrived, sameId, sameLabels⟩ := holds.labelled first firstMember
    obtain ⟨other, otherArrived, otherId, otherLabels⟩ := holds.labelled second secondMember
    apply different
    rw [← sameId, ← otherId]
    apply (named run arrived other otherArrived).mpr
    rw [sameLabels, otherLabels, same]
  constructor
  · apply labelOrdered_sortByLabels
    rw [map_map, RunFold.intoSeries, map_map]
    exact distinct
  · intro series
    rw [sortByLabels, mem_insertionSort, RunFold.intoSeries, map_map, mem_map]
    constructor
    · rintro ⟨entry, member, rfl⟩
      obtain ⟨run, arrived, _, sameLabels⟩ := holds.labelled entry member
      exact ⟨⟨run, arrived, sameLabels⟩, served entry member⟩
    · rintro ⟨⟨run, arrived, sameLabels⟩, samples⟩
      obtain ⟨entry, member, entryLabels⟩ := found run arrived
      refine ⟨entry, member, ?_⟩
      have held := served entry member
      rw [entryLabels, sameLabels] at held
      show SeriesData.mk entry.2.labels
        ((collapseLevels isGreater entry.2.levels).map fun sample => ⟨sample.1, sample.2.value⟩) = series
      rw [entryLabels, sameLabels, held.unique samples]

/-- Two pools agree on the label sets whose runs agree. -/
theorem PoolHolds.filter_eq {first second : List ScalarRun} {firstPool secondPool : List SeriesData}
    (left : PoolHolds first firstPool) (right : PoolHolds second secondPool) (test : LabelSet → Bool)
    (same : ∀ run : ScalarRun, test run.labels = true → (run ∈ first ↔ run ∈ second)) :
    (firstPool.filter fun series => test series.labels) = secondPool.filter fun series => test series.labels := by
  refine (left.ordered.filter _).eq_of_mem_iff (right.ordered.filter _) ?_
  intro series
  rw [mem_filter, mem_filter, left.listed, right.listed]
  refine and_congr_left fun passes => ?_
  have sameRuns : ∀ run : ScalarRun, run.labels = series.labels → (run ∈ first ↔ run ∈ second) := by
    intro run labelled
    apply same
    rw [labelled]
    exact passes
  refine and_congr ?_ (SamplesOf.congr sameRuns)
  constructor
  · rintro ⟨run, member, labelled⟩
    exact ⟨run, (sameRuns run labelled).mp member, labelled⟩
  · rintro ⟨run, member, labelled⟩
    exact ⟨run, (sameRuns run labelled).mpr member, labelled⟩

theorem mem_distinctPlansByMatcher (plans : List SelectorPlan) :
    (∀ plan ∈ distinctPlansByMatcher plans, plan ∈ plans) ∧
      ∀ plan ∈ plans, ∃ first ∈ distinctPlansByMatcher plans, first.matchers = plan.matchers := by
  unfold distinctPlansByMatcher
  induction plans using reverseRecOn with
  | nil => simp
  | append_singleton plans plan ih =>
    obtain ⟨inside, found⟩ := ih
    rw [foldl_append, foldl_cons, foldl_nil]
    split
    · rename_i known
      refine ⟨fun other member => mem_append_left _ (inside other member), ?_⟩
      intro other member
      rcases mem_append.mp member with earlier | isPlan
      · exact found other earlier
      · rw [mem_singleton.mp isPlan]
        simpa using known
    · refine ⟨?_, ?_⟩
      · intro other member
        rcases mem_append.mp member with earlier | isPlan
        · exact mem_append_left _ (inside other earlier)
        · exact mem_append_right _ isPlan
      · intro other member
        rcases mem_append.mp member with earlier | isPlan
        · obtain ⟨first, listed, same⟩ := found other earlier
          exact ⟨first, mem_append_left _ listed, same⟩
        · exact ⟨plan, mem_append_right _ mem_cons_self, by rw [mem_singleton.mp isPlan]⟩

end Ravel.Promql
