import Ravel.Construction.Promql.SelectorPrefetch
import Ravel.Proof.Promql.PartialCounts

namespace Ravel.Promql

open List Library Metrics TimedSelection

section Pools

variable {Value Shown Key : Type} [LinearOrder Key]

/-- A series id is the digest of its labels. -/
def RunsNamed (runs : List (FoldRun SeriesId LabelSet Value)) : Prop :=
  ∀ run ∈ runs, ∀ other ∈ runs, run.seriesId = other.seriesId ↔ run.labels = other.labels

theorem RunsNamed.subset {runs others : List (FoldRun SeriesId LabelSet Value)} (named : RunsNamed runs)
    (inside : others ⊆ runs) : RunsNamed others :=
  fun run member other otherMember => named run (inside member) other (inside otherMember)

/-- The candidates of one label set in some runs. -/
def entriesOf (runs : List (FoldRun SeriesId LabelSet Value)) (labels : LabelSet) : Set (FoldedSample Value) :=
  {entry | ∃ run ∈ runs, run.labels = labels ∧ entry ∈ runEntries run.run.priorities 0 run.run.samples}

theorem entriesOf_congr {first second : List (FoldRun SeriesId LabelSet Value)} {labels : LabelSet}
    (same : ∀ run, run.labels = labels → (run ∈ first ↔ run ∈ second)) :
    entriesOf first labels = entriesOf second labels := by
  ext entry
  constructor
  · rintro ⟨run, member, labelled, inside⟩
    exact ⟨run, (same run labelled).mp member, labelled, inside⟩
  · rintro ⟨run, member, labelled, inside⟩
    exact ⟨run, (same run labelled).mpr member, labelled, inside⟩

/-- The chosen candidates as the evaluator sees them. -/
def shownSamples (view : Value → Shown) (chosen : List (FoldedSample Value)) : List (Metrics.Sample Shown) :=
  chosen.map fun entry => ⟨entry.1, view entry.2.value⟩

/-- The pool has each label set of the runs once, with its greatest candidates. -/
structure Pools (order : CandidateOrder Value Key) (view : Value → Shown) (runs : List (FoldRun SeriesId LabelSet Value))
    (pool : List (LabelSet × List (Metrics.Sample Shown))) : Prop where
  distinct : (pool.map Prod.fst).Nodup
  labelled : ∀ series ∈ pool, ∃ run ∈ runs, run.labels = series.1
  found : ∀ run ∈ runs, ∃ series ∈ pool, series.1 = run.labels
  selected : ∀ series ∈ pool, ∃ chosen, SelectsEntries order (entriesOf runs series.1) chosen ∧
    series.2 = shownSamples view chosen

variable {order : CandidateOrder Value Key} {view : Value → Shown}

theorem Pools.perm {runs others : List (FoldRun SeriesId LabelSet Value)}
    {pool reordered : List (LabelSet × List (Metrics.Sample Shown))} (pools : Pools order view runs pool)
    (same : ∀ run, run ∈ runs ↔ run ∈ others) (order' : reordered.Perm pool) : Pools order view others reordered where
  distinct := (order'.map Prod.fst).nodup_iff.mpr pools.distinct
  labelled := by
    intro series member
    obtain ⟨run, inside, labelled⟩ := pools.labelled series (order'.mem_iff.mp member)
    exact ⟨run, (same run).mp inside, labelled⟩
  found := by
    intro run inside
    obtain ⟨series, member, labelled⟩ := pools.found run ((same run).mpr inside)
    exact ⟨series, order'.mem_iff.mpr member, labelled⟩
  selected := by
    intro series member
    rw [← entriesOf_congr fun run _ => same run]
    exact pools.selected series (order'.mem_iff.mp member)

theorem pools_intoSeries {runs : List (FoldRun SeriesId LabelSet Value)} {fold : RunFold SeriesId LabelSet Value}
    (named : RunsNamed runs) (absorbed : absorb order.greater runs [] = .ok fold) (view : Value → Shown) :
    Pools order view runs ((fold.intoSeries order.greater).map fun series =>
      (series.1, series.2.map fun sample => ⟨sample.tsNs, view sample.value⟩)) := by
  have holds : FoldHolds order fold runs := absorb_holds absorbed
  have found : ∀ run ∈ runs, ∃ entry ∈ fold, entry.2.labels = run.labels := by
    intro run arrived
    obtain ⟨entry, member, sameId⟩ := mem_map.mp ((holds.listed run.seriesId).mpr ⟨run, arrived, rfl⟩)
    obtain ⟨first, firstArrived, firstId, firstLabels⟩ := holds.labelled entry member
    refine ⟨entry, member, ?_⟩
    rw [← firstLabels]
    exact (named first firstArrived run arrived).mp (firstId.trans sameId)
  rw [RunFold.intoSeries, map_map]
  refine ⟨?_, ?_, ?_, ?_⟩
  · rw [map_map]
    apply pairwise_map.mpr
    apply (pairwise_map.mp holds.distinct).imp_of_mem
    intro first second firstMember secondMember different same
    obtain ⟨run, arrived, sameId, sameLabels⟩ := holds.labelled first firstMember
    obtain ⟨other, otherArrived, otherId, otherLabels⟩ := holds.labelled second secondMember
    apply different
    rw [← sameId, ← otherId]
    apply (named run arrived other otherArrived).mpr
    rw [sameLabels, otherLabels]
    exact same
  · intro series member
    obtain ⟨entry, entryIn, rfl⟩ := mem_map.mp member
    obtain ⟨run, arrived, _, sameLabels⟩ := holds.labelled entry entryIn
    exact ⟨run, arrived, sameLabels⟩
  · intro run arrived
    obtain ⟨entry, entryIn, sameLabels⟩ := found run arrived
    exact ⟨_, mem_map_of_mem entryIn, sameLabels⟩
  · intro series member
    obtain ⟨entry, entryIn, rfl⟩ := mem_map.mp member
    obtain ⟨run, arrived, sameId, sameLabels⟩ := holds.labelled entry entryIn
    have covers := covers_collapseLevels (holds.held entry entryIn)
    have entries : seriesEntries runs entry.1 = entriesOf runs entry.2.labels := by
      ext item
      constructor
      · rintro ⟨other, otherArrived, otherId, inside⟩
        refine ⟨other, otherArrived, ?_, inside⟩
        rw [← sameLabels]
        exact (named other otherArrived run arrived).mp (otherId.trans sameId.symm)
      · rintro ⟨other, otherArrived, otherLabels, inside⟩
        refine ⟨other, otherArrived, ?_, inside⟩
        rw [← sameId]
        exact (named other otherArrived run arrived).mpr (otherLabels.trans sameLabels.symm)
    rw [entries] at covers
    refine ⟨_, coversSamples_selects order covers, ?_⟩
    simp only [Function.comp_apply, shownSamples, map_map]
    rfl

/-- The instants of a closed window. -/
def TimeRange.holds (window : TimeRange) (tsNs : Int) : Bool :=
  decide (window.startNs ≤ tsNs) && decide (tsNs ≤ window.endNs)

theorem windowSlice_shownSamples {entries : Set (FoldedSample Value)} {chosen : List (FoldedSample Value)}
    (selects : SelectsEntries order entries chosen) (window : TimeRange) :
    windowSlice (shownSamples view chosen) window = shownSamples view (chosen.filter fun entry => window.holds entry.1) := by
  have ordered : KeyOrdered Metrics.Sample.tsNs (shownSamples view chosen) :=
    pairwise_map.mpr (selects.ascending.imp le_of_lt)
  rw [windowSlice_eq_filter window ordered, shownSamples, filter_map]
  rfl

/-- Two selections show the same in a window when their candidates in it are the same. -/
theorem windowSlice_congr {first second : Set (FoldedSample Value)} {left right : List (FoldedSample Value)}
    (leftSelects : SelectsEntries order first left) (rightSelects : SelectsEntries order second right)
    {window : TimeRange} (same : ∀ entry, window.holds entry.1 = true → (entry ∈ first ↔ entry ∈ second)) :
    windowSlice (shownSamples view left) window = windowSlice (shownSamples view right) window := by
  rw [windowSlice_shownSamples leftSelects, windowSlice_shownSamples rightSelects]
  have inside : {entry | entry ∈ first ∧ window.holds entry.1 = true} =
      {entry | entry ∈ second ∧ window.holds entry.1 = true} := by
    ext entry
    exact and_congr_left (same entry)
  have restricted := leftSelects.restrict window.holds
  rw [inside] at restricted
  rw [restricted.unique (rightSelects.restrict window.holds)]

/-- A read shows every series of another read with the same samples and each label set once. Beyond these it
shows series without a sample only. -/
structure ReadsAlone {Series : Type} (labels : Series → LabelSet) (samples : Series → List (Metrics.Sample Shown))
    (joint alone : List Series) : Prop where
  once : (joint.map labels).Nodup
  kept : ∀ series ∈ alone, series ∈ joint
  extra : ∀ series ∈ joint, series ∈ alone ∨ samples series = []

/-- The reads of a pool through a test of the labels. -/
def readPool (pool : List (LabelSet × List (Metrics.Sample Shown))) (test : LabelSet → Bool) (window : TimeRange) :
    List (LabelSet × List (Metrics.Sample Shown)) :=
  (pool.filter fun series => test series.1).map fun series => (series.1, windowSlice series.2 window)

theorem Pools.readsAlone {joint alone : List (FoldRun SeriesId LabelSet Value)}
    {jointPool alonePool : List (LabelSet × List (Metrics.Sample Shown))} (jointPools : Pools order view joint jointPool)
    (alonePools : Pools order view alone alonePool) {test : LabelSet → Bool} {window : TimeRange}
    (inside : ∀ run ∈ alone, run ∈ joint)
    (reaches : ∀ run ∈ joint, test run.labels = true →
      ∀ entry ∈ runEntries run.run.priorities 0 run.run.samples, window.holds entry.1 = true → run ∈ alone) :
    ReadsAlone Prod.fst Prod.snd (readPool jointPool test window) (readPool alonePool test window) := by
  -- Under a tested label set the two pools show the same.
  have slices {labels : LabelSet} (tested : test labels = true) {first second : List (Metrics.Sample Shown)}
      (firstIn : (labels, first) ∈ jointPool) (secondIn : (labels, second) ∈ alonePool) :
      windowSlice first window = windowSlice second window := by
    obtain ⟨left, leftSelects, rfl⟩ := jointPools.selected _ firstIn
    obtain ⟨right, rightSelects, rfl⟩ := alonePools.selected _ secondIn
    apply windowSlice_congr leftSelects rightSelects
    intro entry held
    constructor
    · rintro ⟨run, member, rfl, entryIn⟩
      exact ⟨run, reaches run member tested entry entryIn held, rfl, entryIn⟩
    · rintro ⟨run, member, labelled, entryIn⟩
      exact ⟨run, inside run member, labelled, entryIn⟩
  unfold readPool
  refine ⟨?_, ?_, ?_⟩
  · rw [map_map]
    exact jointPools.distinct.sublist ((filter_sublist).map _)
  · intro series member
    obtain ⟨⟨labels, samples⟩, shown, rfl⟩ := mem_map.mp member
    obtain ⟨pooled, tested⟩ := mem_filter.mp shown
    obtain ⟨run, runIn, labelled⟩ := alonePools.labelled _ pooled
    obtain ⟨⟨otherLabels, others⟩, jointly, sameLabels⟩ := jointPools.found run (inside run runIn)
    obtain rfl : otherLabels = labels := sameLabels.trans labelled
    refine mem_map.mpr ⟨(otherLabels, others), mem_filter.mpr ⟨jointly, tested⟩, ?_⟩
    exact Prod.ext rfl (slices tested jointly pooled)
  · intro series member
    obtain ⟨⟨labels, samples⟩, shown, rfl⟩ := mem_map.mp member
    obtain ⟨pooled, tested⟩ := mem_filter.mp shown
    by_cases empty : windowSlice samples window = []
    · exact .inr empty
    · left
      obtain ⟨chosen, selects, rfl⟩ := jointPools.selected _ pooled
      rw [windowSlice_shownSamples selects] at empty
      obtain ⟨sample, sampleIn⟩ := exists_mem_of_ne_nil _ empty
      obtain ⟨entry, entryIn, _⟩ := mem_map.mp sampleIn
      obtain ⟨chosenIn, held⟩ := mem_filter.mp entryIn
      obtain ⟨run, runIn, labelled, ofRun⟩ := ((selects.greatest entry).mp chosenIn).1
      have tested' : test run.labels = true := by
        rw [labelled]
        exact tested
      obtain ⟨⟨otherLabels, others⟩, alonely, sameLabels⟩ :=
        alonePools.found run (reaches run runIn tested' entry ofRun held)
      obtain rfl : otherLabels = labels := sameLabels.trans labelled
      refine mem_map.mpr ⟨(otherLabels, others), mem_filter.mpr ⟨alonely, tested⟩, ?_⟩
      exact Prod.ext rfl (slices tested pooled alonely).symm

end Pools

end Ravel.Promql
