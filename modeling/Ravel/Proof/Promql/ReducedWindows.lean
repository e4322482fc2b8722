import Ravel.Proof.Promql.RangeElements

namespace Ravel.Promql

open List Library

theorem SeriesSource.Serves.ordered_found {source : SeriesSource} {stored : List LabelMatcher → List SeriesData}
    (serves : source.Serves stored) {matchers : List LabelMatcher} {window : TimeRange} {found : List SeriesData}
    (queried : source.query matchers window = .ok found) {series : SeriesData} (member : series ∈ found) :
    KeyOrdered Metrics.Sample.tsNs series.samples := by
  by_cases nonempty : series.nonempty = true
  · have kept := (serves.restricts matchers window found queried).mem_iff.mp (mem_filter.mpr ⟨member, nonempty⟩)
    obtain ⟨original, listed, rfl⟩ := mem_map.mp (mem_filter.mp kept).1
    exact (serves.ordered matchers original listed).filter _
  · have empty : series.samples = [] := by simpa [SeriesData.nonempty] using nonempty
    rw [empty]
    exact List.Pairwise.nil

/-- What some series reduce to at one window. -/
def reducedSeries (reduce : Reduce) (window : RangeWindow) (keepMetricName : Bool) (stored : List SeriesData) :
    List (LabelSet × UInt64) :=
  stored.flatMap fun series => reducedElement reduce window keepMetricName series.labels
    (liveWithin window.startNs window.endNs series.samples)

theorem reducedElement_nil (reduce : Reduce) (window : RangeWindow) (keepMetricName : Bool) (labels : LabelSet) :
    reducedElement reduce window keepMetricName labels [] = [] := rfl

/-- The fold over the series collects the elements of each. -/
theorem allElements_reduceSeries (reduce : Reduce) (keepMetricName : Bool) {grid : List RangeWindow}
    (advances : WindowsAdvance grid) : ∀ (found : List SeriesData) (state : RangeMatrix × Option Error),
    (∀ series ∈ found, KeyOrdered Metrics.Sample.tsNs series.samples) →
    allElements (found.foldl (fun (state : RangeMatrix × Option Error) found =>
      let reduction := reduceAlong reduce (found.samples.filter isLive) grid state.2
      if reduction.elements.isEmpty then (state.1, reduction.stash)
      else (state.1 ++ [(resultLabels keepMetricName found.labels, reduction.elements)], reduction.stash)) state).1 =
    allElements state.1 ++ found.flatMap fun series => grid.flatMap fun window =>
      stamped window.evalTsNs (reducedElement reduce window keepMetricName series.labels
        (liveWithin window.startNs window.endNs series.samples)) := by
  intro found
  induction found with
  | nil => simp
  | cons series found ih =>
    intro state ordered
    obtain ⟨first, rest⟩ := forall_mem_cons.mp ordered
    rw [foldl_cons, ih _ rest, flatMap_cons, ← append_assoc]
    congr 1
    have elements := elements_reduceAlong reduce (first.filter isLive) grid advances state.2
    have labelled : (reduceAlong reduce (series.samples.filter isLive) grid state.2).elements.map
          (fun sample => (resultLabels keepMetricName series.labels, sample)) =
        grid.flatMap fun window => stamped window.evalTsNs (reducedElement reduce window keepMetricName series.labels
          (liveWithin window.startNs window.endNs series.samples)) := by
      rw [elements, map_flatMap]
      simp only [map_windowElement]
    rw [← labelled]
    dsimp only
    split
    · rename_i empty
      rw [List.isEmpty_iff.mp empty]
      simp
    · simp [allElements]

section Selector

variable {source : SeriesSource} {stored : List LabelMatcher → List SeriesData} (serves : source.Serves stored)

include serves

theorem evalMatrixSelector_reduced {ms : MatrixSelector} {t : Int} {ctx : QueryWindow} {matrix : RangeMatrix}
    {matchers : List LabelMatcher} {window : RangeWindow} (reduce : Reduce) (keepMetricName : Bool)
    (built : buildMatchers ms.vs = .ok matchers) (windowed : rangeWindow (.selector ms) t ctx = .ok window)
    (evaluated : evalMatrixSelector source ms t ctx = .ok matrix) :
    (matrix.flatMap fun entry => reducedElement reduce window keepMetricName entry.1 entry.2).Perm
      (reducedSeries reduce window keepMetricName (stored matchers)) := by
  obtain ⟨matchersAgain, builtAgain, evaluated⟩ := ok_of_bind evaluated
  obtain rfl := Except.ok.inj (built.symm.trans builtAgain)
  obtain ⟨bounds, bounded, evaluated⟩ := ok_of_bind evaluated
  obtain ⟨found, queried, evaluated⟩ := ok_of_bind evaluated
  cases evaluated
  have same : window.startNs = bounds.startNs ∧ window.endNs = bounds.endNs := by
    obtain ⟨selTs, moved, windowed⟩ := ok_of_bind windowed
    obtain ⟨rangeNs, ranged, windowed⟩ := ok_of_bind windowed
    obtain ⟨startNs, started, windowed⟩ := ok_of_bind windowed
    obtain ⟨selAgain, movedAgain, bounded⟩ := ok_of_bind bounded
    obtain ⟨rangeAgain, rangedAgain, bounded⟩ := ok_of_bind bounded
    obtain ⟨startAgain, startedAgain, bounded⟩ := ok_of_bind bounded
    obtain rfl := Except.ok.inj (moved.symm.trans movedAgain)
    obtain rfl := Except.ok.inj (ranged.symm.trans rangedAgain)
    obtain rfl := Except.ok.inj (started.symm.trans startedAgain)
    cases windowed
    cases bounded
    exact ⟨rfl, rfl⟩
  have dropped : ∀ entries : RangeMatrix, (entries.filter fun entry => !entry.2.isEmpty).flatMap
        (fun entry => reducedElement reduce window keepMetricName entry.1 entry.2) =
      entries.flatMap fun entry => reducedElement reduce window keepMetricName entry.1 entry.2 := by
    intro entries
    induction entries with
    | nil => rfl
    | cons entry entries ih =>
      by_cases empty : entry.2.isEmpty
      · rw [filter_cons_of_neg (by simp [empty]), ih, flatMap_cons,
          List.isEmpty_iff.mp empty, reducedElement_nil, nil_append]
      · rw [filter_cons_of_pos (by simp [empty]), flatMap_cons, flatMap_cons, ih]
  rw [dropped, flatMap_map]
  refine (serves.read queried ?_).trans (Perm.of_eq ?_)
  · intro labels
    rfl
  · unfold reducedSeries
    congr 1
    funext series
    congr 1
    unfold liveWithin SeriesData.clip
    rw [filter_filter, same.1, same.2]
    apply filter_congr
    intro sample _
    by_cases late : bounds.startNs < sample.tsNs
    · simp [late, late.le, Bool.and_comm]
    · simp [late]

omit serves in
/-- The one window a whole-grid reduction reads. -/
def gridHull (fallback : Int) (grid : List RangeWindow) : TimeRange :=
  ⟨(grid.map RangeWindow.startNs).min?.getD fallback, (grid.map RangeWindow.endNs).max?.getD fallback⟩

theorem evalRangeMatrixReduction_spreads {ms : MatrixSelector} {startNs endNs stepNs : Int} {ctx : QueryWindow}
    {keepMetricName : Bool} {reduce : Reduce} {outcome : RangeMatrix × Option Error} (positive : 0 < stepNs)
    (run : evalRangeMatrixReduction source ms startNs endNs stepNs ctx keepMetricName reduce = .ok outcome) :
    ∃ matchers offsetNs rangeNs anchor, buildMatchers ms.vs = .ok matchers ∧
      signedOffsetNs ms.vs.offset = .ok offsetNs ∧ durationToNs ms.range = .ok rangeNs ∧
      resolveAt ms.vs.atModifier ctx.startNs ctx.endNs = .ok anchor ∧
      Spreads (pointsOf startNs endNs stepNs)
        (fun t => reducedSeries reduce (windowOf offsetNs rangeNs anchor t) keepMetricName (stored matchers)) outcome.1 := by
  obtain ⟨matchers, built, run⟩ := ok_of_bind run
  obtain ⟨offsetNs, shifted, run⟩ := ok_of_bind run
  obtain ⟨anchor, anchored, run⟩ := ok_of_bind run
  obtain ⟨rangeNs, ranged, run⟩ := ok_of_bind run
  obtain ⟨grid, gridded, run⟩ := ok_of_bind run
  refine ⟨matchers, offsetNs, rangeNs, anchor, built, shifted, ranged, anchored, ?_⟩
  obtain rfl := matrixGrid_eq positive gridded
  split at run
  · rename_i empty
    cases run
    have none : pointsOf startNs endNs stepNs = [] := by simpa using empty
    simp [Spreads, allElements, none]
  · obtain ⟨found, queried, run⟩ := ok_of_bind run
    have advances : WindowsAdvance ((pointsOf startNs endNs stepNs).map (windowOf offsetNs rangeNs anchor)) :=
      windowsAdvance_points positive (by rw [eq_of_durationToNs ranged]; exact Int.natCast_nonneg _)
    cases run
    unfold Spreads
    rw [allElements_reduceSeries reduce keepMetricName advances found _
      fun series member => serves.ordered_found queried member]
    refine (serves.read queried ?_).trans ?_
    · intro labels
      apply flatMap_eq_nil_iff.mpr
      intro window _
      rfl
    · have inside : ∀ (series : SeriesData) (t : Int), t ∈ pointsOf startNs endNs stepNs →
          liveWithin (windowOf offsetNs rangeNs anchor t).startNs (windowOf offsetNs rangeNs anchor t).endNs
              (series.clip (gridHull startNs ((pointsOf startNs endNs stepNs).map (windowOf offsetNs rangeNs anchor)))).samples =
            liveWithin (windowOf offsetNs rangeNs anchor t).startNs (windowOf offsetNs rangeNs anchor t).endNs
              series.samples := by
        intro series t member
        have covers := hull_covers startNs (mem_map_of_mem (f := windowOf offsetNs rangeNs anchor) member)
        exact liveWithin_clip covers.1 covers.2
      refine (Perm.of_eq ?_).trans ((flatMap_comm_perm (stored matchers) (pointsOf startNs endNs stepNs) fun series t =>
        stamped t (reducedElement reduce (windowOf offsetNs rangeNs anchor t) keepMetricName series.labels
          (liveWithin (windowOf offsetNs rangeNs anchor t).startNs (windowOf offsetNs rangeNs anchor t).endNs
            series.samples))).trans (Perm.of_eq ?_))
      · apply flatMap_congr
        intro series _
        rw [flatMap_map]
        apply flatMap_congr
        intro t member
        exact congrArg (fun samples => stamped t (reducedElement reduce (windowOf offsetNs rangeNs anchor t)
          keepMetricName series.labels samples)) (inside series t member)
      · apply flatMap_congr
        intro t _
        exact map_flatMap.symm

end Selector

end Ravel.Promql
