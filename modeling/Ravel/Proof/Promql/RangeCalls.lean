import Ravel.Proof.Promql.ReducedWindows

namespace Ravel.Promql

open List Library

theorem overGrid_invariant {State : Type} {endNs stepNs : Int} {body : Int → State → Except Error State}
    (holds : State → Prop) (keeps : ∀ t state next, body t state = .ok next → holds state → holds next) :
    ∀ {fuel : Nat} {t : Int} {state final : State}, overGrid endNs stepNs body fuel t state = .ok final →
      holds state → holds final := by
  intro fuel
  induction fuel with
  | zero =>
    intro t state final run start
    cases run
    exact start
  | succ fuel ih =>
    intro t state final run start
    rw [overGrid] at run
    split at run
    · obtain ⟨next, stepped, run⟩ := ok_of_bind run
      obtain ⟨after, _, run⟩ := ok_of_bind run
      exact ih run (keeps t state next stepped start)
    · cases run
      exact start

/-- No series of a matrix is empty. -/
def SeriesFilled (matrix : RangeMatrix) : Prop := ∀ entry ∈ matrix, entry.2 ≠ []

theorem SeriesFilled.pushElement {matrix : RangeMatrix} (filled : SeriesFilled matrix) (labels : LabelSet)
    (element : Sample) : SeriesFilled (pushElement labels element matrix) := by
  induction matrix with
  | nil =>
    intro entry member
    obtain rfl := mem_singleton.mp member
    simp
  | cons first rest ih =>
    obtain ⟨headed, others⟩ := forall_mem_cons.mp filled
    rw [Promql.pushElement]
    split
    · exact forall_mem_cons.mpr ⟨by simp, others⟩
    · exact forall_mem_cons.mpr ⟨headed, ih others⟩

theorem SeriesFilled.pushAll (t : Int) (elements : List (LabelSet × UInt64)) : ∀ {matrix : RangeMatrix}, SeriesFilled matrix →
    SeriesFilled (elements.foldl (fun series element => Promql.pushElement element.1 ⟨t, element.2⟩ series) matrix) := by
  induction elements with
  | nil => exact fun filled => filled
  | cons element elements ih => exact fun filled => ih (filled.pushElement _ _)

theorem evalInstantOverGrid_filled {startNs endNs stepNs : Int} {stepFn : Int → Except Error Value}
    {matrix : RangeMatrix} (run : evalInstantOverGrid startNs endNs stepNs stepFn = .ok matrix) :
    SeriesFilled matrix := by
  refine overGrid_invariant SeriesFilled ?_ run ?_
  · intro t state next stepped filled
    obtain ⟨value, _, stepped⟩ := ok_of_bind stepped
    obtain ⟨elements, _, stepped⟩ := ok_of_bind stepped
    cases stepped
    exact SeriesFilled.pushAll t elements filled
  · intro entry member
    cases member

theorem evalMatrixSelector_filled {source : SeriesSource} {ms : MatrixSelector} {t : Int} {ctx : QueryWindow}
    {matrix : RangeMatrix} (evaluated : evalMatrixSelector source ms t ctx = .ok matrix) : SeriesFilled matrix := by
  obtain ⟨_, _, evaluated⟩ := ok_of_bind evaluated
  obtain ⟨_, _, evaluated⟩ := ok_of_bind evaluated
  obtain ⟨_, _, evaluated⟩ := ok_of_bind evaluated
  cases evaluated
  intro entry member
  simpa using (mem_filter.mp member).2

theorem rangeWindow_evalTs {arg : MatrixArg} {t : Int} {ctx : QueryWindow} {window : RangeWindow}
    (windowed : rangeWindow arg t ctx = .ok window) : window.evalTsNs = t := by
  cases arg with
  | selector ms =>
    obtain ⟨_, _, windowed⟩ := ok_of_bind windowed
    obtain ⟨_, _, windowed⟩ := ok_of_bind windowed
    obtain ⟨_, _, windowed⟩ := ok_of_bind windowed
    cases windowed
    rfl
  | subquery inner window =>
    obtain ⟨_, _, windowed⟩ := ok_of_bind windowed
    obtain ⟨_, _, windowed⟩ := ok_of_bind windowed
    obtain ⟨_, _, windowed⟩ := ok_of_bind windowed
    cases windowed
    rfl

theorem rangeWindow_selector {ms : MatrixSelector} {t offsetNs rangeNs : Int} {anchor : Option Int} {ctx : QueryWindow}
    {window : RangeWindow} (shifted : signedOffsetNs ms.vs.offset = .ok offsetNs)
    (ranged : durationToNs ms.range = .ok rangeNs)
    (anchored : resolveAt ms.vs.atModifier ctx.startNs ctx.endNs = .ok anchor)
    (windowed : rangeWindow (.selector ms) t ctx = .ok window) : window = windowOf offsetNs rangeNs anchor t := by
  obtain ⟨selTs, moved, windowed⟩ := ok_of_bind windowed
  obtain ⟨rangeAgain, rangedAgain, windowed⟩ := ok_of_bind windowed
  obtain ⟨startNs, started, windowed⟩ := ok_of_bind windowed
  obtain rfl := Except.ok.inj (ranged.symm.trans rangedAgain)
  obtain ⟨offsetAgain, shiftedAgain, moved⟩ := ok_of_bind moved
  obtain ⟨anchorAgain, anchoredAgain, moved⟩ := ok_of_bind moved
  obtain rfl := Except.ok.inj (shifted.symm.trans shiftedAgain)
  obtain rfl := Except.ok.inj (anchored.symm.trans anchoredAgain)
  obtain rfl := eq_of_checkedSub moved
  obtain rfl := eq_of_checkedSub started
  cases windowed
  rfl

theorem elements_applyReduce {matrix : RangeMatrix} (filled : SeriesFilled matrix) {reduce : Reduce}
    {window : RangeWindow} {single : List Sample → Option UInt64} (reduces : ∀ samples, reduce samples window = .ok (single samples))
    (t : Int) (keepMetricName : Bool) :
    stepElements (.vector (applyReduce matrix t keepMetricName single)) =
      .ok (matrix.flatMap fun entry => reducedElement reduce window keepMetricName entry.1 entry.2) := by
  change Except.ok _ = Except.ok _
  congr 1
  induction matrix with
  | nil => rfl
  | cons entry matrix ih =>
    obtain ⟨headed, others⟩ := forall_mem_cons.mp filled
    rw [flatMap_cons, ← ih others, reducedElement, if_neg (by simpa using headed), reduces]
    cases reduced : single entry.2 with
    | none => simp [applyReduce, reduced]
    | some value => simp [applyReduce, reduced]

section Reductions

variable {source : SeriesSource} {stored : List LabelMatcher → List SeriesData} (serves : source.Serves stored)

include serves

omit serves in
theorem argument_map_ok {Argument Image : Type} {arguments : List Argument} {image : Argument → Image} {position : Nat}
    {found : Argument} (placed : argument arguments position = .ok found) :
    argument (arguments.map image) position = .ok (image found) := by
  unfold argument at placed ⊢
  rw [getElem?_map]
  split at placed
  · rename_i present
    cases placed
    rw [present]
    rfl
  · cases placed

/-- The whole-grid reduction of an argument reduces its matrix at every instant. -/
theorem evalMatrixArgRangeReduction_spreads {arg : MatrixArg} {value : Int → Except Error Value}
    {startNs endNs stepNs : Int} {ctx : QueryWindow} {keepMetricName : Bool} {reduce : Reduce}
    {outcome : RangeMatrix × Option Error} (positive : 0 < stepNs)
    (run : evalMatrixArgRangeReduction source arg value startNs endNs stepNs ctx keepMetricName reduce = .ok outcome) :
    ∃ elementsOf, Spreads (pointsOf startNs endNs stepNs) elementsOf outcome.1 ∧
      (∀ t window matrix, rangeWindow arg t ctx = .ok window → evalMatrixArg source arg (value t) t ctx = .ok matrix →
        (elementsOf t).Perm
          (matrix.flatMap fun entry => reducedElement reduce window keepMetricName entry.1 entry.2)) ∧
      ∀ ms matchers t window, arg = .selector ms → buildMatchers ms.vs = .ok matchers →
        rangeWindow arg t ctx = .ok window →
        elementsOf t = reducedSeries reduce window keepMetricName (stored matchers) := by
  cases arg with
  | selector ms =>
    obtain ⟨matchers, offsetNs, rangeNs, anchor, built, shifted, ranged, anchored, spread⟩ :=
      evalRangeMatrixReduction_spreads serves positive run
    refine ⟨_, spread, ?_, ?_⟩
    · intro t window matrix windowed evaluated
      obtain rfl := rangeWindow_selector shifted ranged anchored windowed
      exact (evalMatrixSelector_reduced serves reduce keepMetricName built windowed evaluated).symm
    · intro other matchersAgain t window same builtAgain windowed
      obtain rfl := MatrixArg.selector.inj same
      obtain rfl := Except.ok.inj (built.symm.trans builtAgain)
      obtain rfl := rangeWindow_selector shifted ranged anchored windowed
      rfl
  | subquery inner subqueryWindow =>
    have folded := ((overGrid_pointsOf positive).mp run).1
    let elementsOf (t : Int) : List (LabelSet × UInt64) :=
      Option.getD (Except.toOption do
        let matrix ← matrixValue (value t)
        let window ← rangeWindow (.subquery inner subqueryWindow) t ctx
        return matrix.flatMap fun entry => reducedElement reduce window keepMetricName entry.1 entry.2) []
    refine ⟨elementsOf, ?_, ?_, ?_⟩
    · have gathered := foldlM_gathers (fun state : RangeMatrix × Option Error => allElements state.1)
        (fun t => stamped t (elementsOf t)) ?_ folded
      · simpa [Spreads, allElements] using gathered
      · intro t _ state next stepped
        obtain ⟨matrix, evaluated, stepped⟩ := ok_of_bind stepped
        obtain ⟨window, windowed, stepped⟩ := ok_of_bind stepped
        cases stepped
        have known : elementsOf t =
            matrix.flatMap fun entry => reducedElement reduce window keepMetricName entry.1 entry.2 := by
          simp only [elementsOf, evaluated, windowed, ok_bind]
          rfl
        rw [known, ← rangeWindow_evalTs windowed]
        exact allElements_reduceMatrix reduce window keepMetricName matrix state
    · intro t window matrix windowed evaluated
      have evaluated : matrixValue (value t) = .ok matrix := evaluated
      apply Perm.of_eq
      simp only [elementsOf, evaluated, windowed, ok_bind]
      rfl
    · intro ms _ _ _ selected
      cases selected

/-- A whole-grid reduction carries the reduced vector of every instant. -/
theorem reduction_carries {arg : MatrixArg} {value : Int → Except Error Value} {startNs endNs stepNs : Int}
    {ctx : QueryWindow} {keepMetricName : Bool} {reduce : Reduce} {outcome : RangeMatrix × Option Error}
    {instantAt : Int → Except Error Value} (positive : 0 < stepNs)
    (filled : ∀ t matrix, evalMatrixArg source arg (value t) t ctx = .ok matrix → SeriesFilled matrix)
    (run : evalMatrixArgRangeReduction source arg value startNs endNs stepNs ctx keepMetricName reduce = .ok outcome)
    (instants : ∀ t result, instantAt t = .ok result → ∃ window matrix single, rangeWindow arg t ctx = .ok window ∧
      evalMatrixArg source arg (value t) t ctx = .ok matrix ∧ (∀ samples, reduce samples window = .ok (single samples)) ∧
      result = .vector (applyReduce matrix t keepMetricName single)) :
    Carries (pointsOf startNs endNs stepNs) outcome.1 instantAt := by
  obtain ⟨elementsOf, spread, reduced, _⟩ := evalMatrixArgRangeReduction_spreads serves positive run
  refine ⟨elementsOf, spread, ?_⟩
  intro t _ result elements evaluated listed
  obtain ⟨window, matrix, single, windowed, read, reduces, rfl⟩ := instants t result evaluated
  rw [elements_applyReduce (filled t matrix read) reduces] at listed
  cases listed
  exact reduced t window matrix windowed read

theorem countedElements_perm {matchers : List LabelMatcher} {window : RangeWindow} {ofCount : Nat → UInt64}
    {results : List (LabelSet × Nat)} (keepMetricName : Bool)
    (answered : source.queryPrecomputedCount matchers window.startNs window.endNs = .ok (some results)) :
    (reducedSeries (fun samples window => .ok (countOverTime ofCount samples window)) window keepMetricName
        (stored matchers)).Perm
      (results.map fun result => (resultLabels keepMetricName result.1, ofCount result.2)) := by
  have exact := (serves.counts _ _ _ _ answered).map fun result => (resultLabels keepMetricName result.1, ofCount result.2)
  refine (Perm.of_eq ?_).trans exact.symm
  unfold reducedSeries nonzeroCounts
  induction stored matchers with
  | nil => rfl
  | cons series rest ih =>
    rw [flatMap_cons, ih, map_cons]
    unfold reducedElement
    by_cases empty : (liveWithin window.startNs window.endNs series.samples).isEmpty
    · rw [if_pos empty, List.isEmpty_iff.mp empty, filter_cons_of_neg (by simp), nil_append]
    · have counted : (liveWithin window.startNs window.endNs series.samples).length ≠ 0 := by
        simpa [List.isEmpty_iff] using empty
      rw [if_neg empty, filter_cons_of_pos (by simpa using counted)]
      rfl

omit serves in
theorem absentOverTimeRange_carries {arg : MatrixArg} {value : Int → Except Error Value} {startNs endNs stepNs : Int}
    {ctx : QueryWindow} {matrix : RangeMatrix} (positive : 0 < stepNs)
    (run : absentOverTimeRange source arg value startNs endNs stepNs ctx = .ok matrix) :
    Carries (pointsOf startNs endNs stepNs) matrix fun t => do
      let vector ← absentOverTimeInstant source arg (value t) t ctx
      return .vector vector := by
  obtain ⟨elements, gathered, run⟩ := ok_of_bind run
  have folded := ((overGrid_pointsOf positive).mp gathered).1
  let elementsOf (t : Int) : List (LabelSet × UInt64) :=
    match evalMatrixArg source arg (value t) t ctx with
    | .ok matrix => if matrix.isEmpty then [(matrixArgAbsentLabels arg, oneBits)] else []
    | .error _ => []
  have labelled : allElements matrix = elements.map fun sample => (matrixArgAbsentLabels arg, sample) := by
    split at run
    · rename_i empty
      cases run
      rw [List.isEmpty_iff.mp empty]
      rfl
    · cases run
      simp [allElements]
  refine ⟨elementsOf, ?_, ?_⟩
  · have spread := foldlM_gathers
      (fun elements : List Sample => elements.map fun sample => (matrixArgAbsentLabels arg, sample))
      (fun t => stamped t (elementsOf t)) ?_ folded
    · rw [Spreads, labelled]
      simpa using spread
    · intro t _ state next stepped
      obtain ⟨read, evaluated, stepped⟩ := ok_of_bind stepped
      cases stepped
      simp only [elementsOf, evaluated]
      by_cases empty : read.isEmpty <;> simp [empty, stamped]
  · intro t _ result listed evaluated shown
    obtain ⟨vector, vectorOk, returned⟩ := ok_of_bind evaluated
    cases returned
    obtain ⟨read, readOk, absent⟩ := ok_of_bind vectorOk
    simp only [elementsOf, readOk]
    split at absent
    all_goals
      rename_i known
      cases absent
      cases shown
      simp [known]

end Reductions

theorem precomputedCount_some {source : SeriesSource} {func : String} {arg : MatrixArg} {window : RangeWindow}
    {results : List (LabelSet × Nat)} (answered : precomputedCount source func arg window = .ok (some results)) :
    func = "count_over_time" ∧ ∃ ms matchers, arg = .selector ms ∧ buildMatchers ms.vs = .ok matchers ∧
      source.queryPrecomputedCount matchers window.startNs window.endNs = .ok (some results) := by
  unfold precomputedCount at answered
  split at answered
  · rename_i ms counts
    obtain ⟨matchers, built, answered⟩ := ok_of_bind answered
    refine ⟨by simpa using counts, ms, matchers, rfl, built, ?_⟩
    split at answered
    · rename_i found
      cases answered
      exact found
    · cases answered
  · cases answered

theorem eq_of_raiseStash {outcome : RangeMatrix × Option Error} {matrix : RangeMatrix}
    (raised : raiseStash outcome = .ok matrix) : matrix = outcome.1 := by
  unfold raiseStash at raised
  split at raised
  · cases raised
  · exact (Except.ok.inj raised).symm

section Calls

variable {source : SeriesSource} {stored : List LabelMatcher → List SeriesData} (serves : source.Serves stored)
variable {ops : Operators} {ctx : QueryWindow} {func : String} {args : List Expr}
  {values : List (Int → Except Error Value)} {startNs endNs stepNs : Int} {matrix : RangeMatrix}
variable (positive : 0 < stepNs)
  (filled : ∀ position expr arg value, argument args position = .ok expr → matrixArg expr = .ok arg →
    argument values position = .ok value → ∀ t matrix, evalMatrixArg source arg (value t) t ctx = .ok matrix →
    SeriesFilled matrix)
  (run : evalRangeCall ops source ctx func args values startNs endNs stepNs = .ok matrix)

include serves positive filled run

theorem rangeVector_carries {reduce : List Sample → RangeWindow → Option UInt64}
    (known : ops.lookup func = some (.rangeVector reduce)) :
    Carries (pointsOf startNs endNs stepNs) matrix fun t =>
      evalCall ops source ctx func args (values.map fun value => value t) t := by
  simp only [evalRangeCall, known] at run
  obtain ⟨expr, placed, run⟩ := ok_of_bind run
  obtain ⟨arg, shaped, run⟩ := ok_of_bind run
  obtain ⟨value, valued, run⟩ := ok_of_bind run
  obtain ⟨outcome, reduction, run⟩ := ok_of_bind run
  cases run
  obtain ⟨elementsOf, spread, reduced, summed⟩ := evalMatrixArgRangeReduction_spreads serves positive reduction
  refine ⟨elementsOf, spread, ?_⟩
  intro t _ result elements evaluated listed
  simp only [evalCall, known, placed, shaped, argument_map_ok valued, ok_bind] at evaluated
  obtain ⟨window, windowed, evaluated⟩ := ok_of_bind evaluated
  obtain ⟨answer, answered, evaluated⟩ := ok_of_bind evaluated
  cases answer with
  | none =>
    obtain ⟨read, readOk, evaluated⟩ := ok_of_bind evaluated
    cases evaluated
    rw [@elements_applyReduce _ (filled _ _ _ _ placed shaped valued t read readOk)
      (fun samples window => .ok (reduce samples window)) _ _ fun _ => rfl] at listed
    cases listed
    exact reduced t window read windowed readOk
  | some results =>
    cases evaluated
    cases listed
    obtain ⟨named, ms, matchers, selected, built, found⟩ := precomputedCount_some answered
    have counting : reduce = countOverTime ops.ofCount := by
      have same := ops.counts
      rw [← named, known] at same
      simpa using same
    rw [summed ms matchers t window selected built windowed, counting, map_map]
    exact countedElements_perm serves _ found

theorem rangeVectorScalar_carries {reduce : List Sample → RangeWindow → UInt64 → Option UInt64}
    (known : ops.lookup func = some (.rangeVectorScalar reduce)) :
    Carries (pointsOf startNs endNs stepNs) matrix fun t =>
      evalCall ops source ctx func args (values.map fun value => value t) t := by
  simp only [evalRangeCall, known] at run
  obtain ⟨expr, placed, run⟩ := ok_of_bind run
  obtain ⟨arg, shaped, run⟩ := ok_of_bind run
  obtain ⟨scalarValue, scaled, run⟩ := ok_of_bind run
  obtain ⟨value, valued, run⟩ := ok_of_bind run
  obtain ⟨outcome, reduction, run⟩ := ok_of_bind run
  rw [eq_of_raiseStash run]
  refine reduction_carries serves positive (filled _ _ _ _ placed shaped valued) reduction ?_
  intro t result evaluated
  simp only [evalCall, known, placed, shaped, argument_map_ok scaled, argument_map_ok valued, ok_bind] at evaluated
  obtain ⟨scalar, scalarOk, evaluated⟩ := ok_of_bind evaluated
  obtain ⟨window, windowed, evaluated⟩ := ok_of_bind evaluated
  obtain ⟨read, readOk, evaluated⟩ := ok_of_bind evaluated
  cases evaluated
  refine ⟨window, read, _, windowed, readOk, ?_, rfl⟩
  intro samples
  -- The reduction evaluates the scalar at the instant of its window.
  rw [rangeWindow_evalTs windowed, scalarOk]
  rfl

theorem rangeVectorFloatOrHist_carries {float : List Sample → RangeWindow → Option UInt64}
    (known : ops.lookup func = some (.rangeVectorFloatOrHist float)) :
    Carries (pointsOf startNs endNs stepNs) matrix fun t =>
      evalCall ops source ctx func args (values.map fun value => value t) t := by
  simp only [evalRangeCall, known] at run
  obtain ⟨expr, placed, run⟩ := ok_of_bind run
  obtain ⟨arg, shaped, run⟩ := ok_of_bind run
  obtain ⟨value, valued, run⟩ := ok_of_bind run
  obtain ⟨outcome, reduction, run⟩ := ok_of_bind run
  cases run
  refine reduction_carries serves positive (filled _ _ _ _ placed shaped valued) reduction ?_
  intro t result evaluated
  simp only [evalCall, known, placed, shaped, argument_map_ok valued, ok_bind] at evaluated
  obtain ⟨window, windowed, evaluated⟩ := ok_of_bind evaluated
  obtain ⟨read, readOk, evaluated⟩ := ok_of_bind evaluated
  cases evaluated
  exact ⟨window, read, _, windowed, readOk, fun _ => rfl, rfl⟩

theorem scalarRangeVector_carries {reduce : UInt64 → List Sample → RangeWindow → Option UInt64}
    (known : ops.lookup func = some (.scalarRangeVector reduce)) :
    Carries (pointsOf startNs endNs stepNs) matrix fun t =>
      evalCall ops source ctx func args (values.map fun value => value t) t := by
  simp only [evalRangeCall, known] at run
  obtain ⟨scalarValue, scaled, run⟩ := ok_of_bind run
  obtain ⟨expr, placed, run⟩ := ok_of_bind run
  obtain ⟨arg, shaped, run⟩ := ok_of_bind run
  obtain ⟨value, valued, run⟩ := ok_of_bind run
  obtain ⟨outcome, reduction, run⟩ := ok_of_bind run
  rw [eq_of_raiseStash run]
  refine reduction_carries serves positive (filled _ _ _ _ placed shaped valued) reduction ?_
  intro t result evaluated
  simp only [evalCall, known, placed, shaped, argument_map_ok scaled, argument_map_ok valued, ok_bind] at evaluated
  obtain ⟨scalar, scalarOk, evaluated⟩ := ok_of_bind evaluated
  obtain ⟨window, windowed, evaluated⟩ := ok_of_bind evaluated
  obtain ⟨read, readOk, evaluated⟩ := ok_of_bind evaluated
  cases evaluated
  refine ⟨window, read, _, windowed, readOk, ?_, rfl⟩
  intro samples
  rw [rangeWindow_evalTs windowed, scalarOk]
  rfl

omit serves filled in
theorem absentOverTime_carries (known : ops.lookup func = some .absentOverTime) :
    Carries (pointsOf startNs endNs stepNs) matrix fun t =>
      evalCall ops source ctx func args (values.map fun value => value t) t := by
  simp only [evalRangeCall, known] at run
  obtain ⟨expr, placed, run⟩ := ok_of_bind run
  obtain ⟨arg, shaped, run⟩ := ok_of_bind run
  obtain ⟨value, valued, run⟩ := ok_of_bind run
  obtain ⟨elementsOf, spread, carried⟩ := absentOverTimeRange_carries positive run
  refine ⟨elementsOf, spread, ?_⟩
  intro t onGrid result elements evaluated listed
  simp only [evalCall, known, placed, shaped, argument_map_ok valued, ok_bind] at evaluated
  exact carried t onGrid result elements evaluated listed

/-- A call over the grid carries the call at every instant. -/
theorem evalRangeCall_carries : Carries (pointsOf startNs endNs stepNs) matrix fun t =>
    evalCall ops source ctx func args (values.map fun value => value t) t := by
  cases known : ops.lookup func with
  | none =>
    simp only [evalRangeCall, known] at run
    cases run
  | some kind =>
    cases kind with
    | rangeVector reduce => exact rangeVector_carries serves positive filled run known
    | rangeVectorScalar reduce => exact rangeVectorScalar_carries serves positive filled run known
    | rangeVectorFloatOrHist float => exact rangeVectorFloatOrHist_carries serves positive filled run known
    | scalarRangeVector reduce => exact scalarRangeVector_carries serves positive filled run known
    | absentOverTime => exact absentOverTime_carries positive run known
    | histogramQuantile _ | histogramFraction _ | vectorMap _ | instant _ =>
      simp only [evalRangeCall, known] at run
      exact evalInstantOverGrid_carries positive run

end Calls

end Ravel.Promql
