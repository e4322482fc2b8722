import Ravel.Proof.Promql.PrefetchWindows
import Ravel.Proof.Promql.RangeCalls

namespace Ravel.Promql

open List Library

/-- What the lookback finds of one series. -/
def pickedElement (lookbackDeltaNs selTsNs : Int) (series : SeriesData) : List (LabelSet × UInt64) :=
  ((pickSample series.samples selTsNs lookbackDeltaNs).map fun picked => (series.labels, picked.1)).toList

theorem pickedElement_clip {series : SeriesData} (ordered : KeyOrdered Metrics.Sample.tsNs series.samples)
    {window : TimeRange} {selTsNs lookbackDeltaNs : Int} (starts : window.startNs ≤ selTsNs - lookbackDeltaNs)
    (ends : selTsNs ≤ window.endNs) :
    pickedElement lookbackDeltaNs selTsNs (series.clip window) = pickedElement lookbackDeltaNs selTsNs series := by
  unfold pickedElement
  rw [pickSample_clip ordered starts ends]
  rfl

theorem pickedElement_nil (lookbackDeltaNs selTsNs : Int) (labels : LabelSet) :
    pickedElement lookbackDeltaNs selTsNs ⟨labels, []⟩ = [] := rfl

/-- An element of a selector under a hoisted negation. -/
def turnedElement (negate : Bool) (element : LabelSet × UInt64) : LabelSet × UInt64 :=
  (if negate then element.1.dropMetricName else element.1, if negate then negateBits element.2 else element.2)

theorem map_pickedSamples (negate : Bool) (lookbackDeltaNs : Int) (series : SeriesData) (grid : List (Int × Int)) :
    (grid.filterMap fun point => (pickSample series.samples point.2 lookbackDeltaNs).map fun picked =>
        (⟨point.1, if negate then negateBits picked.1 else picked.1⟩ : Sample)).map
        (fun sample => (if negate then series.labels.dropMetricName else series.labels, sample)) =
      grid.flatMap fun point => stamped point.1 ((pickedElement lookbackDeltaNs point.2 series).map (turnedElement negate)) := by
  induction grid with
  | nil => rfl
  | cons point grid ih =>
    rw [flatMap_cons, ← ih, pickedElement]
    cases picked : pickSample series.samples point.2 lookbackDeltaNs with
    | none => simp [picked, stamped]
    | some found => simp [picked, stamped, turnedElement]

/-- Leaving out the empty series leaves out no element. -/
theorem allElements_filled (matrix : RangeMatrix) :
    allElements (matrix.filter fun entry => !entry.2.isEmpty) = allElements matrix := by
  induction matrix with
  | nil => rfl
  | cons entry matrix ih =>
    by_cases empty : entry.2.isEmpty
    · rw [filter_cons_of_neg (by simp [empty]), ih]
      simp [allElements, List.isEmpty_iff.mp empty]
    · rw [filter_cons_of_pos (by simp [empty])]
      simp only [allElements, flatMap_cons] at ih ⊢
      rw [ih]

section Selectors

variable {evaluator : Evaluator} {source : SeriesSource} {stored : List LabelMatcher → List SeriesData}
  (serves : source.Serves stored)

include serves

theorem evalVectorSelector_picked {vs : VectorSelector} {t : Int} {ctx : QueryWindow} {vector : InstantVector}
    {matchers : List LabelMatcher} {offsetNs : Int} {anchor : Option Int} (built : buildMatchers vs = .ok matchers)
    (shifted : signedOffsetNs vs.offset = .ok offsetNs)
    (anchored : resolveAt vs.atModifier ctx.startNs ctx.endNs = .ok anchor)
    (evaluated : evaluator.evalVectorSelector source vs t ctx = .ok vector) :
    (vector.map fun sample => (sample.labels, sample.value)).Perm
      ((stored matchers).flatMap (pickedElement evaluator.lookbackDeltaNs (anchor.getD t - offsetNs))) := by
  obtain ⟨matchersAgain, builtAgain, evaluated⟩ := ok_of_bind evaluated
  obtain rfl := Except.ok.inj (built.symm.trans builtAgain)
  obtain ⟨window, windowed, evaluated⟩ := ok_of_bind evaluated
  obtain ⟨found, queried, evaluated⟩ := ok_of_bind evaluated
  cases evaluated
  obtain ⟨selTs, moved, windowed⟩ := ok_of_bind windowed
  obtain ⟨offsetAgain, shiftedAgain, moved⟩ := ok_of_bind moved
  obtain ⟨anchorAgain, anchoredAgain, moved⟩ := ok_of_bind moved
  obtain rfl := Except.ok.inj (shifted.symm.trans shiftedAgain)
  obtain rfl := Except.ok.inj (anchored.symm.trans anchoredAgain)
  obtain rfl := eq_of_checkedSub moved
  obtain ⟨startNs, started, windowed⟩ := ok_of_bind windowed
  obtain rfl := eq_of_checkedSub started
  cases windowed
  have elements : ∀ series : List SeriesData, (series.filterMap fun found =>
        (pickSample found.samples (anchor.getD t - offsetNs) evaluator.lookbackDeltaNs).map fun picked =>
          (⟨found.labels, t, picked.2, picked.1⟩ : InstantSample)).map (fun sample => (sample.labels, sample.value)) =
      series.flatMap (pickedElement evaluator.lookbackDeltaNs (anchor.getD t - offsetNs)) := by
    intro series
    induction series with
    | nil => rfl
    | cons first rest ih =>
      rw [flatMap_cons, ← ih, pickedElement]
      cases picked : pickSample first.samples (anchor.getD t - offsetNs) evaluator.lookbackDeltaNs <;> simp [picked]
  rw [elements]
  refine (serves.read queried (pickedElement_nil _ _)).trans (Perm.of_eq ?_)
  apply flatMap_congr
  intro series listed
  exact pickedElement_clip (serves.ordered _ _ listed) (le_refl _) (le_refl _)

/-- A selector over the grid picks from the stored series at every instant. -/
theorem evalRangeSelector_spreads {vs : VectorSelector} {startNs endNs stepNs : Int} {ctx : QueryWindow} {negate : Bool}
    {matrix : RangeMatrix} (positive : 0 < stepNs)
    (run : evaluator.evalRangeSelector source vs startNs endNs stepNs ctx negate = .ok matrix) :
    ∃ matchers offsetNs anchor, buildMatchers vs = .ok matchers ∧ signedOffsetNs vs.offset = .ok offsetNs ∧
      resolveAt vs.atModifier ctx.startNs ctx.endNs = .ok anchor ∧
      Spreads (pointsOf startNs endNs stepNs) (fun t => ((stored matchers).flatMap
        (pickedElement evaluator.lookbackDeltaNs (anchor.getD t - offsetNs))).map (turnedElement negate)) matrix := by
  obtain ⟨matchers, built, run⟩ := ok_of_bind run
  obtain ⟨offsetNs, shifted, run⟩ := ok_of_bind run
  obtain ⟨anchor, anchored, run⟩ := ok_of_bind run
  obtain ⟨grid, gridded, run⟩ := ok_of_bind run
  obtain rfl := selectorGrid_eq positive gridded
  refine ⟨matchers, offsetNs, anchor, built, shifted, anchored, ?_⟩
  split at run
  · rename_i empty
    cases run
    have none : pointsOf startNs endNs stepNs = [] := by simpa using empty
    simp [Spreads, allElements, none]
  · obtain ⟨windowStart, started, run⟩ := ok_of_bind run
    obtain rfl := eq_of_checkedSub started
    obtain ⟨found, queried, returned⟩ := ok_of_bind run
    cases returned
    let picks (series : SeriesData) (t : Int) : List (LabelSet × Sample) :=
      stamped t ((pickedElement evaluator.lookbackDeltaNs (anchor.getD t - offsetNs) series).map (turnedElement negate))
    unfold Spreads
    rw [allElements_filled, allElements, flatMap_map]
    simp only [map_pickedSamples, flatMap_map]
    refine (serves.read queried ?_).trans ?_
    · intro labels
      apply flatMap_eq_nil_iff.mpr
      intro t _
      rfl
    · refine (Perm.of_eq ?_).trans
        ((flatMap_comm_perm (stored matchers) (pointsOf startNs endNs stepNs) picks).trans (Perm.of_eq ?_))
      · apply flatMap_congr
        intro series listed
        apply flatMap_congr
        intro t onGrid
        have covers := mem_hull startNs (mem_map_of_mem (f := Prod.snd)
          (mem_map_of_mem (f := fun t => (t, anchor.getD t - offsetNs)) onGrid))
        simp only [picks]
        rw [pickedElement_clip (serves.ordered _ _ listed) _ covers.2]
        exact Int.sub_le_sub_right covers.1 _
      · apply flatMap_congr
        intro t _
        simp only [picks, stamped]
        rw [map_flatMap, map_flatMap]

end Selectors

/-- The elements of a successful evaluation to a vector or a scalar. -/
def ElementsOf (outcome : Except Error Value) (elements : List (LabelSet × UInt64)) : Prop :=
  ∃ value, outcome = .ok value ∧ stepElements value = .ok elements

/-- The elements that a range result carries at an instant. A scalar is one element without labels. -/
def RangeValue.elementsAt (t : Int) : RangeValue → List (LabelSet × UInt64)
  | .scalar value => [(.empty, value)]
  | .string _ => []
  | .matrix series =>
    ((allElements series).filter fun element => element.2.tsNs = t).map fun element => (element.1, element.2.value)

theorem filter_stamped (t point : Int) (elements : List (LabelSet × UInt64)) :
    ((stamped point elements).filter fun element => element.2.tsNs = t).map (fun element => (element.1, element.2.value)) =
      if point = t then elements else [] := by
  unfold stamped
  by_cases same : point = t
  · rw [if_pos same, filter_eq_self.mpr]
    · rw [map_map]
      exact map_id elements
    · intro element member
      obtain ⟨_, _, rfl⟩ := mem_map.mp member
      simpa using same
  · rw [if_neg same, filter_eq_nil_iff.mpr]
    · rfl
    · intro element member
      obtain ⟨_, _, rfl⟩ := mem_map.mp member
      simpa using same

theorem Spreads.elementsAt {grid : List Int} {elementsOf : Int → List (LabelSet × UInt64)} {matrix : RangeMatrix}
    (spread : Spreads grid elementsOf matrix) (distinct : grid.Nodup) (t : Int) :
    ((RangeValue.matrix matrix).elementsAt t).Perm (if t ∈ grid then elementsOf t else []) := by
  refine ((spread.filter _).map _).trans (Perm.of_eq ?_)
  clear spread
  induction grid with
  | nil => rfl
  | cons point grid ih =>
    obtain ⟨fresh, distinct⟩ := nodup_cons.mp distinct
    rw [flatMap_cons, filter_append, map_append, filter_stamped, ih distinct]
    by_cases same : point = t
    · subst same
      simp [fresh]
    · simp [same, Ne.symm same]

/-- The expression below the parentheses and minuses. -/
def Expr.core : Expr → Expr
  | .paren expr => expr.core
  | .unary expr => expr.core
  | expr => expr

/-- How many minuses stand before the core. -/
def Expr.minuses : Expr → Nat
  | .paren expr => expr.minuses
  | .unary expr => expr.minuses + 1
  | _ => 0

/-- An element under some minuses. -/
def wrappedElement (minuses : Nat) (element : LabelSet × UInt64) : LabelSet × UInt64 :=
  (if minuses = 0 then element.1 else element.1.dropMetricName,
    if minuses % 2 = 1 then negateBits element.2 else element.2)

theorem negateBits_negateBits (value : UInt64) : negateBits (negateBits value) = value := by
  unfold negateBits
  rw [UInt64.xor_assoc, UInt64.xor_self, UInt64.xor_zero]

theorem LabelSet.dropMetricName_idem (set : LabelSet) : set.dropMetricName.dropMetricName = set.dropMetricName := by
  unfold LabelSet.dropMetricName
  simp only [filter_filter, Bool.and_self]

theorem wrappedElement_zero : wrappedElement 0 = id := by
  funext element
  simp [wrappedElement]

theorem wrappedElement_succ (minuses : Nat) (element : LabelSet × UInt64) :
    wrappedElement (minuses + 1) element =
      ((wrappedElement minuses element).1.dropMetricName, negateBits (wrappedElement minuses element).2) := by
  unfold wrappedElement
  by_cases odd : minuses % 2 = 1
  · have even : ¬ (minuses + 1) % 2 = 1 := by omega
    have some : ¬ minuses = 0 := by omega
    simp [odd, even, some, negateBits_negateBits, LabelSet.dropMetricName_idem]
  · have even : (minuses + 1) % 2 = 1 := by omega
    by_cases none : minuses = 0
    · simp [none]
    · simp [odd, even, none, LabelSet.dropMetricName_idem]

/-- A minus negates the elements and drops their names. -/
theorem elementsOf_negateValue {outcome : Except Error Value} {elements : List (LabelSet × UInt64)} :
    ElementsOf (do let value ← outcome; negateValue value) elements ↔
      ∃ inner, ElementsOf outcome inner ∧
        elements = inner.map fun element => (element.1.dropMetricName, negateBits element.2) := by
  constructor
  · rintro ⟨value, evaluated, listed⟩
    obtain ⟨inner, innerOk, negated⟩ := ok_of_bind evaluated
    cases inner with
    | scalar bits =>
      cases negated
      cases listed
      exact ⟨_, ⟨_, innerOk, rfl⟩, rfl⟩
    | vector samples =>
      cases negated
      cases listed
      refine ⟨_, ⟨_, innerOk, rfl⟩, ?_⟩
      simp [negateVector]
    | string text => cases negated
    | matrix series => cases negated
  · rintro ⟨inner, ⟨value, evaluated, listed⟩, rfl⟩
    cases value with
    | scalar bits =>
      cases listed
      exact ⟨_, bind_eq_ok.mpr ⟨_, evaluated, rfl⟩, rfl⟩
    | vector samples =>
      cases listed
      refine ⟨_, bind_eq_ok.mpr ⟨_, evaluated, rfl⟩, ?_⟩
      simp [negateVector, stepElements]
    | string text => cases listed
    | matrix series => cases listed

section Wrappers

variable {evaluator : Evaluator} {ops : Operators} {source : SeriesSource} {ctx : QueryWindow}

/-- The elements of an expression are those of its core under the minuses. -/
theorem elementsOf_wrapped (t : Int) : ∀ (expr : Expr) (elements : List (LabelSet × UInt64)),
    ElementsOf (evaluator.evalExpr ops source ctx expr t) elements ↔
      ∃ inner, ElementsOf (evaluator.evalExpr ops source ctx expr.core t) inner ∧
        elements = inner.map (wrappedElement expr.minuses)
  | .paren expr, elements => by
    rw [Evaluator.evalExpr]
    exact elementsOf_wrapped t expr elements
  | .unary expr, elements => by
    rw [Evaluator.evalExpr, elementsOf_negateValue]
    constructor
    · rintro ⟨middle, evaluated, rfl⟩
      obtain ⟨inner, innerOk, rfl⟩ := (elementsOf_wrapped t expr middle).mp evaluated
      refine ⟨inner, innerOk, ?_⟩
      rw [map_map]
      apply map_congr_left
      intro element _
      exact (wrappedElement_succ expr.minuses element).symm
    · rintro ⟨inner, innerOk, rfl⟩
      refine ⟨_, (elementsOf_wrapped t expr _).mpr ⟨inner, innerOk, rfl⟩, ?_⟩
      rw [map_map]
      apply map_congr_left
      intro element _
      exact wrappedElement_succ expr.minuses element
  | .numberLiteral _, _ | .stringLiteral _, _ | .vectorSelector _, _ | .matrixSelector _, _ | .call _ _, _
  | .binary _ _ _ _, _ | .aggregate _ _ _ _, _ | .subquery _ _, _ | .extension _, _ => by
    simp [Expr.core, Expr.minuses, wrappedElement_zero]

end Wrappers

theorem resolveRangeCore_core (outermost : Expr) : ∀ (expr : Expr) (negate : Bool),
    resolveRangeCore outermost expr negate =
      resolveRangeCore outermost expr.core (negate ^^ decide (expr.minuses % 2 = 1))
  | .paren expr, negate => resolveRangeCore_core outermost expr negate
  | .unary expr, negate => by
    rw [resolveRangeCore, resolveRangeCore_core outermost expr]
    change resolveRangeCore outermost expr.core _ = resolveRangeCore outermost expr.core _
    congr 1
    have flips : decide ((expr.minuses + 1) % 2 = 1) = !decide (expr.minuses % 2 = 1) := by
      rw [← decide_not]
      apply decide_eq_decide.mpr
      omega
    change _ = (negate ^^ decide ((expr.minuses + 1) % 2 = 1))
    rw [flips]
    cases negate <;> simp
  | .numberLiteral _, _ | .stringLiteral _, _ | .vectorSelector _, _ | .matrixSelector _, _ | .call _ _, _
  | .binary _ _ _ _, _ | .aggregate _ _ _ _, _ | .subquery _ _, _ | .extension _, _ => by
    simp [Expr.core, Expr.minuses]

/-- A subquery argument has the value of the subquery. -/
theorem evalExpr_subquery {evaluator : Evaluator} {ops : Operators} {source : SeriesSource} {ctx : QueryWindow}
    {inner : Expr} {window : SubqueryWindow} (t : Int) {expr : Expr}
    (shaped : matrixArg expr = .ok (.subquery inner window)) :
    evaluator.evalExpr ops source ctx expr t = evaluator.evalExpr ops source ctx (.subquery inner window) t :=
  read_matrixArg (fun expr => evaluator.evalExpr ops source ctx expr t) (fun _ => by rw [Evaluator.evalExpr]) shaped

/-- The matrices of a call's arguments have no empty series. -/
theorem evalMatrixArg_filled {evaluator : Evaluator} {ops : Operators} {source : SeriesSource} {ctx : QueryWindow}
    {expr : Expr} {arg : MatrixArg} (shaped : matrixArg expr = .ok arg) {t : Int} {matrix : RangeMatrix}
    (evaluated : evalMatrixArg source arg (evaluator.evalExpr ops source ctx expr t) t ctx = .ok matrix) :
    SeriesFilled matrix := by
  cases arg with
  | selector ms => exact evalMatrixSelector_filled evaluated
  | subquery inner window =>
    rw [evalExpr_subquery t shaped, Evaluator.evalExpr] at evaluated
    obtain ⟨value, valued, returned⟩ := ok_of_bind evaluated
    obtain ⟨read, readOk, valued⟩ := ok_of_bind valued
    cases valued
    cases returned
    obtain ⟨grid, _, readOk⟩ := ok_of_bind readOk
    split at readOk
    · cases readOk
      intro entry member
      cases member
    · exact evalInstantOverGrid_filled readOk

theorem evalArgs_eq_map {evaluator : Evaluator} {ops : Operators} {source : SeriesSource} {ctx : QueryWindow}
    (args : List Expr) (t : Int) : evaluator.evalArgs ops source ctx args t =
      (args.map fun expr => evaluator.evalExpr ops source ctx expr).map fun value => value t := by
  induction args with
  | nil => rw [Evaluator.evalArgs]; rfl
  | cons expr args ih =>
    rw [Evaluator.evalArgs, ih]
    rfl

section Agreement

variable (evaluator : Evaluator) (ops : Operators) (source : SeriesSource) (expr : Expr) (startNs endNs stepNs : Int)

/-- At every grid instant where the instant evaluation has a vector or a scalar, the range result has its elements,
and it has no elements at any other instant. -/
def StepsAgree (result : RangeValue) : Prop :=
  (∀ t ∈ pointsOf startNs endNs stepNs, ∀ elements,
    ElementsOf (evaluator.evalExpr ops source ⟨startNs, endNs⟩ expr t) elements → (result.elementsAt t).Perm elements) ∧
  ∀ matrix, result = .matrix matrix → ∀ t, t ∉ pointsOf startNs endNs stepNs → result.elementsAt t = []

/-- No element below the minuses has a metric name. -/
def OperandUnnamed : Prop :=
  ∀ t ∈ pointsOf startNs endNs stepNs, ∀ elements,
    ElementsOf (evaluator.evalExpr ops source ⟨startNs, endNs⟩ expr.core t) elements →
    ∀ element ∈ elements, element.1.get metricNameLabel = none

/-- A negated call has no metric name to drop, and neither has a selector under an even number of minuses. -/
def NamesSettled : Prop :=
  match expr.core with
  | .vectorSelector _ => expr.minuses = 0 ∨ expr.minuses % 2 = 1 ∨ OperandUnnamed evaluator ops source expr startNs endNs stepNs
  | .call _ _ => expr.minuses = 0 ∨ OperandUnnamed evaluator ops source expr startNs endNs stepNs
  | _ => True

end Agreement

theorem LabelSet.dropMetricName_eq_iff (set : LabelSet) :
    set.dropMetricName = set ↔ set.get metricNameLabel = none := by
  have unfolded : set.dropMetricName = set ↔
      set.labels.filter (fun label => label.1 ≠ metricNameLabel) = set.labels := by
    cases set
    simp [LabelSet.dropMetricName]
  rw [unfolded, filter_eq_self, LabelSet.get, Option.map_eq_none_iff, find?_eq_none]
  simp

/-- Elements that keep their labels agree with those that drop them where no label set has a name. -/
theorem perm_dropped_iff (value : UInt64 → UInt64) (elements : List (LabelSet × UInt64)) :
    (elements.map fun element => (element.1, value element.2)).Perm
        (elements.map fun element => (element.1.dropMetricName, value element.2)) ↔
      ∀ element ∈ elements, element.1.get metricNameLabel = none := by
  constructor
  · intro agrees element member
    have kept := agrees.mem_iff.mp (mem_map_of_mem member)
    obtain ⟨other, _, same⟩ := mem_map.mp kept
    have labelled : other.1.dropMetricName = element.1 := congrArg Prod.fst same
    rw [← LabelSet.dropMetricName_eq_iff, ← labelled, LabelSet.dropMetricName_idem]
  · intro unnamed
    apply Perm.of_eq
    apply map_congr_left
    intro element member
    rw [(LabelSet.dropMetricName_eq_iff _).mpr (unnamed element member)]

/-- The elements of a negated call. -/
theorem Spreads.negateMatrix {grid : List Int} {elementsOf : Int → List (LabelSet × UInt64)} {matrix : RangeMatrix}
    (spread : Spreads grid elementsOf matrix) :
    Spreads grid (fun t => (elementsOf t).map fun element => (element.1, negateBits element.2))
      (Promql.negateMatrix matrix) := by
  have mapped : allElements (Promql.negateMatrix matrix) =
      (allElements matrix).map fun element => (element.1, ⟨element.2.tsNs, negateBits element.2.value⟩) := by
    simp [allElements, Promql.negateMatrix, flatMap_map, map_flatMap, Function.comp_def]
  unfold Spreads at spread ⊢
  rw [mapped]
  refine (spread.map _).trans (Perm.of_eq ?_)
  simp [stamped, map_flatMap, Function.comp_def]

section Agreement

variable {evaluator : Evaluator} {ops : Operators} {source : SeriesSource} {expr : Expr} {startNs endNs stepNs : Int}

theorem pointsOf_nodup (positive : 0 < stepNs) : (pointsOf startNs endNs stepNs).Nodup :=
  (pointsOf_sorted positive).imp fun earlier => ne_of_lt earlier

theorem stepsAgree_iff_of_spreads (positive : 0 < stepNs) {elementsOf : Int → List (LabelSet × UInt64)}
    {matrix : RangeMatrix} {turn : LabelSet × UInt64 → LabelSet × UInt64}
    (spread : Spreads (pointsOf startNs endNs stepNs) elementsOf matrix)
    (turned : ∀ t ∈ pointsOf startNs endNs stepNs, ∀ inner,
      ElementsOf (evaluator.evalExpr ops source ⟨startNs, endNs⟩ expr.core t) inner →
      (elementsOf t).Perm (inner.map turn)) :
    StepsAgree evaluator ops source expr startNs endNs stepNs (.matrix matrix) ↔
      ∀ t ∈ pointsOf startNs endNs stepNs, ∀ inner,
        ElementsOf (evaluator.evalExpr ops source ⟨startNs, endNs⟩ expr.core t) inner →
        (inner.map turn).Perm (inner.map (wrappedElement expr.minuses)) := by
  have carried : ∀ t ∈ pointsOf startNs endNs stepNs, ((RangeValue.matrix matrix).elementsAt t).Perm (elementsOf t) := by
    intro t onGrid
    have split := spread.elementsAt (pointsOf_nodup positive) t
    rwa [if_pos onGrid] at split
  constructor
  · intro agrees t onGrid inner evaluated
    have whole := agrees.1 t onGrid _ ((elementsOf_wrapped t expr _).mpr ⟨inner, evaluated, rfl⟩)
    exact (turned t onGrid inner evaluated).symm.trans ((carried t onGrid).symm.trans whole)
  · intro agrees
    constructor
    · intro t onGrid elements evaluated
      obtain ⟨inner, innerOk, rfl⟩ := (elementsOf_wrapped t expr elements).mp evaluated
      exact (carried t onGrid).trans ((turned t onGrid inner innerOk).trans (agrees t onGrid inner innerOk))
    · intro other same t offGrid
      have split := spread.elementsAt (pointsOf_nodup positive) t
      rw [if_neg offGrid] at split
      exact split.eq_nil

variable {stored : List LabelMatcher → List SeriesData} (serves : source.Serves stored) (positive : 0 < stepNs)

include serves positive

/-- A selector agrees without minuses, under an odd number of them, or without names. -/
theorem stepsAgree_selector_iff {vs : VectorSelector} {matrix : RangeMatrix} (selects : expr.core = .vectorSelector vs)
    (run : evaluator.evalRangeSelector source vs startNs endNs stepNs ⟨startNs, endNs⟩
      (decide (expr.minuses % 2 = 1)) = .ok matrix) :
    StepsAgree evaluator ops source expr startNs endNs stepNs (.matrix matrix) ↔
      expr.minuses = 0 ∨ expr.minuses % 2 = 1 ∨ OperandUnnamed evaluator ops source expr startNs endNs stepNs := by
  obtain ⟨matchers, offsetNs, anchor, built, shifted, anchored, spread⟩ := evalRangeSelector_spreads serves positive run
  rw [@stepsAgree_iff_of_spreads _ _ _ _ _ _ _ positive _ _ (turnedElement (decide (expr.minuses % 2 = 1))) spread]
  · by_cases odd : expr.minuses % 2 = 1
    · refine iff_of_true ?_ (.inr (.inl odd))
      intro t _ inner _
      apply Perm.of_eq
      apply map_congr_left
      intro element _
      have some : expr.minuses ≠ 0 := by omega
      simp [turnedElement, wrappedElement, odd, some]
    · by_cases none : expr.minuses = 0
      · refine iff_of_true ?_ (.inl none)
        intro t _ inner _
        apply Perm.of_eq
        apply map_congr_left
        intro element _
        simp [turnedElement, wrappedElement, none]
      · have kept : turnedElement (decide (expr.minuses % 2 = 1)) = fun element => (element.1, id element.2) := by
          funext element
          simp [turnedElement, odd]
        have dropped : wrappedElement expr.minuses = fun element => (element.1.dropMetricName, id element.2) := by
          funext element
          simp [wrappedElement, odd, none]
        rw [or_iff_right none, or_iff_right odd, kept, dropped]
        simp only [perm_dropped_iff]
        rfl
  · intro t _ inner evaluated
    obtain ⟨value, evaluated, listed⟩ := evaluated
    rw [selects, Evaluator.evalExpr] at evaluated
    obtain ⟨vector, picked, returned⟩ := ok_of_bind evaluated
    cases returned
    cases listed
    exact ((evalVectorSelector_picked serves built shifted anchored picked).map _).symm

/-- A call agrees without minuses or without names. -/
theorem stepsAgree_call_iff {func : String} {args : List Expr} {matrix : RangeMatrix} (calls : expr.core = .call func args)
    (run : evalRangeCall ops source ⟨startNs, endNs⟩ func args
      (args.map fun expr => evaluator.evalExpr ops source ⟨startNs, endNs⟩ expr) startNs endNs stepNs = .ok matrix) :
    StepsAgree evaluator ops source expr startNs endNs stepNs
        (.matrix (if expr.minuses % 2 = 1 then negateMatrix matrix else matrix)) ↔
      expr.minuses = 0 ∨ OperandUnnamed evaluator ops source expr startNs endNs stepNs := by
  obtain ⟨elementsOf, spread, carried⟩ := evalRangeCall_carries serves positive (by
    intro position arg shape value placed shaped valued t matrix evaluated
    obtain rfl := Except.ok.inj ((argument_map_ok placed).symm.trans valued)
    exact evalMatrixArg_filled shaped evaluated) run
  let turn (element : LabelSet × UInt64) : LabelSet × UInt64 :=
    (element.1, if expr.minuses % 2 = 1 then negateBits element.2 else element.2)
  have turnedSpread : Spreads (pointsOf startNs endNs stepNs) (fun t => (elementsOf t).map turn)
      (if expr.minuses % 2 = 1 then negateMatrix matrix else matrix) := by
    by_cases odd : expr.minuses % 2 = 1
    · simpa [turn, odd] using spread.negateMatrix
    · simpa [turn, odd] using spread
  rw [@stepsAgree_iff_of_spreads _ _ _ _ _ _ _ positive _ _ turn turnedSpread]
  · by_cases none : expr.minuses = 0
    · refine iff_of_true ?_ (.inl none)
      intro t _ inner _
      apply Perm.of_eq
      apply map_congr_left
      intro element _
      simp [turn, wrappedElement, none]
    · let value (bits : UInt64) : UInt64 := if expr.minuses % 2 = 1 then negateBits bits else bits
      have dropped : wrappedElement expr.minuses = fun element => (element.1.dropMetricName, value element.2) := by
        funext element
        simp [wrappedElement, value, none]
      have kept : turn = fun element => (element.1, value element.2) := rfl
      rw [or_iff_right none, kept, dropped]
      simp only [perm_dropped_iff]
      rfl
  · intro t onGrid inner evaluated
    obtain ⟨value, evaluated, listed⟩ := evaluated
    rw [calls, Evaluator.evalExpr, evalArgs_eq_map] at evaluated
    exact (carried t onGrid value inner evaluated listed).map _

omit serves in
/-- An expression that is evaluated at every step agrees. -/
theorem stepsAgree_generic {result : RangeValue}
    (run : evaluator.evalRangeCore ops source ⟨startNs, endNs⟩ startNs endNs stepNs false (.generic expr) = .ok result) :
    StepsAgree evaluator ops source expr startNs endNs stepNs result := by
  obtain ⟨matrix, stepped, run⟩ := ok_of_bind run
  cases run
  obtain ⟨elementsOf, spread, carried⟩ := evalInstantOverGrid_carries positive stepped
  have split := spread.elementsAt (pointsOf_nodup positive)
  constructor
  · intro t onGrid elements evaluated
    obtain ⟨value, evaluated, listed⟩ := evaluated
    have here := split t
    rw [if_pos onGrid] at here
    exact here.trans (carried t onGrid value elements evaluated listed)
  · intro other same t offGrid
    have here := split t
    rw [if_neg offGrid] at here
    exact here.eq_nil

end Agreement

theorem Expr.core_ne_paren (inner : Expr) : ∀ expr : Expr, expr.core ≠ .paren inner
  | .paren expr => Expr.core_ne_paren inner expr
  | .unary expr => Expr.core_ne_paren inner expr
  | .numberLiteral _ | .stringLiteral _ | .vectorSelector _ | .matrixSelector _ | .call _ _ | .binary _ _ _ _
  | .aggregate _ _ _ _ | .subquery _ _ | .extension _ => by
    intro same
    cases same

theorem Expr.core_ne_unary (inner : Expr) : ∀ expr : Expr, expr.core ≠ .unary inner
  | .paren expr => Expr.core_ne_unary inner expr
  | .unary expr => Expr.core_ne_unary inner expr
  | .numberLiteral _ | .stringLiteral _ | .vectorSelector _ | .matrixSelector _ | .call _ _ | .binary _ _ _ _
  | .aggregate _ _ _ _ | .subquery _ _ | .extension _ => by
    intro same
    cases same

/-- A source that holds one series for every selector. -/
def seriesSource (series : SeriesData) : SeriesSource :=
  ⟨fun _ window => .ok [series.clip window], fun _ _ _ => .ok none⟩

theorem seriesSource_serves {series : SeriesData} (ordered : KeyOrdered Metrics.Sample.tsNs series.samples) :
    (seriesSource series).Serves fun _ => [series] where
  ordered := by
    intro matchers other listed
    rw [mem_singleton.mp listed]
    exact ordered
  restricts := by
    intro matchers window found queried
    cases queried
    rfl
  counts := by
    intro matchers startNs endNs counted answered
    cases answered

/-- One sample of `up`. -/
def upSeries : SeriesData := ⟨.single "__name__" "up", [⟨60000000000, oneBits⟩]⟩

def upSelector : VectorSelector := ⟨some "up", ⟨[], []⟩, none, none⟩

/-- The two functions that the samples below call. The count of one sample is `1.0`. -/
def overTimeOperators : Operators where
  lookup func :=
    if func = "count_over_time" then some (.rangeVector (countOverTime fun _ => oneBits))
    else if func = "last_over_time" then some (.rangeVector fun samples _ => samples.getLast?.map Metrics.Sample.value)
    else none
  binary _ _ _ _ := .error (.unsupported "binary operator")
  aggregate _ _ _ _ _ := .error (.unsupported "aggregation")
  ofCount _ := oneBits
  counts := rfl

/-- `-last_over_time(up[5m])`. -/
def negatedLast : Expr := .unary (.call "last_over_time" [.matrixSelector ⟨upSelector, 300000000000⟩])

end Ravel.Promql
