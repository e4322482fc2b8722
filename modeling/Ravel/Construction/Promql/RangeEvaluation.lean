/-
This file models the evaluator over the grid of a range query.
-/

import Ravel.Construction.Promql.Evaluation

namespace Ravel.Promql

inductive RangeValue where
  | scalar (value : UInt64)
  | string (value : String)
  | matrix (series : RangeMatrix)
  deriving DecidableEq

/-- The reported instants of a selector and the instants they look up. -/
def selectorGrid (startNs endNs stepNs offsetNs : Int) (anchor : Option Int) : Except Error (List (Int × Int)) :=
  overGrid endNs stepNs (fun t grid => do
      let selTs ← checkedSub (anchor.getD t) offsetNs
      return grid ++ [(t, selTs)])
    (stepCount startNs endNs stepNs) startNs []

/-- A negated selector drops the metric names of its series. -/
def Evaluator.evalRangeSelector (evaluator : Evaluator) (source : SeriesSource) (vs : VectorSelector)
    (startNs endNs stepNs : Int) (ctx : QueryWindow) (negate : Bool) : Except Error RangeMatrix := do
  let matchers ← buildMatchers vs
  let offsetNs ← signedOffsetNs vs.offset
  let anchor ← resolveAt vs.atModifier ctx.startNs ctx.endNs
  let grid ← selectorGrid startNs endNs stepNs offsetNs anchor
  if grid.isEmpty then return []
  else
    let minSelTs := (grid.map Prod.snd).min?.getD startNs
    let maxSelTs := (grid.map Prod.snd).max?.getD startNs
    let windowStart ← checkedSub minSelTs evaluator.lookbackDeltaNs
    let series ← source.query matchers ⟨windowStart, maxSelTs⟩
    return (series.map fun found =>
      (if negate then found.labels.dropMetricName else found.labels,
        grid.filterMap fun point =>
          (pickSample found.samples point.2 evaluator.lookbackDeltaNs).map fun picked =>
            (⟨point.1, if negate then negateBits picked.1 else picked.1⟩ : Sample))).filter
        fun entry => !entry.2.isEmpty

/-- One element of a reduction, or an error that is raised after it. -/
abbrev Reduce := List Sample → RangeWindow → Except Error (Option UInt64)

/-- The reduced elements so far and the last error. -/
structure Reduction where
  elements : List Sample
  stash : Option Error
  deriving DecidableEq

def Reduction.add (reduce : Reduce) (window : RangeWindow) (samples : List Sample) (reduction : Reduction) :
    Reduction :=
  if samples.isEmpty then reduction
  else
    match reduce samples window with
    | .ok (some value) => { reduction with elements := reduction.elements ++ [⟨window.evalTsNs, value⟩] }
    | .ok none => reduction
    | .error failure => { reduction with stash := some failure }

/-- The forward-only window of one series: the first position in it and the first after it. -/
structure Cursor where
  lo : Nat
  hi : Nat
  deriving DecidableEq, Repr

def Cursor.advance (cursor : Cursor) (live : List Sample) (window : RangeWindow) : Cursor :=
  ⟨cursor.lo + ((live.drop cursor.lo).takeWhile fun sample => sample.tsNs ≤ window.startNs).length,
    cursor.hi + ((live.drop cursor.hi).takeWhile fun sample => sample.tsNs ≤ window.endNs).length⟩

def Cursor.slice (cursor : Cursor) (live : List Sample) : List Sample := (live.take cursor.hi).drop cursor.lo

/-- The reduction of one series along the grid. -/
def reduceAlong (reduce : Reduce) (live : List Sample) (grid : List RangeWindow) (stash : Option Error) : Reduction :=
  (grid.foldl (fun (state : Cursor × Reduction) window =>
    let cursor := state.1.advance live window
    (cursor, state.2.add reduce window (cursor.slice live))) (⟨0, 0⟩, ⟨[], stash⟩)).2

/-- The windows of a matrix selector along the grid. -/
def matrixGrid (startNs endNs stepNs offsetNs rangeNs : Int) (anchor : Option Int) : Except Error (List RangeWindow) :=
  overGrid endNs stepNs (fun t grid => do
      let selTs ← checkedSub (anchor.getD t) offsetNs
      let windowStart ← checkedSub selTs rangeNs
      return grid ++ [⟨windowStart, selTs, rangeNs, t⟩])
    (stepCount startNs endNs stepNs) startNs []

def evalRangeMatrixReduction (source : SeriesSource) (ms : MatrixSelector) (startNs endNs stepNs : Int)
    (ctx : QueryWindow) (keepMetricName : Bool) (reduce : Reduce) : Except Error (RangeMatrix × Option Error) := do
  let matchers ← buildMatchers ms.vs
  let offsetNs ← signedOffsetNs ms.vs.offset
  let anchor ← resolveAt ms.vs.atModifier ctx.startNs ctx.endNs
  let rangeNs ← durationToNs ms.range
  let grid ← matrixGrid startNs endNs stepNs offsetNs rangeNs anchor
  if grid.isEmpty then return ([], none)
  else
    let minWindowStart := (grid.map RangeWindow.startNs).min?.getD startNs
    let maxSelTs := (grid.map RangeWindow.endNs).max?.getD startNs
    let series ← source.query matchers ⟨minWindowStart, maxSelTs⟩
    return series.foldl (fun (state : RangeMatrix × Option Error) found =>
      let reduction := reduceAlong reduce (found.samples.filter isLive) grid state.2
      if reduction.elements.isEmpty then (state.1, reduction.stash)
      else (state.1 ++ [(resultLabels keepMetricName found.labels, reduction.elements)], reduction.stash)) ([], none)

/-- The reduction of a subquery's matrix at one step. -/
def reduceMatrix (reduce : Reduce) (window : RangeWindow) (keepMetricName : Bool) (matrix : RangeMatrix)
    (state : RangeMatrix × Option Error) : RangeMatrix × Option Error :=
  matrix.foldl (fun state entry =>
    if entry.2.isEmpty then state
    else
      match reduce entry.2 window with
      | .ok (some value) => (pushElement (resultLabels keepMetricName entry.1) ⟨window.evalTsNs, value⟩ state.1, state.2)
      | .ok none => state
      | .error failure => (state.1, some failure)) state

def evalMatrixArgRangeReduction (source : SeriesSource) (arg : MatrixArg) (value : Int → Except Error Value)
    (startNs endNs stepNs : Int) (ctx : QueryWindow) (keepMetricName : Bool) (reduce : Reduce) :
    Except Error (RangeMatrix × Option Error) :=
  match arg with
  | .selector ms => evalRangeMatrixReduction source ms startNs endNs stepNs ctx keepMetricName reduce
  | .subquery _ _ =>
    overGrid endNs stepNs (fun t state => do
        let matrix ← matrixValue (value t)
        let window ← rangeWindow arg t ctx
        return reduceMatrix reduce window keepMetricName matrix state)
      (stepCount startNs endNs stepNs) startNs ([], none)

/-- The matrix of a reduction, unless an error is stashed. -/
def raiseStash (outcome : RangeMatrix × Option Error) : Except Error RangeMatrix :=
  match outcome.2 with
  | some failure => .error failure
  | none => .ok outcome.1

def absentOverTimeRange (source : SeriesSource) (arg : MatrixArg) (value : Int → Except Error Value)
    (startNs endNs stepNs : Int) (ctx : QueryWindow) : Except Error RangeMatrix := do
  let elements ← overGrid endNs stepNs (fun t elements => do
      let matrix ← evalMatrixArg source arg (value t) t ctx
      return if matrix.isEmpty then elements ++ [(⟨t, oneBits⟩ : Sample)] else elements)
    (stepCount startNs endNs stepNs) startNs []
  if elements.isEmpty then return []
  else return [(matrixArgAbsentLabels arg, elements)]

section Calls

variable (ops : Operators) (source : SeriesSource) (ctx : QueryWindow)

/-- `eval_range_call` with the values of the arguments at every instant. -/
def evalRangeCall (func : String) (args : List Expr) (values : List (Int → Except Error Value))
    (startNs endNs stepNs : Int) : Except Error RangeMatrix :=
  match ops.lookup func with
  | none => .error (.unsupported ("function call: " ++ func))
  | some (.rangeVector reduce) => do
    let expr ← argument args 0
    let arg ← matrixArg expr
    let value ← argument values 0
    let outcome ← evalMatrixArgRangeReduction source arg value startNs endNs stepNs ctx
      (rangeVectorKeepsMetricName func) fun samples window => .ok (reduce samples window)
    return outcome.1
  | some (.rangeVectorScalar reduce) => do
    let expr ← argument args 0
    let arg ← matrixArg expr
    let scalarValue ← argument values 1
    let value ← argument values 0
    let outcome ← evalMatrixArgRangeReduction source arg value startNs endNs stepNs ctx false
      fun samples window => do
        let t ← scalarArg (scalarValue window.evalTsNs)
        return reduce samples window t
    raiseStash outcome
  | some (.rangeVectorFloatOrHist float) => do
    let expr ← argument args 0
    let arg ← matrixArg expr
    let value ← argument values 0
    let outcome ← evalMatrixArgRangeReduction source arg value startNs endNs stepNs ctx false
      fun samples window => .ok (float samples window)
    return outcome.1
  | some (.scalarRangeVector reduce) => do
    let scalarValue ← argument values 0
    let expr ← argument args 1
    let arg ← matrixArg expr
    let value ← argument values 1
    let outcome ← evalMatrixArgRangeReduction source arg value startNs endNs stepNs ctx false
      fun samples window => do
        let q ← scalarArg (scalarValue window.evalTsNs)
        return reduce q samples window
    raiseStash outcome
  | some .absentOverTime => do
    let expr ← argument args 0
    let arg ← matrixArg expr
    let value ← argument values 0
    absentOverTimeRange source arg value startNs endNs stepNs ctx
  -- The remaining shapes evaluate the whole call at every step.
  | some (.histogramQuantile _) | some (.histogramFraction _) | some (.vectorMap _) | some (.instant _) =>
    evalInstantOverGrid startNs endNs stepNs fun t =>
      evalCall ops source ctx func args (values.map fun value => value t) t

/-- The construct below the parentheses and minuses of a range query. -/
inductive RangeCore where
  | scalar (value : UInt64)
  | string (value : String)
  | selector (vs : VectorSelector)
  | call (func : String) (args : List Expr)
  | generic (expr : Expr)

/-- `resolve_range_core`: the core of `expr`, which is below the wrappers of `outermost`, and the parity of the minuses. -/
def resolveRangeCore (outermost : Expr) : Expr → Bool → Except Error (RangeCore × Bool)
  | .paren expr, negate => resolveRangeCore outermost expr negate
  | .unary expr, negate => resolveRangeCore outermost expr (!negate)
  | .numberLiteral value, negate => .ok (.scalar value, negate)
  | .stringLiteral value, negate => .ok (.string value, negate)
  | .vectorSelector vs, negate => .ok (.selector vs, negate)
  | .matrixSelector _, _ => .error (.wrongType "scalar, instant vector, or string" "range vector")
  | .subquery _ _, _ => .error (.wrongType "scalar, instant vector, or string" "range vector")
  | .call func args, negate => .ok (.call func args, negate)
  | .binary _ _ _ _, _ => .ok (.generic outermost, false)
  | .aggregate _ _ _ _, _ => .ok (.generic outermost, false)
  | .extension _, _ => .error (.unsupported "extension node")

/-- A negated call keeps the labels of its result. -/
def negateMatrix (matrix : RangeMatrix) : RangeMatrix :=
  matrix.map fun entry => (entry.1, entry.2.map fun sample => ⟨sample.tsNs, negateBits sample.value⟩)

def Evaluator.evalRangeCore (evaluator : Evaluator) (startNs endNs stepNs : Int) (negate : Bool) :
    RangeCore → Except Error RangeValue
  | .scalar value => .ok (.scalar (if negate then negateBits value else value))
  | .string value => .ok (.string value)
  | .selector vs => do
    let matrix ← evaluator.evalRangeSelector source vs startNs endNs stepNs ctx negate
    return .matrix matrix
  | .call func args => do
    let matrix ← evalRangeCall ops source ctx func args (args.map fun expr => evaluator.evalExpr ops source ctx expr)
      startNs endNs stepNs
    return .matrix (if negate then negateMatrix matrix else matrix)
  | .generic expr => do
    let matrix ← evalInstantOverGrid startNs endNs stepNs fun t => evaluator.evalExpr ops source ctx expr t
    return .matrix matrix

end Calls

/-- `eval_range_in_window` on a parsed query with its bounds in milliseconds. -/
def Evaluator.evalRange (evaluator : Evaluator) (ops : Operators) (source : SeriesSource) (expr : Expr)
    (startMs endMs stepMs : Int) : Except Error RangeValue :=
  if stepMs ≤ 0 then .error (.nonPositiveStep stepMs)
  else if endMs < startMs then .error (.invalidRange startMs endMs)
  else do
    let startNs ← msToNs startMs
    let endNs ← msToNs endMs
    let stepNs ← msToNs stepMs
    if evaluator.maxRangePoints < stepCount startNs endNs stepNs then
      .error (.tooManyPoints (stepCount startNs endNs stepNs) evaluator.maxRangePoints)
    else
      let core ← resolveRangeCore expr expr false
      evaluator.evalRangeCore ops source ⟨startNs, endNs⟩ startNs endNs stepNs core.2 core.1

end Ravel.Promql
