/-
This file models the evaluator at one instant over float series.
-/

import Mathlib.Data.List.Sort
import Ravel.Construction.Metrics.SeriesRuns
import Ravel.Construction.Promql.SelectorPlans

namespace Ravel.Promql

/-- A float sample. Its value is a bit pattern. -/
abbrev Sample := Metrics.Sample UInt64

structure SeriesData where
  labels : LabelSet
  samples : List Sample
  deriving DecidableEq

abbrev RangeMatrix := List (LabelSet × List Sample)

/-- The storage that an evaluation queries. -/
structure SeriesSource where
  query : List LabelMatcher → TimeRange → Except Error (List SeriesData)
  queryPrecomputedCount : List LabelMatcher → Int → Int → Except Error (Option (List (LabelSet × Nat)))

structure InstantSample where
  labels : LabelSet
  tsNs : Int
  origSampleTsNs : Int
  value : UInt64
  deriving DecidableEq

abbrev InstantVector := List InstantSample

inductive Value where
  | scalar (value : UInt64)
  | string (value : String)
  | vector (samples : InstantVector)
  | matrix (series : RangeMatrix)
  deriving DecidableEq

def Value.typeName : Value → String
  | .scalar _ => "scalar"
  | .string _ => "string"
  | .vector _ => "instant vector"
  | .matrix _ => "range vector"

def staleNanBits : UInt64 := 0x7ff0000000000002

/-- The bit pattern of `1.0`. -/
def oneBits : UInt64 := 0x3ff0000000000000

/-- The negation of a float flips its sign bit. -/
def negateBits (value : UInt64) : UInt64 := value ^^^ 0x8000000000000000

/-- The label set of some pairs, unless a name repeats. -/
def LabelSet.new (labels : List (String × String)) : Option LabelSet :=
  let sorted := labels.insertionSort fun first second => first.1 ≤ second.1
  if ascending : sorted.Pairwise fun first second => first.1 < second.1 then some ⟨sorted, ascending⟩ else none

structure RangeWindow where
  startNs : Int
  endNs : Int
  rangeNs : Int
  evalTsNs : Int
  deriving DecidableEq, Repr

/-- The shape of a registered function with its float part as a given function. An `Instant` function
takes its arguments and their values at the instant. -/
inductive FunctionKind where
  | rangeVector (reduce : List Sample → RangeWindow → Option UInt64)
  | rangeVectorScalar (reduce : List Sample → RangeWindow → UInt64 → Option UInt64)
  | rangeVectorFloatOrHist (float : List Sample → RangeWindow → Option UInt64)
  | histogramQuantile (group : UInt64 → InstantVector → List (LabelSet × UInt64))
  | histogramFraction (group : UInt64 → UInt64 → InstantVector → List (LabelSet × UInt64))
  | scalarRangeVector (reduce : UInt64 → List Sample → RangeWindow → Option UInt64)
  | absentOverTime
  | vectorMap (map : InstantVector → InstantVector)
  | instant (eval : List Expr → List (Except Error Value) → Int → Except Error Value)

/-- `count_over_time` with the conversion of a count to a float. -/
def countOverTime (ofCount : Nat → UInt64) (samples : List Sample) (_ : RangeWindow) : Option UInt64 :=
  some (ofCount samples.length)

/-- The function table and the operators, given the values of their operands. -/
structure Operators where
  lookup : String → Option FunctionKind
  binary : BinaryOp → Option BinModifier → Value → Value → Except Error Value
  aggregate : AggregateOp → Option LabelModifier → Value → Option (Except Error Value) → Int → Except Error Value
  ofCount : Nat → UInt64
  counts : lookup "count_over_time" = some (.rangeVector (countOverTime ofCount))

/-- The value at the last timestamp in the lookback. Equal timestamps resolve to the greatest bit pattern. -/
def pickSample (samples : List Sample) (selTsNs lookbackDeltaNs : Int) : Option (UInt64 × Int) :=
  match (samples.takeWhile fun sample => sample.tsNs ≤ selTsNs).reverse with
  | [] => none
  | candidate :: earlier =>
    match checkedSub selTsNs lookbackDeltaNs with
    | .error _ => none
    | .ok windowStart =>
      if candidate.tsNs ≤ windowStart then none
      else
        let best := (earlier.takeWhile fun sample => sample.tsNs = candidate.tsNs).foldl
          (fun best sample => max best sample.value) candidate.value
        if best = staleNanBits then none else some (best, candidate.tsNs)

def Evaluator.evalVectorSelector (evaluator : Evaluator) (source : SeriesSource) (vs : VectorSelector)
    (evalTsNs : Int) (ctx : QueryWindow) : Except Error InstantVector := do
  let matchers ← buildMatchers vs
  let window ← evaluator.lookbackWindow vs evalTsNs ctx
  let series ← source.query matchers window
  return series.filterMap fun found =>
    (pickSample found.samples window.endNs evaluator.lookbackDeltaNs).map fun picked =>
      ⟨found.labels, evalTsNs, picked.2, picked.1⟩

/-- A sample that is not a staleness marker. -/
def isLive (sample : Sample) : Bool := sample.value ≠ staleNanBits

def evalMatrixSelector (source : SeriesSource) (ms : MatrixSelector) (evalTsNs : Int) (ctx : QueryWindow) :
    Except Error RangeMatrix := do
  let matchers ← buildMatchers ms.vs
  let window ← matrixWindow ms evalTsNs ctx
  let series ← source.query matchers window
  return (series.map fun found =>
    (found.labels, found.samples.filter fun sample => decide (window.startNs < sample.tsNs) && isLive sample)).filter
      fun entry => !entry.2.isEmpty

/-- The first series with the labels takes the element, or a new one at the end. -/
def pushElement (labels : LabelSet) (element : Sample) : RangeMatrix → RangeMatrix
  | [] => [(labels, [element])]
  | entry :: rest =>
    if entry.1 = labels then (entry.1, entry.2 ++ [element]) :: rest
    else entry :: pushElement labels element rest

/-- The elements of a step. A scalar is one element without labels. -/
def stepElements : Value → Except Error (List (LabelSet × UInt64))
  | .vector samples => .ok (samples.map fun sample => (sample.labels, sample.value))
  | .scalar value => .ok [(.empty, value)]
  | other => .error (.wrongType "instant vector or scalar" other.typeName)

def evalInstantOverGrid (startNs endNs stepNs : Int) (stepFn : Int → Except Error Value) :
    Except Error RangeMatrix :=
  overGrid endNs stepNs (fun t series => do
      let value ← stepFn t
      let elements ← stepElements value
      return elements.foldl (fun series element => pushElement element.1 ⟨t, element.2⟩ series) series)
    (stepCount startNs endNs stepNs) startNs []

def Evaluator.evalSubqueryMatrix (evaluator : Evaluator) (inner : Int → Except Error Value)
    (window : SubqueryWindow) (evalTsNs : Int) (ctx : QueryWindow) : Except Error RangeMatrix := do
  let grid ← evaluator.subqueryGrid window evalTsNs ctx
  if grid.endNs < grid.startNs then return []
  else evalInstantOverGrid grid.startNs grid.endNs grid.stepNs inner

def rangeWindow (arg : MatrixArg) (evalTsNs : Int) (ctx : QueryWindow) : Except Error RangeWindow :=
  match arg with
  | .selector ms => do
    let selTsNs ← selectorEvalTs ms.vs evalTsNs ctx
    let rangeNs ← durationToNs ms.range
    let startNs ← checkedSub selTsNs rangeNs
    return ⟨startNs, selTsNs, rangeNs, evalTsNs⟩
  | .subquery _ window => do
    let endNs ← resolveEvalTs window.offset window.atModifier evalTsNs ctx
    let rangeNs ← durationToNs window.range
    let startNs ← checkedSub endNs rangeNs
    return ⟨startNs, endNs, rangeNs, evalTsNs⟩

def rangeVectorKeepsMetricName (func : String) : Bool := func == "last_over_time"

/-- The result labels of a reduction. -/
def resultLabels (keepMetricName : Bool) (labels : LabelSet) : LabelSet :=
  if keepMetricName then labels else labels.dropMetricName

def applyReduce (matrix : RangeMatrix) (evalTsNs : Int) (keepMetricName : Bool)
    (reduce : List Sample → Option UInt64) : InstantVector :=
  matrix.filterMap fun entry => (reduce entry.2).map fun value =>
    ⟨resultLabels keepMetricName entry.1, evalTsNs, evalTsNs, value⟩

def toInstantVector (groups : List (LabelSet × UInt64)) (evalTsNs : Int) : InstantVector :=
  groups.map fun group => ⟨group.1, evalTsNs, evalTsNs, group.2⟩

/-- A negated vector drops its metric names. -/
def negateVector (samples : InstantVector) : InstantVector :=
  samples.map fun sample => ⟨sample.labels.dropMetricName, sample.tsNs, sample.tsNs, negateBits sample.value⟩

/-- An argument position. The parser checks the arity of every call. -/
def argument {Argument : Type} (arguments : List Argument) (position : Nat) : Except Error Argument :=
  match arguments[position]? with
  | some argument => .ok argument
  | none => .error (.unsupported "missing argument")

def scalarArg (value : Except Error Value) : Except Error UInt64 := do
  match ← value with
  | .scalar result => return result
  | other => .error (.wrongType "scalar" other.typeName)

def vectorArg (value : Except Error Value) : Except Error InstantVector := do
  match ← value with
  | .vector result => return result
  | other => .error (.wrongType "instant vector" other.typeName)

/-- The value of a subquery argument. -/
def matrixValue (value : Except Error Value) : Except Error RangeMatrix := do
  match ← value with
  | .matrix result => return result
  | other => .error (.wrongType "range vector" other.typeName)

/-- A selector argument reads the source. The value of a subquery argument is its own matrix. -/
def evalMatrixArg (source : SeriesSource) (arg : MatrixArg) (value : Except Error Value) (evalTsNs : Int)
    (ctx : QueryWindow) : Except Error RangeMatrix :=
  match arg with
  | .selector ms => evalMatrixSelector source ms evalTsNs ctx
  | .subquery _ _ => matrixValue value

/-- The precomputed answer of a `count_over_time` over a selector. A fault of the lookup counts as no answer. -/
def precomputedCount (source : SeriesSource) (func : String) (arg : MatrixArg) (window : RangeWindow) :
    Except Error (Option (List (LabelSet × Nat))) :=
  match func == "count_over_time", arg with
  | true, .selector ms => do
    let matchers ← buildMatchers ms.vs
    match source.queryPrecomputedCount matchers window.startNs window.endNs with
    | .ok answer => return answer
    | .error _ => return none
  | _, _ => .ok none

/-- `absent_labels`: an equality sets a name that is not set, any other matcher clears it. -/
def absentLabels (vs : VectorSelector) : LabelSet :=
  let present := vs.matchers.matchers.foldl (fun present matcher =>
    if matcher.name = metricNameLabel then present
    else if matcher.op = .eq ∧ ¬ present.any fun label => label.1 = matcher.name then
      present ++ [(matcher.name, matcher.value)]
    else present.filter fun label => label.1 ≠ matcher.name) []
  (LabelSet.new present).getD .empty

def matrixArgAbsentLabels : MatrixArg → LabelSet
  | .selector ms => absentLabels ms.vs
  | .subquery _ _ => .empty

def absentOverTimeInstant (source : SeriesSource) (arg : MatrixArg) (value : Except Error Value) (evalTsNs : Int)
    (ctx : QueryWindow) : Except Error InstantVector := do
  let matrix ← evalMatrixArg source arg value evalTsNs ctx
  if matrix.isEmpty then return [⟨matrixArgAbsentLabels arg, evalTsNs, evalTsNs, oneBits⟩]
  else return []

section Calls

variable (ops : Operators) (source : SeriesSource) (ctx : QueryWindow)

/-- `eval_call` with the values of the arguments at the instant. -/
def evalCall (func : String) (args : List Expr) (values : List (Except Error Value)) (evalTsNs : Int) :
    Except Error Value :=
  match ops.lookup func with
  | none => .error (.unsupported ("function call: " ++ func))
  | some (.rangeVector reduce) => do
    let expr ← argument args 0
    let arg ← matrixArg expr
    let window ← rangeWindow arg evalTsNs ctx
    let keepName := rangeVectorKeepsMetricName func
    match ← precomputedCount source func arg window with
    | some results =>
      return .vector (results.map fun result =>
        ⟨resultLabels keepName result.1, evalTsNs, evalTsNs, ops.ofCount result.2⟩)
    | none =>
      let value ← argument values 0
      let matrix ← evalMatrixArg source arg value evalTsNs ctx
      return .vector (applyReduce matrix evalTsNs keepName fun samples => reduce samples window)
  | some (.rangeVectorScalar reduce) => do
    let expr ← argument args 0
    let arg ← matrixArg expr
    let scalarValue ← argument values 1
    let t ← scalarArg scalarValue
    let window ← rangeWindow arg evalTsNs ctx
    let value ← argument values 0
    let matrix ← evalMatrixArg source arg value evalTsNs ctx
    return .vector (applyReduce matrix evalTsNs false fun samples => reduce samples window t)
  | some (.rangeVectorFloatOrHist float) => do
    let expr ← argument args 0
    let arg ← matrixArg expr
    let window ← rangeWindow arg evalTsNs ctx
    let value ← argument values 0
    let matrix ← evalMatrixArg source arg value evalTsNs ctx
    return .vector (applyReduce matrix evalTsNs false fun samples => float samples window)
  | some (.histogramQuantile group) => do
    let phiValue ← argument values 0
    let phi ← scalarArg phiValue
    let vectorValue ← argument values 1
    let vector ← vectorArg vectorValue
    return .vector (toInstantVector (group phi vector) evalTsNs)
  | some (.histogramFraction group) => do
    let lowerValue ← argument values 0
    let lower ← scalarArg lowerValue
    let upperValue ← argument values 1
    let upper ← scalarArg upperValue
    let vectorValue ← argument values 2
    let vector ← vectorArg vectorValue
    return .vector (toInstantVector (group lower upper vector) evalTsNs)
  | some (.scalarRangeVector reduce) => do
    let scalarValue ← argument values 0
    let q ← scalarArg scalarValue
    let expr ← argument args 1
    let arg ← matrixArg expr
    let window ← rangeWindow arg evalTsNs ctx
    let value ← argument values 1
    let matrix ← evalMatrixArg source arg value evalTsNs ctx
    return .vector (applyReduce matrix evalTsNs false fun samples => reduce q samples window)
  | some .absentOverTime => do
    let expr ← argument args 0
    let arg ← matrixArg expr
    let value ← argument values 0
    let vector ← absentOverTimeInstant source arg value evalTsNs ctx
    return .vector vector
  | some (.vectorMap map) => do
    let vectorValue ← argument values 0
    let vector ← vectorArg vectorValue
    return .vector (map vector)
  | some (.instant eval) => eval args values evalTsNs

/-- The value under a unary minus. -/
def negateValue : Value → Except Error Value
  | .scalar value => .ok (.scalar (negateBits value))
  | .vector samples => .ok (.vector (negateVector samples))
  | other => .error (.wrongType "scalar or instant vector" other.typeName)

mutual

/-- `eval_expr`: the value of an expression at an instant. -/
def Evaluator.evalExpr (evaluator : Evaluator) : Expr → Int → Except Error Value
  | .paren expr, t => evaluator.evalExpr expr t
  | .unary expr, t => do
    let value ← evaluator.evalExpr expr t
    negateValue value
  | .numberLiteral value, _ => .ok (.scalar value)
  | .stringLiteral value, _ => .ok (.string value)
  | .vectorSelector vs, t => do
    let vector ← evaluator.evalVectorSelector source vs t ctx
    return .vector vector
  | .matrixSelector ms, t => do
    let matrix ← evalMatrixSelector source ms t ctx
    return .matrix matrix
  | .call func args, t => evalCall ops source ctx func args (evaluator.evalArgs args t) t
  | .binary op modifier lhs rhs, t => do
    let left ← evaluator.evalExpr lhs t
    let right ← evaluator.evalExpr rhs t
    ops.binary op modifier left right
  | .aggregate op modifier expr param, t => do
    let operand ← evaluator.evalExpr expr t
    ops.aggregate op modifier operand (evaluator.evalParam param t) t
  | .subquery expr window, t => do
    let matrix ← evaluator.evalSubqueryMatrix (evaluator.evalExpr expr) window t ctx
    return .matrix matrix
  | .extension _, _ => .error (.unsupported "extension node")

def Evaluator.evalParam (evaluator : Evaluator) : Option Expr → Int → Option (Except Error Value)
  | none, _ => none
  | some param, t => some (evaluator.evalExpr param t)

def Evaluator.evalArgs (evaluator : Evaluator) : List Expr → Int → List (Except Error Value)
  | [], _ => []
  | expr :: rest, t => evaluator.evalExpr expr t :: evaluator.evalArgs rest t

end

end Calls

end Ravel.Promql
