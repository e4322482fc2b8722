/-
This file models the selector planner, the fetch window of a plan and the windows an evaluation reads.
-/

import Ravel.Construction.Promql.Expressions

namespace Ravel.Promql

/-- The lookup instant of a selector: the step of the query, or one absolute instant. -/
inductive PlanAnchor where
  | window
  | pinned (ns : Int)
  deriving DecidableEq, Repr

structure SelectorPlan where
  matchers : List LabelMatcher
  rangeNs : Int
  offsetNs : Int
  anchor : PlanAnchor
  countOverTimePushdownCandidate : Bool
  deriving DecidableEq, Repr

def defaultLookbackNs : Int := 5 * 60 * 1000000000

/-- A function's range vector argument. -/
inductive MatrixArg where
  | selector (ms : MatrixSelector)
  | subquery (expr : Expr) (window : SubqueryWindow)

/-- `expr_kind_name`. -/
def Expr.kindName : Expr → String
  | .aggregate .. => "aggregate expression"
  | .binary .. => "binary expression"
  | .call .. => "function call"
  | .extension .. => "extension node"
  | .matrixSelector .. => "matrix selector"
  | .numberLiteral .. => "number literal"
  | .paren .. => "parenthesized expression"
  | .stringLiteral .. => "string literal"
  | .subquery .. => "subquery"
  | .unary .. => "unary expression"
  | .vectorSelector .. => "vector selector"

def matrixArg : Expr → Except Error MatrixArg
  | .paren expr => matrixArg expr
  | .matrixSelector ms => .ok (.selector ms)
  | .subquery expr window => .ok (.subquery expr window)
  | other => .error (.unsupported ("matrix-typed argument of kind " ++ other.kindName))

/-- The bounds and the ancestors that a planning walk carries down. -/
structure PlanContext where
  rangeNs : Int
  offsetNs : Int
  anchor : Option Int
  deriving DecidableEq, Repr

def PlanContext.root : PlanContext := ⟨0, 0, none⟩

def resolveSelector (vs : VectorSelector) (rangeNs : Int) (ancestor : PlanContext)
    (query : QueryWindow) : Except Error SelectorPlan := do
  let matchers ← buildMatchers vs
  let ownOffsetNs ← signedOffsetNs vs.offset
  let offsetNs ← checkedAdd ancestor.offsetNs ownOffsetNs
  let ownAtNs ← resolveAt vs.atModifier query.startNs query.endNs
  let anchor ← match ownAtNs.or ancestor.anchor with
    | some pinnedNs => PlanAnchor.pinned <$> checkedSub pinnedNs offsetNs
    | none => .ok .window
  return ⟨matchers, rangeNs, offsetNs, anchor, false⟩

/-- The context of a subquery's inner expression. -/
def PlanContext.enter (ancestor : PlanContext) (window : SubqueryWindow) (query : QueryWindow) :
    Except Error PlanContext := do
  let ownRangeNs ← durationToNs window.range
  let rangeNs ← checkedAdd ancestor.rangeNs ownRangeNs
  let ownOffsetNs ← signedOffsetNs window.offset
  let offsetNs ← checkedAdd ancestor.offsetNs ownOffsetNs
  let ownAtNs ← resolveAt window.atModifier query.startNs query.endNs
  return ⟨rangeNs, offsetNs, ownAtNs.or ancestor.anchor⟩

/-- A `count_over_time` call over a matrix selector. -/
def isPushdownCandidate (func : String) (args : List Expr) : Bool :=
  func == "count_over_time" && match args.head?.map matrixArg with
    | some (.ok (.selector _)) => true
    | _ => false

/-- The tag falls on the one plan of a candidate call. -/
def tagCandidate (candidate : Bool) (plans : List SelectorPlan) : List SelectorPlan :=
  match candidate, plans with
  | true, [plan] => [{ plan with countOverTimePushdownCandidate := true }]
  | _, _ => plans

mutual

/-- The plans of an expression in the order of its selectors. -/
def planWalk (query : QueryWindow) : Expr → PlanContext → Except Error (List SelectorPlan)
  | .vectorSelector vs, ancestor => do
    let totalRangeNs ← checkedAdd ancestor.rangeNs defaultLookbackNs
    let plan ← resolveSelector vs totalRangeNs ancestor query
    return [plan]
  | .matrixSelector ms, ancestor => do
    let ownRangeNs ← durationToNs ms.range
    let totalRangeNs ← checkedAdd ancestor.rangeNs ownRangeNs
    let plan ← resolveSelector ms.vs totalRangeNs ancestor query
    return [plan]
  | .paren expr, ancestor => planWalk query expr ancestor
  | .unary expr, ancestor => planWalk query expr ancestor
  | .subquery expr window, ancestor => do
    let inner ← ancestor.enter window query
    planWalk query expr inner
  | .aggregate _ _ expr param, ancestor => do
    let plans ← planWalk query expr ancestor
    let more ← planWalkParam query param ancestor
    return plans ++ more
  | .binary _ _ lhs rhs, ancestor => do
    let plans ← planWalk query lhs ancestor
    let more ← planWalk query rhs ancestor
    return plans ++ more
  | .call func args, ancestor => do
    let plans ← planWalkAll query args ancestor
    return tagCandidate (isPushdownCandidate func args) plans
  | .extension children, ancestor => planWalkAll query children ancestor
  | .numberLiteral _, _ => .ok []
  | .stringLiteral _, _ => .ok []

def planWalkParam (query : QueryWindow) : Option Expr → PlanContext → Except Error (List SelectorPlan)
  | none, _ => .ok []
  | some param, ancestor => planWalk query param ancestor

def planWalkAll (query : QueryWindow) : List Expr → PlanContext → Except Error (List SelectorPlan)
  | [], _ => .ok []
  | expr :: rest, ancestor => do
    let plans ← planWalk query expr ancestor
    let more ← planWalkAll query rest ancestor
    return plans ++ more

end

/-- `plan_selectors` on a parsed query with its bounds in nanoseconds. -/
def planSelectors (expr : Expr) (query : QueryWindow) : Except Error (List SelectorPlan) :=
  planWalk query expr .root

inductive EvalWindow where
  | instant (tNs : Int)
  | range (startNs endNs stepNs : Int)
  deriving DecidableEq, Repr

/-- The bounds of `@ start()` and `@ end()`. -/
def EvalWindow.query : EvalWindow → QueryWindow
  | .instant tNs => ⟨tNs, tNs⟩
  | .range startNs endNs _ => ⟨startNs, endNs⟩

/-- A range query has a positive step and an end that is not before its start. -/
def EvalWindow.Valid : EvalWindow → Prop
  | .instant _ => True
  | .range startNs endNs stepNs => startNs ≤ endNs ∧ 0 < stepNs

def lastGridNs (startNs endNs stepNs : Int) : Except Error Int := do
  let span ← checkedSub endNs startNs
  let stepSpan ← checkedMul (span.tdiv stepNs) stepNs
  checkedAdd startNs stepSpan

/-- The first and the last lookup instant of a selector. -/
def selectorBounds (plan : SelectorPlan) (evalWindow : EvalWindow) : Except Error (Int × Int) :=
  match plan.anchor, evalWindow with
  | .pinned ts, _ => .ok (ts, ts)
  | .window, .instant tNs => do
    let selTs ← checkedSub tNs plan.offsetNs
    return (selTs, selTs)
  | .window, .range startNs endNs stepNs => do
    let lastNs ← lastGridNs startNs endNs stepNs
    let selStart ← checkedSub startNs plan.offsetNs
    let selEnd ← checkedSub lastNs plan.offsetNs
    return (selStart, selEnd)

def selectorFetchWindow (plan : SelectorPlan) (evalWindow : EvalWindow) : Except Error TimeRange := do
  let bounds ← selectorBounds plan evalWindow
  let startNs ← checkedSub bounds.1 plan.rangeNs
  return ⟨startNs, bounds.2⟩

/-- The settings of an evaluator. -/
structure Evaluator where
  lookbackDeltaNs : Int
  maxRangePoints : Nat
  defaultStepNs : Int
  deriving DecidableEq, Repr

/-- The first and the last instant of a subquery's grid and its step. -/
structure SubqueryGrid where
  startNs : Int
  endNs : Int
  stepNs : Int
  deriving DecidableEq, Repr

def Evaluator.subqueryStepNs (evaluator : Evaluator) (window : SubqueryWindow) : Except Error Int :=
  match window.step with
  | some duration => durationToNs duration
  | none => .ok evaluator.defaultStepNs

/-- The grid that `eval_subquery_matrix` evaluates its inner expression on. An empty grid passes the point limit. -/
def Evaluator.subqueryGrid (evaluator : Evaluator) (window : SubqueryWindow) (evalTsNs : Int)
    (ctx : QueryWindow) : Except Error SubqueryGrid := do
  let endNs ← resolveEvalTs window.offset window.atModifier evalTsNs ctx
  let rangeNs ← durationToNs window.range
  let stepNs ← evaluator.subqueryStepNs window
  if stepNs ≤ 0 then .error (.nonPositiveStep (nsToMsFloor stepNs))
  else
    let targetNs ← checkedSub endNs rangeNs
    let startNs ← alignUpToStep targetNs stepNs
    if startNs ≤ endNs ∧ evaluator.maxRangePoints < stepCount startNs endNs stepNs then
      .error (.tooManyPoints (stepCount startNs endNs stepNs) evaluator.maxRangePoints)
    else return ⟨startNs, endNs, stepNs⟩

/-- The window of a vector selector at one instant. -/
def Evaluator.lookbackWindow (evaluator : Evaluator) (vs : VectorSelector) (evalTsNs : Int)
    (ctx : QueryWindow) : Except Error TimeRange := do
  let selTsNs ← selectorEvalTs vs evalTsNs ctx
  let startNs ← checkedSub selTsNs evaluator.lookbackDeltaNs
  return ⟨startNs, selTsNs⟩

/-- The window of a matrix selector at one instant. -/
def matrixWindow (ms : MatrixSelector) (evalTsNs : Int) (ctx : QueryWindow) : Except Error TimeRange := do
  let selTsNs ← selectorEvalTs ms.vs evalTsNs ctx
  let rangeNs ← durationToNs ms.range
  let startNs ← checkedSub selTsNs rangeNs
  return ⟨startNs, selTsNs⟩

/-- The inner instants of a subquery over all instants that evaluate it. -/
def Evaluator.innerInstants (evaluator : Evaluator) (window : SubqueryWindow) (ctx : QueryWindow)
    (instants : List Int) : Except Error (List Int) := do
  let grids ← instants.mapM fun t => do
    let grid ← evaluator.subqueryGrid window t ctx
    gridInstants grid.startNs grid.endNs grid.stepNs
  return grids.flatten

mutual

/-- The windows that an evaluation at some instants reads, one list a selector in planning order. -/
def Evaluator.reads (evaluator : Evaluator) (ctx : QueryWindow) :
    Expr → List Int → Except Error (List (List TimeRange))
  | .vectorSelector vs, instants => do
    let windows ← instants.mapM fun t => evaluator.lookbackWindow vs t ctx
    return [windows]
  | .matrixSelector ms, instants => do
    let windows ← instants.mapM fun t => matrixWindow ms t ctx
    return [windows]
  | .paren expr, instants => evaluator.reads ctx expr instants
  | .unary expr, instants => evaluator.reads ctx expr instants
  | .subquery expr window, instants => do
    let inner ← evaluator.innerInstants window ctx instants
    evaluator.reads ctx expr inner
  | .aggregate _ _ expr param, instants => do
    let windows ← evaluator.reads ctx expr instants
    let more ← evaluator.readsParam ctx param instants
    return windows ++ more
  | .binary _ _ lhs rhs, instants => do
    let windows ← evaluator.reads ctx lhs instants
    let more ← evaluator.reads ctx rhs instants
    return windows ++ more
  | .call _ args, instants => evaluator.readsAll ctx args instants
  | .extension children, instants => evaluator.readsAll ctx children instants
  | .numberLiteral _, _ => .ok []
  | .stringLiteral _, _ => .ok []

def Evaluator.readsParam (evaluator : Evaluator) (ctx : QueryWindow) :
    Option Expr → List Int → Except Error (List (List TimeRange))
  | none, _ => .ok []
  | some param, instants => evaluator.reads ctx param instants

def Evaluator.readsAll (evaluator : Evaluator) (ctx : QueryWindow) :
    List Expr → List Int → Except Error (List (List TimeRange))
  | [], _ => .ok []
  | expr :: rest, instants => do
    let windows ← evaluator.reads ctx expr instants
    let more ← evaluator.readsAll ctx rest instants
    return windows ++ more

end

/-- The instants of a query: one, or the grid of a range query. -/
def EvalWindow.instants : EvalWindow → Except Error (List Int)
  | .instant tNs => .ok [tNs]
  | .range startNs endNs stepNs => gridInstants startNs endNs stepNs

/-- The windows each selector of a query reads over all steps. -/
def Evaluator.queryReads (evaluator : Evaluator) (expr : Expr) (evalWindow : EvalWindow) :
    Except Error (List (List TimeRange)) := do
  let instants ← evalWindow.instants
  evaluator.reads evalWindow.query expr instants

end Ravel.Promql
