/-
This file models the query expressions and the arithmetic of their timestamps.
-/

import Mathlib.Algebra.Order.Ring.Int
import Mathlib.Data.String.Basic

namespace Ravel.Promql

inductive Error where
  | unsupported (construct : String)
  | source (message : String)
  | timeOverflow
  | nonPositiveStep (stepMs : Int)
  | invalidRange (startMs endMs : Int)
  | tooManyPoints (points max : Nat)
  | wrongType (expected got : String)
  deriving DecidableEq, Repr

/-- Labels in ascending name order, each name once. -/
structure LabelSet where
  labels : List (String × String)
  ascending : labels.Pairwise fun first second => first.1 < second.1
  deriving DecidableEq

def LabelSet.empty : LabelSet := ⟨[], List.Pairwise.nil⟩

def LabelSet.single (name value : String) : LabelSet := ⟨[(name, value)], List.pairwise_singleton _ _⟩

def LabelSet.get (set : LabelSet) (name : String) : Option String :=
  (set.labels.find? fun label => label.1 = name).map Prod.snd

def metricNameLabel : String := "__name__"

/-- `drop_metric_name`. A filtered label set needs no new sort. -/
def LabelSet.dropMetricName (set : LabelSet) : LabelSet :=
  ⟨set.labels.filter fun label => label.1 ≠ metricNameLabel, set.ascending.filter _⟩

/-- A regex operator has the text of its anchored pattern. Two operators with one text are equal. -/
inductive MatchOp where
  | eq
  | ne
  | re (pattern : String)
  | nre (pattern : String)
  deriving DecidableEq, Repr

structure LabelMatcher where
  name : String
  op : MatchOp
  value : String
  deriving DecidableEq, Repr

/-- The matchers of a parsed selector. -/
structure Matchers where
  matchers : List LabelMatcher
  orMatchers : List (List LabelMatcher)
  deriving DecidableEq, Repr

/-- A parsed duration is a number of nanoseconds. -/
abbrev Duration := Nat

inductive Offset where
  | pos (duration : Duration)
  | neg (duration : Duration)
  deriving DecidableEq, Repr

/-- A literal instant counts nanoseconds from the epoch. -/
inductive AtModifier where
  | start
  | stop
  | instant (time : Int)
  deriving DecidableEq, Repr

structure VectorSelector where
  name : Option String
  matchers : Matchers
  offset : Option Offset
  atModifier : Option AtModifier
  deriving DecidableEq, Repr

structure MatrixSelector where
  vs : VectorSelector
  range : Duration
  deriving DecidableEq, Repr

inductive LabelModifier where
  | include (labels : List String)
  | exclude (labels : List String)
  deriving DecidableEq, Repr

inductive VectorMatchCardinality where
  | oneToOne
  | manyToOne (labels : List String)
  | oneToMany (labels : List String)
  | manyToMany
  deriving DecidableEq, Repr

/-- A float is its bit pattern. -/
structure BinModifier where
  card : VectorMatchCardinality
  matching : Option LabelModifier
  returnBool : Bool
  fillLhs : Option UInt64
  fillRhs : Option UInt64
  deriving DecidableEq

inductive BinaryOp where
  | add | sub | mul | div | mod | pow | atan2
  | eqlc | neq | gtr | lss | gte | lte
  | land | lor | lunless
  deriving DecidableEq, Repr

inductive AggregateOp where
  | sum | avg | min | max | count | group | stddev | stdvar
  | topk | bottomk | quantile | countValues | limitk | limitRatio
  deriving DecidableEq, Repr

/-- The window of a subquery apart from its inner expression. -/
structure SubqueryWindow where
  offset : Option Offset
  atModifier : Option AtModifier
  range : Duration
  step : Option Duration
  deriving DecidableEq, Repr

inductive Expr where
  | aggregate (op : AggregateOp) (modifier : Option LabelModifier) (expr : Expr) (param : Option Expr)
  | unary (expr : Expr)
  | binary (op : BinaryOp) (modifier : Option BinModifier) (lhs rhs : Expr)
  | paren (expr : Expr)
  | subquery (expr : Expr) (window : SubqueryWindow)
  | numberLiteral (value : UInt64)
  | stringLiteral (value : String)
  | vectorSelector (vs : VectorSelector)
  | matrixSelector (ms : MatrixSelector)
  | call (func : String) (args : List Expr)
  | extension (children : List Expr)

/-- A window with both bounds inside. -/
structure TimeRange where
  startNs : Int
  endNs : Int
  deriving DecidableEq, Repr

/-- The window `inner` lies in the window `outer`. -/
def TimeRange.Inside (inner outer : TimeRange) : Prop :=
  outer.startNs ≤ inner.startNs ∧ inner.endNs ≤ outer.endNs

instance (inner outer : TimeRange) : Decidable (inner.Inside outer) :=
  inferInstanceAs (Decidable (_ ∧ _))

def i64Min : Int := -9223372036854775808

def i64Max : Int := 9223372036854775807

/-- An `i64` operation fails when its exact result does not fit. -/
def checked (value : Int) : Except Error Int :=
  if i64Min ≤ value ∧ value ≤ i64Max then .ok value else .error .timeOverflow

def checkedAdd (left right : Int) : Except Error Int := checked (left + right)

def checkedSub (left right : Int) : Except Error Int := checked (left - right)

def checkedMul (left right : Int) : Except Error Int := checked (left * right)

def nsPerMs : Int := 1000000

def msToNs (ms : Int) : Except Error Int := checkedMul ms nsPerMs

def nsToMsFloor (ns : Int) : Int := ns / nsPerMs

def durationToNs (duration : Duration) : Except Error Int := checked duration

def signedOffsetNs : Option Offset → Except Error Int
  | none => .ok 0
  | some (.pos duration) => do
    let ns ← checked duration
    checkedMul ns 1
  | some (.neg duration) => do
    let ns ← checked duration
    checkedMul ns (-1)

/-- A time before the epoch converts through the distance to it. -/
def systemtimeToNs (time : Int) : Except Error Int :=
  if 0 ≤ time then checked time
  else do
    let ns ← checked (-time)
    checked (-ns)

def resolveAt (atModifier : Option AtModifier) (queryStartNs queryEndNs : Int) :
    Except Error (Option Int) :=
  match atModifier with
  | none => .ok none
  | some .start => .ok (some queryStartNs)
  | some .stop => .ok (some queryEndNs)
  | some (.instant time) => some <$> systemtimeToNs time

/-- The bounds that `@ start()` and `@ end()` name. -/
structure QueryWindow where
  startNs : Int
  endNs : Int
  deriving DecidableEq, Repr

def resolveEvalTs (offset : Option Offset) (atModifier : Option AtModifier) (evalTsNs : Int)
    (ctx : QueryWindow) : Except Error Int := do
  let offsetNs ← signedOffsetNs offset
  let anchor ← resolveAt atModifier ctx.startNs ctx.endNs
  checkedSub (anchor.getD evalTsNs) offsetNs

def selectorEvalTs (vs : VectorSelector) (evalTsNs : Int) (ctx : QueryWindow) : Except Error Int :=
  resolveEvalTs vs.offset vs.atModifier evalTsNs ctx

def hasOrGroup (matchers : Matchers) : Bool := !matchers.orMatchers.isEmpty

def buildMatchers (vs : VectorSelector) : Except Error (List LabelMatcher) :=
  if hasOrGroup vs.matchers then .error (.unsupported "label matcher or-group")
  else
    .ok (match vs.name with
      | none => vs.matchers.matchers
      | some name => vs.matchers.matchers ++ [⟨metricNameLabel, .eq, name⟩])

/-- The number of instants from a start that is not after the end. -/
def stepCount (startNs endNs stepNs : Int) : Nat := ((endNs - startNs) / stepNs + 1).toNat

/-- The smallest multiple of the step strictly above the target. -/
def alignUpToStep (targetNs stepNs : Int) : Except Error Int :=
  checked (targetNs / stepNs * stepNs + stepNs)

/-- The loop `while t <= end { body(t)?; t = t.checked_add(step)?; }`. The fuel is an upper bound of its passes. -/
def overGrid {State : Type} (endNs stepNs : Int) (body : Int → State → Except Error State) :
    Nat → Int → State → Except Error State
  | 0, _, state => .ok state
  | fuel + 1, t, state =>
    if t ≤ endNs then do
      let next ← body t state
      let later ← checkedAdd t stepNs
      overGrid endNs stepNs body fuel later next
    else .ok state

/-- The instants a grid loop visits. -/
def gridInstants (startNs endNs stepNs : Int) : Except Error (List Int) :=
  overGrid endNs stepNs (fun t instants => .ok (instants ++ [t])) (stepCount startNs endNs stepNs) startNs []

end Ravel.Promql
