import Ravel.Proof.Promql.PartialCounts
import Ravel.Proof.Promql.RangeAgreement

namespace Ravel.Promql

open List Library

mutual

/-- A candidate call below a subquery is evaluated. The flag says that a subquery stands above. -/
def Evaluator.countsOnGrid (evaluator : Evaluator) (ctx : QueryWindow) : Bool → Expr → Int → Bool
  | below, .paren expr, t => evaluator.countsOnGrid ctx below expr t
  | below, .unary expr, t => evaluator.countsOnGrid ctx below expr t
  | below, .binary _ _ lhs rhs, t =>
    evaluator.countsOnGrid ctx below lhs t || evaluator.countsOnGrid ctx below rhs t
  | below, .aggregate _ _ expr param, t =>
    evaluator.countsOnGrid ctx below expr t || evaluator.countsOnGridParam ctx below param t
  | below, .call func args, t =>
    (below && isPushdownCandidate func args) || evaluator.countsOnGridAll ctx below args t
  | _, .subquery expr window, t =>
    match evaluator.subqueryGrid window t ctx with
    | .ok grid => (pointsOf grid.startNs grid.endNs grid.stepNs).any fun point =>
      evaluator.countsOnGrid ctx true expr point
    | .error _ => false
  | _, .numberLiteral _, _ => false
  | _, .stringLiteral _, _ => false
  | _, .vectorSelector _, _ => false
  | _, .matrixSelector _, _ => false
  | _, .extension _, _ => false

def Evaluator.countsOnGridParam (evaluator : Evaluator) (ctx : QueryWindow) : Bool → Option Expr → Int → Bool
  | _, none, _ => false
  | below, some param, t => evaluator.countsOnGrid ctx below param t

def Evaluator.countsOnGridAll (evaluator : Evaluator) (ctx : QueryWindow) : Bool → List Expr → Int → Bool
  | _, [], _ => false
  | below, expr :: rest, t => evaluator.countsOnGrid ctx below expr t || evaluator.countsOnGridAll ctx below rest t

end

/-- The counts that the evaluator takes from the series of a left-open window. -/
def seriesCounts (startNs : Int) (found : List SeriesData) : List (LabelSet × Nat) :=
  ((found.map fun series =>
    (series.labels, series.samples.filter fun sample => decide (startNs < sample.tsNs) && isLive sample)).filter
      fun entry => !entry.2.isEmpty).map fun entry => (entry.1, entry.2.length)

/-- Two sources of one query: `pushed` has the counts of the target in place of its series. -/
structure CountsPushed (plans : List SelectorPlan) (target : PushdownTarget) (pushed raw : SeriesSource) : Prop where
  others : ∀ matchers ∈ plans.map SelectorPlan.matchers, matchers ≠ target.matchers →
    ∀ window, pushed.query matchers window = raw.query matchers window
  uncounted : ∀ matchers startNs endNs, raw.queryPrecomputedCount matchers startNs endNs = .ok none
  unasked : ∀ matchers startNs endNs, matchers ≠ target.matchers →
    pushed.queryPrecomputedCount matchers startNs endNs = .ok none
  counted : ∃ found, raw.query target.matchers ⟨target.reduceStartNs, target.reduceEndNs⟩ = .ok found ∧
    pushed.queryPrecomputedCount target.matchers target.reduceStartNs target.reduceEndNs =
      .ok (some (seriesCounts target.reduceStartNs found))

section Evaluation

variable {evaluator : Evaluator} {ops : Operators} {pushed raw : SeriesSource} {ctx : QueryWindow}

variable {source : SeriesSource} {expr : Expr} {arg : MatrixArg} {args : List Expr} {func : String}
  {plan : SelectorPlan} {ms : MatrixSelector} {window : RangeWindow}

/-- The evaluation of a matrix argument looks through its parentheses. -/
theorem evalExpr_matrixArg (shaped : matrixArg expr = .ok arg) (t : Int) :
    evaluator.evalExpr ops source ctx expr t = evaluator.evalExpr ops source ctx arg.expr t :=
  read_matrixArg (fun expr => evaluator.evalExpr ops source ctx expr t) (fun _ => by rw [Evaluator.evalExpr]) shaped

theorem evalArgs_getElem? (args : List Expr) (t : Int) (position : Nat) :
    (evaluator.evalArgs ops source ctx args t)[position]? =
      args[position]?.map fun expr => evaluator.evalExpr ops source ctx expr t := by
  induction args generalizing position with
  | nil =>
    rw [Evaluator.evalArgs]
    rfl
  | cons expr args ih =>
    rw [Evaluator.evalArgs]
    cases position with
    | zero => rfl
    | succ position => exact ih position

/-- Sources with equal argument values give equal matrices. -/
theorem evalMatrixArg_congr {t : Int}
    (values : evaluator.evalArgs ops pushed ctx args t = evaluator.evalArgs ops raw ctx args t) {position : Nat}
    (placed : argument args position = .ok expr) (shaped : matrixArg expr = .ok arg) (value : Except Error Value) :
    evalMatrixArg pushed arg value t ctx = evalMatrixArg raw arg value t ctx := by
  cases arg with
  | subquery _ _ => rfl
  | selector ms =>
    have present : args[position]? = some expr := by
      unfold argument at placed
      split at placed
      · rename_i found
        cases placed
        exact found
      · cases placed
    have same := congrArg (fun values => values[position]?) values
    simp only [evalArgs_getElem?, present, Option.map_some, Option.some.injEq] at same
    rw [evalExpr_matrixArg shaped, evalExpr_matrixArg shaped, MatrixArg.expr, Evaluator.evalExpr,
      Evaluator.evalExpr] at same
    show evalMatrixSelector pushed ms t ctx = evalMatrixSelector raw ms t ctx
    cases left : evalMatrixSelector pushed ms t ctx with
    | error failure =>
      cases right : evalMatrixSelector raw ms t ctx with
      | error other =>
        rw [left, right] at same
        cases same
        rfl
      | ok _ =>
        rw [left, right] at same
        cases same
    | ok matrix =>
      cases right : evalMatrixSelector raw ms t ctx with
      | error _ =>
        rw [left, right] at same
        cases same
      | ok _ =>
        rw [left, right] at same
        cases same
        rfl

/-- A call reads its sources through its arguments and the table of counts. -/
theorem evalCall_congr {t : Int}
    (values : evaluator.evalArgs ops pushed ctx args t = evaluator.evalArgs ops raw ctx args t)
    (tables : ∀ expr arg window, argument args 0 = .ok expr → matrixArg expr = .ok arg → precomputedCount pushed func arg window = precomputedCount raw func arg window) :
    evalCall ops pushed ctx func args (evaluator.evalArgs ops pushed ctx args t) t =
      evalCall ops raw ctx func args (evaluator.evalArgs ops raw ctx args t) t := by
  rw [← values]
  unfold evalCall
  split
  · rfl
  · apply bind_congr_ok
    intro expr placed
    apply bind_congr_ok
    intro arg shaped
    apply bind_congr_ok
    intro window _
    rw [tables expr arg window placed shaped]
    apply bind_congr_ok
    intro answer _
    cases answer with
    | some results => rfl
    | none =>
      apply bind_congr_ok
      intro value _
      rw [evalMatrixArg_congr values placed shaped]
  · apply bind_congr_ok
    intro expr placed
    apply bind_congr_ok
    intro arg shaped
    simp only [evalMatrixArg_congr values placed shaped]
  · apply bind_congr_ok
    intro expr placed
    apply bind_congr_ok
    intro arg shaped
    simp only [evalMatrixArg_congr values placed shaped]
  · rfl
  · rfl
  · apply bind_congr_ok
    intro scalarValue _
    apply bind_congr_ok
    intro q _
    apply bind_congr_ok
    intro expr placed
    apply bind_congr_ok
    intro arg shaped
    simp only [evalMatrixArg_congr values placed shaped]
  · apply bind_congr_ok
    intro expr placed
    apply bind_congr_ok
    intro arg shaped
    simp only [absentOverTimeInstant, evalMatrixArg_congr values placed shaped]
  · rfl
  · rfl

/-- Two grid loops with one body on the visited points are equal. -/
theorem overGrid_congr {State : Type} {endNs stepNs : Int} {body other : Int → State → Except Error State} :
    ∀ {fuel : Nat} {t : Int} {state : State}, (∀ point ∈ gridPoints stepNs fuel t, ∀ state, body point state = other point state) →
      overGrid endNs stepNs body fuel t state = overGrid endNs stepNs other fuel t state := by
  intro fuel
  induction fuel with
  | zero =>
    intro t state _
    rfl
  | succ fuel ih =>
    intro t state same
    obtain ⟨first, later⟩ := forall_mem_cons.mp same
    rw [overGrid, overGrid]
    split
    · rw [first state]
      apply bind_congr_ok
      intro next _
      apply bind_congr_ok
      intro after added
      obtain rfl := eq_of_checkedAdd added
      exact ih later
    · rfl

theorem evalSubqueryMatrix_congr {inner other : Int → Except Error Value} {window : SubqueryWindow} {t : Int}
    (same : ∀ grid, evaluator.subqueryGrid window t ctx = .ok grid →
      ∀ point ∈ pointsOf grid.startNs grid.endNs grid.stepNs, inner point = other point) :
    evaluator.evalSubqueryMatrix inner window t ctx = evaluator.evalSubqueryMatrix other window t ctx := by
  apply bind_congr_ok
  intro grid gridded
  split
  · rfl
  · apply overGrid_congr
    intro point visited series
    simp only [same grid gridded point visited]

theorem resolveSelector_matchers {vs : VectorSelector} {rangeNs : Int} {ancestor : PlanContext} {query : QueryWindow}
    (resolved : resolveSelector vs rangeNs ancestor query = .ok plan) :
    buildMatchers vs = .ok plan.matchers ∧ plan.countOverTimePushdownCandidate = false := by
  obtain ⟨matchers, built, resolved⟩ := ok_of_bind resolved
  obtain ⟨_, _, resolved⟩ := ok_of_bind resolved
  obtain ⟨_, _, resolved⟩ := ok_of_bind resolved
  obtain ⟨own, _, resolved⟩ := ok_of_bind resolved
  cases pinned : own.or ancestor.anchor with
  | none =>
    rw [pinned] at resolved
    cases resolved
    exact ⟨built, rfl⟩
  | some pinnedNs =>
    rw [pinned] at resolved
    obtain ⟨_, _, resolved⟩ := ok_of_bind resolved
    cases resolved
    exact ⟨built, rfl⟩

theorem rangeWindow_fetched {t : Int} {fetched : TimeRange}
    (planned : planWalk ⟨t, t⟩ (.matrixSelector ms) .root = .ok [plan])
    (read : rangeWindow (.selector ms) t ⟨t, t⟩ = .ok window)
    (fetches : selectorFetchWindow plan (.instant t) = .ok fetched) : fetched = ⟨window.startNs, window.endNs⟩ := by
  rw [planWalk] at planned
  obtain ⟨rangeNs, ranged, planned⟩ := ok_of_bind planned
  obtain ⟨total, added, planned⟩ := ok_of_bind planned
  obtain ⟨found, resolved, planned⟩ := ok_of_bind planned
  obtain rfl : found = plan := singleton_injective (Except.ok.inj planned)
  obtain ⟨offsetNs, own, shifted, anchored, sameRange, sameOffset, sameAnchor⟩ := resolveSelector_eq_ok resolved
  obtain ⟨selTs, moved, read⟩ := ok_of_bind read
  obtain ⟨rangeAgain, rangedAgain, read⟩ := ok_of_bind read
  obtain ⟨startNs, started, read⟩ := ok_of_bind read
  cases read
  obtain rfl := Except.ok.inj (ranged.symm.trans rangedAgain)
  obtain rfl := eq_of_checkedSub started
  obtain ⟨offsetAgain, ownAgain, shiftedAgain, anchoredAgain, rfl⟩ := resolveEvalTs_eq_ok moved
  obtain rfl := Except.ok.inj (shifted.symm.trans shiftedAgain)
  obtain rfl := Except.ok.inj (anchored.symm.trans anchoredAgain)
  have closed := @selectorFetchWindow_eq_ok _ (.instant t) trivial _ fetches
  rw [sameAnchor, sameRange, sameOffset, eq_of_checkedAdd added] at closed
  rw [closed]
  cases own with
  | none => simp [PlanContext.root, EvalWindow.firstNs, EvalWindow.lastNs]
  | some pinned => simp [PlanContext.root]

/-- The evaluator turns the count table into the vector that it reduces from the raw series. -/
theorem applyReduce_seriesCounts (ofCount : Nat → UInt64) (found : List SeriesData) (startNs t : Int) (keepName : Bool)
    (window : RangeWindow) :
    ((seriesCounts startNs found).map fun result : LabelSet × Nat =>
      (⟨resultLabels keepName result.1, t, t, ofCount result.2⟩ : InstantSample)) =
    applyReduce ((found.map fun series =>
      (series.labels, series.samples.filter fun sample => decide (startNs < sample.tsNs) && isLive sample)).filter
        fun entry => !entry.2.isEmpty) t keepName fun samples => countOverTime ofCount samples window := by
  rw [seriesCounts, map_map, applyReduce, ← filterMap_eq_map]
  rfl

theorem precomputedCount_selector {matchers : List LabelMatcher} {answer : Option (List (LabelSet × Nat))}
    (built : buildMatchers ms.vs = .ok matchers)
    (answered : source.queryPrecomputedCount matchers window.startNs window.endNs = .ok answer) :
    precomputedCount source "count_over_time" (.selector ms) window = .ok answer := by
  refine bind_eq_ok.mpr ⟨matchers, built, ?_⟩
  rw [answered]
  rfl

/-- The call whose count is pushed down has one value over both sources. -/
theorem evalCall_counted {plans : List SelectorPlan} {target : PushdownTarget} {t : Int}
    {pushedValues rawValues : List (Except Error Value)} (agrees : CountsPushed plans target pushed raw)
    (placed : argument args 0 = .ok expr) (shaped : matrixArg expr = .ok (.selector ms))
    (planned : planWalk ⟨t, t⟩ (.matrixSelector ms) .root = .ok [plan])
    (built : buildMatchers ms.vs = .ok target.matchers)
    (fetches : selectorFetchWindow plan (.instant t) = .ok ⟨target.reduceStartNs, target.reduceEndNs⟩)
    (valued : ∃ value, argument rawValues 0 = .ok value) :
    evalCall ops pushed ⟨t, t⟩ "count_over_time" args pushedValues t =
      evalCall ops raw ⟨t, t⟩ "count_over_time" args rawValues t := by
  obtain ⟨value, valued⟩ := valued
  obtain ⟨series, queried, table⟩ := agrees.counted
  unfold evalCall
  rw [ops.counts]
  apply bind_congr_ok
  intro found placedAgain
  obtain rfl := Except.ok.inj (placed.symm.trans placedAgain)
  apply bind_congr_ok
  intro arg shapedAgain
  obtain rfl := Except.ok.inj (shaped.symm.trans shapedAgain)
  apply bind_congr_ok
  intro window read
  have bounds := rangeWindow_fetched planned read fetches
  obtain ⟨startEq, endEq⟩ := TimeRange.mk.inj bounds
  have pushedTable : precomputedCount pushed "count_over_time" (.selector ms) window =
      .ok (some (seriesCounts target.reduceStartNs series)) := by
    apply precomputedCount_selector built
    rwa [← startEq, ← endEq]
  have rawTable : precomputedCount raw "count_over_time" (.selector ms) window = .ok none :=
    precomputedCount_selector built (agrees.uncounted _ _ _)
  have matrixRead : evalMatrixArg raw (.selector ms) value t ⟨t, t⟩ = .ok ((series.map fun found =>
      (found.labels, found.samples.filter fun sample =>
        decide (target.reduceStartNs < sample.tsNs) && isLive sample)).filter fun entry => !entry.2.isEmpty) := by
    obtain ⟨selTs, moved, read⟩ := ok_of_bind read
    obtain ⟨rangeNs, ranged, read⟩ := ok_of_bind read
    obtain ⟨startNs, started, read⟩ := ok_of_bind read
    cases read
    refine bind_eq_ok.mpr ⟨_, built, bind_eq_ok.mpr ⟨⟨target.reduceStartNs, target.reduceEndNs⟩, ?_, ?_⟩⟩
    · rw [startEq, endEq]
      exact bind_eq_ok.mpr ⟨selTs, moved, bind_eq_ok.mpr ⟨rangeNs, ranged, bind_eq_ok.mpr ⟨startNs, started, rfl⟩⟩⟩
    · exact bind_eq_ok.mpr ⟨series, queried, rfl⟩
  rw [pushedTable, rawTable, ← valued.symm]
  change Except.ok (Value.vector _) = (evalMatrixArg raw (.selector ms) value t ⟨t, t⟩ >>= _)
  rw [matrixRead, applyReduce_seriesCounts ops.ofCount series target.reduceStartNs t _ window]
  rfl

theorem isPushdownCandidate_iff : isPushdownCandidate func args = true ↔
    func = "count_over_time" ∧ ∃ expr rest ms, args = expr :: rest ∧ matrixArg expr = .ok (.selector ms) := by
  unfold isPushdownCandidate
  rw [Bool.and_eq_true, beq_iff_eq]
  refine and_congr_right fun _ => ?_
  cases args with
  | nil => simp
  | cons expr rest =>
    rw [head?_cons, Option.map_some]
    cases shaped : matrixArg expr with
    | error failure => simp [shaped]
    | ok arg =>
      cases arg with
      | selector ms => simp [shaped]
      | subquery _ _ => simp [shaped]

theorem precomputedCount_of_not_candidate (other : ¬ isPushdownCandidate func args = true)
    (placed : argument args 0 = .ok expr) (shaped : matrixArg expr = .ok arg) :
    precomputedCount source func arg window = .ok none := by
  unfold precomputedCount
  split
  · rename_i ms counts
    refine absurd (isPushdownCandidate_iff.mpr ⟨by simpa using counts, ?_⟩) other
    cases args with
    | nil => cases placed
    | cons first rest =>
      cases placed
      exact ⟨_, rest, ms, rfl, shaped⟩
  · rfl

section Agreement

variable {plans : List SelectorPlan} {target : PushdownTarget} {t : Int}

/-- The plans of a part of the query. Only the candidate has the matchers of the target, and it fetches the window
of the target. -/
def PlansServed (plans : List SelectorPlan) (target : PushdownTarget) (t : Int) (part : List SelectorPlan) : Prop :=
  ∀ plan ∈ part, plan.matchers ∈ plans.map SelectorPlan.matchers ∧ (plan.matchers = target.matchers →
    plan.countOverTimePushdownCandidate = true ∧
      selectorFetchWindow plan (.instant t) = .ok ⟨target.reduceStartNs, target.reduceEndNs⟩)

/-- A selector outside the candidate call reads the same series from both sources. -/
theorem query_untagged (agrees : CountsPushed plans target pushed raw) {plan : SelectorPlan}
    (served : PlansServed plans target t [plan]) (untagged : plan.countOverTimePushdownCandidate = false)
    (window : TimeRange) : pushed.query plan.matchers window = raw.query plan.matchers window := by
  obtain ⟨planned, tagged⟩ := served plan mem_cons_self
  apply agrees.others _ planned
  intro isTarget
  exact absurd (tagged isTarget).1 (by simp [untagged])

/-- A call has one value over both sources when its arguments do. -/
theorem evalCall_agrees (agrees : CountsPushed plans target pushed raw) {func : String} {args : List Expr} {below : Bool}
    {ancestor : PlanContext} {instant : Int} {part : List SelectorPlan}
    (planned : planWalkAll ⟨t, t⟩ args ancestor = .ok part)
    (served : PlansServed plans target t (tagCandidate (isPushdownCandidate func args) part))
    (offGrid : below = true → isPushdownCandidate func args = false)
    (place : below = true ∨ (ancestor = .root ∧ instant = t))
    (values : PlansServed plans target t part →
      evaluator.evalArgs ops pushed ⟨t, t⟩ args instant = evaluator.evalArgs ops raw ⟨t, t⟩ args instant) :
    evalCall ops pushed ⟨t, t⟩ func args (evaluator.evalArgs ops pushed ⟨t, t⟩ args instant) instant =
      evalCall ops raw ⟨t, t⟩ func args (evaluator.evalArgs ops raw ⟨t, t⟩ args instant) instant := by
  by_cases candidate : isPushdownCandidate func args = true
  · obtain ⟨rfl, expr, rest, ms, rfl, shaped⟩ := isPushdownCandidate_iff.mp candidate
    obtain ⟨rfl, rfl⟩ : ancestor = .root ∧ instant = t := by
      apply place.resolve_left
      intro isBelow
      exact absurd candidate (by simp [offGrid isBelow])
    obtain ⟨first, firstPlanned, planned⟩ := ok_of_bind planned
    obtain ⟨more, _, planned⟩ := ok_of_bind planned
    cases planned
    have selectorPlanned : planWalk ⟨instant, instant⟩ (.matrixSelector ms) .root = .ok first :=
      (read_matrixArg (fun expr => planWalk ⟨instant, instant⟩ expr .root) (fun _ => by rw [planWalk]) shaped).symm.trans
        firstPlanned
    have inverted := selectorPlanned
    rw [planWalk] at inverted
    obtain ⟨_, _, inverted⟩ := ok_of_bind inverted
    obtain ⟨_, _, inverted⟩ := ok_of_bind inverted
    obtain ⟨plan, resolved, inverted⟩ := ok_of_bind inverted
    cases inverted
    obtain ⟨built, untagged⟩ := resolveSelector_matchers resolved
    rw [candidate] at served
    by_cases isTarget : plan.matchers = target.matchers
    · cases more with
      | nil =>
        obtain ⟨_, tagged⟩ := served _ mem_cons_self
        refine evalCall_counted agrees rfl shaped selectorPlanned (isTarget ▸ built) (tagged isTarget).2 ?_
        rw [Evaluator.evalArgs]
        exact ⟨_, rfl⟩
      | cons _ _ =>
        obtain ⟨_, tagged⟩ := served plan mem_cons_self
        exact absurd (tagged isTarget).1 (by simp [untagged])
    · have servedPart : PlansServed plans target instant ([plan] ++ more) := by
        cases more with
        | nil =>
          intro other member
          obtain rfl := mem_singleton.mp member
          exact ⟨(served _ mem_cons_self).1, fun same => absurd same isTarget⟩
        | cons _ _ => exact served
      refine evalCall_congr (values servedPart) ?_
      intro found arg window placed shapedAgain
      cases placed
      obtain rfl := Except.ok.inj (shaped.symm.trans shapedAgain)
      rw [precomputedCount_selector built (agrees.unasked _ _ _ isTarget),
        precomputedCount_selector built (agrees.uncounted _ _ _)]
  · have untagged : tagCandidate (isPushdownCandidate func args) part = part := by
      rw [Bool.not_eq_true] at candidate
      rw [candidate]
      rfl
    rw [untagged] at served
    refine evalCall_congr (values served) ?_
    intro expr arg window placed shaped
    rw [precomputedCount_of_not_candidate candidate placed shaped, precomputedCount_of_not_candidate candidate placed shaped]

variable (agrees : CountsPushed plans target pushed raw)

include agrees

mutual

theorem evalExpr_agrees : ∀ (expr : Expr) {below : Bool} {ancestor : PlanContext} {instant : Int}
    {part : List SelectorPlan}, planWalk ⟨t, t⟩ expr ancestor = .ok part → PlansServed plans target t part →
    evaluator.countsOnGrid ⟨t, t⟩ below expr instant = false → below = true ∨ (ancestor = .root ∧ instant = t) →
    evaluator.evalExpr ops pushed ⟨t, t⟩ expr instant = evaluator.evalExpr ops raw ⟨t, t⟩ expr instant
  | .vectorSelector vs, below, ancestor, instant, part, planned, served, _, _ => by
    rw [planWalk] at planned
    obtain ⟨_, _, planned⟩ := ok_of_bind planned
    obtain ⟨plan, resolved, planned⟩ := ok_of_bind planned
    cases planned
    obtain ⟨built, untagged⟩ := resolveSelector_matchers resolved
    rw [Evaluator.evalExpr, Evaluator.evalExpr, Evaluator.evalVectorSelector, Evaluator.evalVectorSelector, built]
    congr 1
    apply bind_congr_ok
    intro matchers same
    cases same
    apply bind_congr_ok
    intro window _
    rw [query_untagged agrees served untagged]
  | .matrixSelector ms, below, ancestor, instant, part, planned, served, _, _ => by
    rw [planWalk] at planned
    obtain ⟨_, _, planned⟩ := ok_of_bind planned
    obtain ⟨_, _, planned⟩ := ok_of_bind planned
    obtain ⟨plan, resolved, planned⟩ := ok_of_bind planned
    cases planned
    obtain ⟨built, untagged⟩ := resolveSelector_matchers resolved
    rw [Evaluator.evalExpr, Evaluator.evalExpr, evalMatrixSelector, evalMatrixSelector, built]
    congr 1
    apply bind_congr_ok
    intro matchers same
    cases same
    apply bind_congr_ok
    intro window _
    rw [query_untagged agrees served untagged]
  | .paren expr, _, _, _, _, planned, served, offGrid, place => by
    rw [planWalk] at planned
    rw [Evaluator.countsOnGrid] at offGrid
    rw [Evaluator.evalExpr, Evaluator.evalExpr]
    exact evalExpr_agrees expr planned served offGrid place
  | .unary expr, _, _, _, _, planned, served, offGrid, place => by
    rw [planWalk] at planned
    rw [Evaluator.countsOnGrid] at offGrid
    rw [Evaluator.evalExpr, Evaluator.evalExpr, evalExpr_agrees expr planned served offGrid place]
  | .subquery expr window, below, ancestor, instant, part, planned, served, offGrid, place => by
    rw [planWalk] at planned
    obtain ⟨inner, _, planned⟩ := ok_of_bind planned
    rw [Evaluator.countsOnGrid] at offGrid
    rw [Evaluator.evalExpr, Evaluator.evalExpr]
    congr 1
    apply evalSubqueryMatrix_congr
    intro grid gridded point visited
    rw [gridded] at offGrid
    have unasked := any_eq_false.mp offGrid point visited
    exact evalExpr_agrees expr planned served (by simpa using unasked) (.inl rfl)
  | .aggregate op modifier expr param, below, ancestor, instant, part, planned, served, offGrid, place => by
    rw [planWalk] at planned
    obtain ⟨first, firstPlanned, planned⟩ := ok_of_bind planned
    obtain ⟨more, morePlanned, planned⟩ := ok_of_bind planned
    cases planned
    obtain ⟨servedFirst, servedMore⟩ := forall_mem_append.mp served
    rw [Evaluator.countsOnGrid, Bool.or_eq_false_iff] at offGrid
    rw [Evaluator.evalExpr, Evaluator.evalExpr, evalExpr_agrees expr firstPlanned servedFirst offGrid.1 place,
      evalParam_agrees param morePlanned servedMore offGrid.2 place]
  | .binary op modifier lhs rhs, below, ancestor, instant, part, planned, served, offGrid, place => by
    rw [planWalk] at planned
    obtain ⟨first, firstPlanned, planned⟩ := ok_of_bind planned
    obtain ⟨more, morePlanned, planned⟩ := ok_of_bind planned
    cases planned
    obtain ⟨servedFirst, servedMore⟩ := forall_mem_append.mp served
    rw [Evaluator.countsOnGrid, Bool.or_eq_false_iff] at offGrid
    rw [Evaluator.evalExpr, Evaluator.evalExpr, evalExpr_agrees lhs firstPlanned servedFirst offGrid.1 place,
      evalExpr_agrees rhs morePlanned servedMore offGrid.2 place]
  | .call func args, below, ancestor, instant, part, planned, served, offGrid, place => by
    rw [planWalk] at planned
    obtain ⟨argPlans, argsPlanned, planned⟩ := ok_of_bind planned
    cases planned
    rw [Evaluator.countsOnGrid, Bool.or_eq_false_iff] at offGrid
    rw [Evaluator.evalExpr, Evaluator.evalExpr]
    apply evalCall_agrees agrees argsPlanned served _ place
    · intro servedArgs
      exact evalArgs_agrees args argsPlanned servedArgs offGrid.2 place
    · intro isBelow
      simpa [isBelow] using offGrid.1
  | .numberLiteral _, _, _, _, _, _, _, _, _ => by rw [Evaluator.evalExpr, Evaluator.evalExpr]
  | .stringLiteral _, _, _, _, _, _, _, _, _ => by rw [Evaluator.evalExpr, Evaluator.evalExpr]
  | .extension _, _, _, _, _, _, _, _, _ => by rw [Evaluator.evalExpr, Evaluator.evalExpr]

theorem evalParam_agrees : ∀ (param : Option Expr) {below : Bool} {ancestor : PlanContext} {instant : Int}
    {part : List SelectorPlan}, planWalkParam ⟨t, t⟩ param ancestor = .ok part → PlansServed plans target t part →
    evaluator.countsOnGridParam ⟨t, t⟩ below param instant = false → below = true ∨ (ancestor = .root ∧ instant = t) →
    evaluator.evalParam ops pushed ⟨t, t⟩ param instant = evaluator.evalParam ops raw ⟨t, t⟩ param instant
  | none, _, _, _, _, _, _, _, _ => by rw [Evaluator.evalParam, Evaluator.evalParam]
  | some param, _, _, _, _, planned, served, offGrid, place => by
    rw [planWalkParam] at planned
    rw [Evaluator.countsOnGridParam] at offGrid
    rw [Evaluator.evalParam, Evaluator.evalParam, evalExpr_agrees param planned served offGrid place]

theorem evalArgs_agrees : ∀ (args : List Expr) {below : Bool} {ancestor : PlanContext} {instant : Int}
    {part : List SelectorPlan}, planWalkAll ⟨t, t⟩ args ancestor = .ok part → PlansServed plans target t part →
    evaluator.countsOnGridAll ⟨t, t⟩ below args instant = false → below = true ∨ (ancestor = .root ∧ instant = t) →
    evaluator.evalArgs ops pushed ⟨t, t⟩ args instant = evaluator.evalArgs ops raw ⟨t, t⟩ args instant
  | [], _, _, _, _, _, _, _, _ => by rw [Evaluator.evalArgs, Evaluator.evalArgs]
  | expr :: rest, _, _, _, _, planned, served, offGrid, place => by
    rw [planWalkAll] at planned
    obtain ⟨first, firstPlanned, planned⟩ := ok_of_bind planned
    obtain ⟨more, morePlanned, planned⟩ := ok_of_bind planned
    cases planned
    obtain ⟨servedFirst, servedMore⟩ := forall_mem_append.mp served
    rw [Evaluator.countsOnGridAll, Bool.or_eq_false_iff] at offGrid
    rw [Evaluator.evalArgs, Evaluator.evalArgs, evalExpr_agrees expr firstPlanned servedFirst offGrid.1 place,
      evalArgs_agrees rest morePlanned servedMore offGrid.2 place]

end

end Agreement

end Evaluation

section Sources

variable {Histogram : Type} {regex : RegexMatch} {segments : List MetricSegment} {plans : List SelectorPlan}
  {target : PushdownTarget} {raw pushed : MergedSource Histogram}

theorem mem_fetchScalars {matchers : List LabelMatcher} {run : ScalarRun} : run ∈ fetchScalars regex segments matchers ↔
    run ∈ segments.flatMap MetricSegment.scalars ∧ matchesSeries regex matchers run.labels = true := by
  simp only [fetchScalars, mem_flatMap, mem_filter]
  constructor
  · rintro ⟨segment, listed, stored, matched⟩
    exact ⟨⟨segment, listed, stored⟩, matched⟩
  · rintro ⟨⟨segment, listed, stored⟩, matched⟩
    exact ⟨segment, listed, stored, matched⟩

theorem mem_fetchedRuns {some : List SelectorPlan} {plan : SelectorPlan} (listed : plan ∈ some) {run : ScalarRun}
    (matched : matchesSeries regex plan.matchers run.labels = true) :
    run ∈ fetchedRuns regex segments some ↔ run ∈ segments.flatMap MetricSegment.scalars := by
  rw [fetchedRuns, mem_flatMap]
  constructor
  · rintro ⟨other, _, fetched⟩
    exact (mem_fetchScalars.mp fetched).1
  · intro stored
    exact ⟨plan, listed, mem_fetchScalars.mpr ⟨stored, matched⟩⟩

theorem fetchedRuns_subset (some : List SelectorPlan) :
    fetchedRuns regex segments some ⊆ segments.flatMap MetricSegment.scalars := by
  intro run fetched
  obtain ⟨_, _, fetched⟩ := mem_flatMap.mp fetched
  exact (mem_fetchScalars.mp fetched).1

theorem seriesCounts_windowSlice {pool : List SeriesData} (window : TimeRange)
    (ordered : ∀ series ∈ pool, KeyOrdered Metrics.Sample.tsNs series.samples) :
    seriesCounts window.startNs (pool.map fun series => ⟨series.labels, windowSlice series.samples window⟩) =
      nonzeroCounts window.startNs window.endNs pool := by
  unfold seriesCounts nonzeroCounts
  rw [map_map, filter_map, filter_map, map_map]
  have live : ∀ series ∈ pool, ((windowSlice series.samples window).filter fun sample =>
      decide (window.startNs < sample.tsNs) && isLive sample) =
        liveWithin window.startNs window.endNs series.samples :=
    fun series member => liveWithin_windowSlice window (ordered series member)
  have kept : (pool.filter ((fun entry : LabelSet × List Sample => !entry.2.isEmpty) ∘
        ((fun series : SeriesData => (series.labels, series.samples.filter fun sample =>
          decide (window.startNs < sample.tsNs) && isLive sample)) ∘
        fun series => ⟨series.labels, windowSlice series.samples window⟩))) =
      pool.filter ((fun entry : LabelSet × Nat => decide (entry.2 ≠ 0)) ∘
        fun series => (series.labels, (liveWithin window.startNs window.endNs series.samples).length)) := by
    apply filter_congr
    intro series member
    simp only [Function.comp_apply, live series member]
    cases liveWithin window.startNs window.endNs series.samples <;> simp
  rw [kept]
  apply map_congr_left
  intro series member
  simp only [Function.comp_apply, live series (mem_filter.mp member).1]

theorem plansServed_of_target {t : Int} {eligible : Bool}
    (targeted : countOverTimePushdownTarget (metricPlans plans) (.instant t) eligible = .ok (some target)) :
    target.matchers ∈ (metricPlans plans).map SelectorPlan.matchers ∧ PlansServed plans target t plans := by
  unfold countOverTimePushdownTarget at targeted
  simp only at targeted
  split at targeted
  · cases targeted
  · split at targeted
    · rename_i candidate isCandidate
      split at targeted
      · cases targeted
      · rename_i consumers
        obtain ⟨window, fetches, targeted⟩ := ok_of_bind targeted
        cases targeted
        have tagged : candidate ∈ (metricPlans plans).filter fun plan => plan.countOverTimePushdownCandidate := by
          rw [isCandidate]
          exact mem_cons_self
        obtain ⟨listed, flagged⟩ := mem_filter.mp tagged
        refine ⟨mem_map_of_mem listed, ?_⟩
        intro plan member
        refine ⟨mem_map_of_mem member, ?_⟩
        intro isTarget
        have metric : plan ∈ metricPlans plans := by
          refine mem_filter.mpr ⟨member, ?_⟩
          rw [isTarget]
          exact (mem_filter.mp listed).2
        have single : ((metricPlans plans).filter fun plan => plan.matchers = candidate.matchers).length = 1 := by
          simpa using consumers
        obtain ⟨only, isOnly⟩ := length_eq_one_iff.mp single
        have alone : ∀ other ∈ metricPlans plans, other.matchers = candidate.matchers → other = only := by
          intro other otherMember same
          have kept : other ∈ (metricPlans plans).filter fun plan => plan.matchers = candidate.matchers :=
            mem_filter.mpr ⟨otherMember, by simpa using same⟩
          rw [isOnly] at kept
          exact mem_singleton.mp kept
        rw [alone plan metric isTarget, ← alone candidate listed rfl]
        exact ⟨flagged, fetches⟩
    · cases targeted

/-- The two prefetches of a query give the same series and counts. -/
theorem countsPushed_of_prefetch (named : SeriesNamed (segments.flatMap MetricSegment.scalars))
    (fetchedRaw : RawPrefetch regex segments plans raw) (fetchedPushed : PushedPrefetch regex segments plans target pushed)
    (sameLogs : pushed.logSeries = raw.logSeries)
    (isMetric : target.matchers ∈ (metricPlans plans).map SelectorPlan.matchers) :
    CountsPushed plans target (pushed.toSeriesSource regex) (raw.toSeriesSource regex) := by
  obtain ⟨⟨rawRuns, rawArrived, rawPooled⟩, rawCounted⟩ := fetchedRaw
  obtain ⟨⟨pushedRuns, pushedArrived, pushedPooled⟩, workers, answers, split, apart, reduced, pushedCounted⟩ :=
    fetchedPushed
  have rawInside : rawRuns ⊆ segments.flatMap MetricSegment.scalars :=
    fun run member => fetchedRuns_subset _ (rawArrived.mem_iff.mp member)
  have pushedInside : pushedRuns ⊆ segments.flatMap MetricSegment.scalars :=
    fun run member => fetchedRuns_subset _ (pushedArrived.mem_iff.mp member)
  have rawHolds := scalarPool_holds (named.subset rawInside) rawPooled
  have pushedHolds := scalarPool_holds (named.subset pushedInside) pushedPooled
  have selected : ∀ matchers ∈ (metricPlans plans).map SelectorPlan.matchers,
      ∃ plan ∈ distinctPlansByMatcher (metricPlans plans), plan.matchers = matchers := by
    intro matchers listed
    obtain ⟨plan, member, rfl⟩ := mem_map.mp listed
    exact (mem_distinctPlansByMatcher (metricPlans plans)).2 plan member
  -- The target is no log selector.
  have scalarTarget : logMetricOf target.matchers = none := by
    obtain ⟨plan, member, isTarget⟩ := mem_map.mp isMetric
    have metric := (mem_filter.mp member).2
    rw [isTarget] at metric
    simpa using metric
  refine ⟨?_, ?_, ?_, ?_⟩
  · intro matchers listed other window
    show Except.ok _ = Except.ok _
    unfold MergedSource.query
    cases metric : logMetricOf matchers with
    | some _ => simp only [Option.isSome_some, if_true, sameLogs]
    | none =>
      simp only [Option.isSome_none, Bool.false_eq_true, if_false]
      obtain ⟨plan, member, rfl⟩ := mem_map.mp listed
      have isPlan : plan ∈ metricPlans plans := mem_filter.mpr ⟨member, by simp [metric]⟩
      obtain ⟨first, inside, same⟩ := selected plan.matchers (mem_map_of_mem isPlan)
      congr 2
      apply pushedHolds.filter_eq rawHolds
      intro run matched
      rw [← same] at matched
      rw [pushedArrived.mem_iff, rawArrived.mem_iff, mem_fetchedRuns inside matched]
      exact mem_fetchedRuns (mem_filter.mpr ⟨inside, by simpa [same] using other⟩) matched
  · intro matchers startNs endNs
    show Except.ok (raw.queryPrecomputedCount matchers startNs endNs) = .ok none
    rw [MergedSource.queryPrecomputedCount, rawCounted]
  · intro matchers startNs endNs other
    show Except.ok (pushed.queryPrecomputedCount matchers startNs endNs) = .ok none
    rw [MergedSource.queryPrecomputedCount, pushedCounted]
    simp only [Ne.symm other, false_and, if_false]
  · obtain ⟨first, inside, same⟩ := selected target.matchers isMetric
    have arrived : ∀ run : ScalarRun, matchesSeries regex target.matchers run.labels = true →
        (run ∈ rawRuns ↔ run ∈ fetchScalars regex segments target.matchers) := by
      intro run matched
      rw [rawArrived.mem_iff, mem_fetchScalars, mem_fetchedRuns inside (same ▸ matched)]
      simp only [matched, and_true]
    have workersArrived : ∀ run ∈ workers.flatten, run ∈ rawRuns := by
      intro run member
      have fetched := split.mem_iff.mp member
      exact (arrived run (mem_fetchScalars.mp fetched).2).mpr fetched
    have foldable : ∀ run ∈ rawRuns, run.Foldable Metrics.scalarOrder := by
      obtain ⟨fold, absorbed, _⟩ := ok_of_bind rawPooled
      exact Metrics.exists_absorb_iff.mp ⟨fold, absorbed⟩
    have answered := answers_hold reduced (named.subset fun run member => rawInside (workersArrived run member))
      (fun run member => (foldable run (workersArrived run member)).wellFormed) apart
    have holds := answered.congr fun run => split.mem_iff
    refine ⟨_, rfl, ?_⟩
    show Except.ok (pushed.queryPrecomputedCount target.matchers target.reduceStartNs target.reduceEndNs) = _
    have table := sortedPushdownCounts_eq rawHolds holds (fun run fetched => (mem_fetchScalars.mp fetched).2) arrived
    rw [MergedSource.queryPrecomputedCount, pushedCounted, MergedSource.query, scalarTarget]
    simp only [and_self, if_true, Option.isSome_none, Bool.false_eq_true, if_false]
    rw [seriesCounts_windowSlice ⟨target.reduceStartNs, target.reduceEndNs⟩, ← table]
    intro series member
    obtain ⟨_, served⟩ := (rawHolds.listed series).mp (mem_filter.mp member).1
    exact served.ascending.imp le_of_lt

end Sources

/-- A run of `up` with one sample. -/
def upRun : ScalarRun :=
  ⟨⟨Vector.replicate 16 1⟩, upSeries.labels, ⟨[⟨30000000000, oneBits⟩], .runWide ⟨0, 0, 0⟩⟩⟩

def upSegment : MetricSegment := ⟨0, 60000000000, [upRun], []⟩

/-- No matcher below is a regex. -/
def noRegex : RegexMatch := fun _ _ => false

/-- `count_over_time(up[5m])`. -/
def upCount : Expr := .call "count_over_time" [.matrixSelector ⟨upSelector, 300000000000⟩]

/-- `last_over_time(count_over_time(up[5m])[1m:1m])`. -/
def gridUpCount : Expr :=
  .call "last_over_time" [.subquery upCount ⟨none, none, 60000000000, some 60000000000⟩]

/-- The source that the raw runs build. -/
def rawUp : MergedSource Unit := ⟨[⟨upSeries.labels, [⟨30000000000, oneBits⟩]⟩], [], [], none⟩

/-- The source that the partials build for a target window. -/
def pushedUp (startNs endNs : Int) : MergedSource Unit :=
  ⟨[], [], [], some ⟨[⟨metricNameLabel, .eq, "up"⟩], startNs, endNs, [(upSeries.labels, 1)]⟩⟩

theorem seriesNamed_upSegment : SeriesNamed ([upSegment].flatMap MetricSegment.scalars) := by
  intro run member other otherMember
  have isUp : ∀ run ∈ [upSegment].flatMap MetricSegment.scalars, run = upRun := by
    intro run member
    simpa [upSegment] using member
  rw [isUp run member, isUp other otherMember]
  exact iff_of_true rfl rfl

/-- The target of a query whose one selector is `up[5m]`. -/
def upTarget (startNs : Int) : PushdownTarget := ⟨[⟨metricNameLabel, .eq, "up"⟩], startNs, 60000000000⟩

end Ravel.Promql
