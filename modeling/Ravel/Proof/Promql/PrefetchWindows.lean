import Ravel.Library.OptionalRuns
import Ravel.Proof.Promql.SourceContract

namespace Ravel.Promql

open List Library

/-- The first instant of a query. -/
def EvalWindow.firstNs : EvalWindow → Int
  | .instant tNs => tNs
  | .range startNs _ _ => startNs

/-- The last instant of a query. -/
def EvalWindow.lastNs : EvalWindow → Int
  | .instant tNs => tNs
  | .range startNs endNs stepNs => startNs + (endNs - startNs) / stepNs * stepNs

/-- All windows that a selector reads lie in the window its plan fetches. -/
def Covered (evalWindow : EvalWindow) (windows : List TimeRange) (plan : SelectorPlan) : Prop :=
  ∃ fetched, selectorFetchWindow plan evalWindow = .ok fetched ∧ ∀ window ∈ windows, window.Inside fetched

/-- A plan subtracts the offsets above an `@`, which the evaluation does not. A selector with an `@` of its own
tolerates a forward shift up to the ranges above. Under an `@` of a subquery the instants must fit the shift. -/
def SelectorFits (vs : VectorSelector) (ancestor : PlanContext) (instants : List Int) : Prop :=
  match vs.atModifier, ancestor.anchor with
  | some _, _ => instants = [] ∨ ancestor.offsetNs ≤ 0 ∧ 0 ≤ ancestor.offsetNs + ancestor.rangeNs
  | none, some anchor => ∀ t ∈ instants,
      anchor - ancestor.offsetNs - ancestor.rangeNs ≤ t ∧ t ≤ anchor - ancestor.offsetNs
  | none, none => True

/-- The expression of a matrix argument without its parentheses. -/
def MatrixArg.expr : MatrixArg → Expr
  | .selector ms => .matrixSelector ms
  | .subquery expr window => .subquery expr window

/-- A reader that looks through parentheses reads a matrix argument without them. -/
theorem read_matrixArg {Output : Type} (read : Expr → Output) (looksThrough : ∀ expr, read (.paren expr) = read expr)
    {expr : Expr} {arg : MatrixArg} (shaped : matrixArg expr = .ok arg) : read expr = read arg.expr := by
  fun_induction matrixArg expr with
  | case1 expr ih => exact (looksThrough expr).trans (ih shaped)
  | case2 ms =>
    cases shaped
    rfl
  | case3 expr window =>
    cases shaped
    rfl
  | case4 => cases shaped

mutual

/-- Every selector of an expression tolerates the offsets above its `@`. -/
def AnchorsFit (evaluator : Evaluator) (query : QueryWindow) : Expr → PlanContext → List Int → Prop
  | .vectorSelector vs, ancestor, instants => SelectorFits vs ancestor instants
  | .matrixSelector ms, ancestor, instants => SelectorFits ms.vs ancestor instants
  | .paren expr, ancestor, instants => AnchorsFit evaluator query expr ancestor instants
  | .unary expr, ancestor, instants => AnchorsFit evaluator query expr ancestor instants
  | .subquery expr window, ancestor, instants =>
    ∀ inner later, ancestor.enter window query = .ok inner →
      evaluator.innerInstants window query instants = .ok later → AnchorsFit evaluator query expr inner later
  | .aggregate _ _ expr param, ancestor, instants =>
    AnchorsFit evaluator query expr ancestor instants ∧ AnchorsFitParam evaluator query param ancestor instants
  | .binary _ _ lhs rhs, ancestor, instants =>
    AnchorsFit evaluator query lhs ancestor instants ∧ AnchorsFit evaluator query rhs ancestor instants
  | .call _ args, ancestor, instants => AnchorsFitAll evaluator query args ancestor instants
  | .extension children, ancestor, instants => AnchorsFitAll evaluator query children ancestor instants
  | .numberLiteral _, _, _ => True
  | .stringLiteral _, _, _ => True

def AnchorsFitParam (evaluator : Evaluator) (query : QueryWindow) : Option Expr → PlanContext → List Int → Prop
  | none, _, _ => True
  | some param, ancestor, instants => AnchorsFit evaluator query param ancestor instants

def AnchorsFitAll (evaluator : Evaluator) (query : QueryWindow) : List Expr → PlanContext → List Int → Prop
  | [], _, _ => True
  | expr :: rest, ancestor, instants =>
    AnchorsFit evaluator query expr ancestor instants ∧ AnchorsFitAll evaluator query rest ancestor instants

end

variable {anchor : Option Int} {vs : VectorSelector} {ancestor : PlanContext} {plan : SelectorPlan}
  {instants : List Int} {window : SubqueryWindow} (candidate : Bool) {plans : List SelectorPlan}

theorem eq_none_of_resolveAt {query : QueryWindow} (resolved : resolveAt none query.startNs query.endNs = .ok anchor) :
    anchor = none :=
  (Except.ok.inj resolved).symm

theorem isSome_of_resolveAt {modifier : AtModifier} {query : QueryWindow}
    (resolved : resolveAt (some modifier) query.startNs query.endNs = .ok anchor) : ∃ ns, anchor = some ns := by
  cases modifier with
  | start => exact ⟨_, (Except.ok.inj resolved).symm⟩
  | stop => exact ⟨_, (Except.ok.inj resolved).symm⟩
  | instant time =>
    change some <$> systemtimeToNs time = _ at resolved
    obtain ⟨ns, converted, resolved⟩ := ok_of_bind resolved
    exact ⟨ns, (Except.ok.inj resolved).symm⟩

/-- The instant that a modifier moves an evaluation to. -/
theorem resolveEvalTs_eq_ok {offset : Option Offset} {atModifier : Option AtModifier} {evalTsNs result : Int}
    {ctx : QueryWindow} (resolved : resolveEvalTs offset atModifier evalTsNs ctx = .ok result) :
    ∃ offsetNs anchor, signedOffsetNs offset = .ok offsetNs ∧
      resolveAt atModifier ctx.startNs ctx.endNs = .ok anchor ∧ result = anchor.getD evalTsNs - offsetNs := by
  obtain ⟨offsetNs, shifted, resolved⟩ := ok_of_bind resolved
  obtain ⟨anchor, anchored, resolved⟩ := ok_of_bind resolved
  exact ⟨offsetNs, anchor, shifted, anchored, eq_of_checkedSub resolved⟩

/-- What a selector's plan says about its window. -/
theorem resolveSelector_eq_ok {rangeNs : Int} {query : QueryWindow}
    (resolved : resolveSelector vs rangeNs ancestor query = .ok plan) :
    ∃ offsetNs own, signedOffsetNs vs.offset = .ok offsetNs ∧
      resolveAt vs.atModifier query.startNs query.endNs = .ok own ∧ plan.rangeNs = rangeNs ∧
      plan.offsetNs = ancestor.offsetNs + offsetNs ∧
      plan.anchor = match own.or ancestor.anchor with
        | some pinnedNs => .pinned (pinnedNs - (ancestor.offsetNs + offsetNs))
        | none => .window := by
  obtain ⟨matchers, _, resolved⟩ := ok_of_bind resolved
  obtain ⟨offsetNs, shifted, resolved⟩ := ok_of_bind resolved
  obtain ⟨total, added, resolved⟩ := ok_of_bind resolved
  obtain rfl := eq_of_checkedAdd added
  obtain ⟨own, anchored, resolved⟩ := ok_of_bind resolved
  refine ⟨offsetNs, own, shifted, anchored, ?_⟩
  cases pinned : own.or ancestor.anchor with
  | none =>
    rw [pinned] at resolved
    cases resolved
    exact ⟨rfl, rfl, rfl⟩
  | some pinnedNs =>
    rw [pinned] at resolved
    obtain ⟨anchor, moved, resolved⟩ := ok_of_bind resolved
    cases resolved
    refine ⟨rfl, rfl, ?_⟩
    change PlanAnchor.pinned <$> checkedSub pinnedNs (ancestor.offsetNs + offsetNs) = .ok anchor at moved
    obtain ⟨ns, subtracted, moved⟩ := ok_of_bind moved
    obtain rfl := eq_of_checkedSub subtracted
    exact (Except.ok.inj moved).symm

/-- The planned window in closed form. -/
theorem selectorFetchWindow_eq_ok {evalWindow : EvalWindow} (valid : evalWindow.Valid) {fetched : TimeRange}
    (planned : selectorFetchWindow plan evalWindow = .ok fetched) : fetched = match plan.anchor with
      | .pinned ts => ⟨ts - plan.rangeNs, ts⟩
      | .window => ⟨evalWindow.firstNs - plan.offsetNs - plan.rangeNs, evalWindow.lastNs - plan.offsetNs⟩ := by
  obtain ⟨bounds, bounded, planned⟩ := ok_of_bind planned
  obtain ⟨startNs, started, planned⟩ := ok_of_bind planned
  obtain rfl := eq_of_checkedSub started
  cases planned
  unfold selectorBounds at bounded
  cases anchored : plan.anchor with
  | pinned ts =>
    rw [anchored] at bounded
    cases bounded
    rfl
  | window =>
    rw [anchored] at bounded
    cases evalWindow with
    | instant tNs =>
      obtain ⟨selTs, moved, bounded⟩ := ok_of_bind bounded
      obtain rfl := eq_of_checkedSub moved
      cases bounded
      rfl
    | range startNs endNs stepNs =>
      obtain ⟨lastNs, last, bounded⟩ := ok_of_bind bounded
      obtain ⟨selStart, movedStart, bounded⟩ := ok_of_bind bounded
      obtain ⟨selEnd, movedEnd, bounded⟩ := ok_of_bind bounded
      obtain rfl := eq_of_checkedSub movedStart
      obtain rfl := eq_of_checkedSub movedEnd
      cases bounded
      obtain ⟨span, spanned, last⟩ := ok_of_bind last
      obtain ⟨stepSpan, stepped, last⟩ := ok_of_bind last
      obtain rfl := eq_of_checkedSub spanned
      obtain rfl := eq_of_checked stepped
      obtain rfl := eq_of_checkedAdd last
      -- The source divides towards zero. The span is not negative here.
      rw [Int.tdiv_eq_ediv_of_nonneg (by have := valid.1; omega)]
      rfl

/-- The instants that evaluate an expression outside every `@`. -/
def InstantsReach (evalWindow : EvalWindow) (ancestor : PlanContext) (instants : List Int) : Prop :=
  ancestor.anchor = none → ∀ t ∈ instants,
    evalWindow.firstNs - ancestor.offsetNs - ancestor.rangeNs ≤ t ∧ t ≤ evalWindow.lastNs - ancestor.offsetNs

/-- One selector over all instants that evaluate it. Its windows end at the moved instant and span its range. -/
theorem selector_covered_iff {evalWindow : EvalWindow} (valid : evalWindow.Valid) {ownRangeNs totalRangeNs : Int}
    {windows : List TimeRange} {windowAt : Int → Except Error TimeRange}
    (total : totalRangeNs = ancestor.rangeNs + ownRangeNs)
    (resolved : resolveSelector vs totalRangeNs ancestor evalWindow.query = .ok plan)
    (spans : ∀ t window, windowAt t = .ok window → ∃ selTs, selectorEvalTs vs t evalWindow.query = .ok selTs ∧ window = ⟨selTs - ownRangeNs, selTs⟩)
    (read : instants.mapM windowAt = .ok windows)
    (fetches : ∃ fetched, selectorFetchWindow plan evalWindow = .ok fetched)
    (reach : InstantsReach evalWindow ancestor instants) :
    Covered evalWindow windows plan ↔ SelectorFits vs ancestor instants := by
  obtain ⟨offsetNs, own, shifted, anchored, ranged, offset, anchor⟩ := resolveSelector_eq_ok resolved
  obtain ⟨fetched, planned⟩ := fetches
  have window := selectorFetchWindow_eq_ok valid planned
  rw [anchor, ranged, offset, total] at window
  have listed : ∀ fw : TimeRange, (∀ window ∈ windows, window.Inside fw) ↔ ∀ t ∈ instants,
      (⟨own.getD t - offsetNs - ownRangeNs, own.getD t - offsetNs⟩ : TimeRange).Inside fw := by
    intro fw
    have matched := mapM_eq_ok.mp read
    clear read reach
    induction matched with
    | nil => simp
    | @cons t read instants windows first _ ih =>
      rw [forall_mem_cons, forall_mem_cons]
      apply and_congr _ ih
      obtain ⟨selTs, moved, rfl⟩ := spans t read first
      obtain ⟨offsetAgain, ownAgain, shiftedAgain, anchoredAgain, rfl⟩ := resolveEvalTs_eq_ok moved
      obtain rfl := Except.ok.inj (shifted.symm.trans shiftedAgain)
      obtain rfl := Except.ok.inj (anchored.symm.trans anchoredAgain)
      rfl
  have covered : Covered evalWindow windows plan ↔ ∀ window ∈ windows, window.Inside fetched := by
    constructor
    · rintro ⟨found, plannedAgain, inside⟩
      obtain rfl := Except.ok.inj (planned.symm.trans plannedAgain)
      exact inside
    · intro inside
      exact ⟨fetched, planned, inside⟩
  rw [covered, listed, window]
  unfold SelectorFits
  cases modifier : vs.atModifier with
  | some at' =>
    rw [modifier] at anchored
    obtain ⟨ns, rfl⟩ := isSome_of_resolveAt anchored
    simp only [Option.some_or, Option.getD_some, TimeRange.Inside]
    constructor
    · intro inside
      cases instants with
      | nil => exact Or.inl rfl
      | cons t _ =>
        have first := inside t mem_cons_self
        exact Or.inr ⟨by omega, by omega⟩
    · rintro (rfl | fits)
      · simp
      · intro t _
        omega
  | none =>
    rw [modifier] at anchored
    obtain rfl := eq_none_of_resolveAt anchored
    cases above : ancestor.anchor with
    | some ns =>
      simp only [Option.none_or, Option.getD_none, TimeRange.Inside]
      apply forall₂_congr
      intro t _
      omega
    | none =>
      simp only [Option.none_or, Option.getD_none, TimeRange.Inside, iff_true]
      intro t member
      have := reach above t member
      omega

theorem subqueryGrid_eq_ok {evaluator : Evaluator} {evalTsNs : Int} {query : QueryWindow} {grid : SubqueryGrid}
    (gridded : evaluator.subqueryGrid window evalTsNs query = .ok grid) :
    ∃ rangeNs, resolveEvalTs window.offset window.atModifier evalTsNs query = .ok grid.endNs ∧
      durationToNs window.range = .ok rangeNs ∧ grid.endNs - rangeNs < grid.startNs ∧ 0 < grid.stepNs := by
  obtain ⟨endNs, moved, gridded⟩ := ok_of_bind gridded
  obtain ⟨rangeNs, ranged, gridded⟩ := ok_of_bind gridded
  obtain ⟨stepNs, _, gridded⟩ := ok_of_bind gridded
  obtain ⟨forward, gridded⟩ := ok_of_guard gridded
  have positive : 0 < stepNs := Int.not_le.mp forward
  obtain ⟨targetNs, targeted, gridded⟩ := ok_of_bind gridded
  obtain ⟨startNs, aligned, gridded⟩ := ok_of_bind gridded
  obtain rfl := eq_of_checkedSub targeted
  obtain rfl := eq_of_checked aligned
  split at gridded
  · cases gridded
  · cases gridded
    have remainder := Int.emod_lt_of_pos (endNs - rangeNs) positive
    have divided := Int.ediv_mul_add_emod (endNs - rangeNs) stepNs
    have after : endNs - rangeNs < (endNs - rangeNs) / stepNs * stepNs + stepNs := by omega
    exact ⟨rangeNs, moved, ranged, after, positive⟩

/-- The inner instants of a subquery reach at most its range behind its shifted instants. -/
theorem innerInstants_bounded {evaluator : Evaluator} {query : QueryWindow} {later : List Int}
    (inner : evaluator.innerInstants window query instants = .ok later) {t : Int} (member : t ∈ later) :
    ∃ outer ∈ instants, ∃ endNs rangeNs,
      resolveEvalTs window.offset window.atModifier outer query = .ok endNs ∧
      durationToNs window.range = .ok rangeNs ∧ endNs - rangeNs < t ∧ t ≤ endNs := by
  obtain ⟨grids, gridded, returned⟩ := ok_of_bind inner
  cases returned
  obtain ⟨instantsOf, gridMember, inGrid⟩ := mem_flatten.mp member
  obtain ⟨outer, outerMember, collected⟩ := mem_of_mapM gridded gridMember
  obtain ⟨grid, bounded, collected⟩ := ok_of_bind collected
  obtain ⟨rangeNs, moved, ranged, after, positive⟩ := subqueryGrid_eq_ok bounded
  rw [gridInstants_eq positive collected] at inGrid
  have within := le_of_mem_pointsOf positive inGrid
  exact ⟨outer, outerMember, grid.endNs, rangeNs, moved, ranged, by omega, within.2⟩

/-- What a subquery adds to the context of its inner expression. -/
theorem enter_eq_ok {inner : PlanContext} {query : QueryWindow} (entered : ancestor.enter window query = .ok inner) :
    ∃ rangeNs offsetNs own,
      durationToNs window.range = .ok rangeNs ∧ signedOffsetNs window.offset = .ok offsetNs ∧
      resolveAt window.atModifier query.startNs query.endNs = .ok own ∧
      inner = ⟨ancestor.rangeNs + rangeNs, ancestor.offsetNs + offsetNs, own.or ancestor.anchor⟩ := by
  obtain ⟨rangeNs, ranged, entered⟩ := ok_of_bind entered
  obtain ⟨totalRange, addedRange, entered⟩ := ok_of_bind entered
  obtain ⟨offsetNs, shifted, entered⟩ := ok_of_bind entered
  obtain ⟨totalOffset, addedOffset, entered⟩ := ok_of_bind entered
  obtain ⟨own, anchored, entered⟩ := ok_of_bind entered
  obtain rfl := eq_of_checkedAdd addedRange
  obtain rfl := eq_of_checkedAdd addedOffset
  cases entered
  exact ⟨rangeNs, offsetNs, own, ranged, shifted, anchored, rfl⟩

/-- The instants keep reaching through a subquery. Inside an `@` there is nothing to reach. -/
theorem InstantsReach.enter {evaluator : Evaluator} {evalWindow : EvalWindow} {inner : PlanContext} {later : List Int}
    (reach : InstantsReach evalWindow ancestor instants)
    (entered : ancestor.enter window evalWindow.query = .ok inner)
    (innerRun : evaluator.innerInstants window evalWindow.query instants = .ok later) :
    InstantsReach evalWindow inner later := by
  obtain ⟨rangeNs, offsetNs, own, ranged, shifted, anchored, rfl⟩ := enter_eq_ok entered
  intro unanchored t member
  obtain ⟨ownNone, aboveNone⟩ := Option.or_eq_none_iff.mp unanchored
  obtain ⟨outer, outerMember, endNs, rangeAgain, moved, rangedAgain, after, before⟩ :=
    innerInstants_bounded innerRun member
  obtain rfl := Except.ok.inj (ranged.symm.trans rangedAgain)
  obtain ⟨offsetAgain, ownAgain, shiftedAgain, anchoredAgain, rfl⟩ := resolveEvalTs_eq_ok moved
  obtain rfl := Except.ok.inj (shifted.symm.trans shiftedAgain)
  obtain rfl := Except.ok.inj (anchored.symm.trans anchoredAgain)
  have reached := reach aboveNone outer outerMember
  subst ownNone
  simp only [Option.getD_none] at after before
  change evalWindow.firstNs - (ancestor.offsetNs + offsetNs) - (ancestor.rangeNs + rangeNs) ≤ t ∧
    t ≤ evalWindow.lastNs - (ancestor.offsetNs + offsetNs)
  omega

theorem covered_tagCandidate {evalWindow : EvalWindow} {windows : List (List TimeRange)} :
    Forall₂ (Covered evalWindow) windows (tagCandidate candidate plans) ↔
      Forall₂ (Covered evalWindow) windows plans := by
  unfold tagCandidate
  split
  · rw [forall₂_cons_right_iff, forall₂_cons_right_iff]
    rfl
  · rfl

theorem length_tagCandidate (plans : List SelectorPlan) : (tagCandidate candidate plans).length = plans.length := by
  unfold tagCandidate
  split <;> rfl

theorem fetches_tagCandidate {evalWindow : EvalWindow}
    (fetches : ∀ plan ∈ tagCandidate candidate plans, ∃ fetched, selectorFetchWindow plan evalWindow = .ok fetched) :
    ∀ plan ∈ plans, ∃ fetched, selectorFetchWindow plan evalWindow = .ok fetched := by
  unfold tagCandidate at fetches
  split at fetches
  · rw [forall_mem_singleton] at fetches ⊢
    exact fetches
  · exact fetches

/-- What the walk of an expression guarantees: one list of windows a plan, covered exactly when the anchors fit. -/
def WalkCovers (evalWindow : EvalWindow) (windows : List (List TimeRange)) (plans : List SelectorPlan)
    (fit : Prop) : Prop :=
  windows.length = plans.length ∧ (Forall₂ (Covered evalWindow) windows plans ↔ fit)

theorem WalkCovers.append {evalWindow : EvalWindow} {windows moreWindows : List (List TimeRange)}
    {morePlans : List SelectorPlan} {fit moreFit : Prop} (first : WalkCovers evalWindow windows plans fit)
    (second : WalkCovers evalWindow moreWindows morePlans moreFit) :
    WalkCovers evalWindow (windows ++ moreWindows) (plans ++ morePlans) (fit ∧ moreFit) := by
  refine ⟨?_, ?_⟩
  · rw [length_append, length_append, first.1, second.1]
  · rw [forall₂_append_iff first.1, first.2, second.2]

theorem walkCovers_selector {evalWindow : EvalWindow} {windows : List TimeRange} {fit : Prop}
    (covered : Covered evalWindow windows plan ↔ fit) : WalkCovers evalWindow [windows] [plan] fit := by
  refine ⟨rfl, ?_⟩
  rw [forall₂_cons, covered]
  simp

section Walk

variable {evaluator : Evaluator} (lookback : evaluator.lookbackDeltaNs = defaultLookbackNs)
  {evalWindow : EvalWindow} (valid : evalWindow.Valid)

include lookback valid

mutual

theorem walk_covers : ∀ (expr : Expr) {ancestor : PlanContext} {instants : List Int} {plans : List SelectorPlan}
    {windows : List (List TimeRange)}, planWalk evalWindow.query expr ancestor = .ok plans →
    evaluator.reads evalWindow.query expr instants = .ok windows →
    (∀ plan ∈ plans, ∃ fetched, selectorFetchWindow plan evalWindow = .ok fetched) →
    InstantsReach evalWindow ancestor instants →
    WalkCovers evalWindow windows plans (AnchorsFit evaluator evalWindow.query expr ancestor instants)
  | .vectorSelector vs, ancestor, instants, plans, windows, planned, read, fetches, reach => by
    obtain ⟨totalRangeNs, added, planned⟩ := ok_of_bind planned
    obtain ⟨plan, resolved, planned⟩ := ok_of_bind planned
    obtain ⟨own, mapped, read⟩ := ok_of_bind read
    cases planned
    cases read
    apply walkCovers_selector
    apply selector_covered_iff valid (eq_of_checkedAdd added) resolved _ mapped (fetches plan (by simp)) reach
    intro t window looked
    obtain ⟨selTs, moved, looked⟩ := ok_of_bind looked
    obtain ⟨startNs, started, looked⟩ := ok_of_bind looked
    obtain rfl := eq_of_checkedSub started
    cases looked
    exact ⟨selTs, moved, by rw [lookback]⟩
  | .matrixSelector ms, ancestor, instants, plans, windows, planned, read, fetches, reach => by
    obtain ⟨ownRangeNs, ranged, planned⟩ := ok_of_bind planned
    obtain ⟨totalRangeNs, added, planned⟩ := ok_of_bind planned
    obtain ⟨plan, resolved, planned⟩ := ok_of_bind planned
    obtain ⟨own, mapped, read⟩ := ok_of_bind read
    cases planned
    cases read
    apply walkCovers_selector
    apply selector_covered_iff valid (eq_of_checkedAdd added) resolved _ mapped (fetches plan (by simp)) reach
    intro t window looked
    obtain ⟨selTs, moved, looked⟩ := ok_of_bind looked
    obtain ⟨rangeAgain, rangedAgain, looked⟩ := ok_of_bind looked
    obtain ⟨startNs, started, looked⟩ := ok_of_bind looked
    obtain rfl := Except.ok.inj (ranged.symm.trans rangedAgain)
    obtain rfl := eq_of_checkedSub started
    cases looked
    exact ⟨selTs, moved, rfl⟩
  | .paren expr, _, _, _, _, planned, read, fetches, reach => walk_covers expr planned read fetches reach
  | .unary expr, _, _, _, _, planned, read, fetches, reach => walk_covers expr planned read fetches reach
  | .subquery expr window, ancestor, instants, plans, windows, planned, read, fetches, reach => by
    obtain ⟨inner, entered, planned⟩ := ok_of_bind planned
    obtain ⟨later, innerRun, read⟩ := ok_of_bind read
    have covers := walk_covers expr planned read fetches (reach.enter entered innerRun)
    refine ⟨covers.1, covers.2.trans ?_⟩
    constructor
    · intro fits innerAgain laterAgain enteredAgain innerRunAgain
      obtain rfl := Except.ok.inj (entered.symm.trans enteredAgain)
      obtain rfl := Except.ok.inj (innerRun.symm.trans innerRunAgain)
      exact fits
    · intro fits
      exact fits inner later entered innerRun
  | .aggregate _ _ expr param, _, _, _, _, planned, read, fetches, reach => by
    obtain ⟨plans, first, planned⟩ := ok_of_bind planned
    obtain ⟨more, second, planned⟩ := ok_of_bind planned
    obtain ⟨windows, firstRead, read⟩ := ok_of_bind read
    obtain ⟨moreWindows, secondRead, read⟩ := ok_of_bind read
    cases planned
    cases read
    obtain ⟨firstFetches, secondFetches⟩ := forall_mem_append.mp fetches
    exact (walk_covers expr first firstRead firstFetches reach).append
      (walkParam_covers param second secondRead secondFetches reach)
  | .binary _ _ lhs rhs, _, _, _, _, planned, read, fetches, reach => by
    obtain ⟨plans, first, planned⟩ := ok_of_bind planned
    obtain ⟨more, second, planned⟩ := ok_of_bind planned
    obtain ⟨windows, firstRead, read⟩ := ok_of_bind read
    obtain ⟨moreWindows, secondRead, read⟩ := ok_of_bind read
    cases planned
    cases read
    obtain ⟨firstFetches, secondFetches⟩ := forall_mem_append.mp fetches
    exact (walk_covers lhs first firstRead firstFetches reach).append
      (walk_covers rhs second secondRead secondFetches reach)
  | .call func args, _, _, _, _, planned, read, fetches, reach => by
    obtain ⟨plans, first, planned⟩ := ok_of_bind planned
    cases planned
    have covers := walkAll_covers args first read (fetches_tagCandidate _ fetches) reach
    exact ⟨covers.1.trans (length_tagCandidate _ plans).symm, (covered_tagCandidate _).trans covers.2⟩
  | .extension children, _, _, _, _, planned, read, fetches, reach => walkAll_covers children planned read fetches reach
  | .numberLiteral _, _, _, _, _, planned, read, _, _ => by
    cases planned
    cases read
    exact ⟨rfl, by simp [AnchorsFit]⟩
  | .stringLiteral _, _, _, _, _, planned, read, _, _ => by
    cases planned
    cases read
    exact ⟨rfl, by simp [AnchorsFit]⟩

theorem walkParam_covers : ∀ (param : Option Expr) {ancestor : PlanContext} {instants : List Int}
    {plans : List SelectorPlan} {windows : List (List TimeRange)},
    planWalkParam evalWindow.query param ancestor = .ok plans →
    evaluator.readsParam evalWindow.query param instants = .ok windows →
    (∀ plan ∈ plans, ∃ fetched, selectorFetchWindow plan evalWindow = .ok fetched) →
    InstantsReach evalWindow ancestor instants →
    WalkCovers evalWindow windows plans (AnchorsFitParam evaluator evalWindow.query param ancestor instants)
  | none, _, _, _, _, planned, read, _, _ => by
    cases planned
    cases read
    exact ⟨rfl, by simp [AnchorsFitParam]⟩
  | some param, _, _, _, _, planned, read, fetches, reach => walk_covers param planned read fetches reach

theorem walkAll_covers : ∀ (exprs : List Expr) {ancestor : PlanContext} {instants : List Int}
    {plans : List SelectorPlan} {windows : List (List TimeRange)},
    planWalkAll evalWindow.query exprs ancestor = .ok plans →
    evaluator.readsAll evalWindow.query exprs instants = .ok windows →
    (∀ plan ∈ plans, ∃ fetched, selectorFetchWindow plan evalWindow = .ok fetched) →
    InstantsReach evalWindow ancestor instants →
    WalkCovers evalWindow windows plans (AnchorsFitAll evaluator evalWindow.query exprs ancestor instants)
  | [], _, _, _, _, planned, read, _, _ => by
    cases planned
    cases read
    exact ⟨rfl, by simp [AnchorsFitAll]⟩
  | expr :: rest, _, _, _, _, planned, read, fetches, reach => by
    obtain ⟨plans, first, planned⟩ := ok_of_bind planned
    obtain ⟨more, second, planned⟩ := ok_of_bind planned
    obtain ⟨windows, firstRead, read⟩ := ok_of_bind read
    obtain ⟨moreWindows, secondRead, read⟩ := ok_of_bind read
    cases planned
    cases read
    obtain ⟨firstFetches, secondFetches⟩ := forall_mem_append.mp fetches
    exact (walk_covers expr first firstRead firstFetches reach).append
      (walkAll_covers rest second secondRead secondFetches reach)

end

end Walk

theorem instantsReach_root {evalWindow : EvalWindow} (valid : evalWindow.Valid) {instants : List Int}
    (steps : evalWindow.instants = .ok instants) : InstantsReach evalWindow .root instants := by
  intro _ t member
  change evalWindow.firstNs - 0 - 0 ≤ t ∧ t ≤ evalWindow.lastNs - 0
  cases evalWindow with
  | instant tNs =>
    cases steps
    obtain rfl := mem_singleton.mp member
    change t - 0 - 0 ≤ t ∧ t ≤ t - 0
    omega
  | range startNs endNs stepNs =>
    have positive : 0 < stepNs := valid.2
    rw [gridInstants_eq positive steps] at member
    obtain ⟨index, rfl, inGrid⟩ := (mem_pointsOf positive).mp member
    have forward : 0 ≤ (index : Int) * stepNs := Int.mul_nonneg (Int.natCast_nonneg index) positive.le
    have counted : (index : Int) ≤ (endNs - startNs) / stepNs :=
      (Int.le_ediv_iff_mul_le positive).mpr (by omega)
    have scaled := Int.mul_le_mul_of_nonneg_right counted positive.le
    change startNs - 0 - 0 ≤ _ ∧ _ ≤ startNs + (endNs - startNs) / stepNs * stepNs - 0
    omega

def defaultEvaluator : Evaluator := ⟨defaultLookbackNs, 11000, 60000000000⟩

/-- `sum_over_time((up offset 1m)[10m:5m] offset 2m)`, or with an `@ 100` in place of the inner offset. -/
def nestedSum (offset : Option Offset) (atModifier : Option AtModifier) : Expr :=
  .call "sum_over_time" [.subquery (.paren (.vectorSelector ⟨some "up", ⟨[], []⟩, offset, atModifier⟩))
    ⟨some (.pos 120000000000), none, 600000000000, some 300000000000⟩]

/-- The plan of the inner selector. -/
def nestedPlan (offsetNs : Int) (anchor : PlanAnchor) : SelectorPlan :=
  ⟨[⟨metricNameLabel, .eq, "up"⟩], 900000000000, offsetNs, anchor, false⟩

end Ravel.Promql
