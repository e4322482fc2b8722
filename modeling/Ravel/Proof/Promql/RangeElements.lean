import Ravel.Proof.Promql.SourceContract

namespace Ravel.Promql

open List Library

/-- All elements of a matrix with the labels of their series. -/
def allElements (matrix : RangeMatrix) : List (LabelSet × Sample) :=
  matrix.flatMap fun entry => entry.2.map fun sample => (entry.1, sample)

/-- The elements of one instant as samples of it. -/
def stamped (t : Int) (elements : List (LabelSet × UInt64)) : List (LabelSet × Sample) :=
  elements.map fun element => (element.1, ⟨t, element.2⟩)

/-- A matrix holds the elements of each grid instant and no others. -/
def Spreads (grid : List Int) (elementsOf : Int → List (LabelSet × UInt64)) (matrix : RangeMatrix) : Prop :=
  (allElements matrix).Perm (grid.flatMap fun t => stamped t (elementsOf t))

/-- The elements of a matrix at a grid instant are those of the instant evaluation, where it has a vector or a scalar. -/
def Carries (grid : List Int) (matrix : RangeMatrix) (instantAt : Int → Except Error Value) : Prop :=
  ∃ elementsOf, Spreads grid elementsOf matrix ∧ ∀ t ∈ grid, ∀ value elements,
    instantAt t = .ok value → stepElements value = .ok elements → (elementsOf t).Perm elements

theorem allElements_pushElement (labels : LabelSet) (element : Sample) (matrix : RangeMatrix) :
    (allElements (pushElement labels element matrix)).Perm (allElements matrix ++ [(labels, element)]) := by
  induction matrix with
  | nil => simp [pushElement, allElements]
  | cons entry rest ih =>
    rw [pushElement]
    split
    · rename_i same
      simp only [allElements, flatMap_cons, map_append, map_cons, map_nil, same,
        append_assoc]
      exact Perm.append_left _ perm_append_comm
    · simp only [allElements, flatMap_cons, append_assoc] at ih ⊢
      exact Perm.append_left _ ih

theorem allElements_pushAll (t : Int) (elements : List (LabelSet × UInt64)) : ∀ matrix : RangeMatrix,
    (allElements (elements.foldl (fun series element => pushElement element.1 ⟨t, element.2⟩ series) matrix)).Perm
      (allElements matrix ++ stamped t elements) := by
  induction elements with
  | nil => simp [stamped]
  | cons element elements ih =>
    intro matrix
    rw [foldl_cons]
    refine (ih _).trans ?_
    refine ((allElements_pushElement _ _ _).append_right _).trans ?_
    simp [stamped]

/-- The elements of an evaluation that may fail. -/
def outcomeElements (outcome : Except Error Value) : List (LabelSet × UInt64) :=
  match outcome with
  | .ok value => match stepElements value with
      | .ok elements => elements
      | .error _ => []
  | .error _ => []

theorem outcomeElements_eq {outcome : Except Error Value} {value : Value} {elements : List (LabelSet × UInt64)}
    (evaluated : outcome = .ok value) (listed : stepElements value = .ok elements) :
    outcomeElements outcome = elements := by
  simp only [outcomeElements, evaluated, listed]

variable {startNs endNs stepNs : Int} (reduce : Reduce) (window : RangeWindow) (keepMetricName : Bool)
  (live : List Sample) {anchor : Option Int} {grid : List RangeWindow} (fallback : Int)

/-- A step function over a grid spreads its own elements. -/
theorem evalInstantOverGrid_carries {stepFn : Int → Except Error Value} {matrix : RangeMatrix} (positive : 0 < stepNs)
    (run : evalInstantOverGrid startNs endNs stepNs stepFn = .ok matrix) :
    Carries (pointsOf startNs endNs stepNs) matrix stepFn := by
  have folded := ((overGrid_pointsOf positive).mp run).1
  refine ⟨fun t => outcomeElements (stepFn t), ?_, ?_⟩
  · have gathered := foldlM_gathers allElements (fun t => stamped t (outcomeElements (stepFn t))) ?_ folded
    · simpa [Spreads, allElements] using gathered
    · intro t _ state next stepped
      obtain ⟨value, evaluated, stepped⟩ := ok_of_bind stepped
      obtain ⟨elements, listed, stepped⟩ := ok_of_bind stepped
      cases stepped
      rw [outcomeElements_eq evaluated listed]
      exact allElements_pushAll t elements state
  · intro t _ value elements evaluated listed
    exact Perm.of_eq (outcomeElements_eq evaluated listed)

/-- What a reduction makes of one series at one window. -/
def reducedElement (reduce : Reduce) (window : RangeWindow) (keepMetricName : Bool) (labels : LabelSet)
    (samples : List Sample) : List (LabelSet × UInt64) :=
  if samples.isEmpty then []
  else
    match reduce samples window with
    | .ok (some value) => [(resultLabels keepMetricName labels, value)]
    | _ => []

theorem allElements_reduceMatrix (matrix : RangeMatrix) : ∀ state : RangeMatrix × Option Error,
    (allElements (reduceMatrix reduce window keepMetricName matrix state).1).Perm
      (allElements state.1 ++ stamped window.evalTsNs
        (matrix.flatMap fun entry => reducedElement reduce window keepMetricName entry.1 entry.2)) := by
  induction matrix with
  | nil => simp [reduceMatrix, stamped]
  | cons entry matrix ih =>
    intro state
    have rest : ∀ after : RangeMatrix × Option Error, (allElements after.1).Perm (allElements state.1 ++
          stamped window.evalTsNs (reducedElement reduce window keepMetricName entry.1 entry.2)) →
        (allElements (reduceMatrix reduce window keepMetricName matrix after).1).Perm
          (allElements state.1 ++ stamped window.evalTsNs ((entry :: matrix).flatMap fun entry =>
            reducedElement reduce window keepMetricName entry.1 entry.2)) := by
      intro after added
      refine (ih after).trans ((added.append_right _).trans ?_)
      simp [stamped, append_assoc]
    rw [reduceMatrix, foldl_cons]
    apply rest
    unfold reducedElement
    by_cases empty : entry.2.isEmpty
    · simp [empty, stamped]
    · simp only [empty, if_false, Bool.false_eq_true]
      cases reduced : reduce entry.2 window with
      | error failure => simp [stamped]
      | ok result =>
        cases result with
        | none => simp [stamped]
        | some value => simpa [stamped] using allElements_pushElement _ _ _

/-- The windows of a grid move forward and are not inverted. -/
def WindowsAdvance (grid : List RangeWindow) : Prop :=
  grid.Pairwise (fun first second => first.startNs ≤ second.startNs ∧ first.endNs ≤ second.endNs) ∧
    ∀ window ∈ grid, window.startNs ≤ window.endNs

/-- Walking forward from the cursor ends at the window's bounds. -/
def Cursor.Behind (cursor : Cursor) (live : List Sample) (window : RangeWindow) : Prop :=
  cursor.advance live window = ⟨positionAfter Metrics.Sample.tsNs live window.startNs,
    positionAfter Metrics.Sample.tsNs live window.endNs⟩

theorem Cursor.behind_start (window : RangeWindow) : Cursor.Behind ⟨0, 0⟩ live window := by
  unfold Cursor.Behind Cursor.advance positionAfter
  simp

theorem Cursor.Behind.advance {cursor : Cursor} {live : List Sample} {first second : RangeWindow}
    (behind : cursor.Behind live first) (starts : first.startNs ≤ second.startNs) (ends : first.endNs ≤ second.endNs) :
    (cursor.advance live first).Behind live second := by
  unfold Cursor.Behind at behind ⊢
  rw [behind, Cursor.advance, positionAfter_walk starts, positionAfter_walk ends]

/-- The element of one series at one window. -/
def windowElement (reduce : Reduce) (live : List Sample) (window : RangeWindow) : List Sample :=
  let samples := live.filter fun sample => decide (window.startNs < sample.tsNs) && decide (sample.tsNs ≤ window.endNs)
  if samples.isEmpty then []
  else
    match reduce samples window with
    | .ok (some value) => [⟨window.evalTsNs, value⟩]
    | _ => []

theorem elements_add (reduction : Reduction) : (reduction.add reduce window (live.filter fun sample =>
      decide (window.startNs < sample.tsNs) && decide (sample.tsNs ≤ window.endNs))).elements =
      reduction.elements ++ windowElement reduce live window := by
  unfold Reduction.add windowElement
  generalize live.filter _ = samples
  by_cases empty : samples.isEmpty
  · simp [empty]
  · simp only [empty, if_false, Bool.false_eq_true]
    cases reduced : reduce samples window with
    | error failure => simp
    | ok result => cases result <;> simp

/-- The cursor's slices are the windows' samples, so a series reduces each window by itself. -/
theorem elements_reduceAlong {live : List Sample} (ordered : KeyOrdered Metrics.Sample.tsNs live)
    (grid : List RangeWindow) (advances : WindowsAdvance grid) (stash : Option Error) :
    (reduceAlong reduce live grid stash).elements = grid.flatMap (windowElement reduce live) := by
  have along : ∀ (cursor : Cursor) (reduction : Reduction), (∀ window ∈ grid, cursor.Behind live window) →
      (grid.foldl (fun (state : Cursor × Reduction) window =>
        let cursor := state.1.advance live window
        (cursor, state.2.add reduce window (cursor.slice live))) (cursor, reduction)).2.elements =
      reduction.elements ++ grid.flatMap (windowElement reduce live) := by
    induction grid with
    | nil => simp
    | cons window grid ih =>
      intro cursor reduction behind
      obtain ⟨first, rest⟩ := pairwise_cons.mp advances.1
      obtain ⟨upright, others⟩ := forall_mem_cons.mp advances.2
      obtain ⟨now, later⟩ := forall_mem_cons.mp behind
      have slice : (cursor.advance live window).slice live = live.filter fun sample =>
          decide (window.startNs < sample.tsNs) && decide (sample.tsNs ≤ window.endNs) := by
        rw [now]
        exact ordered.slice upright
      rw [foldl_cons]
      simp only [slice]
      rw [ih ⟨rest, others⟩ _ _ fun next member =>
        now.advance (first next member).1 (first next member).2, elements_add, flatMap_cons, append_assoc]
  rw [reduceAlong, along ⟨0, 0⟩ ⟨[], stash⟩ fun window _ => Cursor.behind_start live window, nil_append]

theorem map_windowElement (labels : LabelSet) (samples : List Sample) (window : RangeWindow) :
    (windowElement reduce (samples.filter isLive) window).map (fun sample => (resultLabels keepMetricName labels, sample)) =
      stamped window.evalTsNs (reducedElement reduce window keepMetricName labels
        (liveWithin window.startNs window.endNs samples)) := by
  have same : (samples.filter isLive).filter (fun sample =>
      decide (window.startNs < sample.tsNs) && decide (sample.tsNs ≤ window.endNs)) =
      liveWithin window.startNs window.endNs samples := filter_filter
  unfold windowElement reducedElement
  simp only [same]
  split
  · rfl
  · split <;> rfl

/-- The window of a matrix selector at a grid instant. -/
def windowOf (offsetNs rangeNs : Int) (anchor : Option Int) (t : Int) : RangeWindow :=
  ⟨anchor.getD t - offsetNs - rangeNs, anchor.getD t - offsetNs, rangeNs, t⟩

theorem matrixGrid_eq {offsetNs rangeNs : Int} (positive : 0 < stepNs)
    (run : matrixGrid startNs endNs stepNs offsetNs rangeNs anchor = .ok grid) :
    grid = (pointsOf startNs endNs stepNs).map (windowOf offsetNs rangeNs anchor) := by
  have folded := ((overGrid_pointsOf positive).mp run).1
  rw [foldlM_appends (windowOf offsetNs rangeNs anchor) _ folded, nil_append]
  intro collected t next stepped
  obtain ⟨selTs, moved, stepped⟩ := ok_of_bind stepped
  obtain ⟨windowStart, started, stepped⟩ := ok_of_bind stepped
  obtain rfl := eq_of_checkedSub moved
  obtain rfl := eq_of_checkedSub started
  cases stepped
  rfl

theorem selectorGrid_eq {offsetNs : Int} {grid : List (Int × Int)} (positive : 0 < stepNs)
    (run : selectorGrid startNs endNs stepNs offsetNs anchor = .ok grid) :
    grid = (pointsOf startNs endNs stepNs).map fun t => (t, anchor.getD t - offsetNs) := by
  have folded := ((overGrid_pointsOf positive).mp run).1
  rw [foldlM_appends (fun t => (t, anchor.getD t - offsetNs)) _ folded, nil_append]
  intro collected t next stepped
  obtain ⟨selTs, moved, stepped⟩ := ok_of_bind stepped
  obtain rfl := eq_of_checkedSub moved
  cases stepped
  rfl

theorem gridPoints_sorted (positive : 0 < stepNs) : ∀ (count : Nat) (t : Int),
    (gridPoints stepNs count t).Pairwise (· < ·) := by
  intro count
  induction count with
  | zero => intro t; exact List.Pairwise.nil
  | succ count ih =>
    intro t
    refine pairwise_cons.mpr ⟨?_, ih _⟩
    intro point listed
    obtain ⟨index, _, rfl⟩ := mem_gridPoints.mp listed
    have forward : 0 ≤ (index : Int) * stepNs := Int.mul_nonneg (Int.natCast_nonneg index) positive.le
    omega

theorem pointsOf_sorted (positive : 0 < stepNs) :
    (pointsOf startNs endNs stepNs).Pairwise (· < ·) := gridPoints_sorted positive _ _

theorem windowsAdvance_points {offsetNs rangeNs : Int} (positive : 0 < stepNs) (ranged : 0 ≤ rangeNs) :
    WindowsAdvance ((pointsOf startNs endNs stepNs).map (windowOf offsetNs rangeNs anchor)) := by
  constructor
  · refine List.Pairwise.map _ ?_ (pointsOf_sorted positive)
    intro first second earlier
    cases anchor with
    | none =>
      change first - _ - _ ≤ second - _ - _ ∧ first - _ ≤ second - _
      omega
    | some ns => exact ⟨le_refl _, le_refl _⟩
  · intro window member
    obtain ⟨t, _, rfl⟩ := mem_map.mp member
    change anchor.getD t - offsetNs - rangeNs ≤ anchor.getD t - offsetNs
    omega

/-- The least and the greatest of some bounds enclose each of them. -/
theorem mem_hull {bounds : List Int} {bound : Int} (member : bound ∈ bounds) :
    bounds.min?.getD fallback ≤ bound ∧ bound ≤ bounds.max?.getD fallback := by
  constructor
  · cases least : bounds.min? with
    | none =>
      rw [min?_eq_none_iff] at least
      rw [least] at member
      cases member
    | some lowest => exact (min?_eq_some_iff.mp least).2 _ member
  · cases greatest : bounds.max? with
    | none =>
      rw [max?_eq_none_iff] at greatest
      rw [greatest] at member
      cases member
    | some highest => exact (max?_eq_some_iff.mp greatest).2 _ member

theorem hull_covers {window : RangeWindow} (member : window ∈ grid) :
    (grid.map RangeWindow.startNs).min?.getD fallback ≤ window.startNs ∧
      window.endNs ≤ (grid.map RangeWindow.endNs).max?.getD fallback :=
  ⟨(mem_hull fallback (mem_map_of_mem member)).1, (mem_hull fallback (mem_map_of_mem member)).2⟩

end Ravel.Promql
