import Mathlib.Data.List.TakeWhile
import Mathlib.Tactic.Ring
import Ravel.Construction.Promql.RangeEvaluation
import Ravel.Library.FailingRuns
import Ravel.Library.SortedWindows

namespace Ravel.Promql

open List Library

variable {result stepNs point : Int} {State : Type} {endNs : Int} {body : Int → State → Except Error State}
  {startNs : Int} {window : TimeRange} {series : SeriesData}

theorem checked_eq_ok {value : Int} :
    checked value = .ok result ↔ result = value ∧ i64Min ≤ value ∧ value ≤ i64Max := by
  unfold checked
  split
  · rename_i fits
    exact ⟨fun same => ⟨(Except.ok.inj same).symm, fits⟩, fun same => by rw [same.1]⟩
  · rename_i overflows
    constructor
    · intro same
      cases same
    · intro same
      exact absurd same.2 overflows

theorem eq_of_checked {value : Int} (fits : checked value = .ok result) : result = value :=
  (checked_eq_ok.mp fits).1

theorem eq_of_checkedAdd {left right : Int} (fits : checkedAdd left right = .ok result) :
    result = left + right := eq_of_checked fits

theorem eq_of_checkedSub {left right : Int} (fits : checkedSub left right = .ok result) :
    result = left - right := eq_of_checked fits

theorem eq_of_durationToNs {duration : Duration} (fits : durationToNs duration = .ok result) :
    result = duration := eq_of_checked fits

/-- The first instants from `t` on. -/
def gridPoints (stepNs : Int) : Nat → Int → List Int
  | 0, _ => []
  | count + 1, t => t :: gridPoints stepNs count (t + stepNs)

theorem mem_gridPoints {t : Int} {count : Nat} :
    point ∈ gridPoints stepNs count t ↔ ∃ index : Nat, index < count ∧ point = t + index * stepNs := by
  induction count generalizing t with
  | zero => simp [gridPoints]
  | succ count ih =>
    rw [gridPoints, mem_cons, ih]
    constructor
    · rintro (rfl | ⟨index, inRange, rfl⟩)
      · exact ⟨0, by omega, by simp⟩
      · refine ⟨index + 1, by omega, ?_⟩
        push_cast
        ring
    · rintro ⟨index, inRange, rfl⟩
      cases index with
      | zero =>
        apply Or.inl
        simp
      | succ index =>
        refine Or.inr ⟨index, by omega, ?_⟩
        push_cast
        ring

/-- A grid loop inside its bound folds its body over the points, and the last step must not overflow either. -/
theorem overGrid_eq_ok :
    ∀ {fuel : Nat} {t : Int} {state final : State}, (∀ point ∈ gridPoints stepNs fuel t, point ≤ endNs) →
    (overGrid endNs stepNs body fuel t state = .ok final ↔
      (gridPoints stepNs fuel t).foldlM (fun state t => body t state) state = .ok final ∧
        ∀ point ∈ gridPoints stepNs fuel t, checkedAdd point stepNs = .ok (point + stepNs)) := by
  intro fuel
  induction fuel with
  | zero =>
    intro t state final _
    simp [overGrid, gridPoints, pure, Except.pure]
  | succ fuel ih =>
    intro t state final inside
    have first : t ≤ endNs := inside t (by simp [gridPoints])
    have later : ∀ point ∈ gridPoints stepNs fuel (t + stepNs), point ≤ endNs := by
      intro point listed
      exact inside point (mem_cons_of_mem _ listed)
    rw [overGrid, if_pos first, bind_eq_ok, gridPoints, foldlM_cons, bind_eq_ok]
    constructor
    · rintro ⟨next, stepped, run⟩
      obtain ⟨after, added, run⟩ := ok_of_bind run
      obtain rfl := eq_of_checkedAdd added
      obtain ⟨folded, fits⟩ := (ih later).mp run
      exact ⟨⟨next, stepped, folded⟩, forall_mem_cons.mpr ⟨added, fits⟩⟩
    · rintro ⟨⟨next, stepped, folded⟩, fits⟩
      obtain ⟨added, fits⟩ := forall_mem_cons.mp fits
      exact ⟨next, stepped, bind_eq_ok.mpr ⟨_, added, (ih later).mpr ⟨folded, fits⟩⟩⟩

/-- The points of a grid from its start to its end. -/
def pointsOf (startNs endNs stepNs : Int) : List Int :=
  gridPoints stepNs (stepCount startNs endNs stepNs) startNs

theorem mem_pointsOf (positive : 0 < stepNs) :
    point ∈ pointsOf startNs endNs stepNs ↔ ∃ index : Nat, point = startNs + index * stepNs ∧ point ≤ endNs := by
  rw [pointsOf, mem_gridPoints]
  have counted : ∀ index : Nat,
      index < stepCount startNs endNs stepNs ↔ startNs + index * stepNs ≤ endNs := by
    intro index
    have divided := Int.le_ediv_iff_mul_le (a := index) (b := endNs - startNs) positive
    unfold stepCount
    omega
  constructor
  · rintro ⟨index, inRange, rfl⟩
    exact ⟨index, rfl, (counted index).mp inRange⟩
  · rintro ⟨index, rfl, inGrid⟩
    exact ⟨index, (counted index).mpr inGrid, rfl⟩

theorem le_of_mem_pointsOf (positive : 0 < stepNs) (listed : point ∈ pointsOf startNs endNs stepNs) :
    startNs ≤ point ∧ point ≤ endNs := by
  obtain ⟨index, rfl, inGrid⟩ := (mem_pointsOf positive).mp listed
  have forward : 0 ≤ (index : Int) * stepNs := Int.mul_nonneg (Int.natCast_nonneg index) positive.le
  exact ⟨by omega, inGrid⟩

/-- The loop over a whole grid. -/
theorem overGrid_pointsOf {state final : State} (positive : 0 < stepNs) :
    overGrid endNs stepNs body (stepCount startNs endNs stepNs) startNs state = .ok final ↔
      (pointsOf startNs endNs stepNs).foldlM (fun state t => body t state) state = .ok final ∧
        ∀ point ∈ pointsOf startNs endNs stepNs, checkedAdd point stepNs = .ok (point + stepNs) :=
  overGrid_eq_ok fun _ listed => (le_of_mem_pointsOf positive listed).2

theorem foldlM_collect (points collected : List Int) :
    points.foldlM (m := Except Error) (fun instants t => .ok (instants ++ [t])) collected = .ok (collected ++ points) := by
  induction points generalizing collected with
  | nil => simp [pure, Except.pure]
  | cons point points ih =>
    rw [foldlM_cons]
    change points.foldlM _ (collected ++ [point]) = _
    rw [ih, append_assoc, singleton_append]

theorem gridInstants_eq {instants : List Int} (positive : 0 < stepNs)
    (run : gridInstants startNs endNs stepNs = .ok instants) : instants = pointsOf startNs endNs stepNs := by
  have folded := ((overGrid_pointsOf positive).mp run).1
  rw [foldlM_collect, nil_append] at folded
  exact (Except.ok.inj folded).symm

/-- A series with its samples restricted to a window. -/
def SeriesData.clip (window : TimeRange) (series : SeriesData) : SeriesData :=
  ⟨series.labels, series.samples.filter fun sample =>
    decide (window.startNs ≤ sample.tsNs) && decide (sample.tsNs ≤ window.endNs)⟩

def SeriesData.nonempty (series : SeriesData) : Bool := !series.samples.isEmpty

/-- The live samples that a left-open window counts. -/
def liveWithin (startNs endNs : Int) (samples : List Sample) : List Sample :=
  samples.filter fun sample => decide (startNs < sample.tsNs) && decide (sample.tsNs ≤ endNs) && isLive sample

/-- The nonzero counts of some series over a left-open window. -/
def nonzeroCounts (startNs endNs : Int) (stored : List SeriesData) : List (LabelSet × Nat) :=
  (stored.map fun series => (series.labels, (liveWithin startNs endNs series.samples).length)).filter
    fun entry => entry.2 ≠ 0

/-- The contract of a source of float series. It returns every matching series restricted to the window, in time
order, where a series without a sample may be left out. A precomputed count is exact and has no zero. -/
structure SeriesSource.Serves (source : SeriesSource) (stored : List LabelMatcher → List SeriesData) : Prop where
  ordered : ∀ matchers, ∀ series ∈ stored matchers, KeyOrdered Metrics.Sample.tsNs series.samples
  restricts : ∀ matchers window found, source.query matchers window = .ok found →
    (found.filter SeriesData.nonempty).Perm
      (((stored matchers).map (SeriesData.clip window)).filter SeriesData.nonempty)
  counts : ∀ matchers startNs endNs counted, source.queryPrecomputedCount matchers startNs endNs = .ok (some counted) →
    counted.Perm (nonzeroCounts startNs endNs (stored matchers))

/-- What a reader takes from each series depends on the restricted series only. -/
theorem SeriesSource.Serves.read {Output : Type} {source : SeriesSource}
    {stored : List LabelMatcher → List SeriesData} (serves : source.Serves stored) {matchers : List LabelMatcher}
    {found : List SeriesData} (queried : source.query matchers window = .ok found) {take : SeriesData → List Output}
    (skips : ∀ labels, take ⟨labels, []⟩ = []) :
    (found.flatMap take).Perm ((stored matchers).flatMap fun series => take (series.clip window)) := by
  have drops : ∀ series : List SeriesData, (series.filter SeriesData.nonempty).flatMap take = series.flatMap take := by
    intro series
    induction series with
    | nil => rfl
    | cons first rest ih =>
      cases samples : first.samples with
      | nil =>
        have empty : first = ⟨first.labels, []⟩ := by rw [← samples]
        rw [filter_cons_of_neg (by simp [SeriesData.nonempty, samples]), flatMap_cons,
          ih, empty, skips, nil_append]
      | cons _ _ =>
        rw [filter_cons_of_pos (by simp [SeriesData.nonempty, samples]), flatMap_cons,
          flatMap_cons, ih]
  have restricted := (serves.restricts matchers window found queried).flatMap_right take
  rw [drops, drops, flatMap_map] at restricted
  exact restricted

/-- The lookback reads the samples after its start only. -/
theorem pickSample_filter {samples : List Sample} (ordered : KeyOrdered Metrics.Sample.tsNs samples)
    (selTsNs lookbackDeltaNs : Int) :
    pickSample samples selTsNs lookbackDeltaNs =
      pickSample (samples.filter fun sample =>
        decide (selTsNs - lookbackDeltaNs < sample.tsNs) && decide (sample.tsNs ≤ selTsNs)) selTsNs lookbackDeltaNs := by
  have seen : samples.takeWhile (fun sample => sample.tsNs ≤ selTsNs) =
      (samples.filter fun sample => sample.tsNs ≤ selTsNs) := ordered.takeWhile_le selTsNs
  have kept : (samples.filter fun sample =>
        decide (selTsNs - lookbackDeltaNs < sample.tsNs) && decide (sample.tsNs ≤ selTsNs)).takeWhile
        (fun sample => sample.tsNs ≤ selTsNs) =
      (samples.filter fun sample => sample.tsNs ≤ selTsNs).dropWhile
        fun sample => sample.tsNs ≤ selTsNs - lookbackDeltaNs := by
    rw [(ordered.filter _).takeWhile_le, (ordered.filter _).dropWhile_le, filter_filter, filter_filter]
    apply filter_congr
    intro sample _
    by_cases early : sample.tsNs ≤ selTsNs <;> simp [early]
  unfold pickSample
  rw [seen, kept]
  have split := takeWhile_append_dropWhile
    (p := fun sample : Sample => decide (sample.tsNs ≤ selTsNs - lookbackDeltaNs))
    (l := samples.filter fun sample => sample.tsNs ≤ selTsNs)
  have oldEarly : ∀ sample ∈ (samples.filter fun sample => sample.tsNs ≤ selTsNs).takeWhile
      (fun sample => sample.tsNs ≤ selTsNs - lookbackDeltaNs), sample.tsNs ≤ selTsNs - lookbackDeltaNs := by
    intro sample member
    simpa using mem_takeWhile_imp member
  have recentLate : ∀ sample ∈ (samples.filter fun sample => sample.tsNs ≤ selTsNs).dropWhile
      (fun sample => sample.tsNs ≤ selTsNs - lookbackDeltaNs), selTsNs - lookbackDeltaNs < sample.tsNs := by
    intro sample member
    rw [(ordered.filter _).dropWhile_le] at member
    simpa using (mem_filter.mp member).2
  generalize samples.filter (fun sample => decide (sample.tsNs ≤ selTsNs)) = all at split oldEarly recentLate ⊢
  generalize all.dropWhile (fun sample => decide (sample.tsNs ≤ selTsNs - lookbackDeltaNs)) = recent at split recentLate ⊢
  generalize all.takeWhile (fun sample => decide (sample.tsNs ≤ selTsNs - lookbackDeltaNs)) = old at split oldEarly
  subst split
  rw [reverse_append]
  cases reversed : recent.reverse with
  | nil =>
    cases oldReversed : old.reverse with
    | nil => rfl
    | cons candidate earlier =>
      have early := oldEarly candidate (mem_reverse.mp (by rw [oldReversed]; exact mem_cons_self))
      cases started : checkedSub selTsNs lookbackDeltaNs with
      | error failure => rfl
      | ok windowStart =>
        obtain rfl := eq_of_checkedSub started
        simp [early]
  | cons candidate earlier =>
    have late := recentLate candidate (mem_reverse.mp (by rw [reversed]; exact mem_cons_self))
    -- The samples with the candidate's timestamp are all recent.
    have run : (earlier ++ old.reverse).takeWhile (fun sample => sample.tsNs = candidate.tsNs) =
        earlier.takeWhile fun sample => sample.tsNs = candidate.tsNs := by
      rw [takeWhile_append]
      split
      · rename_i whole
        have none : old.reverse.takeWhile (fun sample => sample.tsNs = candidate.tsNs) = [] := by
          rw [takeWhile_eq_nil_iff]
          intro inside same
          have early := oldEarly _ (mem_reverse.mp (getElem_mem inside))
          have : old.reverse[0].tsNs = candidate.tsNs := by simpa using same
          omega
        rw [none, append_nil]
        exact ((List.takeWhile_prefix _).eq_of_length whole).symm
      · rfl
    simp only [cons_append, run]

/-- A read that covers the lookback picks the same sample. -/
theorem pickSample_clip (ordered : KeyOrdered Metrics.Sample.tsNs series.samples) {selTsNs lookbackDeltaNs : Int}
    (starts : window.startNs ≤ selTsNs - lookbackDeltaNs) (ends : selTsNs ≤ window.endNs) :
    pickSample (series.clip window).samples selTsNs lookbackDeltaNs =
      pickSample series.samples selTsNs lookbackDeltaNs := by
  have clipped : KeyOrdered Metrics.Sample.tsNs (series.clip window).samples := ordered.filter _
  rw [pickSample_filter clipped, pickSample_filter ordered]
  congr 1
  change List.filter _ (List.filter _ _) = _
  rw [filter_filter]
  apply filter_congr
  intro sample _
  by_cases late : selTsNs - lookbackDeltaNs < sample.tsNs
  · by_cases early : sample.tsNs ≤ selTsNs
    · have : window.startNs ≤ sample.tsNs ∧ sample.tsNs ≤ window.endNs := by omega
      simp [late, early, this]
    · simp [early]
  · simp [late]

/-- A read that covers a left-open window has its live samples. -/
theorem liveWithin_clip (starts : window.startNs ≤ startNs) (ends : endNs ≤ window.endNs) :
    liveWithin startNs endNs (series.clip window).samples = liveWithin startNs endNs series.samples := by
  unfold liveWithin
  change List.filter _ (List.filter _ _) = _
  rw [filter_filter]
  apply filter_congr
  intro sample _
  by_cases late : startNs < sample.tsNs
  · by_cases early : sample.tsNs ≤ endNs
    · have : window.startNs ≤ sample.tsNs ∧ sample.tsNs ≤ window.endNs := by omega
      simp [late, early, this]
    · simp [early]
  · simp [late]

end Ravel.Promql
