import Mathlib.Data.List.Perm.Subperm
import Ravel.Proof.Metrics.CandidateOrders
import Ravel.Proof.Promql.SampleFoldRuns

namespace Ravel.Promql.SampleFold

open List Library
open Metrics (CandidateOrder FoldRun QueryError SeriesRun YieldBudget SelectsEntries runEntries runsEntries seriesEntries yieldAll)

variable {Value Shown : Type}

section Reached

variable (kind : FoldValue Value)

/-- The states of a fold: every run that it takes and every reservation that it makes is a step. -/
inductive Reached (maxSeries : Nat) : RunFold Value → Prop
  | new : Reached maxSeries (.new maxSeries)
  | run {fold next : RunFold Value} {run : FoldRun SeriesId LabelSet Value} (before : Reached maxSeries fold)
      (absorbed : absorbRun kind fold run = .ok next) : Reached maxSeries next
  | reserve {fold next : RunFold Value} {reserve : Reserve} (before : Reached maxSeries fold)
      (reserved : reserveRetained reserve fold = .ok next) : Reached maxSeries next

variable {kind}

theorem kept_new (maxSeries : Nat) : Kept kind (RunFold.new maxSeries) where
  interned := ⟨rfl, nodup_nil⟩
  known := fun _ absurd => (by cases absurd)
  halved := fun _ absurd => (by cases absurd)
  bounded := Nat.zero_le _
  retained := rfl

/-- A reservation changes nothing that the fold holds. -/
theorem reserveRetained_cases {reserve : Reserve} {fold next : RunFold Value}
    (reserved : reserveRetained reserve fold = .ok next) :
    ∃ reservations, next = { fold with reservations := reservations } := by
  rw [reserveRetained] at reserved
  split at reserved
  · cases reserved
    exact ⟨fold.reservations, rfl⟩
  · split at reserved
    · cases reserved
    · cases reserved
      exact ⟨_, rfl⟩

theorem Kept.reserveRetained {reserve : Reserve} {fold next : RunFold Value} (kept : Kept kind fold)
    (reserved : reserveRetained reserve fold = .ok next) : Kept kind next := by
  obtain ⟨reservations, rfl⟩ := reserveRetained_cases reserved
  exact ⟨⟨kept.interned.index, kept.interned.distinct⟩, kept.known, kept.halved, kept.bounded, kept.retained⟩

theorem Reached.kept {maxSeries : Nat} {fold : RunFold Value} (reached : Reached kind maxSeries fold) : Kept kind fold := by
  induction reached with
  | new => exact kept_new maxSeries
  | run _ absorbed ih => exact (ih.absorbRun absorbed).1
  | reserve _ reserved ih => exact ih.reserveRetained reserved

theorem foldlM_absorbRun {runs : List (FoldRun SeriesId LabelSet Value)} {fold next : RunFold Value} (kept : Kept kind fold)
    (absorbed : runs.foldlM (absorbRun kind) fold = .ok next) :
    Kept kind next ∧ next.maxSeries = fold.maxSeries ∧
      Metrics.absorb kind.servesOver runs (shown fold.prefixes fold.bySeries) = .ok (shown next.prefixes next.bySeries) := by
  induction runs generalizing fold with
  | nil =>
    cases absorbed
    exact ⟨kept, rfl, rfl⟩
  | cons run runs ih =>
    rw [foldlM_cons] at absorbed
    obtain ⟨middle, stepped, absorbed⟩ := ok_of_bind absorbed
    obtain ⟨middleKept, sameMax, step⟩ := kept.absorbRun stepped
    obtain ⟨nextKept, nextMax, later⟩ := ih middleKept absorbed
    refine ⟨nextKept, nextMax.trans sameMax, ?_⟩
    rw [Metrics.absorb, foldlM_cons]
    exact bind_eq_ok.mpr ⟨_, step, later⟩

/-- The objects of a fold, in their order of completion. -/
theorem absorbAll_spec {arrivals : List (Reserve × List (FoldRun SeriesId LabelSet Value))} {fold next : RunFold Value}
    (kept : Kept kind fold) (absorbed : absorbAll kind arrivals fold = .ok next) :
    Kept kind next ∧ next.maxSeries = fold.maxSeries ∧
      Metrics.absorb kind.servesOver (arrivals.map Prod.snd).flatten (shown fold.prefixes fold.bySeries) =
        .ok (shown next.prefixes next.bySeries) := by
  induction arrivals generalizing fold with
  | nil =>
    cases absorbed
    exact ⟨kept, rfl, rfl⟩
  | cons arrival arrivals ih =>
    rw [absorbAll, foldlM_cons] at absorbed
    obtain ⟨reserved, stepped, absorbed⟩ := ok_of_bind absorbed
    obtain ⟨middle, runs, stepped⟩ := ok_of_bind stepped
    obtain ⟨middleKept, middleMax, taken⟩ := foldlM_absorbRun kept runs
    have reservedKept := middleKept.reserveRetained stepped
    obtain ⟨reservations, rfl⟩ := reserveRetained_cases stepped
    obtain ⟨nextKept, nextMax, later⟩ := ih reservedKept absorbed
    refine ⟨nextKept, nextMax.trans middleMax, ?_⟩
    rw [map_cons, flatten_cons, Metrics.absorb, foldlM_append]
    exact bind_eq_ok.mpr ⟨_, taken, later⟩

/-- Every state of a fold of objects is reached. -/
theorem Reached.absorbAll {maxSeries : Nat} {arrivals : List (Reserve × List (FoldRun SeriesId LabelSet Value))}
    {fold next : RunFold Value} (reached : Reached kind maxSeries fold)
    (absorbed : absorbAll kind arrivals fold = .ok next) : Reached kind maxSeries next := by
  have runsReached : ∀ (runs : List (FoldRun SeriesId LabelSet Value)) {fold next : RunFold Value},
      Reached kind maxSeries fold → runs.foldlM (absorbRun kind) fold = .ok next → Reached kind maxSeries next := by
    intro runs
    induction runs with
    | nil =>
      intro fold next reached absorbed
      cases absorbed
      exact reached
    | cons run runs ih =>
      intro fold next reached absorbed
      rw [foldlM_cons] at absorbed
      obtain ⟨middle, stepped, absorbed⟩ := ok_of_bind absorbed
      exact ih (reached.run stepped) absorbed
  induction arrivals generalizing fold with
  | nil =>
    cases absorbed
    exact reached
  | cons arrival arrivals ih =>
    rw [SampleFold.absorbAll, foldlM_cons] at absorbed
    obtain ⟨reserved, stepped, absorbed⟩ := ok_of_bind absorbed
    obtain ⟨middle, runs, stepped⟩ := ok_of_bind stepped
    exact ih ((runsReached arrival.2 reached runs).reserve stepped) absorbed

end Reached

section Finish

variable {kind : FoldValue Value} {convert : Value → Shown}

/-- The samples of one finished series. -/
def finished (kind : FoldValue Value) (convert : Value → Shown) (prefixes : List Metrics.RunTriple)
    (entry : SeriesId × FoldedSeries Value) : LabelSet × List (Metrics.Sample Shown) :=
  (entry.2.labels, (collapseLevels kind prefixes entry.2.levels).map fun sample => ⟨sample.ts, convert sample.value⟩)

theorem finishFrom_spec {prefixes : List Metrics.RunTriple} {maxSamples total : Nat}
    {entries : List (SeriesId × FoldedSeries Value)} {series : List (LabelSet × List (Metrics.Sample Shown))}
    (done : finishFrom kind convert prefixes maxSamples total entries = .ok series) :
    series = entries.map (finished kind convert prefixes) ∧
      (entries ≠ [] → total + (series.map fun one => one.2.length).sum ≤ maxSamples) := by
  induction entries generalizing total series with
  | nil =>
    cases done
    exact ⟨rfl, fun absurd => (absurd rfl).elim⟩
  | cons entry entries ih =>
    rw [finishFrom] at done
    obtain ⟨within, done⟩ := ok_of_guard done
    obtain ⟨later, rest, returned⟩ := ok_of_bind done
    cases returned
    obtain ⟨areLater, bounded⟩ := ih rest
    refine ⟨by rw [areLater]; rfl, fun _ => ?_⟩
    simp only [map_cons, sum_cons, length_map]
    cases entries with
    | nil =>
      rw [areLater]
      simp only [map_nil, sum_nil]
      omega
    | cons other others =>
      have total := bounded (cons_ne_nil _ _)
      omega

end Finish

section Groups

variable {kind : FoldValue Value} {convert : Value → Shown}

/-- The groups have each series of the runs once, with all of its runs. -/
structure Grouped (groups : Groups Value) (runs : List (FoldRun SeriesId LabelSet Value)) : Prop where
  distinct : (groups.map Prod.fst).Nodup
  listed : ∀ seriesId, seriesId ∈ groups.map Prod.fst ↔ ∃ run ∈ runs, run.seriesId = seriesId
  labelled : ∀ group ∈ groups, ∃ run ∈ runs, run.seriesId = group.1 ∧ run.labels = group.2.1
  held : ∀ group ∈ groups, ∀ one, one ∈ group.2.2 ↔ ∃ run ∈ runs, run.seriesId = group.1 ∧ run.run = one

theorem pushRun_eq (run : FoldRun SeriesId LabelSet Value) (groups : Groups Value) : pushRun run groups =
    alterEntry run.seriesId (run.labels, [run.run]) (fun group => (group.1, group.2 ++ [run.run])) groups := by
  induction groups with
  | nil => rfl
  | cons group rest ih => rw [pushRun, alterEntry, ih]

theorem grouped_nil : Grouped ([] : Groups Value) [] where
  distinct := nodup_nil
  listed := by simp
  labelled := by simp
  held := by simp

/-- One more run joins its group. -/
theorem Grouped.pushRun {groups : Groups Value} {runs : List (FoldRun SeriesId LabelSet Value)} (grouped : Grouped groups runs)
    (run : FoldRun SeriesId LabelSet Value) : Grouped (pushRun run groups) (runs ++ [run]) := by
  rw [pushRun_eq]
  have arrived : run ∈ runs ++ [run] := mem_append_right _ mem_cons_self
  refine ⟨nodup_alterEntry grouped.distinct, ?_, ?_, ?_⟩
  · intro seriesId
    rw [mem_keys_alterEntry, or_comm, eq_comm, grouped.listed]
    simp only [mem_append, mem_singleton]
    constructor
    · rintro (⟨other, earlier, named⟩ | named)
      · exact ⟨other, .inl earlier, named⟩
      · exact ⟨run, .inr rfl, named⟩
    · rintro ⟨other, earlier | rfl, named⟩
      · exact .inl ⟨other, earlier, named⟩
      · exact .inr named
  · intro group member
    rcases mem_alterEntry grouped.distinct member with ⟨kept, _⟩ | ⟨old, inside, named, rfl⟩ | ⟨_, rfl⟩
    · obtain ⟨other, earlier, facts⟩ := grouped.labelled group kept
      exact ⟨other, mem_append_left _ earlier, facts⟩
    · obtain ⟨other, earlier, sameId, sameLabels⟩ := grouped.labelled old inside
      exact ⟨other, mem_append_left _ earlier, sameId.trans named, sameLabels⟩
    · exact ⟨run, arrived, rfl, rfl⟩
  · intro group member one
    simp only [mem_append, mem_singleton, or_and_right, exists_or, exists_eq_left]
    rcases mem_alterEntry grouped.distinct member with ⟨kept, other⟩ | ⟨old, inside, named, rfl⟩ | ⟨fresh, rfl⟩
    · rw [grouped.held group kept]
      simp [Ne.symm other]
    · rw [mem_append, mem_singleton, grouped.held old inside]
      simp [named, eq_comm]
    · have none : ¬∃ other ∈ runs, other.seriesId = run.seriesId ∧ other.run = one := by
        rintro ⟨other, earlier, sameId, _⟩
        exact fresh ((grouped.listed _).mpr ⟨other, earlier, sameId⟩)
      rw [or_iff_right none, mem_singleton]
      exact ⟨fun same => ⟨rfl, same.symm⟩, fun same => same.2.symm⟩

/-- Runs of no more series than the cap are all grouped. -/
theorem foldlM_groupRun {ids : List SeriesId} {maxSeries : Nat} (few : ids.length ≤ maxSeries)
    {runs : List (FoldRun SeriesId LabelSet Value)} (named : ∀ run ∈ runs, run.seriesId ∈ ids)
    {earlier : List (FoldRun SeriesId LabelSet Value)} (earlierNamed : ∀ run ∈ earlier, run.seriesId ∈ ids)
    {groups : Groups Value} (grouped : Grouped groups earlier) :
    ∃ final, runs.foldlM (groupRun maxSeries) groups = .ok final ∧ Grouped final (earlier ++ runs) := by
  induction runs generalizing groups earlier with
  | nil => exact ⟨groups, rfl, by rwa [append_nil]⟩
  | cons run runs ih =>
    have here := named run mem_cons_self
    have taken : groupRun maxSeries groups run = .ok (SampleFold.pushRun run groups) := by
      rw [groupRun, if_neg]
      intro refused
      rw [Bool.and_eq_true, decide_eq_true_eq, Bool.not_eq_true', any_eq_false] at refused
      have fresh : run.seriesId ∉ groups.map Prod.fst := by
        intro member
        obtain ⟨group, inside, same⟩ := mem_map.mp member
        exact refused.1 group inside (decide_eq_true same)
      have inIds : run.seriesId :: groups.map Prod.fst ⊆ ids := by
        intro seriesId member
        rcases mem_cons.mp member with rfl | listed
        · exact here
        · obtain ⟨other, isEarlier, rfl⟩ := (grouped.listed seriesId).mp listed
          exact earlierNamed other isEarlier
      have bounded := (subperm_of_subset (nodup_cons.mpr ⟨fresh, grouped.distinct⟩) inIds).length_le
      rw [length_cons, length_map] at bounded
      omega
    obtain ⟨final, done, finalGrouped⟩ := ih
      (fun other member => named other (mem_cons_of_mem _ member))
      (fun other member => (mem_append.mp member).elim (earlierNamed other) fun new => mem_singleton.mp new ▸ here)
      (grouped.pushRun run)
    refine ⟨final, ?_, by rwa [append_assoc, singleton_append] at finalGrouped⟩
    rw [foldlM_cons]
    exact bind_eq_ok.mpr ⟨_, taken, done⟩

theorem yieldAll_within {budget : YieldBudget} {selected : List (Int × Metrics.Candidate Value)}
    (fits : budget.yielded + selected.length ≤ budget.max) (out : List (Metrics.Sample Value)) :
    yieldAll budget out selected = .ok (⟨budget.yielded + selected.length, budget.max⟩,
      out ++ selected.map fun entry => ⟨entry.1, entry.2.value⟩) := by
  induction selected generalizing budget out with
  | nil => simp [yieldAll]
  | cons entry selected ih =>
    rw [length_cons] at fits
    have counted : budget.countOne = .ok ⟨budget.yielded + 1, budget.max⟩ := by
      rw [YieldBudget.countOne]
      exact if_neg (by omega)
    have later := @ih ⟨budget.yielded + 1, budget.max⟩ (by dsimp only; omega) (out ++ [⟨entry.1, entry.2.value⟩])
    rw [yieldAll, counted]
    dsimp only
    rw [later, length_cons, map_cons, append_assoc, singleton_append]
    dsimp only
    rw [show budget.yielded + 1 + selected.length = budget.yielded + (selected.length + 1) by omega]

/-- Groups whose selections fit the budget are merged to them. -/
theorem mergeGroups_spec {groups : Groups Value}
    {answer : SeriesId × LabelSet × List (SeriesRun Value) → LabelSet × List (Metrics.Sample Shown)}
    (merges : ∀ group ∈ groups, ∃ selected,
      (∀ budget, Metrics.mergeRunsBy kind.servesOver group.2.2 budget = yieldAll budget [] selected) ∧
      answer group = (group.2.1, selected.map fun entry => ⟨entry.1, convert entry.2.value⟩))
    {budget : YieldBudget} (fits : budget.yielded + (groups.map fun group => (answer group).2.length).sum ≤ budget.max) :
    mergeGroups kind convert budget groups = .ok (groups.map answer) := by
  induction groups generalizing budget with
  | nil => rfl
  | cons group groups ih =>
    obtain ⟨selected, merged, isAnswer⟩ := merges group mem_cons_self
    have length : (answer group).2.length = selected.length := by rw [isAnswer, length_map]
    rw [map_cons, sum_cons, length] at fits
    have later := @ih (fun other member => merges other (mem_cons_of_mem _ member))
      ⟨budget.yielded + selected.length, budget.max⟩ (by dsimp only; omega)
    rw [mergeGroups, merged, yieldAll_within (by omega)]
    refine bind_eq_ok.mpr ⟨_, rfl, ?_⟩
    refine bind_eq_ok.mpr ⟨_, later, ?_⟩
    rw [nil_append, map_map, map_cons, isAnswer]
    rfl

theorem Grouped.selected {Key : Type} [LinearOrder Key] {order : CandidateOrder Value Key} {groups : Groups Value}
    {runs : List (FoldRun SeriesId LabelSet Value)} (grouped : Grouped groups runs)
    (formed : ∀ run ∈ runs, run.run.WellFormed) {group : SeriesId × LabelSet × List (SeriesRun Value)}
    (member : group ∈ groups) :
    ∃ selected, SelectsEntries order (seriesEntries runs group.1) selected ∧
      ∀ budget, Metrics.mergeRunsBy order.greater group.2.2 budget = yieldAll budget [] selected := by
  have wellFormed : ∀ one ∈ group.2.2, one.WellFormed := by
    intro one inside
    obtain ⟨run, arrived, -, rfl⟩ := (grouped.held group member one).mp inside
    exact formed run arrived
  obtain ⟨selected, selects, merged⟩ := Metrics.mergeRunsBy_eq order wellFormed
  refine ⟨selected, ?_, merged⟩
  have same : {entry | entry ∈ runsEntries group.2.2} = seriesEntries runs group.1 := by
    ext entry
    rw [Set.mem_ofPred_eq, runsEntries, mem_flatMap]
    constructor
    · rintro ⟨one, inside, isEntry⟩
      obtain ⟨run, arrived, named, rfl⟩ := (grouped.held group member one).mp inside
      exact ⟨run, arrived, named, isEntry⟩
    · rintro ⟨run, arrived, named, isEntry⟩
      exact ⟨run.run, (grouped.held group member _).mpr ⟨run, arrived, named, rfl⟩, isEntry⟩
  rwa [← same]

end Groups

section Merge

variable {Key : Type} [LinearOrder Key] {kind : FoldValue Value} {order : CandidateOrder Value Key} {convert : Value → Shown}

/-- A series id is a function of the labels, so every copy of a series has the same labels. -/
def SameLabels (runs : List (FoldRun SeriesId LabelSet Value)) : Prop :=
  ∀ run ∈ runs, ∀ other ∈ runs, run.seriesId = other.seriesId → run.labels = other.labels

theorem finished_selected (ordered : kind.servesOver = order.greater) {fold : RunFold Value}
    {runs : List (FoldRun SeriesId LabelSet Value)}
    (holds : Metrics.FoldHolds order (shown fold.prefixes fold.bySeries) runs)
    {entry : SeriesId × FoldedSeries Value} (member : entry ∈ fold.bySeries) :
    ∃ selected, SelectsEntries order (seriesEntries runs entry.1) selected ∧
      finished kind convert fold.prefixes entry =
        (entry.2.labels, selected.map fun chosen => ⟨chosen.1, convert chosen.2.value⟩) := by
  have stacked := holds.held _ (mem_map_of_mem member)
  have covers := Metrics.covers_collapseLevels stacked
  refine ⟨_, Metrics.coversSamples_selects order covers, ?_⟩
  dsimp only
  rw [← ordered, ← collapseLevels_resolve, map_map]
  rfl

/-- A fold of objects that finishes is the merge of the pool, whatever the order of completion. -/
theorem finish_perm_merge (ordered : kind.servesOver = order.greater)
    {pool : List (List (FoldRun SeriesId LabelSet Value))} (labelled : SameLabels pool.flatten)
    {arrivals : List (Reserve × List (FoldRun SeriesId LabelSet Value))} (completed : (arrivals.map Prod.snd).Perm pool)
    {maxSeries maxSamples : Nat} {fold : RunFold Value} (absorbed : absorbAll kind arrivals (.new maxSeries) = .ok fold)
    {series : List (LabelSet × List (Metrics.Sample Shown))} (done : finish kind convert maxSamples fold = .ok series) :
    ∃ merged, mergeSoaRuns kind convert pool maxSeries maxSamples = .ok merged ∧ series.Perm merged := by
  obtain ⟨kept, sameMax, taken⟩ := absorbAll_spec (kept_new maxSeries) absorbed
  rw [ordered] at taken
  have holds : Metrics.FoldHolds order (shown fold.prefixes fold.bySeries) (arrivals.map Prod.snd).flatten :=
    Metrics.absorb_holds taken
  have sameRuns : ∀ run, run ∈ (arrivals.map Prod.snd).flatten ↔ run ∈ pool.flatten := by
    intro run
    simp only [mem_flatten, completed.mem_iff]
  have sameEntries : ∀ seriesId, seriesEntries (arrivals.map Prod.snd).flatten seriesId = seriesEntries pool.flatten seriesId := by
    intro seriesId
    ext entry
    simp only [seriesEntries, Set.mem_ofPred_eq, sameRuns]
  have formed : ∀ run ∈ pool.flatten, run.run.WellFormed := by
    intro run arrived
    exact (Metrics.exists_absorb_iff.mp ⟨_, taken⟩ run ((sameRuns run).mpr arrived)).wellFormed
  have keys : (shown fold.prefixes fold.bySeries).map Prod.fst = fold.bySeries.map Prod.fst := by
    rw [shown, map_map]
    rfl
  have listed : ∀ seriesId, seriesId ∈ fold.bySeries.map Prod.fst ↔ ∃ run ∈ pool.flatten, run.seriesId = seriesId := by
    intro seriesId
    rw [← keys, holds.listed]
    simp only [sameRuns]
  have distinct : (fold.bySeries.map Prod.fst).Nodup := keys ▸ holds.distinct
  -- The merge groups the runs: a fold that finished has no more series than the cap.
  have few : (fold.bySeries.map Prod.fst).length ≤ maxSeries := by
    have bounded := kept.bounded
    rw [sameMax] at bounded
    rwa [length_map]
  obtain ⟨groups, groupedOk, grouped⟩ := foldlM_groupRun few (fun run arrived => (listed _).mpr ⟨run, arrived, rfl⟩)
    (fun _ absurd => (by cases absurd)) grouped_nil
  rw [nil_append] at grouped
  obtain ⟨areFinished, bounded⟩ := finishFrom_spec done
  -- The answer of a series, by its id.
  let answer : SeriesId → LabelSet × List (Metrics.Sample Shown) := fun seriesId =>
    ((fold.bySeries.find? fun entry => entry.1 = seriesId).map (finished kind convert fold.prefixes)).getD (.empty, [])
  have isAnswer : ∀ entry ∈ fold.bySeries, finished kind convert fold.prefixes entry = answer entry.1 := by
    intro entry member
    have unique : AtMostOne (fun other : SeriesId × FoldedSeries Value => decide (other.1 = entry.1)) fold.bySeries :=
      atMostOne_of_key distinct fun left _ right _ leftSame rightSame => by simp_all
    have found := unique.find?_eq_some member (decide_eq_true rfl)
    show _ = ((fold.bySeries.find? fun other => decide (other.1 = entry.1)).map _).getD _
    rw [found]
    rfl
  have seriesAnswers : series = (fold.bySeries.map Prod.fst).map answer := by
    rw [areFinished, map_map]
    exact map_congr_left isAnswer
  have samePerm : (fold.bySeries.map Prod.fst).Perm (groups.map Prod.fst) := by
    apply (perm_ext_iff_of_nodup distinct grouped.distinct).mpr
    intro seriesId
    rw [listed, grouped.listed]
  have perm : series.Perm (groups.map fun group => answer group.1) := by
    have mapped := samePerm.map answer
    rwa [← seriesAnswers, map_map] at mapped
  refine ⟨_, bind_eq_ok.mpr ⟨groups, groupedOk, mergeGroups_spec ?_ ?_⟩, perm⟩
  · intro group member
    obtain ⟨selected, selects, merged⟩ := @Grouped.selected _ _ _ order _ _ grouped formed _ member
    obtain ⟨entry, inFold, sameId⟩ := mem_map.mp (samePerm.mem_iff.mpr (mem_map_of_mem member))
    obtain ⟨chosen, choosesEntries, isFinished⟩ := @finished_selected _ _ _ _ _ order convert ordered _ _ holds _ inFold
    have labels : entry.2.labels = group.2.1 := by
      obtain ⟨run, arrived, runId, runLabels⟩ := holds.labelled _ (mem_map_of_mem inFold)
      obtain ⟨other, otherArrived, otherId, otherLabels⟩ := grouped.labelled group member
      have same := labelled run ((sameRuns run).mp arrived) other otherArrived (by
        rw [runId, otherId]
        exact sameId)
      rw [← otherLabels, ← same, runLabels]
    rw [sameEntries, sameId] at choosesEntries
    refine ⟨selected, by rw [ordered]; exact merged, ?_⟩
    rw [← sameId, ← isAnswer entry inFold, isFinished, labels, choosesEntries.unique selects]
  · have sums := (perm.map fun one => one.2.length).sum_eq
    rw [map_map] at sums
    show 0 + (groups.map ((fun one : LabelSet × List (Metrics.Sample Shown) => one.2.length) ∘ fun group => answer group.1)).sum ≤
      maxSamples
    rw [← sums]
    by_cases empty : fold.bySeries = []
    · rw [areFinished, empty]
      exact Nat.zero_le _
    · exact bounded empty

/-- The candidates of a reached fold are those of the runs that it took. -/
theorem Reached.holds (ordered : kind.servesOver = order.greater) {maxSeries : Nat} {fold : RunFold Value}
    (reached : Reached kind maxSeries fold) : ∃ runs, Metrics.FoldHolds order (shown fold.prefixes fold.bySeries) runs := by
  induction reached with
  | new => exact ⟨[], .nil⟩
  | run before absorbed ih =>
    obtain ⟨runs, holds⟩ := ih
    obtain ⟨-, -, taken⟩ := before.kept.absorbRun absorbed
    rw [ordered] at taken
    exact ⟨_, holds.absorbRun taken⟩
  | reserve _ reserved ih =>
    obtain ⟨reservations, rfl⟩ := reserveRetained_cases reserved
    exact ih

theorem ascending_of_stacked {levels : List (List (Metrics.FoldedSample Value))} {entries : Set (Metrics.FoldedSample Value)}
    (stacked : Metrics.Stacked order levels entries) : ∀ level ∈ levels, Metrics.StrictlyAscending level := by
  induction stacked with
  | nil => exact fun _ absurd => (by cases absurd)
  | cons covers _ ih =>
    intro level member
    rcases mem_cons.mp member with rfl | below
    · exact covers.ascending
    · exact ih level below

/-- The levels of a reached fold hold one sample for each timestamp, in order. -/
theorem Reached.ascending (ordered : kind.servesOver = order.greater) {maxSeries : Nat} {fold : RunFold Value}
    (reached : Reached kind maxSeries fold) :
    ∀ entry ∈ fold.bySeries, ∀ level ∈ entry.2.levels, level.Pairwise fun before after => before.ts < after.ts := by
  intro entry member level inside
  obtain ⟨runs, holds⟩ := reached.holds ordered
  have stacked := holds.held _ (mem_map_of_mem member)
  have resolved : (level.map (resolve fold.prefixes)).Pairwise fun before after => before.1 < after.1 :=
    ascending_of_stacked stacked _ (mem_map_of_mem inside)
  rw [pairwise_map] at resolved
  exact resolved

end Merge

/-- What streaming the objects of a kind of value keeps: the answer of the one merge, levels that ascend and halve at every step, and
a counter of exactly what is held. -/
structure StreamsAsMerge (kind : FoldValue Value) (convert : Value → Shown) : Prop where
  merged : ∀ (pool : List (List (FoldRun SeriesId LabelSet Value)))
    (arrivals : List (Reserve × List (FoldRun SeriesId LabelSet Value))) (maxSeries maxSamples : Nat) (fold : RunFold Value)
    (series : List (LabelSet × List (Metrics.Sample Shown))),
    SameLabels pool.flatten → (arrivals.map Prod.snd).Perm pool →
    absorbAll kind arrivals (.new maxSeries) = .ok fold → finish kind convert maxSamples fold = .ok series →
    ∃ merged, mergeSoaRuns kind convert pool maxSeries maxSamples = .ok merged ∧ series.Perm merged
  visited : ∀ (arrivals : List (Reserve × List (FoldRun SeriesId LabelSet Value))) (maxSeries : Nat) (fold : RunFold Value),
    absorbAll kind arrivals (.new maxSeries) = .ok fold → Reached kind maxSeries fold
  ascending : ∀ (maxSeries : Nat) (fold : RunFold Value), Reached kind maxSeries fold →
    ∀ entry ∈ fold.bySeries, ∀ level ∈ entry.2.levels, level.Pairwise fun before after => before.ts < after.ts
  halved : ∀ (maxSeries : Nat) (fold : RunFold Value), Reached kind maxSeries fold →
    ∀ entry ∈ fold.bySeries, entry.2.levels.IsChain fun next level => next.length * 2 < level.length
  retained : ∀ (maxSeries : Nat) (fold : RunFold Value), Reached kind maxSeries fold → fold.retained = fold.held kind

theorem streamsAsMerge {Key : Type} [LinearOrder Key] {kind : FoldValue Value} {order : CandidateOrder Value Key}
    (ordered : kind.servesOver = order.greater) (convert : Value → Shown) : StreamsAsMerge kind convert where
  merged _ _ _ _ _ _ labelled completed absorbed done := finish_perm_merge ordered labelled completed absorbed done
  visited _ _ _ absorbed := Reached.new.absorbAll absorbed
  ascending _ _ reached := reached.ascending ordered
  halved _ _ reached entry member := (reached.kept.halved entry member).doubles
  retained _ _ reached := reached.kept.retained

/-- The streaming fold of scalar runs and of histogram runs is the merge of the whole pool. -/
theorem sample_fold_streams_as_merge (ofCount : UInt64 → UInt64) (inlineLen : Nat) :
    StreamsAsMerge scalarValue (id : UInt64 → UInt64) ∧
      StreamsAsMerge (histogramValue inlineLen) (histogramValueToFloat ofCount) :=
  ⟨streamsAsMerge (show scalarValue.servesOver = Metrics.scalarOrder.greater from rfl) id,
    streamsAsMerge (show (histogramValue inlineLen).servesOver = Metrics.histogramOrder.greater from rfl) _⟩

end Ravel.Promql.SampleFold
