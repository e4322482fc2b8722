import Ravel.Construction.Metrics.Compaction
import Ravel.Library.FailingRuns
import Ravel.Proof.Metrics.CandidateOrders

namespace Ravel.Metrics

open List Library

variable {Value Key : Type} [LinearOrder Key]

/-- A tagged sample as a candidate of its timestamp. -/
def taggedEntry (tagged : Sample Value × SamplePriority) : Int × Candidate Value :=
  (tagged.1.tsNs, ⟨tagged.1.value, tagged.2⟩)

variable {tagged : List (Sample Value × SamplePriority)} {runs : List (RunPlan Value)}
  {sort : List (Sample Value × SamplePriority) → List (Sample Value × SamplePriority)} {merged : RunOutput Value}

/-- The tags of a run are the priorities that the query derives from positions. -/
theorem tagSamples_entries {triple : RunTriple} {pos : Nat} {samples : List (Sample Value)}
    (accepted : tagSamples triple pos samples = .ok tagged) :
    runEntries (.runWide triple) pos samples = tagged.map taggedEntry := by
  induction samples generalizing pos tagged with
  | nil =>
    cases accepted
    rfl
  | cons sample rest ih =>
    unfold tagSamples sampleProvenance at accepted
    by_cases fits : pos ≤ u32Max
    · rw [if_pos fits] at accepted
      cases inner : tagSamples triple (pos + 1) rest with
      | error failure =>
        rw [inner] at accepted
        cases accepted
      | ok others =>
        rw [inner] at accepted
        cases accepted
        rw [runEntries, ih inner, RunPriorities.atPos, Nat.min_eq_left fits]
        rfl
    · rw [if_neg fits] at accepted
      cases accepted

/-- The tags of several runs are the candidates of these runs, in order. -/
theorem tagRuns_entries (accepted : tagRuns runs = .ok tagged) :
    runsEntries (runs.map RunPlan.served) = tagged.map taggedEntry := by
  induction runs generalizing tagged with
  | nil =>
    cases accepted
    rfl
  | cons run rest ih =>
    unfold tagRuns at accepted
    obtain ⟨front, first, accepted⟩ := ok_of_bind accepted
    obtain ⟨others, inner, accepted⟩ := ok_of_bind accepted
    cases accepted
    rw [map_append, ← ih inner, ← tagSamples_entries first]
    rfl

/-- The column of a tagged list gives every sample its own tag back. -/
theorem runEntries_perSample (earlier : List SamplePriority) (tagged : List (Sample Value × SamplePriority)) :
    runEntries (.perSample (earlier ++ tagged.map Prod.snd)) earlier.length (tagged.map Prod.fst) =
      tagged.map taggedEntry := by
  induction tagged generalizing earlier with
  | nil => rfl
  | cons entry rest ih =>
    have next := ih (earlier ++ [entry.2])
    rw [length_append, length_singleton, append_assoc, singleton_append] at next
    rw [map_cons, map_cons, runEntries, next, RunPriorities.atPos, getElem?_append_right (le_refl _),
      Nat.sub_self]
    rfl

/-- A sort that permutes its input and orders it by time. -/
structure TimeSort (sort : List (Sample Value × SamplePriority) → List (Sample Value × SamplePriority)) : Prop where
  perm : ∀ merged, (sort merged).Perm merged
  ascending : ∀ merged, (sort merged).Pairwise fun before after => before.1.tsNs ≤ after.1.tsNs

theorem sortMergedScalar_timeSort : TimeSort sortMergedScalar where
  perm merged := perm_insertionSort _ merged
  ascending merged := by
    have sorted := pairwise_insertionSort (fun left right => scalarOrderKey left ≤ scalarOrderKey right) merged
    refine sorted.imp fun ordered => ?_
    rcases Prod.Lex.toLex_le_toLex.mp ordered with earlier | equal
    · exact le_of_lt earlier
    · exact le_of_eq equal.1

theorem sortMergedHistogram_timeSort : TimeSort sortMergedHistogram where
  perm merged := perm_insertionSort _ merged
  ascending merged := by
    have sorted :=
      pairwise_insertionSort (fun left right => histogramOrderKey left ≤ histogramOrderKey right) merged
    refine sorted.imp fun ordered => ?_
    rcases Prod.Lex.toLex_le_toLex.mp ordered with earlier | equal
    · exact le_of_lt earlier
    · exact le_of_eq equal.1

/-- A merged run has a provenance column, ascends, and has exactly the candidates of its inputs. -/
theorem mergedRun_spec (sorts : TimeSort sort) (accepted : mergedRun sort runs = .ok merged) :
    merged.served.WellFormed ∧
      (runsEntries [merged.served]).Perm (runsEntries (runs.map RunPlan.served)) := by
  unfold mergedRun at accepted
  obtain ⟨tagged, tags, accepted⟩ := ok_of_bind accepted
  cases accepted
  constructor
  · refine ⟨?_, ?_⟩
    · exact pairwise_map.mpr (sorts.ascending tagged)
    · intro column source
      cases source
      simp [RunOutput.served]
  · have served := runEntries_perSample [] (sort tagged)
    rw [nil_append, length_nil] at served
    have single : runsEntries [RunOutput.served ⟨mergedRunPrefix ((sort tagged).map Prod.snd),
        (sort tagged).map Prod.fst, some ((sort tagged).map Prod.snd)⟩] = (sort tagged).map taggedEntry := by
      rw [← served, runsEntries, flatMap_singleton]
      rfl
    rw [tagRuns_entries tags]
    exact single ▸ (sorts.perm tagged).map taggedEntry

theorem runsEntries_perm {first second : List (SeriesRun Value)} (reordered : first.Perm second) :
    (runsEntries first).Perm (runsEntries second) :=
  reordered.flatMap_right _

theorem served_wellFormed {plans : List (RunPlan Value)} (ascending : ∀ plan ∈ plans, Ascending plan.samples) :
    ∀ run ∈ plans.map RunPlan.served, run.WellFormed := by
  intro run member
  obtain ⟨plan, inPlans, rfl⟩ := mem_map.mp member
  exact ⟨ascending plan inPlans, fun _ source => by cases source⟩

/-- The query merge does not see a replaced subset of the runs, nor a merged copy beside it. -/
theorem mergeRunsBy_replaced (order : CandidateOrder Value Key) (sorts : TimeSort sort)
    {runs kept served : List (SeriesRun Value)} {chosen : List (RunPlan Value)}
    (formed : ∀ run ∈ runs, run.WellFormed) (split : runs.Perm (kept ++ chosen.map RunPlan.served))
    (accepted : mergedRun sort chosen = .ok merged)
    (replaced : served.Perm (kept ++ [merged.served]) ∨ served.Perm (runs ++ [merged.served])) (budget : YieldBudget) :
    mergeRunsBy order.greater served budget = mergeRunsBy order.greater runs budget := by
  obtain ⟨mergedFormed, conserved⟩ := mergedRun_spec sorts accepted
  have splitEntries : ∀ entry, entry ∈ runsEntries runs ↔
      entry ∈ runsEntries kept ∨ entry ∈ runsEntries [merged.served] := by
    intro entry
    rw [(runsEntries_perm split).mem_iff, conserved.mem_iff, runsEntries, flatMap_append, mem_append]
    rfl
  have inRuns : ∀ run ∈ kept, run ∈ runs := fun run member =>
    split.mem_iff.mpr (mem_append_left _ member)
  rcases replaced with onlyMerged | beside
  · refine mergeRunsBy_congr order ?_ formed ?_ budget
    · intro run member
      rcases mem_append.mp (onlyMerged.mem_iff.mp member) with inKept | isMerged
      · exact formed run (inRuns run inKept)
      · rw [mem_singleton.mp isMerged]
        exact mergedFormed
    · intro entry
      rw [(runsEntries_perm onlyMerged).mem_iff, splitEntries, runsEntries, flatMap_append, mem_append]
      rfl
  · refine mergeRunsBy_congr order ?_ formed ?_ budget
    · intro run member
      rcases mem_append.mp (beside.mem_iff.mp member) with inOriginal | isMerged
      · exact formed run inOriginal
      · rw [mem_singleton.mp isMerged]
        exact mergedFormed
    · intro entry
      rw [(runsEntries_perm beside).mem_iff, runsEntries, flatMap_append, mem_append]
      change entry ∈ runsEntries runs ∨ entry ∈ runsEntries [merged.served] ↔ _
      rw [splitEntries]
      tauto

/-- The runs a query finds after any passes of compactors that know nothing of each other: a merged run joins runs that
are served, raw inputs leave once a merged run of them is served, and the runs are listed in any order. -/
inductive Compacted (merge : List (RunPlan Value) → Except MaintainError (RunOutput Value)) (start : List (SeriesRun Value)) :
    List (SeriesRun Value) → Prop where
  | start : Compacted merge start start
  | reorder (runs served : List (SeriesRun Value)) (earlier : Compacted merge start runs) (reordered : served.Perm runs) :
      Compacted merge start served
  | publish (runs : List (SeriesRun Value)) (chosen : List (RunPlan Value)) (merged : RunOutput Value)
      (earlier : Compacted merge start runs) (inputs : ∀ plan ∈ chosen, plan.served ∈ runs) (accepted : merge chosen = .ok merged) :
      Compacted merge start (merged.served :: runs)
  | sweep (kept : List (SeriesRun Value)) (chosen : List (RunPlan Value)) (merged : RunOutput Value)
      (earlier : Compacted merge start (kept ++ chosen.map RunPlan.served)) (accepted : merge chosen = .ok merged)
      (published : merged.served ∈ kept) : Compacted merge start kept

theorem mem_runsEntries {runs : List (SeriesRun Value)} {entry : Int × Candidate Value} :
    entry ∈ runsEntries runs ↔ ∃ run ∈ runs, entry ∈ runsEntries [run] := by
  simp [runsEntries]

/-- Any passes leave well-formed runs with the same candidates. -/
theorem Compacted.same_candidates (sorts : TimeSort sort) {start served : List (SeriesRun Value)}
    (formed : ∀ run ∈ start, run.WellFormed) (passes : Compacted (mergedRun sort) start served) :
    (∀ run ∈ served, run.WellFormed) ∧ ∀ entry, entry ∈ runsEntries served ↔ entry ∈ runsEntries start := by
  induction passes with
  | start => exact ⟨formed, fun _ => Iff.rfl⟩
  | reorder runs served earlier reordered ih =>
    refine ⟨fun run member => ih.1 run (reordered.mem_iff.mp member), fun entry => ?_⟩
    rw [(runsEntries_perm reordered).mem_iff, ih.2]
  | publish runs chosen merged earlier inputs accepted ih =>
    obtain ⟨mergedFormed, conserved⟩ := mergedRun_spec sorts accepted
    refine ⟨forall_mem_cons.mpr ⟨mergedFormed, ih.1⟩, fun entry => ?_⟩
    have joined : entry ∈ runsEntries (merged.served :: runs) ↔
        entry ∈ runsEntries [merged.served] ∨ entry ∈ runsEntries runs := by
      rw [← singleton_append, runsEntries, flatMap_append, mem_append]
      rfl
    rw [← ih.2, joined, conserved.mem_iff, or_iff_right_of_imp]
    intro inChosen
    obtain ⟨run, member, found⟩ := mem_runsEntries.mp inChosen
    obtain ⟨plan, inPlans, rfl⟩ := mem_map.mp member
    exact mem_runsEntries.mpr ⟨plan.served, inputs plan inPlans, found⟩
  | sweep kept chosen merged earlier accepted published ih =>
    obtain ⟨-, conserved⟩ := mergedRun_spec sorts accepted
    refine ⟨fun run member => ih.1 run (mem_append_left _ member), fun entry => ?_⟩
    rw [← ih.2, runsEntries, runsEntries, flatMap_append, mem_append, or_iff_left_of_imp]
    intro inChosen
    exact mem_runsEntries.mpr ⟨merged.served, published, conserved.mem_iff.mpr inChosen⟩

/-- The runs of a series before and after some passes. -/
structure CompactionHistory (merge : List (RunPlan Value) → Except MaintainError (RunOutput Value)) where
  start : List (SeriesRun Value)
  served : List (SeriesRun Value)
  formed : ∀ run ∈ start, run.WellFormed
  passes : Compacted merge start served

/-- No passes of compactors, however they interleave and overlap, change the samples or the errors of a query merge. -/
theorem passes_invisible_to_queries (budget : YieldBudget) :
    (∀ history : CompactionHistory mergeScalarRuns,
      mergeSeriesRuns history.served budget = mergeSeriesRuns history.start budget) ∧
      ∀ history : CompactionHistory mergeHistogramRuns,
        mergeHistogramSeriesRuns history.served budget = mergeHistogramSeriesRuns history.start budget := by
  constructor
  · intro history
    obtain ⟨formed, same⟩ := Compacted.same_candidates sortMergedScalar_timeSort history.formed history.passes
    exact mergeRunsBy_congr scalarOrder formed history.formed same budget
  · intro history
    obtain ⟨formed, same⟩ := Compacted.same_candidates sortMergedHistogram_timeSort history.formed history.passes
    exact mergeRunsBy_congr histogramOrder formed history.formed same budget

end Ravel.Metrics
