/-
This file models the fold of the objects' runs with its interned priorities and its byte counter, and the merge of the whole pool.
-/

import Ravel.Construction.Promql.SelectorPrefetch

namespace Ravel.Promql.SampleFold

open Metrics (Candidate ExhaustionCause FoldRun HistogramValue MemoryExhausted QueryError RunPriorities RunTriple SamplePriority
  SeriesRun YieldBudget u32Max)

/-- A kind of value: its order of candidates, its heap bytes, and the inline bytes of one held sample. -/
structure FoldValue (Value : Type) where
  servesOver : Candidate Value → Candidate Value → Bool
  heapLen : Value → Nat
  inlineLen : Nat

def scalarValue : FoldValue UInt64 where
  servesOver := Metrics.isGreater
  heapLen := fun _ => 0
  inlineLen := 24

def histogramHeapLen (value : HistogramValue) : Nat :=
  let buckets := match value.counts with
    | .int _ _ positive negative => positive.length + negative.length
    | .float _ _ positive negative => positive.length + negative.length
  (value.positiveSpans.length + value.negativeSpans.length) * 8 +
    (buckets + (value.customValues.map List.length).getD 0) * 8

/-- The layout of a histogram sample is the compiler's. -/
def histogramValue (inlineLen : Nat) : FoldValue HistogramValue where
  servesOver := Metrics.histogramIsGreater
  heapLen := histogramHeapLen
  inlineLen := inlineLen

/-- One held sample. The shared part of its priority is an index of the fold's table. -/
structure FoldedSample (Value : Type) where
  ts : Int
  prefixId : Nat
  inPageIndex : Nat
  value : Value

/-- The held samples of one series in sorted levels, the last pushed level first. -/
structure FoldedSeries (Value : Type) where
  labels : LabelSet
  levels : List (List (FoldedSample Value))

/-- A fold. Its series are in order of arrival; the source's map has no order. -/
structure RunFold (Value : Type) where
  bySeries : List (SeriesId × FoldedSeries Value)
  prefixes : List RunTriple
  prefixIds : List (RunTriple × Nat)
  maxSeries : Nat
  retained : Nat
  reservations : List Nat

def RunFold.new {Value : Type} (maxSeries : Nat) : RunFold Value :=
  ⟨[], [], [], maxSeries, 0, []⟩

/-- The bytes of one table entry and one index entry. -/
def prefixLen : Nat := 56

/-- The bytes of one held series: its id and label set, and two strings for each label. -/
def retainedSeriesLen (labels : LabelSet) : Nat :=
  labels.labels.foldl (fun bytes label => bytes + 48 + label.1.utf8ByteSize + label.2.utf8ByteSize) 40

def i64Min : Int := -9223372036854775808

section Levels

variable {Value : Type} (kind : FoldValue Value) (prefixes : List RunTriple)

def sampleLen (sample : FoldedSample Value) : Nat :=
  kind.inlineLen + kind.heapLen sample.value

def priority (sample : FoldedSample Value) : SamplePriority :=
  let triple := prefixes[sample.prefixId]?.getD ⟨i64Min, 0, 0⟩
  ⟨triple.createdUnixNs, triple.writerEpoch, triple.writerSeq, sample.inPageIndex⟩

def candidate (sample : FoldedSample Value) : Candidate Value :=
  ⟨sample.value, priority prefixes sample⟩

def servesOver (first second : FoldedSample Value) : Bool :=
  kind.servesOver (candidate prefixes first) (candidate prefixes second)

/-- The walk over the second level while the first has `sample` at its front, with the bytes of what it drops. -/
def mergeInto (sample : FoldedSample Value) (rest : List (FoldedSample Value))
    (later : List (FoldedSample Value) → List (FoldedSample Value) × Nat) :
    List (FoldedSample Value) → List (FoldedSample Value) × Nat
  | [] => (sample :: rest, 0)
  | other :: others =>
    if sample.ts < other.ts then
      let merged := later (other :: others)
      (sample :: merged.1, merged.2)
    else if other.ts < sample.ts then
      let merged := mergeInto sample rest later others
      (other :: merged.1, merged.2)
    else
      let merged := later others
      if servesOver kind prefixes sample other then (sample :: merged.1, sampleLen kind other + merged.2)
      else (other :: merged.1, sampleLen kind sample + merged.2)

def mergeLevels : List (FoldedSample Value) → List (FoldedSample Value) → List (FoldedSample Value) × Nat
  | [], second => (second, 0)
  | sample :: rest, second => mergeInto kind prefixes sample rest (mergeLevels rest) second

/-- A new level merges the levels that are at most twice as long. -/
def pushLevel : List (FoldedSample Value) → List (List (FoldedSample Value)) → List (List (FoldedSample Value)) × Nat
  | level, [] => (if level.isEmpty then [] else [level], 0)
  | level, last :: rest =>
    if level.length * 2 < last.length then (if level.isEmpty then last :: rest else level :: last :: rest, 0)
    else
      let merged := mergeLevels kind prefixes last level
      let pushed := pushLevel merged.1 rest
      (pushed.1, merged.2 + pushed.2)

/-- All levels of a series as one. -/
def collapseLevels : List (List (FoldedSample Value)) → List (FoldedSample Value)
  | [] => []
  | last :: rest => rest.foldl (fun merged level => (mergeLevels kind prefixes level merged).1) last

/-- One more sample of a run at the end of its level. -/
def pushFolded (level : List (FoldedSample Value)) (sample : FoldedSample Value) :
    Except QueryError (List (FoldedSample Value)) :=
  match level.getLast? with
  | none => .ok [sample]
  | some last =>
    if sample.ts < last.ts then .error (.nonMonotonicSamples last.ts sample.ts)
    else if sample.ts = last.ts then
      .ok (if servesOver kind prefixes sample last then level.dropLast ++ [sample] else level)
    else .ok (level ++ [sample])

end Levels

section Folds

variable {Value : Type} (kind : FoldValue Value)

/-- The index of a triple in the table, which takes a new one. -/
def intern (fold : RunFold Value) (key : RunTriple) : Except QueryError (Nat × RunFold Value) :=
  match fold.prefixIds.find? fun entry => entry.1 = key with
  | some entry => .ok (entry.2, fold)
  | none =>
    let id := fold.prefixes.length
    if u32Max < id then .error (.tooManySamples (id + 1) u32Max)
    else .ok (id, { fold with
      prefixes := fold.prefixes ++ [key]
      prefixIds := fold.prefixIds ++ [(key, id)]
      retained := fold.retained + prefixLen })

/-- A sample with the triple of the one before it needs no look-up. -/
def internNext (last : Option (RunTriple × Nat)) (fold : RunFold Value) (key : RunTriple) :
    Except QueryError (Nat × RunFold Value) :=
  match last with
  | some (lastKey, id) => if lastKey = key then .ok (id, fold) else intern fold key
  | none => intern fold key

/-- The loop over the samples of a run from a position on. -/
def runLevel (priorities : RunPriorities) (total : Nat) :
    Nat → List (Metrics.Sample Value) → Option (RunTriple × Nat) → List (FoldedSample Value) → RunFold Value →
      Except QueryError (List (FoldedSample Value) × RunFold Value)
  | _, [], _, level, fold => .ok (level, fold)
  | pos, sample :: rest, last, level, fold =>
    match priorities.atPos pos with
    | none => .error (.prioritySampleCountMismatch (priorities.columnLen.getD 0) total)
    | some found => do
      let key : RunTriple := ⟨found.createdUnixNs, found.writerEpoch, found.writerSeq⟩
      let (id, fold) ← internNext last fold key
      let level ← pushFolded kind fold.prefixes level ⟨sample.tsNs, id, found.inPageIndex, sample.value⟩
      runLevel priorities total (pos + 1) rest (some (key, id)) level fold

/-- The levels of one series take a new level. -/
def pushInto (prefixes : List RunTriple) (seriesId : SeriesId) (level : List (FoldedSample Value)) :
    List (SeriesId × FoldedSeries Value) → List (SeriesId × FoldedSeries Value) × Nat
  | [] => ([], 0)
  | entry :: rest =>
    if entry.1 = seriesId then
      let pushed := pushLevel kind prefixes level entry.2.levels
      ((entry.1, ⟨entry.2.labels, pushed.1⟩) :: rest, pushed.2)
    else
      let pushed := pushInto prefixes seriesId level rest
      (entry :: pushed.1, pushed.2)

def RunFold.holds (fold : RunFold Value) (seriesId : SeriesId) : Bool :=
  fold.bySeries.any fun entry => entry.1 = seriesId

def absorbRun (fold : RunFold Value) (run : FoldRun SeriesId LabelSet Value) : Except QueryError (RunFold Value) :=
  if !fold.holds run.seriesId && decide (fold.maxSeries ≤ fold.bySeries.length) then
    .error (.tooManySeries (fold.bySeries.length + 1) fold.maxSeries)
  else do
    run.run.priorities.checkLen run.run.samples.length
    let (level, fold) ← runLevel kind run.run.priorities run.run.samples.length 0 run.run.samples none [] fold
    let fold := { fold with retained := fold.retained + (level.map (sampleLen kind)).sum }
    let fold :=
      if fold.holds run.seriesId then fold
      else { fold with
        retained := fold.retained + retainedSeriesLen run.labels
        bySeries := fold.bySeries ++ [(run.seriesId, ⟨run.labels, []⟩)] }
    let pushed := pushInto kind fold.prefixes run.seriesId level fold.bySeries
    return { fold with bySeries := pushed.1, retained := fold.retained - pushed.2 }

def RunFold.charged (fold : RunFold Value) : Nat :=
  fold.reservations.sum

/-- The answer of the shared budget to a reservation: nothing, or why it is refused. -/
abbrev Reserve := Nat → Option MemoryExhausted

def reserveRetained (reserve : Reserve) (fold : RunFold Value) : Except QueryError (RunFold Value) :=
  if fold.retained ≤ fold.charged then .ok fold
  else
    match reserve (fold.retained - fold.charged) with
    | some exhausted => .error (.fetchMemoryExhausted exhausted)
    | none => .ok { fold with reservations := fold.reservations ++ [fold.retained - fold.charged] }

/-- The runs of one object, then the bytes that they add. -/
def absorb (reserve : Reserve) (runs : List (FoldRun SeriesId LabelSet Value)) (fold : RunFold Value) :
    Except QueryError (RunFold Value) := do
  let fold ← runs.foldlM (absorbRun kind) fold
  reserveRetained reserve fold

/-- The objects in their order of completion, each with the budget as it is then. -/
def absorbAll (arrivals : List (Reserve × List (FoldRun SeriesId LabelSet Value))) (fold : RunFold Value) :
    Except QueryError (RunFold Value) :=
  arrivals.foldlM (fun fold arrival => absorb kind arrival.1 arrival.2 fold) fold

variable {Shown : Type} (convert : Value → Shown)

def finishFrom (prefixes : List RunTriple) (maxSamples : Nat) :
    Nat → List (SeriesId × FoldedSeries Value) → Except QueryError (List (LabelSet × List (Metrics.Sample Shown)))
  | _, [] => .ok []
  | total, entry :: rest =>
    let merged := collapseLevels kind prefixes entry.2.levels
    if maxSamples < total + merged.length then .error (.tooManySamples (maxSamples + 1) maxSamples)
    else do
      let later ← finishFrom prefixes maxSamples (total + merged.length) rest
      return (entry.2.labels, merged.map fun sample => ⟨sample.ts, convert sample.value⟩) :: later

def finish (maxSamples : Nat) (fold : RunFold Value) : Except QueryError (List (LabelSet × List (Metrics.Sample Shown))) :=
  finishFrom kind convert fold.prefixes maxSamples 0 fold.bySeries

/-- The runs of a pool by series, in order of arrival. -/
abbrev Groups (Value : Type) := List (SeriesId × LabelSet × List (SeriesRun Value))

def pushRun (run : FoldRun SeriesId LabelSet Value) : Groups Value → Groups Value
  | [] => [(run.seriesId, run.labels, [run.run])]
  | group :: rest =>
    if group.1 = run.seriesId then (group.1, group.2.1, group.2.2 ++ [run.run]) :: rest else group :: pushRun run rest

def groupRun (maxSeries : Nat) (groups : Groups Value) (run : FoldRun SeriesId LabelSet Value) :
    Except QueryError (Groups Value) :=
  if (!groups.any fun group => group.1 = run.seriesId) && decide (maxSeries ≤ groups.length) then
    .error (.tooManySeries (groups.length + 1) maxSeries)
  else .ok (pushRun run groups)

def mergeGroups : YieldBudget → Groups Value → Except QueryError (List (LabelSet × List (Metrics.Sample Shown)))
  | _, [] => .ok []
  | budget, group :: rest => do
    let (budget, samples) ← Metrics.mergeRunsBy kind.servesOver group.2.2 budget
    let later ← mergeGroups budget rest
    return (group.2.1, samples.map fun sample => ⟨sample.tsNs, convert sample.value⟩) :: later

/-- The merge of a whole pool: `merge_soa_runs`, and `merge_histogram_soa_runs` with its conversion. -/
def mergeSoaRuns (fetched : List (List (FoldRun SeriesId LabelSet Value))) (maxSeries maxSamples : Nat) :
    Except QueryError (List (LabelSet × List (Metrics.Sample Shown))) := do
  let groups ← fetched.flatten.foldlM (groupRun maxSeries) []
  mergeGroups kind convert ⟨0, maxSamples⟩ groups

end Folds

end Ravel.Promql.SampleFold
