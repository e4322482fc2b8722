/-
This file models the runs of one metric series, the query engine's k-way merge of them, the fold of fetched runs into one
deduplicated sample list per series, and native-histogram values with their structural order.
-/

import Mathlib.Algebra.Order.Ring.Int
import Mathlib.Data.List.Lex
import Mathlib.Data.Prod.Lex
import Mathlib.Data.Sum.Order

namespace Ravel.Metrics

/-- The ordering tuple of one sample. -/
structure SamplePriority where
  createdUnixNs : Int
  writerEpoch : Nat
  writerSeq : Nat
  inPageIndex : Nat
  deriving DecidableEq, Repr

/-- One sample. A scalar value is the bit pattern of its `f64`. -/
structure Sample (Value : Type) where
  tsNs : Int
  value : Value
  deriving DecidableEq, Repr

/-- The run-wide part of a priority. -/
structure RunTriple where
  createdUnixNs : Int
  writerEpoch : Nat
  writerSeq : Nat
  deriving DecidableEq, Repr

def u32Max : Nat := 4294967295

/-- The source of a run's priorities: one triple and the position, or a column. -/
inductive RunPriorities where
  | runWide (triple : RunTriple)
  | perSample (column : List SamplePriority)
  deriving DecidableEq, Repr

inductive ExhaustionCause where
  | accounted
  | hostMemory (available floor : Nat)
  deriving DecidableEq, Repr

/-- A reservation that the memory budget refuses. -/
structure MemoryExhausted where
  requested : Nat
  reserved : Nat
  limit : Nat
  cause : ExhaustionCause
  deriving DecidableEq, Repr

inductive QueryError where
  | prioritySampleCountMismatch (priorities samples : Nat)
  | nonMonotonicSamples (prev next : Int)
  | tooManySamples (count max : Nat)
  | tooManySeries (count max : Nat)
  | fetchMemoryExhausted (exhausted : MemoryExhausted)
  deriving DecidableEq, Repr

namespace RunPriorities

/-- The priority of the sample at a position. -/
def atPos (priorities : RunPriorities) (pos : Nat) : Option SamplePriority :=
  match priorities with
  | .runWide triple =>
    some ⟨triple.createdUnixNs, triple.writerEpoch, triple.writerSeq, min pos u32Max⟩
  | .perSample column => column[pos]?

def columnLen : RunPriorities → Option Nat
  | .runWide _ => none
  | .perSample column => some column.length

def checkLen (priorities : RunPriorities) (samples : Nat) : Except QueryError Unit :=
  match priorities.columnLen with
  | none => .ok ()
  | some length =>
    if length = samples then .ok () else .error (.prioritySampleCountMismatch length samples)

end RunPriorities

/-- One decoded run in its stored order. The parallel arrays of the source are one list here. -/
structure SeriesRun (Value : Type) where
  samples : List (Sample Value)
  priorities : RunPriorities
  deriving DecidableEq, Repr

/-- A candidate for one timestamp. -/
structure Candidate (Value : Type) where
  value : Value
  priority : SamplePriority
  deriving DecidableEq, Repr

/-- The count of yielded samples against its cap. -/
structure YieldBudget where
  yielded : Nat
  max : Nat
  deriving DecidableEq, Repr

def YieldBudget.countOne (budget : YieldBudget) : Except QueryError YieldBudget :=
  let yielded := budget.yielded + 1
  if budget.max < yielded then .error (.tooManySamples yielded budget.max)
  else .ok { budget with yielded := yielded }

/-- A run in the heap: its index, its cursor, the sample at the cursor and the samples after it. -/
structure RunHead (Value : Type) where
  index : Nat
  pos : Nat
  priorities : RunPriorities
  total : Nat
  next : Sample Value
  rest : List (Sample Value)

variable {Value : Type}

/-- The heap order `(ts, run_idx)`. -/
def RunHead.before (left right : RunHead Value) : Bool :=
  decide (left.next.tsNs < right.next.tsNs) ||
    (decide (left.next.tsNs = right.next.tsNs) && decide (left.index ≤ right.index))

/-- The least head of the heap and the other heads. -/
def popMin : List (RunHead Value) → Option (RunHead Value × List (RunHead Value))
  | [] => none
  | head :: rest =>
    match popMin rest with
    | none => some (head, [])
    | some (least, others) =>
      if head.before least then some (head, least :: others) else some (least, head :: others)

/-- The greater of the best candidate so far and a new one. -/
def pickBest (greater : Candidate Value → Candidate Value → Bool) (best : Option (Candidate Value))
    (candidate : Candidate Value) : Candidate Value :=
  match best with
  | some current => if greater current candidate then current else candidate
  | none => candidate

/-- One run gives up its streak of samples at `ts`. The result is the best candidate, the new cursor and the
samples from it. -/
def drainRun (greater : Candidate Value → Candidate Value → Bool) (ts : Int) (priorities : RunPriorities)
    (total : Nat) (best : Option (Candidate Value)) (pos : Nat) :
    List (Sample Value) → Except QueryError (Option (Candidate Value) × Nat × List (Sample Value))
  | [] => .ok (best, pos, [])
  | sample :: rest =>
    if sample.tsNs = ts then
      match priorities.atPos pos with
      | none => .error (.prioritySampleCountMismatch (priorities.columnLen.getD 0) total)
      | some priority =>
        drainRun greater ts priorities total (some (pickBest greater best ⟨sample.value, priority⟩))
          (pos + 1) rest
    else .ok (best, pos, sample :: rest)

/-- The inner loop pops every head at `ts`. Each head is popped at most once, so the heap size bounds the loop. -/
def drainHeads (greater : Candidate Value → Candidate Value → Bool) (ts : Int) :
    Nat → Option (Candidate Value) → List (RunHead Value) →
      Except QueryError (Option (Candidate Value) × List (RunHead Value))
  | 0, best, heap => .ok (best, heap)
  | turns + 1, best, heap =>
    match popMin heap with
    | none => .ok (best, [])
    | some (head, others) =>
      if head.next.tsNs ≠ ts then .ok (best, head :: others)
      else
        match drainRun greater ts head.priorities head.total best head.pos (head.next :: head.rest) with
        | .error failure => .error failure
        | .ok (best, _, []) => drainHeads greater ts turns best others
        | .ok (best, pos, sample :: rest) =>
          if sample.tsNs < ts then .error (.nonMonotonicSamples ts sample.tsNs)
          else drainHeads greater ts turns best ({ head with pos := pos, next := sample, rest := rest } :: others)

/-- The outer loop yields one sample a turn. Each turn consumes a sample, so the sample count bounds the loop. -/
def mergeLoop (greater : Candidate Value → Candidate Value → Bool) :
    Nat → List (RunHead Value) → YieldBudget → List (Sample Value) →
      Except QueryError (YieldBudget × List (Sample Value))
  | 0, _, budget, out => .ok (budget, out)
  | turns + 1, heap, budget, out =>
    match popMin heap with
    | none => .ok (budget, out)
    | some (head, _) =>
      let ts := head.next.tsNs
      match drainHeads greater ts (heap.length + 1) none heap with
      | .error failure => .error failure
      | .ok (none, heap) => mergeLoop greater turns heap budget out
      | .ok (some candidate, heap) =>
        match budget.countOne with
        | .error failure => .error failure
        | .ok budget => mergeLoop greater turns heap budget (out ++ [⟨ts, candidate.value⟩])

/-- The heap entry of a run, if it has a sample. -/
def SeriesRun.head (run : SeriesRun Value) (index : Nat) : Option (RunHead Value) :=
  match run.samples with
  | [] => none
  | sample :: rest => some ⟨index, 0, run.priorities, run.samples.length, sample, rest⟩

/-- The merge of one series' runs under a candidate order. -/
def mergeRunsBy (greater : Candidate Value → Candidate Value → Bool) (runs : List (SeriesRun Value))
    (budget : YieldBudget) : Except QueryError (YieldBudget × List (Sample Value)) := do
  runs.forM fun run => run.priorities.checkLen run.samples.length
  mergeLoop greater ((runs.map fun run => run.samples.length).sum + 1)
    (runs.zipIdx.filterMap fun entry => entry.1.head entry.2) budget []

/-- The shared part of a dedup comparison. -/
def SamplePriority.compare (left right : SamplePriority) : Ordering :=
  (Ord.compare left.createdUnixNs right.createdUnixNs).then <|
    (Ord.compare left.writerEpoch right.writerEpoch).then <|
      (Ord.compare left.writerSeq right.writerSeq).then (Ord.compare left.inPageIndex right.inPageIndex)

/-- A scalar candidate is served over another. A full tie of the priorities is decided by the value bits. -/
def servesOver (left right : Candidate UInt64) : Bool :=
  (left.priority.compare right.priority).then (Ord.compare left.value.toNat right.value.toNat) == .gt

def isGreater (left right : Candidate UInt64) : Bool :=
  servesOver left right

def mergeSeriesRuns (runs : List (SeriesRun UInt64)) (budget : YieldBudget) :
    Except QueryError (YieldBudget × List (Sample UInt64)) :=
  mergeRunsBy isGreater runs budget

/-- One held sample: its timestamp, its value and its priority. -/
abbrev FoldedSample (Value : Type) := Int × Candidate Value

/-- One decoded run of a series. -/
structure FoldRun (Id Labels Value : Type) where
  seriesId : Id
  labels : Labels
  run : SeriesRun Value
  deriving DecidableEq

/-- The held samples of one series in sorted levels, the last pushed level first. -/
structure FoldedSeries (Labels Value : Type) where
  labels : Labels
  levels : List (List (FoldedSample Value))

/-- The folded series in order of arrival. -/
abbrev RunFold (Id Labels Value : Type) := List (Id × FoldedSeries Labels Value)

section Levels

variable {Value : Type} (servesOver : Candidate Value → Candidate Value → Bool)

/-- The walk over the second level while the first has `sample` at its front. -/
def mergeInto (sample : FoldedSample Value) (rest : List (FoldedSample Value))
    (later : List (FoldedSample Value) → List (FoldedSample Value)) : List (FoldedSample Value) → List (FoldedSample Value)
  | [] => sample :: rest
  | other :: others =>
    if sample.1 < other.1 then sample :: later (other :: others)
    else if other.1 < sample.1 then other :: mergeInto sample rest later others
    else (if servesOver sample.2 other.2 then sample else other) :: later others

/-- `merge_levels`: one sample per timestamp, the served one where both levels have it. -/
def mergeLevels : List (FoldedSample Value) → List (FoldedSample Value) → List (FoldedSample Value)
  | [], second => second
  | sample :: rest, second => mergeInto servesOver sample rest (mergeLevels rest) second

/-- One more sample of a run at the end of its level. -/
def pushFolded (level : List (FoldedSample Value)) (sample : FoldedSample Value) :
    Except QueryError (List (FoldedSample Value)) :=
  match level.getLast? with
  | none => .ok [sample]
  | some last =>
    if sample.1 < last.1 then .error (.nonMonotonicSamples last.1 sample.1)
    else if sample.1 = last.1 then
      .ok (if servesOver sample.2 last.2 then level.dropLast ++ [sample] else level)
    else .ok (level ++ [sample])

/-- The loop over the samples of a run from a position on. -/
def runLevel (priorities : RunPriorities) (total : Nat) :
    Nat → List (Sample Value) → List (FoldedSample Value) → Except QueryError (List (FoldedSample Value))
  | _, [], level => .ok level
  | pos, sample :: rest, level =>
    match priorities.atPos pos with
    | none => .error (.prioritySampleCountMismatch (priorities.columnLen.getD 0) total)
    | some priority => do
      let pushed ← pushFolded servesOver level (sample.tsNs, ⟨sample.value, priority⟩)
      runLevel priorities total (pos + 1) rest pushed

/-- A new level merges the levels that are at most twice as long. -/
def pushLevel : List (FoldedSample Value) → List (List (FoldedSample Value)) → List (List (FoldedSample Value))
  | level, [] => if level.isEmpty then [] else [level]
  | level, last :: rest =>
    if level.length * 2 < last.length then
      if level.isEmpty then last :: rest else level :: last :: rest
    else pushLevel (mergeLevels servesOver last level) rest

/-- All levels of a series as one. -/
def collapseLevels : List (List (FoldedSample Value)) → List (FoldedSample Value)
  | [] => []
  | last :: rest => rest.foldl (fun merged level => mergeLevels servesOver level merged) last

variable {Id Labels : Type} [DecidableEq Id]

/-- A level goes to its series. A new series takes the labels of the run. -/
def placeLevel (seriesId : Id) (labels : Labels) (level : List (FoldedSample Value)) :
    RunFold Id Labels Value → RunFold Id Labels Value
  | [] => [(seriesId, ⟨labels, pushLevel servesOver level []⟩)]
  | entry :: rest =>
    if entry.1 = seriesId then (entry.1, ⟨entry.2.labels, pushLevel servesOver level entry.2.levels⟩) :: rest
    else entry :: placeLevel seriesId labels level rest

def absorbRun (fold : RunFold Id Labels Value) (run : FoldRun Id Labels Value) :
    Except QueryError (RunFold Id Labels Value) := do
  run.run.priorities.checkLen run.run.samples.length
  let level ← runLevel servesOver run.run.priorities run.run.samples.length 0 run.run.samples []
  return placeLevel servesOver run.seriesId run.labels level fold

def absorb (runs : List (FoldRun Id Labels Value)) (fold : RunFold Id Labels Value) :
    Except QueryError (RunFold Id Labels Value) :=
  runs.foldlM (absorbRun servesOver) fold

/-- The merged series of a fold. -/
def RunFold.intoSeries (fold : RunFold Id Labels Value) : List (Labels × List (Sample Value)) :=
  fold.map fun entry =>
    (entry.2.labels, (collapseLevels servesOver entry.2.levels).map fun sample => ⟨sample.1, sample.2.value⟩)

end Levels

inductive ResetHint where
  | unknown
  | yes
  | no
  | gauge
  deriving DecidableEq, Repr

structure HistogramSpan where
  offset : Int
  length : Nat
  deriving DecidableEq, Repr

/-- Integer counts, or the bit patterns of float counts. -/
inductive HistogramCounts where
  | int (zeroCount count : UInt64) (positive negative : List UInt64)
  | float (zeroCount count : UInt64) (positive negative : List UInt64)
  deriving DecidableEq, Repr

/-- One histogram value. Every `f64` is its bit pattern. -/
structure HistogramValue where
  scale : Int
  zeroThreshold : UInt64
  sum : Option UInt64
  customValues : Option (List UInt64)
  positiveSpans : List HistogramSpan
  negativeSpans : List HistogramSpan
  counts : HistogramCounts
  resetHint : ResetHint
  deriving DecidableEq, Repr

/-- The order key of counts: zero count, count, positive and negative buckets. -/
abbrev CountsKey := Nat ×ₗ Nat ×ₗ List Nat ×ₗ List Nat

/-- The order key of spans. -/
abbrev SpansKey := List (Int ×ₗ Nat)

/-- The derived lexicographic order of the source's key: scale, zero threshold, sum, custom values, positive
spans, negative spans, counts with integers first, and the reset hint's rank. -/
abbrev HistogramSortKey :=
  Int ×ₗ Nat ×ₗ WithBot Nat ×ₗ WithBot (List Nat) ×ₗ SpansKey ×ₗ SpansKey ×ₗ (CountsKey ⊕ₗ CountsKey) ×ₗ Nat

def resetHintRank : ResetHint → Nat
  | .unknown => 0
  | .yes => 1
  | .no => 2
  | .gauge => 3

def spansSortKey (spans : List HistogramSpan) : SpansKey :=
  spans.map fun span => toLex (span.offset, span.length)

def countsKey (zeroCount count : UInt64) (positive negative : List UInt64) : CountsKey :=
  toLex (zeroCount.toNat, toLex (count.toNat, toLex (positive.map UInt64.toNat, negative.map UInt64.toNat)))

def countsSortKey : HistogramCounts → CountsKey ⊕ₗ CountsKey
  | .int zeroCount count positive negative => Sum.inlₗ (countsKey zeroCount count positive negative)
  | .float zeroCount count positive negative => Sum.inrₗ (countsKey zeroCount count positive negative)

/-- An absent value is below every present one. -/
def optionKey {Value Key : Type} (key : Value → Key) : Option Value → WithBot Key
  | none => ⊥
  | some value => (key value : WithBot Key)

def histogramSortKey (value : HistogramValue) : HistogramSortKey :=
  toLex (value.scale, toLex (value.zeroThreshold.toNat, toLex (optionKey UInt64.toNat value.sum,
    toLex (optionKey (List.map UInt64.toNat) value.customValues, toLex (spansSortKey value.positiveSpans,
      toLex (spansSortKey value.negativeSpans, toLex (countsSortKey value.counts, resetHintRank value.resetHint)))))))

/-- A priority as its lexicographic tuple. -/
def SamplePriority.key (priority : SamplePriority) : Int ×ₗ Nat ×ₗ Nat ×ₗ Nat :=
  toLex (priority.createdUnixNs, toLex (priority.writerEpoch, toLex (priority.writerSeq, priority.inPageIndex)))

/-- A histogram candidate is served over another. A full tie of the priorities is decided by the structure. -/
def histogramIsGreater (left right : Candidate HistogramValue) : Bool :=
  decide (toLex (right.priority.key, histogramSortKey right.value) <
    (toLex (left.priority.key, histogramSortKey left.value) :
      (Int ×ₗ Nat ×ₗ Nat ×ₗ Nat) ×ₗ HistogramSortKey))

def mergeHistogramSeriesRuns (runs : List (SeriesRun HistogramValue)) (budget : YieldBudget) :
    Except QueryError (YieldBudget × List (Sample HistogramValue)) :=
  mergeRunsBy histogramIsGreater runs budget

end Ravel.Metrics
