/-
This file models the metrics compactor: the merge of a series' runs into one run and the split into parts.
-/

import Mathlib.Data.List.Sort
import Ravel.Construction.Metrics.SeriesRuns
import Ravel.Library.SortedGroups

namespace Ravel.Metrics

open SortedGroups

/-- A series id as the number its sixteen big-endian bytes spell. -/
abbrev SeriesId := Nat

abbrev LabelSet := List (String × String)

/-- The `Invariant` failures of the compactor. -/
inductive MaintainError where
  | lengthMismatch
  | sampleIndexExceedsU32
  | mixedValueKinds (seriesId : SeriesId)
  | noRuns (seriesId : SeriesId)
  | exemplarConservation (total assigned : Nat) (orphaned : List SeriesId)
  deriving DecidableEq, Repr

/-- One input run: the dedup triple of its commit record and its decoded pages. -/
structure RunPlan (Value : Type) where
  triple : RunTriple
  samples : List (Sample Value)
  deriving DecidableEq, Repr

/-- One written run. Only a run-merged run has a provenance column. -/
structure RunOutput (Value : Type) where
  triple : RunTriple
  samples : List (Sample Value)
  provenance : Option (List SamplePriority)
  deriving DecidableEq, Repr

/-- The runs of a series, all of its value kind. -/
inductive KindRuns (Run : Type → Type) where
  | scalar (runs : List (Run UInt64))
  | histogram (runs : List (Run HistogramValue))

structure SeriesPlan where
  seriesId : SeriesId
  labels : LabelSet
  runs : KindRuns RunPlan

/-- One exemplar. The writer copies every field. -/
structure Exemplar where
  seriesId : SeriesId
  tsNs : Int
  value : UInt64
  traceId : List UInt8
  spanId : List UInt8
  attrs : List (String × String)
  deriving DecidableEq, Repr

structure InputCatalog where
  objectKey : String
  series : List SeriesPlan
  exemplars : List Exemplar

/-- The query reads an input run with its run-wide triple. -/
def RunPlan.served {Value : Type} (run : RunPlan Value) : SeriesRun Value :=
  ⟨run.samples, .runWide run.triple⟩

/-- The query reads a written run with its column if it has one, else with its run-wide triple. -/
def RunOutput.served {Value : Type} (run : RunOutput Value) : SeriesRun Value :=
  match run.provenance with
  | some column => ⟨run.samples, .perSample column⟩
  | none => ⟨run.samples, .runWide run.triple⟩

/-- The dedup key of a sample: its run's triple and its position in the page. -/
def sampleProvenance (triple : RunTriple) (inPageIndex : Nat) : Except MaintainError SamplePriority :=
  if inPageIndex ≤ u32Max then
    .ok ⟨triple.createdUnixNs, triple.writerEpoch, triple.writerSeq, inPageIndex⟩
  else .error .sampleIndexExceedsU32

variable {Value : Type}

/-- The samples of one run from a position on, each with its dedup key. -/
def tagSamples (triple : RunTriple) : Nat → List (Sample Value) →
    Except MaintainError (List (Sample Value × SamplePriority))
  | _, [] => .ok []
  | inPageIndex, sample :: rest => do
    let provenance ← sampleProvenance triple inPageIndex
    let tagged ← tagSamples triple (inPageIndex + 1) rest
    return (sample, provenance) :: tagged

/-- The samples of every run, in canonical input order. -/
def tagRuns : List (RunPlan Value) → Except MaintainError (List (Sample Value × SamplePriority))
  | [] => .ok []
  | run :: rest => do
    let first ← tagSamples run.triple 0 run.samples
    let others ← tagRuns rest
    return first ++ others

/-- The order `(ts_ns, dedup key, value bits)` of merged scalar samples. -/
def scalarOrderKey (entry : Sample UInt64 × SamplePriority) : Int ×ₗ (Int ×ₗ Nat ×ₗ Nat ×ₗ Nat) ×ₗ Nat :=
  toLex (entry.1.tsNs, toLex (entry.2.key, entry.1.value.toNat))

/-- The order `(ts_ns, dedup key)` of merged histogram samples. -/
def histogramOrderKey (entry : Sample HistogramValue × SamplePriority) : Int ×ₗ (Int ×ₗ Nat ×ₗ Nat ×ₗ Nat) :=
  toLex (entry.1.tsNs, entry.2.key)

/-- The stable sort of merged scalar samples. -/
def sortMergedScalar (merged : List (Sample UInt64 × SamplePriority)) : List (Sample UInt64 × SamplePriority) :=
  merged.insertionSort fun left right => scalarOrderKey left ≤ scalarOrderKey right

/-- The stable sort of merged histogram samples. -/
def sortMergedHistogram (merged : List (Sample HistogramValue × SamplePriority)) :
    List (Sample HistogramValue × SamplePriority) :=
  merged.insertionSort fun left right => histogramOrderKey left ≤ histogramOrderKey right

/-- The lexicographically smaller of two triples. -/
def RunTriple.least (left right : RunTriple) : RunTriple :=
  if toLex (left.createdUnixNs, toLex (left.writerEpoch, left.writerSeq)) ≤
      (toLex (right.createdUnixNs, toLex (right.writerEpoch, right.writerSeq)) : Int ×ₗ Nat ×ₗ Nat)
  then left else right

def SamplePriority.triple (priority : SamplePriority) : RunTriple :=
  ⟨priority.createdUnixNs, priority.writerEpoch, priority.writerSeq⟩

/-- The run-wide triple of a merged run: the least triple of its samples. -/
def mergedRunPrefix (provenance : List SamplePriority) : RunTriple :=
  match provenance with
  | [] => ⟨0, 0, 0⟩
  | first :: rest => (rest.map SamplePriority.triple).foldl RunTriple.least first.triple

/-- The merge of tagged samples into one run with its provenance column. -/
def mergedRun (sort : List (Sample Value × SamplePriority) → List (Sample Value × SamplePriority))
    (runs : List (RunPlan Value)) : Except MaintainError (RunOutput Value) := do
  let merged := sort (← tagRuns runs)
  let provenance := merged.map Prod.snd
  return ⟨mergedRunPrefix provenance, merged.map Prod.fst, some provenance⟩

def mergeScalarRuns (runs : List (RunPlan UInt64)) : Except MaintainError (RunOutput UInt64) :=
  mergedRun sortMergedScalar runs

def mergeHistogramRuns (runs : List (RunPlan HistogramValue)) : Except MaintainError (RunOutput HistogramValue) :=
  mergedRun sortMergedHistogram runs

/-- The runs of one series over all inputs, with the labels of its first plan. -/
structure SeriesBuild where
  seriesId : SeriesId
  labels : LabelSet
  runs : KindRuns RunPlan

structure SeriesOutput where
  seriesId : SeriesId
  labels : LabelSet
  runs : KindRuns RunOutput

/-- The runs of two plans of one series. Different kinds have no join. -/
def KindRuns.join? {Run : Type → Type} : KindRuns Run → KindRuns Run → Option (KindRuns Run)
  | .scalar first, .scalar second => some (.scalar (first ++ second))
  | .histogram first, .histogram second => some (.histogram (first ++ second))
  | _, _ => none

/-- The contributions of one series, joined in canonical input order. -/
def joinContributions (seriesId : SeriesId) (runs : KindRuns RunPlan) :
    List SeriesPlan → Except MaintainError (KindRuns RunPlan)
  | [] => .ok runs
  | plan :: rest =>
    match runs.join? plan.runs with
    | none => .error (.mixedValueKinds seriesId)
    | some joined => joinContributions seriesId joined rest

/-- The build plans of the groups, in ascending series order. -/
def seriesBuilds : List (SeriesId × List SeriesPlan) → Except MaintainError (List SeriesBuild)
  | [] => .ok []
  | (_, []) :: rest => seriesBuilds rest
  | (seriesId, first :: others) :: rest => do
    let runs ← joinContributions seriesId first.runs others
    let builds ← seriesBuilds rest
    return ⟨seriesId, first.labels, runs⟩ :: builds

/-- A run that is copied verbatim. -/
def RunPlan.copy (run : RunPlan Value) : RunOutput Value :=
  ⟨run.triple, run.samples, none⟩

/-- A single run is copied, and two or more runs are merged. -/
def materializeSeries (build : SeriesBuild) : Except MaintainError SeriesOutput :=
  match build.runs with
  | .scalar [] => .error (.noRuns build.seriesId)
  | .histogram [] => .error (.noRuns build.seriesId)
  | .scalar [only] => .ok ⟨build.seriesId, build.labels, .scalar [only.copy]⟩
  | .histogram [only] => .ok ⟨build.seriesId, build.labels, .histogram [only.copy]⟩
  | .scalar runs => (mergeScalarRuns runs).map fun run => ⟨build.seriesId, build.labels, .scalar [run]⟩
  | .histogram runs => (mergeHistogramRuns runs).map fun run => ⟨build.seriesId, build.labels, .histogram [run]⟩

/-- The stored page bytes of a written run, which the page encoder decides. -/
structure PageSizes where
  scalar : RunOutput UInt64 → Nat
  histogram : RunOutput HistogramValue → Nat

def saturatingAdd (left right : Nat) : Nat :=
  min (left + right) (2 ^ 64 - 1)

def saturatingMul (left right : Nat) : Nat :=
  min (left * right) (2 ^ 64 - 1)

def storedPartFixedBytes : Nat := 512

def storedSeriesFixedBytes : Nat := 48

def storedRunFixedBytes : Nat := 24

def storedProvenanceSampleBytes : Nat := 4

def storedDictEntryBytes : Nat := 2

def storedExemplarFixedBytes : Nat := 40

def storedExemplarAttrBytes : Nat := 4

/-- The estimated stored size of the pending part. A dictionary string is charged once a part. -/
structure PartSizeEstimate where
  bytes : Nat
  chargedDict : List String
  deriving DecidableEq, Repr

namespace PartSizeEstimate

def new : PartSizeEstimate := ⟨storedPartFixedBytes, []⟩

def charge (estimate : PartSizeEstimate) (bytes : Nat) : PartSizeEstimate :=
  { estimate with bytes := saturatingAdd estimate.bytes bytes }

def chargeDictString (estimate : PartSizeEstimate) (text : String) : PartSizeEstimate :=
  if text ∈ estimate.chargedDict then estimate
  else
    let charged := (estimate.charge text.utf8ByteSize).charge storedDictEntryBytes
    { charged with chargedDict := text :: charged.chargedDict }

def chargePair (estimate : PartSizeEstimate) (pair : String × String) : PartSizeEstimate :=
  (estimate.chargeDictString pair.1).chargeDictString pair.2

def pushRun (pageBytes : RunOutput Value → Nat) (estimate : PartSizeEstimate) (run : RunOutput Value) :
    PartSizeEstimate :=
  let charged := (estimate.charge storedRunFixedBytes).charge (pageBytes run)
  match run.provenance with
  | some column => charged.charge (saturatingMul column.length storedProvenanceSampleBytes)
  | none => charged

def pushSeries (sizes : PageSizes) (estimate : PartSizeEstimate) (series : SeriesOutput) : PartSizeEstimate :=
  let labelled := series.labels.foldl chargePair (estimate.charge storedSeriesFixedBytes)
  match series.runs with
  | .scalar runs => runs.foldl (pushRun sizes.scalar) labelled
  | .histogram runs => runs.foldl (pushRun sizes.histogram) labelled

def pushExemplar (estimate : PartSizeEstimate) (record : Exemplar) : PartSizeEstimate :=
  record.attrs.foldl chargePair ((estimate.charge storedExemplarFixedBytes).charge
    (saturatingMul record.attrs.length storedExemplarAttrBytes))

end PartSizeEstimate

/-- One output part: a contiguous run of series and their exemplars. -/
structure BuiltPart where
  partIndex : Nat
  series : List SeriesOutput
  exemplars : List Exemplar

/-- The rolling state of the part loop. -/
structure PartsState where
  parts : List BuiltPart
  pending : List SeriesOutput
  pendingExemplars : List Exemplar
  estimate : PartSizeEstimate
  exemplarsBySeries : List (SeriesId × List Exemplar)
  exemplarsAssigned : Nat

/-- The pending series become a part. The part index is the number of parts before it. -/
def PartsState.flush (state : PartsState) : PartsState :=
  { state with
    parts := state.parts ++ [⟨state.parts.length, state.pending, state.pendingExemplars⟩]
    pending := []
    pendingExemplars := []
    estimate := .new }

/-- One series joins the pending part together with its exemplars. A full part is flushed. -/
def PartsState.addSeries (sizes : PageSizes) (maxL1PartBytes : Nat) (state : PartsState) (series : SeriesOutput) :
    PartsState :=
  let records := lookup series.seriesId state.exemplarsBySeries
  let added : PartsState :=
    { state with
      pending := state.pending ++ [series]
      pendingExemplars := state.pendingExemplars ++ records
      estimate := records.foldl PartSizeEstimate.pushExemplar (state.estimate.pushSeries sizes series)
      exemplarsBySeries := remove series.seriesId state.exemplarsBySeries
      exemplarsAssigned := state.exemplarsAssigned + records.length }
  if maxL1PartBytes ≤ added.estimate.bytes then added.flush else added

/-- The loop over the build plans in ascending series order. -/
def partsLoop (sizes : PageSizes) (maxL1PartBytes : Nat) (state : PartsState) :
    List SeriesBuild → Except MaintainError PartsState
  | [] => .ok state
  | build :: rest => do
    let series ← materializeSeries build
    partsLoop sizes maxL1PartBytes (state.addSeries sizes maxL1PartBytes series) rest

/-- Every exemplar of the inputs, keyed by its series. -/
def catalogExemplars (catalogs : List InputCatalog) : List (SeriesId × Exemplar) :=
  catalogs.flatMap fun catalog => catalog.exemplars.map fun record => (record.seriesId, record)

/-- Every series plan of the inputs, keyed by its series. -/
def catalogPlans (catalogs : List InputCatalog) : List (SeriesId × SeriesPlan) :=
  catalogs.flatMap fun catalog => catalog.series.map fun plan => (plan.seriesId, plan)

/-- The state before the first series. -/
def PartsState.start (catalogs : List InputCatalog) : PartsState :=
  ⟨[], [], [], .new, groupAll (catalogExemplars catalogs), 0⟩

/-- The tail part holds whatever is still pending. -/
def PartsState.finish (state : PartsState) : PartsState :=
  if state.pending.isEmpty then state else state.flush

/-- The compactor's merge of all inputs into parts. -/
def buildParts (sizes : PageSizes) (maxL1PartBytes : Nat) (inputCount : Nat) (catalogs : List InputCatalog) :
    Except MaintainError (List BuiltPart) := do
  if inputCount ≠ catalogs.length then throw .lengthMismatch
  else
    let exemplarTotal := (catalogExemplars catalogs).length
    let builds ← seriesBuilds (groupAll (catalogPlans catalogs))
    let looped ← partsLoop sizes maxL1PartBytes (.start catalogs) builds
    let final := looped.finish
    if final.exemplarsAssigned ≠ exemplarTotal then
      throw (.exemplarConservation exemplarTotal final.exemplarsAssigned (final.exemplarsBySeries.map Prod.fst))
    else return final.parts

end Ravel.Metrics
