/-
This file models the series metadata of a segment: schemas, label ordinals, the run-major columns and the provenance of samples.
-/

import Ravel.Construction.Segment.Sections

namespace Ravel.Segment

open Codec Logs

inductive ValueKind where
  | scalar
  | histogram
  deriving DecidableEq, Repr

structure RunEntry where
  createdUnixNs : Int64
  writerEpoch : UInt64
  writerSeq : UInt64
  sampleCount : Nat
  minTsNs : Int64
  maxTsNs : Int64
  tsPage : Nat × Nat
  valPage : Nat × Nat
  histPage : Nat × Nat
  deriving DecidableEq

structure SampleProvenance where
  createdUnixNs : Int64
  writerEpoch : UInt64
  writerSeq : UInt64
  inPageIndex : Nat
  deriving DecidableEq

/-- The name ordinals of a schema. -/
abbrev Schema := List UInt64

/-- Name ordinals whose strings ascend. -/
def readNameOrds (dict : List Bytes) : Nat → Option Bytes → Bytes → Except SegmentError (Schema × Bytes)
  | 0, _, bytes => .ok ([], bytes)
  | count + 1, previous, bytes => do
    let (ord, rest) ← readUvarint bytes
    match dict[ord.toNat]? with
    | none => throw (.badOrdinal ord.toNat)
    | some name =>
      if previous.any fun earlier => !decide (earlier < name) then throw .schemaNamesUnsorted
      else do
        let (ords, rest) ← readNameOrds dict count (some name) rest
        return (ord :: ords, rest)

def readSchema (dict : List Bytes) (bytes : Bytes) : Except SegmentError (Schema × Bytes) := do
  let (count, rest) ← readUvarint bytes
  if 65535 < count.toNat then throw (.schemaNameCountTooLarge count.toNat)
  else readNameOrds dict count.toNat none rest

/-- The series count and the schemas. -/
def parseSchemaList (dict : List Bytes) (bytes : Bytes) : Except SegmentError (Nat × List Schema × Bytes) := do
  let (count, rest) ← takeU32 bytes
  let (schemaCount, rest) ← takeU32 rest
  let (schemas, rest) ← readEach (fun _ => readSchema dict) (units schemaCount) rest
  return (count, schemas, rest)

def checkSeriesCounts (seriesIds seriesMeta footerCount : Nat) : Except SegmentError Unit :=
  if seriesIds ≠ seriesMeta ∨ seriesIds ≠ footerCount then
    .error (.seriesCountMismatch seriesIds seriesMeta footerCount)
  else .ok ()

def readSchemaRef (schemaCount : Nat) (bytes : Bytes) : Except SegmentError (Nat × Bytes) := do
  let (ref, rest) ← readUvarint bytes
  if ref.toNat < schemaCount then return (ref.toNat, rest) else throw (.schemaRefOutOfRange ref.toNat)

def parseSchemaRefBlock (count schemaCount : Nat) (bytes : Bytes) : Except SegmentError (List Nat × Bytes) :=
  blockOf (fun _ => readSchemaRef schemaCount) (units count) bytes

def readUvarints (count : Nat) (bytes : Bytes) : Except SegmentError (List UInt64 × Bytes) :=
  readEach (fun _ => readUvarint) (units count) bytes

/-- The schema of a reference. References are within the schemas. -/
def schemaAt (schemas : List Schema) (ref : Nat) : Schema :=
  (schemas[ref]?).getD []

/-- The value ordinals of every series, one series after another. -/
def parseValueOrdBlockAll (schemaRefs : List Nat) (schemas : List Schema) (bytes : Bytes) :
    Except SegmentError (List UInt64 × Bytes) := do
  let (values, rest) ← blockOf (fun ref => readUvarints (schemaAt schemas ref).length) schemaRefs bytes
  return (values.flatten, rest)

/-- The value ordinals of the series whose schema is plausible. Those of the others are read and not kept. -/
def readPlausible (schemas : List Schema) (likely : List Bool) (ref : Nat) (bytes : Bytes) :
    Except SegmentError (Option (List UInt64) × Bytes) := do
  let (values, rest) ← readUvarints (schemaAt schemas ref).length bytes
  return (if (likely[ref]?).getD false then some values else none, rest)

def parseValueOrdBlockSelective (schemaRefs : List Nat) (schemas : List Schema) (likely : List Bool) (bytes : Bytes) :
    Except SegmentError (List (Option (List UInt64)) × Bytes) :=
  blockOf (readPlausible schemas likely) schemaRefs bytes

/-- Ranges of a section by running sums of gaps and lengths. -/
def reconstructRanges (sectionLen : Nat) : Nat → List (UInt64 × UInt64) → Except SegmentError (List (Nat × Nat))
  | _, [] => .ok []
  | fromEnd, (gap, length) :: rest =>
    let offset := fromEnd + gap.toNat
    let newEnd := offset + length.toNat
    if 2 ^ 64 ≤ offset ∨ 2 ^ 64 ≤ newEnd ∨ sectionLen < newEnd then .error .sectionOutOfBounds
    else do
      let later ← reconstructRanges sectionLen newEnd rest
      return (offset, length.toNat) :: later

def valueKindOf (byte : UInt8) : Except SegmentError ValueKind :=
  if byte = 0 then .ok .scalar else if byte = 1 then .ok .histogram else .error (.invalidValueKind byte)

def readValueKind (bytes : Bytes) : Except SegmentError (ValueKind × Bytes) := do
  let (byte, rest) ← takeU8 bytes
  let kind ← valueKindOf byte
  return (kind, rest)

/-- A count of 32 bits that is not zero. -/
def positiveU32 (zero : SegmentError) (value : UInt64) : Except SegmentError Nat :=
  if 2 ^ 32 ≤ value.toNat then .error .fieldOverflow else if value = 0 then .error zero else .ok value.toNat

def readPositive (zero : SegmentError) (bytes : Bytes) : Except SegmentError (Nat × Bytes) := do
  let (value, rest) ← readUvarint bytes
  let count ← positiveU32 zero value
  return (count, rest)

/-- A timestamp at a distance from another. -/
def addDelta (base : Int64) (delta : UInt64) : Except SegmentError Int64 :=
  match ofIntChecked (base.toInt + delta.toNat) with
  | some ts => .ok ts
  | none => .error .provenanceBoundsOverflow

def readDelta (base : Int64) (bytes : Bytes) : Except SegmentError (Int64 × Bytes) := do
  let (delta, rest) ← readUvarint bytes
  let ts ← addDelta base delta
  return (ts, rest)

def checkRunTotalLiveBudget (runTotal liveBytesPerRun : Nat) (limits : ReaderLimits) : Except SegmentError Unit :=
  let liveBytes := runTotal * liveBytesPerRun
  if 2 ^ 64 ≤ liveBytes then .error .fieldOverflow
  else if limits.maxSectionUncompressedBytes < liveBytes then
    .error (.runTotalLiveBudgetExceeded runTotal liveBytes limits.maxSectionUncompressedBytes)
  else .ok ()

def runLiveBytesDense : Nat := 236
def runLiveBytesChunk : Nat := 240

def takeEncodedI64Block (count : Nat) (bytes : Bytes) : Except SegmentError (List Int64 × Bytes) := do
  let (block, rest) ← takeBlock bytes
  match block with
  | [] => throw (.provenanceColumnCodec "empty column block")
  | tag :: payload =>
    match Enc.fromU8 tag with
    | .error error => throw (.provenanceColumnCodec (codecErrorText error))
    | .ok enc =>
      match decodeI64 enc payload count with
      | .error error => throw (.provenanceColumnCodec (codecErrorText error))
      | .ok values => return (values, rest)

/-- The samples of the flagged runs after those counted, and whether a run is flagged. -/
def flaggedSamples : Nat → Bool → List (Int64 × Nat) → Except SegmentError (Nat × Bool)
  | total, anyPresent, [] => .ok (total, anyPresent)
  | total, anyPresent, (flag, samples) :: rest =>
    if flag = 0 then flaggedSamples total anyPresent rest
    else if flag = 1 then
      if 2 ^ 64 ≤ total + samples then .error .fieldOverflow else flaggedSamples (total + samples) true rest
    else .error (.invalidProvenancePresence (if flag < 0 then 2 ^ 64 - 1 else flag.toInt.toNat))

/-- The four columns of sample keys. -/
structure ProvenanceColumns where
  createdDelta : List Int64
  epoch : List Int64
  seq : List Int64
  inPageIndex : List Int64

def ProvenanceColumns.sampleAt (columns : ProvenanceColumns) (footer : Footer) (cursor : Nat) : Except SegmentError SampleProvenance :=
  match ofIntChecked (footer.baseCreatedUnixNs.toInt + ((columns.createdDelta[cursor]?).getD 0).toInt) with
  | none => .error .provenanceBoundsOverflow
  | some created =>
    let index := ((columns.inPageIndex[cursor]?).getD 0).toInt
    if index < 0 ∨ 2 ^ 32 ≤ index then .error .fieldOverflow
    else .ok ⟨created, ((columns.epoch[cursor]?).getD 0).toUInt64, ((columns.seq[cursor]?).getD 0).toUInt64, index.toNat⟩

/-- The keys of each flagged run, from a cursor on. -/
def provenanceRuns (columns : ProvenanceColumns) (footer : Footer) :
    Nat → List (Int64 × Nat) → Except SegmentError (List (Option (List SampleProvenance)))
  | _, [] => .ok []
  | cursor, (flag, samples) :: rest =>
    if flag = 0 then do
      let later ← provenanceRuns columns footer cursor rest
      return none :: later
    else do
      let column ← (List.range samples).mapM fun offset => columns.sampleAt footer (cursor + offset)
      let later ← provenanceRuns columns footer (cursor + samples) rest
      return some column :: later

/-- The optional extension of sample keys, for runs of the given sample counts. -/
def parseProvenance (footer : Footer) (limits : ReaderLimits) (sampleCounts : List Nat) (bytes : Bytes) :
    Except SegmentError (List (Option (List SampleProvenance)) × Bytes) := do
  let (presence, rest) ← takeEncodedI64Block sampleCounts.length bytes
  let (total, anyPresent) ← flaggedSamples 0 false (presence.zip sampleCounts)
  if !anyPresent then throw .emptyProvenanceExtension
  else if 2 ^ 64 ≤ total * 64 then throw .fieldOverflow
  else if limits.maxSectionUncompressedBytes < total * 64 then
    throw (.provenanceLiveBudgetExceeded (total * 64) limits.maxSectionUncompressedBytes)
  else do
    let (createdDelta, rest) ← takeEncodedI64Block total rest
    let (epoch, rest) ← takeEncodedI64Block total rest
    let (seq, rest) ← takeEncodedI64Block total rest
    let (inPageIndex, rest) ← takeEncodedI64Block total rest
    let runs ← provenanceRuns ⟨createdDelta, epoch, seq, inPageIndex⟩ footer 0 (presence.zip sampleCounts)
    return (runs, rest)

/-- The pages of runs agree with the kind of their series. -/
def checkRunPages : List (ValueKind × Nat) → List RunEntry → Except SegmentError Unit
  | [], _ => .ok ()
  | (kind, count) :: rest, runs => do
    (runs.take count).forM fun run =>
      match kind with
      | .scalar => if run.histPage.2 ≠ 0 then .error .scalarSeriesHasHistPage else .ok ()
      | .histogram =>
        if run.valPage.2 ≠ 0 then .error .histogramSeriesHasValPage
        else if run.histPage.2 = 0 then .error .zeroHistPageLen else .ok ()
    checkRunPages rest (runs.drop count)

/-- The columns of every run, in series then run order. -/
structure RunColumns where
  created : List Int64
  epoch : List UInt64
  seq : List UInt64
  sampleCount : List Nat
  minTsNs : List Int64
  maxTsNs : List Int64
  tsPage : List (Nat × Nat)
  valPage : List (Nat × Nat)
  histPage : List (Nat × Nat)

def RunColumns.run (columns : RunColumns) (index : Nat) : RunEntry where
  createdUnixNs := (columns.created[index]?).getD 0
  writerEpoch := (columns.epoch[index]?).getD 0
  writerSeq := (columns.seq[index]?).getD 0
  sampleCount := (columns.sampleCount[index]?).getD 0
  minTsNs := (columns.minTsNs[index]?).getD 0
  maxTsNs := (columns.maxTsNs[index]?).getD 0
  tsPage := (columns.tsPage[index]?).getD (0, 0)
  valPage := (columns.valPage[index]?).getD (0, 0)
  histPage := (columns.histPage[index]?).getD (0, 0)

structure SeriesMetaTail where
  valueKind : List ValueKind
  runCount : List Nat
  runs : List RunEntry
  perSampleProvenance : List (Option (List SampleProvenance))

/-- The columns after the label ordinals of the whole-section form. -/
def parseSeriesMetaTail (footer : Footer) (count runTotal : Nat) (limits : ReaderLimits) (bytes : Bytes) :
    Except SegmentError SeriesMetaTail := do
  let (valueKind, rest) ← blockOf (fun _ => readValueKind) (units count) bytes
  let (runCount, rest) ← blockOf (fun _ => readPositive .zeroRunCount) (units count) rest
  if runCount.sum ≠ runTotal then throw (.runCountSumMismatch runCount.sum runTotal)
  else do
    checkRunTotalLiveBudget runTotal runLiveBytesDense limits
    let (created, rest) ← blockOf (fun _ => readDelta footer.baseCreatedUnixNs) (units runTotal) rest
    let (epoch, rest) ← readUvarintBlock runTotal rest
    let (seq, rest) ← readUvarintBlock runTotal rest
    let (sampleCount, rest) ← blockOf (fun _ => readPositive .zeroSampleCount) (units runTotal) rest
    let (minTsNs, rest) ← blockOf (fun _ => readDelta footer.minEventTsNs) (units runTotal) rest
    let (maxTsNs, rest) ← blockOf readDelta minTsNs rest
    let tsSection ← needSection footer tsPagesKind (.missingSection "TS_PAGES")
    let (tsGap, rest) ← readUvarintBlock runTotal rest
    let (tsLen, rest) ← readUvarintBlock runTotal rest
    let tsPage ← reconstructRanges tsSection.len 0 (tsGap.zip tsLen)
    let (valGap, rest) ← readUvarintBlock runTotal rest
    let (valLen, rest) ← readUvarintBlock runTotal rest
    let valPage ← reconstructRanges (sectionLen footer valPagesKind) 0 (valGap.zip valLen)
    let (histGap, rest) ← readUvarintBlock runTotal rest
    let (histLen, rest) ← readUvarintBlock runTotal rest
    let histPage ← reconstructRanges (sectionLen footer histPagesKind) 0 (histGap.zip histLen)
    let (provenance, rest) ← if rest.isEmpty then pure ([], rest) else parseProvenance footer limits sampleCount rest
    if !rest.isEmpty then throw .trailingBytes
    else do
      let columns : RunColumns := ⟨created, epoch, seq, sampleCount, minTsNs, maxTsNs, tsPage, valPage, histPage⟩
      let runs := (List.range runTotal).map columns.run
      checkRunPages (valueKind.zip runCount) runs
      return ⟨valueKind, runCount, runs, provenance⟩

/-- The runs of one kind. -/
def runsOfKind (kind : ValueKind) (kinds : List (ValueKind × Nat)) : Nat :=
  ((kinds.filter fun entry => entry.1 = kind).map Prod.snd).sum

def checkValueKindPages (footer : Footer) (valueKind : List ValueKind) (runCount : List Nat) (runs : List RunEntry) :
    Except SegmentError Unit :=
  let scalarRuns := runsOfKind .scalar (valueKind.zip runCount)
  let histRuns := runsOfKind .histogram (valueKind.zip runCount)
  let valPages := (runs.filter fun run => run.valPage.2 ≠ 0).length
  let histPages := (runs.filter fun run => run.histPage.2 ≠ 0).length
  if scalarRuns = 0 ∧ (findSection footer valPagesKind).isSome then .error (.unexpectedSectionPresent "VAL_PAGES")
  else if histRuns = 0 ∧ (findSection footer histPagesKind).isSome then .error (.unexpectedSectionPresent "HIST_PAGES")
  else if scalarRuns ≠ valPages then .error (.valueKindPageCountMismatch "VAL_SCALAR" scalarRuns valPages)
  else if histRuns ≠ histPages then .error (.valueKindPageCountMismatch "HIST_SPANS" histRuns histPages)
  else .ok ()

end Ravel.Segment
