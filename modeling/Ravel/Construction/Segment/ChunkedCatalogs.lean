/-
This file models the chunked catalog of a segment: the sparse index, the frames of series metadata, and their decoder with wanted labels.
-/

import Ravel.Construction.Segment.Catalogs
import Ravel.Library.PartitionPoints

namespace Ravel.Segment

open Codec Logs

def sparseIndexVersion : UInt8 := 1

structure SparseEntry where
  id : Bytes
  idsOffset : Nat
  windowLen : Nat
  windowCrc32c : Nat

structure ChunkDirEntry where
  frameOffset : Nat
  frameStoredLen : Nat
  frameUncompressedLen : Nat
  firstIndex : Nat
  n : Nat
  frameCrc32c : Nat

structure SparseIdIndex where
  stride : Nat
  seriesCount : Nat
  entries : List SparseEntry
  chunkStride : Nat
  chunks : List ChunkDirEntry

def divCeil (count stride : Nat) : Nat :=
  (count + stride - 1) / stride

/-- What the entry at a position covers when entries are a stride apart. The last one covers the remainder. -/
def coveredCount (stride seriesCount position entryCount : Nat) : Nat :=
  if position + 1 = entryCount then seriesCount - position * stride else stride

def checkSparse (holds : Bool) (text : String) : Except SegmentError Unit :=
  if holds then .ok () else .error (.badSparseIndex text)

/-- The last `left` sparse ids of a directory. -/
def readSparseEntries (stride seriesCount sparseCount : Nat) :
    Nat → Option Bytes → Bytes → Except SegmentError (List SparseEntry × Bytes)
  | 0, _, bytes => .ok ([], bytes)
  | left + 1, previous, bytes => do
    let position := sparseCount - (left + 1)
    let (id, rest) ← takeBytes 16 bytes
    if previous.any fun earlier => !decide (earlier < id) then throw .seriesIdsUnsorted
    else do
      let (idsOffset, rest) ← takeU64 rest
      let (windowLen, rest) ← takeU64 rest
      let (windowCrc32c, rest) ← takeU32 rest
      checkSparse (idsOffset = 4 + position * stride * 16) "ids_offset does not match its expected formula"
      checkSparse (windowLen = coveredCount stride seriesCount position sparseCount * 16)
        "window_len does not match the id count it should cover"
      let (entries, rest) ← readSparseEntries stride seriesCount sparseCount left (some id) rest
      return (⟨id, idsOffset, windowLen, windowCrc32c⟩ :: entries, rest)

/-- The last `left` chunks of a directory. -/
def readChunkDir (chunkStride seriesCount chunkCount : Nat) : Nat → Bytes → Except SegmentError (List ChunkDirEntry × Bytes)
  | 0, bytes => .ok ([], bytes)
  | left + 1, bytes => do
    let position := chunkCount - (left + 1)
    let (frameOffset, rest) ← takeU64 bytes
    let (frameStoredLen, rest) ← takeU64 rest
    let (frameUncompressedLen, rest) ← takeU64 rest
    let (firstIndex, rest) ← takeU32 rest
    let (n, rest) ← takeU32 rest
    let (frameCrc32c, rest) ← takeU32 rest
    checkSparse (firstIndex = position * chunkStride) "chunk first_index does not match the dense stride chain"
    checkSparse (n = coveredCount chunkStride seriesCount position chunkCount)
      "chunk n does not match chunk_stride (or the final remainder)"
    let (chunks, rest) ← readChunkDir chunkStride seriesCount chunkCount left rest
    return (⟨frameOffset, frameStoredLen, frameUncompressedLen, firstIndex, n, frameCrc32c⟩ :: chunks, rest)

def parseSeriesIdx (bytes : Bytes) : Except SegmentError SparseIdIndex := do
  let (version, rest) ← takeU8 bytes
  if version ≠ sparseIndexVersion then throw (.unsupportedSparseIndexVersion version)
  else do
    -- Flags and two reserved bytes carry no meaning.
    let (_, rest) ← takeBytes 3 rest
    let (stride, rest) ← takeU32 rest
    if stride = 0 then throw .zeroStride
    else do
      let (seriesCount, rest) ← takeU32 rest
      let (sparseCount, rest) ← takeU32 rest
      checkSparse (sparseCount = divCeil seriesCount stride) "sparse_count does not match series_count/stride"
      let (entries, rest) ← readSparseEntries stride seriesCount sparseCount sparseCount none rest
      let (chunkStride, rest) ← takeU32 rest
      if chunkStride = 0 then throw .zeroStride
      else do
        let (chunkCount, rest) ← takeU32 rest
        checkSparse (chunkCount = divCeil seriesCount chunkStride) "chunk_count does not match series_count/chunk_stride"
        let (chunks, rest) ← readChunkDir chunkStride seriesCount chunkCount chunkCount rest
        if rest.isEmpty then return ⟨stride, seriesCount, entries, chunkStride, chunks⟩ else throw .trailingBytes

/-- The columns of one frame. -/
structure ChunkFrame where
  n : Nat
  valueKind : List ValueKind
  runCount : List Nat
  schemaRef : List Nat
  valueOrd : List UInt64
  runs : List RunEntry
  provenance : List (Option (List SampleProvenance))

def narrowU32 (value : UInt64) : Except SegmentError Nat :=
  if 2 ^ 32 ≤ value.toNat then .error .fieldOverflow else .ok value.toNat

/-- The varints of a block up to its end. Each takes a byte or more, so that the length bounds their count. -/
def readUvarintsToEnd : Nat → Bytes → Except SegmentError (List UInt64)
  | 0, _ => .ok []
  | fuel + 1, bytes =>
    if bytes.isEmpty then .ok []
    else do
      let (value, rest) ← readUvarint bytes
      let values ← readUvarintsToEnd fuel rest
      return value :: values

def valueOrdBlockToFlat (block : Bytes) : Except SegmentError (List UInt64) :=
  readUvarintsToEnd block.length block

/-- The columns of every run of a frame as they are stored, with their pages. -/
structure StoredRunColumns where
  createdDelta : List UInt64
  epoch : List UInt64
  seq : List UInt64
  sampleCount : List UInt64
  minTsDelta : List UInt64
  tsSpan : List UInt64
  tsPage : List (Nat × Nat)
  valPage : List (Nat × Nat)
  histPage : List (Nat × Nat)

def StoredRunColumns.run (columns : StoredRunColumns) (footer : Footer) (index : Nat) : Except SegmentError RunEntry := do
  let created ← addDelta footer.baseCreatedUnixNs ((columns.createdDelta[index]?).getD 0)
  let minTsNs ← addDelta footer.minEventTsNs ((columns.minTsDelta[index]?).getD 0)
  let maxTsNs ← addDelta minTsNs ((columns.tsSpan[index]?).getD 0)
  let sampleCount ← positiveU32 .zeroSampleCount ((columns.sampleCount[index]?).getD 0)
  return {
    createdUnixNs := created
    writerEpoch := (columns.epoch[index]?).getD 0
    writerSeq := (columns.seq[index]?).getD 0
    sampleCount
    minTsNs
    maxTsNs
    tsPage := (columns.tsPage[index]?).getD (0, 0)
    valPage := (columns.valPage[index]?).getD (0, 0)
    histPage := (columns.histPage[index]?).getD (0, 0) }

/-- The counts of runs of a frame. None is zero and they sum to the frame's total. -/
def checkRunCounts (runTotal : Nat) (runCount : List Nat) : Except SegmentError Unit :=
  if 0 ∈ runCount then .error .zeroRunCount
  else if runCount.sum ≠ runTotal then .error (.runCountSumMismatch runCount.sum runTotal)
  else .ok ()

/-- One frame of series metadata. Its label ordinals are read to the end of their block. -/
def decodeChunkFrame (frame : Bytes) (footer : Footer) (limits : ReaderLimits) : Except SegmentError ChunkFrame := do
  let (n, rest) ← takeU32 frame
  let (runTotal, rest) ← takeU32 rest
  checkRunTotalLiveBudget runTotal runLiveBytesChunk limits
  let (tsBase, rest) ← readUvarint rest
  let (valBase, rest) ← readUvarint rest
  let (histBase, rest) ← readUvarint rest
  let (refs, rest) ← readUvarintBlock n rest
  let schemaRef ← refs.mapM narrowU32
  let (valueOrdBlock, rest) ← takeBlock rest
  let (kindBlock, rest) ← takeBlock rest
  if kindBlock.length ≠ n then throw .badBlockLen
  else do
    let valueKind ← kindBlock.mapM valueKindOf
    let (counts, rest) ← readUvarintBlock n rest
    let runCount ← counts.mapM narrowU32
    checkRunCounts runTotal runCount
    let (createdDelta, rest) ← readUvarintBlock runTotal rest
    let (epoch, rest) ← readUvarintBlock runTotal rest
    let (seq, rest) ← readUvarintBlock runTotal rest
    let (sampleCount, rest) ← readUvarintBlock runTotal rest
    let (minTsDelta, rest) ← readUvarintBlock runTotal rest
    let (tsSpan, rest) ← readUvarintBlock runTotal rest
    let (tsGap, rest) ← readUvarintBlock runTotal rest
    let (tsLen, rest) ← readUvarintBlock runTotal rest
    let (valGap, rest) ← readUvarintBlock runTotal rest
    let (valLen, rest) ← readUvarintBlock runTotal rest
    let (histGap, rest) ← readUvarintBlock runTotal rest
    let (histLen, rest) ← readUvarintBlock runTotal rest
    let (provenance, rest) ←
      if rest.isEmpty then pure ([], rest) else parseProvenance footer limits (sampleCount.map UInt64.toNat) rest
    if !rest.isEmpty then throw .trailingBytes
    else do
      let tsPage ← reconstructRanges (sectionLen footer tsPagesKind) tsBase.toNat (tsGap.zip tsLen)
      let valPage ← reconstructRanges (sectionLen footer valPagesKind) valBase.toNat (valGap.zip valLen)
      let histPage ← reconstructRanges (sectionLen footer histPagesKind) histBase.toNat (histGap.zip histLen)
      let columns : StoredRunColumns :=
        ⟨createdDelta, epoch, seq, sampleCount, minTsDelta, tsSpan, tsPage, valPage, histPage⟩
      let runs ← (List.range runTotal).mapM (columns.run footer)
      checkRunPages (valueKind.zip runCount) runs
      let valueOrd ← valueOrdBlockToFlat valueOrdBlock
      return { n, valueKind, runCount, schemaRef, valueOrd, runs, provenance }

/-- The stored frame of a chunk, verified, decompressed and decoded. -/
def readChunk (primitives : SectionPrimitives) (footer : Footer) (limits : ReaderLimits) (chunkBytes : Bytes)
    (chunk : ChunkDirEntry) : Except SegmentError ChunkFrame :=
  if chunkBytes.length < chunk.frameOffset + chunk.frameStoredLen then .error .sectionOutOfBounds
  else
    let stored := (chunkBytes.drop chunk.frameOffset).take chunk.frameStoredLen
    if (primitives.crc32c stored).toNat ≠ chunk.frameCrc32c then .error .chunkCrcMismatch
    else if limits.maxSectionUncompressedBytes < chunk.frameUncompressedLen then
      .error (.sectionTooLarge chunk.frameUncompressedLen limits.maxSectionUncompressedBytes)
    else do
      let raw ← (primitives.zstdDecompress stored chunk.frameUncompressedLen).mapError .decompress
      let frame ← decodeChunkFrame raw footer limits
      if frame.n ≠ chunk.n then throw .badChunkFrame else return frame

/-- The ordinals from one on ascend with their bytes. -/
def sortedAfterFirst (dict : List Bytes) : Bool :=
  (List.range' 1 (dict.length - 1 - 1)).all fun index => dict.getD index [] < dict.getD (index + 1) []

/-- The ordinal of a text: the first one directly, the others by halving when they ascend, else one by one. -/
def resolveText (dict : List Bytes) (text : String) : Option UInt64 :=
  let needle := utf8Bytes text
  if dict.head? = some needle then some 0
  else if sortedAfterFirst dict then (Library.halvingFind (fun index => dict.getD index []) needle 1 dict.length).map UInt64.ofNat
  else ((List.range' 1 (dict.length - 1)).find? fun index => dict.getD index [] = needle).map UInt64.ofNat

/-- The ordinals of the wanted pairs, unless a text is not in the dictionary. -/
def resolveEquals (dict : List Bytes) (equals : List (String × String)) : Option (List (UInt64 × UInt64)) :=
  equals.mapM fun pair => do
    let name ← resolveText dict pair.1
    let value ← resolveText dict pair.2
    return (name, value)

/-- The four sections of a chunked catalog. -/
structure ChunkedSections where
  labelDict : Section
  seriesIds : Section
  seriesIdx : Section
  metaChunks : Section

def chunkedSections (footer : Footer) : Except SegmentError ChunkedSections := do
  let labelDict ← needSection footer labelDictKind (.missingSection "LABEL_DICT")
  let seriesIds ← needSection footer seriesIdsKind (.missingSection "SERIES_IDS")
  let seriesIdx ← needSection footer seriesIdxKind .sparseSectionsIncomplete
  let metaChunks ← needSection footer seriesMetaChunksKind .sparseSectionsIncomplete
  return ⟨labelDict, seriesIds, seriesIdx, metaChunks⟩

/-- Whether the dictionary has every wanted text. -/
def labelDictHoldsAll (primitives : SectionPrimitives) (footer : Footer) (labelDictStored : Bytes)
    (equals : List (String × String)) (limits : ReaderLimits) : Except SegmentError Bool := do
  let sections ← chunkedSections footer
  let dictBytes ← decodeSectionBytes primitives sections.labelDict labelDictStored limits
  let dict ← indexLabelDict dictBytes
  return (resolveEquals dict equals).isSome

/-- The positions of the wanted names in a schema, unless it lacks one. -/
def schemaPositions (wanted : List (UInt64 × UInt64)) (schema : Schema) : Option (List Nat) :=
  wanted.mapM fun pair => schema.findIdx? fun ord => ord = pair.1

/-- Whether a series is kept. Without wanted pairs every series is. -/
def keepsSeries (wanted : Option (List (UInt64 × UInt64))) (schema : Schema) (values : List UInt64) : Bool :=
  match wanted with
  | none => true
  | some wanted =>
    (schemaPositions wanted schema).any fun positions =>
      (positions.zip wanted).all fun entry => values[entry.1]? = some entry.2.2

/-- The labels of a kept series. Those of another are resolved and not kept. -/
def frameLabels (dict : List Bytes) (keep : Bool) (schema : Schema) (values : List UInt64) :
    Except SegmentError (Option Promql.LabelSet) := do
  let pairs ← labelPairs dict schema values
  if keep then do
    let labels ← newLabelSet pairs
    return some labels
  else return none

/-- The kept series of a frame, with the label ordinals and the series ids that are left. -/
def decodeFrameRows (dict : List Bytes) (schemas : List Schema) (wanted : Option (List (UInt64 × UInt64))) :
    List (Nat × ValueKind × Nat) → List UInt64 → MetaCursor → List Bytes →
      Except SegmentError (List SeriesEntry × List UInt64 × List Bytes)
  | [], values, _, ids => .ok ([], values, ids)
  | (ref, kind, runCount) :: rest, values, cursor, ids =>
    match schemas[ref]? with
    | none => .error (.schemaRefOutOfRange ref)
    | some schema =>
      if values.length < schema.length then .error .badBlockLen
      else do
        let own := values.take schema.length
        let labels ← frameLabels dict (keepsSeries wanted schema own) schema own
        let runs := cursor.runs.take runCount
        let bounds ← seriesBounds runs
        match ids with
        | [] => throw .sectionOutOfBounds
        | seriesId :: ids => do
          let row : SeriesRow := ⟨seriesId, schema, kind, runs, nextProvenance cursor.provenance runCount⟩
          let (later, values, ids) ← decodeFrameRows dict schemas wanted rest (values.drop schema.length)
            ⟨cursor.runs.drop runCount, cursor.provenance.drop runCount⟩ ids
          return ((labels.map fun labels => row.entry labels bounds).toList ++ later, values, ids)

def ChunkFrame.rows (frame : ChunkFrame) : List (Nat × ValueKind × Nat) :=
  frame.schemaRef.zip (frame.valueKind.zip frame.runCount)

/-- The kept series of every chunk, with the runs counted and the series ids that are left. -/
def decodeChunks (primitives : SectionPrimitives) (footer : Footer) (limits : ReaderLimits) (chunkBytes : Bytes)
    (dict : List Bytes) (schemas : List Schema) (wanted : Option (List (UInt64 × UInt64))) :
    List ChunkDirEntry → Nat → List Bytes → Except SegmentError (List SeriesEntry × Nat × List Bytes)
  | [], runTotalSum, ids => .ok ([], runTotalSum, ids)
  | chunk :: chunks, runTotalSum, ids => do
    let frame ← readChunk primitives footer limits chunkBytes chunk
    let runTotalSum := runTotalSum + frame.runCount.sum
    if 2 ^ 64 ≤ runTotalSum then throw .fieldOverflow
    else do
      let (entries, values, ids) ←
        decodeFrameRows dict schemas wanted frame.rows frame.valueOrd ⟨frame.runs, frame.provenance⟩ ids
      if !values.isEmpty then throw .badBlockLen
      else do
        let (later, runTotalSum, ids) ←
          decodeChunks primitives footer limits chunkBytes dict schemas wanted chunks runTotalSum ids
        return (entries ++ later, runTotalSum, ids)

/-- What follows the dictionary. An index that was made for the wanted pairs is the same as the one made here. -/
def decodeAfterDict (primitives : SectionPrimitives) (footer : Footer) (sections : ChunkedSections)
    (dictBytes seriesIdsStored seriesIdxStored metaChunksStored : Bytes) (wanted : Option (List (UInt64 × UInt64)))
    (limits : ReaderLimits) : Except SegmentError (List SeriesEntry) := do
  let idsBytes ← decodeSectionBytes primitives sections.seriesIds seriesIdsStored limits
  let dict ← indexLabelDict dictBytes
  let seriesIds ← parseSeriesIds idsBytes
  let idxBytes ← decodeSectionBytes primitives sections.seriesIdx seriesIdxStored limits
  let chunkBytes ← decodeSectionBytes primitives sections.metaChunks metaChunksStored limits
  let index ← parseSeriesIdx idxBytes
  let (count, schemas, rest) ← parseSchemaList dict chunkBytes
  checkSeriesCounts seriesIds.length count footer.seriesCount
  let (runTotal, _) ← takeU32 rest
  let (entries, runTotalSum, ids) ←
    decodeChunks primitives footer limits chunkBytes dict schemas wanted index.chunks 0 seriesIds
  if runTotalSum ≠ runTotal then throw (.runCountSumMismatch runTotalSum runTotal)
  else if !ids.isEmpty then throw .badChunkFrame
  else return entries

/-- The wanted pairs are resolved on the dictionary alone, before another section is read. -/
def decodeChunked (primitives : SectionPrimitives) (footer : Footer)
    (labelDictStored seriesIdsStored seriesIdxStored metaChunksStored : Bytes) (equals : Option (List (String × String)))
    (limits : ReaderLimits) : Except SegmentError (List SeriesEntry) := do
  let sections ← chunkedSections footer
  let dictBytes ← decodeSectionBytes primitives sections.labelDict labelDictStored limits
  match equals with
  | none =>
    decodeAfterDict primitives footer sections dictBytes seriesIdsStored seriesIdxStored metaChunksStored none limits
  | some equals => do
    let dict ← indexLabelDict dictBytes
    match resolveEquals dict equals with
    | none => return []
    | some wanted =>
      decodeAfterDict primitives footer sections dictBytes seriesIdsStored seriesIdxStored metaChunksStored
        (some wanted) limits

def decodeCatalogV5Chunked (primitives : SectionPrimitives) (footer : Footer)
    (labelDictStored seriesIdsStored seriesIdxStored metaChunksStored : Bytes) (limits : ReaderLimits) :
    Except SegmentError (List SeriesEntry) :=
  decodeChunked primitives footer labelDictStored seriesIdsStored seriesIdxStored metaChunksStored none limits

def decodeCatalogV5ChunkedMatching (primitives : SectionPrimitives) (footer : Footer)
    (labelDictStored seriesIdsStored seriesIdxStored metaChunksStored : Bytes) (equals : List (String × String))
    (limits : ReaderLimits) : Except SegmentError (List SeriesEntry) :=
  decodeChunked primitives footer labelDictStored seriesIdsStored seriesIdxStored metaChunksStored (some equals) limits

end Ravel.Segment
