/-
This file models the decoders of a segment's catalog: the whole section, the chunked form, and both restricted to wanted labels.
-/

import Ravel.Construction.Segment.SeriesMeta

namespace Ravel.Segment

open Codec Logs

structure SeriesEntry where
  seriesId : Bytes
  labels : Promql.LabelSet
  sampleCount : Nat
  minTsNs : Int64
  maxTsNs : Int64
  valueKind : ValueKind
  runs : List RunEntry
  perSampleProvenance : List (Option (List SampleProvenance))

/-- The sample count and the time bounds of some runs. -/
def foldRuns : Nat → Int64 → Int64 → List RunEntry → Except SegmentError (Nat × Int64 × Int64)
  | samples, least, greatest, [] => .ok (samples, least, greatest)
  | samples, least, greatest, run :: runs =>
    if 2 ^ 32 ≤ samples + run.sampleCount then .error .fieldOverflow
    else foldRuns (samples + run.sampleCount) (min least run.minTsNs) (max greatest run.maxTsNs) runs

def seriesBounds (runs : List RunEntry) : Except SegmentError (Nat × Int64 × Int64) :=
  foldRuns 0 Int64.maxValue Int64.minValue runs

/-- What the columns hold of one series. -/
structure SeriesRow where
  seriesId : Bytes
  schema : Schema
  valueKind : ValueKind
  runs : List RunEntry
  provenance : List (Option (List SampleProvenance))

def SeriesRow.entry (row : SeriesRow) (labels : Promql.LabelSet) (bounds : Nat × Int64 × Int64) : SeriesEntry :=
  ⟨row.seriesId, labels, bounds.1, bounds.2.1, bounds.2.2, row.valueKind, row.runs, row.provenance⟩

/-- The entry of a series: its labels, then its bounds. -/
def buildEntry (dict : List Bytes) (row : SeriesRow) (values : List UInt64) : Except SegmentError SeriesEntry := do
  let pairs ← labelPairs dict row.schema values
  let labels ← newLabelSet pairs
  let bounds ← seriesBounds row.runs
  return row.entry labels bounds

/-- The provenance of the next runs. An object without the extension has none. -/
def nextProvenance (provenance : List (Option (List SampleProvenance))) (count : Nat) : List (Option (List SampleProvenance)) :=
  if provenance.isEmpty then [] else provenance.take count

/-- What is left of the columns after the series before. -/
structure MetaCursor where
  runs : List RunEntry
  provenance : List (Option (List SampleProvenance))

/-- Every series of the columns, with the label ordinals of all series one after another. -/
def decodeRows (dict : List Bytes) (schemas : List Schema) :
    List (Bytes × Nat × ValueKind × Nat) → List UInt64 → MetaCursor → Except SegmentError (List SeriesEntry)
  | [], _, _ => .ok []
  | (seriesId, ref, kind, runCount) :: rest, values, cursor => do
    let schema := schemaAt schemas ref
    let row : SeriesRow :=
      ⟨seriesId, schema, kind, cursor.runs.take runCount, nextProvenance cursor.provenance runCount⟩
    let entry ← buildEntry dict row (values.take schema.length)
    let later ← decodeRows dict schemas rest (values.drop schema.length)
      ⟨cursor.runs.drop runCount, cursor.provenance.drop runCount⟩
    return entry :: later

/-- The series in the order of their ids, with their columns. -/
def seriesRows (seriesIds : List Bytes) (refs : List Nat) (tail : SeriesMetaTail) : List (Bytes × Nat × ValueKind × Nat) :=
  seriesIds.zip (refs.zip (tail.valueKind.zip tail.runCount))

/-- The whole-section catalog from its decoded bytes. -/
def decodeCatalogV4FromDecoded (footer : Footer) (dict : List Bytes) (seriesIds : List Bytes) (metaBytes : Bytes)
    (limits : ReaderLimits) : Except SegmentError (List SeriesEntry) := do
  let (count, schemas, rest) ← parseSchemaList dict metaBytes
  checkSeriesCounts seriesIds.length count footer.seriesCount
  let (runTotal, rest) ← takeU32 rest
  let (refs, rest) ← parseSchemaRefBlock count schemas.length rest
  let (values, rest) ← parseValueOrdBlockAll refs schemas rest
  let tail ← parseSeriesMetaTail footer count runTotal limits rest
  checkValueKindPages footer tail.valueKind tail.runCount tail.runs
  decodeRows dict schemas (seriesRows seriesIds refs tail) values ⟨tail.runs, tail.perSampleProvenance⟩

/-- The decoded dictionary, ids and metadata of a whole-section catalog. -/
def decodeWholeSections (primitives : SectionPrimitives) (footer : Footer) (labelDictBytes seriesIdsBytes seriesMetaBytes : Bytes)
    (limits : ReaderLimits) : Except SegmentError (List Bytes × List Bytes × Bytes) := do
  let labelDict ← needSection footer labelDictKind (.missingSection "LABEL_DICT")
  let seriesIds ← needSection footer seriesIdsKind (.missingSection "SERIES_IDS")
  let seriesMeta ← needSection footer seriesMetaKind (.missingSection "SERIES_META")
  let dictBytes ← decodeSectionBytes primitives labelDict labelDictBytes limits
  let idsBytes ← decodeSectionBytes primitives seriesIds seriesIdsBytes limits
  let metaBytes ← decodeSectionBytes primitives seriesMeta seriesMetaBytes limits
  let dict ← indexLabelDict dictBytes
  let ids ← parseSeriesIds idsBytes
  return (dict, ids, metaBytes)

def decodeCatalogV4 (primitives : SectionPrimitives) (footer : Footer) (labelDictBytes seriesIdsBytes seriesMetaBytes : Bytes)
    (limits : ReaderLimits) : Except SegmentError (List SeriesEntry) := do
  let (dict, ids, metaBytes) ← decodeWholeSections primitives footer labelDictBytes seriesIdsBytes seriesMetaBytes limits
  decodeCatalogV4FromDecoded footer dict ids metaBytes limits

/-- The first ordinal whose bytes are a text's. -/
def findOrdinal (dict : List Bytes) (needle : String) : Option UInt64 :=
  (dict.findIdx? fun entry => entry = utf8Bytes needle).map UInt64.ofNat

/-- The ordinals of the wanted pairs up to the first that is not in the dictionary, and whether all are. -/
def matcherOrds (dict : List Bytes) : List (String × String) → List (UInt64 × UInt64) × Bool
  | [] => ([], true)
  | (name, value) :: rest =>
    match findOrdinal dict name, findOrdinal dict value with
    | some nameOrd, some valueOrd => ((nameOrd, valueOrd) :: (matcherOrds dict rest).1, (matcherOrds dict rest).2)
    | _, _ => ([], false)

/-- A schema has every wanted name. -/
def schemaPlausible (wanted : List (UInt64 × UInt64)) (schema : Schema) : Bool :=
  wanted.all fun pair => schema.contains pair.1

/-- The values of a series at the positions of the wanted names are the wanted ones. -/
def ordinalsMatch (wanted : List (UInt64 × UInt64)) (schema : Schema) (values : List UInt64) : Bool :=
  wanted.all fun pair => (schema.findIdx? fun ord => ord = pair.1).any fun position => values[position]? = some pair.2

/-- The series that match. The cursor moves past every series. -/
def decodeMatchingRows (dict : List Bytes) (schemas : List Schema) (wanted : List (UInt64 × UInt64)) :
    List (Bytes × Nat × ValueKind × Nat) → List (Option (List UInt64)) → MetaCursor →
      Except SegmentError (List SeriesEntry)
  | (seriesId, ref, kind, runCount) :: rest, values :: moreValues, cursor => do
    let schema := schemaAt schemas ref
    let row : SeriesRow :=
      ⟨seriesId, schema, kind, cursor.runs.take runCount, nextProvenance cursor.provenance runCount⟩
    let next : MetaCursor := ⟨cursor.runs.drop runCount, cursor.provenance.drop runCount⟩
    match values with
    | none => decodeMatchingRows dict schemas wanted rest moreValues next
    | some values =>
      if ordinalsMatch wanted schema values then do
        let entry ← buildEntry dict row values
        let later ← decodeMatchingRows dict schemas wanted rest moreValues next
        return entry :: later
      else decodeMatchingRows dict schemas wanted rest moreValues next
  | _, _, _ => .ok []

/-- The whole-section catalog restricted to the series that have every wanted pair. -/
def decodeCatalogMatchingV4 (primitives : SectionPrimitives) (footer : Footer)
    (labelDictBytes seriesIdsBytes seriesMetaBytes : Bytes) (equals : List (String × String)) (limits : ReaderLimits) :
    Except SegmentError (List SeriesEntry) := do
  let (dict, ids, metaBytes) ← decodeWholeSections primitives footer labelDictBytes seriesIdsBytes seriesMetaBytes limits
  let (count, schemas, rest) ← parseSchemaList dict metaBytes
  checkSeriesCounts ids.length count footer.seriesCount
  let (runTotal, rest) ← takeU32 rest
  let (wanted, resolvable) := matcherOrds dict equals
  let (refs, rest) ← parseSchemaRefBlock count schemas.length rest
  let likely := if resolvable then schemas.map (schemaPlausible wanted) else List.replicate schemas.length false
  let (values, rest) ← parseValueOrdBlockSelective refs schemas likely rest
  let tail ← parseSeriesMetaTail footer count runTotal limits rest
  checkValueKindPages footer tail.valueKind tail.runCount tail.runs
  decodeMatchingRows dict schemas wanted (seriesRows ids refs tail) values ⟨tail.runs, tail.perSampleProvenance⟩

end Ravel.Segment
