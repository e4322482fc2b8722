import Ravel.Construction.Spans.Objects
import Ravel.Proof.Codec.IntegerRoundTrip
import Ravel.Proof.Codec.KeyBuckets
import Ravel.Proof.Logs.BlockPruning

namespace Ravel.Spans

open List Codec Logs Library

/-- The last value of the service attribute. -/
def SpanRecord.serviceName (record : SpanRecord) : Option String :=
  (lastPassing (fun attr => attr.1 == serviceNameKey) record.attrs).map Prod.snd

/-- The value of the field that a predicate is about equals its literal. -/
def BloomPredicate.Holds (predicate : BloomPredicate) (record : SpanRecord) : Prop :=
  predicate.fieldId = colName ∧ record.name = predicate.literal ∨
    predicate.fieldId = colServiceName ∧ record.serviceName = some predicate.literal

/-- Everything that a query can ask of a span. -/
structure SpanFilter where
  traceId : Option TraceId
  tsMin : Int64
  tsMax : Int64
  durationNs : Option (Int64 × Int64)
  statusMask : Option UInt8
  predicates : List BloomPredicate

/-- The span meets every part of the filter: its interval overlaps the window, and its duration is in the other window. -/
structure SpanFilter.Matches (filter : SpanFilter) (record : SpanRecord) : Prop where
  trace : ∀ id, filter.traceId = some id → record.traceId = id
  overlaps : record.startTsNs ≤ filter.tsMax ∧ filter.tsMin ≤ record.endTsNs
  duration : ∀ low high, filter.durationNs = some (low, high) →
    low.toInt ≤ record.endTsNs.toInt - record.startTsNs.toInt ∧ record.endTsNs.toInt - record.startTsNs.toInt ≤ high.toInt
  status : ∀ mask, filter.statusMask = some mask → record.statusCode.bit &&& mask ≠ 0
  equalities : ∀ predicate ∈ filter.predicates, predicate.Holds record

/-- The block of the object has the row that the record is stored as. -/
def RspanWriter.Holds (writer : RspanWriter) (object : RspanObject) (block : Nat) (record : SpanRecord) : Prop :=
  ∃ rows, object.blocks[block]? = some rows ∧ writer.stored record ∈ rows

section Attributes

theorem lookup_cons_if (wanted key value : String) (map : List (String × String)) :
    ((key, value) :: map).lookup wanted = if wanted = key then some value else map.lookup wanted := by
  rw [lookup_cons]
  cases same : wanted == key with
  | true => rw [if_pos (beq_iff_eq.mp same)]
  | false => rw [if_neg (beq_eq_false_iff_ne.mp same)]

theorem lookup_insertAttr (wanted key value : String) (map : List (String × String)) :
    (insertAttr key value map).lookup wanted = if wanted = key then some value else map.lookup wanted := by
  induction map with
  | nil => exact lookup_cons_if wanted key value []
  | cons entry rest ih =>
    obtain ⟨held, current⟩ := entry
    rw [insertAttr]
    split
    · rename_i same
      cases same
      rw [lookup_cons_if, lookup_cons_if]
      split <;> rfl
    · rename_i differs
      split
      · exact lookup_cons_if wanted key value _
      · rw [lookup_cons_if, lookup_cons_if, ih]
        by_cases here : wanted = held
        · rw [if_pos here, if_pos here, if_neg fun other => differs (other.symm.trans here)]
        · rw [if_neg here, if_neg here]

/-- The map of attributes has the last value of each key. -/
theorem lookup_attrMap (wanted : String) (attrs : List (String × String)) :
    (attrMap attrs).lookup wanted = (lastPassing (fun attr => attr.1 == wanted) attrs).map Prod.snd := by
  induction attrs using reverseRecOn with
  | nil => rfl
  | append_singleton earlier last ih =>
    rw [attrMap, foldl_append, lastPassing_append]
    show (insertAttr last.1 last.2 (attrMap earlier)).lookup wanted = _
    rw [lookup_insertAttr, ih]
    by_cases same : wanted = last.1
    · simp [same, lastPassing]
    · have differs : ¬last.1 = wanted := fun other => same other.symm
      simp [same, lastPassing, differs]

theorem preResolve_serviceName (record : SpanRecord) : (preResolve record).serviceName = record.serviceName := by
  rw [SpanRecord.serviceName, ← lookup_attrMap, preResolve]
  split <;> rfl

theorem preResolve_record (record : SpanRecord) : (preResolve record).record = record := by
  rw [preResolve]
  split <;> rfl

end Attributes

section Blocks

variable (cfg : RspanConfig) (rows : List ResolvedSpanRow)

theorem flatten_chunkLoop : ∀ (block : List ResolvedSpanRow) (bytes : Nat),
    (chunkLoop cfg block bytes rows).flatten = block ++ rows := by
  induction rows with
  | nil =>
    intro block bytes
    cases block <;> simp [chunkLoop]
  | cons row rest ih =>
    intro block bytes
    rw [chunkLoop]
    split
    · rw [flatten_cons, ih, singleton_append]
    · rw [ih, append_assoc, singleton_append]

theorem flatten_chunkBlocks : (chunkBlocks cfg rows).flatten = rows :=
  flatten_chunkLoop cfg rows [] 0

end Blocks

/-- What a writer puts into its object. -/
structure Written (platform : Platform) (writer : RspanWriter) (object : RspanObject) : Prop where
  blocks : object.blocks = chunkBlocks writer.cfg ((writer.records.insertionSort recordLe).map writer.stored)
  skip : object.blocks.mapM writeBlock = .ok object.skip
  bloom : object.bloom = object.blocks.map (buildBlockBloom platform)
  keyIdx : encodeTraceKeyIdxCapped
    (object.blocks.zipIdx.flatMap fun block => block.1.map fun row => (row.traceId, UInt32.ofNat block.2))
    writer.keyIdxBucketCap = .ok object.keyIdx

theorem written_of_finish {platform : Platform} {writer : RspanWriter} {object : RspanObject}
    (finished : writer.finish platform = .ok object) : Written platform writer object := by
  rw [RspanWriter.finish] at finished
  obtain ⟨-, finished⟩ := ok_of_guard finished
  obtain ⟨skip, bounded, rest⟩ := ok_of_bind finished
  obtain ⟨keyIdx, indexed, returned⟩ := ok_of_bind rest
  cases returned
  have same : writer.preResolved.map (resolveRow (dynamicColumns writer.preResolved)) =
      (writer.records.insertionSort recordLe).map writer.stored := by
    rw [RspanWriter.preResolved, map_map]
    rfl
  rw [same] at bounded indexed
  exact ⟨by rw [same], by rw [same]; exact bounded, rfl, by rw [same]; exact indexed⟩

section Bounds

/-- The bounds of a block hold of a row. -/
structure BlockEntry.Covers (entry : BlockEntry) (row : ResolvedSpanRow) : Prop where
  trace : entry.minTraceId.toList ≤ row.traceId.toList ∧ row.traceId.toList ≤ entry.maxTraceId.toList
  start : entry.minStartTs ≤ row.startTsNs
  finish : row.endTsNs ≤ entry.maxEndTs
  duration : ∃ duration, checkedSub row.endTsNs row.startTsNs = some duration ∧ entry.minDurationNs ≤ duration ∧
    duration ≤ entry.maxDurationNs
  status : row.statusCode.bit &&& entry.statusMask = row.statusCode.bit

/-- The durations and the statuses hold of a row. -/
structure RowBounds.Covers (bounds : RowBounds) (row : ResolvedSpanRow) : Prop where
  duration : ∃ duration, checkedSub row.endTsNs row.startTsNs = some duration ∧ bounds.minDurationNs ≤ duration ∧
    duration ≤ bounds.maxDurationNs
  status : row.statusCode.bit &&& bounds.statusMask = row.statusCode.bit

theorem fromU8_toU8 (status : StatusCode) : StatusCode.fromU8 status.toU8 = some status := by
  cases status <;> rfl

/-- A bit that is in a mask stays in a wider one. -/
theorem and_or_of_and {bit mask : UInt8} (held : bit &&& mask = bit) (other : UInt8) : bit &&& (mask ||| other) = bit := by
  have bits := congrArg UInt8.toBitVec held
  apply UInt8.toBitVec_inj.mp
  ext index inside
  have bitHeld := congrArg (fun vector => vector[index]) bits
  simp only [UInt8.toBitVec_and, UInt8.toBitVec_or, BitVec.getElem_and, BitVec.getElem_or] at bitHeld ⊢
  grind

/-- One row widens the bounds to itself, and they keep the rows before. -/
theorem RowBounds.add_covers {bounds next : RowBounds} {row : ResolvedSpanRow} (added : bounds.add row = .ok next) :
    next.Covers row ∧ ∀ other, bounds.Covers other → next.Covers other := by
  rw [RowBounds.add] at added
  split at added
  · cases added
  · rename_i duration measured
    dsimp only at added
    rw [fromU8_toU8] at added
    cases added
    constructor
    · refine ⟨⟨duration, measured, Std.min_le_right, Std.right_le_max⟩, ?_⟩
      rw [UInt8.or_comm]
      exact and_or_of_and (UInt8.and_self) _
    · rintro other ⟨⟨held, otherMeasured, low, high⟩, status⟩
      refine ⟨⟨held, otherMeasured, Std.le_trans Std.min_le_left low, Std.le_trans high Std.left_le_max⟩, ?_⟩
      exact and_or_of_and status _

theorem foldlM_covers {rows : List ResolvedSpanRow} {start final : RowBounds}
    (run : rows.foldlM RowBounds.add start = .ok final) : ∀ row ∈ rows, final.Covers row := by
  have kept := foldlM_invariant (fun bounds read => ∀ row ∈ read, bounds.Covers row)
    (fun bounds read row next covered added => by
      obtain ⟨own, others⟩ := RowBounds.add_covers added
      intro other member
      rcases mem_append.mp member with earlier | last
      · exact others other (covered other earlier)
      · rwa [mem_singleton.mp last])
    rows start final [] (fun row absent => nomatch absent) run
  exact kept

theorem writeBlock_covers {rows : List ResolvedSpanRow} {entry : BlockEntry} (written : writeBlock rows = .ok entry)
    (ascending : rows.Pairwise fun left right => left.traceId.toList ≤ right.traceId.toList) : ∀ row ∈ rows, entry.Covers row := by
  cases rows with
  | nil => cases written
  | cons first rest =>
    obtain ⟨bounds, run, returned⟩ := ok_of_bind written
    cases returned
    intro row member
    obtain ⟨duration, status⟩ := foldlM_covers run row member
    have fromFirst : first.traceId.toList ≤ row.traceId.toList := by
      rcases mem_cons.mp member with rfl | later
      · exact Std.le_refl _
      · exact (pairwise_cons.mp ascending).1 row later
    have toLast : row.traceId.toList ≤ ((first :: rest).getLast (cons_ne_nil first rest)).traceId.toList := by
      have whole := dropLast_append_getLast (cons_ne_nil first rest)
      rw [← whole] at member ascending
      rcases mem_append.mp member with earlier | last
      · exact (pairwise_append.mp ascending).2.2 row earlier _ (mem_singleton_self _)
      · rw [mem_singleton.mp last]
        exact Std.le_refl _
    exact {
      trace := ⟨fromFirst, toLast⟩
      start := minI64_le (mem_map_of_mem member)
      finish := le_maxI64 (mem_map_of_mem member)
      duration := duration
      status := status }

/-- Bounds that hold of a matching span prune nothing. -/
theorem not_blockPruned {entry : BlockEntry} {writer : RspanWriter} {record : SpanRecord} {filter : SpanFilter}
    (covers : entry.Covers (writer.stored record)) (matched : filter.Matches record) :
    blockPruned entry filter.traceId filter.tsMin filter.tsMax filter.durationNs filter.statusMask = false := by
  have pre := preResolve_record record
  have window : ¬(entry.maxEndTs < filter.tsMin ∨ filter.tsMax < entry.minStartTs) := by
    have start : (writer.stored record).startTsNs = record.startTsNs := congrArg SpanRecord.startTsNs pre
    have finish : (writer.stored record).endTsNs = record.endTsNs := congrArg SpanRecord.endTsNs pre
    rintro (before | after)
    · exact Std.not_lt.mpr (Std.le_trans matched.overlaps.2 (finish ▸ covers.finish)) before
    · exact Std.not_lt.mpr (Std.le_trans (start ▸ covers.start) matched.overlaps.1) after
  have trace : ∀ id, filter.traceId = some id → ¬(id.toList < entry.minTraceId.toList ∨ entry.maxTraceId.toList < id.toList) := by
    intro id asked
    have own : (writer.stored record).traceId = id :=
      (congrArg SpanRecord.traceId pre).trans (matched.trace id asked)
    rw [← own]
    rintro (below | above)
    · exact Std.not_lt.mpr covers.trace.1 below
    · exact Std.not_lt.mpr covers.trace.2 above
  have duration : ∀ bounds, filter.durationNs = some bounds →
      ¬(entry.maxDurationNs < bounds.1 ∨ bounds.2 < entry.minDurationNs) := by
    rintro ⟨low, high⟩ asked
    obtain ⟨duration, measured, least, greatest⟩ := covers.duration
    have exactly : duration.toInt = record.endTsNs.toInt - record.startTsNs.toInt := by
      rw [← pre]
      exact ofIntChecked_eq_some.mp measured
    obtain ⟨above, below⟩ := matched.duration low high asked
    rintro (short | long)
    · exact Std.not_lt.mpr (Std.le_trans (Int64.le_iff_toInt_le.mpr (exactly ▸ above)) greatest) short
    · exact Std.not_lt.mpr (Std.le_trans least (Int64.le_iff_toInt_le.mpr (exactly ▸ below))) long
  have status : ∀ mask, filter.statusMask = some mask → entry.statusMask &&& mask ≠ 0 := by
    intro mask asked disjoint
    apply matched.status mask asked
    have held := covers.status
    have own : (writer.stored record).statusCode = record.statusCode := congrArg SpanRecord.statusCode pre
    rw [own] at held
    rw [← held, UInt8.and_assoc, disjoint, UInt8.and_zero]
  rw [blockPruned, decide_eq_false window, Bool.false_or, Bool.or_eq_false_iff, Bool.or_eq_false_iff]
  refine ⟨⟨?_, ?_⟩, ?_⟩
  · rw [Option.any_eq_false]
    intro id asked
    simpa using trace id asked
  · rw [Option.any_eq_false]
    intro bounds asked
    simpa using duration bounds asked
  · rw [Option.any_eq_false]
    intro mask asked
    simpa using status mask asked

end Bounds

section Filters

variable {platform : Platform}

/-- The size of a filter is one that its reader accepts. -/
theorem powerOfTwoSize_accepted (target : Nat) :
    bloomBlockBits ≤ powerOfTwoSize target ∧ 2 ^ Nat.log 2 (powerOfTwoSize target) = powerOfTwoSize target := by
  constructor
  · exact Nat.le_trans (Nat.le_max_right _ _) (Nat.le_pow_clog (by decide) _)
  · rw [powerOfTwoSize, Nat.log_pow (by decide)]

theorem bloomEntry_written {writer : RspanWriter} {object : RspanObject} (written : Written platform writer object)
    {block : Nat} {rows : List ResolvedSpanRow} (located : object.blocks[block]? = some rows) :
    bloomEntry object.bloom block = .ok (buildBlockBloom platform rows) := by
  have stored : object.bloom[block]? = some (buildBlockBloom platform rows) := by
    rw [written.bloom, getElem?_map, located]
    rfl
  rw [bloomEntry, stored]
  exact if_pos (powerOfTwoSize_accepted _)

/-- The filter of a block proves no token of a matching literal absent. -/
theorem not_prunedByBloom {writer : RspanWriter} {record : SpanRecord} {rows : List ResolvedSpanRow}
    (member : writer.stored record ∈ rows) {predicates : List BloomPredicate}
    (held : ∀ predicate ∈ predicates, predicate.Holds record) :
    prunedByBloom platform (buildBlockBloom platform rows)
      (predicates.map fun predicate => (predicate.fieldId, tokens platform predicate.literal)) = false := by
  rw [prunedByBloom, any_eq_false]
  intro literal asked
  obtain ⟨predicate, predicateIn, rfl⟩ := mem_map.mp asked
  rw [Bool.not_eq_true, Bool.and_eq_false_iff]
  right
  rw [Bool.not_eq_false', all_eq_true]
  intro token tokenIn
  have staged : (predicate.fieldId, token) ∈ rowBloomKeys platform (writer.stored record) := by
    rw [rowBloomKeys, mem_append]
    rcases held predicate predicateIn with ⟨isName, same⟩ | ⟨isService, same⟩
    · left
      have own : (writer.stored record).name = predicate.literal :=
        (congrArg SpanRecord.name (preResolve_record record)).trans same
      rw [own, isName]
      exact mem_map_of_mem tokenIn
    · right
      have own : (writer.stored record).serviceName = some predicate.literal :=
        (preResolve_serviceName record).trans same
      rw [own, isService]
      exact mem_map_of_mem tokenIn
  exact mayContain_of_staged platform powerOfTwoSize bloomSeed (mem_flatMap.mpr ⟨_, member, staged⟩)

/-- The blocks whose filter can be read and proves nothing absent are kept. -/
theorem keepUnpruned_ok {bloom : List BloomFilter} {tokenized : List (Nat × List (List UInt8))} {base : List Nat}
    (readable : ∀ index ∈ base, ∃ view, bloomEntry bloom index = .ok view) :
    ∃ kept, keepUnpruned platform bloom tokenized base = .ok kept ∧
      ∀ index ∈ base, ∀ view, bloomEntry bloom index = .ok view → prunedByBloom platform view tokenized = false →
        index ∈ kept := by
  induction base with
  | nil => exact ⟨[], rfl, fun index absent => nomatch absent⟩
  | cons index rest ih =>
    obtain ⟨later, keptLater, holds⟩ := ih fun other member => readable other (mem_cons_of_mem index member)
    obtain ⟨view, read⟩ := readable index mem_cons_self
    refine ⟨if prunedByBloom platform view tokenized then later else index :: later, ?_, ?_⟩
    · rw [keepUnpruned, read, keptLater]
      rfl
    · intro other member otherView otherRead unpruned
      rcases mem_cons.mp member with rfl | inRest
      · cases read.symm.trans otherRead
        rw [unpruned]
        exact mem_cons_self
      · have kept := holds other inRest otherView otherRead unpruned
        split
        · exact kept
        · exact mem_cons_of_mem index kept

end Filters

section Keys

variable {platform : Platform} {writer : RspanWriter} {object : RspanObject}

theorem codec_eq_ok {Value : Type} {outcome : Except CodecError Value} {value : Value} :
    codec outcome = .ok value ↔ outcome = .ok value := by
  cases outcome with
  | error failure => constructor <;> intro same <;> cases same
  | ok found => constructor <;> intro same <;> cases same <;> rfl

/-- The entries that the blocks of an object give the key index. -/
def RspanObject.keyEntries (object : RspanObject) : List KeyEntry :=
  sortedDistinct ((object.blocks.zipIdx.flatMap fun block =>
    block.1.map fun row => (row.traceId, UInt32.ofNat block.2)).map fun pair => ⟨key8Id16 pair.1, pair.2⟩)

theorem mem_keyEntries {entry : KeyEntry} : entry ∈ object.keyEntries ↔
    ∃ block rows, object.blocks[block]? = some rows ∧ ∃ row ∈ rows, entry = ⟨key8Id16 row.traceId, UInt32.ofNat block⟩ := by
  rw [RspanObject.keyEntries, mem_sortedDistinct, mem_map]
  constructor
  · rintro ⟨pair, member, rfl⟩
    obtain ⟨⟨rows, block⟩, indexed, held⟩ := mem_flatMap.mp member
    obtain ⟨row, rowIn, rfl⟩ := mem_map.mp held
    exact ⟨block, rows, mem_zipIdx_iff_getElem?.mp indexed, row, rowIn, rfl⟩
  · rintro ⟨block, rows, located, row, rowIn, rfl⟩
    refine ⟨(row.traceId, UInt32.ofNat block), ?_, rfl⟩
    rw [mem_flatMap]
    exact ⟨(rows, block), mem_zipIdx_iff_getElem?.mpr located, mem_map.mpr ⟨row, rowIn, rfl⟩⟩

section

variable (written : Written platform writer object)

include written

theorem Written.encoded :
    encodeKeyIdxWithBucketBits [⟨traceIdField, .id16, object.keyEntries⟩] traceKeyIdxBucketBits = .ok object.keyIdx := by
  have indexed := written.keyIdx
  rw [encodeTraceKeyIdxCapped] at indexed
  split at indexed
  · cases indexed
  · exact codec_eq_ok.mp indexed

theorem Written.aligned : Forall₂ (fun rows entry => writeBlock rows = .ok entry) object.blocks object.skip :=
  mapM_eq_ok.mp written.skip

/-- No block is empty. -/
theorem Written.block_ne_nil {rows : List ResolvedSpanRow} (member : rows ∈ object.blocks) : rows ≠ [] := by
  obtain ⟨entry, _, bounded⟩ := exists_of_mapM written.skip member
  rintro rfl
  cases bounded

/-- The key index has an entry of every block, so that its bound on the entries bounds the blocks. -/
theorem Written.blocks_lt : object.blocks.length < 2 ^ 32 := by
  have bound : (sortedDistinct object.keyEntries).length ≤ keyIdxBucketMaxEntries * bucketCount traceKeyIdxBucketBits :=
    length_le_of_encoded written.encoded
  let ordinals := (sortedDistinct object.keyEntries).map fun entry => entry.block.toNat
  have covered : Finset.range (min object.blocks.length (2 ^ 32)) ⊆ ordinals.toFinset := by
    intro block inside
    have below := Finset.mem_range.mp inside
    have bounded : block < object.blocks.length := Nat.lt_of_lt_of_le below (Nat.min_le_left _ _)
    obtain ⟨row, rest, shape⟩ := exists_cons_of_ne_nil (written.block_ne_nil (getElem_mem bounded))
    rw [mem_toFinset, mem_map]
    refine ⟨⟨key8Id16 row.traceId, UInt32.ofNat block⟩, ?_, ?_⟩
    · rw [mem_sortedDistinct, mem_keyEntries]
      refine ⟨block, object.blocks[block], getElem?_eq_getElem bounded, row, ?_, rfl⟩
      rw [shape]
      exact mem_cons_self
    · exact UInt32.toNat_ofNat_of_lt' (Nat.lt_of_lt_of_le below (Nat.min_le_right _ _))
  have counted : min object.blocks.length (2 ^ 32) ≤ (sortedDistinct object.keyEntries).length := by
    calc min object.blocks.length (2 ^ 32)
        = (Finset.range (min object.blocks.length (2 ^ 32))).card := (Finset.card_range _).symm
      _ ≤ ordinals.toFinset.card := Finset.card_le_card covered
      _ ≤ ordinals.length := toFinset_card_le ordinals
      _ = (sortedDistinct object.keyEntries).length := length_map _
  have small : keyIdxBucketMaxEntries * bucketCount traceKeyIdxBucketBits = 2 ^ 28 := by decide
  rw [small] at bound
  omega

theorem Written.probeTrace {block : Nat} {rows : List ResolvedSpanRow} {row : ResolvedSpanRow}
    (located : object.blocks[block]? = some rows) (member : row ∈ rows) :
    ∃ blocks, object.probeTrace row.traceId = .ok (.present blocks) ∧ block ∈ blocks.map UInt32.toNat := by
  obtain ⟨bucket, found, sameKey, framed, read⟩ := locate_encoded written.encoded (key8Id16 row.traceId)
  have inside : block < object.blocks.length := (List.getElem?_eq_some_iff.mp located).1
  have counted : object.skip.length = object.blocks.length := written.aligned.length_eq.symm
  have own : (⟨key8Id16 row.traceId, UInt32.ofNat block⟩ : KeyEntry) ∈ bucket.frame := by
    rw [framed, bucketEntries, mem_filter, mem_sortedDistinct, mem_keyEntries]
    exact ⟨⟨block, rows, located, row, member, rfl⟩, decide_eq_true rfl⟩
  have within : ∀ entry ∈ bucket.frame, entry.block.toNat < object.skip.length := by
    intro entry entryIn
    rw [framed, bucketEntries, mem_filter, mem_sortedDistinct, mem_keyEntries] at entryIn
    obtain ⟨⟨other, _, otherLocated, _, _, rfl⟩, _⟩ := entryIn
    have otherInside := (List.getElem?_eq_some_iff.mp otherLocated).1
    show (UInt32.ofNat other).toNat < _
    rw [UInt32.toNat_ofNat_of_lt' (Nat.lt_trans otherInside written.blocks_lt), counted]
    exact otherInside
  have matched : UInt32.ofNat block ∈ bucket.matching bucket.frame := by
    rw [KeyIdxBucket.matching, mem_map]
    exact ⟨_, mem_filter.mpr ⟨own, decide_eq_true sameKey.symm⟩, rfl⟩
  have parameters : RspanObject.checkParameters object.keyIdx = .ok () := by
    obtain ⟨_, parts, bucketed, same⟩ := encodeKeyIdx_single written.encoded
    obtain ⟨rfl, _⟩ := bucketField_eq_ok bucketed
    rw [same]
    rfl
  refine ⟨bucket.matching bucket.frame, ?_, ?_⟩
  · rw [RspanObject.probeTrace, parameters, codec_eq_ok.mpr found]
    show (if bucket.frame.isEmpty = true then _ else _) = _
    rw [if_neg (by simpa using ne_nil_of_mem own), codec_eq_ok.mpr read, ok_bind]
    dsimp only
    rw [find?_eq_none.mpr (by simpa using within)]
    show Except.ok (if (bucket.matching bucket.frame).isEmpty = true then _ else _) = _
    rw [if_neg (by simpa using ne_nil_of_mem matched)]
  · exact mem_map.mpr ⟨_, matched, UInt32.toNat_ofNat_of_lt' (Nat.lt_trans inside written.blocks_lt)⟩

end

end Keys

section Candidates

variable {platform : Platform} {writer : RspanWriter} {object : RspanObject}

instance : Std.Total recordLe where
  total left right := by
    rcases Std.lt_trichotomy left.traceId.toList right.traceId.toList with before | same | after
    · exact .inl (.inl before)
    · have sameTrace := Vector.toList_inj.mp same
      rcases Std.le_total (a := left.startTsNs) (b := right.startTsNs) with below | above
      · exact .inl (.inr ⟨sameTrace, below⟩)
      · exact .inr (.inr ⟨sameTrace.symm, above⟩)
    · exact .inr (.inl after)

instance : IsTrans SpanRecord recordLe where
  trans first second third := by
    rintro (before | ⟨same, below⟩) (later | ⟨sameAgain, belowAgain⟩)
    · exact .inl (Std.lt_trans before later)
    · exact .inl (sameAgain ▸ before)
    · exact .inl (same ▸ later)
    · exact .inr ⟨same.trans sameAgain, Std.le_trans below belowAgain⟩

/-- The trace ids of a block ascend, since those of the object do. -/
theorem Written.ascending (written : Written platform writer object) {rows : List ResolvedSpanRow}
    (member : rows ∈ object.blocks) : rows.Pairwise fun left right => left.traceId.toList ≤ right.traceId.toList := by
  apply List.Pairwise.sublist (sublist_flatten_of_mem member)
  rw [written.blocks, flatten_chunkBlocks, pairwise_map]
  apply (pairwise_insertionSort recordLe writer.records).imp
  intro left right ordered
  have own (record : SpanRecord) : (writer.stored record).traceId = record.traceId :=
    congrArg SpanRecord.traceId (preResolve_record record)
  rw [own, own]
  rcases ordered with before | ⟨same, _⟩
  · exact Std.le_of_lt before
  · rw [same]
    exact Std.le_refl _

theorem Written.holds_record (written : Written platform writer object) {record : SpanRecord}
    (member : record ∈ writer.records) : ∃ block, writer.Holds object block record := by
  have inRows : writer.stored record ∈ object.blocks.flatten := by
    rw [written.blocks, flatten_chunkBlocks]
    exact mem_map_of_mem ((mem_insertionSort recordLe).mpr member)
  obtain ⟨rows, rowsIn, rowIn⟩ := mem_flatten.mp inRows
  obtain ⟨block, located⟩ := mem_iff_getElem?.mp rowsIn
  exact ⟨block, rows, located, rowIn⟩

theorem Written.mem_candidateBlocks (written : Written platform writer object) {block : Nat} {record : SpanRecord}
    (held : writer.Holds object block record) {filter : SpanFilter} (matched : filter.Matches record) :
    block ∈ object.candidateBlocks filter.traceId filter.tsMin filter.tsMax filter.durationNs filter.statusMask := by
  obtain ⟨rows, located, rowIn⟩ := held
  obtain ⟨inside, rfl⟩ := List.getElem?_eq_some_iff.mp located
  have indexed : block < object.skip.length := by
    rwa [← written.aligned.length_eq]
  have bounded : writeBlock object.blocks[block] = .ok object.skip[block] :=
    (forall₂_iff_get.mp written.aligned).2 block inside indexed
  have covers := writeBlock_covers bounded (written.ascending (getElem_mem inside)) _ rowIn
  rw [RspanObject.candidateBlocks, mem_map]
  refine ⟨(object.skip[block], block), mem_filter.mpr ⟨?_, ?_⟩, rfl⟩
  · exact mem_zipIdx_iff_getElem?.mpr (getElem?_eq_getElem indexed)
  · rw [not_blockPruned covers matched]
    rfl

theorem mem_skip_of_candidate {traceId : Option TraceId} {tsMin tsMax : Int64} {durationNs : Option (Int64 × Int64)}
    {statusMask : Option UInt8} {block : Nat}
    (candidate : block ∈ object.candidateBlocks traceId tsMin tsMax durationNs statusMask) : block < object.skip.length := by
  obtain ⟨⟨entry, index⟩, kept, rfl⟩ := mem_map.mp candidate
  have indexed := mem_zipIdx_iff_getElem?.mp (mem_filter.mp kept).1
  exact (List.getElem?_eq_some_iff.mp indexed).1

theorem Written.candidates (written : Written platform writer object) (filter : SpanFilter) :
    ∃ candidates, object.candidateBlocksWithBloom platform filter.traceId filter.tsMin filter.tsMax filter.durationNs
        filter.statusMask filter.predicates = .ok candidates ∧
      ∀ block record, writer.Holds object block record → filter.Matches record → block ∈ candidates := by
  have counted := written.aligned.length_eq
  have entries : object.bloom.length = object.skip.length := by
    rw [written.bloom, length_map, counted]
  rw [RspanObject.candidateBlocksWithBloom, if_neg (not_not_intro entries)]
  dsimp only
  split
  · exact ⟨_, rfl, fun block record held matched => written.mem_candidateBlocks held matched⟩
  · have readable : ∀ block ∈ object.candidateBlocks filter.traceId filter.tsMin filter.tsMax filter.durationNs
        filter.statusMask, ∃ view, bloomEntry object.bloom block = .ok view := by
      intro block candidate
      have inside := mem_skip_of_candidate candidate
      rw [← counted] at inside
      exact ⟨_, bloomEntry_written written (getElem?_eq_getElem inside)⟩
    obtain ⟨kept, computed, holds⟩ := keepUnpruned_ok readable
    refine ⟨kept, computed, ?_⟩
    intro block record held matched
    obtain ⟨rows, located, rowIn⟩ := id held
    exact holds block (written.mem_candidateBlocks held matched) _ (bloomEntry_written written located)
      (not_prunedByBloom rowIn matched.equalities)

end Candidates

/-- In every object that the writer produces, each record has a block, the candidates of every filter contain each block that
holds a matching record, and the probe of a trace names each block that holds a record of the trace. -/
theorem pruning_keeps_matches (platform : Platform) (writer : RspanWriter) (object : RspanObject)
    (finished : writer.finish platform = .ok object) :
    (∀ record ∈ writer.records, ∃ block, writer.Holds object block record) ∧
    (∀ filter : SpanFilter, ∃ candidates,
      object.candidateBlocksWithBloom platform filter.traceId filter.tsMin filter.tsMax filter.durationNs filter.statusMask
        filter.predicates = .ok candidates ∧
      ∀ block record, writer.Holds object block record → filter.Matches record → block ∈ candidates) ∧
    ∀ block record, writer.Holds object block record →
      ∃ blocks, object.probeTrace record.traceId = .ok (.present blocks) ∧ block ∈ blocks.map UInt32.toNat := by
  have written := written_of_finish finished
  refine ⟨fun record member => written.holds_record member, written.candidates, ?_⟩
  rintro block record ⟨rows, located, rowIn⟩
  have own : (writer.stored record).traceId = record.traceId := congrArg SpanRecord.traceId (preResolve_record record)
  rw [← own]
  exact written.probeTrace located rowIn

def cartSpan : SpanRecord where
  traceId := Vector.replicate 16 7
  spanId := Vector.replicate 8 1
  parentSpanId := none
  name := "GET"
  startTsNs := 5
  endTsNs := 9
  statusCode := .error
  statusMessage := none
  attrs := [("service.name", "cart")]

/-- A writer of two spans of two traces, each in a block of its own. The second span ends before it starts. -/
def twoTraces : RspanWriter where
  cfg := ⟨1, 2 ^ 23⟩
  records := [cartSpan, { cartSpan with traceId := Vector.replicate 16 3, name := "PUT", startTsNs := 20, attrs := [] }]
  keyIdxBucketCap := keyIdxBucketMaxEntries

def cartFilter : SpanFilter where
  traceId := some cartSpan.traceId
  tsMin := 6
  tsMax := 12
  durationNs := some (1, 4)
  statusMask := some 4
  predicates := [⟨colName, "GET"⟩, ⟨colServiceName, "cart"⟩]

theorem pruning_keeps_matches_two_traces :
    ∃ object, twoTraces.finish samplePlatform = .ok object ∧ ∃ block candidates blocks,
      object.candidateBlocksWithBloom samplePlatform cartFilter.traceId cartFilter.tsMin cartFilter.tsMax
        cartFilter.durationNs cartFilter.statusMask cartFilter.predicates = .ok candidates ∧ block ∈ candidates ∧
      object.probeTrace cartSpan.traceId = .ok (.present blocks) ∧ block ∈ blocks.map UInt32.toNat := by
  have produced : (twoTraces.finish samplePlatform).toOption.isSome := by decide +kernel
  obtain ⟨object, returned⟩ := Option.isSome_iff_exists.mp produced
  have finished := ok_of_toOption returned
  obtain ⟨stored, pruned, probed⟩ := pruning_keeps_matches samplePlatform twoTraces object finished
  obtain ⟨block, held⟩ := stored cartSpan mem_cons_self
  obtain ⟨candidates, computed, kept⟩ := pruned cartFilter
  obtain ⟨blocks, present, named⟩ := probed block cartSpan held
  have matched : cartFilter.Matches cartSpan := by
    refine ⟨?_, by decide, ?_, ?_, ?_⟩
    · intro id same
      exact Option.some.inj same
    · intro low high same
      cases same
      decide
    · intro mask same
      cases same
      decide
    · intro predicate member
      rcases mem_cons.mp member with rfl | later
      · exact .inl ⟨rfl, rfl⟩
      · cases mem_singleton.mp later
        exact .inr ⟨rfl, rfl⟩
  exact ⟨object, finished, block, candidates, blocks, computed, kept block cartSpan held matched, present, named⟩

end Ravel.Spans
