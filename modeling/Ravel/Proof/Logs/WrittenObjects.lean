import Ravel.Construction.Logs.ObjectReader
import Ravel.Library.FailingRuns
import Ravel.Proof.Logs.RowPlacement

namespace Ravel.Logs

open List Library RlogWriter

/-- Every stream of the records is listed once, with its blob. -/
structure StreamsListed (streams : List (LogStreamId × List UInt8)) (records : List RlogRecord) : Prop where
  distinct : (streams.map Prod.fst).Nodup
  present : ∀ record ∈ records, (record.streamId, record.streamAttrs) ∈ streams
  source : ∀ stream ∈ streams, ∃ record ∈ records, stream = (record.streamId, record.streamAttrs)

theorem StreamsListed.insertStream {streams next : List (LogStreamId × List UInt8)} {records : List RlogRecord}
    (holds : StreamsListed streams records) {record : RlogRecord} (inserted : insertStream streams record = .ok next) :
    StreamsListed next (records ++ [record]) := by
  have kept : ∀ stream ∈ streams, ∃ other ∈ records ++ [record], stream = (other.streamId, other.streamAttrs) := by
    intro stream member
    obtain ⟨other, otherIn, same⟩ := holds.source stream member
    exact ⟨other, mem_append_left _ otherIn, same⟩
  unfold Logs.insertStream at inserted
  split at inserted
  · rename_i absent
    cases inserted
    rw [find?_eq_none] at absent
    constructor
    · rw [map_append, nodup_append]
      refine ⟨holds.distinct, nodup_singleton _, ?_⟩
      intro id old other new same
      obtain ⟨stream, member, rfl⟩ := mem_map.mp old
      apply absent stream member
      rw [same, mem_singleton.mp new]
      exact decide_eq_true rfl
    · intro other member
      rcases mem_append.mp member with old | new
      · exact mem_append_left _ (holds.present other old)
      · rw [mem_singleton.mp new]
        exact mem_append_right _ mem_cons_self
    · intro stream member
      rcases mem_append.mp member with old | new
      · exact kept stream old
      · exact ⟨record, mem_append_right _ mem_cons_self, mem_singleton.mp new⟩
  · rename_i id blob found
    split at inserted
    · rename_i same
      cases inserted
      have listed : (record.streamId, record.streamAttrs) ∈ streams := by
        have passes := find?_some found
        rw [decide_eq_true_eq] at passes
        rw [← passes, ← same]
        exact mem_of_find?_eq_some found
      refine ⟨holds.distinct, ?_, kept⟩
      intro other member
      rcases mem_append.mp member with old | new
      · exact holds.present other old
      · rw [mem_singleton.mp new]
        exact listed
    · cases inserted

theorem StreamsListed.perm {streams sorted : List (LogStreamId × List UInt8)} {records : List RlogRecord}
    (holds : StreamsListed streams records) (reordered : sorted.Perm streams) : StreamsListed sorted records where
  distinct := (reordered.map Prod.fst).nodup_iff.mpr holds.distinct
  present := fun record member => reordered.mem_iff.mpr (holds.present record member)
  source := fun stream member => holds.source stream (reordered.mem_iff.mp member)

theorem collectStreams_listed {records : List RlogRecord} {streams : List (LogStreamId × List UInt8)}
    (collected : collectStreams records = .ok streams) : StreamsListed streams records := by
  obtain ⟨unsorted, folded, returned⟩ := ok_of_bind collected
  have start : StreamsListed [] [] := by
    constructor
    · exact nodup_nil
    · intro record member
      cases member
    · intro stream member
      cases member
  have listed := foldlM_invariant StreamsListed
    (fun _ _ _ _ holds inserted => holds.insertStream inserted) records [] unsorted [] start folded
  cases returned
  exact listed.perm (perm_insertionSort _ _)

section Streams

variable {streams : List (LogStreamId × List UInt8)} {records : List RlogRecord} {record : RlogRecord}

theorem StreamsListed.find (holds : StreamsListed streams records) (member : record ∈ records) :
    streams.find? (fun stream => stream.1 = record.streamId) = some (record.streamId, record.streamAttrs) := by
  have unique : AtMostOne (fun stream : LogStreamId × List UInt8 => stream.1 = record.streamId) streams :=
    atMostOne_key holds.distinct _
  exact unique.find?_eq_some (holds.present record member) (decide_eq_true rfl)

theorem StreamsListed.streamRef (holds : StreamsListed streams records) (member : record ∈ records) :
    streams[streams.findIdx fun stream => stream.1 = record.streamId]? = some (record.streamId, record.streamAttrs) := by
  rw [← holds.find member, find?_eq_getElem?_findIdx]

end Streams

/-- What the plan of an object gives about the records. -/
structure Planned (writer : RlogWriter) (plan : Layout) : Prop where
  nonempty : writer.records ≠ []
  streams : StreamsListed plan.streams writer.records
  pairs : ∀ record ∈ writer.records,
    streamAttrPairs record.streamAttrs = .ok (pairsOf plan.pairs record.streamId)
  columns : plan.columns =
    assignColumns (distinctPairs writer.records (plan.pairs.flatMap Prod.snd) writer.indexedFields) writer.cfg
  keyPlan : keyIndexPlan writer.keyIndexFields = .ok plan.keyPlan

theorem Planned.distinctColumns {writer : RlogWriter} {plan : Layout} (planned : Planned writer plan) :
    DistinctColumns plan.columns := by
  rw [planned.columns]
  exact assignColumns_distinct (distinctPairs_nodup _ _ _) _

theorem pairsOf_streamPairs {streams : List (LogStreamId × List UInt8)}
    {pairs : List (LogStreamId × List (String × AttrValue))} (decoded : streamPairs streams = .ok pairs)
    {id : LogStreamId} {blob : List UInt8} (found : streams.find? (fun stream => stream.1 = id) = some (id, blob)) :
    streamAttrPairs blob = .ok (pairsOf pairs id) := by
  have aligned := mapM_eq_ok.mp decoded
  clear decoded
  induction aligned with
  | nil => cases found
  | @cons stream pair streams pairs stepped _ ih =>
    obtain ⟨attrs, read, returned⟩ := ok_of_bind stepped
    cases returned
    by_cases same : stream.1 = id
    · simp only [find?_cons, same, decide_true] at found
      cases found
      rw [read]
      simp [pairsOf]
    · simp only [find?_cons, same, decide_false] at found
      rw [ih found]
      simp [pairsOf, same]

theorem layout_planned {writer : RlogWriter} {plan : Layout} (planned : writer.layout = .ok plan) :
    Planned writer plan := by
  unfold layout at planned
  by_cases wide : maxDynamicColumns < writer.cfg.maxDynamicColumns
  · simp only [if_pos wide] at planned
    cases planned
  by_cases empty : writer.records.isEmpty
  · simp only [if_neg wide, if_pos empty] at planned
    cases planned
  simp only [if_neg wide, if_neg empty] at planned
  obtain ⟨streams, collected, afterStreams⟩ := ok_of_bind planned
  obtain ⟨keyPlan, keyed, afterKeys⟩ := ok_of_bind afterStreams
  obtain ⟨pairs, decoded, returned⟩ := ok_of_bind afterKeys
  cases returned
  have listed := collectStreams_listed collected
  constructor
  · intro none
    exact empty (List.isEmpty_iff.mpr none)
  · exact listed
  · intro record member
    exact pairsOf_streamPairs decoded (listed.find member)
  · rfl
  · exact keyed

/-- The plan, the rows with their records and the object of one successful `finish`. -/
structure Finished (platform : Platform) (writer : RlogWriter) (plan : Layout) (rows : List (RlogRecord × ResolvedRow))
    (object : RlogObject) : Prop where
  planned : Planned writer plan
  resolved : writer.resolveRows platform plan = .ok rows
  assembled : object = writer.assemble platform plan (rows.map Prod.snd)

theorem finished_of_finish {platform : Platform} {writer : RlogWriter} {object : RlogObject}
    (wrote : writer.finish platform = .ok object) : ∃ plan rows, Finished platform writer plan rows object := by
  obtain ⟨plan, planned, afterPlan⟩ := ok_of_bind wrote
  obtain ⟨rows, resolved, returned⟩ := ok_of_bind afterPlan
  cases returned
  exact ⟨plan, rows, layout_planned planned, resolved, rfl⟩

/-- The chunk loop cuts the rows into blocks without a loss. -/
theorem flatten_chunkLoop (cfg : RlogConfig) (rows : List ResolvedRow) : ∀ (block : List ResolvedRow) (bytes : Nat),
    (chunkLoop cfg block bytes rows).flatten = block ++ rows := by
  induction rows with
  | nil =>
    intro block bytes
    cases block <;> simp [chunkLoop]
  | cons row rest ih =>
    intro block bytes
    rw [chunkLoop]
    split
    · rw [flatten_cons, ih, singleton_append]
    · rw [ih, append_assoc, singleton_append]

namespace Finished

variable {platform : Platform} {writer : RlogWriter} {plan : Layout} {rows : List (RlogRecord × ResolvedRow)}
  {object : RlogObject}

section

variable (finished : Finished platform writer plan rows object)

include finished

theorem streamDir : object.streamDir = plan.streams := by
  rw [finished.assembled]
  rfl

theorem fieldDir : object.fieldDir = plan.columns.insertionSort fieldEntryLe := by
  rw [finished.assembled]
  rfl

theorem blocks : object.blocks = chunkBlocks writer.cfg (rows.map Prod.snd) := by
  rw [finished.assembled]
  rfl

theorem objectRows : object.rows = rows.map Prod.snd := by
  rw [RlogObject.rows, finished.blocks, chunkBlocks, flatten_chunkLoop, nil_append]

theorem unsorted : ∃ unsorted : List (RlogRecord × ResolvedRow), rows = sortRows writer.cluster unsorted ∧
      Forall₂ (fun record pair => pair.1 = record ∧
        resolveRow platform plan.streams (plan.index writer) (plan.seedOf writer) record = .ok pair.2)
        writer.records unsorted := by
  obtain ⟨unsorted, mapped, returned⟩ := ok_of_bind finished.resolved
  cases returned
  refine ⟨unsorted, rfl, (mapM_eq_ok.mp mapped).imp ?_⟩
  intro record pair stepped
  obtain ⟨row, resolved, returned⟩ := ok_of_bind stepped
  cases returned
  exact ⟨rfl, resolved⟩

theorem row_of_record {record : RlogRecord} {row : ResolvedRow} (member : (record, row) ∈ rows) : record ∈ writer.records ∧
      resolveRow platform plan.streams (plan.index writer) (plan.seedOf writer) record = .ok row := by
  obtain ⟨unsorted, rfl, aligned⟩ := finished.unsorted
  have inUnsorted : (record, row) ∈ unsorted := (mem_insertionSort _).mp member
  clear member finished
  generalize writer.records = records at aligned ⊢
  induction aligned with
  | nil => cases inUnsorted
  | @cons first pair _ _ resolved _ ih =>
    rcases mem_cons.mp inUnsorted with rfl | later
    · obtain ⟨rfl, resolved⟩ := resolved
      exact ⟨mem_cons_self, resolved⟩
    · obtain ⟨known, laterResolved⟩ := ih later
      exact ⟨mem_cons_of_mem first known, laterResolved⟩

theorem record_of_row {row : ResolvedRow} (member : row ∈ object.rows) : ∃ record, (record, row) ∈ rows := by
  rw [finished.objectRows] at member
  obtain ⟨pair, pairIn, rfl⟩ := mem_map.mp member
  exact ⟨pair.1, pairIn⟩

/-- The records of the rows are the buffered records in another order. -/
theorem records_perm : (rows.map Prod.fst).Perm writer.records := by
  obtain ⟨unsorted, rfl, aligned⟩ := finished.unsorted
  have same : unsorted.map Prod.fst = writer.records := by
    clear finished
    generalize writer.records = records at aligned
    induction aligned with
    | nil => rfl
    | cons resolved _ ih => rw [map_cons, ih, resolved.1]
  rw [← same]
  exact (perm_insertionSort _ _).map Prod.fst

end

end Finished

end Ravel.Logs
