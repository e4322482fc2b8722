import Ravel.Proof.Logs.RereadRecords
import Ravel.Proof.Logs.ShadowedValues
import Ravel.Proof.Maintain.DeclaredStamps

namespace Ravel.Maintain

open List Library Logs RlogWriter

/-- The record is read from a row of an input. -/
def ReadFrom (inputs : List RlogObject) (record : RlogRecord) : Prop :=
  ∃ input ∈ inputs, ∃ row ∈ input.rows, input.rebuildRecord row = .ok record

/-- The two rows resolve every name to the same value. -/
def SameView (input part : RlogObject) (row partRow : ResolvedRow) : Prop :=
  ∃ view partView, input.mergedView row = .ok view ∧ part.mergedView partRow = .ok partView ∧
    ∀ name, resolveName partView name = resolveName view name

/-- Every record of the part has the view that it has in its input. -/
def ViewsKept (platform : Platform) (inputs : List RlogObject) (writer : RlogWriter) (plan : Layout) (part : RlogObject) :
    Prop :=
  ∀ input ∈ inputs, ∀ row ∈ input.rows, ∀ record ∈ writer.records, input.rebuildRecord row = .ok record →
    ∃ partRow ∈ part.rows,
      resolveRow platform plan.streams (plan.index writer) (plan.seedOf writer) record = .ok partRow ∧
        SameView input part row partRow

/-- The stamps of the part are those of the rows that a query reads from it. -/
def StampsFollowPart (declared : List (String × DeclaredStatType)) (streams : List (LogStreamId × List UInt8))
    (records : List RlogRecord) (part : RlogObject) : Prop :=
  ∃ views, part.rows.mapM part.mergedView = .ok views ∧
    StampsExact declared views
      ((PartBuilder.ofRecords (DeclaredSchema.build declared streams) records).declaredAccum.buildStamps
        (DeclaredSchema.build declared streams) part.rows.length)

/-- The last value of every name of every record stays the winner in the part. -/
def WinnersKept (plan : Layout) (records : List RlogRecord) : Prop :=
  ∀ record ∈ records, ∀ name last, lastPassing (named name) record.attrs = some last →
    WinnerKept plan.columns record.attrs name last

/-- The streams of the inputs are listed once each. -/
structure MergedStreams (entries streams : List (LogStreamId × List UInt8)) : Prop where
  distinct : (streams.map Prod.fst).Nodup
  present : ∀ entry ∈ entries, entry ∈ streams
  source : ∀ stream ∈ streams, stream ∈ entries

theorem mergeStream_step {streams next entries : List (LogStreamId × List UInt8)} {entry : LogStreamId × List UInt8}
    (holds : MergedStreams entries streams) (merged : mergeStream streams entry = .ok next) :
    MergedStreams (entries ++ [entry]) next := by
  rw [mergeStream] at merged
  split at merged
  · rename_i absent
    cases merged
    rw [find?_eq_none] at absent
    constructor
    · rw [map_append, nodup_append]
      refine ⟨holds.distinct, nodup_singleton _, ?_⟩
      intro id old other new same
      obtain ⟨stream, member, rfl⟩ := mem_map.mp old
      apply absent stream member
      rw [same, mem_singleton.mp new]
      exact decide_eq_true rfl
    · intro other member
      rcases mem_append.mp member with old | new
      · exact mem_append_left _ (holds.present other old)
      · exact mem_append_right _ new
    · intro stream member
      rcases mem_append.mp member with old | new
      · exact mem_append_left _ (holds.source stream old)
      · exact mem_append_right _ new
  · rename_i id blob found
    split at merged
    · rename_i same
      cases merged
      have passes := find?_some found
      have listed := mem_of_find?_eq_some found
      have whole : (id, blob) = entry := Prod.ext (of_decide_eq_true passes) same
      rw [whole] at listed
      refine ⟨holds.distinct, ?_, fun stream member => mem_append_left _ (holds.source stream member)⟩
      intro other member
      rcases mem_append.mp member with old | new
      · exact holds.present other old
      · rw [mem_singleton.mp new]
        exact listed
    · cases merged

theorem mergedStreams_spec {inputs : List RlogObject} {streams : List (LogStreamId × List UInt8)}
    (merged : mergedStreams inputs = .ok streams) : MergedStreams (inputs.flatMap RlogObject.streamDir) streams := by
  obtain ⟨unsorted, folded, returned⟩ := ok_of_bind merged
  have start : MergedStreams [] [] := by
    constructor
    · exact nodup_nil
    · intro entry member
      cases member
    · intro stream member
      cases member
  have holds := foldlM_invariant (fun streams entries => MergedStreams entries streams)
    (fun _ _ _ _ before stepped => mergeStream_step before stepped) _ [] unsorted [] start folded
  cases returned
  have reordered : (unsorted.insertionSort streamLe).Perm unsorted := perm_insertionSort _ _
  exact ⟨(reordered.map Prod.fst).nodup_iff.mpr holds.distinct,
    fun entry member => reordered.mem_iff.mpr (holds.present entry member),
    fun stream member => holds.source stream (reordered.mem_iff.mp member)⟩

section Inputs

variable {platform : Platform}

/-- A record that was read from an input, with the record that the input was written from. -/
structure Reread (platform : Platform) (input : RlogObject) (row : ResolvedRow) (record : RlogRecord)
    (writer : RlogWriter) (plan : Layout) (source : RlogRecord) : Prop where
  planned : Planned writer plan
  sourceIn : source ∈ writer.records
  read : record = { source with attrs := readAttrs plan.columns source.attrs }
  view : input.mergedView row = .ok (viewOf plan source)
  listed : (record.streamId, record.streamAttrs) ∈ input.streamDir

variable {input : RlogObject} {row : ResolvedRow} {record : RlogRecord}

theorem reread_of_rebuild {writer : RlogWriter} (wrote : writer.finish platform = .ok input)
    (rowIn : row ∈ input.rows) (rebuilt : input.rebuildRecord row = .ok record) :
    ∃ plan source, Reread platform input row record writer plan source := by
  obtain ⟨plan, rows, finished⟩ := finished_of_finish wrote
  obtain ⟨source, pair⟩ := finished.record_of_row rowIn
  have read := finished.rebuildRecord_row pair
  rw [rebuilt] at read
  have sourceIn := (finished.row_of_record pair).1
  refine ⟨plan, source, finished.planned, sourceIn, Except.ok.inj read, finished.mergedView_row pair, ?_⟩
  rw [Except.ok.inj read, finished.streamDir]
  exact finished.planned.streams.present source sourceIn

theorem Reread.view_eq {source : RlogRecord} {writer : RlogWriter} {plan : Layout}
    (reread : Reread platform input row record writer plan source) {pairs : List (String × AttrValue)}
    (decoded : streamAttrPairs record.streamAttrs = .ok pairs) :
    viewOf plan source = record.attrs.foldl Erasure.overlayAttr (pairs.filter fun pair => !isNested pair.2) := by
  have own := reread.planned.pairs source reread.sourceIn
  rw [reread.read] at decoded ⊢
  rw [own] at decoded
  rw [viewOf, Except.ok.inj decoded]

theorem encodable_of_row {writer : RlogWriter} {plan : Layout} {rows : List (RlogRecord × ResolvedRow)}
    {part : RlogObject} (finished : Finished platform writer plan rows part) (member : (record, row) ∈ rows) :
    Encodable (placeAttrs plan.columns record.attrs).overflow := by
  obtain ⟨recordIn, resolved⟩ := finished.row_of_record member
  obtain ⟨attrsRaw, encoded, _⟩ := resolveRow_ok resolved
  have inOrder := (placeAttrs_placed plan.columns record.attrs).overflowInOrder
  have sameOverflow : (splitAttrs (plan.index writer) record.attrs).overflow =
      (placeAttrs plan.columns record.attrs).overflow := by
    rw [finished.split]
    rfl
  rw [sameOverflow, encodeOverflow] at encoded
  constructor
  · intro attr attrIn
    split at encoded
    · rename_i empty
      rw [List.isEmpty_iff.mp empty] at attrIn
      cases attrIn
    · obtain ⟨_, passed, _⟩ := ok_of_bind encoded
      obtain ⟨_, _, afterDepth⟩ := ok_of_bind passed
      obtain ⟨_, _, entries⟩ := ok_of_bind afterDepth
      exact (checkAttrsRawEntries_iff 0 _).mp entries attr attrIn
  · intro attr attrIn
    have single : [attr].Sublist record.attrs := (singleton_sublist.mpr attrIn).trans inOrder
    have bound := canonicalAttrBytes_of_sublist single (writer.fits record recordIn)
    rw [length_canonicalAttrBytes] at bound
    simp only [map_singleton, sum_singleton, entryBytes, length_append] at bound
    omega

end Inputs

section Parts

variable {platform : Platform} {writer : RlogWriter} {plan : Layout} {rows : List (RlogRecord × ResolvedRow)}
  {part : RlogObject}

/-- The part keeps the view of a record exactly when the last value of every name stays the winner. -/
theorem sameView_iff (finished : Finished platform writer plan rows part) {record : RlogRecord} {partRow : ResolvedRow}
    (member : (record, partRow) ∈ rows) {input : RlogObject} {row : ResolvedRow} {inputWriter : RlogWriter}
    {inputPlan : Layout} {source : RlogRecord} (reread : Reread platform input row record inputWriter inputPlan source) :
    SameView input part row partRow ↔
      ∀ name last, lastPassing (named name) record.attrs = some last → WinnerKept plan.columns record.attrs name last := by
  have decoded := finished.planned.pairs record (finished.row_of_record member).1
  have encodable := encodable_of_row finished member
  have attrs : record.attrs = readAttrs inputPlan.columns source.attrs := by rw [reread.read]
  have names : SameView input part row partRow ↔
      ∀ name, resolveName (viewOf plan record) name = resolveName (viewOf inputPlan source) name := by
    constructor
    · rintro ⟨view, partView, viewed, partViewed, same⟩
      rw [reread.view] at viewed
      rw [finished.mergedView_row member] at partViewed
      cases viewed
      cases partViewed
      exact same
    · intro same
      exact ⟨_, _, reread.view, finished.mergedView_row member, same⟩
  rw [names]
  apply forall_congr'
  intro name
  rw [reread.view_eq decoded, viewOf, resolveName_foldl_overlayAttr, resolveName_foldl_overlayAttr]
  cases isLast : lastPassing (named name) record.attrs with
  | none =>
    have none : lastPassing (named name) (readAttrs plan.columns record.attrs) = none := by
      rw [lastPassing_readAttrs_eq_none]
      exact lastPassing_eq_none.mp isLast
    rw [none]
    simp
  | some last =>
    have kept : lastPassing (named name) (readAttrs plan.columns record.attrs) = some last ↔
        WinnerKept plan.columns record.attrs name last := by
      rw [attrs] at encodable isLast ⊢
      exact reread_last_iff reread.planned reread.sourceIn encodable isLast
    have present : ∃ own, lastPassing (named name) (readAttrs plan.columns record.attrs) = some own := by
      rw [← Option.ne_none_iff_exists']
      intro absent
      obtain ⟨lastIn, lastNamed⟩ := mem_of_lastPassing isLast
      exact lastPassing_readAttrs_eq_none.mp absent last lastIn lastNamed
    obtain ⟨own, ownIs⟩ := present
    rw [ownIs] at kept
    simpa [ownIs] using kept

theorem part_views (finished : Finished platform writer plan rows part) :
    part.rows.mapM part.mergedView = .ok (rows.map fun pair => viewOf plan pair.1) := by
  rw [finished.objectRows, mapM_eq_ok, forall₂_map_left_iff, forall₂_map_right_iff, forall₂_same]
  intro pair member
  exact finished.mergedView_row member

theorem stampsFollowPart_of_same (finished : Finished platform writer plan rows part)
    {declared : List (String × DeclaredStatType)} {streams : List (LogStreamId × List UInt8)}
    (listed : ∀ record ∈ writer.records, ∃ pairs, Listed declared streams record pairs)
    (decodes : ∀ stream ∈ streams, ∃ pairs, streamAttrPairs stream.2 = .ok pairs)
    (same : ∀ record ∈ writer.records, ∀ name,
      resolveName (viewOf plan record) name = resolveName (recordView record) name) :
    StampsFollowPart declared streams writer.records part := by
  have perm := finished.records_perm
  have count : part.rows.length = writer.records.length := by
    rw [finished.objectRows, length_map, ← perm.length_eq, length_map]
  have stamped := buildStamps_exact listed decodes
  refine ⟨_, part_views finished, ?_⟩
  rw [count]
  constructor
  · intro stat statIn
    obtain ⟨column, columnIn, named, typed, exact_⟩ := stamped.exact stat statIn
    refine ⟨column, columnIn, named, typed, ?_⟩
    have values : (writer.records.map recordView).map (fun view => declaredValue view column) =
        writer.records.map fun record => declaredValue (viewOf plan record) column := by
      rw [map_map]
      apply map_congr_left
      intro record recordIn
      show declaredValue (recordView record) column = _
      rw [declaredValue, declaredValue, same record recordIn]
    rw [values] at exact_
    have rowsValues : (rows.map fun pair => viewOf plan pair.1).map (fun view => declaredValue view column) =
        (rows.map Prod.fst).map fun record => declaredValue (viewOf plan record) column := by
      rw [map_map, map_map]
      rfl
    rw [rowsValues]
    exact exact_.perm (perm.symm.map _)
  · exact stamped.complete

end Parts

/-- A compaction keeps the merged view of every record of a part, and the part's stamps describe the rows that a query
reads, exactly when the last value of every name stays the winner in the part. -/
theorem compaction_keeps_views_iff (platform : Platform) (inputs : List RlogObject)
    (written : ∀ input ∈ inputs, ∃ writer : RlogWriter, writer.finish platform = .ok input)
    (streams : List (LogStreamId × List UInt8)) (merged : mergedStreams inputs = .ok streams)
    (declared : List (String × DeclaredStatType)) (names : (declared.map Prod.fst).Nodup) (settings : PartWriterSettings)
    (records : List RlogRecord) (sources : ∀ record ∈ records, ReadFrom inputs record)
    (fits : ∀ record ∈ records, addressable (canonicalAttrBytes record.attrs).length) (plan : Layout)
    (planned : (PartBuilder.buildWriter settings records fits).layout = .ok plan) (part : RlogObject)
    (wrote : (PartBuilder.buildWriter settings records fits).finish platform = .ok part) :
    ViewsKept platform inputs (PartBuilder.buildWriter settings records fits) plan part ∧
        StampsFollowPart declared streams records part ↔
      WinnersKept plan records := by
  obtain ⟨rows, finished⟩ := finished_of_layout planned wrote
  have spec := mergedStreams_spec merged
  have rowOf : ∀ record ∈ records, ∃ partRow, (record, partRow) ∈ rows := by
    intro record recordIn
    have listed : record ∈ rows.map Prod.fst := finished.records_perm.mem_iff.mpr recordIn
    obtain ⟨pair, pairIn, rfl⟩ := mem_map.mp listed
    exact ⟨pair.2, pairIn⟩
  have rereads : ∀ {input row record}, input ∈ inputs → row ∈ input.rows → input.rebuildRecord row = .ok record →
      ∃ writer inputPlan source, Reread platform input row record writer inputPlan source := by
    intro input row record inputIn rowIn rebuilt
    obtain ⟨writer, inputWrote⟩ := written input inputIn
    obtain ⟨inputPlan, source, reread⟩ := reread_of_rebuild inputWrote rowIn rebuilt
    exact ⟨writer, inputPlan, source, reread⟩
  constructor
  · rintro ⟨kept, _⟩ record recordIn
    obtain ⟨input, inputIn, row, rowIn, rebuilt⟩ := sources record recordIn
    obtain ⟨partRow, _, resolved, same⟩ := kept input inputIn row rowIn record recordIn rebuilt
    obtain ⟨writer, inputPlan, source, reread⟩ := rereads inputIn rowIn rebuilt
    exact (sameView_iff finished ((mem_rows finished).mpr ⟨recordIn, resolved⟩) reread).mp same
  · intro kept
    constructor
    · intro input inputIn row rowIn record recordIn rebuilt
      obtain ⟨partRow, pair⟩ := rowOf record recordIn
      obtain ⟨writer, inputPlan, source, reread⟩ := rereads inputIn rowIn rebuilt
      refine ⟨partRow, ?_, (finished.row_of_record pair).2, (sameView_iff finished pair reread).mpr (kept record recordIn)⟩
      rw [finished.objectRows]
      exact mem_map.mpr ⟨_, pair, rfl⟩
    · have listed : ∀ record ∈ records, ∃ pairs, Listed declared streams record pairs := by
        intro record recordIn
        obtain ⟨input, inputIn, row, rowIn, rebuilt⟩ := sources record recordIn
        obtain ⟨writer, inputPlan, source, reread⟩ := rereads inputIn rowIn rebuilt
        exact ⟨_, names, spec.distinct, spec.present _ (mem_flatMap.mpr ⟨input, inputIn, reread.listed⟩),
          finished.planned.pairs record recordIn⟩
      have decodes : ∀ stream ∈ streams, ∃ pairs, streamAttrPairs stream.2 = .ok pairs := by
        intro stream streamIn
        obtain ⟨input, inputIn, entryIn⟩ := mem_flatMap.mp (spec.source stream streamIn)
        obtain ⟨writer, inputWrote⟩ := written input inputIn
        obtain ⟨inputPlan, inputRows, inputFinished⟩ := finished_of_finish inputWrote
        rw [inputFinished.streamDir] at entryIn
        obtain ⟨source, sourceIn, rfl⟩ := inputFinished.planned.streams.source stream entryIn
        exact ⟨_, inputFinished.planned.pairs source sourceIn⟩
      apply stampsFollowPart_of_same finished listed decodes
      intro record recordIn name
      obtain ⟨input, inputIn, row, rowIn, rebuilt⟩ := sources record recordIn
      obtain ⟨writer, inputPlan, source, reread⟩ := rereads inputIn rowIn rebuilt
      obtain ⟨partRow, pair⟩ := rowOf record recordIn
      obtain ⟨view, partView, viewed, partViewed, same⟩ := (sameView_iff finished pair reread).mpr (kept record recordIn)
      obtain ⟨pairs, recordListed⟩ := listed record recordIn
      rw [finished.mergedView_row pair] at partViewed
      rw [reread.view] at viewed
      cases partViewed
      cases viewed
      rw [same name, reread.view_eq recordListed.decoded, recordListed.recordView_eq]

/-- Winners stay when no record repeats a name and every value is a scalar. -/
theorem winnersKept_of_unrepeated {plan : Layout} {records : List RlogRecord}
    (unrepeated : ∀ record ∈ records, (record.attrs.map Prod.fst).Nodup)
    (scalar : ∀ record ∈ records, ∀ attr ∈ record.attrs, isNested attr.2 = false) : WinnersKept plan records := by
  intro record recordIn name last isLast
  obtain ⟨lastIn, lastNamed⟩ := mem_of_lastPassing isLast
  constructor
  · intro other otherIn otherNamed
    have inAttrs := (placeAttrs_placed plan.columns record.attrs).overflowInOrder.mem otherIn
    have sameName : other.1 = last.1 := (of_decide_eq_true otherNamed).trans (of_decide_eq_true lastNamed).symm
    have same := inj_on_of_nodup_map (unrepeated record recordIn) inAttrs lastIn sameName
    rw [same] at otherIn ⊢
    exact ⟨otherIn, List.le_refl _⟩
  · intro _
    exact scalar record recordIn last lastIn

/-- An object without columns returns sorted scalar attributes as they are. -/
theorem rebuild_of_sorted {platform : Platform} {writer : RlogWriter} {input : RlogObject}
    (wrote : writer.finish platform = .ok input) (unplaced : writer.cfg.maxDynamicColumns = 0) {record : RlogRecord}
    (recordIn : record ∈ writer.records) (sorted : record.attrs.Pairwise attrLe)
    (scalar : ∀ attr ∈ record.attrs, isNested attr.2 = false) :
    ∃ row ∈ input.rows, input.rebuildRecord row = .ok record := by
  obtain ⟨plan, rows, finished⟩ := finished_of_finish wrote
  have noColumns : plan.columns = [] := by
    rw [finished.planned.columns, assignColumns, unplaced]
    rfl
  have overflows : ∀ attrs : List (String × AttrValue), placeAttrs [] attrs = ⟨[], attrs⟩ := by
    intro attrs
    induction attrs using reverseRecOn with
    | nil => rfl
    | append_singleton attrs attr ih =>
      rw [placeAttrs, foldl_append]
      rw [placeAttrs] at ih
      rw [ih]
      rfl
  have unchanged : record.attrs.map canonicalEntry = record.attrs := by
    conv_rhs => rw [← map_id record.attrs]
    apply map_congr_left
    intro attr attrIn
    exact Prod.ext rfl (canonicalValue_of_flat (scalar attr attrIn))
  have same : readAttrs plan.columns record.attrs = record.attrs := by
    rw [noColumns, readAttrs, overflows, canonicalAttrs_eq _ fun attr _ => encodedEntry_canonicalEntry attr,
      sorted.insertionSort_eq, unchanged]
    rfl
  have listed : record ∈ rows.map Prod.fst := finished.records_perm.mem_iff.mpr recordIn
  obtain ⟨pair, pairIn, rfl⟩ := mem_map.mp listed
  refine ⟨pair.2, ?_, ?_⟩
  · rw [finished.objectRows]
    exact mem_map.mpr ⟨pair, pairIn, rfl⟩
  · rw [finished.rebuildRecord_row pairIn, same]

/-- A writer without columns for one record. -/
def columnlessWriter (record : RlogRecord)
    (fits : ∀ other ∈ [record], addressable (canonicalAttrBytes other.attrs).length) : RlogWriter where
  cfg := sampleConfig 0
  records := [record]
  indexedFields := []
  keyIndexFields := []
  bloomScope := .text
  cluster := none
  fits := fits

def samplePartSettings : PartWriterSettings where
  indexedFields := []
  keyIndexFields := []
  cluster := none
  bloomScope := .text

def singleRecord : RlogRecord := sampleRecord [("n", .i64 7)]

theorem singleRecord_fits : ∀ other ∈ [singleRecord], addressable (canonicalAttrBytes other.attrs).length := by
  decide +kernel

/-- The compaction of a record with one attribute keeps its view and stamps it. -/
theorem compaction_keeps_views_sample :
    ∃ input streams plan part, (columnlessWriter singleRecord singleRecord_fits).finish samplePlatform = .ok input ∧
      mergedStreams [input] = .ok streams ∧
        (PartBuilder.buildWriter samplePartSettings [singleRecord] singleRecord_fits).finish samplePlatform = .ok part ∧
          ViewsKept samplePlatform [input]
            (PartBuilder.buildWriter samplePartSettings [singleRecord] singleRecord_fits) plan part ∧
            StampsFollowPart [("n", .i64)] streams [singleRecord] part := by
  have sampledInput : ((columnlessWriter singleRecord singleRecord_fits).finish samplePlatform).toOption.any
      (fun input => (mergedStreams [input]).isOk) := by decide +kernel
  have sampledPart : ((PartBuilder.buildWriter samplePartSettings [singleRecord] singleRecord_fits).finish
      samplePlatform).toOption.any (fun part => part.rows.length = 1) := by decide +kernel
  obtain ⟨input, inputWrote, mergedOk⟩ := exists_finished sampledInput
  obtain ⟨part, wrote, _⟩ := exists_finished sampledPart
  obtain ⟨plan, planned, _⟩ := ok_of_bind wrote
  cases merged : mergedStreams [input] with
  | error conflict =>
    rw [merged] at mergedOk
    cases mergedOk
  | ok streams =>
    have written : ∀ other ∈ [input], ∃ writer : RlogWriter, writer.finish samplePlatform = .ok other := by
      intro other member
      rw [mem_singleton.mp member]
      exact ⟨_, inputWrote⟩
    have sources : ∀ record ∈ [singleRecord], ReadFrom [input] record := by
      intro record member
      rw [mem_singleton.mp member]
      obtain ⟨row, rowIn, rebuilt⟩ := rebuild_of_sorted inputWrote rfl mem_cons_self
        (pairwise_singleton _ _) (by decide +kernel)
      exact ⟨input, mem_cons_self, row, rowIn, rebuilt⟩
    have kept : WinnersKept plan [singleRecord] := by
      apply winnersKept_of_unrepeated
      · decide +kernel
      · decide +kernel
    have both := (compaction_keeps_views_iff samplePlatform [input] written streams merged [("n", .i64)]
      (nodup_singleton _) samplePartSettings [singleRecord] sources singleRecord_fits plan planned part wrote).mpr kept
    exact ⟨input, streams, plan, part, inputWrote, merged, wrote, both.1, both.2⟩

/-- A record with two strings and an integer under one name. -/
def repeatedRecord : RlogRecord := sampleRecord [("k", .str "a"), ("k", .str "b"), ("k", .i64 5)]

theorem repeatedRecord_fits : ∀ other ∈ [repeatedRecord], addressable (canonicalAttrBytes other.attrs).length := by
  decide +kernel

/-- The input resolves the name to the integer and stamps it, and the part resolves it to a string. -/
theorem compaction_changes_winner :
    ∃ input part row partRow view partView,
      (columnlessWriter repeatedRecord repeatedRecord_fits).finish samplePlatform = .ok input ∧
        (PartBuilder.buildWriter samplePartSettings [repeatedRecord] repeatedRecord_fits).finish samplePlatform = .ok part ∧
          row ∈ input.rows ∧ input.rebuildRecord row = .ok repeatedRecord ∧ input.mergedView row = .ok view ∧
            part.rows = [partRow] ∧ part.mergedView partRow = .ok partView ∧
              typedValue view "k" .i64 = some (.i64 5) ∧ typedValue partView "k" .str = some (.str (utf8Bytes "b")) ∧
                declaredValue partView ("k", .i64) = none ∧
                  (PartBuilder.ofRecords (DeclaredSchema.build [("k", .i64)] input.streamDir)
                    [repeatedRecord]).declaredAccum.buildStamps (DeclaredSchema.build [("k", .i64)] input.streamDir) 1 =
                      [⟨"k", .i64, some (.i64 5), some (.i64 5), 0⟩] := by
  have sampledInput : ((columnlessWriter repeatedRecord repeatedRecord_fits).finish samplePlatform).toOption.any
      (fun input => (PartBuilder.ofRecords (DeclaredSchema.build [("k", .i64)] input.streamDir)
          [repeatedRecord]).declaredAccum.buildStamps (DeclaredSchema.build [("k", .i64)] input.streamDir) 1 ==
            [⟨"k", .i64, some (.i64 5), some (.i64 5), 0⟩] &&
        input.rows.all fun row => (input.mergedView row).toOption.any fun view =>
          typedValue view "k" .i64 == some (.i64 5)) := by decide +kernel
  have sampledPart : ((PartBuilder.buildWriter samplePartSettings [repeatedRecord] repeatedRecord_fits).finish
      samplePlatform).toOption.any (fun part => part.rows.length == 1 &&
        part.rows.all fun row => (part.mergedView row).toOption.any fun view =>
          typedValue view "k" .str == some (.str (utf8Bytes "b")) && declaredValue view ("k", .i64) == none) := by
    decide +kernel
  have sorted : repeatedRecord.attrs.Pairwise attrLe := by decide +kernel
  have scalar : ∀ attr ∈ repeatedRecord.attrs, isNested attr.2 = false := by decide +kernel
  obtain ⟨input, inputWrote, inputTested⟩ := exists_finished sampledInput
  obtain ⟨part, wrote, partTested⟩ := exists_finished sampledPart
  obtain ⟨stamped, viewed⟩ := (Bool.and_eq_true _ _).mp inputTested
  obtain ⟨single, partViewed⟩ := (Bool.and_eq_true _ _).mp partTested
  obtain ⟨partRow, only⟩ := length_eq_one_iff.mp (eq_of_beq single)
  obtain ⟨row, rowIn, rebuilt⟩ := rebuild_of_sorted inputWrote rfl mem_cons_self sorted scalar
  obtain ⟨view, viewIs, resolved⟩ := (Option.any_eq_true _ _).mp (all_eq_true.mp viewed row rowIn)
  rw [only] at partViewed
  obtain ⟨partView, partViewIs, partResolved⟩ :=
    (Option.any_eq_true _ _).mp (all_eq_true.mp partViewed partRow mem_cons_self)
  obtain ⟨asText, asNull⟩ := (Bool.and_eq_true _ _).mp partResolved
  exact ⟨input, part, row, partRow, view, partView, inputWrote, wrote, rowIn, rebuilt, ok_of_toOption viewIs, only,
    ok_of_toOption partViewIs, eq_of_beq resolved, eq_of_beq asText, eq_of_beq asNull, eq_of_beq stamped⟩

end Ravel.Maintain
