import Ravel.Proof.Logs.ScanExactness

namespace Ravel.Logs

open List Library RlogWriter

/-- The record has a row in the block. -/
def InBlock (platform : Platform) (writer : RlogWriter) (plan : Layout) (object : RlogObject) (block : Nat)
    (record : RlogRecord) : Prop :=
  record ∈ writer.records ∧ ∃ blockRows row, object.blocks[block]? = some blockRows ∧ row ∈ blockRows ∧
    resolveRow platform plan.streams (plan.index writer) (plan.seedOf writer) record = .ok row

/-- Every first value of an uncapped column is shown by some record of its block. -/
def FirstValuesShown (platform : Platform) (writer : RlogWriter) (plan : Layout) (object : RlogObject) : Prop :=
  ∀ block record, InBlock platform writer plan object block record → ∀ column ∈ plan.columns,
    (probePostings object.postings column.columnId []).isSome →
      ∀ attr, record.attrs.find? (fun attr => typedPair attr = column.pair) = some attr →
        ∃ other, InBlock platform writer plan object block other ∧
          ∃ shown ∈ shownValues plan.columns other.attrs (pairsOf plan.pairs other.streamId) column.name,
            typedPair shown = column.pair ∧ termKey (resolveValue shown.2).2 = termKey (resolveValue attr.2).2

theorem finished_of_layout {platform : Platform} {writer : RlogWriter} {plan : Layout} {object : RlogObject}
    (planned : writer.layout = .ok plan) (wrote : writer.finish platform = .ok object) :
    ∃ rows, Finished platform writer plan rows object := by
  obtain ⟨other, otherPlanned, afterPlan⟩ := ok_of_bind wrote
  rw [planned] at otherPlanned
  cases otherPlanned
  obtain ⟨rows, resolved, returned⟩ := ok_of_bind afterPlan
  cases returned
  exact ⟨rows, layout_planned planned, resolved, rfl⟩

section Records

variable {platform : Platform} {writer : RlogWriter} {plan : Layout} {rows : List (RlogRecord × ResolvedRow)}
  {object : RlogObject}

variable {record : RlogRecord} {row : ResolvedRow}

section

variable (finished : Finished platform writer plan rows object)

include finished

theorem mem_rows : (record, row) ∈ rows ↔ record ∈ writer.records ∧
      resolveRow platform plan.streams (plan.index writer) (plan.seedOf writer) record = .ok row := by
  constructor
  · exact finished.row_of_record
  · rintro ⟨member, resolved⟩
    have listed : record ∈ rows.map Prod.fst := finished.records_perm.mem_iff.mpr member
    obtain ⟨pair, pairIn, rfl⟩ := mem_map.mp listed
    have own := (finished.row_of_record pairIn).2
    rw [resolved] at own
    rw [Except.ok.inj own]
    exact pairIn

theorem inBlock_iff {block : Nat} {blockRows : List ResolvedRow} (located : object.blocks[block]? = some blockRows) :
    InBlock platform writer plan object block record ↔ ∃ row ∈ blockRows, (record, row) ∈ rows := by
  constructor
  · rintro ⟨member, otherRows, row, otherLocated, rowIn, resolved⟩
    rw [located] at otherLocated
    cases otherLocated
    exact ⟨row, rowIn, (mem_rows finished).mpr ⟨member, resolved⟩⟩
  · rintro ⟨row, rowIn, pair⟩
    obtain ⟨member, resolved⟩ := (mem_rows finished).mp pair
    exact ⟨member, blockRows, row, located, rowIn, resolved⟩

theorem cellOf_row_eq_first (member : (record, row) ∈ rows) {column : Column} (columnIn : column ∈ plan.columns) : cellOf row.columns column.columnId =
      (record.attrs.find? fun attr => typedPair attr = column.pair).map fun attr => (resolveValue attr.2).2 := by
  have owned : (columnOf plan.columns column.pair).isSome := by
    rw [columnOf_mem finished.planned.distinctColumns columnIn]
    rfl
  rw [finished.cellOf_row member columnIn, (placeAttrs_placed plan.columns record.attrs).first column.pair owned]

theorem cellsPosted_iff : CellsPosted object ↔ FirstValuesShown platform writer plan object := by
  have terms : ∀ {record row}, (record, row) ∈ rows → ∀ column ∈ plan.columns,
      (probePostings object.postings column.columnId []).isSome → ∀ value,
        (column.columnId, value) ∈ row.indexedTerms ↔
          ∃ attr ∈ shownValues plan.columns record.attrs (pairsOf plan.pairs record.streamId) column.name,
            typedPair attr = column.pair ∧ (resolveValue attr.2).2 = value := by
    intro record row pair column columnIn answered value
    obtain ⟨found, probed⟩ := Option.isSome_iff_exists.mp answered
    exact finished.mem_indexedTerms pair (finished.indexed_of_probe columnIn probed)
      (columnOf_mem finished.planned.distinctColumns columnIn) value
  constructor
  · intro posted block record inBlock column columnIn answered attr found
    obtain ⟨_, blockRows, row, located, rowIn, _⟩ := id inBlock
    obtain ⟨row, rowIn, pair⟩ := (inBlock_iff finished located).mp inBlock
    have stored : cellOf row.columns column.columnId = some (resolveValue attr.2).2 := by
      rw [cellOf_row_eq_first finished pair columnIn, found]
      rfl
    obtain ⟨other, otherIn, value, termIn, sameTerm⟩ := posted block blockRows located row rowIn column
      ((fieldDir_mem finished).mpr columnIn) answered _ stored
    obtain ⟨otherRecord, otherPair⟩ := finished.record_of_row (Finished.mem_rows_of_block located otherIn)
    obtain ⟨shown, shownIn, typed, rfl⟩ := (terms otherPair column columnIn answered value).mp termIn
    exact ⟨otherRecord, (inBlock_iff finished located).mpr ⟨other, otherIn, otherPair⟩, shown, shownIn, typed, sameTerm⟩
  · intro firstsShown block blockRows located row rowIn column columnDir answered cell stored
    have columnIn := (fieldDir_mem finished).mp columnDir
    obtain ⟨record, pair⟩ := finished.record_of_row (Finished.mem_rows_of_block located rowIn)
    rw [cellOf_row_eq_first finished pair columnIn, Option.map_eq_some_iff] at stored
    obtain ⟨attr, found, rfl⟩ := stored
    obtain ⟨other, otherInBlock, shown, shownIn, typed, sameTerm⟩ := firstsShown block record
      ((inBlock_iff finished located).mpr ⟨row, rowIn, pair⟩) column columnIn answered attr found
    obtain ⟨otherRow, otherIn, otherPair⟩ := (inBlock_iff finished located).mp otherInBlock
    refine ⟨otherRow, otherIn, _, (terms otherPair column columnIn answered _).mpr ⟨shown, shownIn, typed, rfl⟩, sameTerm⟩

theorem firstValuesShown_of_unrepeated
    (unrepeated : ∀ record ∈ writer.records, ∀ name ∈ writer.indexedFields, (record.attrs.filter (named name)).length ≤ 1) : FirstValuesShown platform writer plan object := by
  intro block record inBlock column columnIn answered attr found
  obtain ⟨_, probed⟩ := Option.isSome_iff_exists.mp answered
  have indexed := finished.indexed_of_probe columnIn probed
  have passes := find?_some found
  have typed : typedPair attr = column.pair := of_decide_eq_true passes
  have attrNamed : named column.name attr := decide_eq_true (congrArg Prod.fst typed)
  have attrIn := mem_of_find?_eq_some found
  refine ⟨record, inBlock, ?_⟩
  cases last : lastPassing (named column.name) (readAttrs plan.columns record.attrs) with
  | none => exact absurd attrNamed (lastPassing_readAttrs_eq_none.mp last attr attrIn)
  | some own =>
    obtain ⟨source, sourceIn, sourceNamed, sameEntry⟩ := source_of_lastPassing last
    have same : source = attr := by
      have sourceFiltered := mem_filter.mpr ⟨sourceIn, sourceNamed⟩
      have attrFiltered := mem_filter.mpr ⟨attrIn, attrNamed⟩
      obtain ⟨only, single⟩ := length_eq_one_iff.mp
        (le_antisymm (unrepeated record inBlock.1 column.name indexed) (length_pos_of_mem attrFiltered))
      rw [single, mem_singleton] at sourceFiltered attrFiltered
      rw [sourceFiltered, attrFiltered]
    rw [same] at sameEntry
    simp only [viewEntryOf, ViewEntry.mk.injEq] at sameEntry
    refine ⟨own, ?_, ?_, ?_⟩
    · rw [shownValues, last]
      exact mem_cons_self
    · rw [← typed]
      exact Prod.ext sameEntry.1 sameEntry.2.1
    · rw [sameEntry.2.2]

end

end Records

/-- The content scan of an object is exact on every predicate exactly when every value that an uncapped column stores is
shown by some record of its block. -/
theorem scan_exact_iff_firstValuesShown (platform : Platform) (writer : RlogWriter) (plan : Layout) (object : RlogObject)
    (planned : writer.layout = .ok plan) (wrote : writer.finish platform = .ok object) :
    (∀ content, object.scan platform content = object.scanExact platform content) ↔
      FirstValuesShown platform writer plan object := by
  obtain ⟨rows, finished⟩ := finished_of_layout planned wrote
  rw [scan_exact_iff_cellsPosted finished, cellsPosted_iff finished]

/-- The scan of an object without a repeated name is exact. -/
theorem scan_exact_sample : ∃ plan object, stampedWriter.layout = .ok plan ∧
    stampedWriter.finish samplePlatform = .ok object ∧
      FirstValuesShown samplePlatform stampedWriter plan object ∧
        ∀ content, object.scan samplePlatform content = object.scanExact samplePlatform content := by
  have sampled : (stampedWriter.finish samplePlatform).toOption.any fun object => object.blocks[0]?.isSome := by
    decide +kernel
  obtain ⟨object, wrote, _⟩ := exists_finished sampled
  obtain ⟨plan, planned, _⟩ := ok_of_bind wrote
  obtain ⟨rows, finished⟩ := finished_of_layout planned wrote
  have shown : FirstValuesShown samplePlatform stampedWriter plan object := by
    apply firstValuesShown_of_unrepeated finished
    have unrepeated : stampedWriter.records.all fun record => stampedWriter.indexedFields.all fun name =>
        (record.attrs.filter (named name)).length ≤ 1 := by decide +kernel
    intro record recordIn name indexed
    exact of_decide_eq_true (all_eq_true.mp (all_eq_true.mp unrepeated record recordIn) name indexed)
  exact ⟨plan, object, planned, wrote, shown,
    (scan_exact_iff_firstValuesShown samplePlatform stampedWriter plan object planned wrote).mpr shown⟩

/-- One record that carries an indexed name twice with the same type. -/
def repeatedWriter : RlogWriter where
  cfg := sampleConfig 4
  records := [sampleRecord [("k", .str "a"), ("k", .str "b")]]
  indexedFields := ["k"]
  keyIndexFields := []
  bloomScope := .text
  cluster := none
  fits := by decide +kernel

/-- The row filter keeps the record for its first value and the scan returns nothing. -/
theorem scan_drops_repeated_name : ∃ object, repeatedWriter.finish samplePlatform = .ok object ∧
    ∃ record, object.scanExact samplePlatform (.equals (.attr "k") (.str "a")) = .ok [record] ∧
      object.scan samplePlatform (.equals (.attr "k") (.str "a")) = .ok [] := by
  have sampled : (repeatedWriter.finish samplePlatform).toOption.any (fun object =>
      (object.scan samplePlatform (.equals (.attr "k") (.str "a"))).toOption.any List.isEmpty &&
        (object.scanExact samplePlatform (.equals (.attr "k") (.str "a"))).toOption.any
          fun records => records.length == 1) := by
    decide +kernel
  obtain ⟨object, wrote, tested⟩ := exists_finished sampled
  obtain ⟨scanned, exactly⟩ := (Bool.and_eq_true _ _).mp tested
  obtain ⟨found, scan, none⟩ := (Option.any_eq_true _ _).mp scanned
  obtain ⟨kept, filtered, one⟩ := (Option.any_eq_true _ _).mp exactly
  obtain ⟨record, single⟩ := length_eq_one_iff.mp (eq_of_beq one)
  refine ⟨object, wrote, record, ?_, ?_⟩
  · rw [ok_of_toOption filtered, single]
  · rw [ok_of_toOption scan, List.isEmpty_iff.mp none]

end Ravel.Logs
