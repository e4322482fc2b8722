import Ravel.Proof.Logs.BlockIndexes

namespace Ravel.Logs

open List Library RlogWriter Erasure

section

variable {platform : Platform} {writer : RlogWriter} {plan : Layout} {rows : List (RlogRecord × ResolvedRow)}
  {object : RlogObject} (finished : Finished platform writer plan rows object)

include finished

theorem fieldDir_mem {column : Column} : column ∈ object.fieldDir ↔ column ∈ plan.columns := by
  rw [finished.fieldDir, mem_insertionSort]

/-- The directory finds the one column of a pair. -/
theorem objectColumn_eq {name : String} {ty : FieldType} {column : Column} :
    object.column name ty = some column ↔ column ∈ plan.columns ∧ column.pair = (name, ty) := by
  rw [RlogObject.column]
  constructor
  · intro found
    have passes := find?_some found
    simp only [Bool.and_eq_true, decide_eq_true_eq] at passes
    exact ⟨(fieldDir_mem finished).mp (mem_of_find?_eq_some found), Prod.ext passes.1 passes.2⟩
  · rintro ⟨member, paired⟩
    have unique : AtMostOne (fun column : Column => column.name = name && column.ty = ty) object.fieldDir := by
      have distinct : (object.fieldDir.map Column.pair).Nodup := by
        rw [finished.fieldDir]
        exact ((perm_insertionSort _ _).map Column.pair).nodup_iff.mpr finished.planned.distinctColumns.pairs
      apply atMostOne_of_key distinct
      intro left _ right _ leftPasses rightPasses
      simp only [Bool.and_eq_true, decide_eq_true_eq] at leftPasses rightPasses
      simp [Column.pair, leftPasses, rightPasses]
    apply unique.find?_eq_some ((fieldDir_mem finished).mpr member)
    simp [show column.name = name from congrArg Prod.fst paired, show column.ty = ty from congrArg Prod.snd paired]

end

/-- What the writer stamps for one row, against the merged view that a reader resolves for it. -/
structure RowStamped (platform : Platform) (writer : RlogWriter) (object : RlogObject) (row : ResolvedRow)
    (view : List (String × AttrValue)) : Prop where
  stat : ∀ column ∈ object.fieldDir, column.ty.isNumeric →
    cellOf row.statWinners column.columnId = typedValue view column.name column.ty
  key : ∀ field name keyType ty, object.keyPlan[field]? = some (name, keyType) → attrFieldType keyType = some ty →
    ∀ key8, (field, key8) ∈ row.keys ↔ (typedValue view name ty).bind (key8Of platform.blake3) = some key8
  term : ∀ name ∈ writer.indexedFields, ∀ ty column value, object.column name ty = some column →
    typedValue view name ty = some value → (column.columnId, value) ∈ row.indexedTerms

/-- What the sections of a block hold, against the merged views of its rows. -/
structure BlockStamped (platform : Platform) (object : RlogObject) (block : Nat)
    (views : List (List (String × AttrValue))) : Prop where
  bounds : ∃ entry, object.skip.l0[block]? = some entry ∧
    (∀ stat ∈ entry.stats, ∃ column ∈ object.fieldDir, column.ty.isNumeric ∧
      stat = numStat column.columnId column.ty (views.map fun view => typedValue view column.name column.ty)) ∧
    ∀ column ∈ object.fieldDir, column.ty.isNumeric → (∃ view ∈ views, typedValue view column.name column.ty ≠ none) →
      numStat column.columnId column.ty (views.map fun view => typedValue view column.name column.ty) ∈ entry.stats
  keys : ∃ section_, object.keyIdx[block]? = some section_ ∧
    ∀ field name keyType ty, object.keyPlan[field]? = some (name, keyType) → attrFieldType keyType = some ty →
      ∀ key8, (field, key8) ∈ section_ ↔
        ∃ view ∈ views, (typedValue view name ty).bind (key8Of platform.blake3) = some key8

section Rows

variable {platform : Platform} {writer : RlogWriter} {plan : Layout} {rows : List (RlogRecord × ResolvedRow)}
  {object : RlogObject}

theorem objectKeyPlan (finished : Finished platform writer plan rows object) : object.keyPlan = plan.keyPlan := by
  rw [finished.assembled]
  rfl

theorem rowStamped (finished : Finished platform writer plan rows object) {record : RlogRecord} {row : ResolvedRow}
    (member : (record, row) ∈ rows) : RowStamped platform writer object row (viewOf plan record) where
  stat := fun column columnIn numeric =>
    finished.statWinner_row member ((fieldDir_mem finished).mp columnIn) numeric
  key := fun field name keyType ty located typed key8 =>
    finished.keys_row member (objectKeyPlan finished ▸ located) typed key8
  term := by
    intro name indexed ty column value covered valued
    obtain ⟨columnIn, paired⟩ := (objectColumn_eq finished).mp covered
    obtain ⟨entry, kept, rfl⟩ := Option.map_eq_some_iff.mp valued
    obtain ⟨found, typed⟩ := Option.filter_eq_some_iff.mp kept
    apply finished.indexedTerm_row member indexed found
    rw [typedPair, resolveName_name found, of_decide_eq_true typed, ← paired]
    exact columnOf_mem finished.planned.distinctColumns columnIn

theorem attrField_ne_traceField (finished : Finished platform writer plan rows object) {field : Nat} {name : String}
    {keyType : KeyType} {ty : FieldType} (located : plan.keyPlan[field]? = some (name, keyType))
    (typed : attrFieldType keyType = some ty) : plan.traceField ≠ some field := by
  intro traced
  obtain ⟨within, isTrace, _⟩ := findIdx?_eq_some_iff_getElem.mp traced
  have listed : plan.keyPlan[field] = (name, keyType) := by
    rw [getElem?_eq_getElem within] at located
    exact Option.some_injective _ located
  rw [listed] at isTrace
  have passed := (keyIndexPlan_ok finished.planned.keyPlan).2 (name, keyType) (mem_of_getElem? located)
  have traceName : name = traceIdField := of_decide_eq_true isTrace
  simp only [checkKeyField, traceName, typed] at passed
  obtain ⟨-, passed⟩ := ok_of_guard passed
  simp at passed

variable {block : Nat} {blockRows : List ResolvedRow} {views : List (List (String × AttrValue))}

section

variable (finished : Finished platform writer plan rows object)

include finished

theorem block_views (located : object.blocks[block]? = some blockRows) : ∃ views, blockRows.mapM object.mergedView = .ok views ∧
      Forall₂ (fun row view => ∃ record, (record, row) ∈ rows ∧ view = viewOf plan record) blockRows views := by
  have known : ∀ row ∈ blockRows, ∃ record, (record, row) ∈ rows := fun row member =>
    finished.record_of_row (Finished.mem_rows_of_block located member)
  obtain ⟨views, mapped⟩ := exists_mapM fun row member =>
    let ⟨_, pair⟩ := known row member
    ⟨_, finished.mergedView_row pair⟩
  refine ⟨views, mapped, ?_⟩
  have aligned := mapM_eq_ok.mp mapped
  rw [forall₂_iff_get] at aligned ⊢
  refine ⟨aligned.1, ?_⟩
  intro position inRows inViews
  obtain ⟨record, pair⟩ := known _ (get_mem blockRows ⟨position, inRows⟩)
  have read := aligned.2 position inRows inViews
  rw [finished.mergedView_row pair] at read
  exact ⟨record, pair, (Except.ok.inj read).symm⟩

theorem block_winners
    (aligned : Forall₂ (fun row view => ∃ record, (record, row) ∈ rows ∧ view = viewOf plan record) blockRows views)
    {column : Column} (columnIn : column ∈ plan.columns) (numeric : column.ty.isNumeric) :
    (blockRows.map fun row => cellOf row.statWinners column.columnId) =
      views.map fun view => typedValue view column.name column.ty := by
  induction aligned with
  | nil => rfl
  | cons pair _ ih =>
    obtain ⟨record, member, rfl⟩ := pair
    rw [map_cons, map_cons, ih, finished.statWinner_row member columnIn numeric]

theorem blockStamped_bounds (located : object.blocks[block]? = some blockRows)
    (aligned : Forall₂ (fun row view => ∃ record, (record, row) ∈ rows ∧ view = viewOf plan record) blockRows views) :
    ∃ entry, object.skip.l0[block]? = some entry ∧
      (∀ stat ∈ entry.stats, ∃ column ∈ object.fieldDir, column.ty.isNumeric ∧
        stat = numStat column.columnId column.ty (views.map fun view => typedValue view column.name column.ty)) ∧
      ∀ column ∈ object.fieldDir, column.ty.isNumeric → (∃ view ∈ views, typedValue view column.name column.ty ≠ none) →
        numStat column.columnId column.ty (views.map fun view => typedValue view column.name column.ty) ∈ entry.stats := by
  refine ⟨_, finished.skipEntry located, ?_, ?_⟩
  · intro stat stated
    obtain ⟨column, planned, rfl⟩ := mem_map.mp stated
    obtain ⟨inPlan, numeric⟩ := mem_filter.mp planned
    have columnIn : column ∈ plan.columns := (mem_filter.mp inPlan).1
    refine ⟨column, (fieldDir_mem finished).mpr columnIn, numeric, ?_⟩
    rw [block_winners finished aligned columnIn numeric]
  · intro column columnDir numeric valued
    have columnIn := (fieldDir_mem finished).mp columnDir
    rw [← block_winners finished aligned columnIn numeric]
    apply mem_map.mpr
    refine ⟨column, mem_filter.mpr ⟨mem_filter.mpr ⟨columnIn, ?_⟩, numeric⟩, rfl⟩
    -- A row with a winner of the column plans the column.
    obtain ⟨view, viewIn, present⟩ := valued
    have won : typedValue view column.name column.ty ∈
        blockRows.map fun row => cellOf row.statWinners column.columnId := by
      rw [block_winners finished aligned columnIn numeric]
      exact mem_map.mpr ⟨view, viewIn, rfl⟩
    obtain ⟨row, rowIn, cell⟩ := mem_map.mp won
    rw [any_eq_true]
    refine ⟨row, rowIn, ?_⟩
    rw [Bool.or_eq_true]
    right
    rw [← cell, cellOf, ne_eq, Option.map_eq_none_iff, find?_eq_none] at present
    push Not at present
    exact any_eq_true.mpr present

theorem blockStamped_keys (located : object.blocks[block]? = some blockRows)
    (aligned : Forall₂ (fun row view => ∃ record, (record, row) ∈ rows ∧ view = viewOf plan record) blockRows views) :
    ∃ section_, object.keyIdx[block]? = some section_ ∧
      ∀ field name keyType ty, object.keyPlan[field]? = some (name, keyType) → attrFieldType keyType = some ty →
        ∀ key8, (field, key8) ∈ section_ ↔
          ∃ view ∈ views, (typedValue view name ty).bind (key8Of platform.blake3) = some key8 := by
  have stored : object.keyIdx[block]? = some (blockKeys plan.traceField blockRows) := by
    rw [finished.blocks] at located
    rw [finished.assembled]
    simp [assemble, located]
  refine ⟨_, stored, ?_⟩
  intro field name keyType ty listed typed key8
  rw [objectKeyPlan finished] at listed
  have notTrace := attrField_ne_traceField finished listed typed
  have perRow : (field, key8) ∈ blockKeys plan.traceField blockRows ↔ ∃ row ∈ blockRows, (field, key8) ∈ row.keys := by
    rw [blockKeys, mem_dedup, mem_flatMap]
    apply exists_congr
    intro row
    apply and_congr_right
    intro _
    rw [mem_append]
    apply or_iff_left
    split
    · rename_i traceField id traced _
      intro member
      cases mem_singleton.mp member
      exact notTrace traced
    · exact not_mem_nil
  rw [perRow]
  clear located stored perRow
  induction aligned with
  | nil => simp
  | cons pair _ ih =>
    obtain ⟨record, member, rfl⟩ := pair
    rw [exists_mem_cons_iff, exists_mem_cons_iff, finished.keys_row member listed typed key8]
    exact or_congr Iff.rfl ih

end

end Rows

/-- The stamps follow the reader: for every object that the writer finishes, every block reads back, every NumStat and
every KEY_IDX key is that of the value of the merged view, and the POSTINGS terms of a row hold the term of the
resolved value of every indexed field whose type has a column. -/
theorem stamps_follow_reader (platform : Platform) (writer : RlogWriter) (object : RlogObject)
    (wrote : writer.finish platform = .ok object) (block : Nat) (blockRows : List ResolvedRow)
    (located : object.blocks[block]? = some blockRows) :
    ∃ views, blockRows.mapM object.mergedView = .ok views ∧ BlockStamped platform object block views ∧
      Forall₂ (RowStamped platform writer object) blockRows views := by
  obtain ⟨plan, rows, finished⟩ := finished_of_finish wrote
  obtain ⟨views, mapped, aligned⟩ := block_views finished located
  refine ⟨views, mapped, ⟨blockStamped_bounds finished located aligned, blockStamped_keys finished located aligned⟩, ?_⟩
  apply aligned.imp
  rintro row view ⟨record, member, rfl⟩
  exact rowStamped finished member

/-- The digests of the two bloom keys that a record with empty texts has under the seed zero. -/
def sampleBlake3 : Blake3 := fun bytes =>
  if bytes = [0, 0, 0, 0, 0, 0, 0, 0, 4, 0, 0, 0] then
    #v[242, 218, 179, 98, 172, 86, 197, 216, 186, 172, 38, 125, 75, 226, 208, 97, 72, 90, 179, 117, 190, 168, 164, 46,
      31, 253, 236, 154, 85, 124, 165, 251]
  else if bytes = [0, 0, 0, 0, 0, 0, 0, 0, 5, 0, 0, 0] then
    #v[126, 51, 78, 114, 3, 36, 119, 232, 88, 35, 117, 119, 146, 110, 43, 162, 126, 232, 139, 93, 132, 32, 181, 201,
      78, 104, 155, 166, 98, 92, 5, 154]
  else Vector.replicate 32 0

/-- A platform that agrees with the real one on ASCII texts and on small filters of empty texts. -/
def samplePlatform : Platform where
  blake3 := sampleBlake3
  isAlphanumeric := Char.isAlphanum
  toLowercase char := [char.toLower]
  bloomTarget count := (9585 * count + 999) / 1000
  f64ToString _ := ""

/-- A record with empty texts in the stream without attributes. -/
def sampleRecord (attrs : List (String × AttrValue)) : RlogRecord where
  streamAttrs := [0, 0, 0, 0]
  tsNs := 0
  attrs := attrs
  streamId := ⟨Vector.replicate 16 0⟩
  observedTsNs := 0
  severityNum := 0
  severityText := ""
  body := ""
  traceId := none
  spanId := none
  flags := 0

def sampleConfig (maxDynamicColumns : Nat) : RlogConfig where
  blockTargetRecords := 8192
  blockMaxBytes := 8388608
  maxDynamicColumns := maxDynamicColumns
  bloomSeed := 0
  postingsMaxDistinct := 1024
  chunkOrder := []

theorem exists_finished {outcome : Except LogSegError RlogObject} {test : RlogObject → Bool}
    (passes : outcome.toOption.any test = true) : ∃ object, outcome = .ok object ∧ test object = true := by
  cases outcome with
  | error failure => cases passes
  | ok object => exact ⟨object, rfl, passes⟩

/-- One record with an indexed field and a key-indexed numeric field, both with a column. -/
def stampedWriter : RlogWriter where
  cfg := sampleConfig 4
  records := [sampleRecord [("k", .str "v"), ("n", .i64 7)]]
  indexedFields := ["k"]
  keyIndexFields := [("n", .i64)]
  bloomScope := .text
  cluster := none
  fits := by decide +kernel

/-- The stamps of the sample block follow its reader. -/
theorem stamps_follow_reader_sample :
    ∃ object blockRows, stampedWriter.finish samplePlatform = .ok object ∧ object.blocks[0]? = some blockRows ∧
      ∃ views, blockRows.mapM object.mergedView = .ok views ∧ BlockStamped samplePlatform object 0 views ∧
        Forall₂ (RowStamped samplePlatform stampedWriter object) blockRows views := by
  have sampled : (stampedWriter.finish samplePlatform).toOption.any fun object => object.blocks[0]?.isSome := by
    decide +kernel
  obtain ⟨object, wrote, tested⟩ := exists_finished sampled
  obtain ⟨blockRows, located⟩ := Option.isSome_iff_exists.mp tested
  exact ⟨object, blockRows, wrote, located, stamps_follow_reader samplePlatform stampedWriter object wrote 0 blockRows located⟩

/-- One record whose indexed field has no column. -/
def beyondBudgetWriter : RlogWriter where
  cfg := sampleConfig 0
  records := [sampleRecord [("k", .str "v")]]
  indexedFields := ["k"]
  keyIndexFields := []
  bloomScope := .text
  cluster := none
  fits := by decide +kernel

/-- A value past the column budget is resolved by the reader and has no POSTINGS term. -/
theorem unposted_beyond_budget :
    ∃ object, beyondBudgetWriter.finish samplePlatform = .ok object ∧ ∃ row ∈ object.rows, ∃ view,
      object.mergedView row = .ok view ∧ typedValue view "k" .str = some (.str (utf8Bytes "v")) ∧
        ∀ columnId, (columnId, .str (utf8Bytes "v")) ∉ row.indexedTerms := by
  have sampled : (beyondBudgetWriter.finish samplePlatform).toOption.any (fun object =>
      object.rows.any fun row => row.indexedTerms.isEmpty &&
        (object.mergedView row).toOption.any fun view => typedValue view "k" .str == some (.str (utf8Bytes "v"))) := by
    decide +kernel
  obtain ⟨object, wrote, tested⟩ := exists_finished sampled
  obtain ⟨row, rowIn, passes⟩ := any_eq_true.mp tested
  obtain ⟨untermed, viewed⟩ := (Bool.and_eq_true _ _).mp passes
  obtain ⟨view, read, resolved⟩ := (Option.any_eq_true _ _).mp viewed
  refine ⟨object, wrote, row, rowIn, view, ok_of_toOption read, eq_of_beq resolved, ?_⟩
  intro columnId member
  rw [List.isEmpty_iff.mp untermed] at member
  cases member

/-- The name, type and column value of an attribute. -/
def resolvedAttr (attr : String × AttrValue) : String × FieldType × ColumnValue :=
  (attr.1, resolveValue attr.2)

/-- A record with its attributes in another order, a list or map possibly as its canonical form or bytes. -/
def SameRecord (record back : RlogRecord) : Prop :=
  ∃ attrs, back = { record with attrs := attrs } ∧ (attrs.map resolvedAttr).Perm (record.attrs.map resolvedAttr)

theorem readAttrs_resolved (columns : List Column) (attrs : List (String × AttrValue)) :
    ((readAttrs columns attrs).map resolvedAttr).Perm (attrs.map resolvedAttr) := by
  have columnar : (((placeAttrs columns attrs).columnar.insertionSort typedLe).map storedAttr).map resolvedAttr =
      ((placeAttrs columns attrs).columnar.insertionSort typedLe).map resolvedAttr := by
    rw [map_map]
    exact map_congr_left fun attr _ => by simp [resolvedAttr, storedAttr]
  have overflow : ((canonicalAttrs (placeAttrs columns attrs).overflow).map resolvedAttr).Perm
      ((placeAttrs columns attrs).overflow.map resolvedAttr) := by
    have same : ((placeAttrs columns attrs).overflow.map canonicalEntry).map resolvedAttr =
        (placeAttrs columns attrs).overflow.map resolvedAttr := by
      rw [map_map]
      exact map_congr_left fun attr _ => by simp [resolvedAttr, canonicalEntry]
    rw [canonicalAttrs, canonicalEntries_eq, ← same]
    exact (perm_insertionSort _ _).map _
  rw [readAttrs, map_append, columnar]
  refine (((perm_insertionSort _ _).map _).append overflow).trans ?_
  rw [← map_append]
  exact (placeAttrs_placed columns attrs).perm.map _

/-- The rows of every object that the writer finishes rebuild to the written records, each once, with no attribute lost,
added or changed. -/
theorem rows_rebuild_written_records (platform : Platform) (writer : RlogWriter) (object : RlogObject)
    (wrote : writer.finish platform = .ok object) :
    ∃ ordered read, ordered.Perm writer.records ∧ object.rows.mapM object.rebuildRecord = .ok read ∧
      Forall₂ SameRecord ordered read := by
  obtain ⟨plan, rows, finished⟩ := finished_of_finish wrote
  refine ⟨rows.map Prod.fst, rows.map fun pair => { pair.1 with attrs := readAttrs plan.columns pair.1.attrs },
    finished.records_perm, ?_, ?_⟩
  · rw [finished.objectRows, mapM_eq_ok, forall₂_map_left_iff, forall₂_map_right_iff, forall₂_same]
    intro pair member
    exact finished.rebuildRecord_row member
  · rw [forall₂_map_left_iff, forall₂_map_right_iff, forall₂_same]
    intro pair _
    exact ⟨_, rfl, readAttrs_resolved plan.columns pair.1.attrs⟩

theorem rows_rebuild_stamped_record :
    ∃ object ordered read, stampedWriter.finish samplePlatform = .ok object ∧ ordered.Perm stampedWriter.records ∧
      object.rows.mapM object.rebuildRecord = .ok read ∧ Forall₂ SameRecord ordered read := by
  have sampled : (stampedWriter.finish samplePlatform).toOption.any fun _ => true := by decide +kernel
  obtain ⟨object, wrote, -⟩ := exists_finished sampled
  obtain ⟨ordered, read, rebuilt⟩ := rows_rebuild_written_records samplePlatform stampedWriter object wrote
  exact ⟨object, ordered, read, wrote, rebuilt⟩

end Ravel.Logs
