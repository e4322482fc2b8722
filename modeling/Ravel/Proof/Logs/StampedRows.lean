import Ravel.Proof.Logs.MergedViews

namespace Ravel.Logs

open List Library RlogWriter Erasure

/-- The entry of a view that resolves a slot. -/
def firstEntry (view : List ViewEntry) (name : String) : Option ViewEntry :=
  view.find? fun entry => entry.slot = name

/-- The value that a view resolves a name to, when the value has the type. -/
def typedEntry (view : List ViewEntry) (name : String) (ty : FieldType) : Option ColumnValue :=
  ((firstEntry view name).filter fun entry => entry.ty = ty).map ViewEntry.value

section Emission

variable {index : StampIndex}

theorem cellOf_cons_of_ne {columnId other : Nat} (different : other ≠ columnId) (value : ColumnValue)
    (cells : List (Nat × ColumnValue)) : cellOf ((other, value) :: cells) columnId = cellOf cells columnId := by
  simp [cellOf, different]

theorem cellOf_cons_self (columnId : Nat) (value : ColumnValue) (cells : List (Nat × ColumnValue)) :
    cellOf ((columnId, value) :: cells) columnId = some value := by
  simp [cellOf]

theorem cellOf_emitStats (distinct : DistinctColumns index.columns) {column : Column} (member : column ∈ index.columns)
    (numeric : column.ty.isNumeric) (stated : index.isNumstat column.name) (view : List ViewEntry) :
    ∀ seen : List String, cellOf (emitStats index seen view) column.columnId =
      if seen.contains column.name then none else typedEntry view column.name column.ty := by
  have own := columnOf_mem distinct member
  induction view with
  | nil =>
    intro seen
    cases seen.contains column.name <;> rfl
  | cons entry rest ih =>
    intro seen
    by_cases sought : entry.slot = column.name
    · have statedEntry : index.isNumstat entry.slot := sought ▸ stated
      have first : firstEntry (entry :: rest) column.name = some entry := by simp [firstEntry, sought]
      by_cases shadowed : seen.contains column.name
      · have skipped : seen.contains entry.slot = true := sought ▸ shadowed
        rw [emitStats, skipped, if_neg (by simp), ih, if_pos shadowed, if_pos shadowed]
      · have fresh : seen.contains entry.slot = false := by
          rw [sought]
          simpa using shadowed
        have later : cellOf (emitStats index (entry.slot :: seen) rest) column.columnId = none := by
          rw [ih, sought, if_pos (by simp)]
        rw [emitStats, fresh, statedEntry, if_pos (by rfl), if_neg shadowed, typedEntry, first]
        by_cases typed : entry.ty = column.ty
        · have lookup : columnLookup index.columns entry.slot entry.ty = some column.columnId := by
            rw [sought, typed]
            exact own
          have numericEntry : entry.ty.isNumeric := typed ▸ numeric
          simp only [numericEntry, if_true, lookup]
          rw [cellOf_cons_self]
          simp [Option.filter, typed]
        · have unmatched : ((some entry).filter fun entry => decide (entry.ty = column.ty)) = none := by
            simp [Option.filter, typed]
          rw [unmatched]
          simp only [Option.map_none]
          split
          · split
            · rename_i columnId lookup
              rw [cellOf_cons_of_ne _ _ _, later]
              rintro rfl
              have entryColumn : columnOf index.columns (entry.slot, entry.ty) = some column.columnId := lookup
              exact typed (congrArg Prod.snd (columnOf_injective distinct entryColumn own))
            · exact later
          · exact later
    · have first : typedEntry (entry :: rest) column.name column.ty = typedEntry rest column.name column.ty := by
        simp [typedEntry, firstEntry, sought]
      have notSeen : (entry.slot :: seen).contains column.name = seen.contains column.name := by
        have different : (column.name == entry.slot) = false := by simpa using fun same => sought same.symm
        rw [contains_cons, different, Bool.false_or]
      rw [first, emitStats]
      split
      · have later := ih (entry.slot :: seen)
        rw [notSeen] at later
        dsimp only
        split
        · split
          · rename_i columnId lookup
            rw [cellOf_cons_of_ne _ _ _, later]
            rintro rfl
            have entryColumn : columnOf index.columns (entry.slot, entry.ty) = some column.columnId := lookup
            exact sought (congrArg Prod.fst (columnOf_injective distinct entryColumn own))
          · exact later
        · exact later
      · exact ih seen

/-- The keys of a field are those of the typed value that the view resolves the field's name to. -/
theorem mem_emitKeys {blake3 : Blake3} {name : String} {field : Nat} {keyTy : FieldType}
    (keyed : index.key name = some (field, keyTy))
    (unique : ∀ other ty, index.key other = some (field, ty) → other = name) (view : List ViewEntry) (key8 : Key8) :
    ∀ seen : List String, (field, key8) ∈ emitKeys blake3 index seen view ↔
      seen.contains name = false ∧ (typedEntry view name keyTy).bind (key8Of blake3) = some key8 := by
  induction view with
  | nil =>
    intro seen
    simp [emitKeys, typedEntry, firstEntry]
  | cons entry rest ih =>
    intro seen
    by_cases sought : entry.slot = name
    · have first : firstEntry (entry :: rest) name = some entry := by simp [firstEntry, sought]
      have keyedEntry : index.key entry.slot = some (field, keyTy) := sought ▸ keyed
      by_cases shadowed : seen.contains name
      · have skipped : seen.contains entry.slot = true := sought ▸ shadowed
        simp only [emitKeys, keyedEntry, skipped, if_true, ih, shadowed]
        simp
      · have fresh : seen.contains entry.slot = false := by
          rw [sought]
          simpa using shadowed
        have later : (field, key8) ∉ emitKeys blake3 index (entry.slot :: seen) rest := by
          rw [ih, sought]
          simp
        have open_ : seen.contains name = false := by simpa using shadowed
        simp only [emitKeys, keyedEntry, fresh, Bool.false_eq_true, if_false, typedEntry, first, open_]
        by_cases typed : entry.ty = keyTy
        · cases made : key8Of blake3 entry.value <;>
            simp [typed, made, later, Option.filter, eq_comm]
        · simp [typed, later, Option.filter]
    · have skipped : typedEntry (entry :: rest) name keyTy = typedEntry rest name keyTy := by
        simp [typedEntry, firstEntry, sought]
      have notSeen : (entry.slot :: seen).contains name = seen.contains name := by
        have different : (name == entry.slot) = false := by simpa using fun same => sought same.symm
        rw [contains_cons, different, Bool.false_or]
      have later := ih (entry.slot :: seen)
      rw [notSeen] at later
      rw [skipped]
      cases keyedEntry : index.key entry.slot with
      | none =>
        simp only [emitKeys, keyedEntry]
        exact ih seen
      | some target =>
        obtain ⟨otherField, otherTy⟩ := target
        have different : field ≠ otherField := by
          rintro rfl
          exact sought (unique entry.slot otherTy keyedEntry)
        simp only [emitKeys, keyedEntry]
        split
        · exact ih seen
        · split
          · split
            · rw [mem_cons, ← later]
              simp [different]
            · exact later
          · exact later

end Emission

/-- A sorted field list without a repeated neighbour has distinct names. -/
theorem nodup_of_repeatedField {fields : List (String × KeyType)} (sorted : fields.Pairwise keyFieldLe)
    (unrepeated : repeatedField fields = none) : (fields.map Prod.fst).Nodup := by
  induction fields with
  | nil => exact nodup_nil
  | cons first rest ih =>
    obtain ⟨firstBelow, restSorted⟩ := pairwise_cons.mp sorted
    cases rest with
    | nil => exact nodup_singleton _
    | cons second others =>
      rw [repeatedField] at unrepeated
      split at unrepeated
      · cases unrepeated
      · rename_i different
        have later := ih restSorted unrepeated
        rw [map_cons, nodup_cons]
        refine ⟨?_, later⟩
        intro repeated
        obtain ⟨other, otherIn, same⟩ := mem_map.mp repeated
        rcases mem_cons.mp otherIn with rfl | further
        · exact different same.symm
        -- The second field is between the two equal names.
        · have above : utf8Bytes first.1 ≤ utf8Bytes second.1 := firstBelow second mem_cons_self
          have below : utf8Bytes second.1 ≤ utf8Bytes other.1 := (pairwise_cons.mp restSorted).1 other further
          rw [same] at below
          exact different (utf8Bytes_injective (List.le_antisymm above below))

instance : Std.Total keyFieldLe where
  total left right := List.le_total (utf8Bytes left.1) (utf8Bytes right.1)

instance : IsTrans (String × KeyType) keyFieldLe where
  trans _ _ _ first second := List.le_trans first second

/-- The fields of a plan have distinct names and pass their check. -/
theorem keyIndexPlan_ok {fields plan : List (String × KeyType)} (planned : keyIndexPlan fields = .ok plan) :
    (plan.map Prod.fst).Nodup ∧ ∀ field ∈ plan, checkKeyField field = .ok () := by
  unfold keyIndexPlan at planned
  by_cases many : keyIdxMaxFields < fields.length
  · simp only [if_pos many] at planned
    cases planned
  simp only [if_neg many] at planned
  cases repeated : repeatedField (fields.insertionSort keyFieldLe) with
  | some name =>
    simp only [repeated] at planned
    cases planned
  | none =>
    simp only [repeated] at planned
    obtain ⟨_, passed, returned⟩ := ok_of_bind planned
    cases returned
    exact ⟨nodup_of_repeatedField (pairwise_insertionSort _ _) repeated, forM_eq_ok.mp passed⟩

theorem key_eq_some_iff {plan : List (String × KeyType)} (distinct : (plan.map Prod.fst).Nodup) {columns : List Column}
    {indexedFields : List String} {name : String} {field : Nat} {ty : FieldType} :
    (stampIndex columns indexedFields plan).key name = some (field, ty) ↔
      ∃ keyType, plan[field]? = some (name, keyType) ∧ attrFieldType keyType = some ty := by
  have member : ∀ entry : String × Nat × FieldType, entry ∈ keyAttrFields plan ↔
      ∃ keyType, plan[entry.2.1]? = some (entry.1, keyType) ∧ attrFieldType keyType = some entry.2.2 := by
    rintro ⟨entryName, entryField, entryTy⟩
    simp only [keyAttrFields, mem_filterMap, Option.map_eq_some_iff, Prod.exists, mem_zipIdx_iff_getElem?]
    constructor
    · rintro ⟨other, keyType, position, located, storage, typed, same⟩
      cases same
      exact ⟨keyType, located, typed⟩
    · rintro ⟨keyType, located, typed⟩
      exact ⟨entryName, keyType, entryField, located, entryTy, typed, rfl⟩
  have names : ((keyAttrFields plan).map Prod.fst).Nodup := by
    have positions : (plan.zipIdx.map fun entry => entry.1.1).Nodup := by
      have same : (plan.zipIdx.map fun entry => entry.1.1) = plan.map Prod.fst := by
        conv_rhs => rw [← zipIdx_map_fst 0 plan, map_map]
        rfl
      rw [same]
      exact distinct
    rw [Nodup, pairwise_map] at positions
    rw [Nodup, pairwise_map, keyAttrFields, pairwise_filterMap]
    apply positions.imp
    intro left right different first foundFirst second foundSecond
    obtain ⟨_, _, rfl⟩ := Option.map_eq_some_iff.mp foundFirst
    obtain ⟨_, _, rfl⟩ := Option.map_eq_some_iff.mp foundSecond
    exact different
  have unique : AtMostOne (fun entry : String × Nat × FieldType => entry.1 = name) (keyAttrFields plan) :=
    atMostOne_key names _
  rw [StampIndex.key, Option.map_eq_some_iff]
  constructor
  · rintro ⟨entry, found, same⟩
    have passes := find?_some found
    have entryName : entry.1 = name := of_decide_eq_true passes
    obtain ⟨keyType, located, typed⟩ := (member entry).mp (mem_of_find?_eq_some found)
    rw [same] at located typed
    exact ⟨keyType, entryName ▸ located, typed⟩
  · intro listed
    exact ⟨(name, field, ty), unique.find?_eq_some ((member (name, field, ty)).mpr listed) (decide_eq_true rfl), rfl⟩


/-- The merged view that a reader resolves for a row. -/
def RlogObject.mergedView (object : RlogObject) (row : ResolvedRow) : Except LogSegError (List (String × AttrValue)) := do
  mergedLogAttrs (← object.rebuildRecord row).toLogRecord

/-- The stored value that a merged view resolves a name to, when the value has the type. -/
def typedValue (view : List (String × AttrValue)) (name : String) (ty : FieldType) : Option ColumnValue :=
  ((resolveName view name).filter fun entry => (resolveValue entry.2).1 = ty).map fun entry => (resolveValue entry.2).2

/-- The merged view of a record of an object. -/
def viewOf (plan : Layout) (record : RlogRecord) : List (String × AttrValue) :=
  (readAttrs plan.columns record.attrs).foldl overlayAttr
    ((pairsOf plan.pairs record.streamId).filter fun pair => !isNested pair.2)

theorem typedEntry_eq {view : List ViewEntry} {merged : List (String × AttrValue)} {name : String}
    (agree : firstEntry view name = (resolveName merged name).map viewEntryOf) (ty : FieldType) :
    typedEntry view name ty = typedValue merged name ty := by
  rw [typedEntry, agree, typedValue]
  cases resolveName merged name with
  | none => rfl
  | some entry =>
    by_cases typed : (resolveValue entry.2).1 = ty <;> simp [Option.filter, viewEntryOf, typed]

namespace Finished

variable {platform : Platform} {writer : RlogWriter} {plan : Layout} {rows : List (RlogRecord × ResolvedRow)}
  {object : RlogObject} {record : RlogRecord} {row : ResolvedRow}

theorem mergedView_row (finished : Finished platform writer plan rows object) (member : (record, row) ∈ rows) :
    object.mergedView row = .ok (viewOf plan record) := by
  have decoded := finished.planned.pairs record (finished.row_of_record member).1
  rw [RlogObject.mergedView, finished.rebuildRecord_row member]
  show mergedLogAttrs _ = _
  rw [mergedLogAttrs, streamIdentityAttrs_eq decoded]
  rfl

/-- The view of the stamp of a row. -/
def stampedView (plan : Layout) (writer : RlogWriter) (record : RlogRecord) : List ViewEntry :=
  (scratchOf (plan.index writer) record.attrs).viewEntries (plan.index writer) (plan.seedOf writer record.streamId)

variable {name : String} {ty : FieldType} {columnId : Nat}

theorem firstEntry_stampedView (tracked : (plan.index writer).isTracked name) :
    firstEntry (stampedView plan writer record) name = (resolveName (viewOf plan record) name).map viewEntryOf :=
  find_viewEntries_merged record.attrs tracked (pairsOf plan.pairs record.streamId)

theorem stamps (finished : Finished platform writer plan rows object) (member : (record, row) ∈ rows) :
    row.statWinners = emitStats (plan.index writer) [] (stampedView plan writer record) ∧
      row.keys = emitKeys platform.blake3 (plan.index writer) [] (stampedView plan writer record) ∧
      row.indexedTerms = ((scratchOf (plan.index writer) record.attrs).postingsEntries (plan.index writer)
        (plan.seedOf writer record.streamId)).filterMap (emitPostings (plan.index writer)) := by
  obtain ⟨attrsRaw, _, rfl⟩ := resolveRow_ok (finished.row_of_record member).2
  have scratch : (splitAttrs (plan.index writer) record.attrs).stamp = scratchOf (plan.index writer) record.attrs := by
    rw [finished.split]
    rfl
  simp only [scratch]
  exact ⟨rfl, rfl, rfl⟩

theorem tracked_iff : (plan.index writer).isTracked name ↔
    name ∈ writer.indexedFields ∨ (plan.index writer).isNumstat name ∨ name ∈ (keyAttrFields plan.keyPlan).map Prod.fst := by
  simp only [Layout.index, stampIndex, StampIndex.isTracked, StampIndex.isNumstat, contains_iff_mem,
    mem_insertionSort, mem_dedup, mem_append, or_assoc]

section

variable (finished : Finished platform writer plan rows object) (member : (record, row) ∈ rows)

include finished member

/-- The NumStat winner of a row is the typed value of the reader's merged view. -/
theorem statWinner_row {column : Column} (columnIn : column ∈ plan.columns) (numeric : column.ty.isNumeric) :
    cellOf row.statWinners column.columnId = typedValue (viewOf plan record) column.name column.ty := by
  have stated : (plan.index writer).isNumstat column.name := by
    simp only [Layout.index, stampIndex, StampIndex.isNumstat, contains_iff_mem]
    exact mem_map.mpr ⟨column, mem_filter.mpr ⟨columnIn, numeric⟩, rfl⟩
  have tracked : (plan.index writer).isTracked column.name := tracked_iff.mpr (.inr (.inl stated))
  rw [(finished.stamps member).1, cellOf_emitStats finished.planned.distinctColumns columnIn numeric stated]
  exact typedEntry_eq (firstEntry_stampedView tracked) column.ty

/-- The keys of a row under an attribute field are those of the typed value of the reader's merged view. -/
theorem keys_row {field : Nat} {keyType : KeyType} (located : plan.keyPlan[field]? = some (name, keyType))
    (typed : attrFieldType keyType = some ty) (key8 : Key8) : (field, key8) ∈ row.keys ↔
      (typedValue (viewOf plan record) name ty).bind (key8Of platform.blake3) = some key8 := by
  have distinct := (keyIndexPlan_ok finished.planned.keyPlan).1
  have keyed : (plan.index writer).key name = some (field, ty) := (key_eq_some_iff distinct).mpr ⟨keyType, located, typed⟩
  have unique : ∀ other otherTy, (plan.index writer).key other = some (field, otherTy) → other = name := by
    intro other otherTy otherKeyed
    obtain ⟨otherType, otherLocated, _⟩ := (key_eq_some_iff distinct).mp otherKeyed
    rw [located] at otherLocated
    exact (congrArg Prod.fst (Option.some_injective _ otherLocated)).symm
  have tracked : (plan.index writer).isTracked name := by
    obtain ⟨entry, found, _⟩ := Option.map_eq_some_iff.mp keyed
    have passes := find?_some found
    have entryName : entry.1 = name := of_decide_eq_true passes
    exact tracked_iff.mpr (.inr (.inr (mem_map.mpr ⟨entry, mem_of_find?_eq_some found, entryName⟩)))
  rw [(finished.stamps member).2.1, mem_emitKeys keyed unique, typedEntry_eq (firstEntry_stampedView tracked) ty]
  simp

/-- The POSTINGS terms of a row under the column of an indexed field are those of the shown values of the column's type. -/
theorem mem_indexedTerms (indexed : name ∈ writer.indexedFields)
    (column : columnOf plan.columns (name, ty) = some columnId) (value : ColumnValue) : (columnId, value) ∈ row.indexedTerms ↔
      ∃ attr ∈ shownValues plan.columns record.attrs (pairsOf plan.pairs record.streamId) name,
        typedPair attr = (name, ty) ∧ (resolveValue attr.2).2 = value := by
  have tracked : (plan.index writer).isTracked name := tracked_iff.mpr (.inl indexed)
  have indexedName : (plan.index writer).isIndexed name := by
    simpa [Layout.index, stampIndex, StampIndex.isIndexed] using indexed
  have emitted : ∀ entry : ViewEntry, emitPostings (plan.index writer) entry = some (columnId, value) ↔
      entry = ⟨name, ty, value⟩ := by
    intro entry
    constructor
    · intro posted
      rw [emitPostings] at posted
      split at posted
      · obtain ⟨otherId, lookup, same⟩ := Option.map_eq_some_iff.mp posted
        cases same
        have entryColumn : columnOf plan.columns (entry.slot, entry.ty) = some columnId := lookup
        have pair := columnOf_injective finished.planned.distinctColumns entryColumn column
        rw [Prod.mk.injEq] at pair
        rw [← pair.1, ← pair.2]
      · cases posted
    · rintro rfl
      have lookup : columnLookup (plan.index writer).columns name ty = some columnId := column
      simp [emitPostings, indexedName, lookup]
  simp only [(finished.stamps member).2.2, mem_filterMap, emitted, exists_eq_right]
  rw [Layout.seedOf, mem_postingsEntries record.attrs tracked _ rfl, mem_map]
  apply exists_congr
  intro attr
  apply and_congr_right
  intro _
  simp [viewEntryOf, typedPair, and_assoc]

/-- The POSTINGS terms of a row hold the term of the value that the reader resolves an indexed name to. -/
theorem indexedTerm_row (indexed : name ∈ writer.indexedFields) {entry : String × AttrValue}
    (found : resolveName (viewOf plan record) name = some entry)
    (column : columnOf plan.columns (typedPair entry) = some columnId) :
    (columnId, (resolveValue entry.2).2) ∈ row.indexedTerms := by
  have pair : typedPair entry = (name, (resolveValue entry.2).1) := Prod.ext (resolveName_name found) rfl
  rw [pair] at column
  rw [finished.mem_indexedTerms member indexed column]
  exact ⟨entry, resolved_mem_shownValues found, pair, rfl⟩

end

end Finished

end Ravel.Logs
