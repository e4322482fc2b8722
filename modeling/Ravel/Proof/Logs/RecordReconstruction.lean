import Ravel.Proof.Logs.CanonicalRoundTrip
import Ravel.Proof.Logs.WrittenObjects

namespace Ravel.Logs

open List Library RlogWriter

/-- The value of a columnar attribute as the reader returns it: a list or map as its canonical bytes. -/
def storedValue : AttrValue → AttrValue
  | .list items => .bytes (canonicalValueBytes (.list items))
  | .map entries => .bytes (canonicalValueBytes (.map entries))
  | value => value

def storedAttr (attr : String × AttrValue) : String × AttrValue :=
  (attr.1, storedValue attr.2)

@[simp] theorem resolveValue_storedValue (value : AttrValue) : resolveValue (storedValue value) = resolveValue value := by
  cases value <;> rfl

/-- The canonical bytes of a value are its encoding after the count and the empty key. -/
theorem canonicalValueBytes_eq (value : AttrValue) : canonicalValueBytes value = 1 :: 0 :: encodeValue value := by
  simp only [canonicalValueBytes, canonicalAttrBytes, encodeEntrySet, encodeEntries, insertionSort_cons,
    insertionSort_nil, orderedInsert_nil, flatMap_cons, flatMap_nil, append_nil,
    length_singleton]
  rfl

@[simp] theorem resolveValue_canonicalValue (value : AttrValue) :
    resolveValue (canonicalValue value) = resolveValue value := by
  have sameBytes : canonicalValueBytes (canonicalValue value) = canonicalValueBytes value := by
    rw [canonicalValueBytes_eq, canonicalValueBytes_eq, encodeValue_canonicalValue]
  cases value <;> first | rfl | (simp only [canonicalValue, resolveValue] at sameBytes ⊢; rw [sameBytes])

theorem toU8_injective {left right : FieldType} (same : left.toU8 = right.toU8) : left = right := by
  cases left <;> cases right <;> first | rfl | cases same

instance : Std.Total pairLe where
  total left right := by
    unfold pairLe
    by_cases before : utf8Bytes left.1 < utf8Bytes right.1
    · exact .inl (.inl before)
    by_cases after : utf8Bytes right.1 < utf8Bytes left.1
    · exact .inr (.inl after)
    have same : utf8Bytes left.1 = utf8Bytes right.1 := List.le_antisymm after before
    rcases Nat.le_total left.2.toU8 right.2.toU8 with below | above
    · exact .inl (.inr ⟨same, below⟩)
    · exact .inr (.inr ⟨same.symm, above⟩)

instance : IsTrans (String × FieldType) pairLe where
  trans first second third := by
    unfold pairLe
    rintro (before | ⟨same, below⟩) (next | ⟨sameNext, belowNext⟩)
    · exact .inl (List.lt_trans before next)
    · exact .inl (sameNext ▸ before)
    · exact .inl (same ▸ next)
    · exact .inr ⟨same.trans sameNext, Nat.le_trans below belowNext⟩

instance : Std.Antisymm pairLe where
  antisymm left right := by
    unfold pairLe
    rintro (before | ⟨same, below⟩) (after | ⟨sameBack, above⟩)
    · exact absurd after (List.lt_asymm before)
    · exact absurd (sameBack ▸ before) (List.lt_irrefl _)
    · exact absurd (same ▸ after) (List.lt_irrefl _)
    · exact Prod.ext (utf8Bytes_injective same) (toU8_injective (Nat.le_antisymm below above))

/-- The directory order of columnar attributes. -/
def typedLe (left right : String × AttrValue) : Prop :=
  pairLe (typedPair left) (typedPair right)

instance : DecidableRel typedLe := fun _ _ =>
  inferInstanceAs (Decidable (pairLe _ _))

instance : Std.Total typedLe where
  total left right := Std.Total.total (r := pairLe) (typedPair left) (typedPair right)

instance : IsTrans (String × AttrValue) typedLe where
  trans _ _ _ first second := IsTrans.trans (r := pairLe) _ _ _ first second

/-- The attributes of a record as the reader returns them. -/
def readAttrs (columns : List Column) (attrs : List (String × AttrValue)) : List (String × AttrValue) :=
  ((placeAttrs columns attrs).columnar.insertionSort typedLe).map storedAttr ++
    canonicalAttrs (placeAttrs columns attrs).overflow

section Cells

variable {columns : List Column} {attrs : List (String × AttrValue)} {placed : Placement}

theorem Placed.cells_distinct (distinct : DistinctColumns columns) (holds : Placed columns attrs placed) :
    ((placed.columnar.map (cellOfAttr columns)).map Prod.fst).Nodup := by
  rw [map_map]
  apply Nodup.map_on _ holds.distinct.of_map
  intro left leftIn right rightIn same
  obtain ⟨leftId, leftColumn⟩ := Option.isSome_iff_exists.mp (holds.hasColumn left leftIn)
  obtain ⟨rightId, rightColumn⟩ := Option.isSome_iff_exists.mp (holds.hasColumn right rightIn)
  simp only [Function.comp, cellOfAttr, leftColumn, rightColumn, Option.getD_some] at same
  rw [← same] at rightColumn
  exact inj_on_of_nodup_map holds.distinct leftIn rightIn (columnOf_injective distinct leftColumn rightColumn)

theorem Placed.cellOf_sorted (distinct : DistinctColumns columns) (holds : Placed columns attrs placed) {column : Column}
    (member : column ∈ columns) :
    cellOf ((placed.columnar.map (cellOfAttr columns)).insertionSort cellLe) column.columnId =
      (placed.columnar.find? fun attr => typedPair attr = column.pair).map fun attr => (resolveValue attr.2).2 := by
  have unique : AtMostOne (fun cell : Nat × ColumnValue => cell.1 = column.columnId)
      (placed.columnar.map (cellOfAttr columns)) :=
    atMostOne_key (holds.cells_distinct distinct) _
  have cut : (placed.columnar.map (cellOfAttr columns)).Perm
      ((placed.columnar.map (cellOfAttr columns)).insertionSort cellLe ++ []) := by
    rw [append_nil]
    exact (perm_insertionSort _ _).symm
  have ownColumn := columnOf_mem distinct member
  have sameTest : ∀ attr ∈ placed.columnar,
      (decide ((cellOfAttr columns attr).1 = column.columnId)) = decide (typedPair attr = column.pair) := by
    intro attr attrIn
    obtain ⟨columnId, attrColumn⟩ := Option.isSome_iff_exists.mp (holds.hasColumn attr attrIn)
    rw [decide_eq_decide, cellOfAttr, attrColumn, Option.getD_some]
    constructor
    · rintro rfl
      exact columnOf_injective distinct attrColumn ownColumn
    · intro same
      rw [same, ownColumn] at attrColumn
      exact (Option.some_injective _ attrColumn).symm
  rw [cellOf, find?_cut unique cut (by simp), find?_map, Option.map_map]
  congr 1
  exact find?_congr sameTest

theorem Placed.directoryOrder (distinct : DistinctColumns columns) (holds : Placed columns attrs placed) :
    ((columns.insertionSort fieldEntryLe).map Column.pair).filterMap
        (fun pair => placed.columnar.find? fun attr => typedPair attr = pair) =
      placed.columnar.insertionSort typedLe := by
  have pairsOrdered : (columns.insertionSort fieldEntryLe).map Column.pair =
      (columns.map Column.pair).insertionSort pairLe := by
    apply map_insertionSort
    intro left _ right _
    rfl
  have pairsDistinct : ((columns.insertionSort fieldEntryLe).map Column.pair).Nodup :=
    ((perm_insertionSort _ _).map Column.pair).nodup_iff.mpr distinct.pairs
  have foundPair : ∀ (pair : String × FieldType) (attr : String × AttrValue),
      placed.columnar.find? (fun attr => typedPair attr = pair) = some attr → typedPair attr = pair := by
    intro pair attr found
    have passes := find?_some found
    exact of_decide_eq_true passes
  have uniqueAt : ∀ attr ∈ placed.columnar,
      placed.columnar.find? (fun other => typedPair other = typedPair attr) = some attr := by
    intro attr member
    have unique : AtMostOne (fun other => typedPair other = typedPair attr) placed.columnar :=
      atMostOne_key holds.distinct _
    exact unique.find?_eq_some member (decide_eq_true rfl)
  apply Perm.eq_of_pairwise
  · intro left right leftIn rightIn before after
    obtain ⟨pair, _, found⟩ := mem_filterMap.mp leftIn
    have same : typedPair left = typedPair right := Std.Antisymm.antisymm (r := pairLe) _ _ before after
    exact inj_on_of_nodup_map holds.distinct (mem_of_find?_eq_some found)
      ((mem_insertionSort _).mp rightIn) same
  · rw [pairsOrdered, pairwise_filterMap]
    apply (pairwise_insertionSort pairLe _).imp
    intro left right ordered first foundFirst second foundSecond
    show pairLe (typedPair first) (typedPair second)
    rw [foundPair left first foundFirst, foundPair right second foundSecond]
    exact ordered
  · exact pairwise_insertionSort typedLe _
  · rw [perm_ext_iff_of_nodup]
    · intro attr
      rw [mem_insertionSort, mem_filterMap]
      constructor
      · rintro ⟨pair, _, found⟩
        exact mem_of_find?_eq_some found
      · intro member
        obtain ⟨columnId, column⟩ := Option.isSome_iff_exists.mp (holds.hasColumn attr member)
        have listed := (columnLookup_eq_some_iff distinct).mp column
        exact ⟨typedPair attr, mem_map.mpr ⟨_, (mem_insertionSort _).mpr listed, rfl⟩, uniqueAt attr member⟩
    · apply Nodup.filterMap _ pairsDistinct
      intro left right attr foundLeft foundRight
      rw [← foundPair left attr foundLeft, foundPair right attr foundRight]
    · exact (perm_insertionSort _ _).nodup_iff.mpr holds.distinct.of_map

end Cells

/-- The reader gives back the stored form of a value from the cell of its type. -/
theorem getAttrValue_eq {row : ResolvedRow} {column : Column} {value : AttrValue}
    (typed : (resolveValue value).1 = column.ty) (cell : cellOf row.columns column.columnId = some (resolveValue value).2) :
    getAttrValue row column = some (storedValue value) := by
  rw [getAttrValue, cell, ← typed]
  cases value with
  | str text => simp [resolveValue, storedValue, fromUTF8_utf8Bytes]
  | _ => rfl

theorem getAttrValue_none {row : ResolvedRow} {column : Column} (cell : cellOf row.columns column.columnId = none) :
    getAttrValue row column = none := by
  rw [getAttrValue, cell]
  cases column.ty <;> rfl

/-- The bytes of one entry of a set. -/
def entryBytes (entry : String × AttrValue) : List UInt8 :=
  lengthPrefixed (utf8Bytes entry.1) ++ encodeValue entry.2

theorem length_canonicalAttrBytes (attrs : List (String × AttrValue)) :
    (canonicalAttrBytes attrs).length =
      (putUvarint (UInt64.ofNat attrs.length)).length + (attrs.map fun attr => (entryBytes attr).length).sum := by
  have reordered : (attrs.insertionSort attrLe).Perm attrs := perm_insertionSort _ _
  rw [canonicalAttrBytes, encodeEntrySet, sortedEncodings, length_append, encodeEntries_eq, length_map,
    flatMap_map, length_flatMap]
  congr 1
  exact (reordered.map _).sum_eq

/-- Part of an addressable set is addressed by 64 bits. -/
theorem canonicalAttrBytes_of_sublist {part attrs : List (String × AttrValue)} (sublist : part.Sublist attrs)
    (fits : addressable (canonicalAttrBytes attrs).length) : (canonicalAttrBytes part).length < 2 ^ 64 := by
  have smaller : (part.map fun attr => (entryBytes attr).length).sum ≤
      (attrs.map fun attr => (entryBytes attr).length).sum :=
    (sublist.map _).sum_le_sum fun _ _ => Nat.zero_le _
  have count : (putUvarint (UInt64.ofNat part.length)).length ≤ 10 := length_putUvarintLoop_le 10 _
  rw [addressable, length_canonicalAttrBytes] at fits
  rw [length_canonicalAttrBytes]
  omega

/-- The parts of a successful row resolution. -/
theorem resolveRow_ok {platform : Platform} {streams : List (LogStreamId × List UInt8)} {index : StampIndex}
    {seedOf : LogStreamId → StreamSeed} {record : RlogRecord} {row : ResolvedRow}
    (resolved : resolveRow platform streams index seedOf record = .ok row) :
    ∃ attrsRaw, encodeOverflow (splitAttrs index record.attrs).overflow = .ok attrsRaw ∧
      row = {
        streamRef := streams.findIdx fun stream => stream.1 = record.streamId
        tsNs := record.tsNs
        observedTsNs := record.observedTsNs
        severityNum := record.severityNum
        severityText := record.severityText
        body := record.body
        traceId := record.traceId
        spanId := record.spanId
        flags := record.flags
        attrsRaw := attrsRaw
        columns := (splitAttrs index record.attrs).cols.insertionSort cellLe
        indexedTerms := ((splitAttrs index record.attrs).stamp.finish platform.blake3 index
          (seedOf record.streamId)).indexed
        statWinners := ((splitAttrs index record.attrs).stamp.finish platform.blake3 index
          (seedOf record.streamId)).stat
        keys := ((splitAttrs index record.attrs).stamp.finish platform.blake3 index
          (seedOf record.streamId)).key } := by
  obtain ⟨attrsRaw, encoded, returned⟩ := ok_of_bind resolved
  cases returned
  exact ⟨attrsRaw, encoded, rfl⟩

namespace Finished

variable {platform : Platform} {writer : RlogWriter} {plan : Layout} {rows : List (RlogRecord × ResolvedRow)}
  {object : RlogObject} {record : RlogRecord} {row : ResolvedRow}

section

variable (finished : Finished platform writer plan rows object)

include finished

/-- The split of a record in an object. -/
theorem split (attrs : List (String × AttrValue)) :
    splitAttrs (plan.index writer) attrs = (placeAttrs plan.columns attrs).toSplit (plan.index writer) :=
  splitAttrs_eq finished.planned.distinctColumns attrs

theorem cellOf_row (member : (record, row) ∈ rows) {column : Column} (columnIn : column ∈ plan.columns) :
    cellOf row.columns column.columnId =
      ((placeAttrs plan.columns record.attrs).columnar.find? fun attr => typedPair attr = column.pair).map
        fun attr => (resolveValue attr.2).2 := by
  obtain ⟨attrsRaw, _, rfl⟩ := resolveRow_ok (finished.row_of_record member).2
  rw [finished.split]
  exact (placeAttrs_placed plan.columns record.attrs).cellOf_sorted finished.planned.distinctColumns columnIn

theorem getAttrValue_row (member : (record, row) ∈ rows) {column : Column} (columnIn : column ∈ plan.columns) :
    getAttrValue row column =
      ((placeAttrs plan.columns record.attrs).columnar.find? fun attr => typedPair attr = column.pair).map
        fun attr => storedValue attr.2 := by
  have cell := finished.cellOf_row member columnIn
  cases found : (placeAttrs plan.columns record.attrs).columnar.find? fun attr => typedPair attr = column.pair with
  | none =>
    rw [found] at cell
    exact getAttrValue_none cell
  | some attr =>
    rw [found] at cell
    have passes := find?_some found
    have typed : typedPair attr = column.pair := of_decide_eq_true passes
    exact getAttrValue_eq (congrArg Prod.snd typed) cell

/-- The overflow of a row reads back in canonical form. -/
theorem overflowAttrs_row (member : (record, row) ∈ rows) :
    overflowAttrs row = .ok (canonicalAttrs (placeAttrs plan.columns record.attrs).overflow) := by
  obtain ⟨recordIn, resolved⟩ := finished.row_of_record member
  obtain ⟨attrsRaw, encoded, rfl⟩ := resolveRow_ok resolved
  have sameOverflow : (splitAttrs (plan.index writer) record.attrs).overflow =
      (placeAttrs plan.columns record.attrs).overflow := by
    rw [finished.split]
    rfl
  rw [sameOverflow, encodeOverflow] at encoded
  split at encoded
  · rename_i empty
    cases encoded
    rw [List.isEmpty_iff.mp empty]
    rfl
  · obtain ⟨_, passed, returned⟩ := ok_of_bind encoded
    cases returned
    apply decodeCanonicalAttrs_canonicalAttrBytes passed
    exact canonicalAttrBytes_of_sublist (placeAttrs_placed plan.columns record.attrs).overflowInOrder
      (writer.fits record recordIn)

/-- A row is rebuilt to its record with the attributes as they are stored. -/
theorem rebuildRecord_row (member : (record, row) ∈ rows) :
    object.rebuildRecord row = .ok { record with attrs := readAttrs plan.columns record.attrs } := by
  obtain ⟨recordIn, resolved⟩ := finished.row_of_record member
  have overflow := finished.overflowAttrs_row member
  have columnar : (object.fieldDir.filterMap fun column =>
      (getAttrValue row column).map fun value => (column.name, value)) =
      ((placeAttrs plan.columns record.attrs).columnar.insertionSort typedLe).map storedAttr := by
    rw [← (placeAttrs_placed plan.columns record.attrs).directoryOrder finished.planned.distinctColumns,
      finished.fieldDir, map_filterMap, filterMap_map]
    apply filterMap_congr
    intro column columnIn
    rw [finished.getAttrValue_row member ((mem_insertionSort _).mp columnIn), Option.map_map]
    simp only [Function.comp]
    cases found : (placeAttrs plan.columns record.attrs).columnar.find? fun attr => typedPair attr = column.pair with
    | none => rfl
    | some attr =>
      have passes := find?_some found
      have typed : typedPair attr = column.pair := of_decide_eq_true passes
      have named : attr.1 = column.name := congrArg Prod.fst typed
      simp [storedAttr, named]
  have stream : object.streamDir[row.streamRef]? = some (record.streamId, record.streamAttrs) := by
    obtain ⟨attrsRaw, _, rfl⟩ := resolveRow_ok resolved
    rw [finished.streamDir]
    exact finished.planned.streams.streamRef recordIn
  rw [RlogObject.rebuildRecord, stream]
  simp only [columnar, overflow]
  obtain ⟨attrsRaw, _, rfl⟩ := resolveRow_ok resolved
  rfl

end

end Finished

end Ravel.Logs
