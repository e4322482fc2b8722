import Ravel.Proof.Logs.RowEvaluation
import Ravel.Proof.Promql.LogLabels
import Ravel.Proof.Promql.PruneLiterals

namespace Ravel.Promql

open List Library Logs Erasure

section Erased

/-- The keys that the predicates read. -/
def erasureKeys (predicates : List ErasurePredicate) : List String :=
  predicates.flatMap fun predicate => predicate.matchers.map Prod.fst

/-- The entries under a key, in order. -/
def entriesUnder (key : String) (attrs : List (String × AttrValue)) : List (String × AttrValue) :=
  attrs.filter fun attr => attr.1 = key

theorem firstText_entriesUnder (attrs : List (String × AttrValue)) (key : String) :
    firstText (entriesUnder key attrs) key = firstText attrs key := by
  unfold firstText entriesUnder
  induction attrs with
  | nil => rfl
  | cons attr rest ih =>
    rw [filter_cons, findSome?_cons]
    by_cases same : attr.1 = key
    · rw [if_pos (by simpa using same), findSome?_cons, ih]
    · rw [if_neg (by simpa using same), if_neg same, ih]

variable (key : String) {predicates : List ErasurePredicate}

/-- A verdict depends on the entries under the keys that the predicates read. -/
theorem erasedByAttrs_congr {first second : List (String × AttrValue)}
    (same : ∀ key ∈ erasureKeys predicates, entriesUnder key first = entriesUnder key second) (tsNs : Int) :
    erasedByAttrs predicates first tsNs = erasedByAttrs predicates second tsNs := by
  have texts (key : String) (read : key ∈ erasureKeys predicates) : firstText first key = firstText second key := by
    rw [← firstText_entriesUnder, same key read, firstText_entriesUnder]
  unfold erasedByAttrs
  rw [Bool.eq_iff_iff, any_eq_true, any_eq_true]
  apply exists_congr
  intro predicate
  apply and_congr_right
  intro member
  have lookups : predicate.matchesLogAttrs first = predicate.matchesLogAttrs second := by
    unfold ErasurePredicate.matchesLogAttrs ErasurePredicate.matchersSatisfied
    split
    · rfl
    · rw [Bool.eq_iff_iff, all_eq_true, all_eq_true]
      apply forall₂_congr
      intro matcher matcherIn
      rw [texts matcher.1 (mem_flatMap.mpr ⟨predicate, member, mem_map_of_mem matcherIn⟩)]
  rw [lookups]

theorem entriesUnder_overlayAttr (attr : String × AttrValue) (merged : List (String × AttrValue)) :
    entriesUnder key (overlayAttr merged attr) =
      if attr.1 = key then overlayAttr (entriesUnder key merged) attr else entriesUnder key merged := by
  unfold entriesUnder
  induction merged with
  | nil =>
    rw [overlayAttr, filter_cons]
    by_cases same : attr.1 = key
    · simp [same, overlayAttr]
    · simp [same]
  | cons entry rest ih =>
    rw [overlayAttr]
    by_cases replaced : entry.1 = attr.1
    · rw [if_pos replaced, filter_cons, filter_cons]
      by_cases same : attr.1 = key
      · simp [same, replaced, overlayAttr]
      · simp [same, replaced]
    · rw [if_neg replaced, filter_cons, filter_cons, ih]
      by_cases same : attr.1 = key
      · have other : entry.1 ≠ key := fun equal => replaced (equal.trans same.symm)
        simp [same, other]
      · simp [same]

theorem entriesUnder_overlay (attrs : List (String × AttrValue)) :
    ∀ merged : List (String × AttrValue), entriesUnder key (attrs.foldl overlayAttr merged) =
      (entriesUnder key attrs).foldl overlayAttr (entriesUnder key merged) := by
  induction attrs with
  | nil =>
    intro merged
    rfl
  | cons attr rest ih =>
    intro merged
    have front : entriesUnder key (attr :: rest) =
        if attr.1 = key then attr :: entriesUnder key rest else entriesUnder key rest := by
      simp [entriesUnder, filter_cons]
    rw [foldl_cons, ih, entriesUnder_overlayAttr, front]
    split
    · rfl
    · rfl

/-- The merged view erases the record. A blob that does not decode erases nothing. -/
def erasedInView (predicates : List ErasurePredicate) (record : RlogRecord) : Bool :=
  match isErasedLogRecord predicates record with
  | .ok erased => erased
  | .error _ => false

theorem isErasedLogRecord_eq {record : RlogRecord} {identity : StreamAttrs}
    (decoded : decodeStreamAttrs record.streamAttrs = .ok identity) (predicates : List ErasurePredicate) :
    isErasedLogRecord predicates record = .ok (erasedInView predicates record) := by
  have verdict : ∃ erased, isErasedLogRecord predicates record = .ok erased := by
    unfold isErasedLogRecord
    split
    · exact ⟨false, rfl⟩
    · unfold mergedLogAttrs streamIdentityAttrs
      rw [decoded]
      exact ⟨_, rfl⟩
  obtain ⟨erased, found⟩ := verdict
  rw [erasedInView, found]

theorem isErasedLogRecord_congr {first second : RlogRecord} (blob : first.streamAttrs = second.streamAttrs)
    (time : first.tsNs = second.tsNs)
    (same : ∀ key ∈ erasureKeys predicates, entriesUnder key first.attrs = entriesUnder key second.attrs) :
    isErasedLogRecord predicates first = isErasedLogRecord predicates second := by
  unfold isErasedLogRecord
  split
  · rfl
  · unfold mergedLogAttrs
    rw [blob, time]
    cases streamIdentityAttrs second.streamAttrs with
    | error failure => rfl
    | ok identity =>
      have views : ∀ key ∈ erasureKeys predicates, entriesUnder key (first.attrs.foldl overlayAttr identity) =
          entriesUnder key (second.attrs.foldl overlayAttr identity) := by
        intro key read
        rw [entriesUnder_overlay, same key read, entriesUnder_overlay]
      have verdicts := erasedByAttrs_congr views second.tsNs
      exact congrArg Except.ok verdicts

theorem retainUnerased_eq {records : List RlogRecord}
    (decoded : ∀ record ∈ records, isErasedLogRecord predicates record = .ok (erasedInView predicates record)) :
    retainUnerased predicates records = .ok (records.filter fun record => !erasedInView predicates record) := by
  induction records with
  | nil => rfl
  | cons record rest ih =>
    rw [retainUnerased, decoded record mem_cons_self,
      ih fun other member => decoded other (mem_cons_of_mem _ member), filter_cons]
    cases erasedInView predicates record with
    | true => rfl
    | false => rfl

end Erased

section Rows

variable {object : RlogObject} {row : ResolvedRow}

def rowStream (object : RlogObject) (row : ResolvedRow) : LogStreamId × List UInt8 :=
  (object.streamDir[row.streamRef]?).getD (⟨Vector.replicate 16 0⟩, [])

def rowOverflow (row : ResolvedRow) : List (String × AttrValue) := (overflowAttrs row).toOption.getD []

/-- The columns of a row under some names. -/
def rowColumns (object : RlogObject) (row : ResolvedRow) (named : String → Bool) : List (String × AttrValue) :=
  (object.fieldDir.filter fun column => named column.name).filterMap fun column =>
    (getAttrValue row column).map fun value => (column.name, value)

/-- The record of a row. -/
def storedRecord (object : RlogObject) (row : ResolvedRow) : RlogRecord where
  streamAttrs := (rowStream object row).2
  tsNs := row.tsNs
  attrs := rowColumns object row (fun _ => true) ++ rowOverflow row
  streamId := (rowStream object row).1
  observedTsNs := row.observedTsNs
  severityNum := row.severityNum
  severityText := row.severityText
  body := row.body
  traceId := row.traceId
  spanId := row.spanId
  flags := row.flags

/-- The record of a row under a column selection. -/
def projectedRecord (columns : ColumnSelection) (object : RlogObject) (row : ResolvedRow) : RlogRecord where
  streamAttrs := (rowStream object row).2
  tsNs := row.tsNs
  attrs := rowColumns object row columns.attrs.contains ++ if columns.attrs.isEmpty then [] else rowOverflow row
  streamId := (rowStream object row).1
  observedTsNs := 0
  severityNum := 0
  severityText := if columns.fixed.contains colSeverityText then row.severityText else ""
  body := if columns.fixed.contains colBody then row.body else ""
  traceId := none
  spanId := none
  flags := 0

theorem rowStream_eq (readable : Readable object row) :
    object.streamDir[row.streamRef]? = some (rowStream object row) := by
  obtain ⟨stream, located, _⟩ := readable.stream
  rw [rowStream, located, Option.getD_some]

theorem overflowAttrs_eq (readable : Readable object row) : overflowAttrs row = .ok (rowOverflow row) := by
  obtain ⟨attrs, read⟩ := readable.overflow
  rw [rowOverflow, read]
  rfl

theorem rebuildRecord_eq (readable : Readable object row) :
    object.rebuildRecord row = .ok (storedRecord object row) := by
  unfold RlogObject.rebuildRecord
  rw [rowStream_eq readable, overflowAttrs_eq readable]
  simp only [storedRecord, rowColumns, filter_true]
  rfl

theorem rebuildRecordProjected_eq (readable : Readable object row) (columns : ColumnSelection) :
    rebuildRecordProjected columns object row = .ok (projectedRecord columns object row) := by
  unfold rebuildRecordProjected
  rw [rowStream_eq readable, overflowAttrs_eq readable]
  unfold projectedRecord rowColumns
  cases columns.attrs.isEmpty with
  | true => rfl
  | false => rfl

/-- A selected name keeps all its entries. -/
theorem entriesUnder_projectedRecord {columns : ColumnSelection} {key : String} (selected : key ∈ columns.attrs) :
    entriesUnder key (projectedRecord columns object row).attrs = entriesUnder key (storedRecord object row).attrs := by
  have opened : columns.attrs.isEmpty = false := by
    cases empty : columns.attrs with
    | nil =>
      rw [empty] at selected
      cases selected
    | cons _ _ => rfl
  have columnar (named : String → Bool) (isNamed : named key = true) :
      entriesUnder key (rowColumns object row named) = entriesUnder key (rowColumns object row fun _ => true) := by
    unfold rowColumns entriesUnder
    rw [filter_filterMap, filter_filterMap, filter_true]
    induction object.fieldDir with
    | nil => rfl
    | cons column rest ih =>
      rw [filter_cons, filterMap_cons]
      cases chosen : named column.name with
      | true =>
        rw [if_pos rfl, filterMap_cons, ih]
      | false =>
        have other : column.name ≠ key := by
          rintro rfl
          rw [isNamed] at chosen
          cases chosen
        have dropped : ((getAttrValue row column).map fun value => (column.name, value)).filter
            (fun attr => decide (attr.1 = key)) = none := by
          cases getAttrValue row column with
          | none => rfl
          | some value => simp [Option.filter, other]
        rw [if_neg Bool.false_ne_true, ih, dropped]
  unfold entriesUnder at columnar ⊢
  simp only [projectedRecord, storedRecord, opened, filter_append]
  rw [columnar _ (contains_iff_mem.mpr selected)]
  rfl

end Rows

section Severities

variable {regex : RegexMatch} {matchers : List LabelMatcher}

theorem severity_split (text : String) :
    (((severityContentPredicate matchers).all fun entry => entry.1.value = text) &&
      (severityPostfilters matchers ((severityContentPredicate matchers).map Prod.snd)).all fun matcher =>
        matcher.matchesStr regex text) =
      (matchers.filter fun matcher => matcher.name = severityLabel).all fun matcher => matcher.matchesStr regex text := by
  rw [Bool.eq_iff_iff, Bool.and_eq_true]
  simp only [Option.all_eq_true, decide_eq_true_eq, all_eq_true, mem_filter]
  unfold severityPostfilters
  simp only [mem_map, mem_filter, Bool.and_eq_true, decide_eq_true_eq]
  constructor
  · rintro ⟨pushed, others⟩ matcher ⟨member, isSeverity⟩
    obtain ⟨index, located⟩ := mem_iff_getElem?.mp member
    have entryIn : (matcher, index) ∈ matchers.zipIdx := mem_zipIdx_iff_getElem?.mpr located
    by_cases chosen : some index = (severityContentPredicate matchers).map Prod.snd
    · obtain ⟨entry, found, rfl⟩ := Option.map_eq_some_iff.mp chosen.symm
      have isEntry := mem_zipIdx_iff_getElem?.mp (mem_of_find?_eq_some found)
      rw [located, Option.some.injEq] at isEntry
      have equality := find?_some found
      simp only [Bool.and_eq_true, decide_eq_true_eq] at equality
      rw [isEntry, LabelMatcher.matchesStr, equality.2, pushed entry found]
      exact beq_self_eq_true text
    · exact others matcher ⟨(matcher, index), ⟨entryIn, isSeverity, chosen⟩, rfl⟩
  · intro all
    refine ⟨?_, ?_⟩
    · intro entry found
      have equality := find?_some found
      simp only [Bool.and_eq_true, decide_eq_true_eq] at equality
      have member := fst_mem_of_mem_zipIdx (mem_of_find?_eq_some found)
      have taken := all entry.1 ⟨member, equality.1⟩
      rw [LabelMatcher.matchesStr, equality.2] at taken
      exact beq_iff_eq.mp taken
    · rintro matcher ⟨entry, ⟨entryIn, isSeverity, _⟩, rfl⟩
      exact all entry.1 ⟨fst_mem_of_mem_zipIdx entryIn, isSeverity⟩

end Severities

section Admission

variable (platform : Platform) (regex : RegexMatch) (request : LogSeriesRequest)

/-- The labels of a stream by its blob. -/
def blobLabels (blob : List UInt8) : LabelSet :=
  match decodeStreamAttrs blob with
  | .ok attrs => streamLabelSet platform request.metric attrs
  | .error _ => .empty

/-- The labels of a record: those of its stream and its severity. -/
def recordLabels (record : RlogRecord) : LabelSet :=
  seriesLabelSet (blobLabels platform request record.streamAttrs) record.severityText

/-- The matchers of the selector that speak of labels. The name has chosen the metric. -/
def labelMatchers : List LabelMatcher :=
  request.matchers.filter fun matcher => matcher.name ≠ metricNameLabel && matcher.name ≠ bodyMatcherLabel

/-- The records that a log selector stands for. -/
def admits (record : RlogRecord) : Bool :=
  decide (request.window.startNs ≤ record.tsNs) && decide (record.tsNs ≤ request.window.endNs) &&
    matchesSeries regex (labelMatchers request) (recordLabels platform request record) &&
    bodyMatches regex (bodyMatchers request.matchers) record.body && !erasedInView request.erasure record

/-- The pre-filter over the own attributes drops the record. -/
def ownErased (record : RlogRecord) : Bool := erasedByAttrs request.erasure record.attrs record.tsNs

end Admission

section Scan

variable {platform : Platform} {regex : RegexMatch} {request : LogSeriesRequest} {object : RlogObject} {row : ResolvedRow}

theorem passes_streamIn (readable : Readable object row) (ids : List LogStreamId) :
    passes platform object row (.streamIn ids) = ids.contains (rowStream object row).1 := by
  rw [passes, RlogObject.eval, rowStream_eq readable]
  rfl

theorem passes_severity (value : String) :
    passes platform object row (.equals .severityText (.str value)) = decide (value = row.severityText) := by
  rw [passes, RlogObject.eval, Bool.eq_iff_iff, decide_eq_true_eq, ← utf8Bytes_inj]
  exact beq_iff_eq

theorem passes_word (word : String) :
    passes platform object row (.hasWord .body word) = phraseMatch platform (utf8Bytes row.body) word := by
  rw [passes, RlogObject.eval]
  rfl

theorem passes_query (readable : Readable object row) (streams : List LogStreamId) :
    passes platform object row (.and (.tsRange (request.query platform streams).startNs
        (request.query platform streams).endNs :: (request.query platform streams).content)) =
      (decide (request.window.startNs ≤ row.tsNs) && decide (row.tsNs ≤ request.window.endNs) &&
        streams.contains (rowStream object row).1 &&
        ((severityContentPredicate request.matchers).all fun entry => entry.1.value = row.severityText) &&
        ((bodyMatchers request.matchers).filterMap (bodyPruneLiteral platform)).all fun word =>
          phraseMatch platform (utf8Bytes row.body) word) := by
  have words (literals : List String) : (literals.map fun word => Predicate.hasWord .body word).flatMap Predicate.flatten =
      literals.map fun word => .hasWord .body word := by
    induction literals with
    | nil => rfl
    | cons literal rest ih => rw [map_cons, flatMap_cons, ih]; rfl
  have severity (pushed : Option (LabelMatcher × Nat)) :
      (pushed.map fun entry => Predicate.equals .severityText (.str entry.1.value)).toList.flatMap Predicate.flatten =
        (pushed.map fun entry => Predicate.equals .severityText (.str entry.1.value)).toList := by
    cases pushed with
    | none => rfl
    | some entry => rfl
  rw [readable.passes_flatten, Predicate.flatten, flattenAll_eq]
  simp only [LogSeriesRequest.query, flatMap_cons, flatMap_append, words, severity, Predicate.flatten,
    all_append, all_cons, all_nil, all_map, Function.comp_def, passes_streamIn readable, passes_word,
    Bool.and_true, Bool.and_assoc]
  have inWindow : passes platform object row (.tsRange request.window.startNs request.window.endNs) =
      (decide (request.window.startNs ≤ row.tsNs) && decide (row.tsNs ≤ request.window.endNs)) := rfl
  rw [inWindow, Bool.and_assoc]
  cases severityContentPredicate request.matchers with
  | none => rfl
  | some entry =>
    simp only [Option.map_some, Option.toList_some, all_cons, all_nil, Bool.and_true, Option.all_some,
      passes_severity]

/-- A selected row is an admitted record that the pre-filter leaves. -/
def selects (platform : Platform) (regex : RegexMatch) (request : LogSeriesRequest) (record : RlogRecord) : Bool :=
  admits platform regex request record && !ownErased request record

theorem blobLabels_severity (blob : List UInt8) : (blobLabels platform request blob).get severityLabel = none := by
  unfold blobLabels
  split
  · exact streamLabelSet_severity _ _
  · rfl

/-- The words that the scan asks for are in every body that the matchers take. -/
theorem words_of_bodyMatches (ascii : AsciiTables platform) (plain : PlainPatterns regex)
    (compiled : ∀ matcher ∈ request.matchers, matcher.Compiled) {body : String}
    (taken : bodyMatches regex (bodyMatchers request.matchers) body = true) :
    (((bodyMatchers request.matchers).filterMap (bodyPruneLiteral platform)).all fun word =>
      phraseMatch platform (utf8Bytes body) word) = true := by
  rw [all_eq_true]
  intro word member
  obtain ⟨matcher, matcherIn, found⟩ := mem_filterMap.mp member
  apply bodyPruneLiteral_phrase ascii plain (compiled matcher (mem_filter.mp matcherIn).1) found
  exact all_eq_true.mp taken matcher matcherIn

theorem projectedRecord_severityText :
    (projectedRecord request.columns object row).severityText = row.severityText := by
  simp [projectedRecord, LogSeriesRequest.columns]

/-- The body is there whenever something reads it. -/
theorem projectedRecord_body (read : request.metric = .bytes ∨ (bodyMatchers request.matchers).isEmpty = false) :
    (projectedRecord request.columns object row).body = row.body := by
  rw [projectedRecord, LogSeriesRequest.columns, if_pos read]
  rfl

theorem bodyMatches_projectedRecord :
    bodyMatches regex (bodyMatchers request.matchers) (projectedRecord request.columns object row).body =
      bodyMatches regex (bodyMatchers request.matchers) row.body := by
  cases none : (bodyMatchers request.matchers).isEmpty with
  | true =>
    rw [List.isEmpty_iff] at none
    rw [none]
    rfl
  | false => rw [projectedRecord_body (.inr none)]

theorem erased_projectedRecord :
    ownErased request (projectedRecord request.columns object row) = ownErased request (storedRecord object row) ∧
      erasedInView request.erasure (projectedRecord request.columns object row) =
        erasedInView request.erasure (storedRecord object row) := by
  have same : ∀ key ∈ erasureKeys request.erasure, entriesUnder key (projectedRecord request.columns object row).attrs =
      entriesUnder key (storedRecord object row).attrs := fun key read => entriesUnder_projectedRecord read
  constructor
  · exact erasedByAttrs_congr same row.tsNs
  · have verdict : isErasedLogRecord request.erasure (projectedRecord request.columns object row) =
        isErasedLogRecord request.erasure (storedRecord object row) := isErasedLogRecord_congr rfl rfl same
    rw [erasedInView, verdict, erasedInView]

/-- The scan and the filters after it decide on the projected row as the selector does on the record. -/
theorem kept_iff_selects (ascii : AsciiTables platform) (plain : PlainPatterns regex)
    (compiled : ∀ matcher ∈ request.matchers, matcher.Compiled) (readable : Readable object row)
    {streams : List LogStreamId}
    (matching : streams.contains (rowStream object row).1 =
      matchesSeries regex (streamMatchers request.matchers) (blobLabels platform request (rowStream object row).2)) :
    (passes platform object row (.and (.tsRange (request.query platform streams).startNs
        (request.query platform streams).endNs :: (request.query platform streams).content)) &&
      !ownErased request (projectedRecord request.columns object row) &&
      !erasedInView request.erasure (projectedRecord request.columns object row) &&
      ((severityPostfilters request.matchers ((severityContentPredicate request.matchers).map Prod.snd)).all fun matcher =>
        matcher.matchesStr regex (projectedRecord request.columns object row).severityText) &&
      bodyMatches regex (bodyMatchers request.matchers) (projectedRecord request.columns object row).body) =
      selects platform regex request (storedRecord object row) := by
  have labelled := @matchesSeries_seriesLabelSet (blobLabels platform request (rowStream object row).2) row.severityText
    regex (blobLabels_severity _) request.matchers
  have severities := @severity_split regex request.matchers row.severityText
  rw [passes_query readable, matching, erased_projectedRecord.1, erased_projectedRecord.2, projectedRecord_severityText,
    bodyMatches_projectedRecord, selects, admits]
  unfold labelMatchers recordLabels
  simp only [storedRecord] at *
  rw [labelled, ← severities]
  cases body : bodyMatches regex (bodyMatchers request.matchers) row.body with
  | false => simp
  | true =>
    rw [words_of_bodyMatches ascii plain compiled body]
    rw [Bool.eq_iff_iff]
    simp only [Bool.and_eq_true]
    tauto

end Scan

end Ravel.Promql
