/-
This file models the series that a log selector derives from log segments.
-/

import Ravel.Construction.Erasure.LogSpan
import Ravel.Construction.Logs.ObjectReader
import Ravel.Construction.Promql.MergedSource

namespace Ravel.Promql

open Logs Erasure

/-- The one field of a record that becomes a label. -/
def severityLabel : String := "severity_text"

def isLabelNameStart (char : Char) : Bool := char.isAlpha || char == '_'

def isLabelNameContinue (char : Char) : Bool := char.isAlphanum || char == '_'

/-- Every character that a label name may not have at its place becomes an underscore. -/
def sanitizeLabelName (name : String) : String :=
  match name.toList with
  | [] => name
  | first :: rest =>
    String.ofList ((if isLabelNameStart first then first else '_') ::
      rest.map fun char => if isLabelNameContinue char then char else '_')

/-- A label joins unless it is empty, reserved or already there. -/
def pushFirstWriterWins (labels : List (String × String)) (label : String × String) : List (String × String) :=
  if label.2.isEmpty || "__".toList.isPrefixOf label.1.toList || label.1 = severityLabel then labels
  else if labels.any fun known => known.1 = label.1 then labels
  else labels ++ [label]

/-- A bytes, list or map value is no label. -/
def hasLabelText : AttrValue → Bool
  | .bytes _ => false
  | .list _ => false
  | .map _ => false
  | _ => true

section Labels

variable (platform : Platform)

/-- The text of the last attribute under a key. -/
def lastAttrText (attrs : List (String × AttrValue)) (key : String) : Option String :=
  ((attrs.filter fun attr => attr.1 = key).getLast?).map fun attr => attrValueToString platform attr.2

/-- The source attributes of `job` and `instance`. -/
def isServiceAttr (key : String) : Bool :=
  key == "service.namespace" || key == "service.name" || key == "service.instance.id"

def jobLabels (resource : List (String × AttrValue)) : List (String × String) :=
  match lastAttrText platform resource "service.name" with
  | none => []
  | some name =>
    match lastAttrText platform resource "service.namespace" with
    | some serviceNamespace => [("job", if serviceNamespace.isEmpty then name else serviceNamespace ++ "/" ++ name)]
    | none => [("job", name)]

/-- The labels of the scalar attributes in key order, under a mapping of their names. -/
def attrLabels (name : String → String) (attrs : List (String × AttrValue)) : List (String × String) :=
  ((attrs.insertionSort fun first second => first.1 ≤ second.1).filter fun attr => hasLabelText attr.2).map fun attr =>
    (name attr.1, attrValueToString platform attr.2)

/-- The labels that a stream offers, in the order of their writers. -/
def streamLabelCandidates (stream : StreamAttrs) : List (String × String) :=
  jobLabels platform stream.resource ++
    ((lastAttrText platform stream.resource "service.instance.id").map fun id => ("instance", id)).toList ++
    [("otel_scope_name", stream.scopeName), ("otel_scope_version", stream.scopeVersion)] ++
    attrLabels platform (fun key => "otel_scope_" ++ sanitizeLabelName key) stream.scopeAttrs ++
    attrLabels platform sanitizeLabelName (stream.resource.filter fun attr => !isServiceAttr attr.1)

/-- `stream_label_set`: the name, then the first writer of each label. -/
def streamLabelSet (metric : LogMetric) (stream : StreamAttrs) : LabelSet :=
  (LabelSet.new ((streamLabelCandidates platform stream).foldl pushFirstWriterWins [(metricNameLabel, metric.name)])).getD
    .empty

end Labels

/-- `series_label_set`: an empty severity is no label. -/
def seriesLabelSet (streamLabels : LabelSet) (severityText : String) : LabelSet :=
  if severityText.isEmpty then streamLabels
  else (LabelSet.new (streamLabels.labels ++ [(severityLabel, severityText)])).getD .empty

def streamMatchers (matchers : List LabelMatcher) : List LabelMatcher :=
  matchers.filter fun matcher =>
    matcher.name ≠ metricNameLabel && matcher.name ≠ severityLabel && matcher.name ≠ bodyMatcherLabel

def bodyMatchers (matchers : List LabelMatcher) : List LabelMatcher :=
  matchers.filter fun matcher => matcher.name = bodyMatcherLabel

def bodyMatches (regex : RegexMatch) (matchers : List LabelMatcher) (body : String) : Bool :=
  matchers.all fun matcher => matcher.matchesStr regex body

/-- At most one leading and one trailing anchor. Any other anchor gives nothing. -/
def stripAnchors (pattern : List Char) : Option (List Char) :=
  let front := if pattern.head? = some '^' then pattern.drop 1 else pattern
  let stripped := if front.getLast? = some '$' then front.dropLast else front
  if stripped.contains '^' || stripped.contains '$' then none else some stripped

def rejectedMetachars : List Char := ['|', '(', ')', '[', ']', '{', '}', '\\', '+']

def isQuantifier (char : Char) : Bool := char == '*' || char == '?'

/-- A run of mandatory characters, and whether it stands at an edge of the pattern. -/
structure LiteralRun where
  text : List Char
  atStart : Bool
  atEnd : Bool
  deriving DecidableEq, Repr

/-- The open run with its text and whether it started the pattern. -/
abbrev OpenRun := Option (List Char × Bool)

def OpenRun.extend (run : OpenRun) (char : Char) (first : Bool) : OpenRun :=
  match run with
  | some (text, atStart) => some (text ++ [char], atStart)
  | none => some ([char], first)

def OpenRun.close (run : OpenRun) (atEnd : Bool) : List LiteralRun :=
  match run with
  | some (text, atStart) => [⟨text, atStart, atEnd⟩]
  | none => []

/-- The loop of `literal_runs`. A wildcard or a quantified character ends a run. -/
def literalRuns : List Char → Bool → OpenRun → Option (List LiteralRun)
  | [], _, run => some (run.close true)
  | [char], first, run =>
    if isQuantifier char then none
    else if char = '.' then some (run.close false)
    else some ((run.extend char first).close true)
  | char :: next :: rest, first, run =>
    if isQuantifier char then none
    else if isQuantifier next then
      if rest.head?.any isQuantifier then none
      else (literalRuns rest false none).map fun later => run.close false ++ later
    else if char = '.' then (literalRuns (next :: rest) false none).map fun later => run.close false ++ later
    else literalRuns (next :: rest) false (run.extend char first)

section Literals

variable (platform : Platform)

/-- How many characters an unsafe edge loses: the partial token and its separator. -/
def edgeCut (safe : Bool) (text : List Char) : Option Nat :=
  if safe then some 0
  else if text.all platform.isAlphanumeric then none
  else some ((text.takeWhile platform.isAlphanumeric).length + 1)

def edgeSafe (atEdge : Bool) (edge : Option Char) : Bool :=
  atEdge || !edge.any platform.isAlphanumeric

/-- `trim_run`: the token-bounded core of a run. -/
def trimRun (run : LiteralRun) : Option (List Char) :=
  match edgeCut platform (edgeSafe platform run.atStart run.text.head?) run.text,
    edgeCut platform (edgeSafe platform run.atEnd run.text.getLast?) run.text.reverse with
  | some left, some right =>
    if left + right < run.text.length then some ((run.text.take (run.text.length - right)).drop left) else none
  | _, _ => none

/-- The core with the most alphanumeric characters. The first of equals stays. -/
def pickCore (best : Option (List Char)) (run : LiteralRun) : Option (List Char) :=
  match trimRun platform run with
  | none => best
  | some core =>
    if core.countP platform.isAlphanumeric = 0 then best
    else
      match best with
      | some found =>
        if found.countP platform.isAlphanumeric < core.countP platform.isAlphanumeric then some core else best
      | none => some core

def regexPruneLiteral (pattern : String) : Option String :=
  match stripAnchors pattern.toList with
  | none => none
  | some stripped =>
    if stripped.any rejectedMetachars.contains then none
    else
      match literalRuns stripped true none with
      | none => none
      | some runs => (runs.foldl (pickCore platform) none).map String.ofList

/-- A word of every body that the matcher takes. A text without a token is no word. -/
def bodyPruneLiteral (matcher : LabelMatcher) : Option String :=
  let literal := match matcher.op with
    | .ne => none
    | .nre _ => none
    | .eq => some matcher.value
    | .re _ => regexPruneLiteral platform matcher.value
  literal.filter fun text => text.toList.any platform.isAlphanumeric

end Literals

/-- The first equality on the severity, with its position. -/
def severityContentPredicate (matchers : List LabelMatcher) : Option (LabelMatcher × Nat) :=
  matchers.zipIdx.find? fun entry => entry.1.name = severityLabel && entry.1.op = .eq

/-- The severity matchers apart from the pushed one. -/
def severityPostfilters (matchers : List LabelMatcher) (pushed : Option Nat) : List LabelMatcher :=
  (matchers.zipIdx.filter fun entry => entry.1.name = severityLabel && some entry.2 ≠ pushed).map Prod.fst

/-- The columns of a read. The timestamp and the stream are always there. -/
structure ColumnSelection where
  fixed : List Nat
  attrs : List String
  deriving DecidableEq, Repr

/-- `rebuild_record_projected`: an undecoded field is empty. A named attribute also opens the overflow. -/
def rebuildRecordProjected (columns : ColumnSelection) (object : RlogObject) (row : ResolvedRow) :
    Except LogSegError RlogRecord := do
  match object.streamDir[row.streamRef]? with
  | none => throw (.corrupted "stream_ref out of range")
  | some stream =>
    let columnar := (object.fieldDir.filter fun column => columns.attrs.contains column.name).filterMap fun column =>
      (getAttrValue row column).map fun value => (column.name, value)
    let overflow ← if columns.attrs.isEmpty then .ok [] else overflowAttrs row
    return {
      streamAttrs := stream.2
      tsNs := row.tsNs
      attrs := columnar ++ overflow
      streamId := stream.1
      observedTsNs := 0
      severityNum := 0
      severityText := if columns.fixed.contains colSeverityText then row.severityText else ""
      body := if columns.fixed.contains colBody then row.body else ""
      traceId := none
      spanId := none
      flags := 0 }

structure LogQuery where
  startNs : Int
  endNs : Int
  content : List Predicate
  erasure : List ErasurePredicate

/-- The rows that the content predicate admits, less those that the pre-filter over their own attributes drops. -/
def scanRecords (platform : Platform) (object : RlogObject) (query : LogQuery) (columns : ColumnSelection) :
    Except LogSegError (List RlogRecord) := do
  let rows ← retainRows (fun row =>
    object.eval platform row (.and (.tsRange query.startNs query.endNs :: query.content))) object.rows
  let records ← rows.mapM (rebuildRecordProjected columns object)
  return records.filter fun record => !erasedByAttrs query.erasure record.attrs record.tsNs

/-- A resolved log segment with its event-time bounds. -/
structure LogSegment where
  minEventTsNs : Int
  maxEventTsNs : Int
  object : RlogObject

structure LogSeriesRequest where
  metric : LogMetric
  matchers : List LabelMatcher
  window : TimeRange
  erasure : List ErasurePredicate

inductive LogSeriesError where
  | fetch (source : LogSegError)
  | decode (source : LogSegError)
  | unknownStream (streamId : LogStreamId)
  deriving DecidableEq, Repr

/-- The stream labels seen so far and the samples of each key, with the labels of its first record. -/
structure FetchState where
  cache : List (LogStreamId × LabelSet)
  series : List (List UInt8 × LabelSet × List Sample)

/-- Names and values in turn, each closed by a zero byte. -/
def seriesKey (labels : LabelSet) : List UInt8 :=
  labels.labels.flatMap fun label => utf8Bytes label.1 ++ 0 :: (utf8Bytes label.2 ++ [0])

/-- A sample joins the entry of its key. A new entry takes the labels. -/
def pushSample (key : List UInt8) (labels : LabelSet) (sample : Sample) :
    List (List UInt8 × LabelSet × List Sample) → List (List UInt8 × LabelSet × List Sample)
  | [] => [(key, labels, [sample])]
  | entry :: rest =>
    if entry.1 = key then (entry.1, entry.2.1, entry.2.2 ++ [sample]) :: rest
    else entry :: pushSample key labels sample rest

/-- The order of samples in a series. -/
def sampleLe (first second : Sample) : Prop :=
  first.tsNs < second.tsNs ∨ first.tsNs = second.tsNs ∧ first.value ≤ second.value

instance : DecidableRel sampleLe := fun _ _ => inferInstanceAs (Decidable (_ ∨ _ ∧ _))

section Fetch

variable (platform : Platform) (regex : RegexMatch) (ofLength : Nat → UInt64) (request : LogSeriesRequest)

/-- The labels of a stream, decoded once. -/
def cachedLabels (cache : List (LogStreamId × LabelSet)) (entry : LogStreamId × List UInt8) :
    Except LogSeriesError (List (LogStreamId × LabelSet) × LabelSet) :=
  match cache.find? fun known => known.1 = entry.1 with
  | some known => .ok (cache, known.2)
  | none =>
    match decodeStreamAttrs entry.2 with
    | .error failure => .error (.decode failure)
    | .ok attrs =>
      let labels := streamLabelSet platform request.metric attrs
      .ok (cache ++ [(entry.1, labels)], labels)

/-- One stream of the directory. -/
def planStream (state : List (LogStreamId × LabelSet) × List LogStreamId) (entry : LogStreamId × List UInt8) :
    Except LogSeriesError (List (LogStreamId × LabelSet) × List LogStreamId) := do
  let found ← cachedLabels platform request state.1 entry
  return (found.1, if matchesSeries regex (streamMatchers request.matchers) found.2 then state.2 ++ [entry.1] else state.2)

def LogSeriesRequest.columns : ColumnSelection where
  fixed := colSeverityText ::
    if request.metric = .bytes ∨ (bodyMatchers request.matchers).isEmpty = false then [colBody] else []
  attrs := request.erasure.flatMap fun predicate => predicate.matchers.map Prod.fst

/-- The query of a segment whose matching streams are known. -/
def LogSeriesRequest.query (streams : List LogStreamId) : LogQuery where
  startNs := request.window.startNs
  endNs := request.window.endNs
  content := .streamIn streams ::
    (((severityContentPredicate request.matchers).map fun entry =>
        Predicate.equals .severityText (.str entry.1.value)).toList ++
      ((bodyMatchers request.matchers).filterMap (bodyPruneLiteral platform)).map fun word => .hasWord .body word)
  erasure := request.erasure

/-- The exclusion over the merged view of a record. -/
def isErasedLogRecord (predicates : List ErasurePredicate) (record : RlogRecord) : Except LogSegError Bool :=
  if predicates.isEmpty then .ok false
  else do
    let merged ← mergedLogAttrs record.toLogRecord
    return erasedByAttrs predicates merged record.tsNs

/-- The records that the merged view does not erase. The first corrupt blob ends the walk. -/
def retainUnerased (predicates : List ErasurePredicate) : List RlogRecord → Except LogSegError (List RlogRecord)
  | [] => .ok []
  | record :: rest => do
    let erased ← isErasedLogRecord predicates record
    let later ← retainUnerased predicates rest
    return if erased then later else record :: later

def sampleValue (record : RlogRecord) : UInt64 :=
  match request.metric with
  | .lines => oneBits
  | .bytes => ofLength (utf8Bytes record.body).length

/-- One record of a block that is left after the erasure. -/
def absorbRecord (state : FetchState) (record : RlogRecord) : Except LogSeriesError FetchState :=
  if !((severityPostfilters request.matchers ((severityContentPredicate request.matchers).map Prod.snd)).all fun matcher =>
      matcher.matchesStr regex record.severityText) then .ok state
  else if !bodyMatches regex (bodyMatchers request.matchers) record.body then .ok state
  else
    match state.cache.find? fun known => known.1 = record.streamId with
    | none => .error (.unknownStream record.streamId)
    | some known =>
      let labels := seriesLabelSet known.2 record.severityText
      .ok { state with
        series := pushSample (seriesKey labels) labels ⟨record.tsNs, sampleValue ofLength request record⟩ state.series }

/-- One segment: its window, its streams, then its scan. -/
def fetchSegment (state : FetchState) (segment : LogSegment) : Except LogSeriesError FetchState :=
  if !request.window.overlaps ⟨segment.minEventTsNs, segment.maxEventTsNs⟩ then .ok state
  else do
    let planned ← segment.object.streamDir.foldlM (planStream platform regex request) (state.cache, [])
    let cached := { state with cache := planned.1 }
    if planned.2.isEmpty then return cached
    else
      match scanRecords platform segment.object (request.query platform planned.2) request.columns with
      | .error failure => .error (.fetch failure)
      | .ok records =>
        match retainUnerased request.erasure records with
        | .error failure => .error (.decode failure)
        | .ok kept => kept.foldlM (absorbRecord regex ofLength request) cached

/-- `fetch_log_series`: the series in key order, each in sample order. -/
def fetchLogSeries (segments : List LogSegment) : Except LogSeriesError (List SeriesData) := do
  let state ← segments.foldlM (fetchSegment platform regex ofLength request) ⟨[], []⟩
  return (state.series.insertionSort fun first second => first.1.map UInt8.toNat ≤ second.1.map UInt8.toNat).map fun entry =>
    ⟨entry.2.1, entry.2.2.insertionSort sampleLe⟩

end Fetch

end Ravel.Promql
