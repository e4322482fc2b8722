import Ravel.Proof.Promql.LogAdmission

namespace Ravel.Promql

open List Library Logs Erasure

section Groups

variable {Record : Type} (labels : Record → LabelSet) (sample : Record → Sample)

/-- The sample of a record joins the series of its key. -/
def pushRecord (series : List (List UInt8 × LabelSet × List Sample)) (record : Record) :
    List (List UInt8 × LabelSet × List Sample) :=
  pushSample (seriesKey (labels record)) (labels record) (sample record) series

/-- The series of the records so far: one entry a key, with the labels of one of its records. -/
structure GroupsHold (read : List Record) (series : List (List UInt8 × LabelSet × List Sample)) : Prop where
  keys : (series.map Prod.fst).Nodup
  samples : ∀ entry ∈ series, entry.2.2 = (read.filter fun record => seriesKey (labels record) = entry.1).map sample
  labelled : ∀ entry ∈ series, ∃ record ∈ read, seriesKey (labels record) = entry.1 ∧ labels record = entry.2.1
  complete : ∀ record ∈ read, seriesKey (labels record) ∈ series.map Prod.fst

variable {labels sample}

theorem pushSample_eq (key : List UInt8) (set : LabelSet) (point : Sample)
    (series : List (List UInt8 × LabelSet × List Sample)) :
    pushSample key set point series = alterEntry key (set, [point]) (fun entry => (entry.1, entry.2 ++ [point])) series := by
  induction series with
  | nil => rfl
  | cons entry rest ih => rw [pushSample, alterEntry, ih]

theorem GroupsHold.push {read : List Record} {series : List (List UInt8 × LabelSet × List Sample)}
    (groups : GroupsHold labels sample read series) (record : Record) :
    GroupsHold labels sample (read ++ [record]) (pushRecord labels sample series record) := by
  have filtered (key : List UInt8) : ((read ++ [record]).filter fun other => seriesKey (labels other) = key) =
      (read.filter fun other => seriesKey (labels other) = key) ++ if seriesKey (labels record) = key then [record] else [] := by
    rw [filter_append]
    by_cases same : seriesKey (labels record) = key
    · simp [same]
    · simp [same]
  rw [pushRecord, pushSample_eq]
  refine ⟨nodup_alterEntry groups.keys, ?_, ?_, ?_⟩
  · intro entry member
    rw [filtered]
    rcases mem_alterEntry groups.keys member with ⟨old, other⟩ | ⟨old, oldIn, oldKey, rfl⟩ | ⟨new, rfl⟩
    · rw [if_neg (Ne.symm other), append_nil]
      exact groups.samples entry old
    · rw [if_pos rfl, map_append, groups.samples old oldIn, oldKey]
      rfl
    · rw [if_pos rfl, map_append]
      have none : (read.filter fun other => seriesKey (labels other) = seriesKey (labels record)) = [] := by
        rw [filter_eq_nil_iff]
        intro other otherIn same
        rw [decide_eq_true_eq] at same
        apply new
        rw [← same]
        exact groups.complete other otherIn
      rw [none]
      rfl
  · intro entry member
    rcases mem_alterEntry groups.keys member with ⟨old, _⟩ | ⟨old, oldIn, oldKey, rfl⟩ | ⟨_, rfl⟩
    · obtain ⟨other, otherIn, facts⟩ := groups.labelled entry old
      exact ⟨other, mem_append_left _ otherIn, facts⟩
    · obtain ⟨other, otherIn, facts⟩ := groups.labelled old oldIn
      rw [oldKey] at facts
      exact ⟨other, mem_append_left _ otherIn, facts⟩
    · exact ⟨record, mem_append_right _ mem_cons_self, rfl, rfl⟩
  · intro other otherIn
    rw [mem_keys_alterEntry]
    rcases mem_append.mp otherIn with earlier | last
    · exact .inr (groups.complete other earlier)
    · exact .inl (by rw [mem_singleton.mp last])

theorem GroupsHold.fold (records : List Record) : ∀ {read : List Record}
    {series : List (List UInt8 × LabelSet × List Sample)}, GroupsHold labels sample read series →
      GroupsHold labels sample (read ++ records) (records.foldl (pushRecord labels sample) series) := by
  induction records with
  | nil =>
    intro read series groups
    rw [append_nil]
    exact groups
  | cons record rest ih =>
    intro read series groups
    rw [append_cons]
    exact ih (groups.push record)

end Groups

section Exact

variable {Record : Type} (labels : Record → LabelSet) (sample : Record → Sample)

/-- One series a label set, with one sample a record in sample order. -/
structure ExactSeries (records : List Record) (out : List SeriesData) : Prop where
  distinct : (out.map SeriesData.labels).Nodup
  present : ∀ set, set ∈ out.map SeriesData.labels ↔ set ∈ records.map labels
  samples : ∀ series ∈ out,
    series.samples = ((records.filter fun record => labels record = series.labels).map sample).insertionSort sampleLe

theorem sum_groups {Key : Type} [DecidableEq Key] {key : Record → Key} {keys : List Key} {records : List Record}
    (distinct : keys.Nodup) (present : ∀ value, value ∈ keys ↔ value ∈ records.map key) :
    (keys.map fun value => (records.filter fun record => key record = value).length).sum = records.length := by
  have order : keys.Perm (records.map key).dedup := by
    rw [perm_ext_iff_of_nodup distinct (nodup_dedup _)]
    intro value
    rw [mem_dedup]
    exact present value
  have counts (value : Key) : (records.filter fun record => key record = value).length = (records.map key).count value := by
    rw [List.count, countP_map, countP_eq_length_filter]
    rfl
  simp only [counts]
  rw [(order.map _).sum_eq, sum_map_count_dedup_eq_length, length_map]

/-- The finished output of the groups. -/
def finishSeries (series : List (List UInt8 × LabelSet × List Sample)) : List SeriesData :=
  (series.insertionSort fun first second => first.1.map UInt8.toNat ≤ second.1.map UInt8.toNat).map fun entry =>
    ⟨entry.2.1, entry.2.2.insertionSort sampleLe⟩

variable {labels sample}

theorem mem_finishSeries {series : List (List UInt8 × LabelSet × List Sample)} {data : SeriesData} :
    data ∈ finishSeries series ↔ ∃ entry ∈ series, data = ⟨entry.2.1, entry.2.2.insertionSort sampleLe⟩ := by
  unfold finishSeries
  rw [mem_map]
  simp only [mem_insertionSort, eq_comm]

theorem finishSeries_perm (series : List (List UInt8 × LabelSet × List Sample)) :
    (finishSeries series).Perm (series.map fun entry => ⟨entry.2.1, entry.2.2.insertionSort sampleLe⟩) :=
  (perm_insertionSort _ series).map _

theorem GroupsHold.key_eq {read : List Record} {series : List (List UInt8 × LabelSet × List Sample)}
    (groups : GroupsHold labels sample read series) {entry : List UInt8 × LabelSet × List Sample}
    (member : entry ∈ series) : entry.1 = seriesKey entry.2.1 := by
  obtain ⟨record, _, key, same⟩ := groups.labelled entry member
  rw [← key, same]

theorem GroupsHold.sum_samples {read : List Record} {series : List (List UInt8 × LabelSet × List Sample)}
    (groups : GroupsHold labels sample read series) :
    ((finishSeries series).map fun data => data.samples.length).sum = read.length := by
  have present : ∀ key, key ∈ series.map Prod.fst ↔ key ∈ read.map fun record => seriesKey (labels record) := by
    intro key
    simp only [mem_map]
    constructor
    · rintro ⟨entry, member, rfl⟩
      obtain ⟨record, recordIn, same, _⟩ := groups.labelled entry member
      exact ⟨record, recordIn, same⟩
    · rintro ⟨record, recordIn, rfl⟩
      exact mem_map.mp (groups.complete record recordIn)
  have lengths : (series.map fun entry => (entry.2.2.insertionSort sampleLe).length) =
      (series.map Prod.fst).map fun key => (read.filter fun record => seriesKey (labels record) = key).length := by
    rw [map_map]
    apply map_congr_left
    intro entry member
    rw [length_insertionSort, groups.samples entry member, length_map]
    rfl
  have order := (finishSeries_perm series).map fun data => data.samples.length
  rw [map_map] at order
  rw [order.sum_eq]
  exact (congrArg List.sum lengths).trans (sum_groups groups.keys present)

theorem ExactSeries.sum_samples {records : List Record} {out : List SeriesData}
    (exact : ExactSeries labels sample records out) : (out.map fun data => data.samples.length).sum = records.length := by
  have lengths : (out.map fun data => data.samples.length) =
      (out.map SeriesData.labels).map fun set => (records.filter fun record => labels record = set).length := by
    rw [map_map]
    apply map_congr_left
    intro data member
    rw [exact.samples data member, length_insertionSort, length_map]
    rfl
  rw [lengths]
  exact sum_groups exact.distinct exact.present

/-- The groups of some of the records are the exact series of all of them in one case only: no record is
left out and no two label sets share a key. -/
theorem exactSeries_iff {records : List Record} {keep : Record → Bool}
    {series : List (List UInt8 × LabelSet × List Sample)} (groups : GroupsHold labels sample (records.filter keep) series) :
    ExactSeries labels sample records (finishSeries series) ↔
      (∀ record ∈ records, keep record = true) ∧ ∀ first ∈ records, ∀ second ∈ records,
        seriesKey (labels first) = seriesKey (labels second) → labels first = labels second := by
  constructor
  · intro exact
    have all : ∀ record ∈ records, keep record = true := by
      have same : (records.filter keep).length = records.length := by
        rw [← groups.sum_samples, exact.sum_samples]
      exact length_filter_eq_length_iff.mp same
    refine ⟨all, ?_⟩
    rw [filter_eq_self.mpr all] at groups
    -- The series of a label set lies under the key of that label set, and a key has one entry.
    have located {record : Record} (recordIn : record ∈ records) :
        ∃ entry ∈ series, entry.1 = seriesKey (labels record) ∧ entry.2.1 = labels record := by
      obtain ⟨data, dataIn, same⟩ := mem_map.mp ((exact.present _).mpr (mem_map_of_mem recordIn))
      obtain ⟨entry, entryIn, rfl⟩ := mem_finishSeries.mp dataIn
      refine ⟨entry, entryIn, ?_, same⟩
      rw [groups.key_eq entryIn]
      exact congrArg seriesKey same
    intro first firstIn second secondIn sameKey
    obtain ⟨one, oneIn, oneKey, oneLabels⟩ := located firstIn
    obtain ⟨other, otherIn, otherKey, otherLabels⟩ := located secondIn
    have single : one = other :=
      inj_on_of_nodup_map groups.keys oneIn otherIn (oneKey.trans (sameKey.trans otherKey.symm))
    rw [← oneLabels, single, otherLabels]
  · rintro ⟨all, determined⟩
    rw [filter_eq_self.mpr all] at groups
    have sameGroup {entry : List UInt8 × LabelSet × List Sample} (entryIn : entry ∈ series) {record : Record}
        (recordIn : record ∈ records) : seriesKey (labels record) = entry.1 ↔ labels record = entry.2.1 := by
      obtain ⟨other, otherIn, key, same⟩ := groups.labelled entry entryIn
      constructor
      · intro sameKey
        rw [← same]
        exact determined record recordIn other otherIn (sameKey.trans key.symm)
      · intro sameLabels
        rw [sameLabels, groups.key_eq entryIn]
    refine ⟨?_, ?_, ?_⟩
    · have distinct : (series.map fun entry => entry.2.1).Nodup := by
        apply Nodup.of_map seriesKey
        have keys : (series.map fun entry => entry.2.1).map seriesKey = series.map Prod.fst := by
          rw [map_map]
          exact map_congr_left fun entry entryIn => (groups.key_eq entryIn).symm
        rw [keys]
        exact groups.keys
      have order := (finishSeries_perm series).map SeriesData.labels
      rw [map_map] at order
      exact order.nodup_iff.mpr distinct
    · intro set
      rw [mem_map, mem_map]
      constructor
      · rintro ⟨data, dataIn, rfl⟩
        obtain ⟨entry, entryIn, rfl⟩ := mem_finishSeries.mp dataIn
        obtain ⟨record, recordIn, _, same⟩ := groups.labelled entry entryIn
        exact ⟨record, recordIn, same⟩
      · rintro ⟨record, recordIn, rfl⟩
        obtain ⟨entry, entryIn, key⟩ := mem_map.mp (groups.complete record recordIn)
        exact ⟨_, mem_finishSeries.mpr ⟨entry, entryIn, rfl⟩, ((sameGroup entryIn recordIn).mp key.symm).symm⟩
    · intro data dataIn
      obtain ⟨entry, entryIn, rfl⟩ := mem_finishSeries.mp dataIn
      have group : (records.filter fun record => seriesKey (labels record) = entry.1) =
          records.filter fun record => labels record = entry.2.1 := by
        apply filter_congr
        intro record recordIn
        rw [decide_eq_decide]
        exact sameGroup entryIn recordIn
      rw [groups.samples entry entryIn, group]

end Exact

section Planning

variable {platform : Platform} {regex : RegexMatch} {request : LogSeriesRequest}

/-- The cached labels of an id are those of every blob under the id. -/
def CacheHolds (platform : Platform) (request : LogSeriesRequest) (streams : List (LogStreamId × List UInt8))
    (cache : List (LogStreamId × LabelSet)) : Prop :=
  ∀ known ∈ cache, ∀ stream ∈ streams, stream.1 = known.1 → known.2 = blobLabels platform request stream.2

/-- The labels of a stream are in the cache. -/
def Cached (platform : Platform) (request : LogSeriesRequest) (cache : List (LogStreamId × LabelSet))
    (stream : LogStreamId × List UInt8) : Prop :=
  ∃ known, cache.find? (fun known => known.1 = stream.1) = some known ∧ known.2 = blobLabels platform request stream.2

theorem Cached.append {cache : List (LogStreamId × LabelSet)} {stream : LogStreamId × List UInt8}
    (cached : Cached platform request cache stream) (more : List (LogStreamId × LabelSet)) :
    Cached platform request (cache ++ more) stream := by
  obtain ⟨known, found, same⟩ := cached
  exact ⟨known, by rw [find?_append, found, Option.some_or], same⟩

/-- The cache after a lookup still holds, and it has the stream. -/
theorem cachedLabels_holds {streams : List (LogStreamId × List UInt8)}
    (oneBlob : ∀ first ∈ streams, ∀ second ∈ streams, first.1 = second.1 → first.2 = second.2)
    {cache : List (LogStreamId × LabelSet)} (holds : CacheHolds platform request streams cache)
    {stream : LogStreamId × List UInt8} (listed : stream ∈ streams) {attrs : StreamAttrs}
    (decoded : decodeStreamAttrs stream.2 = .ok attrs) :
    ∃ more, cachedLabels platform request cache stream = .ok (cache ++ more, blobLabels platform request stream.2) ∧
      CacheHolds platform request streams (cache ++ more) ∧ Cached platform request (cache ++ more) stream := by
  unfold cachedLabels
  cases found : cache.find? fun known => known.1 = stream.1 with
  | some known =>
    have sameId : known.1 = stream.1 := by simpa using find?_some found
    have same := holds known (mem_of_find?_eq_some found) stream listed sameId.symm
    refine ⟨[], ?_, ?_, ?_⟩
    · rw [append_nil, ← same]
    · rw [append_nil]
      exact holds
    · rw [append_nil]
      exact ⟨known, found, same⟩
  | none =>
    have labels : blobLabels platform request stream.2 = streamLabelSet platform request.metric attrs := by
      rw [blobLabels, decoded]
    refine ⟨[(stream.1, blobLabels platform request stream.2)], ?_, ?_, ?_⟩
    · simp only [decoded, labels]
    · intro known member other otherIn sameId
      rcases mem_append.mp member with earlier | new
      · exact holds known earlier other otherIn sameId
      · obtain rfl := mem_singleton.mp new
        rw [oneBlob other otherIn stream listed sameId]
    · refine ⟨(stream.1, blobLabels platform request stream.2), ?_, rfl⟩
      rw [find?_append, found, Option.none_or, find?_singleton]
      simp

/-- The plan of a segment caches its streams and takes those whose labels match. -/
theorem planStreams_eq {streams : List (LogStreamId × List UInt8)}
    (oneBlob : ∀ first ∈ streams, ∀ second ∈ streams, first.1 = second.1 → first.2 = second.2)
    {entries : List (LogStreamId × List UInt8)} (decoded : ∀ entry ∈ entries, ∃ attrs, decodeStreamAttrs entry.2 = .ok attrs)
    (listed : entries ⊆ streams) : ∀ {cache : List (LogStreamId × LabelSet)} (ids : List LogStreamId),
    CacheHolds platform request streams cache →
      ∃ more, entries.foldlM (planStream platform regex request) (cache, ids) = .ok (cache ++ more, ids ++
          (entries.filter fun entry => matchesSeries regex (streamMatchers request.matchers)
            (blobLabels platform request entry.2)).map Prod.fst) ∧
        CacheHolds platform request streams (cache ++ more) ∧
        ∀ entry ∈ entries, Cached platform request (cache ++ more) entry := by
  induction entries with
  | nil =>
    intro cache ids holds
    refine ⟨[], ?_, ?_, ?_⟩
    · rw [append_nil, filter_nil, map_nil, append_nil]
      rfl
    · rw [append_nil]
      exact holds
    · intro entry absent
      cases absent
  | cons entry rest ih =>
    intro cache ids holds
    obtain ⟨entryDecoded, restDecoded⟩ := forall_mem_cons.mp decoded
    obtain ⟨attrs, entryDecoded⟩ := entryDecoded
    obtain ⟨more, found, heldMore, entryCached⟩ :=
      cachedLabels_holds oneBlob holds (listed mem_cons_self) entryDecoded
    have restListed : rest ⊆ streams := fun other member => listed (mem_cons_of_mem _ member)
    obtain ⟨later, ran, heldLater, restCached⟩ := ih restDecoded restListed
      (if matchesSeries regex (streamMatchers request.matchers) (blobLabels platform request entry.2) then ids ++ [entry.1]
        else ids) heldMore
    refine ⟨more ++ later, ?_, ?_, ?_⟩
    · have stepped : planStream platform regex request (cache, ids) entry = .ok (cache ++ more,
          if matchesSeries regex (streamMatchers request.matchers) (blobLabels platform request entry.2) then
            ids ++ [entry.1] else ids) := by
        rw [planStream, found]
        rfl
      rw [foldlM_cons, stepped]
      refine ran.trans ?_
      rw [filter_cons]
      split
      · simp only [map_cons, append_assoc, cons_append, nil_append]
      · rw [append_assoc]
    · rw [← append_assoc]
      exact heldLater
    · intro other member
      rw [← append_assoc]
      rcases mem_cons.mp member with rfl | member
      · exact entryCached.append later
      · exact restCached other member

end Planning

section Segments

variable {platform : Platform} {regex : RegexMatch} {ofLength : Nat → UInt64} {request : LogSeriesRequest}

/-- The sample of a record. -/
def recordSample (ofLength : Nat → UInt64) (request : LogSeriesRequest) (record : RlogRecord) : Sample :=
  ⟨record.tsNs, sampleValue ofLength request record⟩

/-- The filters on a scanned record. -/
def passesFilters (regex : RegexMatch) (request : LogSeriesRequest) (record : RlogRecord) : Bool :=
  ((severityPostfilters request.matchers ((severityContentPredicate request.matchers).map Prod.snd)).all fun matcher =>
    matcher.matchesStr regex record.severityText) && bodyMatches regex (bodyMatchers request.matchers) record.body

theorem absorbRecords_eq {cache : List (LogStreamId × LabelSet)} {records : List RlogRecord}
    (cached : ∀ record ∈ records, Cached platform request cache (record.streamId, record.streamAttrs)) :
    ∀ series : List (List UInt8 × LabelSet × List Sample),
      records.foldlM (absorbRecord regex ofLength request) ⟨cache, series⟩ =
        .ok ⟨cache, (records.filter (passesFilters regex request)).foldl
          (pushRecord (recordLabels platform request) (recordSample ofLength request)) series⟩ := by
  induction records with
  | nil =>
    intro series
    rfl
  | cons record rest ih =>
    intro series
    obtain ⟨⟨known, found, labels⟩, restCached⟩ := forall_mem_cons.mp cached
    have stepped : absorbRecord regex ofLength request ⟨cache, series⟩ record =
        .ok ⟨cache, if passesFilters regex request record then
          pushRecord (recordLabels platform request) (recordSample ofLength request) series record else series⟩ := by
      unfold absorbRecord passesFilters
      cases (severityPostfilters request.matchers ((severityContentPredicate request.matchers).map Prod.snd)).all
          fun matcher => matcher.matchesStr regex record.severityText with
      | false => rfl
      | true =>
        cases bodyMatches regex (bodyMatchers request.matchers) record.body with
        | false => rfl
        | true =>
          simp only [found, labels]
          rfl
    rw [foldlM_cons, stepped]
    refine (ih restCached _).trans ?_
    rw [filter_cons]
    split
    · rfl
    · rfl

/-- A log segment as its writer left it: its rows read back, its bounds hold them and its streams decode. -/
structure SegmentHolds (segment : LogSegment) : Prop where
  readable : ∀ row ∈ segment.object.rows, Readable segment.object row
  bounds : ∀ row ∈ segment.object.rows, segment.minEventTsNs ≤ row.tsNs ∧ row.tsNs ≤ segment.maxEventTsNs
  decodes : ∀ entry ∈ segment.object.streamDir, ∃ attrs, decodeStreamAttrs entry.2 = .ok attrs

def storedRecords (segment : LogSegment) : List RlogRecord :=
  segment.object.rows.map (storedRecord segment.object)

theorem SegmentHolds.readRecords {segment : LogSegment} (holds : SegmentHolds segment) :
    segment.object.readRecords = .ok (storedRecords segment) :=
  mapM_eq_map fun row member => rebuildRecord_eq (holds.readable row member)

/-- What a record adds to the series does not depend on the projection. -/
theorem pushRecord_projectedRecord (object : RlogObject) (row : ResolvedRow)
    (series : List (List UInt8 × LabelSet × List Sample)) :
    pushRecord (recordLabels platform request) (recordSample ofLength request) series
        (projectedRecord request.columns object row) =
      pushRecord (recordLabels platform request) (recordSample ofLength request) series (storedRecord object row) := by
  have labels : recordLabels platform request (projectedRecord request.columns object row) =
      recordLabels platform request (storedRecord object row) := by
    rw [recordLabels, projectedRecord_severityText]
    rfl
  have sample : recordSample ofLength request (projectedRecord request.columns object row) =
      recordSample ofLength request (storedRecord object row) := by
    unfold recordSample sampleValue
    cases metric : request.metric with
    | lines => rfl
    | bytes =>
      simp only [projectedRecord_body (.inl metric)]
      rfl
  rw [pushRecord, labels, sample, pushRecord]

section Scanned

variable (ascii : AsciiTables platform) (plain : PlainPatterns regex)
  (compiled : ∀ matcher ∈ request.matchers, matcher.Compiled)

include ascii plain compiled

theorem scanSegment_eq {segment : LogSegment} (holds : SegmentHolds segment)
    {cache : List (LogStreamId × LabelSet)} {streams : List LogStreamId}
    (cached : ∀ entry ∈ segment.object.streamDir, Cached platform request cache entry)
    (matching : ∀ entry ∈ segment.object.streamDir, streams.contains entry.1 =
      matchesSeries regex (streamMatchers request.matchers) (blobLabels platform request entry.2))
    (series : List (List UInt8 × LabelSet × List Sample)) :
    ∃ records kept, scanRecords platform segment.object (request.query platform streams) request.columns = .ok records ∧
      retainUnerased request.erasure records = .ok kept ∧
      kept.foldlM (absorbRecord regex ofLength request) ⟨cache, series⟩ =
        .ok ⟨cache, ((storedRecords segment).filter (selects platform regex request)).foldl
          (pushRecord (recordLabels platform request) (recordSample ofLength request)) series⟩ := by
  have listed (row : ResolvedRow) (member : row ∈ segment.object.rows) :
      rowStream segment.object row ∈ segment.object.streamDir :=
    mem_of_getElem? (rowStream_eq (holds.readable row member))
  let keeps (row : ResolvedRow) : Bool := passes platform segment.object row
    (.and (.tsRange (request.query platform streams).startNs (request.query platform streams).endNs ::
      (request.query platform streams).content))
  let scanned := ((segment.object.rows.filter keeps).map (projectedRecord request.columns segment.object)).filter
    fun record => !ownErased request record
  let unerased := scanned.filter fun record => !erasedInView request.erasure record
  have scannedFrom {record : RlogRecord} (member : record ∈ scanned) :
      ∃ row ∈ segment.object.rows, projectedRecord request.columns segment.object row = record := by
    obtain ⟨row, rowIn, same⟩ := mem_map.mp (mem_filter.mp member).1
    exact ⟨row, (mem_filter.mp rowIn).1, same⟩
  refine ⟨scanned, unerased, ?_, ?_, ?_⟩
  · have retained : retainRows (fun row => segment.object.eval platform row
        (.and (.tsRange (request.query platform streams).startNs (request.query platform streams).endNs ::
          (request.query platform streams).content))) segment.object.rows = .ok (segment.object.rows.filter keeps) :=
      retainRows_eq fun row member => (holds.readable row member).eval_eq platform _
    have rebuilt : (segment.object.rows.filter keeps).mapM (rebuildRecordProjected request.columns segment.object) =
        .ok ((segment.object.rows.filter keeps).map (projectedRecord request.columns segment.object)) :=
      mapM_eq_map fun row member => rebuildRecordProjected_eq (holds.readable row (mem_filter.mp member).1) _
    exact bind_eq_ok.mpr ⟨_, retained, bind_eq_ok.mpr ⟨_, rebuilt, rfl⟩⟩
  · apply retainUnerased_eq
    intro record member
    obtain ⟨row, rowIn, rfl⟩ := scannedFrom member
    obtain ⟨attrs, decoded⟩ := holds.decodes _ (listed row rowIn)
    exact isErasedLogRecord_eq decoded _
  · rw [@absorbRecords_eq platform]
    · have selected : unerased.filter (passesFilters regex request) =
          (segment.object.rows.filter fun row => selects platform regex request (storedRecord segment.object row)).map
            (projectedRecord request.columns segment.object) := by
        show ((((segment.object.rows.filter keeps).map (projectedRecord request.columns segment.object)).filter _).filter
          _).filter _ = _
        rw [filter_filter, filter_filter, filter_map, filter_filter]
        apply congrArg
        apply filter_congr
        intro row member
        rw [← kept_iff_selects ascii plain compiled (holds.readable row member) (matching _ (listed row member)),
          Bool.eq_iff_iff]
        simp only [Function.comp_apply, passesFilters, Bool.and_eq_true]
        tauto
      rw [selected, foldl_map, storedRecords, filter_map, foldl_map]
      simp only [pushRecord_projectedRecord]
      rfl
    · intro record member
      obtain ⟨row, rowIn, rfl⟩ := scannedFrom (mem_filter.mp member).1
      exact cached _ (listed row rowIn)

theorem fetchSegment_eq {streams : List (LogStreamId × List UInt8)}
    (oneBlob : ∀ first ∈ streams, ∀ second ∈ streams, first.1 = second.1 → first.2 = second.2) {segment : LogSegment}
    (holds : SegmentHolds segment) (listed : segment.object.streamDir ⊆ streams)
    {cache : List (LogStreamId × LabelSet)} (cacheHolds : CacheHolds platform request streams cache)
    (series : List (List UInt8 × LabelSet × List Sample)) :
    ∃ more, fetchSegment platform regex ofLength request ⟨cache, series⟩ segment =
        .ok ⟨cache ++ more, ((storedRecords segment).filter (selects platform regex request)).foldl
          (pushRecord (recordLabels platform request) (recordSample ofLength request)) series⟩ ∧
      CacheHolds platform request streams (cache ++ more) := by
  have nothing (absent : ∀ row ∈ segment.object.rows,
      selects platform regex request (storedRecord segment.object row) = false) :
      (storedRecords segment).filter (selects platform regex request) = [] := by
    rw [storedRecords, filter_map, map_eq_nil_iff, filter_eq_nil_iff]
    intro row member selected
    rw [Function.comp_apply, absent row member] at selected
    cases selected
  have admitted {record : RlogRecord} (selected : selects platform regex request record = true) :
      request.window.startNs ≤ record.tsNs ∧ record.tsNs ≤ request.window.endNs ∧
        matchesSeries regex (streamMatchers request.matchers) (blobLabels platform request record.streamAttrs) = true := by
    have labelled := @matchesSeries_seriesLabelSet (blobLabels platform request record.streamAttrs) record.severityText
      regex (blobLabels_severity _) request.matchers
    unfold selects admits labelMatchers recordLabels at selected
    rw [labelled] at selected
    simp only [Bool.and_eq_true, decide_eq_true_eq] at selected
    tauto
  unfold fetchSegment
  split
  · rename_i apart
    refine ⟨[], ?_, by rw [append_nil]; exact cacheHolds⟩
    rw [nothing, append_nil]
    · rfl
    · intro row member
      rw [Bool.eq_false_iff]
      intro selected
      obtain ⟨after, before, _⟩ := admitted selected
      obtain ⟨low, high⟩ := holds.bounds row member
      simp only [TimeRange.overlaps, Bool.not_eq_true', Bool.and_eq_false_iff, decide_eq_false_iff_not] at apart
      simp only [storedRecord] at after before
      omega
  · obtain ⟨more, planned, heldMore, cached⟩ :=
      @planStreams_eq _ regex _ _ oneBlob _ holds.decodes listed _ [] cacheHolds
    rw [nil_append] at planned
    have matching : ∀ entry ∈ segment.object.streamDir, ((segment.object.streamDir.filter fun entry =>
        matchesSeries regex (streamMatchers request.matchers) (blobLabels platform request entry.2)).map
          Prod.fst).contains entry.1 =
        matchesSeries regex (streamMatchers request.matchers) (blobLabels platform request entry.2) := by
      intro entry entryIn
      rw [Bool.eq_iff_iff, contains_iff_mem, mem_map]
      constructor
      · rintro ⟨other, otherIn, sameId⟩
        obtain ⟨otherIn, taken⟩ := mem_filter.mp otherIn
        rw [← oneBlob other (listed otherIn) entry (listed entryIn) sameId]
        exact taken
      · intro taken
        exact ⟨entry, mem_filter.mpr ⟨entryIn, taken⟩, rfl⟩
    refine ⟨more, bind_eq_ok.mpr ⟨_, planned, ?_⟩, heldMore⟩
    simp only
    split
    · rename_i none
      rw [nothing]
      · rfl
      · intro row member
        rw [Bool.eq_false_iff]
        intro selected
        obtain ⟨_, _, taken⟩ := admitted selected
        have streamIn := mem_of_getElem? (rowStream_eq (holds.readable row member))
        have contained := (matching _ streamIn).trans taken
        rw [List.isEmpty_iff.mp none] at contained
        cases contained
    · obtain ⟨records, kept, scanned, retained, absorbed⟩ :=
        @scanSegment_eq _ _ ofLength _ ascii plain compiled _ holds _ _ cached matching series
      simp only [scanned, retained]
      exact absorbed

/-- The whole fetch gathers the selected records of all segments in order. -/
theorem fetchSegments_eq {streams : List (LogStreamId × List UInt8)}
    (oneBlob : ∀ first ∈ streams, ∀ second ∈ streams, first.1 = second.1 → first.2 = second.2)
    {segments : List LogSegment} (holds : ∀ segment ∈ segments, SegmentHolds segment)
    (listed : ∀ segment ∈ segments, segment.object.streamDir ⊆ streams) :
    ∀ {cache : List (LogStreamId × LabelSet)}, CacheHolds platform request streams cache →
    ∀ series : List (List UInt8 × LabelSet × List Sample),
    ∃ final, segments.foldlM (fetchSegment platform regex ofLength request) ⟨cache, series⟩ =
      .ok ⟨final, ((segments.flatMap storedRecords).filter (selects platform regex request)).foldl
        (pushRecord (recordLabels platform request) (recordSample ofLength request)) series⟩ := by
  induction segments with
  | nil =>
    intro cache cacheHolds series
    exact ⟨cache, rfl⟩
  | cons segment rest ih =>
    intro cache cacheHolds series
    obtain ⟨segmentHolds, restHolds⟩ := forall_mem_cons.mp holds
    obtain ⟨segmentListed, restListed⟩ := forall_mem_cons.mp listed
    obtain ⟨more, fetched, heldMore⟩ :=
      @fetchSegment_eq _ _ ofLength _ ascii plain compiled _ oneBlob _ segmentHolds segmentListed _ cacheHolds series
    obtain ⟨final, ran⟩ := ih restHolds restListed heldMore
      (((storedRecords segment).filter (selects platform regex request)).foldl
        (pushRecord (recordLabels platform request) (recordSample ofLength request)) series)
    refine ⟨final, ?_⟩
    rw [foldlM_cons, fetched, flatMap_cons, filter_append, foldl_append]
    exact ran

end Scanned

end Segments

section Fetch

variable {platform : Platform} {regex : RegexMatch} {ofLength : Nat → UInt64} {request : LogSeriesRequest}

theorem fetchLogSeries_groups (ascii : AsciiTables platform) (plain : PlainPatterns regex)
    (compiled : ∀ matcher ∈ request.matchers, matcher.Compiled) {segments : List LogSegment}
    (holds : ∀ segment ∈ segments, SegmentHolds segment)
    (oneBlob : ∀ first ∈ segments.flatMap fun segment => segment.object.streamDir,
      ∀ second ∈ segments.flatMap fun segment => segment.object.streamDir, first.1 = second.1 → first.2 = second.2) :
    ∃ series, fetchLogSeries platform regex ofLength request segments = .ok (finishSeries series) ∧
      GroupsHold (recordLabels platform request) (recordSample ofLength request)
        ((segments.flatMap storedRecords).filter (selects platform regex request)) series := by
  have listed : ∀ segment ∈ segments, segment.object.streamDir ⊆ segments.flatMap fun segment => segment.object.streamDir :=
    fun segment member entry entryIn => mem_flatMap.mpr ⟨segment, member, entryIn⟩
  have empty : CacheHolds platform request (segments.flatMap fun segment => segment.object.streamDir) [] := by
    intro known absent
    cases absent
  obtain ⟨cache, ran⟩ :=
    @fetchSegments_eq _ _ ofLength _ ascii plain compiled _ oneBlob _ holds listed _ empty []
  refine ⟨_, bind_eq_ok.mpr ⟨_, ran, rfl⟩, ?_⟩
  have start : GroupsHold (recordLabels platform request) (recordSample ofLength request) [] [] :=
    ⟨nodup_nil, by simp, by simp, by simp⟩
  have gathered := start.fold ((segments.flatMap storedRecords).filter (selects platform regex request))
  rw [nil_append] at gathered
  exact gathered

/-- The fetch returns, and its series are exact in one case only: no two label sets of admitted records share a
key, and the pre-filter over the own attributes leaves every admitted record. -/
theorem fetchLogSeries_exact_iff (ascii : AsciiTables platform) (plain : PlainPatterns regex)
    (compiled : ∀ matcher ∈ request.matchers, matcher.Compiled) {segments : List LogSegment}
    (holds : ∀ segment ∈ segments, SegmentHolds segment)
    (oneBlob : ∀ first ∈ segments.flatMap fun segment => segment.object.streamDir,
      ∀ second ∈ segments.flatMap fun segment => segment.object.streamDir, first.1 = second.1 → first.2 = second.2)
    {stored : List (List RlogRecord)} (read : segments.mapM (fun segment => segment.object.readRecords) = .ok stored) :
    ∃ out, fetchLogSeries platform regex ofLength request segments = .ok out ∧
      (ExactSeries (recordLabels platform request) (recordSample ofLength request)
          (stored.flatten.filter (admits platform regex request)) out ↔
        (∀ record ∈ stored.flatten.filter (admits platform regex request), ownErased request record = false) ∧
        ∀ first ∈ stored.flatten.filter (admits platform regex request),
          ∀ second ∈ stored.flatten.filter (admits platform regex request),
            seriesKey (recordLabels platform request first) = seriesKey (recordLabels platform request second) →
              recordLabels platform request first = recordLabels platform request second) := by
  have records : stored.flatten = segments.flatMap storedRecords := by
    rw [mapM_eq_map fun segment member => (holds segment member).readRecords] at read
    cases read
    rfl
  obtain ⟨series, fetched, groups⟩ := @fetchLogSeries_groups _ _ ofLength _ ascii plain compiled _ holds oneBlob
  have selected : (segments.flatMap storedRecords).filter (selects platform regex request) =
      (stored.flatten.filter (admits platform regex request)).filter fun record => !ownErased request record := by
    rw [filter_filter, records]
    apply filter_congr
    intro record _
    exact Bool.and_comm _ _
  rw [selected] at groups
  refine ⟨_, fetched, ?_⟩
  have exactly := exactSeries_iff groups
  simp only [Bool.not_eq_true'] at exactly
  exact exactly

end Fetch

section Samples

/-- A regex engine that knows the plain patterns. -/
def plainRegex : RegexMatch := fun text subject =>
  match (stripAnchors ((text.toList.drop 4).dropLast.dropLast)).bind patternItems with
  | some items => matchesItems items subject.toList
  | none => false

theorem plainRegex_plain : PlainPatterns plainRegex := by
  intro pattern stripped items anchors _ read subject
  have inner : (((anchored pattern).toList.drop 4).dropLast.dropLast) = pattern.toList := by
    have ends : (anchored pattern).toList = ['^', '(', '?', ':'] ++ ((pattern.toList ++ [')']) ++ ['$']) := by
      simp [anchored]
    rw [ends]
    show ((pattern.toList ++ [')']) ++ ['$']).dropLast.dropLast = pattern.toList
    rw [dropLast_concat, dropLast_concat]
  rw [plainRegex, inner, anchors]
  simp only [Option.bind_some, read]

theorem samplePlatform_ascii : AsciiTables samplePlatform := fun _ _ => ⟨rfl, rfl⟩

/-- Pruning by a body matcher loses no line: its word is a phrase of every body that the matcher takes, whichever of the two
scanners reads the word and the body. -/
theorem pruned_word_in_bodies {platform : Platform} {regex : RegexMatch} (ascii : AsciiTables platform)
    (plain : PlainPatterns regex) :
    (∀ matcher : LabelMatcher, matcher.Compiled → ∀ literal, bodyPruneLiteral platform matcher = some literal →
      ∀ body, matcher.matchesStr regex body = true → phraseMatch platform (utf8Bytes body) literal = true) ∧
    (∀ text : List Char, (∀ char ∈ text, char.toNat < 128) → asciiTokens [] text = unicodeTokens platform .empty text) ∧
    ∀ text, tokens platform text = unicodeTokens platform .empty text.toList := by
  refine ⟨?_, ?_, tokens_eq ascii⟩
  · intro matcher compiled literal found body taken
    exact bodyPruneLiteral_phrase ascii plain compiled found taken
  · intro text inside
    exact @asciiTokens_eq _ ascii _ .empty inside (by simp [TokenBuffer.empty])

theorem pruned_word_in_bodies_sample :
    bodyPruneLiteral samplePlatform ⟨"__body__", .re (anchored "a b.*"), "a b.*"⟩ = some "a" ∧
      phraseMatch samplePlatform (utf8Bytes "a bc") "a" = true := by
  have found : bodyPruneLiteral samplePlatform ⟨"__body__", .re (anchored "a b.*"), "a b.*"⟩ = some "a" := by
    decide +kernel
  have compiled : LabelMatcher.Compiled ⟨"__body__", .re (anchored "a b.*"), "a b.*"⟩ := by
    intro pattern op
    simpa [eq_comm] using op
  have words := (pruned_word_in_bodies samplePlatform_ascii plainRegex_plain).1 _ compiled _ found
  exact ⟨found, words "a bc" (by decide +kernel)⟩

def sampleRow (streamRef : Nat) : ResolvedRow where
  streamRef := streamRef
  tsNs := 5
  observedTsNs := 5
  severityNum := 0
  severityText := ""
  body := "a b"
  traceId := none
  spanId := none
  flags := 0
  attrsRaw := none
  columns := []
  indexedTerms := []
  statWinners := []
  keys := []

/-- A segment with the given streams and one record in each. -/
def sampleSegment (blobs : List (List UInt8)) : LogSegment where
  minEventTsNs := 5
  maxEventTsNs := 5
  object := {
    streamDir := blobs.zipIdx.map fun blob => (⟨Vector.replicate 16 (UInt8.ofNat blob.2)⟩, blob.1)
    fieldDir := []
    blocks := [(List.range blobs.length).map sampleRow]
    skip := ⟨[], []⟩
    postings := []
    bloomCovered := []
    bloom := []
    keyPlan := []
    keyIdx := [] }

def sampleRequest : LogSeriesRequest where
  metric := .lines
  matchers := [⟨metricNameLabel, .eq, LogMetric.lines.name⟩, ⟨bodyMatcherLabel, .re (anchored "a .*"), "a .*"⟩]
  window := ⟨0, 10⟩
  erasure := []

/-- The resource attributes `a="x", b="y"`. -/
def plainBlob : List UInt8 := [2, 1, 97, 1, 1, 120, 1, 98, 1, 1, 121, 0, 0, 0]

/-- The resource attribute `a` whose value is `x`, NUL, `b`, NUL, `y`. -/
def nulBlob : List UInt8 := [1, 1, 97, 1, 5, 120, 0, 98, 0, 121, 0, 0, 0]

theorem sampleSegment_holds : SegmentHolds (sampleSegment [plainBlob]) := by
  have decodes : (decodeStreamAttrs plainBlob).toOption.isSome = true := by decide +kernel
  obtain ⟨attrs, found⟩ := Option.isSome_iff_exists.mp decodes
  have decoded := ok_of_toOption found
  refine ⟨?_, ?_, ?_⟩
  · intro row member
    obtain rfl := mem_singleton.mp member
    exact ⟨⟨_, rfl, _, bind_eq_ok.mpr ⟨attrs, decoded, rfl⟩⟩, ⟨[], rfl⟩⟩
  · intro row member
    obtain rfl := mem_singleton.mp member
    exact ⟨le_refl 5, le_refl 5⟩
  · intro entry member
    obtain rfl := mem_singleton.mp member
    exact ⟨attrs, decoded⟩

theorem sampleSegment_oneBlob : ∀ first ∈ [sampleSegment [plainBlob]].flatMap fun segment => segment.object.streamDir,
    ∀ second ∈ [sampleSegment [plainBlob]].flatMap fun segment => segment.object.streamDir,
      first.1 = second.1 → first.2 = second.2 := by
  intro first firstIn second secondIn _
  rw [mem_singleton.mp firstIn, mem_singleton.mp secondIn]

theorem sampleRequest_compiled : ∀ matcher ∈ sampleRequest.matchers, matcher.Compiled := by
  intro matcher member pattern isRegex
  rcases mem_cons.mp member with rfl | member
  · rcases isRegex with op | op
    · cases op
    · cases op
  · obtain rfl := mem_singleton.mp member
    rcases isRegex with op | op
    · cases op
      rfl
    · cases op

theorem fetchLogSeries_exact_plain :
    ∃ out, fetchLogSeries samplePlatform plainRegex (fun _ => 0) sampleRequest [sampleSegment [plainBlob]] = .ok out ∧
      ExactSeries (recordLabels samplePlatform sampleRequest) (recordSample (fun _ => 0) sampleRequest)
        (([storedRecords (sampleSegment [plainBlob])].flatten).filter (admits samplePlatform plainRegex sampleRequest)) out := by
  have each : ∀ segment ∈ [sampleSegment [plainBlob]], SegmentHolds segment := by
    intro segment member
    rw [mem_singleton.mp member]
    exact sampleSegment_holds
  have read : [sampleSegment [plainBlob]].mapM (fun segment => segment.object.readRecords) =
      .ok [storedRecords (sampleSegment [plainBlob])] := mapM_eq_map fun segment member => (each segment member).readRecords
  obtain ⟨out, fetched, exactly⟩ := @fetchLogSeries_exact_iff samplePlatform plainRegex (fun _ => 0) sampleRequest
    samplePlatform_ascii plainRegex_plain sampleRequest_compiled _ each sampleSegment_oneBlob _ read
  have single {record : RlogRecord} (member : record ∈ ([storedRecords (sampleSegment [plainBlob])].flatten).filter
      (admits samplePlatform plainRegex sampleRequest)) :
      record = storedRecord (sampleSegment [plainBlob]).object (sampleRow 0) :=
    mem_singleton.mp (mem_filter.mp member).1
  refine ⟨out, fetched, exactly.mpr ⟨?_, ?_⟩⟩
  · intro record _
    rfl
  · intro first firstIn second secondIn _
    have same : first = second := (single firstIn).trans (single secondIn).symm
    rw [same]

/-- Two streams with different labels and one key are merged into one series. -/
theorem fetchLogSeries_merges_nul :
    ∃ out, fetchLogSeries samplePlatform plainRegex (fun _ => 0) sampleRequest [sampleSegment [nulBlob, plainBlob]] = .ok out ∧
      ¬ExactSeries (recordLabels samplePlatform sampleRequest) (recordSample (fun _ => 0) sampleRequest)
        ((storedRecords (sampleSegment [nulBlob, plainBlob])).filter (admits samplePlatform plainRegex sampleRequest)) out := by
  have single : (fetchLogSeries samplePlatform plainRegex (fun _ => 0) sampleRequest
      [sampleSegment [nulBlob, plainBlob]]).toOption.any (fun out => out.length = 1) = true := by decide +kernel
  have two : (((storedRecords (sampleSegment [nulBlob, plainBlob])).filter
      (admits samplePlatform plainRegex sampleRequest)).map (recordLabels samplePlatform sampleRequest)).dedup.length = 2 := by
    decide +kernel
  obtain ⟨out, found, length⟩ := (Option.any_eq_true _ _).mp single
  refine ⟨out, ok_of_toOption found, ?_⟩
  intro exact
  have order := (perm_ext_iff_of_nodup exact.distinct (nodup_dedup _)).mpr fun set =>
    (exact.present set).trans mem_dedup.symm
  have lengths := order.length_eq
  rw [length_map, two, decide_eq_true_eq.mp length] at lengths
  cases lengths

end Samples

end Ravel.Promql
