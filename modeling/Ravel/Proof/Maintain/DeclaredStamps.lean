import Mathlib.Data.List.ReduceOption
import Ravel.Proof.Maintain.DeclaredFold

namespace Ravel.Maintain

open List Library Logs

/-- The extrema and the count of a column, as its stamp reads them. -/
def observedOf (ty : DeclaredStatType) (column : ColumnAccum) : Option (DeclaredStatValue × DeclaredStatValue × Nat) :=
  match ty with
  | .i64 => DeclaredStatAccum.observed .i64 column.i64Run
  | .bool => DeclaredStatAccum.observed .bool column.boolRun

/-- The extrema and the count are those of the values. -/
def RunCovers (observed : Option (DeclaredStatValue × DeclaredStatValue × Nat)) (values : List DeclaredStatValue) : Prop :=
  match observed with
  | none => values = []
  | some (low, high, count) => count = values.length ∧ low ∈ values ∧ high ∈ values ∧
      ∀ value ∈ values, low.orderRank ≤ value.orderRank ∧ value.orderRank ≤ high.orderRank

variable {values : List DeclaredStatValue} {ty : DeclaredStatType} {value : DeclaredStatValue}
  {column : String × DeclaredStatType} {stat : DeclaredColumnStat}

/-- One more value keeps the extrema of a run. -/
theorem runCovers_extend {Value : Type} [LT Value] [DecidableLT Value] {wrap : Value → DeclaredStatValue}
    (ordered : ∀ left right, left < right ↔ (wrap left).orderRank < (wrap right).orderRank)
    {run : Option (Running Value)} (covers : RunCovers (DeclaredStatAccum.observed wrap run) values) (value : Value) :
    RunCovers (DeclaredStatAccum.observed wrap (Running.extend run value)) (values ++ [wrap value]) := by
  cases run with
  | none =>
    have empty : values = [] := covers
    simp [empty, Running.extend, Running.start, DeclaredStatAccum.observed, RunCovers]
  | some run =>
    obtain ⟨count, lowIn, highIn, bounds⟩ := covers
    have low : (wrap (run.observe value).min).orderRank ≤ (wrap value).orderRank ∧
        (wrap (run.observe value).min).orderRank ≤ (wrap run.min).orderRank ∧
        wrap (run.observe value).min ∈ values ++ [wrap value] := by
      rw [Running.observe]
      dsimp only
      split
      · rename_i below
        rw [ordered] at below
        exact ⟨le_refl _, le_of_lt below, mem_append_right _ mem_cons_self⟩
      · rename_i above
        rw [ordered, not_lt] at above
        exact ⟨above, le_refl _, mem_append_left _ lowIn⟩
    have high : (wrap value).orderRank ≤ (wrap (run.observe value).max).orderRank ∧
        (wrap run.max).orderRank ≤ (wrap (run.observe value).max).orderRank ∧
        wrap (run.observe value).max ∈ values ++ [wrap value] := by
      rw [Running.observe]
      dsimp only
      split
      · rename_i above
        rw [ordered] at above
        exact ⟨le_refl _, le_of_lt above, mem_append_right _ mem_cons_self⟩
      · rename_i below
        rw [ordered, not_lt] at below
        exact ⟨below, le_refl _, mem_append_left _ highIn⟩
    refine ⟨?_, low.2.2, high.2.2, ?_⟩
    · rw [length_append, length_singleton, ← count]
      rfl
    · intro other otherIn
      rcases mem_append.mp otherIn with old | new
      · exact ⟨low.2.1.trans (bounds other old).1, (bounds other old).2.trans high.2.1⟩
      · rw [mem_singleton.mp new]
        exact ⟨low.1, high.1⟩

theorem i64_ordered (left right : Int64) :
    left < right ↔ (DeclaredStatValue.i64 left).orderRank < (DeclaredStatValue.i64 right).orderRank :=
  Int64.lt_iff_toInt_lt

theorem bool_ordered (left right : Bool) :
    left < right ↔ (DeclaredStatValue.bool left).orderRank < (DeclaredStatValue.bool right).orderRank := by
  cases left <;> cases right <;> decide

/-- The value of a row keeps the extrema of its column. -/
theorem runCovers_observeValue {column : ColumnAccum} (covers : RunCovers (observedOf ty column) values)
    (value : Option DeclaredStatValue) (typed : ∀ found, value = some found → found.statType = ty) :
    RunCovers (observedOf ty (observeValue value column)) (values ++ value.toList) := by
  cases value with
  | none => simpa [observeValue] using covers
  | some value =>
    have own := typed value rfl
    cases value with
    | i64 value =>
      cases own
      exact runCovers_extend i64_ordered covers value
    | bool value =>
      cases own
      exact runCovers_extend bool_ordered covers value

theorem observedOf_sameRuns {left right : ColumnAccum} (same : SameRuns left right) :
    observedOf ty left = observedOf ty right := by
  cases ty
  · rw [observedOf, observedOf, same.1]
  · rw [observedOf, observedOf, same.2]

theorem statType_typedStat {attr : AttrValue} (typed : typedStat ty attr = some value) : value.statType = ty := by
  cases ty <;> cases attr <;> cases typed <;> rfl

theorem statType_declaredValue {view : List (String × AttrValue)} (valued : declaredValue view column = some value) :
    value.statType = column.2 := by
  obtain ⟨entry, _, typed⟩ := Option.bind_eq_some_iff.mp valued
  exact statType_typedStat typed

/-- The statistics are exactly those of the rows' values. -/
structure ExactStat (values : List (Option DeclaredStatValue)) (stat : DeclaredColumnStat) : Prop where
  nulls : stat.nullCount = (values.filter Option.isNone).length
  empty : (∀ value, some value ∉ values) → stat.min = none ∧ stat.max = none
  extrema : (∃ value, some value ∈ values) → ∃ low high, stat.min = some low ∧ stat.max = some high ∧
    some low ∈ values ∧ some high ∈ values ∧
      ∀ value, some value ∈ values → low.orderRank ≤ value.orderRank ∧ value.orderRank ≤ high.orderRank

theorem ExactStat.perm {left right : List (Option DeclaredStatValue)} (exact_ : ExactStat left stat)
    (reordered : left.Perm right) : ExactStat right stat where
  nulls := by rw [exact_.nulls, (reordered.filter _).length_eq]
  empty := by
    simpa only [← reordered.mem_iff] using exact_.empty
  extrema := by
    simpa only [← reordered.mem_iff] using exact_.extrema

theorem buildOne_exact {accum : ColumnAccum} {values : List (Option DeclaredStatValue)}
    (covers : RunCovers (observedOf column.2 accum) values.reduceOption)
    (typed : ∀ value, some value ∈ values → value.statType = column.2) (named : column.1.isEmpty = false) :
    ∃ stat, DeclaredStatAccum.buildOne column.1 column.2 (observedOf column.2 accum) values.length = some stat ∧
      stat.name = column.1 ∧ stat.declaredType = column.2 ∧ ExactStat values stat := by
  have counted : values.length = values.reduceOption.length + (values.filter Option.isNone).length :=
    length_eq_reduceOption_length_add_filter_none
  have member : ∀ value, value ∈ values.reduceOption ↔ some value ∈ values := fun value => reduceOption_mem_iff
  cases run : observedOf column.2 accum with
  | none =>
    rw [run] at covers
    have empty : values.reduceOption = [] := covers
    refine ⟨⟨column.1, column.2, none, none, values.length⟩, ?_, rfl, rfl, ?_⟩
    · simp [DeclaredStatAccum.buildOne, DeclaredColumnStat.build, named, DeclaredColumnStat.checkType, Except.toOption]
    · constructor
      · rw [counted, empty]
        simp
      · intro _
        exact ⟨rfl, rfl⟩
      · rintro ⟨value, valueIn⟩
        rw [← member, empty] at valueIn
        cases valueIn
  | some bounds =>
    obtain ⟨low, high, count⟩ := bounds
    rw [run] at covers
    obtain ⟨sameCount, lowIn, highIn, within⟩ := covers
    have enough : ¬values.length < count := by omega
    have lowTyped := typed low ((member low).mp lowIn)
    have highTyped := typed high ((member high).mp highIn)
    have inOrder : ¬high.orderRank < low.orderRank := not_lt.mpr (within high highIn).1
    refine ⟨⟨column.1, column.2, some low, some high, values.length - count⟩, ?_, rfl, rfl, ?_⟩
    · simp [DeclaredStatAccum.buildOne, enough, DeclaredColumnStat.build, named, DeclaredColumnStat.checkType, lowTyped,
        highTyped, inOrder, Except.toOption]
    · constructor
      · show values.length - count = _
        omega
      · intro none
        exact absurd ((member low).mp lowIn) (none low)
      · intro _
        refine ⟨low, high, rfl, rfl, (member low).mp lowIn, (member high).mp highIn, ?_⟩
        intro value valueIn
        exact within value ((member value).mpr valueIn)

theorem buildOne_named {name : String} {observed : Option (DeclaredStatValue × DeclaredStatValue × Nat)} {count : Nat}
    (built : DeclaredStatAccum.buildOne name ty observed count = some stat) : name.isEmpty = false := by
  by_contra empty
  rw [Bool.not_eq_false] at empty
  have refused : ∀ min max nulls, (DeclaredColumnStat.build name ty min max nulls).toOption = none := by
    intro min max nulls
    simp [DeclaredColumnStat.build, empty, Except.toOption, bind, Except.bind, throw, throwThe, MonadExceptOf.throw]
  unfold DeclaredStatAccum.buildOne at built
  split at built
  · split at built
    · cases built
    · rw [refused] at built
      cases built
  · rw [refused] at built
    cases built

/-- The merged view of a record as it was read. -/
def recordView (record : RlogRecord) : List (String × AttrValue) :=
  (Erasure.mergedLogAttrs record.toLogRecord).toOption.getD []

section Parts

variable {declared : List (String × DeclaredStatType)} {streams : List (LogStreamId × List UInt8)}

variable {record : RlogRecord} {pairs : List (String × AttrValue)} {records : List RlogRecord}

theorem Listed.recordView_eq (listed : Listed declared streams record pairs) :
    recordView record = record.attrs.foldl Erasure.overlayAttr (pairs.filter fun pair => !isNested pair.2) := by
  rw [recordView, Erasure.mergedLogAttrs, streamIdentityAttrs_eq listed.decoded]
  rfl

/-- The fold of a part after its records. -/
structure PartFolded (declared : List (String × DeclaredStatType)) (records : List RlogRecord) (accum : DeclaredStatAccum) :
    Prop where
  length : accum.cols.length = declared.length
  epochs : ∀ column ∈ accum.cols, column.mentionEpoch ≤ accum.epoch
  covers : ∀ (position : Nat) (column : String × DeclaredStatType) (found : ColumnAccum),
    declared[position]? = some column → accum.cols[position]? = some found →
      RunCovers (observedOf column.2 found) (records.map fun record => declaredValue (recordView record) column).reduceOption

theorem partFolded_new (streams : List (LogStreamId × List UInt8)) :
    PartFolded declared [] (DeclaredStatAccum.new (DeclaredSchema.build declared streams)) := by
  constructor
  · rw [DeclaredStatAccum.new, length_map, build_cols]
  · intro column member
    obtain ⟨_, _, rfl⟩ := mem_map.mp member
    exact le_refl 0
  · intro position column found _ foundAt
    obtain ⟨_, _, rfl⟩ := mem_map.mp (mem_of_getElem? foundAt)
    cases column.2 <;> rfl

theorem PartFolded.push {accum : DeclaredStatAccum} (holds : PartFolded declared records accum)
    (listed : Listed declared streams record pairs) :
    PartFolded declared (records ++ [record]) (accum.observeRecord (DeclaredSchema.build declared streams) record) := by
  have folded := listed.folded holds.epochs
  rw [← listed.recordView_eq] at folded
  constructor
  · rw [folded.length, holds.length]
  · exact folded.epochs
  · intro position column found located foundAt
    have within : position < accum.cols.length := folded.length ▸ (List.getElem?_eq_some_iff.mp foundAt).1
    have oldAt : accum.cols[position]? = some accum.cols[position] := getElem?_eq_getElem within
    obtain ⟨new, newAt, same⟩ := folded.runs position column _ located oldAt
    rw [newAt] at foundAt
    cases foundAt
    rw [observedOf_sameRuns same, map_append, reduceOption_append, map_singleton,
      reduceOption_singleton]
    apply runCovers_observeValue (holds.covers position column _ located oldAt)
    intro value valued
    exact statType_declaredValue valued

theorem ofRecords_folded (listed : ∀ record ∈ records, ∃ pairs, Listed declared streams record pairs) :
    (PartBuilder.ofRecords (DeclaredSchema.build declared streams) records).records = records ∧
      PartFolded declared records
        (PartBuilder.ofRecords (DeclaredSchema.build declared streams) records).declaredAccum := by
  induction records using reverseRecOn with
  | nil => exact ⟨rfl, partFolded_new streams⟩
  | append_singleton records record ih =>
    obtain ⟨sameRecords, folded⟩ := ih fun other member =>
      listed other (mem_append_left _ member)
    obtain ⟨pairs, last⟩ := listed record (mem_append_right _ mem_cons_self)
    rw [PartBuilder.ofRecords, foldl_append]
    refine ⟨?_, folded.push last⟩
    show (PartBuilder.ofRecords (DeclaredSchema.build declared streams) records).records ++ [record] = _
    rw [sameRecords]

/-- The stamps of the declared columns over the rows' views. -/
structure StampsExact (declared : List (String × DeclaredStatType)) (views : List (List (String × AttrValue)))
    (stamps : List DeclaredColumnStat) : Prop where
  exact : ∀ stat ∈ stamps, ∃ column ∈ declared, stat.name = column.1 ∧ stat.declaredType = column.2 ∧
    ExactStat (views.map fun view => declaredValue view column) stat
  complete : ∀ column ∈ declared, column.1.isEmpty = false → ∃ stat ∈ stamps, stat.name = column.1

theorem buildStamps_exact (listed : ∀ record ∈ records, ∃ pairs, Listed declared streams record pairs)
    (decodes : ∀ stream ∈ streams, ∃ pairs, streamAttrPairs stream.2 = .ok pairs) :
    StampsExact declared (records.map recordView)
      ((PartBuilder.ofRecords (DeclaredSchema.build declared streams) records).declaredAccum.buildStamps
        (DeclaredSchema.build declared streams) records.length) := by
  obtain ⟨_, folded⟩ := ofRecords_folded listed
  generalize (PartBuilder.ofRecords (DeclaredSchema.build declared streams) records).declaredAccum = accum at folded
  have stamps : accum.buildStamps (DeclaredSchema.build declared streams) records.length =
      (accum.cols.zip declared).filterMap fun entry =>
        DeclaredStatAccum.buildOne entry.2.1 entry.2.2 (observedOf entry.2.2 entry.1) records.length := by
    rw [DeclaredStatAccum.buildStamps, build_resolved decodes, if_neg Bool.false_ne_true, build_cols]
    rfl
  have built : ∀ (position : Nat) (column : String × DeclaredStatType) (found : ColumnAccum),
      declared[position]? = some column → accum.cols[position]? = some found → column.1.isEmpty = false →
        ∃ stat, DeclaredStatAccum.buildOne column.1 column.2 (observedOf column.2 found) records.length = some stat ∧
          stat.name = column.1 ∧ stat.declaredType = column.2 ∧
            ExactStat (records.map fun record => declaredValue (recordView record) column) stat := by
    intro position column found located foundAt named
    have count : (records.map fun record => declaredValue (recordView record) column).length = records.length :=
      length_map _
    rw [← count]
    apply buildOne_exact (folded.covers position column found located foundAt) _ named
    intro value valueIn
    obtain ⟨record, _, valued⟩ := mem_map.mp valueIn
    exact statType_declaredValue valued
  rw [stamps]
  constructor
  · intro stat statIn
    obtain ⟨⟨found, column⟩, entryIn, stamped⟩ := mem_filterMap.mp statIn
    obtain ⟨position, entryAt⟩ := getElem?_of_mem entryIn
    obtain ⟨foundAt, located⟩ := getElem?_zip_eq_some.mp entryAt
    obtain ⟨exactStat, rebuilt, named, typed, exact_⟩ := built position column found located foundAt (buildOne_named stamped)
    rw [stamped] at rebuilt
    cases rebuilt
    refine ⟨column, mem_of_getElem? located, named, typed, ?_⟩
    rw [map_map]
    exact exact_
  · intro column columnIn named
    obtain ⟨position, located⟩ := getElem?_of_mem columnIn
    have within : position < accum.cols.length := folded.length ▸ (List.getElem?_eq_some_iff.mp located).1
    have foundAt : accum.cols[position]? = some accum.cols[position] := getElem?_eq_getElem within
    obtain ⟨stat, stamped, statName, _, _⟩ := built position column _ located foundAt named
    refine ⟨stat, mem_filterMap.mpr ⟨(accum.cols[position], column), ?_, stamped⟩, statName⟩
    exact mem_of_getElem? (getElem?_zip_eq_some.mpr ⟨foundAt, located⟩)

end Parts

end Ravel.Maintain
