import Ravel.Library.OptionalRuns
import Ravel.Proof.Logs.TalliedColumns

namespace Ravel.Logs

open List Library Maintain RlogWriter

/-- An object of the writer. -/
structure WrittenLog where
  writer : RlogWriter
  plan : Layout
  object : RlogObject

/-- The first value of each record of a log. -/
def firstValues (column : String × DeclaredStatType) (log : WrittenLog) : List (Option DeclaredStatValue) :=
  log.writer.records.map fun record => firstValue column record.attrs

/-- The value that each record of a log has in its merged view. -/
def mergedValues (column : String × DeclaredStatType) (log : WrittenLog) : List (Option DeclaredStatValue) :=
  log.writer.records.map fun record => declaredValue (viewOf log.plan record) column

/-- The segment is a log of the writer. Its entry is the tally of the object and its stamps are exact for the rows. -/
structure StoredLog (platform : Platform) (scan : LogsScanExec) (seg : SegmentRef) (log : WrittenLog) : Prop where
  planned : log.writer.layout = .ok log.plan
  wrote : log.writer.finish platform = .ok log.object
  tallied : ∀ stats, scan.columnStats = some stats → ∀ segStats, stats.statFor seg = some segStats →
    log.object.tallyObjectColumns scan.declared = .ok segStats.columns
  stamped : ∀ declared ∈ scan.declared, ∀ statType, stampTypeOf declared.ty = some statType →
    ∀ stat, (seg.declaredColumnStats.find? fun stat => stat.name = declared.key) = some stat → stat.declaredType = statType →
      ∃ views, log.object.rows.mapM log.object.mergedView = .ok views ∧
        ExactStat (views.map fun view => declaredValue view (declared.key, statType)) stat

/-- The segment has an entry for the column, and its stamp is exact for the first values as well. -/
structure SummaryShared (declared : DeclaredColumn) (statType : DeclaredStatType) (stats : LoadedColumnStats)
    (seg : SegmentRef) (log : WrittenLog) : Prop where
  entered : (stats.statFor seg).isSome
  accounted : log.writer.records.length = seg.sampleCount
  stored : ∃ column ∈ log.plan.columns, column.pair = (declared.key, declared.ty.fieldType)
  shared : ∃ stat, (seg.declaredColumnStats.find? fun stat => stat.name = declared.key) = some stat ∧
    stat.declaredType = statType ∧ ExactStat (firstValues (declared.key, statType) log) stat

/-- The sum of the values. -/
def valuesSum (values : List (Option DeclaredStatValue)) : Int :=
  (values.reduceOption.map DeclaredStatValue.orderRank).sum

/-- The scanned value of a stamped value. -/
def scalarOf : DeclaredStatValue → ScalarValue
  | .i64 value => .int64 value
  | .bool value => .boolean value

theorem scalarOf_injective : Function.Injective scalarOf := by
  intro left right same
  cases left <;> cases right <;> cases same <;> rfl

theorem orderRank_injective {left right : DeclaredStatValue} (typed : left.statType = right.statType)
    (same : left.orderRank = right.orderRank) : left = right := by
  cases left with
  | i64 left =>
    cases right with
    | i64 right => exact congrArg _ (Int64.toInt_inj.mp same)
    | bool right => cases typed
  | bool left =>
    cases right with
    | i64 right => cases typed
    | bool right => cases left <;> cases right <;> first | rfl | cases same

section Summaries

variable {values : List (Option DeclaredStatValue)} {statType : DeclaredStatType} {left right stat : DeclaredColumnStat}

theorem exactStat_unique (typed : ∀ value, some value ∈ values → value.statType = statType)
    (exactLeft : ExactStat values left) (exactRight : ExactStat values right) :
    left.min = right.min ∧ left.max = right.max ∧ left.nullCount = right.nullCount := by
  by_cases valued : ∃ value, some value ∈ values
  · obtain ⟨low, high, minLeft, maxLeft, lowIn, highIn, bounds⟩ := exactLeft.extrema valued
    obtain ⟨otherLow, otherHigh, minRight, maxRight, otherLowIn, otherHighIn, otherBounds⟩ := exactRight.extrema valued
    have sameLow : low = otherLow := by
      apply orderRank_injective ((typed low lowIn).trans (typed otherLow otherLowIn).symm)
      exact le_antisymm (bounds otherLow otherLowIn).1 (otherBounds low lowIn).1
    have sameHigh : high = otherHigh := by
      apply orderRank_injective ((typed high highIn).trans (typed otherHigh otherHighIn).symm)
      exact le_antisymm (otherBounds high highIn).2 (bounds otherHigh otherHighIn).2
    rw [minLeft, maxLeft, minRight, maxRight, sameLow, sameHigh]
    exact ⟨rfl, rfl, exactLeft.nulls.trans exactRight.nulls.symm⟩
  · have none : ∀ value, some value ∉ values := fun value member => valued ⟨value, member⟩
    rw [(exactLeft.empty none).1, (exactLeft.empty none).2, (exactRight.empty none).1, (exactRight.empty none).2]
    exact ⟨rfl, rfl, exactLeft.nulls.trans exactRight.nulls.symm⟩

/-- Exactness is about the extrema and the null count alone. -/
theorem exactStat_congr (exact_ : ExactStat values left) (min : left.min = right.min) (max : left.max = right.max)
    (nulls : left.nullCount = right.nullCount) : ExactStat values right where
  nulls := nulls ▸ exact_.nulls
  empty := by
    rw [← min, ← max]
    exact exact_.empty
  extrema := by
    rw [← min, ← max]
    exact exact_.extrema

theorem exactStat_typed (typed : ∀ value, some value ∈ values → value.statType = statType) (exact_ : ExactStat values stat) :
    (∀ low, stat.min = some low → low.statType = statType) ∧ ∀ high, stat.max = some high → high.statType = statType := by
  by_cases valued : ∃ value, some value ∈ values
  · obtain ⟨low, high, min, max, lowIn, highIn, _⟩ := exact_.extrema valued
    rw [min, max]
    exact ⟨fun _ same => Option.some_injective _ same ▸ typed low lowIn,
      fun _ same => Option.some_injective _ same ▸ typed high highIn⟩
  · have none : ∀ value, some value ∉ values := fun value member => valued ⟨value, member⟩
    rw [(exact_.empty none).1, (exact_.empty none).2]
    simp

section

variable {ty : DeclaredType} {extremum : Option DeclaredStatValue} (stamped : stampTypeOf ty = some statType)
  (typed : ∀ value, extremum = some value → value.statType = statType)

include stamped typed

theorem coverExtremum_stamp : coverExtremum (stampScalar ty) extremum = some (extremum.map scalarOf) := by
  cases extremum with
  | none => rfl
  | some value =>
    have own := typed value rfl
    cases ty <;> cases stamped <;> cases value <;> cases own <;> rfl

theorem coverExtremum_entry :
    coverExtremum (declaredScalar ty) (extremum.map cstatOf) = some (extremum.map scalarOf) := by
  cases extremum with
  | none => rfl
  | some value =>
    have own := typed value rfl
    cases ty <;> cases stamped <;> cases value <;> cases own <;> rfl

end

end Summaries

theorem firstValue_typed {column : String × DeclaredStatType} {attrs : List (String × AttrValue)}
    {value : DeclaredStatValue} (valued : firstValue column attrs = some value) : value.statType = column.2 := by
  obtain ⟨attr, _, typed⟩ := Option.bind_eq_some_iff.mp valued
  exact statType_typedStat typed

theorem entryCoverage_tallied {declared : DeclaredColumn} {statType : DeclaredStatType}
    (stamped : stampTypeOf declared.ty = some statType) {cells : List (Option DeclaredStatValue)}
    (typed : ∀ value, some value ∈ cells → value.statType = statType) {stat : ColumnStat} (tallied : Tallied cells stat) :
    ∃ exact_, ExactStat cells exact_ ∧
      entryCoverage declared stat = some ⟨exact_.min.map scalarOf, exact_.max.map scalarOf, exact_.nullCount⟩ := by
  obtain ⟨exact_, isExact, min, max, nulls⟩ := tallied.extrema
  have present : minMaxPresent stat = true := by
    rw [minMaxPresent, min, max]
    by_cases valued : ∃ value, some value ∈ cells
    · obtain ⟨low, high, minEq, maxEq, lowIn, _⟩ := isExact.extrema valued
      have counted : ¬stat.nonNullCount = 0 := by
        rw [tallied.nonNulls]
        exact Nat.pos_iff_ne_zero.mp (length_pos_of_mem (reduceOption_mem_iff.mpr lowIn))
      rw [if_neg counted, minEq, maxEq]
      rfl
    · have none : ∀ value, some value ∉ cells := fun value member => valued ⟨value, member⟩
      have empty : cells.reduceOption = [] := by
        rw [eq_nil_iff_forall_not_mem]
        intro value member
        exact none value (reduceOption_mem_iff.mp member)
      rw [if_pos (by rw [tallied.nonNulls, empty]; rfl), (isExact.empty none).1, (isExact.empty none).2]
      rfl
  obtain ⟨lowTyped, highTyped⟩ := exactStat_typed typed isExact
  refine ⟨exact_, isExact, ?_⟩
  rw [entryCoverage, if_pos present, min, max, coverExtremum_entry stamped lowTyped, coverExtremum_entry stamped highTyped,
    nulls]
  rfl

theorem stampCoverage_eq {declared : DeclaredColumn} {statType : DeclaredStatType}
    (stamped : stampTypeOf declared.ty = some statType) {stamps : List DeclaredColumnStat} {stat : DeclaredColumnStat}
    (found : (stamps.find? fun stat => stat.name = declared.key) = some stat) (sameType : stat.declaredType = statType)
    {values : List (Option DeclaredStatValue)} (typed : ∀ value, some value ∈ values → value.statType = statType)
    (isExact : ExactStat values stat) :
    stampCoverage declared stamps = some ⟨stat.min.map scalarOf, stat.max.map scalarOf, stat.nullCount⟩ := by
  obtain ⟨lowTyped, highTyped⟩ := exactStat_typed typed isExact
  subst sameType
  simp only [stampCoverage, stamped, found, bind, Option.bind, ne_eq, not_true_eq_false, if_false,
    coverExtremum_stamp stamped lowTyped, coverExtremum_stamp stamped highTyped]
  rfl

theorem stamp_of_coverage {declared : DeclaredColumn} {stamps : List DeclaredColumnStat} {coverage : SegmentCoverage}
    (covered : stampCoverage declared stamps = some coverage) :
    ∃ statType stat, stampTypeOf declared.ty = some statType ∧
      (stamps.find? fun stat => stat.name = declared.key) = some stat ∧ stat.declaredType = statType := by
  obtain ⟨statType, stamped, afterType⟩ := Option.bind_eq_some_iff.mp covered
  obtain ⟨stat, found, afterStat⟩ := Option.bind_eq_some_iff.mp afterType
  refine ⟨statType, stat, stamped, found, ?_⟩
  by_contra different
  rw [if_pos different] at afterStat
  cases afterStat

/-- The entry that a segment grants. -/
def grantedEntry (declared : DeclaredColumn) (stats : LoadedColumnStats) (seg : SegmentRef) : Option ColumnStat :=
  (stats.statFor seg).bind (mergedViewEntry declared seg)

/-- What a granted entry states: the first values of the records, in row order. -/
structure Granted (declared : DeclaredColumn) (statType : DeclaredStatType) (log : WrittenLog) (stat : ColumnStat)
    (cells : List (Option DeclaredStatValue)) : Prop where
  cells_perm : cells.Perm (firstValues (declared.key, statType) log)
  tallied : Tallied cells stat
  sum : statType = .i64 → stat.sum = ColumnTally.tryI64 (valuesSum cells)
  nulls : stat.nullCount = (mergedValues (declared.key, statType) log).count none
  nonNulls : stat.nonNullCount = (mergedValues (declared.key, statType) log).reduceOption.length

section Segments

variable {platform : Platform} {scan : LogsScanExec} {seg : SegmentRef} {log : WrittenLog} {declared : DeclaredColumn}
  {statType : DeclaredStatType} {stats : LoadedColumnStats}

theorem count_none (values : List (Option DeclaredStatValue)) : values.count none = (values.filter Option.isNone).length := by
  rw [List.count, countP_eq_length_filter]
  congr 1
  apply filter_congr
  rintro (_ | value) _ <;> rfl

theorem StoredLog.exact_merged (stored : StoredLog platform scan seg log) (declaredIn : declared ∈ scan.declared)
    (stamped : stampTypeOf declared.ty = some statType) {stat : DeclaredColumnStat}
    (found : (seg.declaredColumnStats.find? fun stat => stat.name = declared.key) = some stat)
    (sameType : stat.declaredType = statType) : ExactStat (mergedValues (declared.key, statType) log) stat := by
  obtain ⟨rows, finished⟩ := finished_of_layout stored.planned stored.wrote
  obtain ⟨views, read, isExact⟩ := stored.stamped declared declaredIn statType stamped stat found sameType
  have mapped : log.object.rows.mapM log.object.mergedView = .ok (rows.map fun pair => viewOf log.plan pair.1) := by
    rw [finished.objectRows, mapM_eq_ok, forall₂_map_left_iff, forall₂_map_right_iff, forall₂_same]
    intro pair member
    exact finished.mergedView_row member
  rw [read] at mapped
  cases mapped
  apply isExact.perm
  rw [map_map, mergedValues]
  have reordered := finished.records_perm.map fun record => declaredValue (viewOf log.plan record) (declared.key, statType)
  rw [map_map] at reordered
  exact reordered

theorem StoredLog.entry (stored : StoredLog platform scan seg log) (declaredIn : declared ∈ scan.declared)
    (loaded : scan.columnStats = some stats) (stamped : stampTypeOf declared.ty = some statType)
    {segStats : ColumnStatsSegment} (entered : stats.statFor seg = some segStats) :
    ((∃ column ∈ log.plan.columns, column.pair = (declared.key, declared.ty.fieldType)) ↔
      (uniqueColumnStat segStats.columns declared.key).isSome) ∧
    ∀ stat, uniqueColumnStat segStats.columns declared.key = some stat →
      ∃ cells, cells.Perm (firstValues (declared.key, statType) log) ∧ Tallied cells stat ∧
        (statType = .i64 → stat.sum = ColumnTally.tryI64 (valuesSum cells)) := by
  obtain ⟨rows, finished⟩ := finished_of_layout stored.planned stored.wrote
  have tallied := stored.tallied stats loaded segStats entered
  have entry := entry_of_tally finished scan.distinct declaredIn tallied
  cases found : log.object.column declared.key declared.ty.fieldType with
  | none =>
    rw [found] at entry
    have none : uniqueColumnStat segStats.columns declared.key = none := entry
    rw [none]
    constructor
    · constructor
      · rintro ⟨column, columnIn, paired⟩
        rw [(objectColumn_eq finished).mpr ⟨columnIn, paired⟩] at found
        cases found
      · intro absent
        cases absent
    · intro stat absent
      cases absent
  | some attr =>
    rw [found] at entry
    obtain ⟨tally, folded, unique⟩ := entry
    obtain ⟨isTallied, sum⟩ := tallied_rows finished stamped found folded
    rw [unique]
    constructor
    · exact ⟨fun _ => rfl, fun _ => ⟨attr, (objectColumn_eq finished).mp found⟩⟩
    · intro stat same
      cases same
      refine ⟨_, ?_, isTallied, sum⟩
      have reordered := finished.records_perm.map fun record => firstValue (declared.key, statType) record.attrs
      rw [map_map] at reordered
      exact reordered

theorem mergedViewEntry_eq_some {segStats : ColumnStatsSegment} {stat : ColumnStat} :
    mergedViewEntry declared seg segStats = some stat ↔
      uniqueColumnStat segStats.columns declared.key = some stat ∧
        stat.nonNullCount + stat.nullCount = seg.sampleCount ∧
          ∃ coverage, stampCoverage declared seg.declaredColumnStats = some coverage ∧
            entryCoverage declared stat = some coverage := by
  constructor
  · intro granted
    obtain ⟨found, reconciled, afterEntry⟩ := Option.bind_eq_some_iff.mp granted
    obtain ⟨stamp, covered, afterStamp⟩ := Option.bind_eq_some_iff.mp afterEntry
    obtain ⟨coverage, entered, compared⟩ := Option.bind_eq_some_iff.mp afterStamp
    rw [reconciledColumnStat, Option.filter_eq_some_iff] at reconciled
    by_cases same : stamp = coverage
    · rw [if_pos same] at compared
      cases compared
      exact ⟨reconciled.1, of_decide_eq_true reconciled.2, coverage, same ▸ covered, entered⟩
    · rw [if_neg same] at compared
      cases compared
  · rintro ⟨found, accounted, coverage, covered, entered⟩
    rw [mergedViewEntry, reconciledColumnStat, found, covered]
    simp [Option.filter, accounted, entered]

theorem tallied_nulls {cells : List (Option DeclaredStatValue)} {stat : ColumnStat} (tallied : Tallied cells stat) :
    stat.nullCount = (cells.filter Option.isNone).length := by
  obtain ⟨exact_, isExact, _, _, nulls⟩ := tallied.extrema
  rw [nulls, isExact.nulls]

theorem length_eq_values (values : List (Option DeclaredStatValue)) :
    values.length = values.reduceOption.length + (values.filter Option.isNone).length :=
  length_eq_reduceOption_length_add_filter_none

theorem granted_of_entry (stored : StoredLog platform scan seg log) (declaredIn : declared ∈ scan.declared)
    (loaded : scan.columnStats = some stats) {stat : ColumnStat} (granted : grantedEntry declared stats seg = some stat) :
    ∃ statType cells, stampTypeOf declared.ty = some statType ∧ SummaryShared declared statType stats seg log ∧
      Granted declared statType log stat cells := by
  obtain ⟨segStats, entered, merged⟩ := Option.bind_eq_some_iff.mp granted
  obtain ⟨unique, accounted, coverage, covered, entryCovered⟩ := mergedViewEntry_eq_some.mp merged
  obtain ⟨statType, stamp, stamped, found, sameType⟩ := stamp_of_coverage covered
  obtain ⟨storedColumn, described⟩ := stored.entry declaredIn loaded stamped entered
  obtain ⟨cells, reordered, tallied, sum⟩ := described stat unique
  have mergedExact := stored.exact_merged declaredIn stamped found sameType
  have mergedTyped : ∀ value, some value ∈ mergedValues (declared.key, statType) log → value.statType = statType := by
    intro value member
    obtain ⟨record, _, valued⟩ := mem_map.mp member
    exact statType_declaredValue valued
  have cellsTyped : ∀ value, some value ∈ cells → value.statType = statType := by
    intro value member
    obtain ⟨record, _, valued⟩ := mem_map.mp (reordered.mem_iff.mp member)
    exact firstValue_typed valued
  obtain ⟨exact_, isExact, entryEq⟩ := entryCoverage_tallied stamped cellsTyped tallied
  have stampEq := stampCoverage_eq stamped found sameType mergedTyped mergedExact
  have same := Option.some_injective _ ((stampEq.symm.trans covered).trans (entryCovered.symm.trans entryEq))
  obtain ⟨sameMin, sameMax, sameNulls⟩ := SegmentCoverage.mk.inj same
  have cellsExact : ExactStat cells stamp :=
    exactStat_congr isExact (Option.map_injective scalarOf_injective sameMin).symm
      (Option.map_injective scalarOf_injective sameMax).symm sameNulls.symm
  have nulls : stat.nullCount = ((mergedValues (declared.key, statType) log).filter Option.isNone).length := by
    rw [tallied_nulls tallied, ← cellsExact.nulls, mergedExact.nulls]
  have records : cells.length = (mergedValues (declared.key, statType) log).length := by
    rw [reordered.length_eq, firstValues, length_map, mergedValues, length_map]
  have nonNulls : stat.nonNullCount = (mergedValues (declared.key, statType) log).reduceOption.length := by
    have cellCount := length_eq_values cells
    have mergedCount := length_eq_values (mergedValues (declared.key, statType) log)
    have cellNulls := tallied_nulls tallied
    rw [tallied.nonNulls]
    omega
  refine ⟨statType, cells, stamped, ⟨?_, ?_, ?_, ?_⟩, reordered, tallied, sum, ?_, nonNulls⟩
  · rw [entered]
    rfl
  · rw [← accounted, tallied.nonNulls, tallied_nulls tallied, ← length_eq_values, reordered.length_eq, firstValues,
      length_map]
  · rw [storedColumn, unique]
    rfl
  · exact ⟨stamp, found, sameType, cellsExact.perm reordered⟩
  · rw [nulls, count_none]

/-- A segment whose stamp is exact for the first values grants its entry. -/
theorem entry_of_shared (stored : StoredLog platform scan seg log) (declaredIn : declared ∈ scan.declared)
    (loaded : scan.columnStats = some stats) (stamped : stampTypeOf declared.ty = some statType)
    (shared : SummaryShared declared statType stats seg log) :
    ∃ stat, grantedEntry declared stats seg = some stat := by
  obtain ⟨segStats, entered⟩ := Option.isSome_iff_exists.mp shared.entered
  obtain ⟨storedColumn, described⟩ := stored.entry declaredIn loaded stamped entered
  obtain ⟨stat, unique⟩ := Option.isSome_iff_exists.mp (storedColumn.mp shared.stored)
  obtain ⟨cells, reordered, tallied, _⟩ := described stat unique
  obtain ⟨stamp, found, sameType, firstExact⟩ := shared.shared
  have cellsTyped : ∀ value, some value ∈ cells → value.statType = statType := by
    intro value member
    obtain ⟨record, _, valued⟩ := mem_map.mp (reordered.mem_iff.mp member)
    exact firstValue_typed valued
  have cellsExact := firstExact.perm reordered.symm
  obtain ⟨exact_, isExact, entryEq⟩ := entryCoverage_tallied stamped cellsTyped tallied
  have stampEq := stampCoverage_eq stamped found sameType cellsTyped cellsExact
  obtain ⟨sameMin, sameMax, sameNulls⟩ := exactStat_unique cellsTyped cellsExact isExact
  refine ⟨stat, ?_⟩
  rw [grantedEntry, entered, Option.bind_some, mergedViewEntry_eq_some]
  refine ⟨unique, ?_, _, stampEq, ?_⟩
  · rw [tallied.nonNulls, tallied_nulls tallied, ← length_eq_values, reordered.length_eq, firstValues, length_map]
    exact shared.accounted
  · rw [entryEq, sameMin, sameMax, sameNulls]

end Segments

theorem declaredScalar_cstatOf {ty : DeclaredType} {statType : DeclaredStatType} (stamped : stampTypeOf ty = some statType)
    {value : DeclaredStatValue} (typed : value.statType = statType) :
    declaredScalar ty (cstatOf value) = some (scalarOf value) := by
  cases ty <;> cases stamped <;> cases value <;> cases typed <;> rfl

/-- The dictionary of a tallied entry counts its cells, unless they have too many values. -/
theorem readDictionary_tallied {declared : DeclaredColumn} {statType : DeclaredStatType}
    (stamped : stampTypeOf declared.ty = some statType) {cells : List (Option DeclaredStatValue)}
    (typed : ∀ value, some value ∈ cells → value.statType = statType) {stat : ColumnStat} (tallied : Tallied cells stat) :
    readDictionary declared stat =
      if (countKeys cells.reduceOption).length ≤ defaultMaxColumnDictionaryEntries then
        some (countKeys (cells.reduceOption.map scalarOf))
      else none := by
  rw [readDictionary]
  by_cases fits : (countKeys cells.reduceOption).length ≤ defaultMaxColumnDictionaryEntries
  · have present : stat.dictionaryPresent = true := by
      rw [tallied.present]
      exact decide_eq_true fits
    have mapped : (stat.dictionary.mapM fun entry =>
        (declaredScalar declared.ty entry.1).map fun value => (value, entry.2)) =
          some (countKeys (cells.reduceOption.map scalarOf)) := by
      have total : ∀ entry ∈ countKeys cells.reduceOption, ((declaredScalar declared.ty (cstatOf entry.1)).map
          fun value => (value, entry.2)) = some (scalarOf entry.1, entry.2) := by
        intro entry entryIn
        have listed := (mem_countKeys entry.1 cells.reduceOption).mp (mem_map_of_mem entryIn)
        rw [declaredScalar_cstatOf stamped (typed _ (reduceOption_mem_iff.mp listed))]
        rfl
      rw [tallied.dictionary present, mapM_map, countKeys_map scalarOf_injective]
      exact mapM_eq_some_map total
    have summed : ((countKeys (cells.reduceOption.map scalarOf)).map Prod.snd).sum = stat.nonNullCount := by
      rw [sum_countKeys, length_map, tallied.nonNulls]
    rw [present, if_neg (by simp), mapped, if_pos fits]
    show (if _ then _ else _) = _
    rw [if_pos summed]
  · have absent : stat.dictionaryPresent = false := by
      rw [tallied.present]
      exact decide_eq_false fits
    rw [absent, if_neg fits]
    rfl

/-- The dictionary and the entry that a segment adds. -/
def dictionaryPart (declared : DeclaredColumn) (stats : LoadedColumnStats) (seg : SegmentRef) :
    Option (List (ScalarValue × Nat) × ColumnStat) := do
  let stat ← grantedEntry declared stats seg
  return (← readDictionary declared stat, stat)

/-- What the dictionary of a segment states about its log. -/
structure DictionaryOf (declared : DeclaredColumn) (statType : DeclaredStatType) (log : WrittenLog)
    (part : List (ScalarValue × Nat) × ColumnStat) : Prop where
  counted : ∃ cells, Granted declared statType log part.2 cells ∧ part.1 = countKeys (cells.reduceOption.map scalarOf)

section Parts

variable {platform : Platform} {scan : LogsScanExec} {seg : SegmentRef} {log : WrittenLog} {declared : DeclaredColumn}
  {statType : DeclaredStatType} {stats : LoadedColumnStats}

theorem Granted.typed {stat : ColumnStat} {cells : List (Option DeclaredStatValue)}
    (granted : Granted declared statType log stat cells) : ∀ value, some value ∈ cells → value.statType = statType := by
  intro value member
  obtain ⟨record, _, valued⟩ := mem_map.mp (granted.cells_perm.mem_iff.mp member)
  exact firstValue_typed valued

theorem reduceOption_perm {Value : Type} {left right : List (Option Value)} (reordered : left.Perm right) :
    left.reduceOption.Perm right.reduceOption :=
  reordered.filterMap id

theorem Granted.distinct {stat : ColumnStat} {cells : List (Option DeclaredStatValue)}
    (granted : Granted declared statType log stat cells) : (countKeys cells.reduceOption).length =
      (firstValues (declared.key, statType) log).reduceOption.dedup.length := by
  rw [length_countKeys, (reduceOption_perm granted.cells_perm).dedup.length_eq]

theorem dictionaryOf_part (stored : StoredLog platform scan seg log) (declaredIn : declared ∈ scan.declared)
    (loaded : scan.columnStats = some stats) {part : List (ScalarValue × Nat) × ColumnStat}
    (found : dictionaryPart declared stats seg = some part) :
    ∃ statType, stampTypeOf declared.ty = some statType ∧ DictionaryOf declared statType log part ∧
      SummaryShared declared statType stats seg log ∧
        (firstValues (declared.key, statType) log).reduceOption.dedup.length ≤ defaultMaxColumnDictionaryEntries := by
  obtain ⟨stat, entry, afterEntry⟩ := Option.bind_eq_some_iff.mp found
  obtain ⟨entries, dictionary, returned⟩ := Option.bind_eq_some_iff.mp afterEntry
  cases returned
  obtain ⟨statType, cells, stamped, shared, granted⟩ := granted_of_entry stored declaredIn loaded entry
  rw [readDictionary_tallied stamped granted.typed granted.tallied] at dictionary
  split at dictionary
  · rename_i fits
    cases dictionary
    exact ⟨statType, stamped, ⟨cells, granted, rfl⟩, shared, granted.distinct ▸ fits⟩
  · cases dictionary

theorem exists_dictionaryPart (stored : StoredLog platform scan seg log) (declaredIn : declared ∈ scan.declared)
    (loaded : scan.columnStats = some stats) (stamped : stampTypeOf declared.ty = some statType)
    (shared : SummaryShared declared statType stats seg log)
    (few : (firstValues (declared.key, statType) log).reduceOption.dedup.length ≤ defaultMaxColumnDictionaryEntries) :
    ∃ part, dictionaryPart declared stats seg = some part := by
  obtain ⟨stat, entry⟩ := entry_of_shared stored declaredIn loaded stamped shared
  obtain ⟨otherType, cells, otherStamped, _, granted⟩ := granted_of_entry stored declaredIn loaded entry
  rw [stamped] at otherStamped
  cases otherStamped
  refine ⟨(countKeys (cells.reduceOption.map scalarOf), stat), ?_⟩
  rw [dictionaryPart, entry]
  show (readDictionary declared stat).bind _ = _
  rw [readDictionary_tallied stamped granted.typed granted.tallied, if_pos (granted.distinct ▸ few)]
  rfl

end Parts

end Ravel.Logs
