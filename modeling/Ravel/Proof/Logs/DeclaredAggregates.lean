import Ravel.Proof.Logs.GrantedEntries

namespace Ravel.Logs

open List Library Maintain RlogWriter

/-- The column that a scan of the object reads row by row. -/
def RlogObject.scanColumn (object : RlogObject) (declared : DeclaredColumn) :
    Except LogSegError (List (Option ScalarValue)) := do
  return (← object.rows.mapM object.mergedView).map (declaredCell declared)

/-- The value of an integer column. -/
def ScalarValue.toInt : ScalarValue → Int
  | .int64 value => value.toInt
  | _ => 0

/-- Every aggregate that is answered for a declared column is that of the column read row by row. -/
structure AggregatesExact (scan : LogsScanExec) (k : Nat) (column : List (Option ScalarValue)) : Prop where
  groups : ∀ answer, scan.declaredGroupCounts k = some answer →
    (∀ value, countOf value answer.counts = column.count (some value)) ∧
      (∀ value, value ∈ answer.counts.map Prod.fst ↔ some value ∈ column) ∧ answer.nullCount = column.count none
  notEqual : ∀ literal total, scan.declaredNotEqualCount k literal = some total →
    total = column.countP fun cell => cell.isSome && cell ≠ some literal
  sum : ∀ answer, scan.declaredColumnSum k = some answer →
    answer.sum = (column.reduceOption.map ScalarValue.toInt).sum ∧ answer.nonNullCount = column.countP Option.isSome

/-- Every segment answers from its dictionary. -/
def DictionariesAnswer (scan : LogsScanExec) (declared : DeclaredColumn) (statType : DeclaredStatType)
    (logs : List WrittenLog) : Prop :=
  scan.metadataRewriteStatsAreExact ∧ ∃ stats, scan.columnStats = some stats ∧ stats.dictionaryLoaded declared.key ∧
    Forall₂ (fun seg log => SummaryShared declared statType stats seg log ∧
      (firstValues (declared.key, statType) log).reduceOption.dedup.length ≤ defaultMaxColumnDictionaryEntries)
      scan.segments logs

/-- Every segment answers from its sum. -/
def SumsAnswer (scan : LogsScanExec) (declared : DeclaredColumn) (statType : DeclaredStatType) (logs : List WrittenLog) :
    Prop :=
  scan.metadataRewriteStatsAreExact ∧ statType = .i64 ∧ ∃ stats, scan.columnStats = some stats ∧
    Forall₂ (fun seg log => SummaryShared declared statType stats seg log ∧
      -(2 ^ 63) ≤ valuesSum (firstValues (declared.key, statType) log) ∧
        valuesSum (firstValues (declared.key, statType) log) < 2 ^ 63) scan.segments logs

/-- Where the dictionaries answer, the first values are the merged values up to their order, and where the sums answer, the
first values have the sum of the merged values. -/
def FirstValuesTally (scan : LogsScanExec) (declared : DeclaredColumn) (logs : List WrittenLog) : Prop :=
  ∀ statType, stampTypeOf declared.ty = some statType →
    (DictionariesAnswer scan declared statType logs →
      (logs.flatMap (firstValues (declared.key, statType))).reduceOption.Perm
        (logs.flatMap (mergedValues (declared.key, statType))).reduceOption) ∧
    (SumsAnswer scan declared statType logs →
      valuesSum (logs.flatMap (firstValues (declared.key, statType))) =
        valuesSum (logs.flatMap (mergedValues (declared.key, statType))))

section Columns

variable {platform : Platform} {scan : LogsScanExec} {declared : DeclaredColumn} {statType : DeclaredStatType}
  {stats : LoadedColumnStats} {logs : List WrittenLog}

theorem declaredCell_eq (stamped : stampTypeOf declared.ty = some statType) (view : List (String × AttrValue)) :
    declaredCell declared view = (declaredValue view (declared.key, statType)).map scalarOf := by
  obtain ⟨key, ty⟩ := declared
  have looked : (view.find? fun entry => entry.1 = key) = resolveName view key := rfl
  cases ty <;> cases stamped <;> simp only [declaredCell, declaredValue, looked] <;>
    rcases resolveName view key with _ | ⟨name, value⟩ <;> first | rfl | (cases value <;> rfl)

theorem scanColumn_perm (declared : DeclaredColumn) {seg : SegmentRef} {log : WrittenLog}
    (stored : StoredLog platform scan seg log) :
    ∃ column, log.object.scanColumn declared = .ok column ∧ ∀ statType, stampTypeOf declared.ty = some statType →
      column.Perm ((mergedValues (declared.key, statType) log).map (Option.map scalarOf)) := by
  obtain ⟨rows, finished⟩ := finished_of_layout stored.planned stored.wrote
  have mapped : log.object.rows.mapM log.object.mergedView = .ok (rows.map fun pair => viewOf log.plan pair.1) := by
    rw [finished.objectRows, mapM_eq_ok, forall₂_map_left_iff, forall₂_map_right_iff, forall₂_same]
    intro pair member
    exact finished.mergedView_row member
  refine ⟨(rows.map fun pair => viewOf log.plan pair.1).map (declaredCell declared), ?_, ?_⟩
  · rw [RlogObject.scanColumn, mapped]
    rfl
  · intro statType stamped
    have reordered := finished.records_perm.map fun record =>
      (declaredValue (viewOf log.plan record) (declared.key, statType)).map scalarOf
    rw [map_map] at reordered
    rw [map_map, mergedValues, map_map]
    have cells : declaredCell declared ∘ (fun pair : RlogRecord × ResolvedRow => viewOf log.plan pair.1) =
        (fun record => (declaredValue (viewOf log.plan record) (declared.key, statType)).map scalarOf) ∘ Prod.fst := by
      funext pair
      exact declaredCell_eq stamped _
    rw [cells]
    exact reordered

theorem scanColumns_perm (declared : DeclaredColumn) {segs : List SegmentRef}
    (stored : Forall₂ (StoredLog platform scan) segs logs) :
    ∃ columns, logs.mapM (fun log => log.object.scanColumn declared) = .ok columns ∧
      ∀ statType, stampTypeOf declared.ty = some statType →
        columns.flatten.Perm ((logs.flatMap (mergedValues (declared.key, statType))).map (Option.map scalarOf)) := by
  induction stored with
  | nil => exact ⟨[], rfl, fun _ _ => .nil⟩
  | cons first _ ih =>
    obtain ⟨column, read, reordered⟩ := scanColumn_perm declared first
    obtain ⟨columns, readRest, rest⟩ := ih
    refine ⟨column :: columns, ?_, ?_⟩
    · rw [mapM_cons, read, readRest]
      rfl
    · intro statType stamped
      rw [flatten_cons, flatMap_cons, map_append]
      exact (reordered statType stamped).append (rest statType stamped)

end Columns

/-- One segment of the group counts. -/
def addGroups (merged : DeclaredGroupCounts) (part : List (ScalarValue × Nat) × ColumnStat) : DeclaredGroupCounts :=
  ⟨mergeCounts merged.counts part.1, merged.nullCount + part.2.nullCount⟩

/-- One segment of the count of other values. -/
def addOthers (literal : ScalarValue) (total : Nat) (part : List (ScalarValue × Nat) × ColumnStat) : Nat :=
  total + (part.2.nonNullCount - ((part.1.filter fun entry => entry.1 = literal).map Prod.snd).sum)

/-- The sum and the entry that a segment adds. -/
def sumPart (declared : DeclaredColumn) (stats : LoadedColumnStats) (seg : SegmentRef) : Option (Int64 × ColumnStat) := do
  let stat ← grantedEntry declared stats seg
  return (← stat.sum, stat)

def addSum (total : DeclaredColumnSum) (part : Int64 × ColumnStat) : DeclaredColumnSum :=
  ⟨total.sum + part.1.toInt, total.nonNullCount + part.2.nonNullCount⟩

section Answers

variable {scan : LogsScanExec} {k : Nat} {declared : DeclaredColumn}

theorem dictionaryColumn_eq_some {found : DeclaredColumn × LoadedColumnStats} :
    scan.dictionaryColumn k = some found ↔ scan.metadataRewriteStatsAreExact ∧ scan.declared[k]? = some found.1 ∧
      found.1.ty ≠ .str ∧ scan.columnStats = some found.2 ∧ found.2.dictionaryLoaded found.1.key := by
  obtain ⟨declared, stats⟩ := found
  constructor
  · intro chosen
    rw [LogsScanExec.dictionaryColumn] at chosen
    split at chosen
    · cases chosen
    · rename_i gate
      obtain ⟨other, located, afterColumn⟩ := Option.bind_eq_some_iff.mp chosen
      split at afterColumn
      · cases afterColumn
      · rename_i text
        obtain ⟨loaded, present, afterStats⟩ := Option.bind_eq_some_iff.mp afterColumn
        split at afterStats
        · cases afterStats
        · rename_i held
          cases afterStats
          exact ⟨by simpa using gate, located, text, present, by simpa using held⟩
  · rintro ⟨gate, located, text, present, held⟩
    simp only at located text present held
    simp [LogsScanExec.dictionaryColumn, gate, located, text, present, held]

/-- A step of an aggregate starts from the granted entry. -/
theorem bind_granted {Answer : Type} (declared : DeclaredColumn) (stats : LoadedColumnStats) (seg : SegmentRef)
    (next : ColumnStat → Option Answer) :
    (do next (← mergedViewEntry declared seg (← stats.statFor seg))) = (grantedEntry declared stats seg).bind next :=
  (Option.bind_assoc _ _ _).symm

theorem declaredGroupCounts_eq_some {answer : DeclaredGroupCounts} :
    scan.declaredGroupCounts k = some answer ↔ ∃ declared stats, scan.dictionaryColumn k = some (declared, stats) ∧
      ∃ parts, Forall₂ (fun seg part => dictionaryPart declared stats seg = some part) scan.segments parts ∧
        answer = parts.foldl addGroups ⟨[], 0⟩ := by
  have folded : ∀ declared stats, (scan.segments.foldlM (fun (merged : DeclaredGroupCounts) seg => do
      let stat ← mergedViewEntry declared seg (← LoadedColumnStats.statFor stats seg)
      let entries ← readDictionary declared stat
      return ⟨mergeCounts merged.counts entries, merged.nullCount + stat.nullCount⟩) ⟨[], 0⟩) = some answer ↔
        ∃ parts, Forall₂ (fun seg part => dictionaryPart declared stats seg = some part) scan.segments parts ∧
          answer = parts.foldl addGroups ⟨[], 0⟩ := by
    intro declared stats
    apply foldlM_eq_some
    intro merged seg
    rw [bind_granted, dictionaryPart]
    cases grantedEntry declared stats seg with
    | none => rfl
    | some stat =>
      simp only [bind, Option.bind]
      cases readDictionary declared stat <;> rfl
  constructor
  · intro answered
    obtain ⟨⟨declared, stats⟩, chosen, run⟩ := Option.bind_eq_some_iff.mp answered
    exact ⟨declared, stats, chosen, (folded declared stats).mp run⟩
  · rintro ⟨declared, stats, chosen, parts, reads, rfl⟩
    rw [LogsScanExec.declaredGroupCounts, chosen]
    exact (folded declared stats).mpr ⟨parts, reads, rfl⟩

theorem readDictionary_sum {declared : DeclaredColumn} {stat : ColumnStat} {entries : List (ScalarValue × Nat)}
    (read : readDictionary declared stat = some entries) : (entries.map Prod.snd).sum = stat.nonNullCount := by
  rw [readDictionary] at read
  split at read
  · cases read
  · obtain ⟨mapped, _, checked⟩ := Option.bind_eq_some_iff.mp read
    split at checked
    · rename_i summed
      cases checked
      exact summed
    · cases checked

theorem declaredNotEqualCount_eq_some {literal : ScalarValue} {total : Nat} :
    scan.declaredNotEqualCount k literal = some total ↔ ∃ declared stats, scan.dictionaryColumn k = some (declared, stats) ∧
      ∃ parts, Forall₂ (fun seg part => dictionaryPart declared stats seg = some part) scan.segments parts ∧
        total = parts.foldl (addOthers literal) 0 := by
  have folded : ∀ declared stats, (scan.segments.foldlM (fun (total : Nat) seg => do
      let stat ← mergedViewEntry declared seg (← LoadedColumnStats.statFor stats seg)
      let entries ← readDictionary declared stat
      let matching := ((entries.filter fun entry => entry.1 = literal).map Prod.snd).sum
      if matching ≤ stat.nonNullCount then some (total + (stat.nonNullCount - matching)) else none) 0) = some total ↔
        ∃ parts, Forall₂ (fun seg part => dictionaryPart declared stats seg = some part) scan.segments parts ∧
          total = parts.foldl (addOthers literal) 0 := by
    intro declared stats
    apply foldlM_eq_some
    intro running seg
    rw [bind_granted, dictionaryPart]
    cases grantedEntry declared stats seg with
    | none => rfl
    | some stat =>
      simp only [bind, Option.bind]
      cases read : readDictionary declared stat with
      | none => rfl
      | some entries =>
        -- The counts of the literal are part of all counts, which are those of the values.
        have below : ((entries.filter fun entry => entry.1 = literal).map Prod.snd).sum ≤ stat.nonNullCount := by
          rw [← readDictionary_sum read]
          exact (filter_sublist.map Prod.snd).sum_le_sum fun _ _ => Nat.zero_le _
        dsimp only
        rw [if_pos below]
        rfl
  constructor
  · intro answered
    obtain ⟨⟨declared, stats⟩, chosen, run⟩ := Option.bind_eq_some_iff.mp answered
    exact ⟨declared, stats, chosen, (folded declared stats).mp run⟩
  · rintro ⟨declared, stats, chosen, parts, reads, rfl⟩
    rw [LogsScanExec.declaredNotEqualCount, chosen]
    exact (folded declared stats).mpr ⟨parts, reads, rfl⟩

theorem declaredColumnSum_eq_some {answer : DeclaredColumnSum} :
    scan.declaredColumnSum k = some answer ↔ scan.metadataRewriteStatsAreExact ∧ ∃ declared stats,
      scan.declared[k]? = some declared ∧ declared.ty = .i64 ∧ scan.columnStats = some stats ∧
        ∃ parts, Forall₂ (fun seg part => sumPart declared stats seg = some part) scan.segments parts ∧
          answer = parts.foldl addSum ⟨0, 0⟩ := by
  have folded : ∀ declared stats, (scan.segments.foldlM (fun (total : DeclaredColumnSum) seg => do
      let stat ← mergedViewEntry declared seg (← LoadedColumnStats.statFor stats seg)
      let sum ← stat.sum
      return ⟨total.sum + sum.toInt, total.nonNullCount + stat.nonNullCount⟩) ⟨0, 0⟩) = some answer ↔
        ∃ parts, Forall₂ (fun seg part => sumPart declared stats seg = some part) scan.segments parts ∧
          answer = parts.foldl addSum ⟨0, 0⟩ := by
    intro declared stats
    apply foldlM_eq_some
    intro total seg
    rw [bind_granted, sumPart]
    cases grantedEntry declared stats seg with
    | none => rfl
    | some stat =>
      simp only [bind, Option.bind]
      cases stat.sum <;> rfl
  constructor
  · intro answered
    rw [LogsScanExec.declaredColumnSum] at answered
    split at answered
    · cases answered
    · rename_i gate
      obtain ⟨declared, located, afterColumn⟩ := Option.bind_eq_some_iff.mp answered
      split at afterColumn
      · cases afterColumn
      · rename_i typed
        obtain ⟨stats, present, run⟩ := Option.bind_eq_some_iff.mp afterColumn
        exact ⟨by simpa using gate, declared, stats, located, not_not.mp typed, present, (folded declared stats).mp run⟩
  · rintro ⟨gate, declared, stats, located, typed, present, parts, reads, rfl⟩
    have run := (folded declared stats).mpr ⟨parts, reads, rfl⟩
    simpa [LogsScanExec.declaredColumnSum, gate, located, typed, present] using run

end Answers

section Totals

variable {declared : DeclaredColumn} {statType : DeclaredStatType} {logs : List WrittenLog}

/-- The values of the records, as a scan returns them. -/
def scalars (values : List (Option DeclaredStatValue)) : List ScalarValue := values.reduceOption.map scalarOf

theorem scalars_append (left right : List (Option DeclaredStatValue)) : scalars (left ++ right) = scalars left ++ scalars right := by
  rw [scalars, reduceOption_append, map_append, scalars, scalars]

theorem Granted.scalars_perm {log : WrittenLog} {stat : ColumnStat} {cells : List (Option DeclaredStatValue)}
    (granted : Granted declared statType log stat cells) :
    (cells.reduceOption.map scalarOf).Perm (scalars (firstValues (declared.key, statType) log)) :=
  (reduceOption_perm granted.cells_perm).map scalarOf

/-- The merged dictionaries count the first values of all records. -/
theorem foldl_addGroups {parts : List (List (ScalarValue × Nat) × ColumnStat)}
    (described : Forall₂ (DictionaryOf declared statType) logs parts) : ∀ merged : DeclaredGroupCounts,
    (∀ value, countOf value (parts.foldl addGroups merged).counts =
      countOf value merged.counts + (scalars (logs.flatMap (firstValues (declared.key, statType)))).count value) ∧
    (∀ value, value ∈ (parts.foldl addGroups merged).counts.map Prod.fst ↔
      value ∈ merged.counts.map Prod.fst ∨ value ∈ scalars (logs.flatMap (firstValues (declared.key, statType)))) ∧
    (parts.foldl addGroups merged).nullCount =
      merged.nullCount + (logs.flatMap (mergedValues (declared.key, statType))).count none := by
  induction described with
  | nil =>
    intro merged
    simp [scalars]
  | @cons log part logs parts first _ ih =>
    intro merged
    obtain ⟨cells, granted, counted⟩ := first.counted
    obtain ⟨counts, keys, nulls⟩ := ih (addGroups merged part)
    have reordered := granted.scalars_perm
    refine ⟨?_, ?_, ?_⟩
    · intro value
      rw [foldl_cons, counts, addGroups, counted, countOf_mergeCounts value (nodup_countKeys _), countOf_countKeys,
        reordered.count_eq, flatMap_cons, scalars_append, count_append, Nat.add_assoc]
    · intro value
      rw [foldl_cons, keys, addGroups, counted, mem_mergeCounts, mem_countKeys, reordered.mem_iff, flatMap_cons,
        scalars_append, mem_append, or_assoc]
    · rw [foldl_cons, nulls, addGroups, granted.nulls, flatMap_cons, count_append, Nat.add_assoc]

theorem foldl_addOthers (literal : ScalarValue) {parts : List (List (ScalarValue × Nat) × ColumnStat)}
    (described : Forall₂ (DictionaryOf declared statType) logs parts) : ∀ total : Nat,
    parts.foldl (addOthers literal) total + (scalars (logs.flatMap (firstValues (declared.key, statType)))).count literal =
      total + (logs.flatMap (mergedValues (declared.key, statType))).reduceOption.length := by
  induction described with
  | nil =>
    intro total
    rfl
  | @cons log part logs parts first _ ih =>
    intro total
    obtain ⟨cells, granted, counted⟩ := first.counted
    have rest := ih (addOthers literal total part)
    have matching : ((part.1.filter fun entry => entry.1 = literal).map Prod.snd).sum =
        (scalars (firstValues (declared.key, statType) log)).count literal := by
      rw [counted, sum_filter_eq_countOf literal (nodup_countKeys _), countOf_countKeys, granted.scalars_perm.count_eq]
    have within : (scalars (firstValues (declared.key, statType) log)).count literal ≤ part.2.nonNullCount := by
      rw [granted.tallied.nonNulls, ← length_map scalarOf, granted.scalars_perm.length_eq]
      exact count_le_length
    have nonNulls := granted.nonNulls
    rw [addOthers, matching] at rest
    rw [foldl_cons, addOthers, matching, flatMap_cons, scalars_append, count_append, flatMap_cons,
      reduceOption_append, length_append]
    omega

theorem tryI64_eq_some {total : Int} {sum : Int64} (fits : ColumnTally.tryI64 total = some sum) :
    sum.toInt = total ∧ -(2 ^ 63) ≤ total ∧ total < 2 ^ 63 := by
  rw [ColumnTally.tryI64] at fits
  split at fits
  · rename_i bounds
    cases fits
    exact ⟨Int64.toInt_ofInt_of_le bounds.1 bounds.2, bounds⟩
  · cases fits

/-- What the sum of a segment states about its log. -/
structure SumOf (declared : DeclaredColumn) (log : WrittenLog) (part : Int64 × ColumnStat) : Prop where
  summed : ∃ cells, Granted declared .i64 log part.2 cells ∧ part.1.toInt = valuesSum (firstValues (declared.key, .i64) log)

theorem valuesSum_append (left right : List (Option DeclaredStatValue)) :
    valuesSum (left ++ right) = valuesSum left + valuesSum right := by
  rw [valuesSum, reduceOption_append, map_append, sum_append, valuesSum, valuesSum]

theorem foldl_addSum {parts : List (Int64 × ColumnStat)} (described : Forall₂ (SumOf declared) logs parts) :
    ∀ total : DeclaredColumnSum,
    (parts.foldl addSum total).sum = total.sum + valuesSum (logs.flatMap (firstValues (declared.key, .i64))) ∧
      (parts.foldl addSum total).nonNullCount =
        total.nonNullCount + (logs.flatMap (mergedValues (declared.key, .i64))).reduceOption.length := by
  induction described with
  | nil =>
    intro total
    simp [valuesSum]
  | @cons log part logs parts first _ ih =>
    intro total
    obtain ⟨cells, granted, summed⟩ := first.summed
    obtain ⟨sum, nonNulls⟩ := ih (addSum total part)
    constructor
    · rw [foldl_cons, sum, addSum, summed, flatMap_cons, valuesSum_append, Int.add_assoc]
    · rw [foldl_cons, nonNulls, addSum, granted.nonNulls, flatMap_cons, reduceOption_append,
        length_append, Nat.add_assoc]

end Totals

section ReadColumns

variable {column : List (Option ScalarValue)} {values : List (Option DeclaredStatValue)}

section

variable (reordered : column.Perm (values.map (Option.map scalarOf)))

include reordered

theorem count_read (value : ScalarValue) : column.count (some value) = (scalars values).count value := by
  rw [reordered.count_eq, scalars]
  clear reordered
  induction values with
  | nil => rfl
  | cons cell rest ih =>
    cases cell with
    | none => simpa [reduceOption_cons_of_none] using ih
    | some found =>
      rw [reduceOption_cons_of_some, map_cons, map_cons, count_cons, count_cons,
        ih]
      simp

theorem mem_read (value : ScalarValue) : some value ∈ column ↔ value ∈ scalars values := by
  rw [reordered.mem_iff, scalars, mem_map, mem_map]
  constructor
  · rintro ⟨cell, cellIn, same⟩
    obtain ⟨found, rfl, rfl⟩ := Option.map_eq_some_iff.mp same
    exact ⟨found, reduceOption_mem_iff.mpr cellIn, rfl⟩
  · rintro ⟨found, foundIn, rfl⟩
    exact ⟨some found, reduceOption_mem_iff.mp foundIn, rfl⟩

theorem count_none_read : column.count none = values.count none := by
  rw [reordered.count_eq]
  clear reordered
  induction values with
  | nil => rfl
  | cons cell rest ih =>
    rw [map_cons, count_cons, count_cons, ih]
    cases cell <;> rfl

theorem countP_isSome_read : column.countP Option.isSome = values.reduceOption.length := by
  rw [reordered.countP_eq]
  clear reordered
  induction values with
  | nil => rfl
  | cons cell rest ih =>
    rw [map_cons, countP_cons, ih]
    cases cell <;> rfl

theorem countP_other_read (literal : ScalarValue) :
    (column.countP fun cell => cell.isSome && cell ≠ some literal) + (scalars values).count literal =
      values.reduceOption.length := by
  have split : (column.countP fun cell => cell.isSome && cell ≠ some literal) + column.count (some literal) =
      column.countP Option.isSome := by
    clear reordered
    induction column with
    | nil => rfl
    | cons cell rest ih =>
      rw [countP_cons, count_cons, countP_cons, ← ih]
      cases cell with
      | none => simp
      | some found =>
        by_cases same : found = literal <;> simp [same] <;> omega
  rw [← count_read reordered literal, split, countP_isSome_read reordered]

theorem sum_read (typed : ∀ value, some value ∈ values → value.statType = .i64) :
    (column.reduceOption.map ScalarValue.toInt).sum = valuesSum values := by
  rw [((reduceOption_perm reordered).map ScalarValue.toInt).sum_eq, reduceOption_map, map_map, valuesSum]
  congr 1
  apply map_congr_left
  intro value valueIn
  have own := typed value (reduceOption_mem_iff.mp valueIn)
  cases value with
  | i64 value => rfl
  | bool value => cases own

end

end ReadColumns

section Exactness

variable {platform : Platform} {scan : LogsScanExec} {k : Nat} {declared : DeclaredColumn} {statType : DeclaredStatType}
  {stats : LoadedColumnStats} {logs : List WrittenLog} {column : List (Option ScalarValue)}

variable {segs : List SegmentRef}

section

variable (declaredIn : declared ∈ scan.declared) (loaded : scan.columnStats = some stats)
  (stamped : stampTypeOf declared.ty = some statType) (stored : Forall₂ (StoredLog platform scan) segs logs)

include declaredIn loaded stamped stored

/-- The parts of the dictionaries describe the logs. -/
theorem described_of_dictionaryParts {parts : List (List (ScalarValue × Nat) × ColumnStat)}
    (reads : Forall₂ (fun seg part => dictionaryPart declared stats seg = some part) segs parts) :
    Forall₂ (DictionaryOf declared statType) logs parts ∧
      Forall₂ (fun seg log => SummaryShared declared statType stats seg log ∧
        (firstValues (declared.key, statType) log).reduceOption.dedup.length ≤ defaultMaxColumnDictionaryEntries)
        segs logs := by
  induction stored generalizing parts with
  | nil =>
    cases reads
    exact ⟨.nil, .nil⟩
  | cons first _ ih =>
    cases reads with
    | cons read reads =>
      obtain ⟨described, answers⟩ := ih reads
      obtain ⟨otherType, otherStamped, part, shared, few⟩ := dictionaryOf_part first declaredIn loaded read
      rw [stamped] at otherStamped
      cases otherStamped
      exact ⟨.cons part described, .cons ⟨shared, few⟩ answers⟩

theorem exists_dictionaryParts
    (answers : Forall₂ (fun seg log => SummaryShared declared statType stats seg log ∧ (firstValues (declared.key, statType) log).reduceOption.dedup.length ≤ defaultMaxColumnDictionaryEntries) segs logs) :
    ∃ parts, Forall₂ (fun seg part => dictionaryPart declared stats seg = some part) segs parts := by
  induction stored with
  | nil => exact ⟨[], .nil⟩
  | cons first _ ih =>
    cases answers with
    | cons answer answers =>
      obtain ⟨parts, reads⟩ := ih answers
      obtain ⟨part, read⟩ := exists_dictionaryPart first declaredIn loaded stamped answer.1 answer.2
      exact ⟨part :: parts, .cons read reads⟩

end

theorem stampType_i64 (typed : declared.ty = .i64) : stampTypeOf declared.ty = some .i64 := by
  rw [typed]
  rfl

theorem described_of_sumParts (declaredIn : declared ∈ scan.declared) (loaded : scan.columnStats = some stats)
    (typed : declared.ty = .i64) (stored : Forall₂ (StoredLog platform scan) segs logs)
    {parts : List (Int64 × ColumnStat)}
    (reads : Forall₂ (fun seg part => sumPart declared stats seg = some part) segs parts) :
    Forall₂ (SumOf declared) logs parts ∧
      Forall₂ (fun seg log => SummaryShared declared .i64 stats seg log ∧
        -(2 ^ 63) ≤ valuesSum (firstValues (declared.key, .i64) log) ∧
          valuesSum (firstValues (declared.key, .i64) log) < 2 ^ 63) segs logs := by
  induction stored generalizing parts with
  | nil =>
    cases reads
    exact ⟨.nil, .nil⟩
  | @cons seg log segs logs first _ ih =>
    cases reads with
    | cons read reads =>
      obtain ⟨described, answers⟩ := ih reads
      obtain ⟨stat, entry, afterEntry⟩ := Option.bind_eq_some_iff.mp read
      obtain ⟨sum, present, returned⟩ := Option.bind_eq_some_iff.mp afterEntry
      cases returned
      obtain ⟨otherType, cells, otherStamped, shared, granted⟩ := granted_of_entry first declaredIn loaded entry
      rw [stampType_i64 typed] at otherStamped
      cases otherStamped
      have sameSum := ((reduceOption_perm granted.cells_perm).map DeclaredStatValue.orderRank).sum_eq
      have fits : ColumnTally.tryI64 (valuesSum (firstValues (declared.key, .i64) log)) = some sum := by
        rw [valuesSum, ← sameSum, ← present, granted.sum rfl]
        rfl
      obtain ⟨summed, bounds⟩ := tryI64_eq_some fits
      exact ⟨.cons ⟨cells, granted, summed⟩ described, .cons ⟨shared, bounds⟩ answers⟩

theorem exists_sumParts (declaredIn : declared ∈ scan.declared) (loaded : scan.columnStats = some stats)
    (typed : declared.ty = .i64) (stored : Forall₂ (StoredLog platform scan) segs logs)
    (answers : Forall₂ (fun seg log => SummaryShared declared .i64 stats seg log ∧ -(2 ^ 63) ≤ valuesSum (firstValues (declared.key, .i64) log) ∧ valuesSum (firstValues (declared.key, .i64) log) < 2 ^ 63) segs logs) :
    ∃ parts, Forall₂ (fun seg part => sumPart declared stats seg = some part) segs parts := by
  induction stored with
  | nil => exact ⟨[], .nil⟩
  | cons first _ ih =>
    cases answers with
    | cons answer answers =>
      obtain ⟨parts, reads⟩ := ih answers
      obtain ⟨stat, entry⟩ := entry_of_shared first declaredIn loaded (stampType_i64 typed) answer.1
      obtain ⟨otherType, cells, otherStamped, _, granted⟩ := granted_of_entry first declaredIn loaded entry
      rw [stampType_i64 typed] at otherStamped
      cases otherStamped
      have sameSum := ((reduceOption_perm granted.cells_perm).map DeclaredStatValue.orderRank).sum_eq
      have present : stat.sum = some (Int64.ofInt (valuesSum cells)) := by
        rw [granted.sum rfl, ColumnTally.tryI64, if_pos]
        rw [valuesSum, sameSum]
        exact answer.2
      refine ⟨(Int64.ofInt (valuesSum cells), stat) :: parts, .cons ?_ reads⟩
      rw [sumPart, entry]
      show stat.sum.bind _ = _
      rw [present]
      rfl

theorem mergedValues_typed {column : String × DeclaredStatType} {value : DeclaredStatValue}
    (member : some value ∈ logs.flatMap (mergedValues column)) : value.statType = column.2 := by
  obtain ⟨log, _, valueIn⟩ := mem_flatMap.mp member
  obtain ⟨record, _, valued⟩ := mem_map.mp valueIn
  exact statType_declaredValue valued

section

variable (located : scan.declared[k]? = some declared)
  (stored : Forall₂ (StoredLog platform scan) scan.segments logs)

include located stored

theorem firstValuesTally_of_exact
    (reordered : ∀ statType, stampTypeOf declared.ty = some statType → column.Perm ((logs.flatMap (mergedValues (declared.key, statType))).map (Option.map scalarOf)))
    (exact_ : AggregatesExact scan k column) : FirstValuesTally scan declared logs := by
  have declaredIn := mem_of_getElem? located
  intro statType stamped
  constructor
  · rintro ⟨gate, stats, loaded, held, answers⟩
    obtain ⟨parts, reads⟩ := exists_dictionaryParts declaredIn loaded stamped stored answers
    have described := (described_of_dictionaryParts declaredIn loaded stamped stored reads).1
    have text : declared.ty ≠ .str := by
      intro text
      rw [text] at stamped
      cases stamped
    have answered := declaredGroupCounts_eq_some.mpr
      ⟨declared, stats, dictionaryColumn_eq_some.mpr ⟨gate, located, text, loaded, held⟩, parts, reads, rfl⟩
    have same : (scalars (logs.flatMap (firstValues (declared.key, statType)))).Perm
        (scalars (logs.flatMap (mergedValues (declared.key, statType)))) := by
      rw [perm_iff_count]
      intro value
      rw [← count_read (reordered statType stamped), ← (exact_.groups _ answered).1 value,
        (foldl_addGroups described ⟨[], 0⟩).1 value, countOf_nil, Nat.zero_add]
    exact (map_perm_map_iff scalarOf_injective).mp same
  · rintro ⟨gate, rfl, stats, loaded, answers⟩
    have typed : declared.ty = .i64 := by
      cases ty : declared.ty <;> rw [ty] at stamped <;> first | rfl | cases stamped
    obtain ⟨parts, reads⟩ := exists_sumParts declaredIn loaded typed stored answers
    have described := (described_of_sumParts declaredIn loaded typed stored reads).1
    have answered := declaredColumnSum_eq_some.mpr ⟨gate, declared, stats, located, typed, loaded, parts, reads, rfl⟩
    rw [← sum_read (reordered .i64 stamped) fun value member => mergedValues_typed member, ← (exact_.sum _ answered).1,
      (foldl_addSum described ⟨0, 0⟩).1]
    exact (Int.zero_add _).symm

theorem exact_of_firstValuesTally (stamped : stampTypeOf declared.ty = some statType)
    (reordered : column.Perm ((logs.flatMap (mergedValues (declared.key, statType))).map (Option.map scalarOf)))
    (tally : FirstValuesTally scan declared logs) : AggregatesExact scan k column := by
  have declaredIn := mem_of_getElem? located
  obtain ⟨dictionaries, sums⟩ := tally statType stamped
  -- Both dictionary aggregates read the same parts.
  have parts_of : ∀ {other stats parts}, scan.dictionaryColumn k = some (other, stats) →
      Forall₂ (fun seg part => dictionaryPart other stats seg = some part) scan.segments parts →
        Forall₂ (DictionaryOf declared statType) logs parts ∧
          (scalars (logs.flatMap (firstValues (declared.key, statType)))).Perm
            (scalars (logs.flatMap (mergedValues (declared.key, statType)))) := by
    intro other stats parts chosen reads
    obtain ⟨gate, otherLocated, _, loaded, held⟩ := dictionaryColumn_eq_some.mp chosen
    rw [located] at otherLocated
    cases otherLocated
    obtain ⟨described, answers⟩ := described_of_dictionaryParts declaredIn loaded stamped stored reads
    exact ⟨described, (dictionaries ⟨gate, stats, loaded, held, answers⟩).map scalarOf⟩
  constructor
  · intro answer answered
    obtain ⟨other, stats, chosen, parts, reads, rfl⟩ := declaredGroupCounts_eq_some.mp answered
    obtain ⟨described, same⟩ := parts_of chosen reads
    obtain ⟨counts, keys, nulls⟩ := foldl_addGroups described ⟨[], 0⟩
    refine ⟨?_, ?_, ?_⟩
    · intro value
      rw [counts, countOf_nil, Nat.zero_add, count_read reordered, same.count_eq]
    · intro value
      rw [keys, mem_read reordered, same.mem_iff]
      simp
    · rw [nulls, count_none_read reordered, Nat.zero_add]
  · intro literal total answered
    obtain ⟨other, stats, chosen, parts, reads, rfl⟩ := declaredNotEqualCount_eq_some.mp answered
    obtain ⟨described, same⟩ := parts_of chosen reads
    have others := foldl_addOthers literal described 0
    have read := countP_other_read reordered literal
    rw [same.count_eq] at others
    omega
  · intro answer answered
    obtain ⟨gate, other, stats, otherLocated, typed, loaded, parts, reads, rfl⟩ := declaredColumnSum_eq_some.mp answered
    rw [located] at otherLocated
    cases otherLocated
    rw [stampType_i64 typed] at stamped
    cases stamped
    obtain ⟨described, answers⟩ := described_of_sumParts declaredIn loaded typed stored reads
    obtain ⟨sum, nonNulls⟩ := foldl_addSum described ⟨0, 0⟩
    constructor
    · rw [sum, sum_read reordered fun value member => mergedValues_typed member, Int.zero_add]
      exact sums ⟨gate, rfl, stats, loaded, answers⟩
    · rw [nonNulls, countP_isSome_read reordered, Nat.zero_add]

/-- A column whose type has no stamp is answered only without segments. -/
theorem exact_of_unstamped (unstamped : stampTypeOf declared.ty = none) (empty : logs = [] → column = []) : AggregatesExact scan k column := by
  have declaredIn := mem_of_getElem? located
  have none_of : ∀ {other stats parts}, scan.dictionaryColumn k = some (other, stats) →
      Forall₂ (fun seg part => dictionaryPart other stats seg = some part) scan.segments parts →
        parts = [] ∧ column = [] := by
    intro other stats parts chosen reads
    obtain ⟨_, otherLocated, _, loaded, _⟩ := dictionaryColumn_eq_some.mp chosen
    rw [located] at otherLocated
    cases otherLocated
    have matched := forall₂_through stored reads
    cases matched with
    | nil => exact ⟨rfl, empty rfl⟩
    | cons first _ =>
      obtain ⟨seg, storedLog, read⟩ := first
      obtain ⟨statType, stamped, _⟩ := dictionaryOf_part storedLog declaredIn loaded read
      rw [unstamped] at stamped
      cases stamped
  constructor
  · intro answer answered
    obtain ⟨other, stats, chosen, parts, reads, rfl⟩ := declaredGroupCounts_eq_some.mp answered
    obtain ⟨rfl, rfl⟩ := none_of chosen reads
    simp
  · intro literal total answered
    obtain ⟨other, stats, chosen, parts, reads, rfl⟩ := declaredNotEqualCount_eq_some.mp answered
    obtain ⟨rfl, rfl⟩ := none_of chosen reads
    rfl
  · intro answer answered
    obtain ⟨_, other, stats, otherLocated, typed, _⟩ := declaredColumnSum_eq_some.mp answered
    rw [located] at otherLocated
    cases otherLocated
    rw [stampType_i64 typed] at unstamped
    cases unstamped

end

end Exactness

/-- The aggregates that the statistics answer for a declared column are those of its rows exactly when the first values of
the records tally as the merged values. -/
theorem aggregates_exact_iff_firstValuesTally (platform : Platform) (scan : LogsScanExec) (logs : List WrittenLog)
    (stored : Forall₂ (StoredLog platform scan) scan.segments logs) (k : Nat) (declared : DeclaredColumn)
    (located : scan.declared[k]? = some declared) :
    ∃ columns, logs.mapM (fun log => log.object.scanColumn declared) = .ok columns ∧
      (AggregatesExact scan k columns.flatten ↔ FirstValuesTally scan declared logs) := by
  obtain ⟨columns, read, reordered⟩ := scanColumns_perm declared stored
  refine ⟨columns, read, firstValuesTally_of_exact located stored reordered, ?_⟩
  intro tally
  cases stamped : stampTypeOf declared.ty with
  | some statType => exact exact_of_firstValuesTally located stored stamped (reordered statType stamped) tally
  | none =>
    apply exact_of_unstamped located stored stamped
    rintro rfl
    cases read
    rfl

section Shown

variable {Record Value : Type} {first shown : Record → Option Value}

theorem nulls_le_of_shown (records : List Record)
    (kept : ∀ record ∈ records, ∀ value, first record = some value → shown record = some value) :
    ((records.map shown).filter Option.isNone).length ≤ ((records.map first).filter Option.isNone).length := by
  induction records with
  | nil => exact Nat.le_refl 0
  | cons record rest ih =>
    have later := ih fun other member => kept other (mem_cons_of_mem _ member)
    cases own : first record with
    | none => cases found : shown record <;> simp [own, found] <;> omega
    | some value => simpa [own, kept record mem_cons_self value own] using later

/-- Values that are kept under equal null counts are all the values. -/
theorem map_eq_of_shown (records : List Record)
    (kept : ∀ record ∈ records, ∀ value, first record = some value → shown record = some value)
    (nulls : ((records.map first).filter Option.isNone).length = ((records.map shown).filter Option.isNone).length) :
    records.map first = records.map shown := by
  induction records with
  | nil => rfl
  | cons record rest ih =>
    have keptRest : ∀ other ∈ rest, ∀ value, first other = some value → shown other = some value :=
      fun other member => kept other (mem_cons_of_mem _ member)
    have bound := nulls_le_of_shown rest keptRest
    cases own : first record with
    | none =>
      cases found : shown record with
      | none =>
        rw [map_cons, map_cons, own, found, ih keptRest]
        simpa [own, found] using nulls
      | some value =>
        simp [own, found] at nulls
        omega
    | some value =>
      have found := kept record mem_cons_self value own
      rw [map_cons, map_cons, own, found, ih keptRest]
      simpa [own, found] using nulls

end Shown

theorem firstValuesTally_of_shown {platform : Platform} {scan : LogsScanExec} {logs : List WrittenLog}
    (stored : Forall₂ (StoredLog platform scan) scan.segments logs) {declared : DeclaredColumn}
    (declaredIn : declared ∈ scan.declared)
    (shown : ∀ statType, stampTypeOf declared.ty = some statType → ∀ log ∈ logs, ∀ record ∈ log.writer.records,
      ∀ value, firstValue (declared.key, statType) record.attrs = some value →
        declaredValue (viewOf log.plan record) (declared.key, statType) = some value) :
    FirstValuesTally scan declared logs := by
  intro statType stamped
  have same : ∀ {stats segs}, Forall₂ (StoredLog platform scan) segs logs →
      Forall₂ (fun seg log => SummaryShared declared statType stats seg log) segs logs →
        logs.flatMap (firstValues (declared.key, statType)) = logs.flatMap (mergedValues (declared.key, statType)) := by
    intro stats segs storedLogs sharedLogs
    apply flatMap_congr
    intro log logIn
    obtain ⟨position, located⟩ := getElem?_of_mem logIn
    obtain ⟨within, sameLog⟩ := List.getElem?_eq_some_iff.mp located
    have segWithin : position < segs.length := storedLogs.length_eq ▸ within
    have storedLog := (forall₂_iff_get.mp storedLogs).2 position segWithin within
    have sharedLog := (forall₂_iff_get.mp sharedLogs).2 position segWithin within
    simp only [get_eq_getElem, sameLog] at storedLog sharedLog
    obtain ⟨stat, found, sameType, firstExact⟩ := sharedLog.shared
    have mergedExact := storedLog.exact_merged declaredIn stamped found sameType
    apply map_eq_of_shown _ (shown statType stamped log logIn)
    exact firstExact.nulls.symm.trans mergedExact.nulls
  constructor
  · rintro ⟨_, stats, _, _, answers⟩
    rw [same stored (answers.imp fun _ _ answer => answer.1)]
  · rintro ⟨_, _, stats, _, answers⟩
    rw [same stored (answers.imp fun _ _ answer => answer.1)]

/-- A scan of one integer column over one segment with the statistics of its object. -/
def columnScan (object : RlogObject) (sampleCount : Nat) (low high : Int64) : LogsScanExec where
  metadataRewriteStatsAreExact := true
  declared := [⟨"n", .i64⟩]
  distinct := by decide
  segments := [⟨Vector.replicate 32 0, (0, 0, Vector.replicate 16 0, 0, 0), sampleCount,
    [⟨"n", .i64, some (.i64 low), some (.i64 high), 0⟩]⟩]
  columnStats := some [⟨[], [(Vector.replicate 32 0, ⟨(object.tallyObjectColumns [⟨"n", .i64⟩]).toOption.getD []⟩)], .all⟩]

theorem columnScan_stored (sampleCount : Nat) {writer : RlogWriter} {plan : Layout} {object : RlogObject} {low high : Int64}
    {values : List (Option DeclaredStatValue)} (planned : writer.layout = .ok plan)
    (wrote : writer.finish samplePlatform = .ok object) (tallied : (object.tallyObjectColumns [⟨"n", .i64⟩]).toOption.isSome)
    (read : (object.rows.mapM object.mergedView).toOption.any fun views =>
      (views.map fun view => declaredValue view ("n", .i64)) = values)
    (isExact : ExactStat values ⟨"n", .i64, some (.i64 low), some (.i64 high), 0⟩) :
    Forall₂ (StoredLog samplePlatform (columnScan object sampleCount low high))
      (columnScan object sampleCount low high).segments [⟨writer, plan, object⟩] := by
  apply Forall₂.cons _ .nil
  obtain ⟨columns, tally⟩ := Option.isSome_iff_exists.mp tallied
  obtain ⟨views, mapped, same⟩ := (Option.any_eq_true _ _).mp read
  refine ⟨planned, wrote, ?_, ?_⟩
  · rintro stats ⟨⟩ segStats found
    have own : some (⟨columns⟩ : ColumnStatsSegment) = some segStats := by
      rw [← found]
      simp [LoadedColumnStats.statFor, tally]
    cases own
    exact ok_of_toOption tally
  · intro declared declaredIn statType stamped stat found sameType
    rw [mem_singleton.mp declaredIn] at stamped found ⊢
    cases stamped
    have own : (⟨"n", .i64, some (.i64 low), some (.i64 high), 0⟩ : DeclaredColumnStat) = stat := by
      simpa using found
    subst own
    refine ⟨views, ok_of_toOption mapped, ?_⟩
    rw [of_decide_eq_true same]
    exact isExact

/-- The first integer of every record is the one that its view shows. -/
def showsFirst (writer : RlogWriter) (plan : Layout) : Bool :=
  writer.records.all fun record => firstValue ("n", .i64) record.attrs =
    declaredValue (viewOf plan record) ("n", .i64)

/-- The statistics of an object without a repeated name answer exactly. -/
theorem aggregates_exact_sample : ∃ plan object columns, stampedWriter.finish samplePlatform = .ok object ∧
    [(⟨stampedWriter, plan, object⟩ : WrittenLog)].mapM (fun log => log.object.scanColumn ⟨"n", .i64⟩) = .ok columns ∧
      (columnScan object 1 7 7).declaredColumnSum 0 = some ⟨7, 1⟩ ∧
        AggregatesExact (columnScan object 1 7 7) 0 columns.flatten := by
  have sampled : (stampedWriter.finish samplePlatform).toOption.any (fun object =>
      (object.tallyObjectColumns [⟨"n", .i64⟩]).toOption.isSome &&
        ((object.rows.mapM object.mergedView).toOption.any fun views =>
          (views.map fun view => declaredValue view ("n", .i64)) = [some (.i64 7)]) &&
            ((columnScan object 1 7 7).declaredColumnSum 0).any fun answer => answer.sum = 7 ∧ answer.nonNullCount = 1) := by
    decide +kernel
  obtain ⟨object, wrote, tested⟩ := exists_finished sampled
  obtain ⟨described, answered⟩ := (Bool.and_eq_true _ _).mp tested
  obtain ⟨tallied, read⟩ := (Bool.and_eq_true _ _).mp described
  obtain ⟨⟨sum, nonNullCount⟩, answeredSum, isSeven⟩ := (Option.any_eq_true _ _).mp answered
  obtain ⟨rfl, rfl⟩ := of_decide_eq_true isSeven
  obtain ⟨plan, planned, _⟩ := ok_of_bind wrote
  have isExact : ExactStat [some (.i64 7)] ⟨"n", .i64, some (.i64 7), some (.i64 7), 0⟩ := by
    constructor
    · rfl
    · intro none
      exact absurd mem_cons_self (none (.i64 7))
    · intro _
      exact ⟨.i64 7, .i64 7, rfl, rfl, by simp, by simp, by simp⟩
  have stored := columnScan_stored 1 planned wrote tallied read isExact
  have shows : stampedWriter.layout.toOption.any (showsFirst stampedWriter) := by decide +kernel
  have tally : FirstValuesTally (columnScan object 1 7 7) ⟨"n", .i64⟩ [⟨stampedWriter, plan, object⟩] := by
    apply firstValuesTally_of_shown stored mem_cons_self
    rintro statType ⟨⟩ log logIn record recordIn value first
    rw [mem_singleton.mp logIn] at recordIn ⊢
    rw [planned] at shows
    rw [← of_decide_eq_true (all_eq_true.mp shows record recordIn)]
    exact first
  obtain ⟨columns, scanned, exactly⟩ := aggregates_exact_iff_firstValuesTally samplePlatform (columnScan object 1 7 7)
    [⟨stampedWriter, plan, object⟩] stored 0 ⟨"n", .i64⟩ rfl
  exact ⟨plan, object, columns, wrote, scanned, answeredSum, exactly.mpr tally⟩

/-- Three records of an integer column. The first record sets it twice. -/
def shadowedSumWriter : RlogWriter where
  cfg := sampleConfig 4
  records := [sampleRecord [("n", .i64 5), ("n", .i64 7)], sampleRecord [("n", .i64 1)], sampleRecord [("n", .i64 9)]]
  indexedFields := []
  keyIndexFields := []
  bloomScope := .text
  cluster := none
  fits := by decide +kernel

/-- The stamp agrees with the entry, and the sum of the entry is not that of the rows. -/
theorem sum_counts_shadowed_value : ∃ plan object column,
    Forall₂ (StoredLog samplePlatform (columnScan object 3 1 9)) (columnScan object 3 1 9).segments
      [⟨shadowedSumWriter, plan, object⟩] ∧
    object.scanColumn ⟨"n", .i64⟩ = .ok column ∧ (column.reduceOption.map ScalarValue.toInt).sum = 17 ∧
      (columnScan object 3 1 9).declaredColumnSum 0 = some ⟨15, 3⟩ ∧
        ¬AggregatesExact (columnScan object 3 1 9) 0 column := by
  have sampled : (shadowedSumWriter.finish samplePlatform).toOption.any (fun object =>
      (object.tallyObjectColumns [⟨"n", .i64⟩]).toOption.isSome &&
        ((object.rows.mapM object.mergedView).toOption.any fun views =>
          (views.map fun view => declaredValue view ("n", .i64)) = [some (.i64 7), some (.i64 1), some (.i64 9)]) &&
            (((object.scanColumn ⟨"n", .i64⟩).toOption.any fun column =>
              (column.reduceOption.map ScalarValue.toInt).sum = 17) &&
                ((columnScan object 3 1 9).declaredColumnSum 0).any
                  fun answer => answer.sum = 15 ∧ answer.nonNullCount = 3)) := by
    decide +kernel
  obtain ⟨object, wrote, tested⟩ := exists_finished sampled
  obtain ⟨described, compared⟩ := (Bool.and_eq_true _ _).mp tested
  obtain ⟨tallied, read⟩ := (Bool.and_eq_true _ _).mp described
  obtain ⟨scanned, answered⟩ := (Bool.and_eq_true _ _).mp compared
  obtain ⟨column, columnRead, isSeventeen⟩ := (Option.any_eq_true _ _).mp scanned
  obtain ⟨⟨sum, nonNullCount⟩, answeredSum, isFifteen⟩ := (Option.any_eq_true _ _).mp answered
  obtain ⟨rfl, rfl⟩ := of_decide_eq_true isFifteen
  obtain ⟨plan, planned, _⟩ := ok_of_bind wrote
  have isExact : ExactStat [some (.i64 7), some (.i64 1), some (.i64 9)]
      ⟨"n", .i64, some (.i64 1), some (.i64 9), 0⟩ := by
    constructor
    · rfl
    · intro none
      exact absurd mem_cons_self (none (.i64 7))
    · intro _
      refine ⟨.i64 1, .i64 9, rfl, rfl, by simp, by simp, ?_⟩
      intro value valueIn
      simp only [mem_cons, Option.some.injEq, not_mem_nil, or_false] at valueIn
      rcases valueIn with rfl | rfl | rfl <;> decide
  refine ⟨plan, object, column, columnScan_stored 3 planned wrote tallied read isExact, ok_of_toOption columnRead,
    of_decide_eq_true isSeventeen, answeredSum, ?_⟩
  intro exactly
  have sameSum := (exactly.sum _ answeredSum).1
  rw [of_decide_eq_true isSeventeen] at sameSum
  cases sameSum

end Ravel.Logs
