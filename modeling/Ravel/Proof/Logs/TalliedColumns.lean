import Ravel.Proof.Logs.ShadowedValues
import Ravel.Proof.Maintain.DeclaredStamps

namespace Ravel.Logs

open List Library Maintain RlogWriter

namespace RlogObject

section Tallies

variable {object : RlogObject} {typedColumns : List DeclaredColumn} {column : DeclaredColumn} {key : String}
  {tallies next : List (String × ColumnTally)} {block : List ResolvedRow}

@[simp] theorem tallyOf_setTally_self (tallies : List (String × ColumnTally)) (key : String) (tally : ColumnTally) :
    tallyOf (setTally tallies key tally) key = some tally := by
  simp [tallyOf, setTally]

theorem tallyOf_setTally_of_ne {other : String} (different : other ≠ key) (tallies : List (String × ColumnTally))
    (tally : ColumnTally) : tallyOf (setTally tallies other tally) key = tallyOf tallies key := by
  have kept : ((tallies.filter fun entry => entry.1 ≠ other).find? fun entry => entry.1 = key) =
      tallies.find? fun entry => entry.1 = key := by
    rw [find?_filter]
    apply find?_congr
    intro entry _
    by_cases own : entry.1 = key
    · simp [own, different.symm]
    · simp [own]
  rw [tallyOf, setTally, find?_cons_of_neg (by simpa using different), kept, tallyOf]

theorem setTally_distinct (distinct : (tallies.map Prod.fst).Nodup) (key : String) (tally : ColumnTally) :
    ((setTally tallies key tally).map Prod.fst).Nodup := by
  rw [setTally, map_cons, nodup_cons]
  refine ⟨?_, distinct.sublist (filter_sublist.map Prod.fst)⟩
  intro listed
  obtain ⟨entry, entryIn, same⟩ := mem_map.mp listed
  exact of_decide_eq_true (mem_filter.mp entryIn).2 same

theorem tallyColumn_distinct (distinct : (tallies.map Prod.fst).Nodup)
    (tallied : object.tallyColumn block tallies column = .ok next) : (next.map Prod.fst).Nodup := by
  rw [tallyColumn] at tallied
  split at tallied
  · cases tallied
    exact distinct
  · obtain ⟨tally, _, returned⟩ := ok_of_bind tallied
    cases returned
    exact setTally_distinct distinct _ _

theorem tallyColumn_other (untouched : column.key = key → object.column column.key column.ty.fieldType = none)
    (tallied : object.tallyColumn block tallies column = .ok next) : tallyOf next key = tallyOf tallies key := by
  rw [tallyColumn] at tallied
  split at tallied
  · cases tallied
    rfl
  · rename_i attr found
    obtain ⟨tally, _, returned⟩ := ok_of_bind tallied
    cases returned
    apply tallyOf_setTally_of_ne
    intro same
    rw [untouched same] at found
    cases found

theorem tallyBlock_other
    (untouched : ∀ column ∈ typedColumns, column.key = key → object.column column.key column.ty.fieldType = none) :
    ∀ {tallies next : List (String × ColumnTally)}, object.tallyBlock typedColumns tallies block = .ok next →
      tallyOf next key = tallyOf tallies key := by
  induction typedColumns with
  | nil =>
    intro tallies next tallied
    cases tallied
    rfl
  | cons first rest ih =>
    intro tallies next tallied
    rw [tallyBlock, foldlM_cons] at tallied
    obtain ⟨middle, stepped, continued⟩ := ok_of_bind tallied
    rw [ih (fun column member => untouched column (mem_cons_of_mem _ member)) continued]
    exact tallyColumn_other (untouched first mem_cons_self) stepped

theorem tallyBlock_own (distinct : (typedColumns.map DeclaredColumn.key).Nodup) (member : column ∈ typedColumns)
    {attr : Column} (found : object.column column.key column.ty.fieldType = some attr) :
    ∀ {tallies next : List (String × ColumnTally)}, object.tallyBlock typedColumns tallies block = .ok next →
      ∃ tally, block.foldlM (tallyRow column attr.columnId) ((tallyOf tallies column.key).getD (.new column.ty)) = .ok tally ∧
        tallyOf next column.key = some tally := by
  induction typedColumns with
  | nil => cases member
  | cons first rest ih =>
    intro tallies next tallied
    obtain ⟨fresh, restDistinct⟩ := nodup_cons.mp distinct
    rw [tallyBlock, foldlM_cons] at tallied
    obtain ⟨middle, stepped, continued⟩ := ok_of_bind tallied
    rcases mem_cons.mp member with own | later
    · subst own
      rw [tallyColumn, found] at stepped
      obtain ⟨tally, folded, returned⟩ := ok_of_bind stepped
      cases returned
      refine ⟨tally, folded, ?_⟩
      rw [tallyBlock_other _ continued, tallyOf_setTally_self]
      intro other otherIn same
      exact absurd (mem_map_of_mem otherIn) (same ▸ fresh)
    · have different : first.key ≠ column.key := by
        intro same
        exact fresh (same ▸ mem_map_of_mem later)
      obtain ⟨tally, folded, stored⟩ := ih restDistinct later continued
      rw [tallyColumn_other (fun same => absurd same different) stepped] at folded
      exact ⟨tally, folded, stored⟩

theorem tallyBlock_distinct : ∀ {tallies next : List (String × ColumnTally)}, (tallies.map Prod.fst).Nodup →
    object.tallyBlock typedColumns tallies block = .ok next → (next.map Prod.fst).Nodup := by
  induction typedColumns with
  | nil =>
    intro tallies next distinct tallied
    cases tallied
    exact distinct
  | cons first rest ih =>
    intro tallies next distinct tallied
    rw [tallyBlock, foldlM_cons] at tallied
    obtain ⟨middle, stepped, continued⟩ := ok_of_bind tallied
    exact ih (tallyColumn_distinct distinct stepped) continued

theorem tallyBlocks_own (distinct : (typedColumns.map DeclaredColumn.key).Nodup) (member : column ∈ typedColumns)
    {attr : Column} (found : object.column column.key column.ty.fieldType = some attr) (blocks : List (List ResolvedRow)) :
    ∀ {tallies next : List (String × ColumnTally)}, blocks.foldlM (object.tallyBlock typedColumns) tallies = .ok next →
      ∃ tally, blocks.flatten.foldlM (tallyRow column attr.columnId) ((tallyOf tallies column.key).getD (.new column.ty)) =
          .ok tally ∧
        (tallyOf next column.key).getD (.new column.ty) = tally ∧
        ((tallyOf tallies column.key).isSome ∨ blocks ≠ [] → (tallyOf next column.key).isSome) := by
  induction blocks with
  | nil =>
    intro tallies next tallied
    cases tallied
    exact ⟨_, rfl, rfl, fun present => present.resolve_right (· rfl)⟩
  | cons block rest ih =>
    intro tallies next tallied
    rw [foldlM_cons] at tallied
    obtain ⟨middle, stepped, continued⟩ := ok_of_bind tallied
    obtain ⟨first, folded, stored⟩ := tallyBlock_own distinct member found stepped
    obtain ⟨tally, restFolded, read, present⟩ := ih continued
    rw [stored] at restFolded present
    refine ⟨tally, ?_, read, fun _ => present (.inl rfl)⟩
    rw [flatten_cons, foldlM_append, folded]
    exact restFolded

theorem tallyBlocks_other
    (untouched : ∀ column ∈ typedColumns, column.key = key → object.column column.key column.ty.fieldType = none)
    (blocks : List (List ResolvedRow)) :
    ∀ {tallies next : List (String × ColumnTally)}, blocks.foldlM (object.tallyBlock typedColumns) tallies = .ok next →
      tallyOf next key = tallyOf tallies key := by
  induction blocks with
  | nil =>
    intro tallies next tallied
    cases tallied
    rfl
  | cons block rest ih =>
    intro tallies next tallied
    rw [foldlM_cons] at tallied
    obtain ⟨middle, stepped, continued⟩ := ok_of_bind tallied
    rw [ih continued, tallyBlock_other untouched stepped]

theorem tallyBlocks_distinct (blocks : List (List ResolvedRow)) : ∀ {tallies next : List (String × ColumnTally)},
    (tallies.map Prod.fst).Nodup → blocks.foldlM (object.tallyBlock typedColumns) tallies = .ok next →
      (next.map Prod.fst).Nodup := by
  induction blocks with
  | nil =>
    intro tallies next distinct tallied
    cases tallied
    exact distinct
  | cons block rest ih =>
    intro tallies next distinct tallied
    rw [foldlM_cons] at tallied
    obtain ⟨middle, stepped, continued⟩ := ok_of_bind tallied
    exact ih (tallyBlock_distinct distinct stepped) continued

@[simp] theorem toProto_name (tally : ColumnTally) (name : String) : (tally.toProto name).name = name := by
  cases state : tally.state <;> simp [ColumnTally.toProto, state]

theorem uniqueColumnStat_toProto (distinct : (tallies.map Prod.fst).Nodup) (key : String) :
    uniqueColumnStat ((tallies.map fun entry => entry.2.toProto entry.1).insertionSort
        fun left right => nameLe left.name right.name) key =
      (tallyOf tallies key).map fun tally => tally.toProto key := by
  have unique : AtMostOne (fun entry : String × ColumnTally => entry.1 = key) tallies :=
    atMostOne_key distinct _
  have reordered : (((tallies.map fun entry => entry.2.toProto entry.1).insertionSort
        fun left right => nameLe left.name right.name).filter fun column => column.name = key).Perm
      ((tallies.filter fun entry => entry.1 = key).map fun entry => entry.2.toProto entry.1) := by
    apply ((perm_insertionSort _ _).filter _).trans
    rw [filter_map]
    simp [Function.comp_def]
  cases found : tallies.find? fun entry => entry.1 = key with
  | none =>
    have empty : (tallies.filter fun entry => entry.1 = key) = [] := by
      rw [filter_eq_nil_iff]
      exact find?_eq_none.mp found
    rw [empty, map_nil, perm_nil] at reordered
    rw [uniqueColumnStat, reordered, tallyOf, found]
    rfl
  | some entry =>
    have passes := find?_some found
    have named : entry.1 = key := of_decide_eq_true passes
    rw [unique.filter_eq_singleton (mem_of_find?_eq_some found) passes, map_singleton,
      perm_singleton] at reordered
    rw [uniqueColumnStat, reordered, tallyOf, found]
    simp [named]

end Tallies

end RlogObject

section Folded

variable {Value : Type} [LE Value] [DecidableLE Value] [DecidableEq Value]

def foldedOf (values : List Value) : FoldedValues Value := values.foldl FoldedValues.foldValue .empty

theorem foldedOf_append (values : List Value) (value : Value) :
    foldedOf (values ++ [value]) = (foldedOf values).foldValue value := by
  rw [foldedOf, foldl_append]
  rfl

/-- A dictionary under the ceiling holds the count of every value. -/
theorem foldedOf_dict (values : List Value) : (foldedOf values).dict =
    if (countKeys values).length ≤ defaultMaxColumnDictionaryEntries then some (countKeys values) else none := by
  induction values using reverseRecOn with
  | nil => rfl
  | append_singleton values value ih =>
    have grows : (countKeys values).length ≤ (countKeys (values ++ [value])).length := by
      rw [countKeys_append]
      exact length_le_addCount value 1 _
    have step : ((foldedOf values).foldValue value).dict = (foldedOf values).dict.bind fun counts =>
        if defaultMaxColumnDictionaryEntries < (addCount value 1 counts).length then none
        else some (addCount value 1 counts) := rfl
    rw [foldedOf_append, step, ih]
    by_cases fits : (countKeys values).length ≤ defaultMaxColumnDictionaryEntries
    · rw [if_pos fits, Option.bind_some, ← countKeys_append]
      by_cases exceeds : defaultMaxColumnDictionaryEntries < (countKeys (values ++ [value])).length
      · rw [if_pos exceeds, if_neg (by omega)]
      · rw [if_neg exceeds, if_pos (by omega)]
    · rw [if_neg fits, if_neg (by omega)]
      rfl

theorem foldedOf_extrema {rank : Value → Int} (ordered : ∀ left right, left ≤ right ↔ rank left ≤ rank right)
    {values : List Value} (nonempty : values ≠ []) :
    ∃ low high, (foldedOf values).min = some low ∧ (foldedOf values).max = some high ∧ low ∈ values ∧ high ∈ values ∧
      ∀ value ∈ values, rank low ≤ rank value ∧ rank value ≤ rank high := by
  induction values using reverseRecOn with
  | nil => exact absurd rfl nonempty
  | append_singleton values value ih =>
    rw [foldedOf_append]
    by_cases first : values = []
    · subst first
      exact ⟨value, value, rfl, rfl, by simp, by simp, by simp⟩
    · obtain ⟨low, high, minEq, maxEq, lowIn, highIn, bounds⟩ := ih first
      have newLow : ∃ newLow, ((foldedOf values).foldValue value).min = some newLow ∧ newLow ∈ values ++ [value] ∧
          rank newLow ≤ rank low ∧ rank newLow ≤ rank value := by
        simp only [FoldedValues.foldValue, minEq]
        by_cases below : low ≤ value
        · exact ⟨low, if_pos below, mem_append_left _ lowIn, le_refl _, (ordered _ _).mp below⟩
        · rw [if_neg below]
          rw [ordered, not_le] at below
          exact ⟨value, rfl, by simp, le_of_lt below, le_refl _⟩
      have newHigh : ∃ newHigh, ((foldedOf values).foldValue value).max = some newHigh ∧ newHigh ∈ values ++ [value] ∧
          rank high ≤ rank newHigh ∧ rank value ≤ rank newHigh := by
        simp only [FoldedValues.foldValue, maxEq]
        by_cases below : value ≤ high
        · exact ⟨high, if_pos below, mem_append_left _ highIn, le_refl _, (ordered _ _).mp below⟩
        · rw [if_neg below]
          rw [ordered, not_le] at below
          exact ⟨value, rfl, by simp, le_of_lt below, le_refl _⟩
      obtain ⟨newLow, newMin, newLowIn, lowBelow, lowValue⟩ := newLow
      obtain ⟨newHigh, newMax, newHighIn, highAbove, highValue⟩ := newHigh
      refine ⟨newLow, newHigh, newMin, newMax, newLowIn, newHighIn, ?_⟩
      intro other otherIn
      rcases mem_append.mp otherIn with old | new
      · exact ⟨lowBelow.trans (bounds other old).1, (bounds other old).2.trans highAbove⟩
      · rw [mem_singleton.mp new]
        exact ⟨lowValue, highValue⟩

end Folded

/-- The statistics value of a stamped value. -/
def cstatOf : DeclaredStatValue → CstatValue
  | .i64 value => .i64 value
  | .bool value => .b value

/-- The entry states the extrema, the counts and the dictionary of the cells. -/
structure Tallied (cells : List (Option DeclaredStatValue)) (stat : ColumnStat) : Prop where
  nonNulls : stat.nonNullCount = cells.reduceOption.length
  extrema : ∃ exact_ : DeclaredColumnStat, ExactStat cells exact_ ∧ stat.min = exact_.min.map cstatOf ∧
    stat.max = exact_.max.map cstatOf ∧ stat.nullCount = exact_.nullCount
  present : stat.dictionaryPresent =
    decide ((countKeys cells.reduceOption).length ≤ defaultMaxColumnDictionaryEntries)
  dictionary : stat.dictionaryPresent →
    stat.dictionary = (countKeys cells.reduceOption).map fun entry => (cstatOf entry.1, entry.2)

section Observed

variable {Value : Type} [LE Value] [DecidableLE Value] [DecidableEq Value]

/-- The statistics of folded cells, under a wrapping that keeps their order. -/
theorem tallied_of_folded {wrap : Value → DeclaredStatValue} (injective : Function.Injective wrap)
    (ordered : ∀ left right, left ≤ right ↔ (wrap left).orderRank ≤ (wrap right).orderRank) (cells : List (Option Value))
    {stat : ColumnStat} (nonNulls : stat.nonNullCount = cells.reduceOption.length)
    (nulls : stat.nullCount = (cells.filter Option.isNone).length)
    (min : stat.min = (foldedOf cells.reduceOption).min.map (cstatOf ∘ wrap))
    (max : stat.max = (foldedOf cells.reduceOption).max.map (cstatOf ∘ wrap))
    (present : stat.dictionaryPresent = (foldedOf cells.reduceOption).dict.isSome)
    (dictionary : stat.dictionary =
      ((foldedOf cells.reduceOption).dict.getD []).map fun entry => (cstatOf (wrap entry.1), entry.2)) :
    Tallied (cells.map (Option.map wrap)) stat := by
  have member : ∀ value, some value ∈ cells.map (Option.map wrap) ↔ ∃ raw ∈ cells.reduceOption, wrap raw = value := by
    intro value
    simp [reduceOption_mem_iff]
  have images : countKeys (cells.reduceOption.map wrap) =
      (countKeys cells.reduceOption).map fun entry => (wrap entry.1, entry.2) := countKeys_map injective _
  have reduced : (cells.map (Option.map wrap)).reduceOption = cells.reduceOption.map wrap := reduceOption_map
  constructor
  · rw [nonNulls, reduced, length_map]
  · have sameNulls : ((cells.map (Option.map wrap)).filter Option.isNone).length = (cells.filter Option.isNone).length := by
      rw [filter_map, length_map]
      simp [Function.comp_def]
    by_cases empty : cells.reduceOption = []
    · refine ⟨⟨"", .i64, none, none, stat.nullCount⟩, ⟨?_, fun _ => ⟨rfl, rfl⟩, ?_⟩, ?_, ?_, rfl⟩
      · rw [sameNulls]
        exact nulls
      · rintro ⟨value, valueIn⟩
        obtain ⟨raw, rawIn, _⟩ := (member value).mp valueIn
        rw [empty] at rawIn
        cases rawIn
      · rw [min, empty]
        rfl
      · rw [max, empty]
        rfl
    · obtain ⟨low, high, minEq, maxEq, lowIn, highIn, bounds⟩ := foldedOf_extrema ordered empty
      refine ⟨⟨"", .i64, some (wrap low), some (wrap high), stat.nullCount⟩, ⟨?_, ?_, ?_⟩, ?_, ?_, rfl⟩
      · rw [sameNulls]
        exact nulls
      · intro none
        exact absurd ((member _).mpr ⟨low, lowIn, rfl⟩) (none _)
      · intro _
        refine ⟨wrap low, wrap high, rfl, rfl, (member _).mpr ⟨low, lowIn, rfl⟩, (member _).mpr ⟨high, highIn, rfl⟩, ?_⟩
        intro value valueIn
        obtain ⟨raw, rawIn, rfl⟩ := (member value).mp valueIn
        exact bounds raw rawIn
      · rw [min, minEq]
        rfl
      · rw [max, maxEq]
        rfl
  · rw [present, foldedOf_dict, reduced, images, length_map]
    split <;> simp_all
  · intro kept
    rw [present, foldedOf_dict] at kept
    rw [dictionary, foldedOf_dict, reduced, images, map_map]
    split at kept
    · rename_i fits
      rw [if_pos fits]
      rfl
    · cases kept

theorem foldl_observeI64 (cells : List (Option Int64)) : cells.foldl ColumnTally.observeI64 (.new .i64) =
    ⟨.i64, cells.reduceOption.length, (cells.filter Option.isNone).length,
      .i64 (foldedOf cells.reduceOption) (cells.reduceOption.map Int64.toInt).sum⟩ := by
  induction cells using reverseRecOn with
  | nil => rfl
  | append_singleton cells cell ih =>
    rw [foldl_append, ih, reduceOption_append]
    cases cell with
    | none => simp [ColumnTally.observeI64, ColumnTally.observe, reduceOption_singleton]
    | some value =>
      simp [ColumnTally.observeI64, ColumnTally.observe, reduceOption_singleton, foldedOf_append]

theorem foldl_observeBool (cells : List (Option Bool)) : cells.foldl ColumnTally.observeBool (.new .bool) =
    ⟨.bool, cells.reduceOption.length, (cells.filter Option.isNone).length, .bool (foldedOf cells.reduceOption)⟩ := by
  induction cells using reverseRecOn with
  | nil => rfl
  | append_singleton cells cell ih =>
    rw [foldl_append, ih, reduceOption_append]
    cases cell with
    | none => simp [ColumnTally.observeBool, ColumnTally.observe, reduceOption_singleton]
    | some value =>
      simp [ColumnTally.observeBool, ColumnTally.observe, reduceOption_singleton, foldedOf_append]

end Observed

/-- The storage type of a stamped column. -/
def DeclaredStatType.fieldType : DeclaredStatType → FieldType
  | .i64 => .i64
  | .bool => .bool

/-- The first value that the attributes give a column under its type. -/
def firstValue (column : String × DeclaredStatType) (attrs : List (String × AttrValue)) : Option DeclaredStatValue :=
  (attrs.find? fun attr => typedPair attr = (column.1, column.2.fieldType)).bind fun attr => typedStat column.2 attr.2

section Rows

variable {platform : Platform} {writer : RlogWriter} {plan : Layout} {rows : List (RlogRecord × ResolvedRow)}
  {object : RlogObject} {record : RlogRecord} {row : ResolvedRow}

theorem i64At_row (finished : Finished platform writer plan rows object) (member : (record, row) ∈ rows) {column : Column}
    (columnIn : column ∈ plan.columns) (typed : column.ty = .i64) :
    (i64At row column.columnId).map DeclaredStatValue.i64 = firstValue (column.name, .i64) record.attrs := by
  have pair : column.pair = (column.name, DeclaredStatType.i64.fieldType) := Prod.ext rfl typed
  rw [i64At, cellOf_row_eq_first finished member columnIn, pair, firstValue]
  cases found : record.attrs.find? fun attr => typedPair attr = (column.name, DeclaredStatType.i64.fieldType) with
  | none => rfl
  | some attr =>
    have passes := find?_some found
    have stored : (resolveValue attr.2).1 = .i64 := congrArg Prod.snd (of_decide_eq_true passes)
    cases value : attr.2 <;> rw [value] at stored <;> cases stored
    simp [value, resolveValue, typedStat]

theorem boolAt_row (finished : Finished platform writer plan rows object) (member : (record, row) ∈ rows) {column : Column}
    (columnIn : column ∈ plan.columns) (typed : column.ty = .bool) :
    (boolAt row column.columnId).map DeclaredStatValue.bool = firstValue (column.name, .bool) record.attrs := by
  have pair : column.pair = (column.name, DeclaredStatType.bool.fieldType) := Prod.ext rfl typed
  rw [boolAt, cellOf_row_eq_first finished member columnIn, pair, firstValue]
  cases found : record.attrs.find? fun attr => typedPair attr = (column.name, DeclaredStatType.bool.fieldType) with
  | none => rfl
  | some attr =>
    have passes := find?_some found
    have stored : (resolveValue attr.2).1 = .bool := congrArg Prod.snd (of_decide_eq_true passes)
    cases value : attr.2 <;> rw [value] at stored <;> cases stored
    simp [value, resolveValue, typedStat]

theorem i64_le_iff (left right : Int64) :
    left ≤ right ↔ (DeclaredStatValue.i64 left).orderRank ≤ (DeclaredStatValue.i64 right).orderRank :=
  Int64.le_iff_toInt_le

theorem bool_le_iff (left right : Bool) :
    left ≤ right ↔ (DeclaredStatValue.bool left).orderRank ≤ (DeclaredStatValue.bool right).orderRank := by
  cases left <;> cases right <;> decide

theorem tallied_rows (finished : Finished platform writer plan rows object) {column : DeclaredColumn}
    {statType : DeclaredStatType} (stamped : stampTypeOf column.ty = some statType) {attr : Column}
    (found : object.column column.key column.ty.fieldType = some attr) {tally : ColumnTally}
    (folded : object.rows.foldlM (RlogObject.tallyRow column attr.columnId) (.new column.ty) = .ok tally) :
    Tallied (rows.map fun pair => firstValue (column.key, statType) pair.1.attrs) (tally.toProto column.key) ∧
      (statType = .i64 → (tally.toProto column.key).sum =
        ColumnTally.tryI64 (((rows.map fun pair => firstValue (column.key, statType) pair.1.attrs).reduceOption.map
          DeclaredStatValue.orderRank).sum)) := by
  obtain ⟨attrIn, paired⟩ := (objectColumn_eq finished).mp found
  obtain ⟨key, ty⟩ := column
  obtain ⟨rfl, typed⟩ := Prod.mk.inj paired
  rw [finished.objectRows] at folded
  cases ty with
  | str => cases stamped
  | bytes => cases stamped
  | i64 =>
    cases stamped
    have cells : (rows.map fun pair => firstValue (attr.name, .i64) pair.1.attrs) =
        ((rows.map Prod.snd).map fun row => i64At row attr.columnId).map (Option.map DeclaredStatValue.i64) := by
      rw [map_map, map_map]
      apply map_congr_left
      intro pair member
      exact (i64At_row finished member attrIn typed).symm
    have observed : tally = ((rows.map Prod.snd).map fun row => i64At row attr.columnId).foldl
        ColumnTally.observeI64 (.new .i64) := by
      rw [foldl_map]
      exact (Except.ok.inj (folded.symm.trans (foldlM_pure ..)))
    rw [observed, foldl_observeI64, cells]
    refine ⟨tallied_of_folded (fun _ _ => DeclaredStatValue.i64.inj) i64_le_iff _ rfl rfl rfl rfl rfl rfl, ?_⟩
    intro _
    have ranks : ∀ values : List Int64, (values.map DeclaredStatValue.i64).map DeclaredStatValue.orderRank =
        values.map Int64.toInt := by
      intro values
      rw [map_map]
      rfl
    rw [reduceOption_map, ranks]
    rfl
  | bool =>
    cases stamped
    have cells : (rows.map fun pair => firstValue (attr.name, .bool) pair.1.attrs) =
        ((rows.map Prod.snd).map fun row => boolAt row attr.columnId).map (Option.map DeclaredStatValue.bool) := by
      rw [map_map, map_map]
      apply map_congr_left
      intro pair member
      exact (boolAt_row finished member attrIn typed).symm
    have observed : tally = ((rows.map Prod.snd).map fun row => boolAt row attr.columnId).foldl
        ColumnTally.observeBool (.new .bool) := by
      rw [foldl_map]
      exact (Except.ok.inj (folded.symm.trans (foldlM_pure ..)))
    rw [observed, foldl_observeBool, cells]
    refine ⟨tallied_of_folded (fun _ _ => DeclaredStatValue.bool.inj) bool_le_iff _ rfl rfl rfl rfl rfl rfl, ?_⟩
    intro other
    cases other

/-- The statistics of an object hold an entry of a column exactly when the object has the column. -/
theorem entry_of_tally (finished : Finished platform writer plan rows object) {typedColumns : List DeclaredColumn}
    (distinct : (typedColumns.map DeclaredColumn.key).Nodup) {column : DeclaredColumn} (member : column ∈ typedColumns)
    {columns : List ColumnStat} (tallied : object.tallyObjectColumns typedColumns = .ok columns) :
    match object.column column.key column.ty.fieldType with
    | none => uniqueColumnStat columns column.key = none
    | some attr => ∃ tally,
        object.rows.foldlM (RlogObject.tallyRow column attr.columnId) (.new column.ty) = .ok tally ∧
          uniqueColumnStat columns column.key = some (tally.toProto column.key) := by
  obtain ⟨tallies, folded, returned⟩ := ok_of_bind tallied
  cases returned
  have distinctTallies : (tallies.map Prod.fst).Nodup := by
    apply RlogObject.tallyBlocks_distinct object.blocks _ folded
    exact nodup_nil
  rw [RlogObject.uniqueColumnStat_toProto distinctTallies]
  cases found : object.column column.key column.ty.fieldType with
  | none =>
    have untouched : ∀ other ∈ typedColumns, other.key = column.key →
        object.column other.key other.ty.fieldType = none := by
      intro other otherIn same
      rw [inj_on_of_nodup_map distinct otherIn member same]
      exact found
    simp only [RlogObject.tallyBlocks_other untouched _ folded]
    rfl
  | some attr =>
    obtain ⟨tally, rowsFolded, read, present⟩ := RlogObject.tallyBlocks_own distinct member found _ folded
    have blocks : object.blocks ≠ [] := by
      intro none
      have empty : object.rows = [] := by rw [RlogObject.rows, none]; rfl
      rw [finished.objectRows, map_eq_nil_iff] at empty
      have records := finished.records_perm
      rw [empty] at records
      exact finished.planned.nonempty (nil_perm.mp records)
    obtain ⟨stored, storedEq⟩ := Option.isSome_iff_exists.mp (present (.inr blocks))
    rw [storedEq, Option.getD_some] at read
    refine ⟨tally, rowsFolded, ?_⟩
    rw [storedEq, read]
    rfl

end Rows

end Ravel.Logs
