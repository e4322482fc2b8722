import Mathlib.Tactic
import Ravel.Construction.Logs.ObjectIndexes
import Ravel.Library.KeyedLists
import Ravel.Library.StableSorts

namespace Ravel.Logs

open List Library

def Column.pair (column : Column) : String × FieldType :=
  (column.name, column.ty)

/-- No two columns share a pair or an id. -/
structure DistinctColumns (columns : List Column) : Prop where
  pairs : (columns.map Column.pair).Nodup
  ids : (columns.map Column.columnId).Nodup

/-- The column id of a pair. -/
def columnOf (columns : List Column) (pair : String × FieldType) : Option Nat :=
  columnLookup columns pair.1 pair.2

section Columns

variable {columns : List Column}

theorem columnLookup_eq_some_iff (distinct : DistinctColumns columns) {name : String} {ty : FieldType} {columnId : Nat} :
    columnLookup columns name ty = some columnId ↔ (⟨name, ty, columnId⟩ : Column) ∈ columns := by
  have unique : AtMostOne (fun column : Column => column.name = name && column.ty = ty) columns := by
    apply atMostOne_of_key distinct.pairs
    intro left _ right _ leftPasses rightPasses
    simp only [Bool.and_eq_true, decide_eq_true_eq] at leftPasses rightPasses
    simp [Column.pair, leftPasses, rightPasses]
  rw [columnLookup, Option.map_eq_some_iff]
  constructor
  · rintro ⟨column, found, same⟩
    have passes := find?_some found
    simp only [Bool.and_eq_true, decide_eq_true_eq] at passes
    have member := mem_of_find?_eq_some found
    rw [← passes.1, ← passes.2, ← same]
    exact member
  · intro member
    exact ⟨_, unique.find?_eq_some member (by simp), rfl⟩

theorem columnOf_injective (distinct : DistinctColumns columns) {left right : String × FieldType} {columnId : Nat}
    (leftColumn : columnOf columns left = some columnId) (rightColumn : columnOf columns right = some columnId) :
    left = right := by
  have leftIn := (columnLookup_eq_some_iff distinct).mp leftColumn
  have rightIn := (columnLookup_eq_some_iff distinct).mp rightColumn
  have same := inj_on_of_nodup_map distinct.ids leftIn rightIn rfl
  injection same with names types
  exact Prod.ext names types

theorem columnOf_mem (distinct : DistinctColumns columns) {column : Column} (member : column ∈ columns) :
    columnOf columns column.pair = some column.columnId :=
  (columnLookup_eq_some_iff distinct).mpr member

end Columns

theorem columnOf_isSome_iff {columns : List Column} (distinct : DistinctColumns columns) {pair : String × FieldType} :
    (columnOf columns pair).isSome ↔ pair ∈ columns.map Column.pair := by
  rw [Option.isSome_iff_exists, mem_map]
  constructor
  · rintro ⟨columnId, found⟩
    exact ⟨_, (columnLookup_eq_some_iff distinct).mp found, rfl⟩
  · rintro ⟨column, member, rfl⟩
    exact ⟨_, columnOf_mem distinct member⟩

theorem assignColumns_pairs (distinct : List (String × FieldType)) (cfg : RlogConfig) :
    (assignColumns distinct cfg).map Column.pair =
      (dynamicColumnOrder distinct cfg.chunkOrder).take cfg.maxDynamicColumns := by
  rw [assignColumns, map_map]
  exact zipIdx_map_fst 0 _

theorem dynamicColumnOrder_perm (distinct : List (String × FieldType)) (chunkOrder : List String) :
    (dynamicColumnOrder distinct chunkOrder).Perm distinct := by
  apply ((perm_insertionSort _ _).append_right _).trans
  exact filter_append_perm (fun pair : String × FieldType => chunkOrder.contains pair.1) distinct

/-- The first pairs of a column order get one column each. -/
theorem assignColumns_distinct {distinct : List (String × FieldType)} (nodup : distinct.Nodup) (cfg : RlogConfig) :
    DistinctColumns (assignColumns distinct cfg) := by
  have ordered := (dynamicColumnOrder_perm distinct cfg.chunkOrder).nodup_iff.mpr nodup
  have positions : (assignColumns distinct cfg).map Column.columnId =
      (List.range' 0 ((dynamicColumnOrder distinct cfg.chunkOrder).take cfg.maxDynamicColumns).length).map
        (firstDynamicCol + ·) := by
    rw [assignColumns, map_map, ← zipIdx_map_snd 0, map_map]
    rfl
  constructor
  · rw [assignColumns_pairs]
    exact ordered.sublist (take_sublist _ _)
  · rw [positions]
    exact Nodup.map (fun left right same => Nat.add_left_cancel same) (nodup_range' ..)

theorem distinctPairs_nodup (records : List RlogRecord) (streamPairs : List (String × AttrValue))
    (indexedFields : List String) : (distinctPairs records streamPairs indexedFields).Nodup :=
  (perm_insertionSort _ _).nodup_iff.mpr (nodup_dedup _)

/-- The attributes of one record between its columns and its overflow, in encounter order. -/
structure Placement where
  columnar : List (String × AttrValue)
  overflow : List (String × AttrValue)

/-- The placement takes the next attribute. -/
def placeAttr (columns : List Column) (placed : Placement) (attr : String × AttrValue) : Placement :=
  if (columnOf columns (typedPair attr)).isSome && !(placed.columnar.any fun other => typedPair other = typedPair attr) then
    { placed with columnar := placed.columnar ++ [attr] }
  else { placed with overflow := placed.overflow ++ [attr] }

def placeAttrs (columns : List Column) (attrs : List (String × AttrValue)) : Placement :=
  attrs.foldl (placeAttr columns) ⟨[], []⟩

/-- What the placement of a list of attributes keeps. -/
structure Placed (columns : List Column) (attrs : List (String × AttrValue)) (placed : Placement) : Prop where
  perm : (placed.columnar ++ placed.overflow).Perm attrs
  hasColumn : ∀ attr ∈ placed.columnar, (columnOf columns (typedPair attr)).isSome
  distinct : (placed.columnar.map typedPair).Nodup
  first : ∀ pair, (columnOf columns pair).isSome →
    placed.columnar.find? (fun attr => typedPair attr = pair) = attrs.find? fun attr => typedPair attr = pair
  overflowInOrder : placed.overflow.Sublist attrs

section Placement

variable {columns : List Column}

variable {attrs : List (String × AttrValue)} {placed : Placement} {attr : String × AttrValue}

/-- A columnar attribute keeps the placement. -/
theorem Placed.columnarStep (holds : Placed columns attrs placed)
    (hasColumn : (columnOf columns (typedPair attr)).isSome)
    (unused : ∀ other ∈ placed.columnar, typedPair other ≠ typedPair attr) :
    Placed columns (attrs ++ [attr]) { placed with columnar := placed.columnar ++ [attr] } where
  perm := by
    rw [append_assoc]
    apply (Perm.append_left _ perm_append_comm).trans
    rw [← append_assoc]
    exact holds.perm.append_right [attr]
  hasColumn := by
    intro other member
    rcases mem_append.mp member with old | new
    · exact holds.hasColumn other old
    · rw [mem_singleton.mp new]
      exact hasColumn
  distinct := by
    rw [map_append, nodup_append]
    refine ⟨holds.distinct, nodup_singleton _, ?_⟩
    intro pair old other new same
    obtain ⟨attr', member, rfl⟩ := mem_map.mp old
    apply unused attr' member
    rw [same, mem_singleton.mp new]
  first := by
    intro pair covered
    rw [find?_append, find?_append, holds.first pair covered]
  overflowInOrder := holds.overflowInOrder.trans (sublist_append_left _ _)

/-- An overflowing attribute keeps the placement. -/
theorem Placed.overflowStep (holds : Placed columns attrs placed)
    (used : (columnOf columns (typedPair attr)).isSome → ∃ other ∈ placed.columnar, typedPair other = typedPair attr) :
    Placed columns (attrs ++ [attr]) { placed with overflow := placed.overflow ++ [attr] } where
  perm := by
    rw [← append_assoc]
    exact holds.perm.append_right [attr]
  hasColumn := holds.hasColumn
  distinct := holds.distinct
  first := by
    intro pair covered
    rw [holds.first pair covered, find?_append]
    cases found : attrs.find? fun attr => typedPair attr = pair with
    | some earlier => rfl
    | none =>
      have absent := holds.first pair covered
      rw [found, find?_eq_none] at absent
      have other : typedPair attr ≠ pair := by
        rintro rfl
        obtain ⟨other, member, same⟩ := used covered
        exact absent other member (decide_eq_true same)
      simp [other]
  overflowInOrder := holds.overflowInOrder.append (Sublist.refl [attr])

/-- One more attribute keeps the placement. -/
theorem Placed.step (holds : Placed columns attrs placed) (attr : String × AttrValue) :
    Placed columns (attrs ++ [attr]) (placeAttr columns placed attr) := by
  unfold placeAttr
  split
  · rename_i taken
    simp only [Bool.and_eq_true, Bool.not_eq_true', any_eq_false, decide_eq_true_eq] at taken
    exact holds.columnarStep taken.1 taken.2
  · rename_i left
    apply holds.overflowStep
    intro covered
    by_contra unused
    push Not at unused
    apply left
    simpa [covered] using unused

/-- The placement of a whole record. -/
theorem placeAttrs_placed (columns : List Column) (attrs : List (String × AttrValue)) :
    Placed columns attrs (placeAttrs columns attrs) := by
  induction attrs using reverseRecOn with
  | nil =>
    constructor
    · exact .refl []
    · intro attr member
      cases member
    · exact nodup_nil
    · intro pair _
      rfl
    · exact .slnil
  | append_singleton attrs attr ih =>
    rw [placeAttrs, foldl_append]
    exact ih.step attr

/-- An overflowing attribute whose type has a column follows the columnar one. -/
theorem Placed.columnar_of_overflow (holds : Placed columns attrs placed) (member : attr ∈ placed.overflow)
    (covered : (columnOf columns (typedPair attr)).isSome) :
    ∃ other ∈ placed.columnar, typedPair other = typedPair attr := by
  have first := holds.first _ covered
  have inAttrs : attr ∈ attrs := holds.overflowInOrder.mem member
  cases found : placed.columnar.find? fun other => typedPair other = typedPair attr with
  | some other =>
    have passes := find?_some found
    exact ⟨other, mem_of_find?_eq_some found, of_decide_eq_true passes⟩
  | none =>
    rw [found] at first
    exact absurd (decide_eq_true rfl) (find?_eq_none.mp first.symm attr inAttrs)

end Placement

/-- The cell of a columnar attribute. -/
def cellOfAttr (columns : List Column) (attr : String × AttrValue) : Nat × ColumnValue :=
  ((columnOf columns (typedPair attr)).getD 0, (resolveValue attr.2).2)

/-- A columnar attribute as an entry of the stamp. -/
def viewEntryOf (attr : String × AttrValue) : ViewEntry :=
  ⟨attr.1, (resolveValue attr.2).1, (resolveValue attr.2).2⟩

/-- The split that a placement stands for. -/
def Placement.toSplit (placed : Placement) (index : StampIndex) : RowSplit where
  cols := placed.columnar.map (cellOfAttr index.columns)
  overflow := placed.overflow
  stamp := ⟨(placed.columnar.filter fun attr => index.isTracked attr.1).map viewEntryOf,
    placed.overflow.filter fun attr => index.isTracked attr.1⟩

variable {index : StampIndex} {placed : Placement}

/-- The row's used columns are the types of its columnar attributes. -/
theorem any_cell_iff (distinct : DistinctColumns index.columns)
    (hasColumn : ∀ attr ∈ placed.columnar, (columnOf index.columns (typedPair attr)).isSome)
    {attr : String × AttrValue} {columnId : Nat} (column : columnOf index.columns (typedPair attr) = some columnId) :
    ((placed.toSplit index).cols.any fun cell => cell.1 = columnId) =
      placed.columnar.any fun other => typedPair other = typedPair attr := by
  rw [Placement.toSplit, any_map, Bool.eq_iff_iff, any_eq_true, any_eq_true]
  apply exists_congr
  intro other
  apply and_congr_right
  intro member
  obtain ⟨otherId, otherColumn⟩ := Option.isSome_iff_exists.mp (hasColumn other member)
  simp only [Function.comp, cellOfAttr, otherColumn, Option.getD_some, decide_eq_true_eq]
  constructor
  · rintro rfl
    exact columnOf_injective distinct otherColumn column
  · intro same
    rw [same, column] at otherColumn
    exact (Option.some_injective _ otherColumn).symm

/-- The split follows the placement, attribute by attribute. -/
theorem splitAttr_toSplit (distinct : DistinctColumns index.columns)
    (hasColumn : ∀ attr ∈ placed.columnar, (columnOf index.columns (typedPair attr)).isSome)
    (attr : String × AttrValue) :
    splitAttr index (placed.toSplit index) attr = (placeAttr index.columns placed attr).toSplit index := by
  cases column : columnOf index.columns (typedPair attr) with
  | none =>
    have lookup : columnLookup index.columns attr.1 (resolveValue attr.2).1 = none := column
    unfold splitAttr placeAttr
    simp only [lookup, column]
    by_cases tracked : index.isTracked attr.1 <;> simp [Placement.toSplit, tracked]
  | some columnId =>
    have lookup : columnLookup index.columns attr.1 (resolveValue attr.2).1 = some columnId := column
    have used := any_cell_iff distinct hasColumn column
    unfold splitAttr placeAttr
    simp only [lookup, column, used, Option.isSome_some, Bool.true_and]
    by_cases taken : placed.columnar.any fun other => typedPair other = typedPair attr
    · by_cases tracked : index.isTracked attr.1 <;> simp [Placement.toSplit, tracked, taken]
    · by_cases tracked : index.isTracked attr.1 <;>
        simp [Placement.toSplit, tracked, taken, cellOfAttr, column, viewEntryOf]

/-- The split of a record is its placement. -/
theorem splitAttrs_eq (distinct : DistinctColumns index.columns) (attrs : List (String × AttrValue)) :
    splitAttrs index attrs = (placeAttrs index.columns attrs).toSplit index := by
  induction attrs using reverseRecOn with
  | nil => rfl
  | append_singleton attrs attr ih =>
    rw [splitAttrs, foldl_append, placeAttrs, foldl_append]
    rw [splitAttrs] at ih
    rw [ih]
    exact splitAttr_toSplit distinct (placeAttrs_placed index.columns attrs).hasColumn attr

end Ravel.Logs
