import Mathlib.Data.Finset.Card
import Ravel.Construction.Codec.Dictionaries
import Ravel.Library.FailingRuns

namespace Ravel.Codec

open List Logs Library

variable {dict : List Bytes} {ids : List UInt32} {referenced flags : List Bool}

/-- The value of a row. -/
def rowOf (dict : List Bytes) (id : UInt32) : Bytes :=
  dict.getD id.toNat []

theorem entryAt_row {id : UInt32} (below : id.toNat < dict.length) : entryAt dict id.toNat = .ok (rowOf dict id) := by
  rw [entryAt, rowOf, getD_eq_getElem?_getD, getElem?_eq_getElem below]
  rfl

/-- The pass over the ids flags the entries that they refer to, and lists each entry that was not flagged before. -/
structure Marked (dict : List Bytes) (ids : List UInt32) (referenced flags : List Bool) (distinct : List Bytes) : Prop where
  length : flags.length = dict.length
  flagged : ∀ id ∈ ids, flags[id.toNat]? = some true
  kept : ∀ index : Nat, referenced[index]? = some true → flags[index]? = some true
  listed : ∀ id ∈ ids, referenced[id.toNat]? = some true ∨ rowOf dict id ∈ distinct
  rows : ∀ entry ∈ distinct, ∃ id ∈ ids, rowOf dict id = entry

theorem markReferenced_spec (below : ∀ id ∈ ids, id.toNat < dict.length) (sized : referenced.length = dict.length) :
    ∃ flags distinct, markReferenced dict ids referenced = .ok (flags, distinct) ∧ Marked dict ids referenced flags distinct := by
  induction ids generalizing referenced with
  | nil => exact ⟨referenced, [], rfl, sized, by simp, fun _ flag => flag, by simp, by simp⟩
  | cons id ids ih =>
    have inside := below id mem_cons_self
    have later : ∀ other ∈ ids, other.toNat < dict.length := fun other member => below other (mem_cons_of_mem _ member)
    have here : referenced[id.toNat]? = some referenced[id.toNat] := getElem?_eq_getElem (by omega)
    have looked : entryAt referenced id.toNat = .ok referenced[id.toNat] := by rw [entryAt, here]
    rw [markReferenced, looked]
    show ∃ flags distinct, (if referenced[id.toNat] = true then _ else _) = _ ∧ _
    by_cases seen : referenced[id.toNat] = true
    · rw [seen] at here
      obtain ⟨flags, distinct, marked, length, flagged, kept, listed, rows⟩ := ih later sized
      refine ⟨flags, distinct, by rw [if_pos seen, marked], length, ?_, kept, ?_, ?_⟩
      · rintro other (_ | ⟨_, member⟩)
        · exact kept _ here
        · exact flagged other member
      · rintro other (_ | ⟨_, member⟩)
        · exact .inl here
        · exact listed other member
      · intro entry member
        obtain ⟨other, isId, row⟩ := rows entry member
        exact ⟨other, mem_cons_of_mem _ isId, row⟩
    · obtain ⟨flags, distinct, marked, length, flagged, kept, listed, rows⟩ :=
        ih later (show (referenced.set id.toNat true).length = dict.length by rw [length_set, sized])
      have setHere : (referenced.set id.toNat true)[id.toNat]? = some true := by
        rw [getElem?_set_self (by omega)]
      refine ⟨flags, rowOf dict id :: distinct, ?_, length, ?_, ?_, ?_, ?_⟩
      · rw [if_neg seen, entryAt_row inside]
        show (markReferenced dict ids (referenced.set id.toNat true) >>= _) = _
        rw [marked]
        rfl
      · rintro other (_ | ⟨_, member⟩)
        · exact kept _ setHere
        · exact flagged other member
      · intro index flag
        apply kept
        by_cases same : id.toNat = index
        · rw [← same, setHere]
        · rw [getElem?_set_ne same, flag]
      · rintro other (_ | ⟨_, member⟩)
        · exact .inr mem_cons_self
        · by_cases same : id.toNat = other.toNat
          · rw [UInt32.toNat_inj.mp same]
            exact .inr mem_cons_self
          · rcases listed other member with flag | row
            · rw [getElem?_set_ne same] at flag
              exact .inl flag
            · exact .inr (mem_cons_of_mem _ row)
      · rintro entry (_ | ⟨_, member⟩)
        · exact ⟨id, mem_cons_self, rfl⟩
        · obtain ⟨other, isId, row⟩ := rows entry member
          exact ⟨other, mem_cons_of_mem _ isId, row⟩

/-- A dictionary of rows has at most one entry for each id that there is. -/
theorem length_sortedDistinct_rows (dict : List Bytes) (ids : List UInt32) :
    (sortedDistinct (ids.map (rowOf dict))).length ≤ 2 ^ 32 := by
  have numbers : (ids.map UInt32.toNat).toFinset ⊆ Finset.range (2 ^ 32) := by
    intro number member
    obtain ⟨id, -, rfl⟩ := mem_map.mp (mem_toFinset.mp member)
    exact Finset.mem_range.mpr id.toNat_lt
  have rows : (ids.map (rowOf dict)).toFinset = (ids.map UInt32.toNat).toFinset.image fun index => dict.getD index [] := by
    ext entry
    simp [rowOf]
  calc
    (sortedDistinct (ids.map (rowOf dict))).length = (ids.map (rowOf dict)).toFinset.card := by
      rw [length_sortedDistinct, card_toFinset]
    _ ≤ (ids.map UInt32.toNat).toFinset.card := by
      rw [rows]
      exact Finset.card_image_le
    _ ≤ (Finset.range (2 ^ 32)).card := Finset.card_le_card numbers
    _ = 2 ^ 32 := Finset.card_range _

/-- A flagged entry has its position among the sorted ones. -/
theorem entryAt_positionsOf {sorted : List Bytes} {id : UInt32} (below : id.toNat < dict.length) (flag : flags[id.toNat]? = some true) :
    entryAt (positionsOf dict flags sorted) id.toNat = .ok (UInt32.ofNat (entryOf sorted (rowOf dict id))) := by
  have row : dict[id.toNat]? = some (rowOf dict id) := by
    rw [rowOf, getD_eq_getElem?_getD, getElem?_eq_getElem below]
    rfl
  have pair : (dict.zip flags)[id.toNat]? = some (rowOf dict id, true) := getElem?_zip_eq_some.mpr ⟨row, flag⟩
  rw [entryAt, positionsOf, getElem?_map, pair]
  rfl

/-- A column in dictionary shape is written as its rows are. -/
theorem encode_dict_eq_encode_rows (dict : List Bytes) (ids : List UInt32) (below : ∀ id ∈ ids, id.toNat < dict.length) :
    encodeStringsDict dict ids = .ok (encodeStrings (ids.map fun id => dict.getD id.toNat [])) := by
  show _ = Except.ok (encodeStrings (ids.map (rowOf dict)))
  have unmarked : (List.replicate dict.length false).length = dict.length := length_replicate
  obtain ⟨flags, distinct, marked, spec⟩ := markReferenced_spec below unmarked
  have sorted : sortedDistinct distinct = sortedDistinct (ids.map (rowOf dict)) := by
    apply sortedDistinct_congr
    intro entry
    rw [mem_map]
    constructor
    · exact spec.rows entry
    · rintro ⟨id, member, rfl⟩
      rcases spec.listed id member with flag | row
      · rw [getElem?_replicate] at flag
        split at flag <;> cases flag
      · exact row
  rw [encodeStringsDict, encodeStrings, isEmpty_map]
  by_cases empty : ids.isEmpty = true
  · rw [if_pos empty, if_pos empty]
  · rw [if_neg empty, if_neg empty, marked]
    show (if dictIsWorthIt (sortedDistinct distinct).length ids.length = true then _ else _) = _
    rw [sorted]
    dsimp only
    rw [length_map]
    split
    · have positions : (ids.mapM fun id => do
            let position ← entryAt (positionsOf dict flags (sortedDistinct (ids.map (rowOf dict)))) id.toNat
            return position.toUInt64) =
          .ok ((ids.map (rowOf dict)).map fun row => UInt64.ofNat (entryOf (sortedDistinct (ids.map (rowOf dict))) row)) := by
        rw [map_map]
        apply mapM_eq_ok.mpr
        rw [forall₂_map_right_iff, forall₂_same]
        intro id member
        have position := entryOf_lt (sortedDistinct_ascending _) (mem_sortedDistinct.mpr (mem_map_of_mem (f := rowOf dict) member))
        have bound := length_sortedDistinct_rows dict ids
        rw [entryAt_positionsOf (below id member) (spec.flagged id member)]
        show Except.ok (UInt32.ofNat _).toUInt64 = Except.ok (UInt64.ofNat _)
        congr 1
        apply UInt64.toNat_inj.mp
        rw [UInt32.toNat_toUInt64, UInt32.toNat_ofNat', UInt64.toNat_ofNat']
        omega
      rw [positions]
      rfl
    · have rows : (ids.mapM fun id => entryAt dict id.toNat) = .ok (ids.map (rowOf dict)) := by
        apply mapM_eq_ok.mpr
        rw [forall₂_map_right_iff, forall₂_same]
        exact fun id member => entryAt_row (below id member)
      rw [rows]
      rfl

/-- A dictionary with a repeated entry and with entries that no row refers to. -/
theorem encode_dict_eq_encode_rows_repeated :
    encodeStringsDict [[9], [3], [1, 2], [], [1, 2]] [2, 3, 4, 1, 1, 3] =
      .ok (encodeStrings [[1, 2], [], [1, 2], [3], [3], []]) :=
  encode_dict_eq_encode_rows [[9], [3], [1, 2], [], [1, 2]] [2, 3, 4, 1, 1, 3] (by simp)

end Ravel.Codec
