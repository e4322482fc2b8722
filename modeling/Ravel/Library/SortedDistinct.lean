/-
This file develops the sorted list of the distinct values of a list, and the position of each value in it.
-/

import Mathlib.Data.List.Destutter
import Ravel.Library.PartitionPoints

namespace Ravel.Library

open List

section SortedDistinct

variable {Value : Type} [LE Value] [DecidableLE Value]

/-- The distinct values in ascending order: a sort, and then one value for each run. -/
def sortedDistinct [DecidableEq Value] (values : List Value) : List Value :=
  (values.insertionSort (· ≤ ·)).destutter (· ≠ ·)

variable [Std.IsLinearOrder Value] {values : List Value}

theorem insertionSort_ascending (values : List Value) : (values.insertionSort (· ≤ ·)).Pairwise (· ≤ ·) := by
  have total : Std.Total (α := Value) (· ≤ ·) := ⟨fun _ _ => Std.le_total⟩
  have transitive : IsTrans Value (· ≤ ·) := ⟨fun _ _ _ => Std.le_trans⟩
  exact pairwise_insertionSort (· ≤ ·) values

variable [DecidableEq Value]

theorem sortedDistinct_eq_dedup (values : List Value) : sortedDistinct values = (values.insertionSort (· ≤ ·)).dedup := by
  have antisymmetric : Std.Antisymm (α := Value) (· ≤ ·) := ⟨fun _ _ => Std.le_antisymm⟩
  exact (insertionSort_ascending values).destutter_eq_dedup

@[simp] theorem mem_sortedDistinct {value : Value} : value ∈ sortedDistinct values ↔ value ∈ values := by
  rw [sortedDistinct_eq_dedup, mem_dedup]
  exact (perm_insertionSort _ _).mem_iff

theorem length_sortedDistinct (values : List Value) : (sortedDistinct values).length = values.dedup.length := by
  rw [sortedDistinct_eq_dedup]
  exact (perm_insertionSort _ _).dedup.length_eq

variable [LT Value] [Std.LawfulOrderLT Value]

theorem sortedDistinct_ascending (values : List Value) : (sortedDistinct values).Pairwise (· < ·) := by
  have ordered : (sortedDistinct values).Pairwise (· ≤ ·) := (insertionSort_ascending values).sublist (destutter_sublist _ _)
  have distinct : (sortedDistinct values).Nodup := by
    rw [sortedDistinct_eq_dedup]
    exact nodup_dedup _
  exact (ordered.and distinct).imp fun both => Std.lt_of_le_of_ne both.1 both.2

/-- The distinct values depend on the members alone. -/
theorem sortedDistinct_congr {others : List Value} (same : ∀ value, value ∈ values ↔ value ∈ others) :
    sortedDistinct values = sortedDistinct others := by
  have distinct (list : List Value) : (sortedDistinct list).Nodup := (sortedDistinct_ascending list).imp Std.ne_of_lt
  apply Perm.eq_of_pairwise _ (sortedDistinct_ascending values) (sortedDistinct_ascending others)
  · apply (perm_ext_iff_of_nodup (distinct values) (distinct others)).mpr
    intro value
    rw [mem_sortedDistinct, mem_sortedDistinct, same]
  · intro first second _ _ before after
    exact absurd before (Std.not_gt_of_lt after)

end SortedDistinct

section Entries

variable {Value : Type} [LT Value] [DecidableLT Value] {entries : List Value}

/-- The position of a value in ascending entries. -/
def entryOf (entries : List Value) (value : Value) : Nat :=
  partitionPoint (fun entry => decide (entry < value)) entries

variable [LE Value] [Std.IsLinearOrder Value] [Std.LawfulOrderLT Value]

/-- Each entry of ascending entries stands at its own position. -/
theorem getElem?_entryOf (ascending : entries.Pairwise (· < ·)) {value : Value} (member : value ∈ entries) :
    entries[entryOf entries value]? = some value := by
  induction entries with
  | nil => cases member
  | cons first rest ih =>
    obtain ⟨atFirst, later⟩ := pairwise_cons.mp ascending
    rw [entryOf, partitionPoint]
    rcases mem_cons.mp member with rfl | inRest
    · rw [takeWhile_cons_of_neg (by simpa using Std.lt_irrefl)]
      rfl
    · rw [takeWhile_cons_of_pos (by simpa using atFirst value inRest)]
      exact ih later inRest

theorem entryOf_lt (ascending : entries.Pairwise (· < ·)) {value : Value} (member : value ∈ entries) :
    entryOf entries value < entries.length :=
  (List.getElem?_eq_some_iff.mp (getElem?_entryOf ascending member)).1

end Entries

end Ravel.Library
