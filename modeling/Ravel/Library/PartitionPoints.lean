/-
This file develops binary search on a partitioned list and by halving, and the sorted lists without repetitions that it searches.
-/

import Mathlib.Data.List.Sort
import Mathlib.Data.List.TakeWhile

namespace Ravel.Library

open List

section PartitionPoints

variable {Entry : Type} {test low high : Entry → Bool} {entries : List Entry}

/-- Whatever passes the test stands before whatever fails it. -/
def Partitioned (test : Entry → Bool) (entries : List Entry) : Prop :=
  entries.Pairwise fun first second => test second = true → test first = true

/-- The first position whose entry fails the test. -/
def partitionPoint (test : Entry → Bool) (entries : List Entry) : Nat :=
  (entries.takeWhile test).length

theorem partitionPoint_le (test : Entry → Bool) (entries : List Entry) : partitionPoint test entries ≤ entries.length :=
  (List.takeWhile_prefix _).length_le

/-- In a partitioned list, the entries before the partition point are those that pass. -/
theorem Partitioned.lt_partitionPoint (partitioned : Partitioned test entries) {index : Nat} (inside : index < entries.length) :
    index < partitionPoint test entries ↔ test entries[index] = true := by
  induction entries generalizing index with
  | nil => exact absurd inside (Nat.not_lt_zero _)
  | cons first rest ih =>
    obtain ⟨atFirst, restPartitioned⟩ := pairwise_cons.mp partitioned
    by_cases passes : test first = true
    · rw [partitionPoint, takeWhile_cons_of_pos passes, length_cons]
      cases index with
      | zero => exact iff_of_true (Nat.succ_pos _) passes
      | succ index =>
        rw [getElem_cons_succ]
        exact Nat.succ_lt_succ_iff.trans (ih restPartitioned (Nat.lt_of_succ_lt_succ inside))
    · rw [partitionPoint, takeWhile_cons_of_neg passes, length_nil]
      apply iff_of_false (Nat.not_lt_zero _)
      cases index with
      | zero => exact passes
      | succ index =>
        rw [getElem_cons_succ]
        exact fun later => passes (atFirst _ (getElem_mem _) later)

/-- The entries between two partition points are those that pass the wider test alone. -/
theorem Partitioned.window (lowPartitioned : Partitioned low entries) (highPartitioned : Partitioned high entries)
    (nested : ∀ entry, low entry = true → high entry = true) :
    (entries.take (partitionPoint high entries)).drop (partitionPoint low entries) =
      entries.filter fun entry => high entry && !low entry := by
  induction entries with
  | nil => rfl
  | cons first rest ih =>
    obtain ⟨lowFirst, lowRest⟩ := pairwise_cons.mp lowPartitioned
    obtain ⟨highFirst, highRest⟩ := pairwise_cons.mp highPartitioned
    have tail := ih lowRest highRest
    unfold partitionPoint at tail ⊢
    by_cases isHigh : high first = true
    · by_cases isLow : low first = true
      · rw [takeWhile_cons_of_pos isHigh, takeWhile_cons_of_pos isLow, length_cons, length_cons,
          take_succ_cons, drop_succ_cons, tail, filter_cons_of_neg (by simp [isLow])]
      · have noLow : rest.takeWhile low = [] := by
          cases rest with
          | nil => rfl
          | cons next _ =>
            exact takeWhile_cons_of_neg fun later => isLow (lowFirst next mem_cons_self later)
        rw [noLow, length_nil, drop_zero] at tail
        rw [takeWhile_cons_of_pos isHigh, takeWhile_cons_of_neg isLow, length_cons, length_nil,
          drop_zero, take_succ_cons, tail, filter_cons_of_pos (by simp [isHigh, isLow])]
    · have isLow : ¬low first = true := fun passes => isHigh (nested first passes)
      rw [takeWhile_cons_of_neg isHigh, takeWhile_cons_of_neg isLow, length_nil, take_zero,
        drop_zero, filter_cons_of_neg (by simp [isHigh])]
      apply Eq.symm
      apply filter_eq_nil_iff.mpr
      intro later member
      have fails : ¬high later = true := fun passes => isHigh (highFirst later member passes)
      simp [fails]

end PartitionPoints

section Dedup

variable {Value : Type} [LinearOrder Value] {values : List Value}

/-- Consecutive repetitions are dropped. -/
def dedupAdjacent : List Value → List Value
  | [] => []
  | [value] => [value]
  | first :: second :: rest => if first = second then dedupAdjacent (second :: rest) else first :: dedupAdjacent (second :: rest)

@[simp] theorem mem_dedupAdjacent {value : Value} : value ∈ dedupAdjacent values ↔ value ∈ values := by
  fun_induction dedupAdjacent values with
  | case1 => exact Iff.rfl
  | case2 => exact Iff.rfl
  | case3 second rest ih =>
    rw [ih, mem_cons, mem_cons, mem_cons]
    exact ⟨.inr, fun member => member.elim .inl id⟩
  | case4 first second rest different ih => rw [mem_cons, ih, ← mem_cons]

/-- A sorted list without consecutive repetitions ascends strictly. -/
theorem dedupAdjacent_ascending (sorted : values.Pairwise (· ≤ ·)) : (dedupAdjacent values).Pairwise (· < ·) := by
  fun_induction dedupAdjacent values with
  | case1 => exact List.Pairwise.nil
  | case2 value => exact pairwise_singleton _ _
  | case3 second rest ih => exact ih sorted.of_cons
  | case4 first second rest different ih =>
    obtain ⟨atFirst, later⟩ := pairwise_cons.mp sorted
    refine pairwise_cons.mpr ⟨?_, ih later⟩
    intro value member
    have smaller : first < second := lt_of_le_of_ne (atFirst second mem_cons_self) different
    rcases mem_cons.mp (mem_dedupAdjacent.mp member) with rfl | inRest
    · exact smaller
    · exact lt_of_lt_of_le smaller ((pairwise_cons.mp later).1 value inRest)

/-- Two strictly ascending lists with the same members are equal. -/
theorem eq_of_ascending {left right : List Value} (leftAscending : left.Pairwise (· < ·)) (rightAscending : right.Pairwise (· < ·))
    (same : ∀ value, value ∈ left ↔ value ∈ right) : left = right := by
  apply Perm.eq_of_pairwise _ leftAscending rightAscending
  · exact (perm_ext_iff_of_nodup (leftAscending.imp ne_of_lt) (rightAscending.imp ne_of_lt)).mpr same
  · intro first second _ _ before after
    exact absurd before (not_lt_of_gt after)

end Dedup

section HalvingSearch

variable {Entry : Type} [LT Entry] [DecidableLT Entry]

/-- A position from `low` up to `high` whose entry is the needle, by halving. -/
def halvingFind (entry : Nat → Entry) (needle : Entry) (low high : Nat) : Option Nat :=
  if low < high then
    let middle := low + (high - low) / 2
    if entry middle < needle then halvingFind entry needle (middle + 1) high
    else if needle < entry middle then halvingFind entry needle low middle
    else some middle
  else none
termination_by high - low

/-- A position that is found is inside and holds the needle. -/
theorem halvingFind_sound [Std.Trichotomous (α := Entry) (· < ·)] {entry : Nat → Entry} {needle : Entry} {low high found : Nat}
    (search : halvingFind entry needle low high = some found) : low ≤ found ∧ found < high ∧ entry found = needle := by
  fun_induction halvingFind entry needle low high with
  | case1 low high inside middle below ih =>
    obtain ⟨above, bounded, equal⟩ := ih search
    exact ⟨by omega, bounded, equal⟩
  | case2 low high inside middle notBelow above ih =>
    obtain ⟨least, bounded, equal⟩ := ih search
    exact ⟨least, by omega, equal⟩
  | case3 low high inside middle notBelow notAbove =>
    rw [← Option.some.inj search]
    exact ⟨by omega, by omega, Std.Trichotomous.trichotomous (r := (· < ·)) _ _ notBelow notAbove⟩
  | case4 low high outside => cases search

/-- On ascending entries, a search without result has no entry that is the needle. -/
theorem halvingFind_complete [Std.Asymm (α := Entry) (· < ·)] {entry : Nat → Entry} {needle : Entry} {low high : Nat}
    (ascending : ∀ first second, low ≤ first → first < second → second < high → entry first < entry second)
    (search : halvingFind entry needle low high = none) {index : Nat} (least : low ≤ index) (bounded : index < high) :
    entry index ≠ needle := by
  fun_induction halvingFind entry needle low high with
  | case1 low high inside middle below ih =>
    rintro rfl
    by_cases late : middle + 1 ≤ index
    · exact ih (fun first second after => ascending first second (by omega)) search late bounded rfl
    · rcases Nat.lt_or_ge index middle with early | same
      · exact Std.Asymm.asymm _ _ below (ascending index middle least early (by omega))
      · rw [show index = middle by omega] at below
        exact Std.Asymm.asymm _ _ below below
  | case2 low high inside middle notBelow above ih =>
    rintro rfl
    by_cases early : index < middle
    · exact ih (fun first second after before inner => ascending first second after before (by omega))
        search least early rfl
    · rcases Nat.lt_or_ge middle index with late | same
      · exact notBelow (ascending middle index (by omega) late bounded)
      · rw [show index = middle by omega] at above
        exact Std.Asymm.asymm _ _ above above
  | case3 low high inside middle notBelow notAbove => cases search
  | case4 low high outside => omega

end HalvingSearch

end Ravel.Library
