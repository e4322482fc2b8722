/-
This file develops binary heaps in an array: the two sifts, and the order of the keys that they restore.
-/

import Mathlib.Data.List.Basic
import Mathlib.Logic.Equiv.Basic
import Mathlib.Order.WithBot

namespace Ravel.Library

open List

section Orders

variable {Key : Type} [Preorder Key]

/-- No place has a key below that of its parent. -/
def HeapOrdered (keys : Nat → Key) : Prop :=
  ∀ child, 0 < child → keys ((child - 1) / 2) ≤ keys child

/-- The heap order but for the parent of a hole. The children of the hole are already above that parent. -/
structure UpOrdered (keys : Nat → Key) (hole : Nat) : Prop where
  apart : ∀ child, 0 < child → child ≠ hole → keys ((child - 1) / 2) ≤ keys child
  around : ∀ child, 0 < hole → 0 < child → (child - 1) / 2 = hole → keys ((hole - 1) / 2) ≤ keys child

/-- The heap order but for the children of a hole. They are already above the parent of the hole. -/
structure DownOrdered (keys : Nat → Key) (hole : Nat) : Prop where
  apart : ∀ child, 0 < child → (child - 1) / 2 ≠ hole → keys ((child - 1) / 2) ≤ keys child
  around : ∀ child, 0 < hole → 0 < child → (child - 1) / 2 = hole → keys ((hole - 1) / 2) ≤ keys child

variable {keys : Nat → Key} {hole : Nat}

theorem HeapOrdered.root_le (ordered : HeapOrdered keys) (place : Nat) : keys 0 ≤ keys place := by
  induction place using Nat.strongRecOn with
  | ind place ih =>
    rcases Nat.eq_zero_or_pos place with rfl | positive
    · exact le_rfl
    · exact (ih _ (by omega)).trans (ordered place positive)

theorem UpOrdered.rise (ordered : UpOrdered keys hole) (positive : 0 < hole) (less : keys hole ≤ keys ((hole - 1) / 2)) :
    UpOrdered (keys ∘ Equiv.swap hole ((hole - 1) / 2)) ((hole - 1) / 2) := by
  constructor
  · intro child childPositive other
    have above := ordered.apart child childPositive
    have beyond := ordered.around child positive childPositive
    simp only [Function.comp, Equiv.swap_apply_def]
    grind
  · intro child upper childPositive isChild
    have above := ordered.apart child childPositive
    have parent := ordered.apart _ upper (by omega)
    simp only [Function.comp, Equiv.swap_apply_def]
    grind

theorem UpOrdered.settle (ordered : UpOrdered keys hole) (above : 0 < hole → keys ((hole - 1) / 2) ≤ keys hole) :
    HeapOrdered keys := by
  intro child positive
  by_cases same : child = hole
  · subst same
    exact above positive
  · exact ordered.apart child positive same

theorem DownOrdered.sink (ordered : DownOrdered keys hole) {least : Nat} (positive : 0 < least)
    (isChild : (least - 1) / 2 = hole) (less : keys least ≤ keys hole)
    (isLeast : ∀ child, 0 < child → (child - 1) / 2 = hole → keys least ≤ keys child) :
    DownOrdered (keys ∘ Equiv.swap hole least) least := by
  constructor
  · intro child childPositive other
    have above := ordered.apart child childPositive
    have beyond := isLeast child childPositive
    have upper := ordered.around least
    simp only [Function.comp, Equiv.swap_apply_def]
    grind
  · intro child _ childPositive below
    have above := ordered.apart child childPositive (by omega)
    simp only [Function.comp, Equiv.swap_apply_def]
    grind

theorem DownOrdered.settle (ordered : DownOrdered keys hole)
    (above : ∀ child, 0 < child → (child - 1) / 2 = hole → keys hole ≤ keys child) : HeapOrdered keys := by
  intro child positive
  by_cases below : (child - 1) / 2 = hole
  · rw [below]
    exact above child positive below
  · exact ordered.apart child positive below

end Orders

section Sifts

variable {Entry : Type} (less : Entry → Entry → Bool)

/-- An entry goes up while it is less than its parent. -/
def siftUp (heap : Array Entry) (idx : Nat) : Array Entry :=
  if inside : 0 < idx ∧ idx < heap.size then
    if less heap[idx] heap[(idx - 1) / 2] then siftUp (heap.swap idx ((idx - 1) / 2)) ((idx - 1) / 2) else heap
  else heap
termination_by idx

def heapPush (heap : Array Entry) (entry : Entry) : Array Entry :=
  siftUp less (heap.push entry) heap.size

/-- The best place so far, or a place whose entry is less. -/
def lesser (heap : Array Entry) (best : Fin heap.size) (place : Nat) : Fin heap.size :=
  if inside : place < heap.size then if less heap[place] heap[best] then ⟨place, inside⟩ else best else best

theorem lesser_eq (heap : Array Entry) (best : Fin heap.size) (place : Nat) :
    lesser less heap best place = best ∨ (lesser less heap best place).val = place := by
  unfold lesser
  grind

/-- An entry goes down while one of its children is less. -/
def siftDown (heap : Array Entry) (idx : Nat) : Array Entry :=
  if inside : idx < heap.size then
    let smallest := lesser less heap (lesser less heap ⟨idx, inside⟩ (2 * idx + 1)) (2 * idx + 2)
    if smallest = idx then heap else siftDown (heap.swap idx smallest) smallest
  else heap
termination_by heap.size - idx
decreasing_by
  have left := lesser_eq less heap ⟨idx, inside⟩ (2 * idx + 1)
  have right := lesser_eq less heap (lesser less heap ⟨idx, inside⟩ (2 * idx + 1)) (2 * idx + 2)
  grind

/-- The last entry takes the place of the root and goes down. -/
def heapPop (heap : Array Entry) : Array Entry :=
  if inside : 0 < heap.size then siftDown less (heap.swap 0 (heap.size - 1)).pop 0 else heap

theorem siftUp_perm (heap : Array Entry) (idx : Nat) : (siftUp less heap idx).Perm heap := by
  fun_induction siftUp less heap idx with
  | case1 heap idx inside _ ih => exact ih.trans (Array.swap_perm _ _)
  | case2 => exact .rfl
  | case3 => exact .rfl

theorem siftDown_perm (heap : Array Entry) (idx : Nat) : (siftDown less heap idx).Perm heap := by
  fun_induction siftDown less heap idx with
  | case1 => exact .rfl
  | case2 heap idx inside _ _ ih => exact ih.trans (Array.swap_perm _ _)
  | case3 => exact .rfl

theorem heapPush_perm (heap : Array Entry) (entry : Entry) : (heapPush less heap entry).toList.Perm (entry :: heap.toList) := by
  have pushed := (siftUp_perm less (heap.push entry) heap.size).toList
  rw [Array.toList_push] at pushed
  exact pushed.trans (perm_append_singleton _ _)

theorem heapPop_perm {heap : Array Entry} {root : Entry} (isRoot : heap[0]? = some root) :
    (root :: (heapPop less heap).toList).Perm heap.toList := by
  obtain ⟨inside, rfl⟩ := Array.getElem?_eq_some_iff.mp isRoot
  rw [heapPop, dif_pos inside]
  have sifted := (siftDown_perm less (heap.swap 0 (heap.size - 1)).pop 0).toList
  have swapped := (Array.swap_perm inside (Nat.sub_one_lt_of_lt inside)).toList
  have last : heap[0] ∈ (heap.swap 0 (heap.size - 1)).toList.getLast? := by
    rw [getLast?_eq_getElem?]
    grind
  have cut := dropLast_append_getLast? heap[0] last
  rw [← Array.toList_pop] at cut
  rw [← cut] at swapped
  exact ((sifted.cons heap[0]).trans (perm_append_singleton _ _).symm).trans swapped

variable {Key : Type} {key : Entry → Key} {heap : Array Entry}

/-- The key at a place. No key is past the end. -/
def keyAt (key : Entry → Key) (heap : Array Entry) (place : Nat) : WithTop Key :=
  heap[place]?.elim ⊤ fun entry => key entry

theorem keyAt_inside {place : Nat} (inside : place < heap.size) : keyAt key heap place = key heap[place] := by
  simp [keyAt, inside]

theorem keyAt_outside {place : Nat} (outside : heap.size ≤ place) : keyAt key heap place = ⊤ := by
  simp [keyAt, outside]

theorem keyAt_swap {left right : Nat} (leftIn : left < heap.size) (rightIn : right < heap.size) :
    keyAt key (heap.swap left right) = keyAt key heap ∘ Equiv.swap left right := by
  funext place
  simp only [keyAt, Function.comp, Equiv.swap_apply_def, Array.getElem?_swap]
  grind

variable [LinearOrder Key]

/-- The comparison follows the keys. Entries with one key may compare either way. -/
structure Follows (less : Entry → Entry → Bool) (key : Entry → Key) : Prop where
  le : ∀ left right, less left right = true → key left ≤ key right
  ge : ∀ left right, less left right = false → key right ≤ key left

/-- The root has the least key. -/
theorem HeapOrdered.root_le_of_mem (ordered : HeapOrdered (keyAt key heap)) {root entry : Entry}
    (isRoot : heap[0]? = some root) (member : entry ∈ heap.toList) : key root ≤ key entry := by
  obtain ⟨place, inside, rfl⟩ := Array.getElem_of_mem (Array.mem_toList_iff.mp member)
  have least := ordered.root_le place
  rw [keyAt_inside inside, keyAt, isRoot] at least
  exact WithTop.coe_le_coe.mp least

variable {less} (follows : Follows less key)

include follows

theorem siftUp_ordered (idx : Nat) (placed : idx < heap.size) (ordered : UpOrdered (keyAt key heap) idx) :
    HeapOrdered (keyAt key (siftUp less heap idx)) := by
  fun_induction siftUp less heap idx with
  | case1 heap idx inside isLess ih =>
    apply ih
    · rw [Array.size_swap]
      omega
    · rw [keyAt_swap]
      apply ordered.rise inside.1
      rw [keyAt_inside inside.2, keyAt_inside (show (idx - 1) / 2 < heap.size by omega)]
      exact WithTop.coe_le_coe.mpr (follows.le _ _ isLess)
  | case2 heap idx inside notLess =>
    apply ordered.settle
    intro _
    rw [keyAt_inside inside.2, keyAt_inside (show (idx - 1) / 2 < heap.size by omega)]
    exact WithTop.coe_le_coe.mpr (follows.ge _ _ (Bool.eq_false_of_not_eq_true notLess))
  | case3 heap idx outside =>
    apply ordered.settle
    intro positive
    exact absurd ⟨positive, placed⟩ outside

theorem keyAt_lesser (best : Fin heap.size) (place : Nat) :
    keyAt key heap (lesser less heap best place) ≤ keyAt key heap best ∧
      keyAt key heap (lesser less heap best place) ≤ keyAt key heap place := by
  unfold lesser
  split
  · rename_i inside
    split
    · rename_i isLess
      rw [keyAt_inside inside, keyAt_inside best.isLt]
      exact ⟨WithTop.coe_le_coe.mpr (follows.le _ _ isLess), le_rfl⟩
    · rename_i notLess
      rw [keyAt_inside inside, keyAt_inside best.isLt]
      exact ⟨le_rfl, WithTop.coe_le_coe.mpr (follows.ge _ _ (Bool.eq_false_of_not_eq_true notLess))⟩
  · rename_i outside
    rw [keyAt_outside (Nat.le_of_not_lt outside)]
    exact ⟨le_rfl, le_top⟩

/-- The place that a sift down goes on with: no child has a lesser key. -/
theorem keyAt_smallest (idx : Fin heap.size) (smallest : Fin heap.size)
    (isSmallest : smallest = lesser less heap (lesser less heap idx (2 * idx + 1)) (2 * idx + 2)) (child : Nat)
    (positive : 0 < child) (below : (child - 1) / 2 = idx) : keyAt key heap smallest ≤ keyAt key heap child := by
  obtain ⟨least, right⟩ := keyAt_lesser follows (lesser less heap idx (2 * idx + 1)) (2 * idx + 2)
  have left := (keyAt_lesser follows idx (2 * idx + 1)).2
  rw [← isSmallest] at least right
  rcases (show child = 2 * idx + 1 ∨ child = 2 * idx + 2 by omega) with rfl | rfl
  · exact least.trans left
  · exact right

theorem siftDown_ordered (idx : Nat) (ordered : DownOrdered (keyAt key heap) idx) :
    HeapOrdered (keyAt key (siftDown less heap idx)) := by
  fun_induction siftDown less heap idx with
  | case1 heap idx inside smallest same =>
    apply ordered.settle
    intro child positive below
    have least := keyAt_smallest follows ⟨idx, inside⟩ smallest rfl child positive below
    rw [same] at least
    exact least
  | case2 heap idx inside smallest other ih =>
    have left := lesser_eq less heap ⟨idx, inside⟩ (2 * idx + 1)
    have right := lesser_eq less heap (lesser less heap ⟨idx, inside⟩ (2 * idx + 1)) (2 * idx + 2)
    apply ih
    rw [keyAt_swap]
    apply ordered.sink
    · grind
    · grind
    · exact (keyAt_lesser follows _ _).1.trans (keyAt_lesser follows _ _).1
    · exact keyAt_smallest follows ⟨idx, inside⟩ smallest rfl
  | case3 heap idx outside =>
    apply ordered.settle
    intro child positive below
    rw [keyAt_outside (show heap.size ≤ child by omega)]
    exact le_top

theorem heapPush_ordered (entry : Entry) (ordered : HeapOrdered (keyAt key heap)) :
    HeapOrdered (keyAt key (heapPush less heap entry)) := by
  apply siftUp_ordered follows
  · simp
  · constructor
    · intro child positive other
      have above := ordered child positive
      simp only [keyAt, Array.getElem?_push] at above ⊢
      grind [le_top]
    · intro child positive _ below
      rw [keyAt_outside (show (heap.push entry).size ≤ child by rw [Array.size_push]; omega)]
      exact le_top

theorem heapPop_ordered (ordered : HeapOrdered (keyAt key heap)) : HeapOrdered (keyAt key (heapPop less heap)) := by
  unfold heapPop
  split
  · rename_i inside
    apply siftDown_ordered follows
    constructor
    · intro child positive other
      have above := ordered child positive
      simp only [keyAt, Array.getElem?_pop, Array.getElem?_swap] at above ⊢
      grind [le_top]
    · intro _ absurdly
      exact absurd absurdly (Nat.lt_irrefl 0)
  · exact ordered

end Sifts

end Ravel.Library
