/-
This file develops the map that counts keys.
-/

import Mathlib.Algebra.BigOperators.Group.List.Basic
import Mathlib.Algebra.Order.Ring.Int
import Mathlib.Data.List.Dedup
import Mathlib.Data.List.Induction
import Ravel.Library.KeyedLists

namespace Ravel.Library

open List

section CountedKeys

variable {Key : Type} [DecidableEq Key]

/-- The amount goes to the entry of the key, or to a new entry. -/
def addCount (key : Key) (amount : Nat) : List (Key × Nat) → List (Key × Nat)
  | [] => [(key, amount)]
  | entry :: rest => if entry.1 = key then (entry.1, entry.2 + amount) :: rest else entry :: addCount key amount rest

/-- The count of a key. -/
def countOf (key : Key) (counts : List (Key × Nat)) : Nat :=
  ((counts.find? fun entry => entry.1 = key).map Prod.snd).getD 0

variable (key : Key) (amount : Nat) (counts : List (Key × Nat)) (keys : List Key)

@[simp] theorem countOf_nil : countOf key [] = 0 := rfl

theorem countOf_cons (entry : Key × Nat) (rest : List (Key × Nat)) :
    countOf key (entry :: rest) = if entry.1 = key then entry.2 else countOf key rest := by
  by_cases own : entry.1 = key <;> simp [countOf, own]

theorem addCount_eq : addCount key amount counts = alterEntry key amount (· + amount) counts := by
  induction counts with
  | nil => rfl
  | cons entry rest ih => rw [addCount, alterEntry, ih]

theorem countOf_addCount (other : Key) (amount : Nat) (counts : List (Key × Nat)) :
    countOf key (addCount other amount counts) = countOf key counts + if other = key then amount else 0 := by
  rw [addCount_eq, countOf, find?_alterEntry, countOf]
  by_cases own : other = key
  · cases counts.find? (fun entry => entry.1 = key) <;> simp [own]
  · simp [own]

theorem mem_keys_addCount (other : Key) (amount : Nat) (counts : List (Key × Nat)) :
    key ∈ (addCount other amount counts).map Prod.fst ↔ key = other ∨ key ∈ counts.map Prod.fst := by
  rw [addCount_eq, mem_keys_alterEntry]

theorem nodup_addCount {counts : List (Key × Nat)} (distinct : (counts.map Prod.fst).Nodup) (key : Key) (amount : Nat) :
    ((addCount key amount counts).map Prod.fst).Nodup := by
  rw [addCount_eq]
  exact nodup_alterEntry distinct

theorem sum_addCount : ((addCount key amount counts).map Prod.snd).sum = (counts.map Prod.snd).sum + amount := by
  induction counts with
  | nil => simp [addCount]
  | cons entry rest ih =>
    by_cases found : entry.1 = key
    · rw [addCount, if_pos found, map_cons, sum_cons, map_cons, sum_cons]
      exact Nat.add_right_comm _ _ _
    · rw [addCount, if_neg found, map_cons, sum_cons, ih, map_cons, sum_cons,
        Nat.add_assoc]

theorem length_le_addCount : counts.length ≤ (addCount key amount counts).length := by
  induction counts with
  | nil => exact Nat.zero_le _
  | cons entry rest ih =>
    rw [addCount]
    split
    · exact Nat.le_refl _
    · exact Nat.succ_le_succ ih

/-- The counts of a list of keys. -/
def countKeys (keys : List Key) : List (Key × Nat) :=
  keys.foldl (fun counts key => addCount key 1 counts) []

theorem countKeys_append (key : Key) : countKeys (keys ++ [key]) = addCount key 1 (countKeys keys) := by
  rw [countKeys, foldl_append]
  rfl

theorem countOf_countKeys : countOf key (countKeys keys) = keys.count key := by
  induction keys using reverseRecOn with
  | nil => rfl
  | append_singleton keys last ih =>
    rw [countKeys_append, countOf_addCount, ih, count_append, count_singleton]
    by_cases same : last = key <;> simp [same]

theorem mem_countKeys : key ∈ (countKeys keys).map Prod.fst ↔ key ∈ keys := by
  induction keys using reverseRecOn with
  | nil => rfl
  | append_singleton keys last ih =>
    rw [countKeys_append, mem_keys_addCount, ih, mem_append, mem_singleton]
    exact or_comm

theorem nodup_countKeys : ((countKeys keys).map Prod.fst).Nodup := by
  induction keys using reverseRecOn with
  | nil => exact nodup_nil
  | append_singleton keys last ih =>
    rw [countKeys_append]
    exact nodup_addCount ih last 1

theorem sum_countKeys : ((countKeys keys).map Prod.snd).sum = keys.length := by
  induction keys using reverseRecOn with
  | nil => rfl
  | append_singleton keys last ih =>
    rw [countKeys_append, sum_addCount, ih, length_append, length_singleton]

theorem length_countKeys : (countKeys keys).length = keys.dedup.length := by
  have same : ((countKeys keys).map Prod.fst).Perm keys.dedup := by
    rw [perm_ext_iff_of_nodup (nodup_countKeys keys) (nodup_dedup keys)]
    intro key
    rw [mem_countKeys, mem_dedup]
  rw [← same.length_eq, length_map]

/-- The entries of a key add up to its count. -/
theorem sum_filter_eq_countOf {counts : List (Key × Nat)} (distinct : (counts.map Prod.fst).Nodup) :
    ((counts.filter fun entry => entry.1 = key).map Prod.snd).sum = countOf key counts := by
  induction counts with
  | nil => rfl
  | cons entry rest ih =>
    obtain ⟨fresh, restDistinct⟩ := nodup_cons.mp distinct
    rw [countOf_cons]
    by_cases own : entry.1 = key
    · have none : (rest.filter fun entry => entry.1 = key) = [] := by
        rw [filter_eq_nil_iff]
        intro other otherIn passes
        apply fresh
        rw [own, ← of_decide_eq_true passes]
        exact mem_map_of_mem otherIn
      simp [own, none]
    · rw [filter_cons_of_neg (by simpa using own), if_neg own, ih restDistinct]

/-- One map of counts added to another. -/
def mergeCounts (counts added : List (Key × Nat)) : List (Key × Nat) :=
  added.foldl (fun counts entry => addCount entry.1 entry.2 counts) counts

theorem countOf_mergeCounts {added : List (Key × Nat)} (distinct : (added.map Prod.fst).Nodup) :
    ∀ counts, countOf key (mergeCounts counts added) = countOf key counts + countOf key added := by
  induction added with
  | nil =>
    intro counts
    rfl
  | cons entry rest ih =>
    intro counts
    obtain ⟨fresh, restDistinct⟩ := nodup_cons.mp distinct
    have step := ih restDistinct (addCount entry.1 entry.2 counts)
    rw [mergeCounts, foldl_cons]
    rw [mergeCounts] at step
    rw [step, countOf_addCount, countOf_cons]
    by_cases own : entry.1 = key
    · have absent : countOf key rest = 0 := by
        have none : (rest.find? fun entry => entry.1 = key) = none := by
          rw [find?_eq_none]
          intro other otherIn passes
          apply fresh
          rw [own, ← of_decide_eq_true passes]
          exact mem_map_of_mem otherIn
        rw [countOf, none]
        rfl
      rw [if_pos own, if_pos own, absent, Nat.add_zero]
    · rw [if_neg own, if_neg own, Nat.add_zero]

theorem mem_mergeCounts (added : List (Key × Nat)) : ∀ counts, key ∈ (mergeCounts counts added).map Prod.fst ↔
      key ∈ counts.map Prod.fst ∨ key ∈ added.map Prod.fst := by
  induction added with
  | nil =>
    intro counts
    simp [mergeCounts]
  | cons entry rest ih =>
    intro counts
    have step := ih (addCount entry.1 entry.2 counts)
    rw [mergeCounts] at step
    rw [mergeCounts, foldl_cons, step, mem_keys_addCount, map_cons, mem_cons, or_comm (a := key = entry.1),
      or_assoc]

end CountedKeys

section Images

variable {Key Image : Type} [DecidableEq Key] [DecidableEq Image] {image : Key → Image}

theorem addCount_map (injective : Function.Injective image) (key : Key) (amount : Nat) (counts : List (Key × Nat)) :
    addCount (image key) amount (counts.map fun entry => (image entry.1, entry.2)) =
      (addCount key amount counts).map fun entry => (image entry.1, entry.2) := by
  induction counts with
  | nil => rfl
  | cons entry rest ih =>
    by_cases own : entry.1 = key
    · simp [addCount, own]
    · have different : ¬image entry.1 = image key := fun same => own (injective same)
      rw [map_cons, addCount, if_neg different, ih, addCount, if_neg own, map_cons]

theorem countKeys_map (injective : Function.Injective image) (keys : List Key) :
    countKeys (keys.map image) = (countKeys keys).map fun entry => (image entry.1, entry.2) := by
  induction keys using reverseRecOn with
  | nil => rfl
  | append_singleton keys last ih =>
    rw [map_append, map_singleton, countKeys_append, ih, addCount_map injective,
      ← countKeys_append]

end Images

end Ravel.Library
