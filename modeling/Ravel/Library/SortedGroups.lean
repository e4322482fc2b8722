/-
This file develops ordered groups: a map from keys to lists of items, kept in ascending key order.
-/

import Mathlib.Algebra.Order.Ring.Int
import Mathlib.Data.List.Basic

namespace SortedGroups

open List

variable {Key Item : Type} [LinearOrder Key]

/-- The item goes to the end of its key's group. A new key gets a new group at its place. -/
def push (key : Key) (item : Item) : List (Key × List Item) → List (Key × List Item)
  | [] => [(key, [item])]
  | group :: rest =>
    if key = group.1 then (group.1, group.2 ++ [item]) :: rest
    else if key < group.1 then (key, [item]) :: group :: rest
    else group :: push key item rest

/-- The items of a key. An absent key has none. -/
def lookup (key : Key) : List (Key × List Item) → List Item
  | [] => []
  | group :: rest => if group.1 = key then group.2 else lookup key rest

/-- The groups without a key. -/
def remove (key : Key) (groups : List (Key × List Item)) : List (Key × List Item) :=
  groups.filter fun group => group.1 ≠ key

/-- The groups of a list of keyed items, each in the order of the list. -/
def groupAll (items : List (Key × Item)) : List (Key × List Item) :=
  items.foldl (fun groups item => push item.1 item.2 groups) []

/-- The keys ascend. -/
def Sorted (groups : List (Key × List Item)) : Prop :=
  groups.Pairwise fun before after => before.1 < after.1

variable (key : Key) (item : Item) {groups : List (Key × List Item)} (items : List (Key × Item))

/-- A push adds its key to the keys. -/
theorem mem_keys_push (groups : List (Key × List Item)) (other : Key) :
    other ∈ (push key item groups).map Prod.fst ↔ other = key ∨ other ∈ groups.map Prod.fst := by
  induction groups with
  | nil => simp [push]
  | cons group rest ih =>
    rw [push]
    by_cases same : key = group.1
    · subst same
      simp
    · by_cases before : key < group.1
      · simp [same, before]
      · rw [if_neg same, if_neg before, map_cons, mem_cons, ih, map_cons, mem_cons]
        tauto

/-- A push keeps the keys ascending. -/
theorem push_sorted (sorted : Sorted groups) : Sorted (push key item groups) := by
  induction groups with
  | nil => exact pairwise_singleton _ _
  | cons group rest ih =>
    obtain ⟨after, restSorted⟩ := pairwise_cons.mp sorted
    rw [push]
    by_cases same : key = group.1
    · rw [if_pos same]
      exact pairwise_cons.mpr ⟨after, restSorted⟩
    · by_cases before : key < group.1
      · rw [if_neg same, if_pos before]
        refine pairwise_cons.mpr ⟨?_, sorted⟩
        intro other member
        rcases mem_cons.mp member with rfl | inRest
        · exact before
        · exact lt_trans before (after other inRest)
      · rw [if_neg same, if_neg before]
        refine pairwise_cons.mpr ⟨?_, ih restSorted⟩
        intro other member
        rcases (mem_keys_push key item rest other.1).mp (mem_map_of_mem member) with isKey | inRest
        · rw [isKey]
          exact lt_of_le_of_ne (not_lt.mp before) (Ne.symm same)
        · obtain ⟨found, inside, equal⟩ := mem_map.mp inRest
          rw [← equal]
          exact after found inside

/-- A key below every group has no items. -/
theorem lookup_eq_nil {key : Key} (absent : ∀ group ∈ groups, group.1 ≠ key) : lookup key groups = [] := by
  induction groups with
  | nil => rfl
  | cons group rest ih =>
    rw [lookup, if_neg (absent group mem_cons_self)]
    exact ih fun other member => absent other (mem_cons_of_mem _ member)

/-- A push changes the items of its own key only. -/
theorem lookup_push (sorted : Sorted groups) (other : Key) : lookup other (push key item groups) =
      if other = key then lookup key groups ++ [item] else lookup other groups := by
  induction groups with
  | nil =>
    by_cases same : other = key
    · simp [push, lookup, same]
    · simp [push, lookup, same, Ne.symm same]
  | cons group rest ih =>
    obtain ⟨after, restSorted⟩ := pairwise_cons.mp sorted
    rw [push]
    by_cases same : key = group.1
    · subst same
      by_cases equal : other = group.1
      · simp [lookup, equal]
      · simp [lookup, equal, Ne.symm equal]
    · by_cases before : key < group.1
      · have missing : lookup key (group :: rest) = [] := by
          refine lookup_eq_nil fun found member => ?_
          rcases mem_cons.mp member with rfl | inRest
          · exact ne_of_gt before
          · exact ne_of_gt (lt_trans before (after found inRest))
        rw [if_neg same, if_pos before, missing]
        by_cases equal : other = key
        · simp [lookup, equal]
        · simp [lookup, equal, Ne.symm equal]
      · rw [if_neg same, if_neg before, lookup, ih restSorted]
        by_cases equal : other = key
        · subst equal
          rw [if_neg (Ne.symm same), if_pos rfl, if_pos rfl, lookup, if_neg (Ne.symm same)]
        · rw [if_neg equal, if_neg equal, lookup]

/-- The groups of a list are sorted, and each holds the list's items of its key, in order. -/
theorem foldl_push_spec (sorted : Sorted groups) :
    Sorted (items.foldl (fun groups item => push item.1 item.2 groups) groups) ∧
      ∀ key, lookup key (items.foldl (fun groups item => push item.1 item.2 groups) groups) =
        lookup key groups ++ (items.filter fun item => item.1 = key).map Prod.snd := by
  induction items generalizing groups with
  | nil => exact ⟨sorted, by simp⟩
  | cons item rest ih =>
    obtain ⟨folded, found⟩ := ih (push_sorted item.1 item.2 sorted)
    refine ⟨folded, ?_⟩
    intro key
    rw [foldl_cons, found, lookup_push item.1 item.2 sorted]
    by_cases same : key = item.1
    · subst same
      simp
    · rw [if_neg same, filter_cons_of_neg (by simpa using Ne.symm same)]

/-- The groups of a list ascend. -/
theorem groupAll_sorted : Sorted (groupAll items) :=
  (foldl_push_spec items List.Pairwise.nil).1

/-- Each group holds the items of its key, in order. -/
theorem lookup_groupAll (key : Key) :
    lookup key (groupAll items) = (items.filter fun item => item.1 = key).map Prod.snd := by
  rw [groupAll, (foldl_push_spec items List.Pairwise.nil).2 key]
  rfl

/-- A group is found under its key. -/
theorem lookup_of_mem (sorted : Sorted groups) {group : Key × List Item} (member : group ∈ groups) :
    lookup group.1 groups = group.2 := by
  induction groups with
  | nil => cases member
  | cons head rest ih =>
    obtain ⟨after, restSorted⟩ := pairwise_cons.mp sorted
    rw [lookup]
    rcases mem_cons.mp member with rfl | inRest
    · rw [if_pos rfl]
    · rw [if_neg (ne_of_lt (after group inRest)), ih restSorted inRest]

/-- A removal empties its own key only. -/
theorem lookup_remove (other : Key) (groups : List (Key × List Item)) :
    lookup other (remove key groups) = if other = key then [] else lookup other groups := by
  induction groups with
  | nil => simp [remove, lookup]
  | cons group rest ih =>
    unfold remove at ih ⊢
    by_cases removed : group.1 = key
    · rw [filter_cons_of_neg (by simpa using removed), ih, lookup]
      by_cases same : other = key
      · rw [if_pos same, if_pos same]
      · rw [if_neg same, if_neg same, if_neg (by rw [removed]; exact Ne.symm same)]
    · rw [filter_cons_of_pos (by simpa using removed), lookup, ih, lookup]
      by_cases same : other = key
      · rw [if_pos same, if_pos same, if_neg (by rw [same]; exact removed)]
      · rw [if_neg same, if_neg same]

/-- The number of items in all groups. -/
def size (groups : List (Key × List Item)) : Nat :=
  (groups.map fun group => group.2.length).sum

/-- A push adds one item. -/
theorem size_push (groups : List (Key × List Item)) : size (push key item groups) = size groups + 1 := by
  induction groups with
  | nil => rfl
  | cons group rest ih =>
    unfold size at ih ⊢
    rw [push]
    by_cases same : key = group.1
    · rw [if_pos same]
      simp only [map_cons, sum_cons, length_append, length_singleton]
      omega
    · by_cases before : key < group.1
      · rw [if_neg same, if_pos before]
        simp only [map_cons, sum_cons, length_singleton]
        omega
      · rw [if_neg same, if_neg before]
        simp only [map_cons, sum_cons, ih]
        omega

/-- The groups of a list hold all of its items. -/
theorem size_groupAll : size (groupAll items) = items.length := by
  have general : ∀ groups : List (Key × List Item),
      size (items.foldl (fun groups item => push item.1 item.2 groups) groups) = size groups + items.length := by
    induction items with
    | nil => intro groups; rfl
    | cons item rest ih =>
      intro groups
      rw [foldl_cons, ih, size_push, length_cons]
      omega
  rw [groupAll, general]
  exact Nat.zero_add _

/-- A removal takes the items of its key away. -/
theorem size_remove (sorted : Sorted groups) : (lookup key groups).length + size (remove key groups) = size groups := by
  induction groups with
  | nil => rfl
  | cons group rest ih =>
    obtain ⟨after, restSorted⟩ := pairwise_cons.mp sorted
    unfold remove size at ih ⊢
    rw [lookup]
    by_cases same : group.1 = key
    · have untouched : rest.filter (fun group => group.1 ≠ key) = rest := by
        refine filter_eq_self.mpr fun other member => ?_
        simpa using ne_of_gt (same ▸ after other member)
      rw [if_pos same, filter_cons_of_neg (by simpa using same), untouched]
      simp
    · rw [if_neg same, filter_cons_of_pos (by simpa using same)]
      simp only [map_cons, sum_cons]
      have inner := ih restSorted
      omega

/-- A removal keeps the keys ascending. -/
theorem remove_sorted (sorted : Sorted groups) : Sorted (remove key groups) :=
  List.Pairwise.filter _ sorted

/-- Groups without items have none under any key. -/
theorem lookup_eq_nil_of_size (empty : size groups = 0) (key : Key) : lookup key groups = [] := by
  induction groups with
  | nil => rfl
  | cons group rest ih =>
    simp only [size, map_cons, sum_cons, Nat.add_eq_zero_iff] at empty
    rw [lookup, ih empty.2]
    split
    · exact length_eq_zero_iff.mp empty.1
    · rfl

/-- The groups of one key hold its items. -/
theorem flatMap_filter (sorted : Sorted groups) (key : Key) :
    ((groups.filter fun group => group.1 = key).flatMap Prod.snd) = lookup key groups := by
  induction groups with
  | nil => rfl
  | cons group rest ih =>
    obtain ⟨after, restSorted⟩ := pairwise_cons.mp sorted
    rw [lookup]
    by_cases same : group.1 = key
    · have none : rest.filter (fun group => group.1 = key) = [] := by
        refine filter_eq_nil_iff.mpr fun other member => ?_
        simpa using ne_of_gt (same ▸ after other member)
      rw [filter_cons_of_pos (by simpa using same), none, if_pos same]
      simp
    · rw [filter_cons_of_neg (by simpa using same), if_neg same]
      exact ih restSorted

/-- A push leaves no group empty. -/
theorem push_nonempty (nonempty : ∀ group ∈ groups, group.2 ≠ []) : ∀ group ∈ push key item groups, group.2 ≠ [] := by
  induction groups with
  | nil => simp [push]
  | cons head rest ih =>
    rw [forall_mem_cons] at nonempty
    rw [push]
    by_cases same : key = head.1
    · rw [if_pos same, forall_mem_cons]
      exact ⟨by simp, nonempty.2⟩
    · by_cases before : key < head.1
      · rw [if_neg same, if_pos before, forall_mem_cons, forall_mem_cons]
        exact ⟨by simp, nonempty⟩
      · rw [if_neg same, if_neg before, forall_mem_cons]
        exact ⟨nonempty.1, ih nonempty.2⟩

/-- The groups of a list have its keys and are not empty. -/
theorem groupAll_keys : (∀ key, key ∈ (groupAll items).map Prod.fst ↔ key ∈ items.map Prod.fst) ∧
      ∀ group ∈ groupAll items, group.2 ≠ [] := by
  have general : ∀ groups : List (Key × List Item), (∀ group ∈ groups, group.2 ≠ []) →
      (∀ key, key ∈ (items.foldl (fun groups item => push item.1 item.2 groups) groups).map Prod.fst ↔
        key ∈ groups.map Prod.fst ∨ key ∈ items.map Prod.fst) ∧
      ∀ group ∈ items.foldl (fun groups item => push item.1 item.2 groups) groups, group.2 ≠ [] := by
    induction items with
    | nil =>
      intro groups nonempty
      exact ⟨by simp, nonempty⟩
    | cons item rest ih =>
      intro groups nonempty
      obtain ⟨keys, kept⟩ := ih (push item.1 item.2 groups) (push_nonempty item.1 item.2 nonempty)
      refine ⟨?_, kept⟩
      intro key
      rw [foldl_cons, keys, mem_keys_push, map_cons, mem_cons]
      tauto
  obtain ⟨keys, kept⟩ := general [] (by simp)
  refine ⟨?_, kept⟩
  intro key
  rw [groupAll, keys]
  simp

end SortedGroups
