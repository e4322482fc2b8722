/-
This file develops lists that are cut into key-ordered groups and an open rest: where a key is routed, what a sort by
key leaves, and how the groups follow an edit of the list.
-/

import Mathlib.Data.List.Sort
import Mathlib.Data.Nat.Cast.WithTop

namespace Ravel.Library

open List

section SortByKey

variable {Entry : Type} (key : Entry → Nat)

/-- The stable sort by key. -/
def sortBy (entries : List Entry) : List Entry :=
  entries.insertionSort fun left right => key left ≤ key right

instance keyTotal : Std.Total fun left right : Entry => key left ≤ key right :=
  ⟨fun left right => Nat.le_total (key left) (key right)⟩

instance keyTrans : IsTrans Entry fun left right => key left ≤ key right :=
  ⟨fun _ _ _ first second => Nat.le_trans first second⟩

variable {key}

theorem sortBy_perm (entries : List Entry) : (sortBy key entries).Perm entries :=
  perm_insertionSort _ entries

theorem sortBy_sorted (entries : List Entry) :
    (sortBy key entries).Pairwise fun left right => key left ≤ key right :=
  pairwise_insertionSort _ entries

@[simp] theorem mem_sortBy {entries : List Entry} {entry : Entry} : entry ∈ sortBy key entries ↔ entry ∈ entries :=
  (sortBy_perm entries).mem_iff

@[simp] theorem length_sortBy (entries : List Entry) : (sortBy key entries).length = entries.length :=
  (sortBy_perm entries).length_eq

theorem distinct_sortBy {entries : List Entry} (distinct : (entries.map key).Nodup) :
    ((sortBy key entries).map key).Nodup :=
  (((sortBy_perm entries).map key).nodup_iff).mpr distinct

/-- Distinct keys in sorted order ascend strictly. -/
theorem ascending_of_sorted {entries : List Entry} (distinct : (entries.map key).Nodup)
    (sorted : entries.Pairwise fun left right => key left ≤ key right) :
    entries.Pairwise fun left right => key left < key right := by
  rw [Nodup, pairwise_map] at distinct
  apply (sorted.and distinct).imp
  intro left right ⟨atMost, different⟩
  exact Nat.lt_of_le_of_ne atMost different

theorem eq_of_key {entries : List Entry} (distinct : (entries.map key).Nodup) {left right : Entry}
    (leftIn : left ∈ entries) (rightIn : right ∈ entries) (same : key left = key right) : left = right :=
  inj_on_of_nodup_map distinct leftIn rightIn same

/-- Two key-sorted lists with the same entries and distinct keys are equal. -/
theorem eq_of_sorted_perm {left right : List Entry} (distinct : (left.map key).Nodup)
    (leftSorted : left.Pairwise fun first second => key first ≤ key second)
    (rightSorted : right.Pairwise fun first second => key first ≤ key second) (reordered : left.Perm right) :
    left = right := by
  apply Perm.eq_of_pairwise _ leftSorted rightSorted reordered
  intro first second firstIn secondIn forward backward
  exact eq_of_key distinct firstIn (reordered.mem_iff.mpr secondIn) (Nat.le_antisymm forward backward)

theorem sortBy_eq_of_perm {left right : List Entry} (distinct : (left.map key).Nodup) (reordered : left.Perm right) :
    sortBy key left = sortBy key right := by
  apply eq_of_sorted_perm (distinct_sortBy distinct) (sortBy_sorted left) (sortBy_sorted right)
  exact (sortBy_perm left).trans (reordered.trans (sortBy_perm right).symm)

theorem sortBy_eq_self {entries : List Entry} (sorted : entries.Pairwise fun left right => key left ≤ key right) :
    sortBy key entries = entries :=
  List.Pairwise.insertionSort_eq sorted

/-- Lists with distinct keys are permutations as soon as they have the same entries. -/
theorem perm_of_mem_iff {left right : List Entry} (leftDistinct : (left.map key).Nodup)
    (rightDistinct : (right.map key).Nodup) (same : ∀ entry, entry ∈ left ↔ entry ∈ right) : left.Perm right :=
  (perm_ext_iff_of_nodup (Nodup.of_map key leftDistinct) (Nodup.of_map key rightDistinct)).mpr same

theorem distinct_filter {entries : List Entry} (distinct : (entries.map key).Nodup) (test : Entry → Bool) :
    ((entries.filter test).map key).Nodup :=
  distinct.sublist ((filter_sublist).map key)

end SortByKey

section Routing

/-- The index of the page whose range holds a key, or none when the key is behind every page. -/
def pageOf (starts : List Nat) (tail key : Nat) : Option Nat :=
  if starts.isEmpty || decide (tail ≤ key) then none
  else some ((starts.takeWhile fun start => start ≤ key).length - 1)

theorem takeWhile_length_iff {starts : List Nat} (ascending : starts.Pairwise (· < ·)) (key : Nat) {index start : Nat}
    (located : starts[index]? = some start) :
    start ≤ key ↔ index < (starts.takeWhile fun start => start ≤ key).length := by
  induction starts generalizing index with
  | nil => simp at located
  | cons first rest ih =>
    obtain ⟨firstBelow, restAscending⟩ := pairwise_cons.mp ascending
    by_cases reached : first ≤ key
    · rw [takeWhile_cons_of_pos (by simpa using reached), length_cons]
      cases index with
      | zero =>
        simp only [getElem?_cons_zero, Option.some.injEq] at located
        subst located
        simp [reached]
      | succ index =>
        rw [getElem?_cons_succ] at located
        rw [ih restAscending located]
        omega
    · rw [takeWhile_cons_of_neg (by simpa using reached)]
      have later : key < start := by
        cases index with
        | zero =>
          simp only [getElem?_cons_zero, Option.some.injEq] at located
          omega
        | succ index =>
          rw [getElem?_cons_succ] at located
          have := firstBelow start (mem_of_getElem? located)
          omega
      simp only [length_nil, Nat.not_lt_zero, iff_false]
      omega

/-- A key that a page's start reaches and no later start does is routed to that page. -/
theorem pageOf_eq_some {starts : List Nat} {tail key index start : Nat} (ascending : starts.Pairwise (· < ·))
    (located : starts[index]? = some start) (reached : start ≤ key) (below : key < tail)
    (later : ∀ next, starts[index + 1]? = some next → key < next) : pageOf starts tail key = some index := by
  have indexReached := (takeWhile_length_iff ascending key located).mp reached
  have stops : (starts.takeWhile fun start => start ≤ key).length ≤ index + 1 := by
    by_contra beyond
    have nextInRange : index + 1 < starts.length := by
      have := Sublist.length_le (takeWhile_sublist (fun start => decide (start ≤ key)) (l := starts))
      omega
    obtain ⟨next, nextAt⟩ : ∃ next, starts[index + 1]? = some next :=
      ⟨_, getElem?_eq_getElem nextInRange⟩
    have nextReached := (takeWhile_length_iff ascending key nextAt).mpr (by omega)
    have := later next nextAt
    omega
  have nonempty : starts.isEmpty = false := by
    cases starts with
    | nil => simp at located
    | cons => rfl
  rw [pageOf, nonempty, Bool.false_or, if_neg (by simpa using below)]
  congr 1
  omega

theorem pageOf_none {starts : List Nat} {tail key : Nat} (behind : tail ≤ key) : pageOf starts tail key = none := by
  rw [pageOf, if_pos]
  simp [behind]

theorem pageOf_none_iff {starts : List Nat} {tail key : Nat} (notEmpty : starts ≠ []) :
    pageOf starts tail key = none ↔ tail ≤ key := by
  have nonempty : starts.isEmpty = false := by
    cases starts with
    | nil => exact absurd rfl notEmpty
    | cons => rfl
  rw [pageOf, nonempty, Bool.false_or]
  by_cases behind : tail ≤ key <;> simp [behind]

theorem pageOf_lt {starts : List Nat} {tail key index : Nat} (routed : pageOf starts tail key = some index) :
    index < starts.length := by
  rw [pageOf] at routed
  split at routed
  · cases routed
  · rename_i notBehind
    have bound := Sublist.length_le (takeWhile_sublist (fun start => decide (start ≤ key)) (l := starts))
    have nonempty : 0 < starts.length := by
      cases starts with
      | nil => simp at notBehind
      | cons => simp
    simp only [Option.some.injEq] at routed
    omega

end Routing

section Layouts

variable {Entry : Type}

/-- The entries of one page with the key its range starts at. -/
structure PageGroup (Entry : Type) where
  firstKey : Nat
  entries : List Entry

/-- Groups in key order, all below the tail, and the entries of the rest behind it. -/
structure Layout (key : Entry → Nat) (groups : List (PageGroup Entry)) (rest : List Entry) (tail : Nat) : Prop where
  ordered : groups.Pairwise fun left right =>
    left.firstKey < right.firstKey ∧ ∀ entry ∈ left.entries, key entry < right.firstKey
  starts : ∀ group ∈ groups, group.firstKey < tail
  inside : ∀ group ∈ groups, ∀ entry ∈ group.entries, group.firstKey ≤ key entry ∧ key entry < tail
  behind : ∀ entry ∈ rest, tail ≤ key entry

/-- Every entry of the groups and the rest. -/
def contents (groups : List (PageGroup Entry)) (rest : List Entry) : List Entry :=
  groups.flatMap (·.entries) ++ rest

namespace Layout

variable {key : Entry → Nat} {groups : List (PageGroup Entry)} {rest : List Entry} {tail : Nat}

theorem ascending (layout : Layout key groups rest tail) : (groups.map (·.firstKey)).Pairwise (· < ·) := by
  rw [pairwise_map]
  exact layout.ordered.imp fun pair => pair.1

theorem pageOf_group (layout : Layout key groups rest tail) {index : Nat} {group : PageGroup Entry}
    (located : groups[index]? = some group) {entry : Entry} (member : entry ∈ group.entries) :
    pageOf (groups.map (·.firstKey)) tail (key entry) = some index := by
  have groupIn := mem_of_getElem? located
  obtain ⟨reached, below⟩ := layout.inside group groupIn entry member
  apply pageOf_eq_some layout.ascending (by simp [located]) reached below
  intro next nextAt
  rw [getElem?_map, Option.map_eq_some_iff] at nextAt
  obtain ⟨nextGroup, nextGroupAt, rfl⟩ := nextAt
  obtain ⟨indexBound, indexAt⟩ := List.getElem?_eq_some_iff.mp located
  obtain ⟨nextBound, nextIndexAt⟩ := List.getElem?_eq_some_iff.mp nextGroupAt
  have pair := pairwise_iff_getElem.mp layout.ordered index (index + 1) indexBound nextBound (Nat.lt_succ_self index)
  rw [indexAt, nextIndexAt] at pair
  exact pair.2 entry member

theorem pageOf_rest (layout : Layout key groups rest tail) {entry : Entry} (member : entry ∈ rest) :
    pageOf (groups.map (·.firstKey)) tail (key entry) = none :=
  pageOf_none (layout.behind entry member)

theorem mem_contents {entry : Entry} :
    entry ∈ contents groups rest ↔
      (∃ (index : Nat) (group : PageGroup Entry), groups[index]? = some group ∧ entry ∈ group.entries) ∨ entry ∈ rest := by
  rw [contents, mem_append, mem_flatMap]
  apply or_congr _ Iff.rfl
  constructor
  · rintro ⟨group, groupIn, member⟩
    obtain ⟨index, located⟩ := getElem?_of_mem groupIn
    exact ⟨index, group, located, member⟩
  · rintro ⟨index, group, located, member⟩
    exact ⟨group, mem_of_getElem? located, member⟩

/-- The entries routed to a page are those of its group. -/
theorem mem_group_iff (layout : Layout key groups rest tail) {whole : List Entry}
    (laidOut : ∀ entry, entry ∈ whole ↔ entry ∈ contents groups rest) {index : Nat} {group : PageGroup Entry}
    (located : groups[index]? = some group) (entry : Entry) :
    entry ∈ whole ∧ pageOf (groups.map (·.firstKey)) tail (key entry) = some index ↔ entry ∈ group.entries := by
  constructor
  · rintro ⟨member, routed⟩
    rcases mem_contents.mp ((laidOut entry).mp member) with ⟨other, otherGroup, otherAt, inOther⟩ | inRest
    · rw [layout.pageOf_group otherAt inOther, Option.some.injEq] at routed
      subst routed
      rw [located, Option.some.injEq] at otherAt
      rwa [otherAt]
    · rw [layout.pageOf_rest inRest] at routed
      cases routed
  · intro member
    refine ⟨(laidOut entry).mpr (mem_contents.mpr (.inl ⟨index, group, located, member⟩)), ?_⟩
    exact layout.pageOf_group located member

/-- The entries routed behind every page are those of the rest. -/
theorem mem_rest_iff (layout : Layout key groups rest tail) {whole : List Entry}
    (laidOut : ∀ entry, entry ∈ whole ↔ entry ∈ contents groups rest) (entry : Entry) :
    entry ∈ whole ∧ pageOf (groups.map (·.firstKey)) tail (key entry) = none ↔ entry ∈ rest := by
  constructor
  · rintro ⟨member, routed⟩
    rcases mem_contents.mp ((laidOut entry).mp member) with ⟨index, group, located, inGroup⟩ | inRest
    · rw [layout.pageOf_group located inGroup] at routed
      cases routed
    · exact inRest
  · intro member
    exact ⟨(laidOut entry).mpr (mem_contents.mpr (.inr member)), layout.pageOf_rest member⟩

/-- Groups in strict key order and a rest with distinct keys lay out distinct keys. -/
theorem distinct (layout : Layout key groups rest tail)
    (ascending : ∀ group ∈ groups, group.entries.Pairwise fun left right => key left < key right)
    (restDistinct : (rest.map key).Nodup) : ((contents groups rest).map key).Nodup := by
  rw [contents, map_append, nodup_append]
  refine ⟨?_, restDistinct, ?_⟩
  · rw [Nodup, pairwise_map, pairwise_flatMap]
    refine ⟨fun group member => (ascending group member).imp Nat.ne_of_lt, ?_⟩
    apply layout.ordered.imp_of_mem
    intro left right leftIn rightIn pair entry entryIn other otherIn
    have below := pair.2 entry entryIn
    have above := (layout.inside right rightIn other otherIn).1
    omega
  · intro value inGroups other inRest same
    obtain ⟨entry, entryIn, rfl⟩ := mem_map.mp inGroups
    obtain ⟨restEntry, restIn, rfl⟩ := mem_map.mp inRest
    obtain ⟨group, groupIn, inGroup⟩ := mem_flatMap.mp entryIn
    have below := (layout.inside group groupIn entry inGroup).2
    have behind := layout.behind restEntry restIn
    omega

theorem of_sublist (layout : Layout key groups rest tail) {kept : List (PageGroup Entry)} (sublist : kept.Sublist groups) :
    Layout key kept rest tail where
  ordered := layout.ordered.sublist sublist
  starts group member := layout.starts group (sublist.subset member)
  inside group member := layout.inside group (sublist.subset member)
  behind := layout.behind

/-- The last group becomes the rest when nothing else is behind the groups. -/
theorem pullBack {last : PageGroup Entry} (layout : Layout key (groups ++ [last]) rest tail) :
    Layout key groups last.entries (if groups = [] then 0 else last.firstKey) where
  ordered := (pairwise_append.mp layout.ordered).1
  starts group member := by
    have pair := (pairwise_append.mp layout.ordered).2.2 group member last (mem_singleton_self last)
    rw [if_neg (ne_nil_of_mem member)]
    exact pair.1
  inside group member entry entryIn := by
    have pair := (pairwise_append.mp layout.ordered).2.2 group member last (mem_singleton_self last)
    rw [if_neg (ne_nil_of_mem member)]
    exact ⟨(layout.inside group (mem_append_left _ member) entry entryIn).1, pair.2 entry entryIn⟩
  behind entry member := by
    have reached := (layout.inside last (mem_append_right _ (mem_singleton_self last)) entry member).1
    split
    · exact Nat.zero_le _
    · exact reached

end Layout

/-- The group of an edited list: the entries under the keys that the group had. -/
def regroup (key : Entry → Nat) (edited : List Entry) (group : PageGroup Entry) : PageGroup Entry :=
  ⟨group.firstKey, sortBy key (edited.filter fun entry => (group.entries.map key).contains (key entry))⟩

/-- Every entry of the edited list is behind the tail or under a key of the list before. -/
def EditsAbove (key : Entry → Nat) (tail : Nat) (whole edited : List Entry) : Prop :=
  ∀ entry ∈ edited, tail ≤ key entry ∨ ∃ before ∈ whole, key before = key entry

section Edits

variable {key : Entry → Nat} {groups : List (PageGroup Entry)} {rest : List Entry} {tail : Nat} {edited : List Entry}

theorem mem_regroup {group : PageGroup Entry} {entry : Entry} :
    entry ∈ (regroup key edited group).entries ↔ entry ∈ edited ∧ ∃ before ∈ group.entries, key before = key entry := by
  simp [regroup]

theorem Layout.regroup (layout : Layout key groups rest tail) (edited : List Entry) :
    Layout key (groups.map (Library.regroup key edited)) (edited.filter fun entry => tail ≤ key entry) tail where
  ordered := by
    rw [pairwise_map]
    apply layout.ordered.imp
    intro left right pair
    refine ⟨pair.1, ?_⟩
    intro entry member
    obtain ⟨-, before, beforeIn, same⟩ := mem_regroup.mp member
    rw [← same]
    exact pair.2 before beforeIn
  starts group member := by
    obtain ⟨old, oldIn, rfl⟩ := mem_map.mp member
    exact layout.starts old oldIn
  inside group member entry entryIn := by
    obtain ⟨old, oldIn, rfl⟩ := mem_map.mp member
    obtain ⟨-, before, beforeIn, same⟩ := mem_regroup.mp entryIn
    rw [← same]
    exact layout.inside old oldIn before beforeIn
  behind entry member := by
    simpa using (mem_filter.mp member).2

theorem mem_contents_regroup (layout : Layout key groups rest tail) {whole : List Entry}
    (laidOut : ∀ entry, entry ∈ whole ↔ entry ∈ contents groups rest) (edits : EditsAbove key tail whole edited)
    (entry : Entry) :
    entry ∈ edited ↔
      entry ∈ contents (groups.map (regroup key edited)) (edited.filter fun entry => tail ≤ key entry) := by
  rw [contents, mem_append, mem_flatMap]
  constructor
  · intro member
    by_cases behind : tail ≤ key entry
    · exact .inr (mem_filter.mpr ⟨member, by simpa using behind⟩)
    · left
      rcases edits entry member with open' | ⟨before, beforeIn, same⟩
      · exact absurd open' behind
      · rcases Layout.mem_contents.mp ((laidOut before).mp beforeIn) with ⟨index, group, located, inGroup⟩ | inRest
        · refine ⟨regroup key edited group, mem_map_of_mem (mem_of_getElem? located), ?_⟩
          exact mem_regroup.mpr ⟨member, before, inGroup, same⟩
        · have := layout.behind before inRest
          omega
  · rintro (⟨group, groupIn, inGroup⟩ | inRest)
    · obtain ⟨old, -, rfl⟩ := mem_map.mp groupIn
      exact (mem_regroup.mp inGroup).1
    · exact (mem_filter.mp inRest).1

/-- A group does not grow when the list is edited with distinct keys. -/
theorem length_regroup_le (distinct : (edited.map key).Nodup) (group : PageGroup Entry) :
    (regroup key edited group).entries.length ≤ group.entries.length := by
  have keys : (((regroup key edited group).entries).map key).Nodup :=
    distinct_sortBy (distinct_filter distinct _)
  have within : ((regroup key edited group).entries.map key) ⊆ group.entries.map key := by
    intro value member
    obtain ⟨entry, entryIn, rfl⟩ := mem_map.mp member
    obtain ⟨-, before, beforeIn, same⟩ := mem_regroup.mp entryIn
    exact mem_map.mpr ⟨before, beforeIn, same⟩
  simpa using (subperm_of_subset keys within).length_le

end Edits

section OpenGroups

/-- Full groups are cut off the front of a sorted list while the entry behind them is at most the bound. -/
def openGroups (key : Entry → Nat) (size : Nat) (bound : WithTop Nat) :
    (fuel : Nat) → List Entry → List (PageGroup Entry) × List Entry
  | 0, entries => ([], entries)
  | fuel + 1, entries =>
    match entries[size]? with
    | none => ([], entries)
    | some next =>
      if (key next : WithTop Nat) ≤ bound then
        let cut := openGroups key size bound fuel (entries.drop size)
        (⟨(entries.head?.map key).getD 0, entries.take size⟩ :: cut.1, cut.2)
      else ([], entries)

/-- The first key behind the groups that were cut off. -/
def openTail (key : Entry → Nat) (tail : Nat) (cut : List (PageGroup Entry) × List Entry) : Nat :=
  if cut.1 = [] then tail else (cut.2.head?.map key).getD 0

variable {key : Entry → Nat} {size : Nat} {bound : WithTop Nat}

theorem contents_openGroups (fuel : Nat) (entries : List Entry) :
    contents (openGroups key size bound fuel entries).1 (openGroups key size bound fuel entries).2 = entries := by
  induction fuel generalizing entries with
  | zero => rfl
  | succ fuel ih =>
    rw [openGroups]
    cases located : entries[size]? with
    | none => rfl
    | some next =>
      by_cases reached : (key next : WithTop Nat) ≤ bound
      · have cut := ih (entries.drop size)
        rw [contents] at cut
        simp only [reached, if_true, contents, flatMap_cons, append_assoc, cut]
        exact take_append_drop size entries
      · simp [reached, contents]

theorem openGroups_entries (fuel : Nat) (entries : List Entry) :
    ∀ group ∈ (openGroups key size bound fuel entries).1, group.entries.length = size := by
  induction fuel generalizing entries with
  | zero => simp [openGroups]
  | succ fuel ih =>
    rw [openGroups]
    cases located : entries[size]? with
    | none => simp
    | some next =>
      obtain ⟨long, -⟩ := List.getElem?_eq_some_iff.mp located
      by_cases reached : (key next : WithTop Nat) ≤ bound
      · simp only [reached, if_true, mem_cons, forall_eq_or_imp]
        exact ⟨by simp; omega, ih (entries.drop size)⟩
      · simp [reached]

theorem openGroups_sublist (fuel : Nat) (entries : List Entry) :
    ∀ group ∈ (openGroups key size bound fuel entries).1, group.entries.Sublist entries := by
  induction fuel generalizing entries with
  | zero => simp [openGroups]
  | succ fuel ih =>
    rw [openGroups]
    cases located : entries[size]? with
    | none => simp
    | some next =>
      by_cases reached : (key next : WithTop Nat) ≤ bound
      · simp only [reached, if_true, mem_cons, forall_eq_or_imp]
        refine ⟨take_sublist size entries, ?_⟩
        intro group member
        exact (ih (entries.drop size) group member).trans (drop_sublist size entries)
      · simp [reached]

theorem openGroups_rest_sublist (fuel : Nat) (entries : List Entry) :
    (openGroups key size bound fuel entries).2.Sublist entries := by
  have all := @contents_openGroups Entry key size bound fuel entries
  rw [contents] at all
  conv_rhs => rw [← all]
  exact sublist_append_right _ _

theorem openGroups_empty_rest {fuel : Nat} {entries : List Entry}
    (noneCut : (openGroups key size bound fuel entries).1 = []) : (openGroups key size bound fuel entries).2 = entries := by
  have all := @contents_openGroups Entry key size bound fuel entries
  rwa [noneCut, contents, flatMap_nil, nil_append] at all

/-- A cut leaves an entry in the rest. -/
theorem openGroups_rest_ne {fuel : Nat} {entries : List Entry} (nonempty : entries ≠ []) :
    (openGroups key size bound fuel entries).2 ≠ [] := by
  induction fuel generalizing entries with
  | zero => exact nonempty
  | succ fuel ih =>
    rw [openGroups]
    cases located : entries[size]? with
    | none => exact nonempty
    | some next =>
      obtain ⟨long, -⟩ := List.getElem?_eq_some_iff.mp located
      by_cases reached : (key next : WithTop Nat) ≤ bound
      · simp only [reached, if_true]
        apply ih
        rw [ne_eq, drop_eq_nil_iff]
        omega
      · simpa [reached] using nonempty

/-- A cut keeps every entry, in full groups and in the rest. -/
theorem openGroups_count (fuel : Nat) (entries : List Entry) :
    (openGroups key size bound fuel entries).1.length * size + (openGroups key size bound fuel entries).2.length =
      entries.length := by
  induction fuel generalizing entries with
  | zero => simp [openGroups]
  | succ fuel ih =>
    rw [openGroups]
    cases located : entries[size]? with
    | none => simp
    | some next =>
      obtain ⟨long, -⟩ := List.getElem?_eq_some_iff.mp located
      by_cases reached : (key next : WithTop Nat) ≤ bound
      · have later := ih (entries.drop size)
        rw [length_drop] at later
        simp only [reached, if_true, length_cons, Nat.add_mul, Nat.one_mul]
        omega
      · simp [reached]

/-- No group is cut off the list: it is short, or the entry behind its first group is above the bound. -/
def Uncut (key : Entry → Nat) (size : Nat) (bound : WithTop Nat) (entries : List Entry) : Prop :=
  ∀ next, entries[size]? = some next → ¬(key next : WithTop Nat) ≤ bound

theorem uncut_of_short {entries : List Entry} (short : entries.length ≤ size) : Uncut key size bound entries := by
  intro next located
  rw [getElem?_eq_none short] at located
  cases located

theorem Uncut.short {entries : List Entry} (uncut : Uncut key size ⊤ entries) : entries.length ≤ size := by
  by_contra long
  obtain ⟨next, located⟩ : ∃ next, entries[size]? = some next :=
    ⟨_, getElem?_eq_getElem (Nat.lt_of_not_le long)⟩
  exact uncut next located le_top

theorem Uncut.openGroups_eq {entries : List Entry} (uncut : Uncut key size bound entries) (fuel : Nat) :
    openGroups key size bound fuel entries = ([], entries) := by
  cases fuel with
  | zero => rfl
  | succ fuel =>
    rw [openGroups]
    cases located : entries[size]? with
    | none => rfl
    | some next => simp [uncut next located]

/-- What a cut with enough fuel leaves is not cut again. -/
theorem openGroups_uncut (positive : 0 < size) {fuel : Nat} {entries : List Entry} (enough : entries.length ≤ fuel) :
    Uncut key size bound (openGroups key size bound fuel entries).2 := by
  induction fuel generalizing entries with
  | zero => exact uncut_of_short (Nat.le_trans enough (Nat.zero_le _))
  | succ fuel ih =>
    rw [openGroups]
    cases located : entries[size]? with
    | none =>
      intro next other
      rw [located] at other
      cases other
    | some next =>
      by_cases reached : (key next : WithTop Nat) ≤ bound
      · simp only [reached, if_true]
        apply ih
        rw [length_drop]
        omega
      · simp only [reached, if_false]
        intro other otherAt
        rw [located] at otherAt
        cases otherAt
        exact reached

/-- Groups that are cut off use up what the open entries can still fill. -/
theorem openGroups_reserve (positive : 0 < size) (fuel : Nat) (entries : List Entry) (appended : Nat) :
    (openGroups key size bound fuel entries).1.length +
        ((openGroups key size bound fuel entries).2.length + appended - 1) / size =
      (entries.length + appended - 1) / size := by
  have count := @openGroups_count Entry key size bound fuel entries
  by_cases noneCut : (openGroups key size bound fuel entries).1 = []
  · rw [openGroups_empty_rest noneCut, noneCut, length_nil, Nat.zero_add]
  · have opened : entries ≠ [] := by
      intro empty
      rw [empty] at noneCut
      apply noneCut
      cases fuel <;> rfl
    have restLeft := length_pos_iff.mpr (@openGroups_rest_ne Entry key size bound fuel entries opened)
    have split : entries.length + appended - 1 = ((openGroups key size bound fuel entries).2.length + appended - 1) +
        (openGroups key size bound fuel entries).1.length * size := by omega
    rw [split, Nat.add_mul_div_right _ _ positive, Nat.add_comm]

/-- The first key behind the cut groups is within the bound of the cut. -/
theorem openGroups_tail_le {fuel : Nat} {entries : List Entry} (cut : (openGroups key size bound fuel entries).1 ≠ []) :
    ((((openGroups key size bound fuel entries).2.head?.map key).getD 0 : Nat) : WithTop Nat) ≤ bound := by
  induction fuel generalizing entries with
  | zero => exact absurd rfl cut
  | succ fuel ih =>
    rw [openGroups] at cut ⊢
    cases located : entries[size]? with
    | none =>
      rw [located] at cut
      exact absurd rfl cut
    | some next =>
      rw [located] at cut
      by_cases reached : (key next : WithTop Nat) ≤ bound
      · simp only [reached, if_true]
        by_cases later : (openGroups key size bound fuel (entries.drop size)).1 = []
        · rw [openGroups_empty_rest later, head?_drop, located]
          exact reached
        · exact ih later
      · simp [reached] at cut

/-- One full group cut off the rest extends the layout. -/
theorem Layout.cutFront {groups : List (PageGroup Entry)} {entries : List Entry} {tail : Nat} {next : Entry}
    (layout : Layout key groups entries tail) (ascending : entries.Pairwise fun left right => key left < key right)
    (positive : 0 < size) (located : entries[size]? = some next) :
    Layout key (groups ++ [⟨(entries.head?.map key).getD 0, entries.take size⟩]) (entries.drop size) (key next) := by
  obtain ⟨long, nextEq⟩ := List.getElem?_eq_some_iff.mp located
  obtain ⟨first, others, rfl⟩ : ∃ first others, entries = first :: others := by
    cases entries with
    | nil => simp at long
    | cons first others => exact ⟨first, others, rfl⟩
  have dropEq : (first :: others).drop size = next :: (first :: others).drop (size + 1) := by
    rw [drop_eq_getElem_cons long, nextEq]
  have split := ascending
  rw [← take_append_drop size (first :: others), pairwise_append] at split
  have takeBelow : ∀ entry ∈ (first :: others).take size, key entry < key next := fun entry member =>
    split.2.2 entry member next (by rw [dropEq]; exact mem_cons_self)
  have firstTaken : first ∈ (first :: others).take size := by
    obtain ⟨before, rfl⟩ : ∃ before, size = before + 1 := ⟨size - 1, by omega⟩
    simp
  have firstLeast : ∀ entry ∈ first :: others, key first ≤ key entry := by
    intro entry member
    rcases mem_cons.mp member with rfl | later
    · exact Nat.le_refl _
    · exact Nat.le_of_lt ((pairwise_cons.mp ascending).1 entry later)
  have firstBehind := layout.behind first mem_cons_self
  have firstBelow := takeBelow first firstTaken
  have head : ((first :: others).head?.map key).getD 0 = key first := rfl
  rw [head]
  refine ⟨?_, ?_, ?_, ?_⟩
  · rw [pairwise_append]
    refine ⟨layout.ordered, pairwise_singleton _ _, ?_⟩
    intro group member other otherIn
    obtain rfl := mem_singleton.mp otherIn
    refine ⟨Nat.lt_of_lt_of_le (layout.starts group member) firstBehind, ?_⟩
    intro entry entryIn
    exact Nat.lt_of_lt_of_le (layout.inside group member entry entryIn).2 firstBehind
  · intro group member
    rcases mem_append.mp member with old | new
    · have := layout.starts group old
      omega
    · obtain rfl := mem_singleton.mp new
      exact firstBelow
  · intro group member entry entryIn
    rcases mem_append.mp member with old | new
    · have := layout.inside group old entry entryIn
      omega
    · obtain rfl := mem_singleton.mp new
      exact ⟨firstLeast entry (mem_of_mem_take entryIn), takeBelow entry entryIn⟩
  · intro entry member
    rw [dropEq] at member
    rcases mem_cons.mp member with rfl | later
    · exact Nat.le_refl _
    · have dropAscending := split.2.1
      rw [dropEq] at dropAscending
      exact Nat.le_of_lt ((pairwise_cons.mp dropAscending).1 entry later)

theorem openTail_cons {fuel : Nat} {entries : List Entry} {next : Entry} (located : entries[size]? = some next)
    (group : PageGroup Entry) (tail : Nat) :
    openTail key tail (group :: (openGroups key size bound fuel (entries.drop size)).1,
        (openGroups key size bound fuel (entries.drop size)).2) =
      openTail key (key next) (openGroups key size bound fuel (entries.drop size)) := by
  rw [openTail, openTail, if_neg (cons_ne_nil _ _)]
  split
  · rename_i noneCut
    have head : (entries.drop size).head? = some next := by rw [head?_drop, located]
    rw [openGroups_empty_rest noneCut, head]
    rfl
  · rfl

/-- The groups cut off the rest extend the layout. -/
theorem Layout.openGroups {groups : List (PageGroup Entry)} {entries : List Entry} {tail : Nat} (fuel : Nat)
    (layout : Layout key groups entries tail) (ascending : entries.Pairwise fun left right => key left < key right)
    (positive : 0 < size) :
    Layout key (groups ++ (Library.openGroups key size bound fuel entries).1)
      (Library.openGroups key size bound fuel entries).2 (openTail key tail (Library.openGroups key size bound fuel entries)) := by
  induction fuel generalizing groups entries tail with
  | zero => simpa [Library.openGroups, openTail] using layout
  | succ fuel ih =>
    rw [Library.openGroups]
    cases located : entries[size]? with
    | none => simpa [openTail] using layout
    | some next =>
      by_cases reached : (key next : WithTop Nat) ≤ bound
      · have cut := ih (layout.cutFront ascending positive located)
          (ascending.sublist (drop_sublist size entries))
        simp only [reached, if_true]
        rw [openTail_cons located]
        rwa [append_assoc] at cut
      · simpa [reached, openTail] using layout

end OpenGroups

end Layouts

theorem min?_le {Value : Type} [LinearOrder Value] {values : List Value} {least : Value} (found : values.min? = some least) :
    ∀ value ∈ values, least ≤ value := by
  have lawful : Std.LawfulOrderMin Value := { le_min_iff := fun _ _ _ => le_min_iff, min_eq_or := min_choice }
  exact (min?_eq_some_iff.mp found).2

/-- Values above one of a list do not change its least value. -/
theorem min?_eq_of_dominated {Value : Type} [LinearOrder Value] {fewer all : List Value} (within : ∀ value ∈ fewer, value ∈ all)
    (dominated : ∀ value ∈ all, ∃ least ∈ fewer, least ≤ value) : fewer.min? = all.min? := by
  have lawful : Std.LawfulOrderMin Value := { le_min_iff := fun _ _ _ => le_min_iff, min_eq_or := min_choice }
  cases found : all.min? with
  | none =>
    rw [min?_eq_none_iff] at found ⊢
    apply eq_nil_iff_forall_not_mem.mpr
    intro value member
    rw [found] at within
    cases within value member
  | some least =>
    rw [min?_eq_some_iff] at found ⊢
    obtain ⟨member, isLeast⟩ := found
    obtain ⟨value, valueIn, bound⟩ := dominated least member
    have same : value = least := le_antisymm bound (isLeast value (within value valueIn))
    rw [same] at valueIn
    exact ⟨valueIn, fun other otherIn => isLeast other (within other otherIn)⟩

end Ravel.Library
