/-
This file develops stable sorts: how they filter, which element they put last, and how a fold finds that element.
-/

import Mathlib.Data.List.Sort

namespace Ravel.Library

open List

section StableSorts

variable {Entry : Type} (before : Entry → Entry → Prop) [DecidableRel before]

/-- The fold keeps the incumbent only when the next entry is not at or after it. -/
def pickLater (pick : Option Entry) (entry : Entry) : Option Entry :=
  match pick with
  | none => some entry
  | some incumbent => if before incumbent entry then some entry else some incumbent

/-- The last entry that passes a test. -/
def lastPassing (test : Entry → Bool) (entries : List Entry) : Option Entry :=
  (entries.filter test).getLast?

theorem lastPassing_append (test : Entry → Bool) (first second : List Entry) :
    lastPassing test (first ++ second) = (lastPassing test second).or (lastPassing test first) := by
  rw [lastPassing, filter_append, getLast?_append, lastPassing, lastPassing]

theorem lastPassing_map {Image : Type} (test : Image → Bool) (view : Entry → Image) (entries : List Entry) :
    lastPassing test (entries.map view) = (lastPassing (test ∘ view) entries).map view := by
  rw [lastPassing, filter_map, getLast?_map, lastPassing]

theorem lastPassing_eq_none {test : Entry → Bool} {entries : List Entry} :
    lastPassing test entries = none ↔ ∀ entry ∈ entries, ¬test entry := by
  rw [lastPassing, getLast?_eq_none_iff, filter_eq_nil_iff]

theorem mem_of_lastPassing {test : Entry → Bool} {entries : List Entry} {entry : Entry}
    (found : lastPassing test entries = some entry) : entry ∈ entries ∧ test entry := by
  have member := mem_of_getLast? found
  exact mem_filter.mp member

/-- A view that keeps the order keeps the choice of the fold. -/
theorem foldl_pickLater_map {Image : Type} (after : Image → Image → Prop) [DecidableRel after] (view : Entry → Image)
    (entries : List Entry) (agrees : ∀ left ∈ entries, ∀ right ∈ entries, before left right ↔ after (view left) (view right)) :
    (entries.map view).foldl (pickLater after) none = (entries.foldl (pickLater before) none).map view := by
  suffices run : ∀ (rest : List Entry) (pick : Option Entry), (∀ entry ∈ rest, entry ∈ entries) →
      (∀ entry, pick = some entry → entry ∈ entries) →
      (rest.map view).foldl (pickLater after) (pick.map view) = (rest.foldl (pickLater before) pick).map view from
    run entries none (fun _ member => member) fun _ none => nomatch none
  intro rest
  induction rest with
  | nil =>
    intro pick _ _
    rfl
  | cons entry rest ih =>
    intro pick within picked
    have entryIn := within entry mem_cons_self
    have stepped : pickLater after (pick.map view) (view entry) = (pickLater before pick entry).map view := by
      cases pick with
      | none => rfl
      | some incumbent =>
        have same := agrees incumbent (picked incumbent rfl) entry entryIn
        by_cases ordered : before incumbent entry
        · simp [pickLater, ordered, same.mp ordered]
        · simp [pickLater, ordered, mt same.mpr ordered]
    rw [map_cons, foldl_cons, foldl_cons, stepped]
    apply ih _ fun other member => within other (mem_cons_of_mem entry member)
    intro other chosen
    cases pick with
    | none =>
      cases chosen
      exact entryIn
    | some incumbent =>
      rw [pickLater] at chosen
      split at chosen <;> cases chosen
      · exact entryIn
      · exact picked _ rfl

variable [IsTrans Entry before]

/-- The filter of an insertion into a sorted list is the insertion into the filtered list. -/
theorem filter_orderedInsert (test : Entry → Bool) (entry : Entry) {entries : List Entry}
    (sorted : entries.Pairwise before) :
    (entries.orderedInsert before entry).filter test =
      if test entry then (entries.filter test).orderedInsert before entry else entries.filter test := by
  induction entries with
  | nil => cases passes : test entry <;> simp [passes]
  | cons head rest ih =>
    obtain ⟨headFirst, restSorted⟩ := pairwise_cons.mp sorted
    by_cases placed : before entry head
    · have firstOfAll : ∀ other ∈ (head :: rest).filter test, before entry other := by
        intro other member
        rcases mem_cons.mp (mem_filter.mp member).1 with rfl | later
        · exact placed
        · exact IsTrans.trans _ _ _ placed (headFirst other later)
      rw [orderedInsert_cons_of_le before rest placed, filter_cons]
      split
      · cases filtered : (head :: rest).filter test with
        | nil => rfl
        | cons first others =>
          rw [filtered] at firstOfAll
          rw [orderedInsert_cons_of_le before others (firstOfAll first mem_cons_self)]
      · rfl
    · rw [orderedInsert_of_not_le before rest placed, filter_cons, ih restSorted,
        filter_cons]
      by_cases passes : test entry <;> by_cases headPasses : test head <;>
        simp [passes, headPasses, orderedInsert_of_not_le before _ placed]

/-- An insertion leaves the last entry, unless the new one is after it. -/
theorem getLast?_orderedInsert (entry : Entry) {entries : List Entry} (sorted : entries.Pairwise before) :
    (entries.orderedInsert before entry).getLast? =
      match entries.getLast? with
      | none => some entry
      | some last => if before entry last then some last else some entry := by
  induction entries with
  | nil => rfl
  | cons head rest ih =>
    obtain ⟨headFirst, restSorted⟩ := pairwise_cons.mp sorted
    have later := ih restSorted
    by_cases placed : before entry head
    · rw [orderedInsert_cons_of_le before rest placed]
      obtain ⟨last, isLast⟩ : ∃ last, (head :: rest).getLast? = some last :=
        ⟨_, getLast?_eq_some_getLast (cons_ne_nil head rest)⟩
      have placedLast : before entry last := by
        rcases mem_cons.mp (mem_of_getLast? isLast) with rfl | member
        · exact placed
        · exact IsTrans.trans _ _ _ placed (headFirst last member)
      rw [isLast, getLast?_cons_cons, isLast]
      simp [placedLast]
    · rw [orderedInsert_of_not_le before rest placed]
      have nonempty : rest.orderedInsert before entry ≠ [] := ne_nil_of_mem ((mem_orderedInsert before).mpr (.inl rfl))
      rw [getLast?_cons_of_ne_nil nonempty, later]
      cases rest with
      | nil => simp [placed]
      | cons next others => rw [getLast?_cons_cons]

variable [Std.Total before]

variable (test : Entry → Bool) (entries : List Entry)

/-- A stable sort and a filter commute. -/
theorem filter_insertionSort :
    (entries.insertionSort before).filter test = (entries.filter test).insertionSort before := by
  induction entries with
  | nil => rfl
  | cons entry rest ih =>
    rw [insertionSort_cons, filter_orderedInsert before test entry (pairwise_insertionSort before rest),
      ih, filter_cons]
    split
    · rw [insertionSort_cons]
    · rfl

/-- A fold from an incumbent compares the incumbent with the choice among the rest. -/
theorem foldl_pickLater_some : ∀ incumbent : Entry,
    entries.foldl (pickLater before) (some incumbent) =
      match entries.foldl (pickLater before) none with
      | none => some incumbent
      | some chosen => if before incumbent chosen then some chosen else some incumbent := by
  induction entries with
  | nil =>
    intro incumbent
    rfl
  | cons entry rest ih =>
    intro incumbent
    have compare : ∀ left right : Entry, before left right ∨ before right left := Std.Total.total
    have chain : ∀ first second third : Entry, before first second → before second third → before first third :=
      IsTrans.trans
    rw [foldl_cons, foldl_cons, pickLater, pickLater, ih entry]
    by_cases ordered : before incumbent entry
    · rw [if_pos ordered, ih entry]
      cases rest.foldl (pickLater before) none with
      | none => simp [ordered]
      | some chosen => grind
    · rw [if_neg ordered, ih incumbent]
      cases rest.foldl (pickLater before) none with
      | none => simp [ordered]
      | some chosen => grind

/-- The fold finds the last entry of the stable sort. -/
theorem getLast?_insertionSort : (entries.insertionSort before).getLast? = entries.foldl (pickLater before) none := by
  induction entries with
  | nil => rfl
  | cons entry rest ih =>
    rw [insertionSort_cons, getLast?_orderedInsert before entry (pairwise_insertionSort before rest),
      ih, foldl_cons, pickLater, foldl_pickLater_some before rest entry]

/-- The last passing entry of a stable sort is the choice of the fold over the passing entries. -/
theorem lastPassing_insertionSort :
    lastPassing test (entries.insertionSort before) = (entries.filter test).foldl (pickLater before) none := by
  rw [lastPassing, filter_insertionSort, getLast?_insertionSort]

/-- Every passing entry is at or before the last passing entry of a stable sort. -/
theorem before_lastPassing_insertionSort {test : Entry → Bool} {entries : List Entry} {last : Entry}
    (found : lastPassing test (entries.insertionSort before) = some last) {entry : Entry} (member : entry ∈ entries)
    (passes : test entry) : before entry last := by
  have sorted : ((entries.insertionSort before).filter test).Pairwise before :=
    (pairwise_insertionSort before entries).filter test
  have listed : entry ∈ (entries.insertionSort before).filter test :=
    mem_filter.mpr ⟨(mem_insertionSort before).mpr member, passes⟩
  obtain ⟨front, split⟩ := getLast?_eq_some_iff.mp found
  rw [split] at sorted listed
  rcases mem_append.mp listed with earlier | own
  · exact (pairwise_append.mp sorted).2.2 entry earlier last mem_cons_self
  · rw [mem_singleton.mp own]
    exact (Std.Total.total (r := before) last last).elim id id

end StableSorts

end Ravel.Library
