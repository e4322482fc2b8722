/-
This file develops the selection of the greatest item at each time, in ascending time order.
-/

import Mathlib.Data.Set.Basic

namespace TimedSelection

open List

variable {Item Time Key : Type} [LinearOrder Time] [LinearOrder Key]

/-- The item has the greatest key among the items of its time. -/
def Greatest (time : Item → Time) (key : Item → Key) (items : Set Item) (item : Item) : Prop :=
  item ∈ items ∧ ∀ other ∈ items, time other = time item → key other ≤ key item

/-- The list holds the greatest item of each time, in ascending order. -/
structure Selects (time : Item → Time) (key : Item → Key) (items : Set Item) (selected : List Item) : Prop where
  ascending : selected.Pairwise fun before after => time before < time after
  greatest : ∀ item, item ∈ selected ↔ Greatest time key items item

variable {time : Item → Time} {key : Item → Key} {items : Set Item}

/-- The selection is a function of the set of items. -/
theorem Selects.unique {first second : List Item} (left : Selects time key items first)
    (right : Selects time key items second) : first = second := by
  have distinct : ∀ {selected : List Item}, Selects time key items selected → selected.Nodup :=
    fun chosen => chosen.ascending.imp fun earlier same => absurd (congrArg time same) (ne_of_lt earlier)
  have reordered : first.Perm second :=
    (perm_ext_iff_of_nodup (distinct left) (distinct right)).mpr fun item => by
      rw [left.greatest, right.greatest]
  refine reordered.eq_of_pairwise ?_ left.ascending right.ascending
  intro before after _ _ forward backward
  exact absurd (lt_trans forward backward) (lt_irrefl _)

/-- No items select nothing. -/
theorem Selects.nil (empty : ∀ item, item ∉ items) : Selects time key items [] where
  ascending := List.Pairwise.nil
  greatest item := by
    constructor
    · intro member
      cases member
    · intro chosen
      exact absurd chosen.1 (empty item)

variable {selected : List Item}

/-- The earliest greatest item goes in front of the selection of the later ones. -/
theorem Selects.cons {best : Item} (chosen : Greatest time key items best)
    (first : ∀ other ∈ items, time best ≤ time other)
    (single : ∀ other ∈ items, time other = time best → key other = key best → other = best)
    (later : Selects time key {item | item ∈ items ∧ time best < time item} selected) :
    Selects time key items (best :: selected) where
  ascending := by
    refine pairwise_cons.mpr ⟨?_, later.ascending⟩
    intro item member
    exact ((later.greatest item).mp member).1.2
  greatest item := by
    rw [mem_cons, later.greatest]
    constructor
    · intro inside
      rcases inside with rfl | ⟨⟨member, after⟩, highest⟩
      · exact chosen
      · refine ⟨member, fun other otherMember sameTime => ?_⟩
        exact highest other ⟨otherMember, by rw [sameTime]; exact after⟩ sameTime
    · intro inside
      rcases lt_or_eq_of_le (first item inside.1) with after | sameTime
      · refine .inr ⟨⟨inside.1, after⟩, fun other otherMember equalTime => ?_⟩
        exact inside.2 other otherMember.1 equalTime
      · refine .inl (single item inside.1 sameTime.symm (le_antisymm ?_ ?_))
        · exact chosen.2 item inside.1 sameTime.symm
        · exact inside.2 best chosen.1 sameTime

/-- The selection of the items at some times is a part of the selection. -/
theorem Selects.restrict (selects : Selects time key items selected) (during : Time → Bool) :
    Selects time key {item | item ∈ items ∧ during (time item) = true} (selected.filter fun item => during (time item)) where
  ascending := selects.ascending.filter _
  greatest item := by
    rw [mem_filter, selects.greatest]
    constructor
    · rintro ⟨greatest, inside⟩
      exact ⟨⟨greatest.1, inside⟩, fun other member => greatest.2 other member.1⟩
    · rintro ⟨⟨member, inside⟩, greatest⟩
      refine ⟨⟨member, ?_⟩, inside⟩
      intro other otherMember sameTime
      exact greatest other ⟨otherMember, by rw [sameTime]; exact inside⟩ sameTime

/-- The list has items of the set only, in ascending order, and one at least as great as each item at its time. -/
structure Covers (time : Item → Time) (key : Item → Key) (items : Set Item) (selected : List Item) : Prop where
  ascending : selected.Pairwise fun before after => time before < time after
  inside : ∀ item ∈ selected, item ∈ items
  dominates : ∀ item ∈ items, ∃ best ∈ selected, time best = time item ∧ key item ≤ key best

theorem Covers.nil : Covers time key (∅ : Set Item) [] where
  ascending := List.Pairwise.nil
  inside item member := by cases member
  dominates item member := by cases member

/-- Two items of an ascending list at one time are the same. -/
theorem eq_of_time {first second : Item} (ascending : selected.Pairwise fun before after => time before < time after)
    (left : first ∈ selected) (right : second ∈ selected) (sameTime : time first = time second) : first = second := by
  induction selected with
  | nil => cases left
  | cons head rest ih =>
    obtain ⟨after, ascending⟩ := pairwise_cons.mp ascending
    rcases mem_cons.mp left with rfl | leftLater
    · rcases mem_cons.mp right with rfl | rightLater
      · rfl
      · exact absurd sameTime (ne_of_lt (after _ rightLater))
    · rcases mem_cons.mp right with rfl | rightLater
      · exact absurd sameTime.symm (ne_of_lt (after _ leftLater))
      · exact ih ascending leftLater rightLater

/-- A covering list is the selection when time and key fix an item. -/
theorem Covers.selects (covers : Covers time key items selected)
    (single : ∀ first second, time first = time second → key first = key second → first = second) :
    Selects time key items selected where
  ascending := covers.ascending
  greatest item := by
    constructor
    · intro member
      refine ⟨covers.inside item member, ?_⟩
      intro other inside sameTime
      obtain ⟨best, chosen, bestTime, atMost⟩ := covers.dominates other inside
      rwa [eq_of_time covers.ascending chosen member (bestTime.trans sameTime)] at atMost
    · intro greatest
      obtain ⟨best, chosen, bestTime, atMost⟩ := covers.dominates item greatest.1
      have atLeast := greatest.2 best (covers.inside best chosen) bestTime
      rwa [single item best bestTime.symm (le_antisymm atMost atLeast)]

/-- A list that covers the items of two covering lists covers both sets. -/
theorem Covers.union {others : Set Item} {first second merged : List Item} (left : Covers time key items first)
    (right : Covers time key others second) (ascending : merged.Pairwise fun before after => time before < time after)
    (inside : ∀ item ∈ merged, item ∈ first ∨ item ∈ second)
    (dominates : ∀ item, item ∈ first ∨ item ∈ second → ∃ best ∈ merged, time best = time item ∧ key item ≤ key best) :
    Covers time key (items ∪ others) merged where
  ascending := ascending
  inside item member := (inside item member).imp (left.inside item) (right.inside item)
  dominates item member := by
    have through : ∀ middle, middle ∈ first ∨ middle ∈ second → time middle = time item → key item ≤ key middle →
        ∃ best ∈ merged, time best = time item ∧ key item ≤ key best := by
      intro middle listed sameTime atMost
      obtain ⟨best, chosen, bestTime, higher⟩ := dominates middle listed
      exact ⟨best, chosen, bestTime.trans sameTime, le_trans atMost higher⟩
    rcases member with member | member
    · obtain ⟨middle, listed, sameTime, atMost⟩ := left.dominates item member
      exact through middle (.inl listed) sameTime atMost
    · obtain ⟨middle, listed, sameTime, atMost⟩ := right.dominates item member
      exact through middle (.inr listed) sameTime atMost

end TimedSelection
