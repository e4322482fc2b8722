/-
This file develops patterns of repeated character classes and what a match of such a pattern has to contain.
-/

import Mathlib.Data.List.Basic

namespace Ravel.Library

open List

/-- How often a pattern item occurs. -/
inductive Repeats where
  | once
  | optional
  | anyTimes
  deriving DecidableEq, Repr

/-- A character class with its repetition. -/
structure PatternItem (Symbol : Type) where
  accepts : Symbol → Bool
  repeats : Repeats

section Matching

variable {Symbol : Type}

/-- One symbol and then the rest. -/
def takesOne (accepts : Symbol → Bool) (later : List Symbol → Bool) : List Symbol → Bool
  | [] => false
  | symbol :: rest => accepts symbol && later rest

/-- Some symbols and then the rest. -/
def takesMany (accepts : Symbol → Bool) (later : List Symbol → Bool) (text : List Symbol) : Bool :=
  (List.range (text.length + 1)).any fun count => (text.take count).all accepts && later (text.drop count)

/-- The text from an item on, given the later items. -/
def PatternItem.takes (item : PatternItem Symbol) (later : List Symbol → Bool) (text : List Symbol) : Bool :=
  match item.repeats with
  | .once => takesOne item.accepts later text
  | .optional => later text || takesOne item.accepts later text
  | .anyTimes => takesMany item.accepts later text

/-- The whole text is a match of the items in order. -/
def matchesItems : List (PatternItem Symbol) → List Symbol → Bool
  | [], text => text.isEmpty
  | item :: items, text => item.takes (matchesItems items) text

theorem matchesItems_nil {text : List Symbol} : matchesItems [] text = true ↔ text = [] := by
  rw [matchesItems, List.isEmpty_iff]

/-- An item takes a front of the text and leaves the rest to the later items, whatever they are. -/
theorem PatternItem.exists_split_of_takes {item : PatternItem Symbol} {later : List Symbol → Bool} {text : List Symbol}
    (taken : item.takes later text = true) : ∃ front back, text = front ++ back ∧ later back = true ∧
      ∀ (other : List Symbol → Bool) rest, other rest = true → item.takes other (front ++ rest) = true := by
  unfold PatternItem.takes at taken ⊢
  cases repeats : item.repeats with
  | once =>
    simp only [repeats] at taken ⊢
    cases text with
    | nil => cases taken
    | cons symbol rest =>
      obtain ⟨accepted, after⟩ := (Bool.and_eq_true _ _).mp taken
      exact ⟨[symbol], rest, rfl, after, fun other rest passes => by simp [takesOne, accepted, passes]⟩
  | optional =>
    simp only [repeats, Bool.or_eq_true] at taken ⊢
    rcases taken with skipped | taken
    · exact ⟨[], text, rfl, skipped, fun other rest passes => .inl passes⟩
    · cases text with
      | nil => cases taken
      | cons symbol rest =>
        obtain ⟨accepted, after⟩ := (Bool.and_eq_true _ _).mp taken
        exact ⟨[symbol], rest, rfl, after, fun other rest passes => .inr (by simp [takesOne, accepted, passes])⟩
  | anyTimes =>
    simp only [repeats, takesMany, any_eq_true, Bool.and_eq_true, mem_range] at taken ⊢
    obtain ⟨count, _, accepted, after⟩ := taken
    refine ⟨text.take count, text.drop count, (take_append_drop count text).symm, after, ?_⟩
    intro other rest passes
    refine ⟨(text.take count).length, by rw [length_append]; omega, ?_, ?_⟩
    · rw [take_left]
      exact accepted
    · rw [drop_left]
      exact passes

/-- A match of two patterns in turn splits the text. -/
theorem exists_split_of_matchesItems {first second : List (PatternItem Symbol)} :
    ∀ {text : List Symbol}, matchesItems (first ++ second) text = true →
      ∃ front back, text = front ++ back ∧ matchesItems first front = true ∧ matchesItems second back = true := by
  induction first with
  | nil =>
    intro text matched
    exact ⟨[], text, rfl, by rw [matchesItems]; rfl, matched⟩
  | cons item items ih =>
    intro text matched
    obtain ⟨front, back, rfl, later, joins⟩ := PatternItem.exists_split_of_takes matched
    obtain ⟨middle, rest, rfl, inside, after⟩ := ih later
    exact ⟨front ++ middle, rest, (append_assoc _ _ _).symm, joins (matchesItems items) middle inside, after⟩

/-- The item that takes one given symbol. -/
def literalItem [DecidableEq Symbol] (symbol : Symbol) : PatternItem Symbol := ⟨fun other => other = symbol, .once⟩

theorem matchesItems_literal [DecidableEq Symbol] {literal : List Symbol} : ∀ {text : List Symbol},
    matchesItems (literal.map literalItem) text = true ↔ text = literal := by
  induction literal with
  | nil =>
    intro text
    exact matchesItems_nil
  | cons symbol literal ih =>
    intro text
    rw [map_cons, matchesItems]
    cases text with
    | nil => simp [literalItem, PatternItem.takes, takesOne]
    | cons other rest => simp [literalItem, PatternItem.takes, takesOne, ih]

/-- A literal between two patterns occurs in every match, at the edge where nothing stands beside it. -/
theorem exists_literal_of_matchesItems [DecidableEq Symbol] {before after : List (PatternItem Symbol)}
    {literal text : List Symbol} (matched : matchesItems (before ++ (literal.map literalItem ++ after)) text = true) :
    ∃ front back, text = front ++ (literal ++ back) ∧ (before = [] → front = []) ∧ (after = [] → back = []) := by
  obtain ⟨front, rest, rfl, beforeMatched, restMatched⟩ := exists_split_of_matchesItems matched
  obtain ⟨middle, back, rfl, literalMatched, afterMatched⟩ := exists_split_of_matchesItems restMatched
  obtain rfl := matchesItems_literal.mp literalMatched
  refine ⟨front, back, rfl, ?_, ?_⟩
  · rintro rfl
    exact matchesItems_nil.mp beforeMatched
  · rintro rfl
    exact matchesItems_nil.mp afterMatched

end Matching

end Ravel.Library
