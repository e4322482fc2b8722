/-
This file develops the windows of a list in key order and the cursors that walk over them.
-/

import Mathlib.Data.List.Perm.Basic
import Mathlib.Order.Lattice

namespace Ravel.Library

open List

theorem drop_length_takeWhile {Entry : Type} (test : Entry → Bool) (entries : List Entry) :
    entries.drop (entries.takeWhile test).length = entries.dropWhile test := by
  induction entries with
  | nil => rfl
  | cons entry rest ih => by_cases passes : test entry <;> simp [passes, ih]

theorem take_length_takeWhile {Entry : Type} (test : Entry → Bool) (entries : List Entry) :
    entries.take (entries.takeWhile test).length = entries.takeWhile test := by
  induction entries with
  | nil => rfl
  | cons entry rest ih => by_cases passes : test entry <;> simp [passes, ih]

section SortedWindows

variable {Entry Key : Type} [LinearOrder Key] {key : Entry → Key} {entries : List Entry}

/-- The entries in key order. -/
def KeyOrdered (key : Entry → Key) (entries : List Entry) : Prop :=
  entries.Pairwise fun first second => key first ≤ key second

theorem KeyOrdered.filter (ordered : KeyOrdered key entries) (test : Entry → Bool) :
    KeyOrdered key (entries.filter test) := List.Pairwise.filter test ordered

theorem KeyOrdered.takeWhile_le (ordered : KeyOrdered key entries) (bound : Key) :
    entries.takeWhile (fun entry => key entry ≤ bound) = entries.filter fun entry => key entry ≤ bound := by
  induction entries with
  | nil => rfl
  | cons entry entries ih =>
    obtain ⟨first, rest⟩ := pairwise_cons.mp ordered
    by_cases inside : key entry ≤ bound
    · rw [takeWhile_cons_of_pos (by simpa using inside), filter_cons_of_pos (by simpa using inside),
        ih rest]
    · rw [takeWhile_cons_of_neg (by simpa using inside), filter_cons_of_neg (by simpa using inside)]
      apply Eq.symm
      apply filter_eq_nil_iff.mpr
      intro later member
      simpa using lt_of_lt_of_le (not_le.mp inside) (first later member)

theorem KeyOrdered.dropWhile_le (ordered : KeyOrdered key entries) (bound : Key) :
    entries.dropWhile (fun entry => key entry ≤ bound) = entries.filter fun entry => bound < key entry := by
  induction entries with
  | nil => rfl
  | cons entry entries ih =>
    obtain ⟨first, rest⟩ := pairwise_cons.mp ordered
    by_cases inside : key entry ≤ bound
    · rw [dropWhile_cons_of_pos (by simpa using inside), filter_cons_of_neg (by simpa using inside),
        ih rest]
    · rw [dropWhile_cons_of_neg (by simpa using inside)]
      apply Eq.symm
      apply filter_eq_self.mpr
      intro later member
      rcases mem_cons.mp member with rfl | member
      · simpa using inside
      · simpa using lt_of_lt_of_le (not_le.mp inside) (first later member)

/-- The first position after a bound. -/
def positionAfter (key : Entry → Key) (entries : List Entry) (bound : Key) : Nat :=
  (entries.takeWhile fun entry => key entry ≤ bound).length

theorem drop_positionAfter (bound : Key) : entries.drop (positionAfter key entries bound) =
    entries.dropWhile fun entry => key entry ≤ bound := drop_length_takeWhile _ entries

theorem take_positionAfter (bound : Key) : entries.take (positionAfter key entries bound) =
    entries.takeWhile fun entry => key entry ≤ bound := take_length_takeWhile _ entries

theorem positionAfter_walk {first second : Key} (later : first ≤ second) :
    positionAfter key entries first +
        ((entries.drop (positionAfter key entries first)).takeWhile fun entry => key entry ≤ second).length =
      positionAfter key entries second := by
  rw [drop_positionAfter]
  unfold positionAfter
  induction entries with
  | nil => rfl
  | cons entry entries ih =>
    by_cases inside : key entry ≤ first
    · rw [takeWhile_cons_of_pos (by simpa using inside), dropWhile_cons_of_pos (by simpa using inside),
        takeWhile_cons_of_pos (by simpa using inside.trans later), length_cons, length_cons,
        ← ih]
      omega
    · rw [takeWhile_cons_of_neg (by simpa using inside), dropWhile_cons_of_neg (by simpa using inside)]
      simp

/-- The entries between two positions are those between the bounds. -/
theorem KeyOrdered.slice (ordered : KeyOrdered key entries) {first second : Key} (later : first ≤ second) :
    (entries.take (positionAfter key entries second)).drop (positionAfter key entries first) =
      entries.filter fun entry => decide (first < key entry) && decide (key entry ≤ second) := by
  have same : positionAfter key entries first =
      positionAfter key (entries.filter fun entry => key entry ≤ second) first := by
    unfold positionAfter
    rw [ordered.takeWhile_le, (ordered.filter _).takeWhile_le, filter_filter]
    congr 1
    apply filter_congr
    intro entry _
    by_cases inside : key entry ≤ first
    · simp [inside, inside.trans later]
    · simp [inside]
  rw [take_positionAfter, ordered.takeWhile_le, same, drop_positionAfter, (ordered.filter _).dropWhile_le,
    filter_filter]

end SortedWindows

/-- Two nested loops may change places. -/
theorem flatMap_comm_perm {Outer Inner Output : Type} (outers : List Outer) (inners : List Inner)
    (body : Outer → Inner → List Output) :
    (outers.flatMap fun outer => inners.flatMap (body outer)).Perm
      (inners.flatMap fun inner => outers.flatMap fun outer => body outer inner) := by
  induction outers with
  | nil => simp
  | cons outer outers ih =>
    simp only [flatMap_cons]
    exact (Perm.append_left _ ih).trans (flatMap_append_perm _ _ _)

end Ravel.Library
