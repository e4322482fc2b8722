/-
This file develops folds over lists whose steps may decline.
-/

import Mathlib.Data.List.Forall2

namespace Ravel.Library

open List

variable {Input : Type} {inputs : List Input} {Left Right : Type} {lefts : List Left} {rights : List Right}
  {relates : Left → Right → Prop}

/-- A fold answers exactly when every input has a part, and the answer adds the parts. -/
theorem foldlM_eq_some {Part State : Type} {step : State → Input → Option State} {read : Input → Option Part}
    {add : State → Part → State} (steps : ∀ state input, step state input = (read input).map (add state)) :
    ∀ {state result : State}, inputs.foldlM step state = some result ↔
      ∃ parts, Forall₂ (fun input part => read input = some part) inputs parts ∧ result = parts.foldl add state := by
  induction inputs with
  | nil =>
    intro state result
    simp [forall₂_nil_left_iff, eq_comm]
  | cons input inputs ih =>
    intro state result
    rw [foldlM_cons, steps]
    constructor
    · intro folded
      obtain ⟨next, stepped, continued⟩ := Option.bind_eq_some_iff.mp folded
      obtain ⟨part, found, rfl⟩ := Option.map_eq_some_iff.mp stepped
      obtain ⟨parts, reads, rfl⟩ := ih.mp continued
      exact ⟨part :: parts, .cons found reads, rfl⟩
    · rintro ⟨parts, reads, rfl⟩
      cases reads with
      | @cons _ part _ rest found reads =>
        rw [found]
        exact ih.mpr ⟨rest, reads, rfl⟩

/-- A map of total steps is a plain map. -/
theorem mapM_eq_some_map {Output : Type} {step : Input → Option Output} {value : Input → Output}
    (total : ∀ input ∈ inputs, step input = some (value input)) : inputs.mapM step = some (inputs.map value) := by
  induction inputs with
  | nil => rfl
  | cons input inputs ih =>
    rw [mapM_cons, total input mem_cons_self,
      ih fun other member => total other (mem_cons_of_mem _ member)]
    rfl

/-- Two lists that match a third match each other through it. -/
theorem forall₂_through {left : Input → Left → Prop} {right : Input → Right → Prop}
    (matchesLeft : Forall₂ left inputs lefts) (matchesRight : Forall₂ right inputs rights) :
    Forall₂ (fun leftPart rightPart => ∃ input, left input leftPart ∧ right input rightPart) lefts rights := by
  induction matchesLeft generalizing rights with
  | nil =>
    cases matchesRight
    exact .nil
  | cons first _ ih =>
    cases matchesRight with
    | cons second rest => exact .cons ⟨_, first, second⟩ (ih rest)

/-- Two concatenations match when their parts do. -/
theorem forall₂_append_iff {moreLefts : List Left} {moreRights : List Right} (lengths : lefts.length = rights.length) :
    Forall₂ relates (lefts ++ moreLefts) (rights ++ moreRights) ↔
      Forall₂ relates lefts rights ∧ Forall₂ relates moreLefts moreRights := by
  induction lefts generalizing rights with
  | nil =>
    cases rights with
    | nil => simp
    | cons _ _ => cases lengths
  | cons left lefts ih =>
    cases rights with
    | nil => cases lengths
    | cons right rights =>
      rw [cons_append, cons_append, forall₂_cons, forall₂_cons, and_assoc,
        ih (Nat.succ.inj lengths)]

/-- Every right part has a left part. -/
theorem exists_left_of_forall₂ (matched : Forall₂ relates lefts rights) {right : Right} (member : right ∈ rights) :
    ∃ left ∈ lefts, relates left right := by
  induction matched with
  | nil => cases member
  | @cons left _ _ _ first _ ih =>
    rcases mem_cons.mp member with rfl | later
    · exact ⟨left, mem_cons_self, first⟩
    · obtain ⟨other, inside, related⟩ := ih later
      exact ⟨other, mem_cons_of_mem _ inside, related⟩

/-- Every left part has a right part. -/
theorem exists_right_of_forall₂ (matched : Forall₂ relates lefts rights) {left : Left} (member : left ∈ lefts) :
    ∃ right ∈ rights, relates left right := by
  obtain ⟨right, inside, related⟩ := exists_left_of_forall₂ matched.flip member
  exact ⟨right, inside, related⟩

/-- Distinct keys on the left are distinct on the right when equal right keys have equal left keys. -/
theorem nodup_of_forall₂ {LeftKey RightKey : Type} {leftKey : Left → LeftKey} {rightKey : Right → RightKey}
    (matched : Forall₂ relates lefts rights) (distinct : (lefts.map leftKey).Nodup)
    (keyed : ∀ left right otherLeft otherRight, relates left right → relates otherLeft otherRight → rightKey right = rightKey otherRight → leftKey left = leftKey otherLeft) :
    (rights.map rightKey).Nodup := by
  induction matched with
  | nil => exact nodup_nil
  | @cons left right lefts rights first rest ih =>
    obtain ⟨fresh, distinct⟩ := nodup_cons.mp distinct
    refine nodup_cons.mpr ⟨?_, ih distinct⟩
    intro repeated
    obtain ⟨otherRight, member, same⟩ := mem_map.mp repeated
    obtain ⟨otherLeft, inside, related⟩ := exists_left_of_forall₂ rest member
    apply fresh
    rw [keyed left right otherLeft otherRight first related same.symm]
    exact mem_map_of_mem inside

end Ravel.Library
