import Ravel.Construction.Promql.SampleFold
import Ravel.Proof.Metrics.FoldedRuns

namespace Ravel.Promql.SampleFold

open List
open Metrics (RunTriple)

variable {Value : Type}

/-- A held sample with its priority looked up. -/
def resolve (prefixes : List RunTriple) (sample : FoldedSample Value) : Metrics.FoldedSample Value :=
  (sample.ts, candidate prefixes sample)

/-- The index of a sample lies in the table. -/
def Known (prefixes : List RunTriple) (sample : FoldedSample Value) : Prop :=
  sample.prefixId < prefixes.length

/-- A known sample has the same priority in a longer table. -/
theorem resolve_append {prefixes : List RunTriple} {sample : FoldedSample Value} (known : Known prefixes sample)
    (more : List RunTriple) : resolve (prefixes ++ more) sample = resolve prefixes sample := by
  have same : (prefixes ++ more)[sample.prefixId]? = prefixes[sample.prefixId]? := getElem?_append_left known
  simp only [resolve, candidate, priority, same]

theorem map_resolve_append {prefixes : List RunTriple} {level : List (FoldedSample Value)}
    (known : ∀ sample ∈ level, Known prefixes sample) (more : List RunTriple) :
    level.map (resolve (prefixes ++ more)) = level.map (resolve prefixes) :=
  map_congr_left fun sample member => resolve_append (known sample member) more

section Merge

variable {kind : FoldValue Value} {prefixes : List RunTriple}

variable {sample : FoldedSample Value} {rest : List (FoldedSample Value)}
  {later : List (FoldedSample Value) → List (FoldedSample Value) × Nat} {item : FoldedSample Value}

theorem mergeInto_resolve {shown : List (Metrics.FoldedSample Value) → List (Metrics.FoldedSample Value)}
    (same : ∀ second, (later second).1.map (resolve prefixes) = shown (second.map (resolve prefixes)))
    (second : List (FoldedSample Value)) : (mergeInto kind prefixes sample rest later second).1.map (resolve prefixes) =
      Metrics.mergeInto kind.servesOver (resolve prefixes sample) (rest.map (resolve prefixes)) shown
        (second.map (resolve prefixes)) := by
  induction second with
  | nil => rfl
  | cons other others ih =>
    rw [mergeInto, map_cons, Metrics.mergeInto]
    by_cases before : sample.ts < other.ts
    · rw [if_pos before, if_pos (show (resolve prefixes sample).1 < (resolve prefixes other).1 from before)]
      rw [← map_cons, ← same]
      rfl
    · rw [if_neg before, if_neg (show ¬(resolve prefixes sample).1 < (resolve prefixes other).1 from before)]
      by_cases after : other.ts < sample.ts
      · rw [if_pos after, if_pos (show (resolve prefixes other).1 < (resolve prefixes sample).1 from after),
          ← ih]
        rfl
      · rw [if_neg after, if_neg (show ¬(resolve prefixes other).1 < (resolve prefixes sample).1 from after), ← same]
        show List.map _ (if servesOver kind prefixes sample other = true then _ else _ : _ × Nat).1 =
          (if servesOver kind prefixes sample other = true then _ else _) :: _
        by_cases serves : servesOver kind prefixes sample other = true
        · rw [if_pos serves, if_pos serves]
          rfl
        · rw [if_neg serves, if_neg serves]
          rfl

/-- Merging looks the priorities up and nothing else. -/
theorem mergeLevels_resolve (first second : List (FoldedSample Value)) :
    (mergeLevels kind prefixes first second).1.map (resolve prefixes) =
      Metrics.mergeLevels kind.servesOver (first.map (resolve prefixes)) (second.map (resolve prefixes)) := by
  induction first generalizing second with
  | nil => rfl
  | cons sample rest ih => exact mergeInto_resolve ih second

/-- The bytes of a level. -/
def levelLen (kind : FoldValue Value) (level : List (FoldedSample Value)) : Nat :=
  (level.map (sampleLen kind)).sum

@[simp] theorem levelLen_nil : levelLen kind ([] : List (FoldedSample Value)) = 0 := rfl

@[simp] theorem levelLen_cons (sample : FoldedSample Value) (level : List (FoldedSample Value)) :
    levelLen kind (sample :: level) = sampleLen kind sample + levelLen kind level := rfl

theorem mergeInto_len
    (conserved : ∀ second, levelLen kind (later second).1 + (later second).2 = levelLen kind rest + levelLen kind second)
    (second : List (FoldedSample Value)) :
    levelLen kind (mergeInto kind prefixes sample rest later second).1 + (mergeInto kind prefixes sample rest later second).2 =
      levelLen kind (sample :: rest) + levelLen kind second := by
  induction second with
  | nil => rfl
  | cons other others ih =>
    have whole := conserved (other :: others)
    have tail := conserved others
    rw [mergeInto]
    simp only [levelLen_cons] at whole ih ⊢
    split
    · simp only [levelLen_cons]
      omega
    · split
      · simp only [levelLen_cons]
        omega
      · split
        · simp only [levelLen_cons]
          omega
        · simp only [levelLen_cons]
          omega

/-- What a merge drops is what its result lacks. -/
theorem mergeLevels_len (first second : List (FoldedSample Value)) :
    levelLen kind (mergeLevels kind prefixes first second).1 + (mergeLevels kind prefixes first second).2 =
      levelLen kind first + levelLen kind second := by
  induction first generalizing second with
  | nil => simp [mergeLevels]
  | cons sample rest ih => exact mergeInto_len ih second

theorem mem_mergeInto (inside : ∀ second item, item ∈ (later second).1 → item ∈ rest ∨ item ∈ second)
    (second : List (FoldedSample Value)) (member : item ∈ (mergeInto kind prefixes sample rest later second).1) :
    item ∈ sample :: rest ∨ item ∈ second := by
  induction second with
  | nil => exact .inl member
  | cons other others ih =>
    have tail : item ∈ (later others).1 → item ∈ sample :: rest ∨ item ∈ other :: others := fun isLater =>
      (inside _ _ isLater).imp (mem_cons_of_mem _) (mem_cons_of_mem _)
    rw [mergeInto] at member
    split at member
    · rcases mem_cons.mp member with rfl | isLater
      · exact .inl mem_cons_self
      · exact (inside _ _ isLater).imp (mem_cons_of_mem _) id
    · split at member
      · rcases mem_cons.mp member with rfl | isLater
        · exact .inr mem_cons_self
        · exact (ih isLater).imp id (mem_cons_of_mem _)
      · split at member
        · rcases mem_cons.mp member with rfl | isLater
          · exact .inl mem_cons_self
          · exact tail isLater
        · rcases mem_cons.mp member with rfl | isLater
          · exact .inr mem_cons_self
          · exact tail isLater

theorem mem_mergeLevels {first second : List (FoldedSample Value)}
    (member : item ∈ (mergeLevels kind prefixes first second).1) : item ∈ first ∨ item ∈ second := by
  induction first generalizing second item with
  | nil => exact .inr member
  | cons sample rest ih => exact mem_mergeInto (fun _ _ => ih) second member

end Merge

section Levels

variable {kind : FoldValue Value} {prefixes : List RunTriple}

variable (level : List (FoldedSample Value)) (levels : List (List (FoldedSample Value)))

theorem pushLevel_resolve : (pushLevel kind prefixes level levels).1.map (List.map (resolve prefixes)) =
      Metrics.pushLevel kind.servesOver (level.map (resolve prefixes)) (levels.map (List.map (resolve prefixes))) := by
  induction levels generalizing level with
  | nil =>
    cases level with
    | nil => rfl
    | cons sample rest => rfl
  | cons last rest ih =>
    rw [pushLevel, map_cons, Metrics.pushLevel, length_map, length_map]
    by_cases short : level.length * 2 < last.length
    · rw [if_pos short, if_pos short]
      cases level with
      | nil => rfl
      | cons sample others => rfl
    · rw [if_neg short, if_neg short, ← mergeLevels_resolve, ← ih]

/-- The bytes of some levels. -/
def levelsLen (kind : FoldValue Value) (levels : List (List (FoldedSample Value))) : Nat :=
  (levels.map (levelLen kind)).sum

@[simp] theorem levelsLen_nil : levelsLen kind ([] : List (List (FoldedSample Value))) = 0 := rfl

@[simp] theorem levelsLen_cons : levelsLen kind (level :: levels) = levelLen kind level + levelsLen kind levels := rfl

theorem pushLevel_len :
    levelsLen kind (pushLevel kind prefixes level levels).1 + (pushLevel kind prefixes level levels).2 =
      levelLen kind level + levelsLen kind levels := by
  induction levels generalizing level with
  | nil =>
    cases level with
    | nil => rfl
    | cons sample rest => rfl
  | cons last rest ih =>
    rw [pushLevel]
    split
    · cases level with
      | nil => simp
      | cons sample others => simp
    · have merged : levelLen kind (mergeLevels kind prefixes last level).1 + (mergeLevels kind prefixes last level).2 =
          levelLen kind last + levelLen kind level := mergeLevels_len last level
      have pushed := ih (mergeLevels kind prefixes last level).1
      simp only [levelsLen_cons]
      omega

theorem mem_pushLevel {level : List (FoldedSample Value)} {levels : List (List (FoldedSample Value))}
    {other : List (FoldedSample Value)} (listed : other ∈ (pushLevel kind prefixes level levels).1)
    {item : FoldedSample Value} (member : item ∈ other) : item ∈ level ∨ ∃ held ∈ levels, item ∈ held := by
  induction levels generalizing level with
  | nil =>
    rw [pushLevel] at listed
    split at listed
    · cases listed
    · rw [mem_singleton.mp listed] at member
      exact .inl member
  | cons last rest ih =>
    rw [pushLevel] at listed
    split at listed
    · split at listed
      · exact .inr ⟨other, listed, member⟩
      · rcases mem_cons.mp listed with rfl | held
        · exact .inl member
        · exact .inr ⟨other, held, member⟩
    · rcases ih listed with merged | ⟨held, inside, isHeld⟩
      · rcases mem_mergeLevels merged with isLast | isLevel
        · exact .inr ⟨last, mem_cons_self, isLast⟩
        · exact .inl isLevel
      · exact .inr ⟨held, mem_cons_of_mem _ inside, isHeld⟩

/-- Each level is more than twice as long as the next one pushed, and none is empty. -/
structure Halved (levels : List (List (FoldedSample Value))) : Prop where
  doubles : levels.IsChain fun next level => next.length * 2 < level.length
  nonempty : ∀ level ∈ levels, level ≠ []

theorem halved_nil : Halved ([] : List (List (FoldedSample Value))) :=
  ⟨.nil, fun _ absurd => (by cases absurd)⟩

/-- Pushing keeps the levels halved, however much the merges shrink. -/
theorem Halved.pushLevel {levels : List (List (FoldedSample Value))} (halved : Halved levels)
    (level : List (FoldedSample Value)) : Halved (pushLevel kind prefixes level levels).1 := by
  induction levels generalizing level with
  | nil =>
    rw [SampleFold.pushLevel]
    cases level with
    | nil => exact halved_nil
    | cons sample rest => exact ⟨.singleton _, fun other member => by simp_all⟩
  | cons last rest ih =>
    rw [SampleFold.pushLevel]
    split
    · rename_i short
      cases level with
      | nil => exact halved
      | cons sample others =>
        refine ⟨isChain_cons_cons.mpr ⟨short, halved.doubles⟩, ?_⟩
        intro other member
        rcases mem_cons.mp member with rfl | held
        · exact cons_ne_nil _ _
        · exact halved.nonempty other held
    · apply ih
      exact ⟨halved.doubles.of_cons, fun other member => halved.nonempty other (mem_cons_of_mem _ member)⟩

theorem collapseLevels_resolve : (collapseLevels kind prefixes levels).map (resolve prefixes) =
      Metrics.collapseLevels kind.servesOver (levels.map (List.map (resolve prefixes))) := by
  cases levels with
  | nil => rfl
  | cons last rest =>
    rw [collapseLevels, map_cons, Metrics.collapseLevels]
    induction rest generalizing last with
    | nil => rfl
    | cons level rest ih =>
      rw [foldl_cons, ih, map_cons, foldl_cons, mergeLevels_resolve]

end Levels

end Ravel.Promql.SampleFold
