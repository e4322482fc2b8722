import Ravel.Library.FailingRuns
import Ravel.Library.KeyedLists
import Ravel.Proof.Metrics.RunMerge

namespace Ravel.Metrics

open List Library TimedSelection

variable {Value Key : Type} [LinearOrder Key] (order : CandidateOrder Value Key)

/-- A level holds the greatest sample of each timestamp of a set. -/
abbrev CoversSamples (entries : Set (FoldedSample Value)) (level : List (FoldedSample Value)) : Prop :=
  Covers Prod.fst (fun sample => order.key sample.2) entries level

theorem coversSamples_selects {entries : Set (FoldedSample Value)} {level : List (FoldedSample Value)}
    (covers : CoversSamples order entries level) : SelectsEntries order entries level := by
  apply covers.selects
  intro first second sameTime sameKey
  exact Prod.ext sameTime (order.injective sameKey)

section Merge

/-- The merge of the later samples is known where the first level has `sample` at its front. -/
theorem mem_mergeInto {servesOver : Candidate Value → Candidate Value → Bool} {sample : FoldedSample Value}
    {rest : List (FoldedSample Value)} {later : List (FoldedSample Value) → List (FoldedSample Value)}
    (known : ∀ second item, item ∈ later second → item ∈ rest ∨ item ∈ second) :
    ∀ (second : List (FoldedSample Value)) (item : FoldedSample Value),
      item ∈ mergeInto servesOver sample rest later second → item ∈ sample :: rest ∨ item ∈ second := by
  intro second
  induction second with
  | nil =>
    intro item member
    exact .inl member
  | cons other others ih =>
    intro item member
    rw [mergeInto] at member
    split at member
    · rcases mem_cons.mp member with rfl | inLater
      · exact .inl mem_cons_self
      · exact (known _ _ inLater).imp (mem_cons_of_mem _) id
    · split at member
      · rcases mem_cons.mp member with rfl | inLater
        · exact .inr mem_cons_self
        · exact (ih _ inLater).imp id (mem_cons_of_mem _)
      · rcases mem_cons.mp member with rfl | inLater
        · split
          · exact .inl mem_cons_self
          · exact .inr mem_cons_self
        · exact (known _ _ inLater).imp (mem_cons_of_mem _) (mem_cons_of_mem _)

theorem mem_mergeLevels {servesOver : Candidate Value → Candidate Value → Bool} :
    ∀ (first second : List (FoldedSample Value)) (item : FoldedSample Value),
      item ∈ mergeLevels servesOver first second → item ∈ first ∨ item ∈ second := by
  intro first
  induction first with
  | nil =>
    intro second item member
    exact .inr member
  | cons sample rest ih => exact mem_mergeInto ih

/-- Some sample of the merge is at least as great at the same time. -/
abbrev Dominated (merged : List (FoldedSample Value)) (item : FoldedSample Value) : Prop :=
  ∃ best ∈ merged, best.1 = item.1 ∧ order.key item.2 ≤ order.key best.2

variable {order}

theorem Dominated.cons {merged : List (FoldedSample Value)} {item : FoldedSample Value}
    (dominated : Dominated order merged item) (front : FoldedSample Value) : Dominated order (front :: merged) item := by
  obtain ⟨best, member, sameTime, atMost⟩ := dominated
  exact ⟨best, mem_cons_of_mem _ member, sameTime, atMost⟩

theorem Dominated.front (merged : List (FoldedSample Value)) (item : FoldedSample Value) :
    Dominated order (item :: merged) item := ⟨item, mem_cons_self, rfl, le_refl _⟩

variable {sample : FoldedSample Value} {rest : List (FoldedSample Value)}
  {later : List (FoldedSample Value) → List (FoldedSample Value)}

theorem dominated_mergeInto (known : ∀ second item, item ∈ rest ∨ item ∈ second → Dominated order (later second) item) :
    ∀ (second : List (FoldedSample Value)) (item : FoldedSample Value), item ∈ sample :: rest ∨ item ∈ second →
      Dominated order (mergeInto order.greater sample rest later second) item := by
  intro second
  induction second with
  | nil =>
    intro item member
    rcases member with member | member
    · exact ⟨item, member, rfl, le_refl _⟩
    · cases member
  | cons other others ih =>
    intro item member
    rw [mergeInto]
    split
    · rcases member with member | member
      · rcases mem_cons.mp member with rfl | inRest
        · exact .front _ _
        · exact (known _ item (.inl inRest)).cons _
      · exact (known _ item (.inr member)).cons _
    · split
      · rcases member with member | member
        · exact (ih item (.inl member)).cons _
        · rcases mem_cons.mp member with rfl | inOthers
          · exact .front _ _
          · exact (ih item (.inr inOthers)).cons _
      · rename_i notBefore notAfter
        have sameTime : sample.1 = other.1 := by omega
        -- The served one of the two equal times is in front.
        have fronts : (item = sample ∨ item = other) →
            Dominated order ((if order.greater sample.2 other.2 then sample else other) :: later others) item := by
          intro either
          by_cases serves : order.greater sample.2 other.2 = true
          · rw [if_pos serves]
            rcases either with rfl | rfl
            · exact .front _ _
            · exact ⟨sample, mem_cons_self, sameTime, ((order.greater_iff _ _).mp serves).le⟩
          · rw [if_neg serves]
            rcases either with rfl | rfl
            · exact ⟨other, mem_cons_self, sameTime.symm,
                le_of_not_gt fun above => serves ((order.greater_iff _ _).mpr above)⟩
            · exact .front _ _
        rcases member with member | member
        · rcases mem_cons.mp member with same | inRest
          · exact fronts (.inl same)
          · exact (known _ item (.inl inRest)).cons _
        · rcases mem_cons.mp member with same | inOthers
          · exact fronts (.inr same)
          · exact (known _ item (.inr inOthers)).cons _

theorem dominated_mergeLevels : ∀ (first second : List (FoldedSample Value)) (item : FoldedSample Value),
    item ∈ first ∨ item ∈ second → Dominated order (mergeLevels order.greater first second) item := by
  intro first
  induction first with
  | nil =>
    intro second item member
    rcases member with member | member
    · cases member
    · exact ⟨item, member, rfl, le_refl _⟩
  | cons sample rest ih => exact dominated_mergeInto ih

/-- The samples of a level are in strictly ascending time order. -/
abbrev StrictlyAscending (level : List (FoldedSample Value)) : Prop :=
  level.Pairwise fun before after => before.1 < after.1

theorem ascending_mergeInto {servesOver : Candidate Value → Candidate Value → Bool}
    (inside : ∀ second item, item ∈ later second → item ∈ rest ∨ item ∈ second)
    (known : ∀ second, StrictlyAscending second → StrictlyAscending (later second))
    (front : StrictlyAscending (sample :: rest)) : ∀ second : List (FoldedSample Value), StrictlyAscending second →
      StrictlyAscending (mergeInto servesOver sample rest later second) := by
  obtain ⟨first, _⟩ := pairwise_cons.mp front
  intro second
  induction second with
  | nil =>
    intro _
    exact front
  | cons other others ih =>
    intro ascending
    obtain ⟨after, ascendingOthers⟩ := pairwise_cons.mp ascending
    rw [mergeInto]
    split
    · rename_i before
      refine pairwise_cons.mpr ⟨?_, known _ ascending⟩
      intro item member
      rcases inside _ _ member with inRest | inSecond
      · exact first item inRest
      · rcases mem_cons.mp inSecond with rfl | inOthers
        · exact before
        · exact lt_trans before (after item inOthers)
    · split
      · rename_i before
        refine pairwise_cons.mpr ⟨?_, ih ascendingOthers⟩
        intro item member
        rcases mem_mergeInto inside _ _ member with inFront | inOthers
        · rcases mem_cons.mp inFront with rfl | inRest
          · exact before
          · exact lt_trans before (first item inRest)
        · exact after item inOthers
      · rename_i notBefore notAfter
        have sameTime : sample.1 = other.1 := by omega
        refine pairwise_cons.mpr ⟨?_, known _ ascendingOthers⟩
        intro item member
        have fronted : (if servesOver sample.2 other.2 then sample else other).1 = sample.1 := by
          split
          · rfl
          · exact sameTime.symm
        rw [fronted]
        rcases inside _ _ member with inRest | inOthers
        · exact first item inRest
        · exact sameTime ▸ after item inOthers

theorem ascending_mergeLevels {servesOver : Candidate Value → Candidate Value → Bool} :
    ∀ first : List (FoldedSample Value), StrictlyAscending first → ∀ second : List (FoldedSample Value),
      StrictlyAscending second → StrictlyAscending (mergeLevels servesOver first second) := by
  intro first
  induction first with
  | nil =>
    intro _ second ascending
    exact ascending
  | cons sample rest ih =>
    intro front
    exact ascending_mergeInto (mem_mergeLevels rest)
      (ih (pairwise_cons.mp front).2) front

theorem covers_mergeLevels {first second : List (FoldedSample Value)} {left right : Set (FoldedSample Value)}
    (coversLeft : CoversSamples order left first) (coversRight : CoversSamples order right second) :
    CoversSamples order (left ∪ right) (mergeLevels order.greater first second) :=
  coversLeft.union coversRight (ascending_mergeLevels first coversLeft.ascending second coversRight.ascending)
    (mem_mergeLevels first second) (dominated_mergeLevels first second)

end Merge

section Runs

variable {order}

variable {entries : Set (FoldedSample Value)} {levels : List (List (FoldedSample Value))}

theorem eq_empty_of_covers_nil (covers : CoversSamples order entries []) : entries = ∅ := by
  apply Set.eq_empty_of_forall_notMem
  intro item member
  obtain ⟨best, inside, _⟩ := covers.dominates item member
  cases inside

/-- One more sample of a run joins what its level covers. -/
theorem covers_pushFolded {level next : List (FoldedSample Value)} {sample : FoldedSample Value}
    (covers : CoversSamples order entries level) (pushed : pushFolded order.greater level sample = .ok next) :
    CoversSamples order (entries ∪ {sample}) next := by
  have single : CoversSamples order {sample} [sample] := by
    refine ⟨pairwise_singleton _ _, ?_, ?_⟩
    · intro item member
      exact mem_singleton.mp member
    · intro item member
      rw [Set.mem_singleton_iff.mp member]
      exact ⟨sample, mem_cons_self, rfl, le_refl _⟩
  unfold pushFolded at pushed
  split at pushed
  · rename_i noLast
    cases pushed
    obtain rfl := getLast?_eq_none_iff.mp noLast
    rwa [eq_empty_of_covers_nil covers, Set.empty_union]
  · rename_i last isLast
    obtain ⟨front, rfl⟩ := getLast?_eq_some_iff.mp isLast
    have ascending := pairwise_append.mp covers.ascending
    have before : ∀ item ∈ front, item.1 < last.1 := fun item member =>
      ascending.2.2 item member last mem_cons_self
    obtain ⟨notBefore, pushed⟩ := ok_of_guard pushed
    split at pushed
    · rename_i sameTime
      cases pushed
      split
      · rename_i serves
        rw [dropLast_concat]
        refine covers.union single ?_ ?_ ?_
        · refine pairwise_append.mpr ⟨ascending.1, pairwise_singleton _ _, ?_⟩
          intro item member other isSample
          rw [mem_singleton.mp isSample, sameTime]
          exact before item member
        · intro item member
          rcases mem_append.mp member with inFront | isSample
          · exact .inl (mem_append_left _ inFront)
          · exact .inr isSample
        · intro item member
          rcases member with member | isSample
          · rcases mem_append.mp member with inFront | isLastItem
            · exact ⟨item, mem_append_left _ inFront, rfl, le_refl _⟩
            · rw [mem_singleton.mp isLastItem]
              exact ⟨sample, mem_append_right _ mem_cons_self, sameTime,
                ((order.greater_iff _ _).mp serves).le⟩
          · rw [mem_singleton.mp isSample]
            exact ⟨sample, mem_append_right _ mem_cons_self, rfl, le_refl _⟩
      · rename_i keeps
        refine covers.union single covers.ascending (fun item member => .inl member) ?_
        intro item member
        rcases member with member | isSample
        · exact ⟨item, member, rfl, le_refl _⟩
        · rw [mem_singleton.mp isSample]
          exact ⟨last, mem_append_right _ mem_cons_self, sameTime.symm,
            le_of_not_gt fun above => keeps ((order.greater_iff _ _).mpr above)⟩
    · rename_i other
      cases pushed
      refine covers.union single ?_ ?_ ?_
      · refine pairwise_append.mpr ⟨covers.ascending, pairwise_singleton _ _, ?_⟩
        intro item member later isSample
        rw [mem_singleton.mp isSample]
        rcases mem_append.mp member with inFront | isLastItem
        · exact lt_of_lt_of_le (before item inFront) (le_of_not_gt notBefore)
        · rw [mem_singleton.mp isLastItem]
          omega
      · intro item member
        exact mem_append.mp member
      · intro item member
        exact ⟨item, mem_append.mpr member, rfl, le_refl _⟩

theorem covers_runLevel {priorities : RunPriorities} {total : Nat} {samples : List (Sample Value)} :
    ∀ {pos : Nat} {level final : List (FoldedSample Value)} {entries : Set (FoldedSample Value)},
      CoversSamples order entries level → runLevel order.greater priorities total pos samples level = .ok final →
      CoversSamples order (entries ∪ {entry | entry ∈ runEntries priorities pos samples}) final := by
  induction samples with
  | nil =>
    intro pos level final entries covers run
    cases run
    simpa [runEntries] using covers
  | cons sample rest ih =>
    intro pos level final entries covers run
    rw [runLevel] at run
    split at run
    · cases run
    · rename_i priority found
      obtain ⟨pushed, pushedOk, run⟩ := ok_of_bind run
      have more := ih (covers_pushFolded covers pushedOk) run
      have same : entries ∪ {entry | entry ∈ runEntries priorities pos (sample :: rest)} =
          entries ∪ {(sample.tsNs, ⟨sample.value, priority⟩)} ∪
            {entry | entry ∈ runEntries priorities (pos + 1) rest} := by
        ext entry
        simp only [Set.mem_union, Set.mem_ofPred_eq, Set.mem_singleton_iff, runEntries, found, Option.toList_some,
          map_cons, map_nil, singleton_append, mem_cons, or_assoc]
      rwa [same]

/-- Each level covers a part of a set. -/
inductive Stacked (order : CandidateOrder Value Key) : List (List (FoldedSample Value)) → Set (FoldedSample Value) → Prop
  | nil : Stacked order [] ∅
  | cons {level : List (FoldedSample Value)} {levels : List (List (FoldedSample Value))}
      {part others : Set (FoldedSample Value)} (covers : CoversSamples order part level)
      (below : Stacked order levels others) : Stacked order (level :: levels) (part ∪ others)

theorem stacked_pushLevel :
    ∀ {level : List (FoldedSample Value)} {part others : Set (FoldedSample Value)}, CoversSamples order part level →
      Stacked order levels others → Stacked order (pushLevel order.greater level levels) (part ∪ others) := by
  induction levels with
  | nil =>
    intro level part others covers stacked
    rw [pushLevel]
    split
    · rename_i empty
      obtain rfl := List.isEmpty_iff.mp empty
      rw [eq_empty_of_covers_nil covers, Set.empty_union]
      exact stacked
    · exact .cons covers stacked
  | cons last rest ih =>
    intro level part others covers stacked
    rw [pushLevel]
    split
    · split
      · rename_i empty
        obtain rfl := List.isEmpty_iff.mp empty
        rw [eq_empty_of_covers_nil covers, Set.empty_union]
        exact stacked
      · exact .cons covers stacked
    · cases stacked with
      | cons coversLast below =>
        rw [← Set.union_assoc, Set.union_comm part]
        exact ih (covers_mergeLevels coversLast covers) below

theorem covers_collapseLevels (stacked : Stacked order levels entries) :
    CoversSamples order entries (collapseLevels order.greater levels) := by
  have onto : ∀ {levels : List (List (FoldedSample Value))} {others : Set (FoldedSample Value)},
      Stacked order levels others → ∀ {merged : List (FoldedSample Value)} {part : Set (FoldedSample Value)},
      CoversSamples order part merged →
      CoversSamples order (part ∪ others)
        (levels.foldl (fun merged level => mergeLevels order.greater level merged) merged) := by
    intro levels others stacked
    induction stacked with
    | nil =>
      intro merged part covers
      rwa [Set.union_empty]
    | cons coversLevel _ ih =>
      intro merged part covers
      rw [foldl_cons, ← Set.union_assoc, Set.union_comm part]
      exact ih (covers_mergeLevels coversLevel covers)
  cases stacked with
  | nil => exact Covers.nil
  | cons coversLevel below => exact onto below coversLevel

end Runs

section Folds

variable {Id Labels : Type} [DecidableEq Id] {order}

/-- The candidates of one series in some runs. -/
def seriesEntries (runs : List (FoldRun Id Labels Value)) (seriesId : Id) : Set (FoldedSample Value) :=
  {entry | ∃ run ∈ runs, run.seriesId = seriesId ∧ entry ∈ runEntries run.run.priorities 0 run.run.samples}

/-- The fold has each series of the runs once, with all of its candidates. -/
structure FoldHolds (order : CandidateOrder Value Key) (fold : RunFold Id Labels Value)
    (runs : List (FoldRun Id Labels Value)) : Prop where
  distinct : (fold.map Prod.fst).Nodup
  listed : ∀ seriesId, seriesId ∈ fold.map Prod.fst ↔ ∃ run ∈ runs, run.seriesId = seriesId
  labelled : ∀ entry ∈ fold, ∃ run ∈ runs, run.seriesId = entry.1 ∧ run.labels = entry.2.labels
  held : ∀ entry ∈ fold, Stacked order entry.2.levels (seriesEntries runs entry.1)

theorem seriesEntries_append (runs : List (FoldRun Id Labels Value)) (run : FoldRun Id Labels Value) (seriesId : Id) :
    seriesEntries (runs ++ [run]) seriesId =
      if run.seriesId = seriesId then
        {entry | entry ∈ runEntries run.run.priorities 0 run.run.samples} ∪ seriesEntries runs seriesId
      else seriesEntries runs seriesId := by
  ext entry
  unfold seriesEntries
  by_cases same : run.seriesId = seriesId
  · rw [if_pos same]
    simp only [Set.mem_ofPred_eq, Set.mem_union, mem_append, mem_singleton]
    constructor
    · rintro ⟨other, earlier | rfl, named, member⟩
      · exact .inr ⟨other, earlier, named, member⟩
      · exact .inl member
    · rintro (member | ⟨other, earlier, named, member⟩)
      · exact ⟨run, .inr rfl, same, member⟩
      · exact ⟨other, .inl earlier, named, member⟩
  · rw [if_neg same]
    simp only [Set.mem_ofPred_eq, mem_append, mem_singleton]
    constructor
    · rintro ⟨other, earlier | rfl, named, member⟩
      · exact ⟨other, earlier, named, member⟩
      · exact absurd named same
    · rintro ⟨other, earlier, named, member⟩
      exact ⟨other, .inl earlier, named, member⟩

theorem placeLevel_eq {servesOver : Candidate Value → Candidate Value → Bool} (seriesId : Id) (labels : Labels)
    (level : List (FoldedSample Value)) (fold : RunFold Id Labels Value) :
    placeLevel servesOver seriesId labels level fold = alterEntry seriesId ⟨labels, pushLevel servesOver level []⟩
      (fun series => ⟨series.labels, pushLevel servesOver level series.levels⟩) fold := by
  induction fold with
  | nil => rfl
  | cons entry rest ih => rw [placeLevel, alterEntry, ih]

theorem FoldHolds.absorbRun {fold next : RunFold Id Labels Value} {runs : List (FoldRun Id Labels Value)}
    {run : FoldRun Id Labels Value} (holds : FoldHolds order fold runs)
    (absorbed : Metrics.absorbRun order.greater fold run = .ok next) : FoldHolds order next (runs ++ [run]) := by
  obtain ⟨_, _, absorbed⟩ := ok_of_bind absorbed
  obtain ⟨level, leveled, absorbed⟩ := ok_of_bind absorbed
  cases absorbed
  have none : CoversSamples order ∅ ([] : List (FoldedSample Value)) := Covers.nil
  have covers := covers_runLevel none leveled
  rw [Set.empty_union] at covers
  rw [placeLevel_eq]
  have arrived : run ∈ runs ++ [run] := mem_append_right _ mem_cons_self
  refine ⟨nodup_alterEntry holds.distinct, ?_, ?_, ?_⟩
  · intro seriesId
    rw [mem_keys_alterEntry, or_comm, eq_comm, holds.listed]
    constructor
    · rintro (⟨other, earlier, named⟩ | named)
      · exact ⟨other, mem_append_left _ earlier, named⟩
      · exact ⟨run, arrived, named⟩
    · rintro ⟨other, member, named⟩
      rcases mem_append.mp member with earlier | isRun
      · exact .inl ⟨other, earlier, named⟩
      · exact .inr (mem_singleton.mp isRun ▸ named)
  · intro entry member
    rcases mem_alterEntry holds.distinct member with ⟨kept, _⟩ | ⟨old, inside, named, rfl⟩ | ⟨_, rfl⟩
    · obtain ⟨other, earlier, facts⟩ := holds.labelled entry kept
      exact ⟨other, mem_append_left _ earlier, facts⟩
    · obtain ⟨other, earlier, sameId, sameLabels⟩ := holds.labelled old inside
      exact ⟨other, mem_append_left _ earlier, sameId.trans named, sameLabels⟩
    · exact ⟨run, arrived, rfl, rfl⟩
  · intro entry member
    rw [seriesEntries_append]
    rcases mem_alterEntry holds.distinct member with ⟨kept, named⟩ | ⟨old, inside, named, rfl⟩ | ⟨fresh, rfl⟩
    · rw [if_neg (Ne.symm named)]
      exact holds.held entry kept
    · rw [if_pos rfl]
      have below := holds.held old inside
      rw [named] at below
      exact stacked_pushLevel covers below
    · rw [if_pos rfl]
      have none : seriesEntries runs run.seriesId = ∅ := by
        apply Set.eq_empty_of_forall_notMem
        rintro item ⟨other, earlier, named, _⟩
        exact fresh ((holds.listed _).mpr ⟨other, earlier, named⟩)
      rw [none]
      exact stacked_pushLevel covers .nil

omit [DecidableEq Id] in
theorem FoldHolds.nil : FoldHolds order ([] : RunFold Id Labels Value) [] where
  distinct := nodup_nil
  listed := by simp
  labelled := by simp
  held := by simp

theorem absorb_holds {runs : List (FoldRun Id Labels Value)} {fold : RunFold Id Labels Value}
    (absorbed : absorb order.greater runs [] = .ok fold) : FoldHolds order fold runs := by
  have whole := foldlM_invariant (FoldHolds order) (fun _ _ _ _ holds stepped => holds.absorbRun stepped) runs
    [] fold [] FoldHolds.nil absorbed
  simpa using whole

/-- A run that a fold takes, in every state. -/
def FoldRun.Foldable (order : CandidateOrder Value Key) (run : FoldRun Id Labels Value) : Prop :=
  run.run.priorities.checkLen run.run.samples.length = .ok () ∧
    ∃ level, runLevel order.greater run.run.priorities run.run.samples.length 0 run.run.samples [] = .ok level

/-- A fold succeeds on foldable runs only, and on all of them. -/
theorem exists_absorb_iff {runs : List (FoldRun Id Labels Value)} : ∀ {fold : RunFold Id Labels Value},
    (∃ final, absorb order.greater runs fold = .ok final) ↔ ∀ run ∈ runs, run.Foldable order := by
  induction runs with
  | nil =>
    intro fold
    exact iff_of_true ⟨fold, rfl⟩ (by simp)
  | cons run runs ih =>
    intro fold
    rw [forall_mem_cons]
    constructor
    · rintro ⟨final, absorbed⟩
      rw [absorb, foldlM_cons] at absorbed
      obtain ⟨next, stepped, absorbed⟩ := ok_of_bind absorbed
      obtain ⟨_, checked, stepped⟩ := ok_of_bind stepped
      obtain ⟨level, leveled, _⟩ := ok_of_bind stepped
      exact ⟨⟨checked, level, leveled⟩, ih.mp ⟨final, absorbed⟩⟩
    · rintro ⟨⟨checked, level, leveled⟩, later⟩
      obtain ⟨final, absorbed⟩ := (@ih
        (placeLevel order.greater run.seriesId run.labels level fold)).mpr later
      refine ⟨final, ?_⟩
      rw [absorb, foldlM_cons]
      refine bind_eq_ok.mpr ⟨_, ?_, absorbed⟩
      exact bind_eq_ok.mpr ⟨(), checked, bind_eq_ok.mpr ⟨level, leveled, rfl⟩⟩

end Folds

section Acceptance

variable {servesOver : Candidate Value → Candidate Value → Bool}

/-- A pushed sample is not before the last one, and its time is the last one after it. -/
theorem pushFolded_last {level next : List (FoldedSample Value)} {sample : FoldedSample Value}
    (pushed : pushFolded servesOver level sample = .ok next) :
    (∃ last, next.getLast? = some last ∧ last.1 = sample.1) ∧ ∀ last, level.getLast? = some last → last.1 ≤ sample.1 := by
  unfold pushFolded at pushed
  split at pushed
  · rename_i noLast
    cases pushed
    exact ⟨⟨sample, rfl, rfl⟩, fun last found => by rw [noLast] at found; cases found⟩
  · rename_i last isLast
    obtain ⟨notBefore, pushed⟩ := ok_of_guard pushed
    have bounded : ∀ other, level.getLast? = some other → other.1 ≤ sample.1 := by
      intro other found
      rw [isLast] at found
      cases found
      exact not_lt.mp notBefore
    refine ⟨?_, bounded⟩
    split at pushed
    · rename_i sameTime
      cases pushed
      split
      · exact ⟨sample, getLast?_concat, rfl⟩
      · exact ⟨last, isLast, sameTime.symm⟩
    · cases pushed
      exact ⟨sample, getLast?_concat, rfl⟩

/-- A run that gives a level is in ascending time order. -/
theorem ascending_of_runLevel {priorities : RunPriorities} {total : Nat} {samples : List (Sample Value)} :
    ∀ {pos : Nat} {level final : List (FoldedSample Value)}, runLevel servesOver priorities total pos samples level = .ok final →
      Ascending samples ∧ ∀ last, level.getLast? = some last → ∀ sample ∈ samples, last.1 ≤ sample.tsNs := by
  induction samples with
  | nil =>
    intro pos level final _
    exact ⟨List.Pairwise.nil, by simp⟩
  | cons sample rest ih =>
    intro pos level final run
    rw [runLevel] at run
    split at run
    · cases run
    · obtain ⟨pushed, pushedOk, run⟩ := ok_of_bind run
      obtain ⟨⟨newest, isNewest, sameTime⟩, bounded⟩ := pushFolded_last pushedOk
      obtain ⟨ascending, after⟩ := ih run
      have later : ∀ other ∈ rest, sample.tsNs ≤ other.tsNs := by
        intro other member
        have above := after newest isNewest other member
        rwa [sameTime] at above
      refine ⟨pairwise_cons.mpr ⟨later, ascending⟩, ?_⟩
      intro last isLast other member
      rcases mem_cons.mp member with rfl | inRest
      · exact bounded last isLast
      · exact le_trans (bounded last isLast) (later other inRest)

theorem FoldRun.Foldable.wellFormed {Id Labels : Type} {run : FoldRun Id Labels Value} (foldable : run.Foldable order) :
    run.run.WellFormed := by
  obtain ⟨checked, level, leveled⟩ := foldable
  refine ⟨(ascending_of_runLevel leveled).1, ?_⟩
  intro column isColumn
  rw [isColumn, RunPriorities.checkLen] at checked
  simp only [RunPriorities.columnLen] at checked
  split at checked
  · assumption
  · cases checked

end Acceptance

end Ravel.Metrics
