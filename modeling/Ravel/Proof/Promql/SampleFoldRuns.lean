import Ravel.Proof.Promql.SampleFoldLevels

namespace Ravel.Promql.SampleFold

open List Library
open Metrics (FoldRun RunPriorities RunTriple QueryError)

variable {Value : Type}

section Interning

/-- The index is the table's own, and no triple is in it twice. -/
structure Interned (fold : RunFold Value) : Prop where
  index : fold.prefixIds = fold.prefixes.zipIdx
  distinct : fold.prefixes.Nodup

/-- The table grows, the counter with it, and nothing else changes. -/
structure Grown (fold next : RunFold Value) : Prop where
  longer : ∃ more, next.prefixes = fold.prefixes ++ more
  interned : Interned next
  bySeries : next.bySeries = fold.bySeries
  maxSeries : next.maxSeries = fold.maxSeries
  reservations : next.reservations = fold.reservations
  retained : next.retained + prefixLen * fold.prefixes.length = fold.retained + prefixLen * next.prefixes.length

theorem Grown.refl {fold : RunFold Value} (interned : Interned fold) : Grown fold fold :=
  ⟨⟨[], (append_nil _).symm⟩, interned, rfl, rfl, rfl, rfl⟩

theorem Grown.trans {first second third : RunFold Value} (earlier : Grown first second) (later : Grown second third) :
    Grown first third := by
  obtain ⟨more, isMore⟩ := earlier.longer
  obtain ⟨others, areOthers⟩ := later.longer
  have firstBytes := earlier.retained
  have secondBytes := later.retained
  refine ⟨⟨more ++ others, ?_⟩, later.interned, later.bySeries.trans earlier.bySeries,
    later.maxSeries.trans earlier.maxSeries, later.reservations.trans earlier.reservations, by omega⟩
  rw [areOthers, isMore, append_assoc]

theorem Grown.known {fold next : RunFold Value} (grown : Grown fold next) {sample : FoldedSample Value}
    (known : Known fold.prefixes sample) : Known next.prefixes sample := by
  obtain ⟨more, isMore⟩ := grown.longer
  rw [Known, isMore, length_append]
  exact Nat.lt_add_right _ known

theorem Grown.map_resolve {fold next : RunFold Value} (grown : Grown fold next) {level : List (FoldedSample Value)}
    (known : ∀ sample ∈ level, Known fold.prefixes sample) :
    level.map (resolve next.prefixes) = level.map (resolve fold.prefixes) := by
  obtain ⟨more, isMore⟩ := grown.longer
  rw [isMore]
  exact map_resolve_append known more

theorem intern_spec {fold next : RunFold Value} {key : RunTriple} {id : Nat} (interned : Interned fold)
    (added : intern fold key = .ok (id, next)) : Grown fold next ∧ next.prefixes[id]? = some key := by
  rw [intern, interned.index] at added
  cases found : fold.prefixes.zipIdx.find? fun entry => entry.1 = key with
  | some entry =>
    rw [found] at added
    cases added
    refine ⟨.refl interned, ?_⟩
    have listed := mem_of_find?_eq_some found
    have isKey : entry.1 = key := by simpa using find?_some found
    obtain ⟨triple, index⟩ := entry
    obtain ⟨-, inside, isTriple⟩ := mem_zipIdx listed
    rw [← isKey]
    simp only [Nat.sub_zero, Nat.zero_add] at inside isTriple
    rw [isTriple]
    exact getElem?_eq_getElem inside
  | none =>
    rw [found] at added
    dsimp only at added
    split at added
    · cases added
    · cases added
      have fresh : key ∉ fold.prefixes := by
        intro member
        obtain ⟨index, inside, same⟩ := mem_iff_getElem.mp member
        have listed : (key, index) ∈ fold.prefixes.zipIdx := by
          rw [mem_zipIdx_iff_getElem?, getElem?_eq_getElem inside, same]
        have absent := find?_eq_none.mp found _ listed
        simp at absent
      refine ⟨⟨⟨[key], rfl⟩, ⟨?_, ?_⟩, rfl, rfl, rfl, ?_⟩, ?_⟩
      · show fold.prefixes.zipIdx ++ [(key, fold.prefixes.length)] = (fold.prefixes ++ [key]).zipIdx
        rw [zipIdx_append, Nat.zero_add]
        rfl
      · exact nodup_append.mpr ⟨interned.distinct, pairwise_singleton _ _, by
          intro first member second isNew same
          rw [mem_singleton.mp isNew] at same
          exact fresh (same ▸ member)⟩
      · show fold.retained + prefixLen + prefixLen * fold.prefixes.length =
          fold.retained + prefixLen * (fold.prefixes ++ [key]).length
        rw [length_append, length_singleton, Nat.mul_add]
        omega
      · show (fold.prefixes ++ [key])[fold.prefixes.length]? = some key
        rw [getElem?_append_right (Nat.le_refl _), Nat.sub_self]
        rfl

/-- The triple of the sample before is in the table. -/
def LastKnown (fold : RunFold Value) (last : Option (RunTriple × Nat)) : Prop :=
  ∀ key id, last = some (key, id) → fold.prefixes[id]? = some key

theorem internNext_spec {fold next : RunFold Value} {last : Option (RunTriple × Nat)} {key : RunTriple} {id : Nat}
    (interned : Interned fold) (lastKnown : LastKnown fold last) (added : internNext last fold key = .ok (id, next)) :
    Grown fold next ∧ next.prefixes[id]? = some key := by
  unfold internNext at added
  split at added
  · rename_i lastKey lastId
    split at added
    · rename_i same
      cases added
      exact ⟨.refl interned, same ▸ lastKnown lastKey _ rfl⟩
    · exact intern_spec interned added
  · exact intern_spec interned added

end Interning

section Runs

variable {kind : FoldValue Value}

theorem pushFolded_resolve {prefixes : List RunTriple} {level next : List (FoldedSample Value)} {sample : FoldedSample Value}
    (pushed : pushFolded kind prefixes level sample = .ok next) :
    Metrics.pushFolded kind.servesOver (level.map (resolve prefixes)) (resolve prefixes sample) =
        .ok (next.map (resolve prefixes)) ∧
      ∀ item ∈ next, item = sample ∨ item ∈ level := by
  rw [pushFolded] at pushed
  rw [Metrics.pushFolded, getLast?_map]
  cases last : level.getLast? with
  | none =>
    rw [last] at pushed
    cases pushed
    exact ⟨rfl, fun item member => .inl (mem_singleton.mp member)⟩
  | some newest =>
    rw [last] at pushed
    dsimp only [Option.map_some] at pushed ⊢
    obtain ⟨notBefore, pushed⟩ := ok_of_guard pushed
    rw [if_neg (show ¬(resolve prefixes sample).1 < (resolve prefixes newest).1 from notBefore)]
    split at pushed
    · rename_i sameTime
      cases pushed
      rw [if_pos (show (resolve prefixes sample).1 = (resolve prefixes newest).1 from sameTime)]
      by_cases serves : servesOver kind prefixes sample newest = true
      · rw [if_pos serves, if_pos (show kind.servesOver (resolve prefixes sample).2 (resolve prefixes newest).2 = true from serves),
          map_append, map_dropLast]
        refine ⟨rfl, ?_⟩
        intro item member
        rcases mem_append.mp member with earlier | new
        · exact .inr (dropLast_subset _ earlier)
        · exact .inl (mem_singleton.mp new)
      · rw [if_neg serves, if_neg (show ¬kind.servesOver (resolve prefixes sample).2 (resolve prefixes newest).2 = true from serves)]
        exact ⟨rfl, fun item member => .inr member⟩
    · rename_i later
      cases pushed
      rw [if_neg (show ¬(resolve prefixes sample).1 = (resolve prefixes newest).1 from later), map_append]
      refine ⟨rfl, ?_⟩
      intro item member
      rcases mem_append.mp member with earlier | new
      · exact .inr earlier
      · exact .inl (mem_singleton.mp new)

/-- The loop over a run gives the level of its candidates. -/
theorem runLevel_spec {priorities : RunPriorities} {total : Nat} {samples : List (Metrics.Sample Value)} {pos : Nat}
    {last : Option (RunTriple × Nat)} {level final : List (FoldedSample Value)} {fold next : RunFold Value}
    (interned : Interned fold) (lastKnown : LastKnown fold last) (known : ∀ sample ∈ level, Known fold.prefixes sample)
    (leveled : runLevel kind priorities total pos samples last level fold = .ok (final, next)) :
    Grown fold next ∧ (∀ sample ∈ final, Known next.prefixes sample) ∧
      Metrics.runLevel kind.servesOver priorities total pos samples (level.map (resolve fold.prefixes)) =
        .ok (final.map (resolve next.prefixes)) := by
  induction samples generalizing pos last level fold with
  | nil =>
    cases leveled
    exact ⟨.refl interned, known, rfl⟩
  | cons sample rest ih =>
    rw [runLevel] at leveled
    rw [Metrics.runLevel]
    cases found : priorities.atPos pos with
    | none =>
      rw [found] at leveled
      cases leveled
    | some priority =>
      rw [found] at leveled
      obtain ⟨⟨id, table⟩, added, leveled⟩ := ok_of_bind leveled
      obtain ⟨pushed, pushedOk, leveled⟩ := ok_of_bind leveled
      obtain ⟨grown, isKey⟩ := internNext_spec interned lastKnown added
      obtain ⟨shown, members⟩ := pushFolded_resolve pushedOk
      have own : resolve table.prefixes ⟨sample.tsNs, id, priority.inPageIndex, sample.value⟩ =
          (sample.tsNs, ⟨sample.value, priority⟩) := by
        simp only [resolve, candidate, SampleFold.priority, isKey, Option.getD_some]
      have pushedKnown : ∀ item ∈ pushed, Known table.prefixes item := by
        intro item member
        rcases members item member with rfl | earlier
        · exact (List.getElem?_eq_some_iff.mp isKey).1
        · exact grown.known (known item earlier)
      rw [grown.map_resolve known, own] at shown
      have lastNow : LastKnown table (some (⟨priority.createdUnixNs, priority.writerEpoch, priority.writerSeq⟩, id)) := by
        rintro key other same
        cases same
        exact isKey
      obtain ⟨later, finalKnown, run⟩ := ih grown.interned lastNow pushedKnown leveled
      refine ⟨grown.trans later, finalKnown, ?_⟩
      exact bind_eq_ok.mpr ⟨_, shown, run⟩

end Runs

section Folds

variable (kind : FoldValue Value)

/-- The series of a fold with the priorities of their samples looked up. -/
def shown (prefixes : List RunTriple) (entries : List (SeriesId × FoldedSeries Value)) :
    Metrics.RunFold SeriesId LabelSet Value :=
  entries.map fun entry => (entry.1, ⟨entry.2.labels, entry.2.levels.map (List.map (resolve prefixes))⟩)

/-- The bytes of one series: its labels and its samples. -/
def seriesLen (entry : SeriesId × FoldedSeries Value) : Nat :=
  retainedSeriesLen entry.2.labels + levelsLen kind entry.2.levels

/-- The bytes of exactly the labels, samples and prefixes that a fold holds. -/
def RunFold.held (fold : RunFold Value) : Nat :=
  (fold.bySeries.map (seriesLen kind)).sum + prefixLen * fold.prefixes.length

/-- Every sample of some series is known. -/
def AllKnown (prefixes : List RunTriple) (entries : List (SeriesId × FoldedSeries Value)) : Prop :=
  ∀ entry ∈ entries, ∀ level ∈ entry.2.levels, ∀ sample ∈ level, Known prefixes sample

/-- What every step keeps: a table without repeats, samples that it knows, halved levels, and an exact counter. -/
structure Kept (fold : RunFold Value) : Prop where
  interned : Interned fold
  known : AllKnown fold.prefixes fold.bySeries
  halved : ∀ entry ∈ fold.bySeries, Halved entry.2.levels
  bounded : fold.bySeries.length ≤ fold.maxSeries
  retained : fold.retained = fold.held kind

variable {kind}

theorem shown_congr {prefixes longer : List RunTriple} {entries : List (SeriesId × FoldedSeries Value)}
    (same : ∀ entry ∈ entries, ∀ level ∈ entry.2.levels, level.map (resolve longer) = level.map (resolve prefixes)) :
    shown longer entries = shown prefixes entries := by
  apply map_congr_left
  intro entry member
  have levels := map_congr_left (same entry member)
  rw [levels]

/-- The series that a run names, added without levels when it is new. -/
def withSeries (seriesId : SeriesId) (labels : LabelSet) (entries : List (SeriesId × FoldedSeries Value)) :
    List (SeriesId × FoldedSeries Value) :=
  if entries.any fun entry => entry.1 = seriesId then entries else entries ++ [(seriesId, ⟨labels, []⟩)]

theorem withSeries_cons_of_ne {seriesId : SeriesId} {labels : LabelSet} {entry : SeriesId × FoldedSeries Value}
    (other : entry.1 ≠ seriesId) (entries : List (SeriesId × FoldedSeries Value)) :
    withSeries seriesId labels (entry :: entries) = entry :: withSeries seriesId labels entries := by
  rw [withSeries, withSeries, any_cons, decide_eq_false other, Bool.false_or]
  split
  · rfl
  · rfl

/-- Pushing a level into the named series places its candidates. -/
theorem shown_pushInto {prefixes : List RunTriple} (seriesId : SeriesId) (labels : LabelSet)
    (level : List (FoldedSample Value)) (entries : List (SeriesId × FoldedSeries Value)) :
    shown prefixes (pushInto kind prefixes seriesId level (withSeries seriesId labels entries)).1 =
      Metrics.placeLevel kind.servesOver seriesId labels (level.map (resolve prefixes)) (shown prefixes entries) := by
  induction entries with
  | nil =>
    have own : (pushLevel kind prefixes level []).1.map (List.map (resolve prefixes)) =
        Metrics.pushLevel kind.servesOver (level.map (resolve prefixes)) [] := pushLevel_resolve level []
    rw [withSeries, if_neg (by simp), nil_append, pushInto, if_pos rfl]
    show [(seriesId, (⟨labels, (pushLevel kind prefixes level []).1.map _⟩ : Metrics.FoldedSeries LabelSet Value))] = _
    rw [own]
    rfl
  | cons entry entries ih =>
    have split : shown prefixes (entry :: entries) =
        (entry.1, ⟨entry.2.labels, entry.2.levels.map (List.map (resolve prefixes))⟩) :: shown prefixes entries := rfl
    rw [split, Metrics.placeLevel]
    by_cases same : entry.1 = seriesId
    · have listed : (entry :: entries).any (fun entry => entry.1 = seriesId) = true := by simp [same]
      rw [withSeries, if_pos listed, pushInto, if_pos same, if_pos same, ← pushLevel_resolve]
      rfl
    · rw [withSeries_cons_of_ne same, pushInto, if_neg same, if_neg same, ← ih]
      rfl

theorem pushInto_len {prefixes : List RunTriple} {seriesId : SeriesId} {level : List (FoldedSample Value)}
    {entries : List (SeriesId × FoldedSeries Value)} (listed : seriesId ∈ entries.map Prod.fst) :
    ((pushInto kind prefixes seriesId level entries).1.map (seriesLen kind)).sum +
        (pushInto kind prefixes seriesId level entries).2 =
      levelLen kind level + (entries.map (seriesLen kind)).sum := by
  induction entries with
  | nil => cases listed
  | cons entry entries ih =>
    rw [pushInto]
    split
    · have pushed : levelsLen kind (pushLevel kind prefixes level entry.2.levels).1 +
          (pushLevel kind prefixes level entry.2.levels).2 = levelLen kind level + levelsLen kind entry.2.levels :=
        pushLevel_len level entry.2.levels
      simp only [map_cons, sum_cons, seriesLen]
      omega
    · rename_i other
      rw [map_cons, mem_cons] at listed
      have later := ih (listed.resolve_left fun same => other same.symm)
      simp only [map_cons, sum_cons]
      omega

/-- The entries after a push: those of other series, and the named one with its levels pushed. -/
theorem mem_pushInto {prefixes : List RunTriple} {seriesId : SeriesId} {level : List (FoldedSample Value)}
    {entries : List (SeriesId × FoldedSeries Value)} {entry : SeriesId × FoldedSeries Value}
    (member : entry ∈ (pushInto kind prefixes seriesId level entries).1) :
    entry ∈ entries ∨ ∃ old ∈ entries, entry.2.levels = (pushLevel kind prefixes level old.2.levels).1 := by
  induction entries with
  | nil => cases member
  | cons first entries ih =>
    rw [pushInto] at member
    split at member
    · rcases mem_cons.mp member with rfl | kept
      · exact .inr ⟨first, mem_cons_self, rfl⟩
      · exact .inl (mem_cons_of_mem _ kept)
    · rcases mem_cons.mp member with rfl | kept
      · exact .inl mem_cons_self
      · rcases ih kept with earlier | ⟨old, inside, pushed⟩
        · exact .inl (mem_cons_of_mem _ earlier)
        · exact .inr ⟨old, mem_cons_of_mem _ inside, pushed⟩

theorem length_pushInto {prefixes : List RunTriple} {seriesId : SeriesId} {level : List (FoldedSample Value)}
    (entries : List (SeriesId × FoldedSeries Value)) :
    (pushInto kind prefixes seriesId level entries).1.length = entries.length := by
  induction entries with
  | nil => rfl
  | cons entry entries ih =>
    rw [pushInto]
    split
    · rfl
    · rw [length_cons, length_cons, ih]

/-- The series of a fold, with the one that a run names. -/
theorem withSeries_spec {seriesId : SeriesId} {labels : LabelSet} {entries : List (SeriesId × FoldedSeries Value)} :
    seriesId ∈ (withSeries seriesId labels entries).map Prod.fst ∧
      (∀ entry ∈ withSeries seriesId labels entries, entry ∈ entries ∨ entry.2.levels = []) ∧
      (withSeries seriesId labels entries).length ≤ entries.length + 1 ∧
      ((withSeries seriesId labels entries).map (seriesLen kind)).sum = (entries.map (seriesLen kind)).sum +
        if (entries.any fun entry => entry.1 = seriesId) then 0 else retainedSeriesLen labels := by
  rw [withSeries]
  split
  · rename_i listed
    obtain ⟨entry, member, same⟩ := any_eq_true.mp listed
    refine ⟨?_, fun entry member => .inl member, by omega, rfl⟩
    exact mem_map.mpr ⟨entry, member, by simpa using same⟩
  · refine ⟨by simp, ?_, by simp, ?_⟩
    · intro entry member
      rcases mem_append.mp member with earlier | new
      · exact .inl earlier
      · rw [mem_singleton.mp new]
        exact .inr rfl
    · simp [seriesLen]

/-- What a run that a fold takes does: its level is pushed into its series, and the counter follows. -/
theorem absorbRun_cases {fold next : RunFold Value} {run : FoldRun SeriesId LabelSet Value}
    (absorbed : absorbRun kind fold run = .ok next) :
    (fold.holds run.seriesId = true ∨ fold.bySeries.length < fold.maxSeries) ∧
      run.run.priorities.checkLen run.run.samples.length = .ok () ∧
      ∃ level table, runLevel kind run.run.priorities run.run.samples.length 0 run.run.samples none [] fold =
          .ok (level, table) ∧
        next.prefixes = table.prefixes ∧ next.prefixIds = table.prefixIds ∧ next.maxSeries = table.maxSeries ∧
        next.bySeries =
          (pushInto kind table.prefixes run.seriesId level (withSeries run.seriesId run.labels table.bySeries)).1 ∧
        next.retained = table.retained + levelLen kind level +
            (if table.holds run.seriesId then 0 else retainedSeriesLen run.labels) -
          (pushInto kind table.prefixes run.seriesId level (withSeries run.seriesId run.labels table.bySeries)).2 := by
  rw [absorbRun] at absorbed
  obtain ⟨room, absorbed⟩ := ok_of_guard absorbed
  obtain ⟨_, checked, absorbed⟩ := ok_of_bind absorbed
  obtain ⟨⟨level, table⟩, leveled, absorbed⟩ := ok_of_bind absorbed
  refine ⟨?_, checked, level, table, leveled, ?_⟩
  · simpa [or_iff_not_imp_left] using room
  · by_cases listed : table.holds run.seriesId = true
    · have same : withSeries run.seriesId run.labels table.bySeries = table.bySeries := if_pos listed
      have still : ({ table with retained := table.retained + (level.map (sampleLen kind)).sum } : RunFold Value).holds
          run.seriesId = true := listed
      dsimp only at absorbed
      rw [if_pos still] at absorbed
      cases absorbed
      rw [if_pos listed, same]
      exact ⟨rfl, rfl, rfl, rfl, rfl⟩
    · have added : withSeries run.seriesId run.labels table.bySeries =
          table.bySeries ++ [(run.seriesId, ⟨run.labels, []⟩)] := if_neg listed
      have still : ¬({ table with retained := table.retained + (level.map (sampleLen kind)).sum } : RunFold Value).holds
          run.seriesId = true := listed
      dsimp only at absorbed
      rw [if_neg still] at absorbed
      cases absorbed
      rw [if_neg listed, added]
      exact ⟨rfl, rfl, rfl, rfl, rfl⟩

/-- A run that the fold takes is taken by the fold of candidates, and keeps what every step keeps. -/
theorem Kept.absorbRun {fold next : RunFold Value} {run : FoldRun SeriesId LabelSet Value} (kept : Kept kind fold)
    (absorbed : absorbRun kind fold run = .ok next) :
    Kept kind next ∧ next.maxSeries = fold.maxSeries ∧
      Metrics.absorbRun kind.servesOver (shown fold.prefixes fold.bySeries) run =
        .ok (shown next.prefixes next.bySeries) := by
  obtain ⟨room, checked, level, table, leveled, prefixes, prefixIds, maxSeries, bySeries, retained⟩ := absorbRun_cases absorbed
  have noLast : LastKnown fold none := by
    intro key id absurd
    cases absurd
  obtain ⟨grown, levelKnown, run'⟩ := runLevel_spec kept.interned noLast (by simp) leveled
  obtain ⟨listed, members, longer, bytes⟩ :=
    @withSeries_spec Value kind run.seriesId run.labels table.bySeries
  have tableKnown : AllKnown table.prefixes table.bySeries := by
    rw [grown.bySeries]
    exact fun entry member other inside sample held => grown.known (kept.known entry member other inside sample held)
  have tableHalved : ∀ entry ∈ table.bySeries, Halved entry.2.levels := by
    rw [grown.bySeries]
    exact kept.halved
  -- The entry that the run names is in the fold, or new and without levels.
  have startKnown : ∀ entry ∈ withSeries run.seriesId run.labels table.bySeries, Halved entry.2.levels ∧
      ∀ other ∈ entry.2.levels, ∀ sample ∈ other, Known table.prefixes sample := by
    intro entry member
    rcases members entry member with earlier | empty
    · exact ⟨tableHalved entry earlier, tableKnown entry earlier⟩
    · rw [empty]
      exact ⟨halved_nil, fun other absurd => (by cases absurd)⟩
  have pushedKnown : ∀ entry ∈ next.bySeries, Halved entry.2.levels ∧
      ∀ other ∈ entry.2.levels, ∀ sample ∈ other, Known next.prefixes sample := by
    intro entry member
    rw [bySeries] at member
    rw [prefixes]
    rcases mem_pushInto member with earlier | ⟨old, inside, pushed⟩
    · exact startKnown entry earlier
    · obtain ⟨halved, known⟩ := startKnown old inside
      rw [pushed]
      refine ⟨halved.pushLevel level, ?_⟩
      intro other inLevels sample held
      rcases mem_pushLevel inLevels held with new | ⟨heldLevel, inOld, inHeld⟩
      · exact levelKnown sample new
      · exact known heldLevel inOld sample inHeld
  refine ⟨⟨⟨?_, ?_⟩, fun entry member => (pushedKnown entry member).2, fun entry member => (pushedKnown entry member).1, ?_, ?_⟩,
    maxSeries.trans grown.maxSeries, ?_⟩
  · rw [prefixIds, prefixes, grown.interned.index]
  · rw [prefixes]
    exact grown.interned.distinct
  · rw [bySeries, length_pushInto, maxSeries, grown.maxSeries]
    have within := kept.bounded
    have sameSeries := congrArg List.length grown.bySeries
    rcases room with held | free
    · have same : withSeries run.seriesId run.labels table.bySeries = table.bySeries := by
        rw [RunFold.holds, ← grown.bySeries] at held
        exact if_pos held
      rw [same]
      omega
    · omega
  · have dropped := @pushInto_len Value kind table.prefixes run.seriesId level _ listed
    have tableBytes := grown.retained
    have foldBytes := kept.retained
    rw [retained, RunFold.held, bySeries, prefixes]
    rw [RunFold.held] at foldBytes
    rw [bytes] at dropped
    rw [RunFold.holds]
    rw [← grown.bySeries] at foldBytes
    omega
  · apply bind_eq_ok.mpr
    refine ⟨(), checked, bind_eq_ok.mpr ⟨_, run', ?_⟩⟩
    have same : shown table.prefixes table.bySeries = shown fold.prefixes fold.bySeries := by
      rw [grown.bySeries]
      exact shown_congr fun entry member other inside => grown.map_resolve (kept.known entry member other inside)
    rw [bySeries, prefixes, shown_pushInto, same]
    rfl

end Folds

end Ravel.Promql.SampleFold
