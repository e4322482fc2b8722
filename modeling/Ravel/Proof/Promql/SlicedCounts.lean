import Ravel.Construction.Promql.PushdownSlices
import Ravel.Proof.Catalog.ShardRouting
import Ravel.Proof.Promql.PartialCounts

namespace Ravel.Promql

open List Library Metrics

/-- The series was routed under the count that was active at an hour from which the slack reaches the segment's hour. -/
def RoutedWithin (generations : List Catalog.ShardGeneration) (routed : RoutedSegment) (seriesId : SeriesId) : Prop :=
  ∃ hour : UInt32, hour ≤ routed.ingestHourBucket ∧
    routed.ingestHourBucket.toNat ≤ hour.toNat + Catalog.defaultScanSlackHours.toNat ∧
    routed.shard = Catalog.shardFor seriesId.leadingBytes (Catalog.activeShardCount generations hour)

section Gate

variable {generations : List Catalog.ShardGeneration} {slackHours : UInt32}

theorem owned_of_ownedByOne {hours : List UInt32} {generation : UInt32}
    (owned : ownedByOne generations slackHours (some generation) hours = true) :
    ∀ hour ∈ hours, Catalog.stableGenerationForHour generations hour slackHours = some generation := by
  induction hours with
  | nil =>
    intro hour member
    cases member
  | cons first rest ih =>
    rw [ownedByOne] at owned
    split at owned
    · cases owned
    · rename_i found stable
      dsimp only at owned
      split at owned
      · rename_i same
        intro hour member
        rcases mem_cons.mp member with rfl | later
        · rw [stable, same]
        · exact ih owned hour later
      · cases owned

/-- The hours of an admitted query have one owner. -/
theorem exists_owner {Federation : Type} {federation : Option Federation} {segments : List RoutedSegment}
    (eligible : isPushdownEligible federation segments generations = true) :
    ∃ generation, ∀ routed ∈ segments,
      Catalog.stableGenerationForHour generations routed.ingestHourBucket Catalog.defaultScanSlackHours = some generation := by
  rw [isPushdownEligible] at eligible
  split at eligible
  · cases eligible
  · cases segments with
    | nil => exact ⟨0, fun routed member => by cases member⟩
    | cons first rest =>
      rw [allHoursInOneStableGeneration, map_cons, ownedByOne] at eligible
      split at eligible
      · cases eligible
      · rename_i generation stable
        refine ⟨generation, ?_⟩
        intro routed member
        rcases mem_cons.mp member with rfl | later
        · exact stable
        · exact owned_of_ownedByOne eligible _ (mem_map_of_mem later)

end Gate

theorem activeShardCount_of_stable (history : Catalog.ShardHistory) {slackHours filed routed generation : UInt32}
    (stable : Catalog.stableGenerationForHour history.generations filed slackHours = some generation) (before : routed ≤ filed)
    (within : filed.toNat ≤ routed.toNat + slackHours.toNat) :
    ∃ entry, history.generations[generation.toNat]? = some entry ∧
      Catalog.activeShardCount history.generations routed = entry.shardCount := by
  rw [Catalog.stableGenerationForHour, history.stableFrom_iff filed slackHours 0 history.generations rfl] at stable
  obtain ⟨place, entry, -, located, same, reached, pending⟩ := stable
  obtain ⟨index, current, currentAt, active, following, count⟩ := history.activeShardCount_routes routed
  rw [UInt32.le_iff_toNat_le] at before active
  have activated : entry.activationHour.toNat ≤ routed.toNat := by
    by_cases isFirst : place = 0
    · rw [isFirst] at located
      rw [history.first entry located]
      exact Nat.zero_le _
    · rw [if_neg isFirst] at reached
      omega
  have samePlace : index = place := by
    rcases Nat.lt_trichotomy index place with earlier | isSame | later
    · exfalso
      have inside := (List.getElem?_eq_some_iff.mp located).1
      obtain ⟨successor, next⟩ : ∃ successor, history.generations[index + 1]? = some successor :=
        ⟨_, getElem?_eq_getElem (by omega)⟩
      have atMost := history.successor_le earlier next located
      have early := UInt32.lt_iff_toNat_lt.mp (following successor next)
      omega
    · exact isSame
    · exfalso
      have inside := (List.getElem?_eq_some_iff.mp currentAt).1
      obtain ⟨successor, next⟩ : ∃ successor, history.generations[place + 1]? = some successor :=
        ⟨_, getElem?_eq_getElem (by omega)⟩
      have atMost := history.successor_le later next currentAt
      have early := UInt32.lt_iff_toNat_lt.mp (pending successor next)
      omega
  refine ⟨entry, ?_, ?_⟩
  · rw [← same, history.dense place entry located, located]
  · rw [samePlace, located, Option.some.injEq] at currentAt
    rw [count, currentAt]

theorem shard_eq_of_eligible {Federation : Type} (history : Catalog.ShardHistory) {federation : Option Federation}
    {segments : List RoutedSegment} (eligible : isPushdownEligible federation segments history.generations = true)
    {seriesId : SeriesId} {first second : RoutedSegment} (firstIn : first ∈ segments) (secondIn : second ∈ segments)
    (firstRouted : RoutedWithin history.generations first seriesId)
    (secondRouted : RoutedWithin history.generations second seriesId) : first.shard = second.shard := by
  obtain ⟨generation, stable⟩ := exists_owner eligible
  obtain ⟨firstHour, firstBefore, firstWithin, firstShard⟩ := firstRouted
  obtain ⟨secondHour, secondBefore, secondWithin, secondShard⟩ := secondRouted
  obtain ⟨entry, located, count⟩ := activeShardCount_of_stable history (stable first firstIn) firstBefore firstWithin
  obtain ⟨other, otherAt, otherCount⟩ := activeShardCount_of_stable history (stable second secondIn) secondBefore secondWithin
  rw [located, Option.some.injEq] at otherAt
  rw [firstShard, secondShard, count, otherCount, otherAt]

section Slices

theorem sliceChunks_flatten {Entry : Type} {size : Nat} (positive : 0 < size) {fuel : Nat} {entries : List Entry}
    (enough : entries.length ≤ fuel) : (sliceChunks size fuel entries).flatten = entries := by
  induction fuel generalizing entries with
  | zero =>
    rw [eq_nil_of_length_eq_zero (Nat.le_zero.mp enough)]
    rfl
  | succ fuel ih =>
    cases entries with
    | nil => rfl
    | cons entry rest =>
      have shorter : ((entry :: rest).drop size).length ≤ fuel := by
        rw [length_drop]
        rw [length_cons] at enough ⊢
        omega
      rw [sliceChunks, flatten_cons, ih shorter, take_append_drop]

theorem flatten_filter_nonempty {Entry : Type} (lists : List (List Entry)) :
    (lists.filter fun list => !list.isEmpty).flatten = lists.flatten := by
  induction lists with
  | nil => rfl
  | cons list rest ih =>
    cases list with
    | nil => simpa using ih
    | cons entry others => simpa using ih

variable (segments : List RoutedSegment) (cap : Nat)

theorem shardGroups_pos (nonempty : segments ≠ []) : 0 < (shardGroups segments).length := by
  obtain ⟨first, rest, rfl⟩ := exists_cons_of_ne_nil nonempty
  have listed := ((SortedGroups.groupAll_keys ((first :: rest).map fun routed => (routed.shard.toNat, routed))).1
    first.shard.toNat).mpr (by simp)
  rw [shardGroups, length_map]
  obtain ⟨group, member, -⟩ := mem_map.mp listed
  exact length_pos_of_mem member

/-- The chunks of the shard groups, before the empty ones are dropped. -/
theorem exists_partition_chunks (nonempty : segments ≠ []) :
    ∃ chunks : List (List (List RoutedSegment)), chunks.flatten = shardGroups segments ∧
      partitionSnapshot segments cap = (chunks.map List.flatten).filter fun slice => !slice.isEmpty := by
  have positive := shardGroups_pos segments nonempty
  let sliceCount := min (shardGroups segments).length (max cap 1)
  refine ⟨sliceChunks (((shardGroups segments).length + sliceCount - 1) / sliceCount) (shardGroups segments).length
    (shardGroups segments), ?_, ?_⟩
  · apply sliceChunks_flatten _ (Nat.le_refl _)
    have count : 0 < sliceCount := by
      show 0 < min (shardGroups segments).length (max cap 1)
      omega
    exact Nat.div_pos (by omega) count
  · rw [partitionSnapshot, if_neg (by simpa using nonempty)]

/-- The slices in turn are the shard groups in turn. -/
theorem flatten_partitionSnapshot : (partitionSnapshot segments cap).flatten = (shardGroups segments).flatten := by
  by_cases empty : segments = []
  · rw [empty]
    rfl
  · obtain ⟨chunks, whole, slices⟩ := exists_partition_chunks segments cap empty
    rw [slices, flatten_filter_nonempty, ← whole, flatten_flatten]

/-- Two lists of segments without a common shard. -/
def ShardsApart (first second : List RoutedSegment) : Prop :=
  ∀ routed ∈ first, ∀ other ∈ second, routed.shard ≠ other.shard

theorem shard_of_mem_group {group : Nat × List RoutedSegment}
    (member : group ∈ SortedGroups.groupAll (segments.map fun routed => (routed.shard.toNat, routed))) :
    group.2 = segments.filter fun routed => routed.shard.toNat = group.1 := by
  have found := SortedGroups.lookup_of_mem (SortedGroups.groupAll_sorted _) member
  rw [SortedGroups.lookup_groupAll, filter_map, map_map] at found
  rw [← found]
  exact map_id _

theorem shardGroups_apart : (shardGroups segments).Pairwise ShardsApart := by
  rw [shardGroups, pairwise_map]
  apply List.Pairwise.imp_of_mem _ (SortedGroups.groupAll_sorted _)
  intro first second firstIn secondIn before routed inFirst other inSecond same
  rw [shard_of_mem_group segments firstIn] at inFirst
  rw [shard_of_mem_group segments secondIn] at inSecond
  have firstShard : routed.shard.toNat = first.1 := by simpa using (mem_filter.mp inFirst).2
  have secondShard : other.shard.toNat = second.1 := by simpa using (mem_filter.mp inSecond).2
  rw [← firstShard, ← secondShard, same] at before
  exact lt_irrefl _ before

/-- Two slices have no common shard. -/
theorem partitionSnapshot_apart : (partitionSnapshot segments cap).Pairwise ShardsApart := by
  by_cases empty : segments = []
  · rw [empty]
    exact List.Pairwise.nil
  · obtain ⟨chunks, whole, slices⟩ := exists_partition_chunks segments cap empty
    have apart := shardGroups_apart segments
    rw [← whole, pairwise_flatten] at apart
    rw [slices]
    apply List.Pairwise.filter
    rw [pairwise_map]
    apply apart.2.imp
    intro first second groupsApart routed inFirst other inSecond
    obtain ⟨group, groupIn, inGroup⟩ := mem_flatten.mp inFirst
    obtain ⟨otherGroup, otherIn, inOther⟩ := mem_flatten.mp inSecond
    exact groupsApart group groupIn otherGroup otherIn routed inGroup other inOther

/-- Among lists of which one passes a test, that one has all that passes it. -/
theorem flatten_filter_of_apart {lists : List (List RoutedSegment)} (apart : lists.Pairwise ShardsApart)
    {slice : List RoutedSegment} (member : slice ∈ lists) {shard : UInt32} (has : ∃ routed ∈ slice, routed.shard = shard) :
    lists.flatten.filter (fun routed => routed.shard = shard) = slice.filter fun routed => routed.shard = shard := by
  obtain ⟨routed, inSlice, isShard⟩ := has
  have none : ∀ {others : List RoutedSegment}, (∀ other ∈ others, routed.shard ≠ other.shard) →
      others.filter (fun routed => routed.shard = shard) = [] := by
    intro others different
    rw [filter_eq_nil_iff]
    intro other inside same
    exact different other inside (isShard.trans (of_decide_eq_true same).symm)
  induction lists with
  | nil => cases member
  | cons first rest ih =>
    obtain ⟨firstApart, restApart⟩ := pairwise_cons.mp apart
    rw [flatten_cons, filter_append]
    rcases mem_cons.mp member with rfl | later
    · have restNone : rest.flatten.filter (fun routed => routed.shard = shard) = [] := by
        apply none
        intro other inside
        obtain ⟨list, listIn, inList⟩ := mem_flatten.mp inside
        exact firstApart list listIn routed inSlice other inList
      rw [restNone, append_nil]
    · have firstNone : first.filter (fun routed => routed.shard = shard) = [] := by
        apply none
        intro other inside same
        exact firstApart slice later other inside routed inSlice same.symm
      rw [firstNone, nil_append, ih restApart later]

/-- The groups in turn keep the order of each shard's segments. -/
theorem shardGroups_filter (shard : UInt32) :
    (shardGroups segments).flatten.filter (fun routed => routed.shard = shard) =
      segments.filter fun routed => routed.shard = shard := by
  by_cases present : ∃ routed ∈ segments, routed.shard = shard
  · obtain ⟨routed, inside, isShard⟩ := present
    have listed := ((SortedGroups.groupAll_keys (segments.map fun routed => (routed.shard.toNat, routed))).1
      shard.toNat).mpr (mem_map.mpr ⟨(routed.shard.toNat, routed), mem_map_of_mem inside, by rw [isShard]⟩)
    obtain ⟨group, groupIn, isKey⟩ := mem_map.mp listed
    have whole := shard_of_mem_group segments groupIn
    have inGroup : routed ∈ group.2 := by
      rw [whole, mem_filter]
      exact ⟨inside, by simp [isKey, isShard]⟩
    rw [flatten_filter_of_apart (shardGroups_apart segments) (mem_map_of_mem groupIn) ⟨routed, inGroup, isShard⟩, whole,
      filter_filter]
    apply filter_congr
    intro other _
    by_cases same : other.shard = shard
    · simp [same, isKey]
    · simp [same]
  · push Not at present
    have none : segments.filter (fun routed => routed.shard = shard) = [] := by
      rw [filter_eq_nil_iff]
      simpa using present
    rw [none, filter_eq_nil_iff]
    intro other inside
    obtain ⟨list, listIn, inList⟩ := mem_flatten.mp inside
    obtain ⟨group, groupIn, rfl⟩ := mem_map.mp listIn
    rw [shard_of_mem_group segments groupIn] at inList
    simpa using present other (mem_of_mem_filter inList)

theorem slice_filter {slice : List RoutedSegment} (member : slice ∈ partitionSnapshot segments cap) {shard : UInt32}
    (has : ∃ routed ∈ slice, routed.shard = shard) :
    (slice.filter fun routed => routed.shard = shard) = segments.filter fun routed => routed.shard = shard := by
  rw [← flatten_filter_of_apart (partitionSnapshot_apart segments cap) member has, flatten_partitionSnapshot, shardGroups_filter]

/-- Every segment is in the slices as often as in the snapshot. -/
theorem partitionSnapshot_perm : (partitionSnapshot segments cap).flatten.Perm segments := by
  classical
  rw [flatten_partitionSnapshot, perm_iff_count]
  intro routed
  have same := congrArg (List.count routed) (shardGroups_filter segments routed.shard)
  rw [count_filter (by simp), count_filter (by simp)] at same
  exact same

end Slices

section Counts

variable {regex : RegexMatch} {matchers : List LabelMatcher}

theorem mem_sliceScalars {segments : List RoutedSegment} {run : ScalarRun} :
    run ∈ sliceScalars regex matchers segments ↔
      ∃ routed ∈ segments, run ∈ routed.segment.scalars ∧ matchesSeries regex matchers run.labels = true := by
  rw [sliceScalars, fetchScalars, mem_flatMap]
  simp [mem_filter]

theorem sliceScalars_filter {segments : List RoutedSegment} {seriesId : SeriesId} {shard : UInt32}
    (only : ∀ routed ∈ segments, routed.Holds seriesId → routed.shard = shard) :
    (sliceScalars regex matchers segments).filter (fun run => run.seriesId = seriesId) =
      (sliceScalars regex matchers (segments.filter fun routed => routed.shard = shard)).filter
        fun run => run.seriesId = seriesId := by
  induction segments with
  | nil => rfl
  | cons first rest ih =>
    obtain ⟨onlyFirst, onlyRest⟩ := forall_mem_cons.mp only
    have split : ∀ others : List RoutedSegment, sliceScalars regex matchers (first :: others) =
        (first.segment.scalars.filter fun run => matchesSeries regex matchers run.labels) ++
          sliceScalars regex matchers others := fun _ => rfl
    rw [split, filter_append, ih onlyRest]
    by_cases isShard : first.shard = shard
    · rw [filter_cons_of_pos (by simpa using isShard), split, filter_append]
    · have none : (first.segment.scalars.filter fun run => matchesSeries regex matchers run.labels).filter
          (fun run => run.seriesId = seriesId) = [] := by
        rw [filter_eq_nil_iff]
        intro run member passes
        exact isShard (onlyFirst (.inl ⟨run, mem_of_mem_filter member, of_decide_eq_true passes⟩))
      rw [filter_cons_of_neg (by simpa using isShard), none, nil_append]

theorem groupRuns_slices {segments : List RoutedSegment} {cap : Nat}
    (oneShard : ∀ seriesId, ∀ first ∈ segments, ∀ second ∈ segments, first.Holds seriesId → second.Holds seriesId →
      first.shard = second.shard) :
    ((partitionSnapshot segments cap).flatMap fun slice => groupRuns (sliceScalars regex matchers slice)).Perm
      (groupRuns (sliceScalars regex matchers segments)) := by
  have inSnapshot : ∀ slice ∈ partitionSnapshot segments cap, ∀ routed ∈ slice, routed ∈ segments := by
    intro slice member routed inside
    exact (partitionSnapshot_perm segments cap).mem_iff.mp (mem_flatten.mpr ⟨slice, member, inside⟩)
  -- a slice with a run of the series has all of them, in the order of the snapshot
  have whole : ∀ slice ∈ partitionSnapshot segments cap, ∀ run ∈ sliceScalars regex matchers slice,
      (sliceScalars regex matchers slice).filter (fun other => other.seriesId = run.seriesId) =
        (sliceScalars regex matchers segments).filter fun other => other.seriesId = run.seriesId := by
    intro slice member run arrived
    obtain ⟨routed, inside, holds, -⟩ := mem_sliceScalars.mp arrived
    have only : ∀ other ∈ segments, other.Holds run.seriesId → other.shard = routed.shard := fun other otherIn otherHolds =>
      oneShard run.seriesId other otherIn routed (inSnapshot slice member routed inside) otherHolds (.inl ⟨run, holds, rfl⟩)
    rw [sliceScalars_filter only, sliceScalars_filter fun other otherIn => only other (inSnapshot slice member other otherIn),
      slice_filter segments cap member ⟨routed, inside, rfl⟩]
  apply (perm_ext_iff_of_nodup _ (nodup_groupRuns _).of_map).mpr
  · intro group
    rw [mem_flatMap, mem_groupRuns]
    constructor
    · rintro ⟨slice, member, grouped⟩
      obtain ⟨⟨run, arrived, isSeries⟩, runs⟩ := mem_groupRuns.mp grouped
      have all := whole slice member run arrived
      rw [isSeries] at all
      refine ⟨⟨run, ?_, isSeries⟩, runs.trans all⟩
      obtain ⟨routed, inside, holds⟩ := mem_sliceScalars.mp arrived
      exact mem_sliceScalars.mpr ⟨routed, inSnapshot slice member routed inside, holds⟩
    · rintro ⟨⟨run, arrived, isSeries⟩, runs⟩
      obtain ⟨routed, inside, holds⟩ := mem_sliceScalars.mp arrived
      obtain ⟨slice, member, inSlice⟩ :=
        mem_flatten.mp ((partitionSnapshot_perm segments cap).mem_iff.mpr inside)
      have inWorker : run ∈ sliceScalars regex matchers slice := mem_sliceScalars.mpr ⟨routed, inSlice, holds⟩
      have all := whole slice member run inWorker
      rw [isSeries] at all
      exact ⟨slice, member, mem_groupRuns.mpr ⟨⟨run, inWorker, isSeries⟩, runs.trans all.symm⟩⟩
  · rw [nodup_flatMap]
    refine ⟨fun slice _ => (nodup_groupRuns _).of_map, ?_⟩
    apply List.Pairwise.imp_of_mem _ (partitionSnapshot_apart segments cap)
    intro first second firstIn secondIn apart group inFirst inSecond
    obtain ⟨⟨run, arrived, isSeries⟩, -⟩ := mem_groupRuns.mp inFirst
    obtain ⟨⟨other, otherArrived, otherSeries⟩, -⟩ := mem_groupRuns.mp inSecond
    obtain ⟨routed, inside, holds, -⟩ := mem_sliceScalars.mp arrived
    obtain ⟨otherRouted, otherInside, otherHolds, -⟩ := mem_sliceScalars.mp otherArrived
    apply apart routed inside otherRouted otherInside
    exact oneShard group.1 routed (inSnapshot first firstIn routed inside) otherRouted
      (inSnapshot second secondIn otherRouted otherInside) (.inl ⟨run, holds, isSeries⟩) (.inl ⟨other, otherHolds, otherSeries⟩)

/-- The partials of some groups, in any order. -/
theorem mapM_perm {Failure Input Output : Type} {step : Input → Except Failure Output} {left right : List Input}
    (reordered : left.Perm right) {outputs : List Output} (mapped : left.mapM step = .ok outputs) :
    ∃ others, right.mapM step = .ok others ∧ outputs.Perm others := by
  induction reordered generalizing outputs with
  | nil => exact ⟨outputs, mapped, Perm.refl _⟩
  | cons input _ ih =>
    obtain ⟨output, rest, stepped, later, rfl⟩ := forall₂_cons_left_iff.mp (mapM_eq_ok.mp mapped)
    obtain ⟨others, otherMapped, same⟩ := ih (mapM_eq_ok.mpr later)
    exact ⟨output :: others, mapM_eq_ok.mpr (.cons stepped (mapM_eq_ok.mp otherMapped)), same.cons output⟩
  | swap first second rest =>
    obtain ⟨output, others, stepped, later, rfl⟩ := forall₂_cons_left_iff.mp (mapM_eq_ok.mp mapped)
    obtain ⟨next, tail, nextStepped, tailMapped, rfl⟩ := forall₂_cons_left_iff.mp later
    exact ⟨next :: output :: tail, mapM_eq_ok.mpr (.cons nextStepped (.cons stepped tailMapped)), Perm.swap _ _ _⟩
  | trans _ _ firstHypothesis secondHypothesis =>
    obtain ⟨middle, middleMapped, toMiddle⟩ := firstHypothesis mapped
    obtain ⟨others, otherMapped, toOthers⟩ := secondHypothesis middleMapped
    exact ⟨others, otherMapped, toMiddle.trans toOthers⟩

/-- The workers answer with the partials of their groups in turn. -/
theorem sliceAnswers_eq_ok {startNs endNs : Int} {slices : List (List RoutedSegment)} {answers : List (List PartialAggregate)} :
    sliceAnswers regex matchers startNs endNs slices = .ok answers →
      ∃ partials, (slices.flatMap fun slice => groupRuns (sliceScalars regex matchers slice)).mapM (reduceSeries startNs endNs) =
        .ok partials ∧ answers.flatten = partials.filterMap id := by
  intro answered
  have aligned := mapM_eq_ok.mp answered
  clear answered
  induction aligned with
  | nil => exact ⟨[], rfl, rfl⟩
  | @cons slice answer slices answers first _ ih =>
    obtain ⟨partials, reduced, returned⟩ := ok_of_bind first
    cases returned
    obtain ⟨others, otherReduced, flattened⟩ := ih
    refine ⟨partials ++ others, ?_, by rw [flatten_cons, flattened, filterMap_append]⟩
    rw [flatMap_cons, mapM_append, reduced, otherReduced]
    rfl

/-- The workers answer when the whole snapshot can be reduced. -/
theorem exists_sliceAnswers {startNs endNs : Int} {slices : List (List RoutedSegment)}
    (reduces : ∀ slice ∈ slices, ∀ group ∈ groupRuns (sliceScalars regex matchers slice), ∃ outcome,
      reduceSeries startNs endNs group = .ok outcome) :
    ∃ answers, sliceAnswers regex matchers startNs endNs slices = .ok answers := by
  apply exists_mapM
  intro slice member
  apply exists_bind (exists_mapM (reduces slice member))
  intro partials
  exact ⟨_, rfl⟩

end Counts

/-- In an admitted query, the slices of any cap partition the segments, every segment of a series is in one slice, and the
workers' counts are those of the whole snapshot. -/
theorem pushdown_slices_exact {Federation : Type} (history : Catalog.ShardHistory) (federation : Option Federation)
    (segments : List RoutedSegment)
    (routed : ∀ segment ∈ segments, ∀ seriesId, segment.Holds seriesId → RoutedWithin history.generations segment seriesId)
    (eligible : isPushdownEligible federation segments history.generations = true) (cap : Nat) :
    (partitionSnapshot segments cap).flatten.Perm segments ∧
    ((partitionSnapshot segments cap).Pairwise fun first second =>
      ∀ segment ∈ first, ∀ other ∈ second, ∀ seriesId, segment.Holds seriesId → ¬other.Holds seriesId) ∧
    ∀ regex matchers startNs endNs,
      (∀ answers, sliceAnswers regex matchers startNs endNs (partitionSnapshot segments cap) = .ok answers →
        ∃ partials, reducePartialAggregates (sliceScalars regex matchers segments) startNs endNs = .ok partials ∧
          answers.flatten.Perm partials) ∧
      ∀ partials, reducePartialAggregates (sliceScalars regex matchers segments) startNs endNs = .ok partials →
        ∃ answers, sliceAnswers regex matchers startNs endNs (partitionSnapshot segments cap) = .ok answers ∧
          answers.flatten.Perm partials := by
  have oneShard : ∀ seriesId, ∀ first ∈ segments, ∀ second ∈ segments, first.Holds seriesId → second.Holds seriesId →
      first.shard = second.shard := by
    intro seriesId first firstIn second secondIn firstHolds secondHolds
    exact shard_eq_of_eligible history eligible firstIn secondIn (routed first firstIn seriesId firstHolds)
      (routed second secondIn seriesId secondHolds)
  refine ⟨partitionSnapshot_perm segments cap, ?_, ?_⟩
  · apply List.Pairwise.imp_of_mem _ (partitionSnapshot_apart segments cap)
    intro first second firstIn secondIn apart segment inside other otherInside seriesId holds otherHolds
    have inSnapshot : ∀ slice ∈ partitionSnapshot segments cap, ∀ segment ∈ slice, segment ∈ segments := by
      intro slice member segment inside
      exact (partitionSnapshot_perm segments cap).mem_iff.mp (mem_flatten.mpr ⟨slice, member, inside⟩)
    exact apart segment inside other otherInside (oneShard seriesId segment (inSnapshot first firstIn segment inside) other
      (inSnapshot second secondIn other otherInside) holds otherHolds)
  · intro regex matchers startNs endNs
    have exact : ∀ answers, sliceAnswers regex matchers startNs endNs (partitionSnapshot segments cap) = .ok answers →
        ∃ partials, reducePartialAggregates (sliceScalars regex matchers segments) startNs endNs = .ok partials ∧
          answers.flatten.Perm partials := by
      intro answers answered
      obtain ⟨partials, reduced, flattened⟩ := sliceAnswers_eq_ok answered
      obtain ⟨others, otherReduced, same⟩ := mapM_perm (groupRuns_slices oneShard) reduced
      refine ⟨others.filterMap id, bind_eq_ok.mpr ⟨others, otherReduced, rfl⟩, ?_⟩
      rw [flattened]
      exact same.filterMap id
    refine ⟨exact, ?_⟩
    intro partials reduced
    obtain ⟨outcomes, mapped, -⟩ := ok_of_bind reduced
    obtain ⟨answers, answered⟩ : ∃ answers,
        sliceAnswers regex matchers startNs endNs (partitionSnapshot segments cap) = .ok answers := by
      apply exists_sliceAnswers
      intro slice member group grouped
      have inSnapshot := (groupRuns_slices oneShard).mem_iff.mp (mem_flatMap.mpr ⟨slice, member, grouped⟩)
      obtain ⟨outcome, -, ok⟩ := exists_of_mapM mapped inSnapshot
      exact ⟨outcome, ok⟩
    obtain ⟨others, otherReduced, same⟩ := exact answers answered
    cases reduced.symm.trans otherReduced
    exact ⟨answers, answered, same⟩

/-- A signal with two shards from the start. -/
def twoShardHistory : Catalog.ShardHistory :=
  .ofRead ⟨2, 0, []⟩ "provisioning" [⟨0, 2, 0, 0⟩] (by decide)

/-- A segment of the shard, filed at hour 5 with one run of the series whose every byte is the shard. -/
def shardSegment (shard : UInt8) : RoutedSegment :=
  ⟨shard.toUInt32, 5, ⟨0, 60, [⟨⟨Vector.replicate 16 shard⟩, LabelSet.empty, ⟨[⟨30, 0⟩], .runWide ⟨0, 0, 0⟩⟩⟩], []⟩⟩

theorem shardSegment_routed (shard : UInt8) (inShards : shard = 0 ∨ shard = 1) (seriesId : SeriesId)
    (holds : (shardSegment shard).Holds seriesId) : RoutedWithin twoShardHistory.generations (shardSegment shard) seriesId := by
  have isSeries : seriesId = ⟨Vector.replicate 16 shard⟩ := by
    simpa [RoutedSegment.Holds, shardSegment, eq_comm] using holds
  subst isSeries
  rcases inShards with rfl | rfl
  · exact ⟨5, by decide, by decide, by decide⟩
  · exact ⟨5, by decide, by decide, by decide⟩

theorem pushdown_slices_exact_two_shards :
    isPushdownEligible (none : Option Unit) [shardSegment 1, shardSegment 0] twoShardHistory.generations = true ∧
      (partitionSnapshot [shardSegment 1, shardSegment 0] 2).flatten.Perm [shardSegment 1, shardSegment 0] := by
  have eligible : isPushdownEligible (none : Option Unit) [shardSegment 1, shardSegment 0] twoShardHistory.generations = true := by
    decide
  refine ⟨eligible, (pushdown_slices_exact twoShardHistory none [shardSegment 1, shardSegment 0] ?_ eligible 2).1⟩
  intro segment member seriesId holds
  rcases mem_pair.mp member with rfl | rfl
  · exact shardSegment_routed 1 (.inr rfl) seriesId holds
  · exact shardSegment_routed 0 (.inl rfl) seriesId holds

end Ravel.Promql
