import Ravel.Proof.Maintain.SweepSurvivors

namespace Ravel.Maintain

open List Catalog Library

/-- Two filters of a list that keep the same elements are equal. -/
theorem filter_eq_of_mem_iff {Item : Type} {items : List Item} {first second : Item → Bool}
    (same : ∀ item, item ∈ items.filter first ↔ item ∈ items.filter second) :
    items.filter first = items.filter second := by
  refine filter_congr ?_
  intro item member
  have kept := same item
  rw [mem_filter, mem_filter, and_iff_right member, and_iff_right member] at kept
  exact Bool.eq_iff_iff.mpr kept

/-- Domination that resolves over some records resolves over fewer. -/
theorem erasureDominated_ok_of_fewer {compactions fewer : List CompactionRecord}
    {rewrites fewerRewrites : List RewriteRecord} (distinct : KeysNodup compactions)
    (links : FewerLinks fewer compactions fewerRewrites rewrites) (subset : ∀ record ∈ fewer, record ∈ compactions)
    (rewriteSubset : ∀ record ∈ fewerRewrites, record ∈ rewrites) {dominated : List RecordKey}
    (marked : erasureDominatedCompactionRecords compactions rewrites = .ok dominated) :
    ∃ others, erasureDominatedCompactionRecords fewer fewerRewrites = .ok others := by
  rw [erasureDominatedCompactionRecords]
  split
  · exact ⟨[], rfl⟩
  · rename_i proper
    rw [Bool.or_eq_true, not_or] at proper
    have before : ¬(rewrites.isEmpty || compactions.all fun record => record.supersededRecordKey.isNone) = true := by
      rw [Bool.or_eq_true, not_or]
      constructor
      · intro noRewrites
        refine proper.1 ?_
        rw [List.isEmpty_iff] at noRewrites ⊢
        rw [eq_nil_iff_forall_not_mem]
        intro record member
        have listed := rewriteSubset record member
        rw [noRewrites] at listed
        cases listed
      · intro noVersion2
        refine proper.2 ?_
        rw [all_eq_true] at noVersion2 ⊢
        exact fun record member => noVersion2 record (subset record member)
    rw [erasureDominatedCompactionRecords, if_neg before] at marked
    obtain ⟨_, checked, marked⟩ := ok_of_bind marked
    obtain ⟨exclusions, chased, marked⟩ := ok_of_bind marked
    obtain ⟨fresh, resolved⟩ := resolveRewrites_ok_of_fewer links rewriteSubset chased ⟨[], []⟩
    rw [checkVersion2Inputs_ok_of_subset distinct subset checked, resolved]
    exact ⟨_, rfl⟩

/-- No rewrite record and compaction record of the bucket share the part of the hash that keys carry. -/
def HashesApart (bucket : Bucket) : Prop :=
  ∀ record ∈ bucket.compactions, ∀ rewrite ∈ bucket.rewrites,
    hash16 record.inputSetHash ≠ hash16 rewrite.inputSetHash

instance (bucket : Bucket) : Decidable (HashesApart bucket) :=
  inferInstanceAs (Decidable (∀ record ∈ bucket.compactions, ∀ rewrite ∈ bucket.rewrites,
    hash16 record.inputSetHash ≠ hash16 rewrite.inputSetHash))

namespace SweepRun

variable {bucket : Bucket} {groups : List SupersededGroup} {deleted : List SweepKey} {resolved after : ResolvedBucket}

section Candidates

variable {unserved : InputIdentity → Prop}

theorem resolves_after (run : SweepRun bucket unserved groups deleted)
    (resolves : resolveBucket bucket.compactions bucket.rewrites = .ok resolved) :
    ∃ after, resolveBucket (withoutRecords bucket deleted).compactions (withoutRecords bucket deleted).rewrites =
      .ok after := by
  have links := fewerLinks_without bucket deleted
  have subset : ∀ record ∈ (withoutRecords bucket deleted).compactions, record ∈ bucket.compactions :=
    fun record member => (mem_filter.mp member).1
  have rewriteSubset : ∀ record ∈ (withoutRecords bucket deleted).rewrites, record ∈ bucket.rewrites :=
    fun record member => (mem_filter.mp member).1
  have spec := resolveBucket_resolves bucket.compactionsNodup resolves
  obtain ⟨chased, marked, selected⟩ := resolveBucket_ok resolves
  obtain ⟨exclusions, chasedAfter⟩ := resolveRewrites_ok_of_fewer links rewriteSubset chased ⟨[], []⟩
  obtain ⟨dominated, markedAfter⟩ :=
    erasureDominated_ok_of_fewer bucket.compactionsNodup links subset rewriteSubset marked
  have fewer : ∀ record ∈ undominated (withoutRecords bucket deleted).compactions dominated,
      record ∈ undominated bucket.compactions resolved.dominated := by
    intro record member
    obtain ⟨listed, outside⟩ := mem_filter.mp member
    refine (spec.mem_undominated_iff bucket.compactionsNodup).mpr ⟨subset record listed, ?_⟩
    intro dominates
    have remains : ¬Removed deleted record.key := of_decide_eq_true (mem_filter.mp listed).2
    exact of_decide_eq_true outside ((mem_erasureDominated_iff markedAfter _).mpr
      ⟨record, run.dominates_remains dominates remains, rfl⟩)
  obtain ⟨selection, selectedAfter⟩ :=
    select_ok_of_subset (keysNodup_undominated bucket.compactionsNodup _) fewer selected
  refine ⟨⟨exclusions, dominated, selection⟩, ?_⟩
  rw [resolveBucket, chasedAfter, markedAfter]
  simp only [bind, Except.bind, selectedAfter]
  rfl

/-- A deleted record that is not dominated belongs to the group of a version 2 chain, or is reached and names nothing. -/
theorem removed_candidate (run : SweepRun bucket unserved groups deleted) {record : CompactionRecord}
    (member : record ∈ bucket.compactions) (free : ¬bucket.Dominates record) (removed : Removed deleted record.key) :
    (∃ group ∈ groups, HeadGroup bucket group ∧ ∃ before later, group.chainRecordKeys = before ++ record.key :: later ∧
      ∀ other ∈ before, Removed deleted other) ∨
    bucket.Reached record.key ∧ record.supersededRecordKey = none := by
  rcases run.removed_cases removed with head | ⟨group, _, top, removal⟩
  · exact .inl head
  · rcases removal.spec.cases _ removal.mem with ⟨other, leads, same, _⟩ | ⟨onChain, _⟩ | ⟨_, _, same, _⟩
    · rw [inj_on_of_nodup_map bucket.compactionsNodup leads.mem member same] at leads
      exact absurd (JoinedTo.dominates removal.spec.member leads) free
    · have reached : bucket.Reached record.key := ⟨top, removal.spec.member, onChain⟩
      refine .inr ⟨reached, ?_⟩
      cases names : record.supersededRecordKey with
      | none => rfl
      | some named =>
        have next := ReachedByRewrite.next reached (recordAt_compaction member) names
        exact absurd (.reached member names next) free
    · cases same

variable (run : SweepRun bucket unserved groups deleted)
  (spec : Resolves bucket.compactions bucket.rewrites resolved)
  (specAfter : Resolves (withoutRecords bucket deleted).compactions (withoutRecords bucket deleted).rewrites after)

include run spec specAfter

/-- The candidates for authority after the deletes are those that remain. -/
theorem mem_undominated_after {record : CompactionRecord} :
    record ∈ undominated (withoutRecords bucket deleted).compactions after.dominated ↔
      record ∈ undominated bucket.compactions resolved.dominated ∧ ¬Removed deleted record.key := by
  rw [specAfter.mem_undominated_iff (withoutRecords bucket deleted).compactionsNodup,
    spec.mem_undominated_iff bucket.compactionsNodup]
  constructor
  · intro ⟨listed, free⟩
    obtain ⟨member, kept⟩ := mem_filter.mp listed
    have remains : ¬Removed deleted record.key := of_decide_eq_true kept
    exact ⟨⟨member, fun dominates => free (run.dominates_remains dominates remains)⟩, remains⟩
  · intro ⟨⟨member, free⟩, remains⟩
    exact ⟨mem_after member remains, fun dominates => free (dominates_before dominates)⟩

/-- The live records after the deletes are those that remain: the record that a deleted one names goes before it. -/
theorem isLive_after {record : CompactionRecord} :
    IsLive (undominated (withoutRecords bucket deleted).compactions after.dominated) record ↔
      IsLive (undominated bucket.compactions resolved.dominated) record ∧ ¬Removed deleted record.key := by
  rw [IsLive, IsLive, run.mem_undominated_after spec specAfter]
  constructor
  · rintro ⟨⟨member, remains⟩, unnamed⟩
    refine ⟨⟨member, ?_⟩, remains⟩
    rintro ⟨successor, successorMember, predecessor, predecessorMember, names, same⟩
    have isRecord : predecessor = record :=
      inj_on_of_nodup_map (keysNodup_undominated bucket.compactionsNodup _) predecessorMember member same
    subst isRecord
    have listed := (spec.mem_undominated_iff bucket.compactionsNodup).mp successorMember
    by_cases removed : Removed deleted successor.key
    · rcases run.removed_candidate listed.1 listed.2 removed with ⟨group, _, head, before, later, split, gone⟩ | ⟨_, ends⟩
      · have inside := ((spec.mem_undominated_iff bucket.compactionsNodup).mp member).1
        exact remains (gone _ (head.below before _ later split successor listed.1 rfl predecessor inside names))
      · rw [ends] at names
        cases names
    · exact unnamed ⟨successor, (run.mem_undominated_after spec specAfter).mpr ⟨successorMember, removed⟩, predecessor,
        (run.mem_undominated_after spec specAfter).mpr ⟨member, remains⟩, names, rfl⟩
  · rintro ⟨⟨member, unnamed⟩, remains⟩
    refine ⟨⟨member, remains⟩, ?_⟩
    rintro ⟨successor, successorMember, predecessor, predecessorMember, names, same⟩
    exact unnamed ⟨successor, ((run.mem_undominated_after spec specAfter).mp successorMember).1, predecessor,
      ((run.mem_undominated_after spec specAfter).mp predecessorMember).1, names, same⟩

omit specAfter

theorem reached_of_removed_live {record : CompactionRecord}
    (live : IsLive (undominated bucket.compactions resolved.dominated) record)
    (removed : Removed deleted record.key) : bucket.Reached record.key := by
  obtain ⟨candidate, unnamed⟩ := live
  obtain ⟨member, free⟩ := (spec.mem_undominated_iff bucket.compactionsNodup).mp candidate
  rcases run.removed_candidate member free removed with ⟨group, _, head, before, later, split, _⟩ | ⟨reached, _⟩
  · have inside : record.key ∈ group.chainRecordKeys := by
      rw [split]
      exact mem_append_right _ mem_cons_self
    obtain ⟨_, _, _, _, _, successor, successorMember, successorFree, names⟩ := head.records _ inside
    exact absurd ⟨successor, (spec.mem_undominated_iff bucket.compactionsNodup).mpr ⟨successorMember, successorFree⟩,
      record, candidate, names, rfl⟩ unnamed
  · exact reached

/-- A reached candidate overlaps no other candidate: both would end the chain of one rewrite. -/
theorem eq_of_overlaps_reached (bound : bucket.ChainBound) {record other : CompactionRecord}
    (candidate : record ∈ undominated bucket.compactions resolved.dominated)
    (otherCandidate : other ∈ undominated bucket.compactions resolved.dominated)
    (reached : bucket.Reached record.key) (overlap : Overlaps record other) : record = other := by
  obtain ⟨member, free⟩ := (spec.mem_undominated_iff bucket.compactionsNodup).mp candidate
  obtain ⟨otherMember, otherFree⟩ := (spec.mem_undominated_iff bucket.compactionsNodup).mp otherCandidate
  obtain ⟨rewrite, rewriteMember, reaches⟩ := reached
  obtain ⟨identity, named, otherNamed⟩ := overlap
  have effective : EffectiveInput bucket.compactions bucket.rewrites (.rewrite rewrite) identity :=
    .inr ⟨record.key, .compaction record, reaches, recordAt_compaction member, named⟩
  rcases bound other otherMember rewrite rewriteMember identity otherNamed effective with otherReaches | leads
  · obtain ⟨start, names, -⟩ := reaches.cases_named
    obtain ⟨keys, line⟩ := run.lines rewrite rewriteMember start names
    -- A candidate on the line names nothing, so it is the oldest record of the line.
    have oldest : ∀ candidate ∈ bucket.compactions, ¬bucket.Dominates candidate →
        OnChain bucket rewrite candidate.key → keys.getLast? = some candidate.key := by
      intro candidate inside undominated onChain
      have here := recordAt_compaction inside
      have ends : candidate.supersededRecordKey = none := by
        cases next : candidate.supersededRecordKey with
        | none => rfl
        | some lower =>
          exact absurd (.reached inside next ⟨rewrite, rewriteMember, onChain.trans here (.named next)⟩) undominated
      obtain ⟨above, below, split, inner⟩ := line.split (line.mem_of_reaches names onChain here)
      have tail := inner.unique (.last here ends)
      rw [split, tail, getLast?_append_of_ne_nil _ (cons_ne_nil _ _), getLast?_singleton]
    have same := (oldest record member free reaches).symm.trans (oldest other otherMember otherFree otherReaches)
    exact inj_on_of_nodup_map bucket.compactionsNodup member otherMember (Option.some.inj same)
  · exact absurd (leads.mono fun _ reaches => ⟨rewrite, rewriteMember, reaches⟩) otherFree

variable (bound : bucket.ChainBound)

include specAfter bound

theorem connected_after {left right : CompactionRecord}
    (connected : Connected (IsLive (undominated bucket.compactions resolved.dominated)) left right) :
    left = right ∨ Connected
      (IsLive (undominated (withoutRecords bucket deleted).compactions after.dominated)) left right := by
  induction connected with
  | rel left right related =>
    obtain ⟨leftLive, rightLive, overlap⟩ := related
    by_cases leftRemoved : Removed deleted left.key
    · exact .inl (run.eq_of_overlaps_reached spec bound leftLive.1 rightLive.1
        (run.reached_of_removed_live spec leftLive leftRemoved) overlap)
    · by_cases rightRemoved : Removed deleted right.key
      · obtain ⟨identity, inLeft, inRight⟩ := overlap
        exact .inl (run.eq_of_overlaps_reached spec bound rightLive.1 leftLive.1
          (run.reached_of_removed_live spec rightLive rightRemoved) ⟨identity, inRight, inLeft⟩).symm
      · exact .inr (.rel _ _ ⟨(run.isLive_after spec specAfter).mpr ⟨leftLive, leftRemoved⟩,
          (run.isLive_after spec specAfter).mpr ⟨rightLive, rightRemoved⟩, overlap⟩)
  | refl record => exact .inl rfl
  | symm left right _ ih =>
    rcases ih with rfl | connected
    · exact .inl rfl
    · exact .inr connected.symm
  | trans left middle right _ _ first second =>
    rcases first with rfl | connected
    · exact second
    · rcases second with rfl | further
      · exact .inr connected
      · exact .inr (connected.trans _ _ _ further)

theorem authoritative_after {record : CompactionRecord} :
    Authoritative (undominated (withoutRecords bucket deleted).compactions after.dominated) record ↔
      Authoritative (undominated bucket.compactions resolved.dominated) record ∧ ¬Removed deleted record.key := by
  have live : ∀ {other : CompactionRecord},
      IsLive (undominated (withoutRecords bucket deleted).compactions after.dominated) other ↔
        IsLive (undominated bucket.compactions resolved.dominated) other ∧ ¬Removed deleted other.key :=
    run.isLive_after spec specAfter
  constructor
  · intro ⟨liveAfter, wins⟩
    obtain ⟨liveBefore, remains⟩ := live.mp liveAfter
    refine ⟨⟨liveBefore, ?_⟩, remains⟩
    intro ⟨_, winner, winnerLive, connected, below⟩
    rcases run.connected_after spec specAfter bound connected with rfl | connectedAfter
    · exact lt_irrefl _ below
    · have winnerAfter := (Connected.candidate_iff connectedAfter).mpr liveAfter
      exact wins ⟨liveAfter, winner, winnerAfter, connectedAfter, below⟩
  · intro ⟨⟨liveBefore, wins⟩, remains⟩
    refine ⟨live.mpr ⟨liveBefore, remains⟩, ?_⟩
    intro ⟨_, winner, winnerLive, connected, below⟩
    refine wins ⟨liveBefore, winner, (live.mp winnerLive).1, ?_, below⟩
    exact connected.mono fun _ _ ⟨first, second, overlap⟩ => ⟨(live.mp first).1, (live.mp second).1, overlap⟩

theorem mem_servedCompactions_after {record : CompactionRecord} :
    record ∈ after.servedCompactions (withoutRecords bucket deleted).compactions ↔
      record ∈ resolved.servedCompactions bucket.compactions := by
  rw [specAfter.mem_servedCompactions_iff (withoutRecords bucket deleted).compactionsNodup,
    spec.mem_servedCompactions_iff bucket.compactionsNodup, run.authoritative_after spec specAfter bound]
  constructor
  · intro ⟨⟨authority, remains⟩, unreached⟩
    refine ⟨authority, ?_⟩
    intro reached
    obtain ⟨member, free⟩ := (spec.mem_undominated_iff bucket.compactionsNodup).mp authority.1.1
    exact unreached (run.reached_remains member reached free remains)
  · intro ⟨authority, unreached⟩
    exact ⟨⟨authority, fun removed => unreached (run.reached_of_removed_live spec authority.1 removed)⟩,
      fun reached => unreached (reached_before reached)⟩

omit bound

theorem mem_servedRewrites_after {record : RewriteRecord} :
    record ∈ after.servedRewrites (withoutRecords bucket deleted).rewrites ↔
      record ∈ resolved.servedRewrites bucket.rewrites := by
  rw [specAfter.mem_servedRewrites_iff, spec.mem_servedRewrites_iff]
  constructor
  · intro ⟨listed, unreached⟩
    obtain ⟨member, kept⟩ := mem_filter.mp listed
    exact ⟨member, fun reached => unreached (run.rewrite_remains member reached (of_decide_eq_true kept))⟩
  · intro ⟨member, unreached⟩
    exact ⟨run.top_remains member unreached, fun reached => unreached (reached_before reached)⟩

end Candidates

section Served

variable (run : SweepRun bucket (· ∈ resolved.excludedInputs bucket.compactions) groups deleted)
  (spec : Resolves bucket.compactions bucket.rewrites resolved)
  (specAfter : Resolves (withoutRecords bucket deleted).compactions (withoutRecords bucket deleted).rewrites after)
  (bound : bucket.ChainBound)

include run

/-- A deleted commit is not served raw. -/
theorem excluded_of_removed {identity : InputIdentity} (removed : SweepKey.commit identity ∈ deleted) :
    identity ∈ resolved.excludedInputs bucket.compactions := by
  obtain ⟨group, member, earlier, later, order, -⟩ := run.justified.exists_group removed
  have inside : SweepKey.commit identity ∈ group.keys := by
    rw [order]
    exact mem_append_right _ mem_cons_self
  refine (run.groupsOk group member).spares.commits identity ?_
  simpa [SupersededGroup.keys, SupersededGroup.loopKeys] using inside

include spec specAfter bound

/-- A commit that is excluded stays so while it is listed. -/
theorem excludedInputs_after {commit : CommitRecord} (listed : commit ∈ bucket.commits)
    (remains : SweepKey.commit commit.identity ∉ deleted) :
    commit.identity ∈ after.excludedInputs (withoutRecords bucket deleted).compactions ↔
      commit.identity ∈ resolved.excludedInputs bucket.compactions := by
  rw [specAfter.mem_excludedInputs_iff (withoutRecords bucket deleted).compactionsNodup,
    spec.mem_excludedInputs_iff bucket.compactionsNodup]
  constructor
  · intro excluded
    rcases excluded with ⟨rewrite, member, effective⟩ | ⟨record, authority, named⟩
    · refine .inl ⟨rewrite, (mem_filter.mp member).1, ?_⟩
      rcases effective with own | ⟨key, next, reaches, present, named⟩
      · exact .inl own
      · exact .inr ⟨key, next, reaches_before reaches, fewerLinks_without bucket deleted _ _ present, named⟩
    · exact .inr ⟨record, ((run.authoritative_after spec specAfter bound).mp authority).1, named⟩
  · intro excluded
    rcases excluded with erased | ⟨record, authority, named⟩
    · exact .inl (run.erased_remains listed erased remains)
    · by_cases removed : Removed deleted record.key
      · have reached := run.reached_of_removed_live spec authority.1 removed
        have member := ((spec.mem_undominated_iff bucket.compactionsNodup).mp authority.1.1).1
        exact .inl (run.erased_remains listed
          (erasedInput_of_reached bucket.compactionsNodup member reached named) remains)
      · exact .inr ⟨record, (run.authoritative_after spec specAfter bound).mpr ⟨authority, removed⟩, named⟩

/-- The same segments are offered. -/
theorem segments_after : after.segments (withoutRecords bucket deleted) = resolved.segments bucket := by
  have compactions : after.servedCompactions (withoutRecords bucket deleted).compactions =
      resolved.servedCompactions bucket.compactions := by
    have same : ∀ record, record ∈ after.servedCompactions (withoutRecords bucket deleted).compactions ↔
        record ∈ resolved.servedCompactions bucket.compactions :=
      fun _ => run.mem_servedCompactions_after spec specAfter bound
    rw [ResolvedBucket.servedCompactions, ResolvedBucket.servedCompactions, withoutRecords, filter_filter] at same ⊢
    exact filter_eq_of_mem_iff same
  have rewrites : after.servedRewrites (withoutRecords bucket deleted).rewrites =
      resolved.servedRewrites bucket.rewrites := by
    have same : ∀ record, record ∈ after.servedRewrites (withoutRecords bucket deleted).rewrites ↔
        record ∈ resolved.servedRewrites bucket.rewrites :=
      fun _ => run.mem_servedRewrites_after spec specAfter
    rw [ResolvedBucket.servedRewrites, ResolvedBucket.servedRewrites, withoutRecords, filter_filter] at same ⊢
    exact filter_eq_of_mem_iff same
  have commits : after.servedCommits (withoutRecords bucket deleted) = resolved.servedCommits bucket := by
    rw [ResolvedBucket.servedCommits, ResolvedBucket.servedCommits]
    refine (filter_filter ..).trans (filter_congr ?_)
    intro commit listed
    rw [← Bool.decide_and, decide_eq_decide]
    constructor
    · rintro ⟨outside, remains⟩ excluded
      exact outside ((run.excludedInputs_after spec specAfter bound listed remains).mpr excluded)
    · intro outside
      have remains : SweepKey.commit commit.identity ∉ deleted := fun removed => outside (run.excluded_of_removed removed)
      exact ⟨fun excluded => outside ((run.excludedInputs_after spec specAfter bound listed remains).mp excluded), remains⟩
  rw [ResolvedBucket.segments, ResolvedBucket.segments, compactions, rewrites, commits]

omit specAfter bound

theorem data_remains (hashes : HashesApart bucket) {segment : SegmentRef} (served : segment ∈ resolved.segments bucket) :
    SweepKey.data segment.dataObjectKey ∉ deleted := by
  intro removed
  obtain ⟨group, member, earlier, later, order, -⟩ := run.justified.exists_group removed
  have inside : SweepKey.data segment.dataObjectKey ∈ group.keys := by
    rw [order]
    exact mem_append_right _ mem_cons_self
  have isData : segment.dataObjectKey ∈ group.dataKeys := by
    simpa [SupersededGroup.keys, SupersededGroup.loopKeys] using inside
  rcases (run.groupsOk group member).spares.data _ isData with ⟨other, listed, excluded, same⟩ |
    ⟨name, link, present, retired, isPart⟩
  · rcases mem_segments_iff.mp served with ⟨_, _, _, _, rfl⟩ | ⟨_, _, _, _, rfl⟩ | ⟨commit, isServed, rfl⟩
    · cases same
    · cases same
    · rw [(DataObjectKey.l0.inj same).1.symm] at excluded
      exact of_decide_eq_true (mem_filter.mp isServed).2 excluded
  · rcases linkAt_some present with ⟨record, inBucket, -, rfl⟩ | ⟨record, inBucket, -, rfl⟩
    · obtain ⟨part, -, samePart⟩ := mem_map.mp isPart
      rcases mem_segments_iff.mp served with ⟨other, isServed, _, _, rfl⟩ | ⟨other, isServed, _, _, rfl⟩ | ⟨_, _, rfl⟩
      · have equal := servedCompactions_eq_of_hash resolved bucket inBucket isServed (DataObjectKey.l1.inj samePart).1.symm
        subst equal
        obtain ⟨authority, unreached⟩ := (spec.mem_servedCompactions_iff bucket.compactionsNodup).mp isServed
        have free := ((spec.mem_undominated_iff bucket.compactionsNodup).mp authority.1.1).2
        rcases retired with reached | dominates | ⟨successor, successorMember, successorFree, names⟩
        · exact unreached reached
        · exact free dominates
        · exact authority.1.2 ⟨successor,
            (spec.mem_undominated_iff bucket.compactionsNodup).mpr ⟨successorMember, successorFree⟩, other,
            authority.1.1, names, rfl⟩
      · exact hashes record inBucket other (spec.mem_servedRewrites_iff.mp isServed).1 (DataObjectKey.l1.inj samePart).1
      · cases samePart
    · obtain ⟨part, -, samePart⟩ := mem_map.mp isPart
      rcases mem_segments_iff.mp served with ⟨other, isServed, _, _, rfl⟩ | ⟨other, isServed, _, _, rfl⟩ | ⟨_, _, rfl⟩
      · exact hashes other (mem_filter.mp isServed).1 record inBucket (DataObjectKey.l1.inj samePart).1.symm
      · obtain ⟨otherMember, unreached⟩ := spec.mem_servedRewrites_iff.mp isServed
        have equal := inj_on_of_nodup_map bucket.rewritesNodup otherMember inBucket
          (congrArg RecordKey.rewrite (DataObjectKey.l1.inj samePart).1.symm)
        subst equal
        exact unreached retired
      · cases samePart

end Served

end SweepRun

/-- Every entry of the served map is an offered segment under its key. -/
theorem mem_foldl_include {range : TimeRange} {segments : List SegmentRef} {out : SegmentMap}
    {entry : DataObjectKey × SegmentRef} (member : entry ∈ segments.foldl (SegmentMap.include range) out) :
    entry ∈ out ∨ ∃ segment ∈ segments, entry = (segment.dataObjectKey, segment) := by
  induction segments generalizing out with
  | nil => exact .inl member
  | cons segment rest ih =>
    rw [foldl_cons] at member
    rcases ih member with inside | ⟨other, later, same⟩
    · rw [SegmentMap.include] at inside
      split_ifs at inside
      · exact .inl inside
      · rcases mem_append.mp inside with before | own
        · exact .inl before
        · exact .inr ⟨segment, mem_cons_self, mem_singleton.mp own⟩
      · exact .inl inside
    · exact .inr ⟨other, mem_cons_of_mem _ later, same⟩

theorem SweepRun.invisible {bucket : Bucket} {groups : List SupersededGroup} {deleted : List SweepKey}
    {resolved : ResolvedBucket} (run : SweepRun bucket (· ∈ resolved.excludedInputs bucket.compactions) groups deleted)
    (resolves : resolveBucket bucket.compactions bucket.rewrites = .ok resolved)
    (tombstoneFree : bucket.hasTombstone = false) (bound : bucket.ChainBound) (hashes : HashesApart bucket)
    (range : TimeRange) :
    ∃ out, processBucket bucket range = .ok out ∧ processBucket (withoutRecords bucket deleted) range = .ok out ∧
      ∀ entry ∈ out, entry.1 = entry.2.dataObjectKey ∧ SweepKey.data entry.1 ∉ deleted := by
  have spec := resolveBucket_resolves bucket.compactionsNodup resolves
  obtain ⟨after, resolvesAfter⟩ := run.resolves_after resolves
  have specAfter := resolveBucket_resolves (withoutRecords bucket deleted).compactionsNodup resolvesAfter
  refine ⟨_, processBucket_eq tombstoneFree resolves range, ?_, ?_⟩
  · have still : (withoutRecords bucket deleted).hasTombstone = false := tombstoneFree
    rw [processBucket_eq still resolvesAfter range, run.segments_after spec specAfter bound]
  · intro entry member
    rcases mem_foldl_include member with absent | ⟨segment, offered, rfl⟩
    · cases absent
    · exact ⟨rfl, run.data_remains spec hashes offered⟩

end Ravel.Maintain
