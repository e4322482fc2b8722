import Ravel.Proof.Maintain.SweepGroups

namespace Ravel.Maintain

open List Catalog

theorem keys_split_record {group : SupersededGroup} {earlier later : List SweepKey} {key : RecordKey}
    (order : group.keys = earlier ++ .record key :: later) :
    (∀ identity ∈ group.recordKeys, SweepKey.commit identity ∈ earlier) ∧
      ∃ before after, group.chainRecordKeys = before ++ key :: after ∧
        ∀ other ∈ before, SweepKey.record other ∈ earlier := by
  rw [SupersededGroup.keys] at order
  rcases append_eq_append_iff.mp order with ⟨between, rfl, rest⟩ | ⟨between, front, rest⟩
  · obtain ⟨before, tail, split, same, mapped⟩ := map_eq_append_iff.mp rest
    obtain ⟨other, after, rfl, sameKey, -⟩ := map_eq_cons_iff.mp mapped
    cases sameKey
    refine ⟨?_, before, after, split, ?_⟩
    · intro identity member
      exact mem_append_left _ (mem_append_left _ (mem_map_of_mem member))
    · intro other member
      rw [← same]
      exact mem_append_right _ (mem_map_of_mem member)
  · -- The key cannot stand among the commits or the data objects.
    cases between with
    | nil =>
      rw [append_nil] at front
      rw [nil_append] at rest
      obtain ⟨other, after, split, sameKey, -⟩ := map_eq_cons_iff.mp rest.symm
      cases sameKey
      refine ⟨?_, [], after, split, by simp⟩
      intro identity member
      rw [← front]
      exact mem_append_left _ (mem_map_of_mem member)
    | cons first more =>
      rw [cons_append, cons.injEq] at rest
      have member : SweepKey.record key ∈ group.loopKeys .inputRecords ++ group.loopKeys .data := by
        rw [front, rest.1]
        exact mem_append_right _ mem_cons_self
      rcases mem_append.mp member with inside | inside
      · obtain ⟨_, _, same⟩ := mem_map.mp inside
        cases same
      · obtain ⟨_, _, same⟩ := mem_map.mp inside
        cases same

/-- The deletes of a pass so far, over gathered groups. -/
structure SweepRun (bucket : Bucket) (unserved : InputIdentity → Prop) (groups : List SupersededGroup)
    (deleted : List SweepKey) : Prop where
  groupsOk : ∀ group ∈ groups, GroupOk bucket unserved group
  distinct : ∀ left ∈ groups, ∀ right ∈ groups, left.identity = right.identity → left = right
  justified : Justified groups deleted
  apart : EndsApart bucket
  consistent : bucket.rewrites ≠ [] → ConsistentInputs bucket.compactions
  lines : ∀ rewrite ∈ bucket.rewrites, ∀ start, rewrite.supersededRecordKey = some start →
    ∃ keys, Line bucket.compactions bucket.rewrites start keys

/-- The record at the key is deleted. -/
abbrev Removed (deleted : List SweepKey) (key : RecordKey) : Prop :=
  SweepKey.record key ∈ deleted

section After

variable {bucket : Bucket} {deleted : List SweepKey}

/-- The records that remain are found as before. -/
theorem recordAt_without (bucket : Bucket) (deleted : List SweepKey) (key : RecordKey) :
    recordAt (withoutRecords bucket deleted) key = if Removed deleted key then none else recordAt bucket key := by
  have found : ∀ link, recordAt (withoutRecords bucket deleted) key = some link →
      ¬Removed deleted key ∧ recordAt bucket key = some link := by
    intro link present
    rcases linkAt_some present with ⟨record, member, rfl, rfl⟩ | ⟨record, member, rfl, rfl⟩
    · obtain ⟨inside, kept⟩ := mem_filter.mp member
      exact ⟨of_decide_eq_true kept, recordAt_compaction inside⟩
    · obtain ⟨inside, kept⟩ := mem_filter.mp member
      exact ⟨of_decide_eq_true kept, recordAt_rewrite inside⟩
  by_cases removed : Removed deleted key
  · rw [if_pos removed]
    cases present : recordAt (withoutRecords bucket deleted) key with
    | none => rfl
    | some link => exact absurd removed (found link present).1
  · rw [if_neg removed]
    cases before : recordAt bucket key with
    | none =>
      cases present : recordAt (withoutRecords bucket deleted) key with
      | none => rfl
      | some link =>
        have there := (found link present).2
        rw [before] at there
        cases there
    | some link =>
      rcases linkAt_some before with ⟨record, member, rfl, rfl⟩ | ⟨record, member, rfl, rfl⟩
      · exact linkAt_compaction (withoutRecords bucket deleted).compactionsNodup
          (mem_filter.mpr ⟨member, decide_eq_true removed⟩)
      · exact linkAt_rewrite _ (withoutRecords bucket deleted).rewritesNodup
          (mem_filter.mpr ⟨member, decide_eq_true removed⟩)

theorem fewerLinks_without (bucket : Bucket) (deleted : List SweepKey) :
    FewerLinks (withoutRecords bucket deleted).compactions bucket.compactions
      (withoutRecords bucket deleted).rewrites bucket.rewrites := by
  intro key next present
  have shape := recordAt_without bucket deleted key
  rw [show recordAt (withoutRecords bucket deleted) key = some next from present] at shape
  by_cases removed : Removed deleted key
  · rw [if_pos removed] at shape
    cases shape
  · rw [if_neg removed] at shape
    exact shape.symm

theorem reaches_before {link : ChainLink} {key : RecordKey}
    (reaches : Reaches (withoutRecords bucket deleted).compactions (withoutRecords bucket deleted).rewrites link key) :
    Reaches bucket.compactions bucket.rewrites link key := by
  induction reaches with
  | named names => exact .named names
  | through names present _ ih => exact .through names (fewerLinks_without bucket deleted _ _ present) ih

/-- A key stays reached while the records above it remain. -/
theorem reaches_after {link : ChainLink} {key : RecordKey} (reaches : Reaches bucket.compactions bucket.rewrites link key)
    (intact : ∀ above found, Reaches bucket.compactions bucket.rewrites link above →
      recordAt bucket above = some found → Reaches bucket.compactions bucket.rewrites found key →
      ¬Removed deleted above) :
    Reaches (withoutRecords bucket deleted).compactions (withoutRecords bucket deleted).rewrites link key := by
  induction reaches with
  | named names => exact .named names
  | @through link next middle key names present further ih =>
    have remains := intact middle next (.named names) present further
    have there : recordAt (withoutRecords bucket deleted) middle = some next := by
      rw [recordAt_without, if_neg remains]
      exact present
    refine .through names there (ih ?_)
    intro above found inner foundPresent below
    exact intact above found (.through names present inner) foundPresent below

theorem exists_removed_above {link : ChainLink} {key : RecordKey}
    (reaches : Reaches bucket.compactions bucket.rewrites link key)
    (lost : ¬Reaches (withoutRecords bucket deleted).compactions (withoutRecords bucket deleted).rewrites link key) :
    ∃ above found, Reaches bucket.compactions bucket.rewrites link above ∧ recordAt bucket above = some found ∧
      Reaches bucket.compactions bucket.rewrites found key ∧ Removed deleted above := by
  by_contra none
  refine lost (reaches_after reaches ?_)
  intro above found inner present below removed
  exact none ⟨above, found, inner, present, below, removed⟩

end After

/-- A deleted record of a rewrite's group: what is deleted before it. -/
structure RemovedFrom (bucket : Bucket) (top : RewriteRecord) (group : SupersededGroup) (deleted : List SweepKey)
    (key : RecordKey) : Prop where
  spec : RewriteGroup bucket top group
  order : ∃ before after, group.chainRecordKeys = before ++ key :: after ∧ ∀ other ∈ before, Removed deleted other
  commits : ∀ identity ∈ group.recordKeys, SweepKey.commit identity ∈ deleted

namespace RemovedFrom

variable {bucket : Bucket} {top : RewriteRecord} {group : SupersededGroup} {deleted : List SweepKey} {key : RecordKey}

section

variable (removal : RemovedFrom bucket top group deleted key)

include removal

theorem mem : key ∈ group.chainRecordKeys := by
  obtain ⟨before, after, split, -⟩ := removal.order
  rw [split]
  exact mem_append_right _ mem_cons_self

theorem removed_of_names (joined : JoinedTo bucket top key) {record : CompactionRecord}
    (member : record ∈ bucket.compactions) (names : record.supersededRecordKey = some key) :
    Removed deleted record.key := by
  obtain ⟨before, after, split, gone⟩ := removal.order
  exact gone _ (removal.spec.joinedBefore before key after split joined record member names)

theorem removed_of_joined (notJoined : ¬JoinedTo bucket top key) {joined : RecordKey}
    (isJoined : JoinedTo bucket top joined) : Removed deleted joined := by
  obtain ⟨before, after, split, gone⟩ := removal.order
  exact gone _ (removal.spec.joinedFirst before key after split notJoined joined isJoined)

theorem removed_of_below (notJoined : ¬JoinedTo bucket top key) {link : ChainLink}
    (present : recordAt bucket key = some link) {lower : RecordKey}
    (reaches : Reaches bucket.compactions bucket.rewrites link lower) {found : ChainLink}
    (lowerPresent : recordAt bucket lower = some found) : Removed deleted lower := by
  obtain ⟨before, after, split, gone⟩ := removal.order
  exact gone _ (removal.spec.below before key after split notJoined link lower present reaches
    (Option.isSome_iff_exists.mpr ⟨found, lowerPresent⟩))

end

end RemovedFrom

namespace SweepRun

variable {bucket : Bucket} {unserved : InputIdentity → Prop} {groups : List SupersededGroup} {deleted : List SweepKey}

/-- A deleted record belongs to the group of a version 2 chain or to that of a rewrite. -/
theorem removed_cases (run : SweepRun bucket unserved groups deleted) {key : RecordKey} (removed : Removed deleted key) :
    (∃ group ∈ groups, HeadGroup bucket group ∧ ∃ before after, group.chainRecordKeys = before ++ key :: after ∧
      ∀ other ∈ before, Removed deleted other) ∨
    ∃ group ∈ groups, ∃ top, RemovedFrom bucket top group deleted key := by
  obtain ⟨group, member, earlier, later, order, gone⟩ := run.justified.exists_group removed
  obtain ⟨commits, before, after, split, records⟩ := keys_split_record order
  rcases (run.groupsOk group member).kind with input | head | ⟨top, spec⟩
  · rw [input.noRecords] at split
    simp at split
  · exact .inl ⟨group, member, head, before, after, split, fun other inside => gone _ (records other inside)⟩
  · exact .inr ⟨group, member, top, spec, ⟨before, after, split, fun other inside => gone _ (records other inside)⟩,
      fun identity inside => gone _ (commits identity inside)⟩

theorem removed_from (run : SweepRun bucket unserved groups deleted) {key : RecordKey} (removed : Removed deleted key)
    (touched : bucket.Reached key ∨ ∃ record, bucket.Dominates record ∧ record.key = key) :
    ∃ group ∈ groups, ∃ top, RemovedFrom bucket top group deleted key := by
  rcases run.removed_cases removed with ⟨group, _, head, before, after, split, _⟩ | found
  · have inside : key ∈ group.chainRecordKeys := by
      rw [split]
      exact mem_append_right _ mem_cons_self
    obtain ⟨record, member, rfl, unreached, undominated, -⟩ := head.records key inside
    rcases touched with reached | ⟨other, dominates, same⟩
    · exact absurd reached unreached
    · rw [inj_on_of_nodup_map bucket.compactionsNodup dominates.mem member same] at dominates
      exact absurd dominates undominated
  · exact found

variable {inputSetHash16 : Nat} {link : ChainLink} {record : CompactionRecord} {commit : CommitRecord}

section

variable (run : SweepRun bucket unserved groups deleted)

include run

theorem reached_of_removed_rewrite (removed : Removed deleted (.rewrite inputSetHash16)) : bucket.Reached (.rewrite inputSetHash16) := by
  rcases run.removed_cases removed with ⟨group, _, head, before, after, split, _⟩ | ⟨group, _, top, removal⟩
  · have inside : RecordKey.rewrite inputSetHash16 ∈ group.chainRecordKeys := by
      rw [split]
      exact mem_append_right _ mem_cons_self
    obtain ⟨record, _, same, _⟩ := head.records _ inside
    cases same
  · rcases removal.spec.cases _ removal.mem with ⟨record, _, same, _⟩ | ⟨onChain, _⟩ | ⟨_, _, _, reached, _⟩
    · cases same
    · exact ⟨top, removal.spec.member, onChain⟩
    · exact reached

theorem top_remains {top : RewriteRecord} (member : top ∈ bucket.rewrites) (free : ¬bucket.Reached top.key) : top ∈ (withoutRecords bucket deleted).rewrites := by
  refine mem_filter.mpr ⟨member, decide_eq_true ?_⟩
  intro removed
  exact free (run.reached_of_removed_rewrite removed)

theorem line_of_reached {key : RecordKey} (reached : bucket.Reached key) (present : recordAt bucket key = some link) :
    ∃ keys, Line bucket.compactions bucket.rewrites key keys := by
  obtain ⟨rewrite, member, reaches⟩ := reached
  obtain ⟨start, names, -⟩ := reaches.cases_named
  obtain ⟨keys, line⟩ := run.lines rewrite member start names
  obtain ⟨_, below, _, inner⟩ := line.split (line.mem_of_reaches names reaches present)
  exact ⟨_, inner⟩

theorem removed_reached {key : RecordKey} (removed : Removed deleted key) (reached : bucket.Reached key)
    (present : recordAt bucket key = some link) :
    ∃ group ∈ groups, ∃ top oldest, RemovedFrom bucket top group deleted key ∧ group.identity = .record oldest ∧
      OldestOf bucket.compactions bucket.rewrites key oldest := by
  obtain ⟨group, member, top, removal⟩ := run.removed_from removed (.inl reached)
  obtain ⟨keys, line⟩ := run.line_of_reached reached present
  obtain ⟨oldest, identity, older⟩ := removal.spec.oldest_of_reached run.apart line removal.mem reached
  exact ⟨group, member, top, oldest, removal, identity, older⟩

theorem exists_top {key : RecordKey} (reached : bucket.Reached key) :
    ∃ top ∈ bucket.rewrites, ¬bucket.Reached top.key ∧ OnChain bucket top key :=
  ReachedByRewrite.exists_top bucket.rewritesNodup run.lines reached

theorem removed_on_chain {group : SupersededGroup} (member : group ∈ groups) {top : RewriteRecord}
    (spec : RewriteGroup bucket top group) {key : RecordKey} (onChain : OnChain bucket top key)
    (present : recordAt bucket key = some link) (removed : Removed deleted key) :
    RemovedFrom bucket top group deleted key := by
  obtain ⟨other, otherMember, otherTop, oldest, removal, identity, older⟩ :=
    run.removed_reached removed ⟨top, spec.member, onChain⟩ present
  obtain ⟨same, sameIdentity, sameOlder⟩ := spec.oldest_of_onChain onChain present
  rw [sameOlder.unique older] at sameIdentity
  have equal := run.distinct group member other otherMember (sameIdentity.trans identity.symm)
  subst equal
  exact ⟨spec, removal.order, removal.commits⟩

/-- A record on the chain of a group's rewrite stays reached while it is there. -/
theorem onChain_remains {group : SupersededGroup} (member : group ∈ groups) {top : RewriteRecord}
    (spec : RewriteGroup bucket top group) {key : RecordKey} (onChain : OnChain bucket top key)
    (present : recordAt bucket key = some link) (remains : ¬Removed deleted key) :
    (withoutRecords bucket deleted).Reached key := by
  refine ⟨top, run.top_remains spec.member spec.free, ?_⟩
  by_contra lost
  obtain ⟨above, found, aboveOnChain, abovePresent, below, removed⟩ := exists_removed_above onChain lost
  have removal := run.removed_on_chain member spec aboveOnChain abovePresent removed
  have notJoined : ¬JoinedTo bucket top above := fun ⟨_, _, _, off⟩ => off aboveOnChain
  exact remains (removal.removed_of_below notJoined abovePresent below present)

end

theorem mem_after (member : record ∈ bucket.compactions) (remains : ¬Removed deleted record.key) :
    record ∈ (withoutRecords bucket deleted).compactions :=
  mem_filter.mpr ⟨member, decide_eq_true remains⟩

theorem dominated_of_onChain (run : SweepRun bucket unserved groups deleted) {group : SupersededGroup}
    (member : group ∈ groups) {top : RewriteRecord} (spec : RewriteGroup bucket top group)
    (recordMember : record ∈ bucket.compactions) (onChain : OnChain bucket top record.key) {named : RecordKey}
    (names : record.supersededRecordKey = some named) (remains : ¬Removed deleted record.key) :
    (withoutRecords bucket deleted).Dominates record := by
  have reached := run.onChain_remains member spec onChain (recordAt_compaction recordMember) remains
  have inside := mem_after recordMember remains
  exact .reached inside names (ReachedByRewrite.next reached (recordAt_compaction inside) names)

/-- A record that leads to the chain of a group's rewrite stays dominated while it is there. -/
theorem leadsTo_remains (run : SweepRun bucket unserved groups deleted) {group : SupersededGroup}
    (member : group ∈ groups) {top : RewriteRecord} (spec : RewriteGroup bucket top group)
    (leads : LeadsTo bucket top record) (remains : ¬Removed deleted record.key) :
    (withoutRecords bucket deleted).Dominates record := by
  induction leads with
  | @reached record key recordMember names onChain =>
    have inside := mem_after recordMember remains
    by_cases kept : Reaches (withoutRecords bucket deleted).compactions (withoutRecords bucket deleted).rewrites
        (.rewrite top) key
    · exact .reached inside names ⟨top, run.top_remains spec.member spec.free, kept⟩
    · obtain ⟨above, found, aboveOnChain, abovePresent, below, removed⟩ := exists_removed_above onChain kept
      have removal := run.removed_on_chain member spec aboveOnChain abovePresent removed
      have notJoined : ¬JoinedTo bucket top above := fun ⟨_, _, _, off⟩ => off aboveOnChain
      by_cases own : OnChain bucket top record.key
      · exact run.dominated_of_onChain member spec recordMember own names remains
      · have joined : JoinedTo bucket top record.key := ⟨record, .reached recordMember names onChain, rfl, own⟩
        exact absurd (removal.removed_of_joined notJoined joined) remains
  | @dominated record predecessor recordMember names inner ih =>
    have inside := mem_after recordMember remains
    by_cases gone : Removed deleted predecessor.key
    · obtain ⟨other, otherMember, otherTop, removal⟩ :=
        run.removed_from gone (.inr ⟨predecessor, JoinedTo.dominates spec.member inner, rfl⟩)
      rcases removal.spec.cases _ removal.mem with joined | ⟨onChain, _⟩ | ⟨rewrite, _, same, _⟩
      · exact absurd (removal.removed_of_names joined recordMember names) remains
      · have notJoined : ¬JoinedTo bucket otherTop predecessor.key := fun ⟨_, _, _, off⟩ => off onChain
        by_cases own : OnChain bucket otherTop record.key
        · exact run.dominated_of_onChain otherMember removal.spec recordMember own names remains
        · have joined : JoinedTo bucket otherTop record.key :=
            ⟨record, .reached recordMember names onChain, rfl, own⟩
          exact absurd (removal.removed_of_joined notJoined joined) remains
      · cases same
    · exact .dominated inside names (ih gone)

theorem named_below_removed {top : RewriteRecord} {group : SupersededGroup} {key oldest : RecordKey}
    (removal : RemovedFrom bucket top group deleted key) (identity : group.identity = .record oldest)
    (older : OldestOf bucket.compactions bucket.rewrites key oldest) (present : recordAt bucket key = some link)
    (reaches : Reaches bucket.compactions bucket.rewrites link (.compaction inputSetHash16)) :
    JoinedTo bucket top (.compaction inputSetHash16) ∨ OnChain bucket top (.compaction inputSetHash16) := by
  rcases removal.spec.cases key removal.mem with ⟨record, leads, rfl, -⟩ | ⟨onChain, -⟩ | ⟨rewrite, _, rfl, _, _⟩
  · have same := Option.some.inj ((recordAt_compaction leads.mem).symm.trans present)
    rw [← same] at reaches
    exact leads.below reaches
  · exact .inr (onChain.trans present reaches)
  · cases lower : recordAt bucket (.compaction inputSetHash16) with
    | none =>
      obtain ⟨last, lastPresent, names⟩ := oldest_names_absent present reaches lower older
      have onChain := removal.spec.oldest_onChain identity
      exact .inr (onChain.trans lastPresent (.named names))
    | some found =>
      have notJoined : ¬JoinedTo bucket top rewrite.key := by
        intro ⟨_, _, same, _⟩
        cases same
      obtain ⟨before, after, split, -⟩ := removal.order
      have earlier := removal.spec.below before _ after split notJoined link _ present reaches
        (Option.isSome_iff_exists.mpr ⟨found, lower⟩)
      have inGroup : RecordKey.compaction inputSetHash16 ∈ group.chainRecordKeys := by
        rw [split]
        exact mem_append_left _ earlier
      rcases removal.spec.cases _ inGroup with joined | ⟨onChain, -⟩ | ⟨_, _, same, _⟩
      · exact .inl joined
      · exact .inr onChain
      · cases same

/-- A dominated record stays dominated while it is there. -/
theorem dominates_remains (run : SweepRun bucket unserved groups deleted) (dominates : bucket.Dominates record)
    (remains : ¬Removed deleted record.key) : (withoutRecords bucket deleted).Dominates record := by
  induction dominates with
  | @reached record key member names isReached =>
    have inside := mem_after member remains
    obtain ⟨top, topMember, free, onChain⟩ := run.exists_top isReached
    by_cases kept : Reaches (withoutRecords bucket deleted).compactions (withoutRecords bucket deleted).rewrites
        (.rewrite top) key
    · exact .reached inside names ⟨top, run.top_remains topMember free, kept⟩
    · obtain ⟨above, found, aboveOnChain, abovePresent, below, removed⟩ := exists_removed_above onChain kept
      obtain ⟨group, groupMember, groupTop, oldest, removal, identity, older⟩ :=
        run.removed_reached removed ⟨top, topMember, aboveOnChain⟩ abovePresent
      obtain ⟨inputSetHash16, rfl⟩ := bucket.namesCompaction record member key names
      have named := named_below_removed removal identity older abovePresent below
      exact run.leadsTo_remains groupMember removal.spec (LeadsTo.of_names member names named) remains
  | @dominated record predecessor member names inner ih =>
    have inside := mem_after member remains
    by_cases gone : Removed deleted predecessor.key
    · obtain ⟨group, groupMember, top, removal⟩ := run.removed_from gone (.inr ⟨predecessor, inner, rfl⟩)
      rcases removal.spec.cases _ removal.mem with joined | ⟨onChain, _⟩ | ⟨_, _, same, _⟩
      · exact absurd (removal.removed_of_names joined member names) remains
      · exact run.leadsTo_remains groupMember removal.spec (LeadsTo.of_names member names (.inr onChain)) remains
      · cases same
    · exact .dominated inside names (ih gone)

theorem dominates_before (dominates : (withoutRecords bucket deleted).Dominates record) : bucket.Dominates record := by
  induction dominates with
  | reached member names isReached =>
    obtain ⟨rewrite, rewriteMember, reaches⟩ := isReached
    exact .reached (mem_filter.mp member).1 names
      ⟨rewrite, (mem_filter.mp rewriteMember).1, reaches_before reaches⟩
  | dominated member names _ ih => exact .dominated (mem_filter.mp member).1 names ih

theorem reached_before {key : RecordKey} (reached : (withoutRecords bucket deleted).Reached key) :
    bucket.Reached key := by
  obtain ⟨rewrite, member, reaches⟩ := reached
  exact ⟨rewrite, (mem_filter.mp member).1, reaches_before reaches⟩

/-- A reached record that is not dominated stays reached while it is there. -/
theorem reached_remains (run : SweepRun bucket unserved groups deleted) (member : record ∈ bucket.compactions)
    (reached : bucket.Reached record.key) (free : ¬bucket.Dominates record) (remains : ¬Removed deleted record.key) :
    (withoutRecords bucket deleted).Reached record.key := by
  have here := recordAt_compaction member
  -- A record that names another would be dominated, so this one ends its chain.
  have ends : record.supersededRecordKey = none := by
    cases names : record.supersededRecordKey with
    | none => rfl
    | some named => exact absurd (.reached member names (ReachedByRewrite.next reached here names)) free
  obtain ⟨top, topMember, topFree, onChain⟩ := run.exists_top reached
  by_cases kept : Reaches (withoutRecords bucket deleted).compactions (withoutRecords bucket deleted).rewrites
      (.rewrite top) record.key
  · exact ⟨top, run.top_remains topMember topFree, kept⟩
  · obtain ⟨above, found, aboveOnChain, abovePresent, below, removed⟩ := exists_removed_above onChain kept
    obtain ⟨group, groupMember, groupTop, oldest, removal, identity, older⟩ :=
      run.removed_reached removed ⟨top, topMember, aboveOnChain⟩ abovePresent
    have own : OldestOf bucket.compactions bucket.rewrites record.key record.key := ⟨[record.key], .last here ends, rfl⟩
    have same := (oldestOf_below abovePresent below here older).unique own
    subst same
    have groupOnChain := removal.spec.oldest_onChain identity
    exact run.onChain_remains groupMember removal.spec groupOnChain here remains

theorem not_reaches_rewrite (member : record ∈ bucket.compactions) :
    ¬Reaches bucket.compactions bucket.rewrites (.compaction record) (.rewrite inputSetHash16) := by
  intro reaches
  generalize start : ChainLink.compaction record = link at reaches
  generalize target : RecordKey.rewrite inputSetHash16 = key at reaches
  induction reaches generalizing record with
  | named names =>
    subst start
    obtain ⟨hash, same⟩ := bucket.namesCompaction record member _ names
    rw [← target] at same
    cases same
  | through names present _ ih =>
    subst start
    obtain ⟨hash, rfl⟩ := bucket.namesCompaction record member _ names
    obtain ⟨next, nextMember, _, rfl⟩ := linkAt_of_compaction_key present
    exact ih nextMember rfl target

/-- A reached rewrite stays reached while it is there. -/
theorem rewrite_remains (run : SweepRun bucket unserved groups deleted) {rewrite : RewriteRecord}
    (member : rewrite ∈ bucket.rewrites) (reached : bucket.Reached rewrite.key)
    (remains : ¬Removed deleted rewrite.key) : (withoutRecords bucket deleted).Reached rewrite.key := by
  obtain ⟨top, topMember, free, onChain⟩ := run.exists_top reached
  refine ⟨top, run.top_remains topMember free, ?_⟩
  by_contra lost
  obtain ⟨above, found, aboveOnChain, abovePresent, below, removed⟩ := exists_removed_above onChain lost
  obtain ⟨group, _, groupTop, removal⟩ := run.removed_from removed (.inl ⟨top, topMember, aboveOnChain⟩)
  rcases linkAt_some abovePresent with ⟨record, recordMember, _, rfl⟩ | ⟨record, _, rfl, rfl⟩
  · exact not_reaches_rewrite recordMember below
  · have notJoined : ¬JoinedTo bucket groupTop record.key := by
      intro ⟨_, _, same, _⟩
      cases same
    exact remains (removal.removed_of_below notJoined abovePresent below (recordAt_rewrite member))

theorem commit_removed (run : SweepRun bucket unserved groups deleted) {above key : RecordKey} {found : ChainLink}
    (removed : Removed deleted above) (reached : bucket.Reached above)
    (abovePresent : recordAt bucket above = some found) (present : recordAt bucket key = some link)
    (below : above = key ∨ Reaches bucket.compactions bucket.rewrites found key) (listed : commit ∈ bucket.commits)
    (named : commit.identity ∈ link.inputs) : SweepKey.commit commit.identity ∈ deleted := by
  obtain ⟨group, _, top, oldest, removal, identity, older⟩ := run.removed_reached removed reached abovePresent
  have keyOlder : OldestOf bucket.compactions bucket.rewrites key oldest := by
    rcases below with rfl | reaches
    · exact older
    · exact oldestOf_below abovePresent reaches present older
  obtain ⟨last, lastPresent, -⟩ := keyOlder.ends
  have consistent := run.consistent (ne_nil_of_mem removal.spec.member)
  have atOldest := inputs_subset_oldest consistent present keyOlder lastPresent named
  exact removal.commits _ (removal.spec.inputs oldest last identity lastPresent commit listed atOldest)

/-- A commit that is an effective input stays one while it is listed. -/
theorem erased_remains (run : SweepRun bucket unserved groups deleted) (listed : commit ∈ bucket.commits)
    (erased : bucket.Erased commit.identity) (remains : SweepKey.commit commit.identity ∉ deleted) :
    (withoutRecords bucket deleted).Erased commit.identity := by
  have onTop : ∃ top ∈ bucket.rewrites, ¬bucket.Reached top.key ∧
      EffectiveInput bucket.compactions bucket.rewrites (.rewrite top) commit.identity := by
    obtain ⟨rewrite, member, effective⟩ := erased
    by_cases reached : bucket.Reached rewrite.key
    · obtain ⟨top, topMember, free, onChain⟩ := run.exists_top reached
      refine ⟨top, topMember, free, ?_⟩
      have here := recordAt_rewrite member
      rcases effective with own | ⟨key, next, reaches, present, named⟩
      · exact .inr ⟨rewrite.key, .rewrite rewrite, onChain, here, own⟩
      · exact .inr ⟨key, next, onChain.trans here reaches, present, named⟩
    · exact ⟨rewrite, member, reached, effective⟩
  obtain ⟨top, topMember, free, effective⟩ := onTop
  refine ⟨top, run.top_remains topMember free, ?_⟩
  rcases effective with own | ⟨key, next, onChain, present, named⟩
  · exact .inl own
  · refine .inr ⟨key, next, ?_, ?_, named⟩
    · by_contra lost
      obtain ⟨above, found, aboveOnChain, abovePresent, below, removed⟩ := exists_removed_above onChain lost
      exact remains (run.commit_removed removed ⟨top, topMember, aboveOnChain⟩ abovePresent present (.inr below)
        listed named)
    · have kept : ¬Removed deleted key := fun removed => remains (run.commit_removed removed
        ⟨top, topMember, onChain⟩ present present (.inl rfl) listed named)
      change recordAt (withoutRecords bucket deleted) key = some next
      rw [recordAt_without, if_neg kept]
      exact present

end SweepRun

end Ravel.Maintain
