import Ravel.Proof.Maintain.GatheredGroups
import Ravel.Proof.Maintain.GroupUnion
import Ravel.Proof.Maintain.SweepResolution

namespace Ravel.Maintain

open List Catalog Library

/-- A listed input that the pass takes as superseded, from the entry of a record that it does not skip, is an effective
input of a rewrite or an input of a record that is authoritative among those that no rewrite dominates. -/
def InputsAgree (bucket : Bucket) : Prop :=
  ∀ record ∈ bucket.compactions,
    record.key ∉ supersededByPresent bucket (.fromRecords bucket.compactions bucket.rewrites) →
    ∀ commit ∈ bucket.commits, commit.identity ∈ supersededView bucket.compactions record →
      bucket.Erased commit.identity ∨
        ∃ dominated, erasureDominatedCompactionRecords bucket.compactions bucket.rewrites = .ok dominated ∧
          ∃ other, Authoritative (undominated bucket.compactions dominated) other ∧ commit.identity ∈ other.inputs

section Gather

variable {bucket : Bucket} {resolved : ResolvedBucket}
  (resolves : resolveBucket bucket.compactions bucket.rewrites = .ok resolved)

include resolves

/-- The condition, by the inputs that the resolution excludes. -/
theorem inputsAgree_iff :
    InputsAgree bucket ↔ ∀ record ∈ bucket.compactions,
      record.key ∉ supersededByPresent bucket (.fromRecords bucket.compactions bucket.rewrites) →
      ∀ commit ∈ bucket.commits, commit.identity ∈ supersededView bucket.compactions record →
        commit.identity ∈ resolved.excludedInputs bucket.compactions := by
  have spec := resolveBucket_resolves bucket.compactionsNodup resolves
  obtain ⟨-, marked, -⟩ := resolveBucket_ok resolves
  refine forall₂_congr fun record _ => imp_congr_right fun _ => forall₂_congr fun commit _ => imp_congr_right fun _ => ?_
  rw [spec.mem_excludedInputs_iff bucket.compactionsNodup, marked]
  refine or_congr_right ?_
  constructor
  · intro ⟨dominated, same, found⟩
    cases same
    exact found
  · intro found
    exact ⟨_, rfl, found⟩

/-- The dominated records that join groups are those of the resolution. -/
theorem mem_version2_dominated (key : RecordKey) :
    key ∈ (Version2Groups.fromRecords bucket.compactions bucket.rewrites).dominated ↔
      ∃ record, bucket.Dominates record ∧ record.key = key := by
  have spec := resolveBucket_resolves bucket.compactionsNodup resolves
  obtain ⟨-, marked, selected⟩ := resolveBucket_ok resolves
  rw [Version2Groups.fromRecords]
  split
  · rename_i noVersion2
    rw [all_eq_true] at noVersion2
    constructor
    · intro absurd
      cases absurd
    · intro ⟨record, dominates, _⟩
      have none := Option.isNone_iff_eq_none.mp (noVersion2 record dominates.mem)
      cases dominates with
      | reached _ names _ =>
        rw [none] at names
        cases names
      | dominated _ names _ =>
        rw [none] at names
        cases names
  · rw [marked]
    simp only [selected]
    rw [mem_insertionSort]
    exact spec.dominated key

variable {record : CompactionRecord} {groups : List SupersededGroup}

theorem undominated_of_mem_heads (member : record ∈ bucket.compactions)
    (head : record.key ∈ (Version2Groups.fromRecords bucket.compactions bucket.rewrites).heads) :
    ¬bucket.Dominates record := by
  have spec := resolveBucket_resolves bucket.compactionsNodup resolves
  obtain ⟨-, marked, selected⟩ := resolveBucket_ok resolves
  rw [Version2Groups.fromRecords] at head
  split at head
  · cases head
  · rw [marked] at head
    simp only [selected] at head
    obtain ⟨other, inside, same⟩ := mem_map.mp head
    have candidate := (mem_filter.mp inside).1
    obtain ⟨otherMember, free⟩ := (spec.mem_undominated_iff bucket.compactionsNodup).mp candidate
    rw [inj_on_of_nodup_map bucket.compactionsNodup otherMember member same] at free
    exact free

theorem gatherCompaction_ok (agree : InputsAgree bucket) (member : record ∈ bucket.compactions)
    (entered : record.key ∉ supersededByPresent bucket (.fromRecords bucket.compactions bucket.rewrites))
    (gathered : gatherCompaction bucket (.fromRecords bucket.compactions bucket.rewrites) record = .ok groups) :
    ∀ group ∈ groups, GroupOk bucket (· ∈ resolved.excludedInputs bucket.compactions) group := by
  have inputs : ∀ group ∈ gatherL0Inputs bucket (supersededView bucket.compactions record),
      GroupOk bucket (· ∈ resolved.excludedInputs bucket.compactions) group :=
    inputGroups_ok ((inputsAgree_iff resolves).mp agree record member entered)
  rw [gatherCompaction] at gathered
  cases names : record.supersededRecordKey with
  | none =>
    rw [names] at gathered
    cases gathered
    exact inputs
  | some named =>
    rw [names] at gathered
    dsimp only at gathered
    split at gathered
    · rename_i head
      obtain ⟨result, walk, gathered⟩ := ok_of_bind gathered
      cases result with
      | refused reason =>
        simp only [walk, bind, Except.bind] at gathered
        cases gathered
        simp
      | gathered chain =>
        simp only [walk, bind, Except.bind] at gathered
        cases gathered
        rw [forall_mem_append]
        exact ⟨inputs, headGroup_ok member (undominated_of_mem_heads resolves member head) names walk⟩
    · cases gathered
      exact inputs

theorem gatherEntry_ok (agree : InputsAgree bucket) {nowNs protectionHorizonNs : Int} {key : RecordKey}
    (gathered : gatherEntry bucket (.fromRecords bucket.compactions bucket.rewrites) nowNs protectionHorizonNs key = .ok groups) :
    ∀ group ∈ groups, GroupOk bucket (· ∈ resolved.excludedInputs bucket.compactions) group := by
  have spec := resolveBucket_resolves bucket.compactionsNodup resolves
  have nothing : ∀ {groups : List SupersededGroup}, Except.ok [] = (.ok groups : Except MaintainError _) →
      ∀ group ∈ groups, GroupOk bucket (· ∈ resolved.excludedInputs bucket.compactions) group := by
    intro groups same
    cases same
    simp
  rw [gatherEntry] at gathered
  split at gathered
  · exact nothing gathered
  · rename_i entered
    cases present : linkAt bucket.compactions bucket.rewrites key with
    | none =>
      rw [present] at gathered
      exact nothing gathered
    | some link =>
      rw [present] at gathered
      rcases linkAt_some present with ⟨record, member, rfl, rfl⟩ | ⟨record, member, rfl, rfl⟩
      · dsimp only at gathered
        split at gathered
        · exact gatherCompaction_ok resolves agree member entered gathered
        · exact nothing gathered
      · dsimp only at gathered
        split at gathered
        · -- Only a rewrite can reach a rewrite, and none names this one.
          have free : ¬bucket.Reached record.key := by
            intro reached
            rcases reached.last with ⟨rewrite, rewriteMember, names⟩ | ⟨other, otherMember, _, names⟩
            · exact entered (mem_append_left _ (mem_filterMap.mpr ⟨rewrite, rewriteMember, names⟩))
            · obtain ⟨_, same⟩ := bucket.namesCompaction other otherMember _ names
              cases same
          refine gatherRewrite_ok member free (mem_version2_dominated resolves) ?_ gathered
          intro identity erased
          exact (spec.mem_excludedInputs_iff bucket.compactionsNodup).mpr (.inl erased)
        · exact nothing gathered

end Gather

/-- The gathered groups are what the sweep relies on, one for each identity. -/
structure Gathered (bucket : Bucket) (unserved : InputIdentity → Prop) (groups : List SupersededGroup) : Prop where
  groupsOk : ∀ group ∈ groups, GroupOk bucket unserved group
  identities : (groups.map SupersededGroup.identity).Nodup

theorem absorbDuplicate_identity (group other : SupersededGroup) :
    (group.absorbDuplicate other).identity = group.identity := by
  rw [SupersededGroup.absorbDuplicate]
  split_ifs <;> rfl

section Groups

variable {bucket : Bucket} {unserved : InputIdentity → Prop}

/-- A group joins the others or is folded into the one of its identity. -/
theorem Gathered.add {groups : List SupersededGroup} (gathered : Gathered bucket unserved groups)
    {group : SupersededGroup} (ok : GroupOk bucket unserved group) : Gathered bucket unserved (addGroup groups group) := by
  rw [addGroup]
  split_ifs with known
  · constructor
    · intro folded inside
      obtain ⟨other, member, rfl⟩ := mem_map.mp inside
      by_cases same : other.identity = group.identity
      · rw [if_pos same]
        exact (gathered.groupsOk other member).absorbDuplicate ok same
      · rw [if_neg same]
        exact gathered.groupsOk other member
    · have kept : (SupersededGroup.identity ∘ fun other : SupersededGroup =>
          if other.identity = group.identity then other.absorbDuplicate group else other) =
            SupersededGroup.identity := by
        funext other
        rw [Function.comp_apply]
        by_cases same : other.identity = group.identity
        · rw [if_pos same, absorbDuplicate_identity]
        · rw [if_neg same]
      rw [map_map, kept]
      exact gathered.identities
  · constructor
    · rw [forall_mem_append]
      exact ⟨gathered.groupsOk, fun other inside => mem_singleton.mp inside ▸ ok⟩
    · rw [map_append, map_singleton, nodup_append']
      refine ⟨gathered.identities, nodup_singleton _, ?_⟩
      intro identity inside isOwn
      obtain ⟨other, member, rfl⟩ := mem_map.mp inside
      refine known (any_eq_true.mpr ⟨other, member, decide_eq_true ?_⟩)
      exact mem_singleton.mp isOwn

theorem Gathered.addAll {groups added : List SupersededGroup} (gathered : Gathered bucket unserved groups)
    (ok : ∀ group ∈ added, GroupOk bucket unserved group) : Gathered bucket unserved (added.foldl addGroup groups) := by
  induction added generalizing groups with
  | nil => exact gathered
  | cons group rest ih =>
    rw [forall_mem_cons] at ok
    exact ih (gathered.add ok.1) ok.2

/-- The groups of a pass. -/
theorem gatherGroups_gathered {resolved : ResolvedBucket}
    (resolves : resolveBucket bucket.compactions bucket.rewrites = .ok resolved) (agree : InputsAgree bucket)
    {nowNs protectionHorizonNs : Int} {entries : List RecordKey} {before groups : List SupersededGroup}
    (started : Gathered bucket (· ∈ resolved.excludedInputs bucket.compactions) before)
    (gathered : gatherGroups bucket nowNs protectionHorizonNs entries before = .ok groups) :
    Gathered bucket (· ∈ resolved.excludedInputs bucket.compactions) groups := by
  induction entries generalizing before with
  | nil =>
    cases gathered
    exact started
  | cons key rest ih =>
    rw [gatherGroups] at gathered
    obtain ⟨added, entry, gathered⟩ := ok_of_bind gathered
    exact ih (started.addAll (gatherEntry_ok resolves agree entry)) gathered

end Groups

/-- The version 2 records of a bucket that resolves agree with the records that they name, when it has rewrites. -/
theorem consistentInputs_of_resolves {bucket : Bucket} {resolved : ResolvedBucket}
    (resolves : resolveBucket bucket.compactions bucket.rewrites = .ok resolved) (some : bucket.rewrites ≠ []) :
    ConsistentInputs bucket.compactions := by
  refine ⟨bucket.namesCompaction, ?_⟩
  intro record member predecessor predecessorMember names
  obtain ⟨-, marked, -⟩ := resolveBucket_ok resolves
  have proper : ¬(bucket.rewrites.isEmpty || bucket.compactions.all fun record =>
      record.supersededRecordKey.isNone) = true := by
    rw [Bool.or_eq_true, List.isEmpty_iff, all_eq_true, not_or]
    refine ⟨some, ?_⟩
    intro noVersion2
    have none := noVersion2 record member
    rw [names] at none
    cases none
  rw [erasureDominatedCompactionRecords, if_neg proper] at marked
  cases checked : checkVersion2Inputs bucket.compactions with
  | error failure =>
    rw [checked] at marked
    cases marked
  | ok _ => exact inputs_iff_of_check bucket.compactionsNodup checked member predecessorMember names

/-- The deletes so far leave what the bucket serves as it is, and keep its data objects. -/
def KeepsServed (bucket : Bucket) (done : List SweepKey) : Prop :=
  ∀ range, ∃ out, processBucket bucket range = .ok out ∧ processBucket (withoutRecords bucket done) range = .ok out ∧
    ∀ entry ∈ out, entry.1 = entry.2.dataObjectKey ∧ SweepKey.data entry.1 ∉ done

/-- The executable form of the condition on inputs. -/
def checkInputsAgree (bucket : Bucket) : Bool :=
  match resolveBucket bucket.compactions bucket.rewrites with
  | .error _ => false
  | .ok resolved =>
    bucket.compactions.all fun record =>
      decide (record.key ∈ supersededByPresent bucket (.fromRecords bucket.compactions bucket.rewrites)) ||
        bucket.commits.all fun commit =>
          decide (commit.identity ∉ supersededView bucket.compactions record) ||
            decide (commit.identity ∈ resolved.excludedInputs bucket.compactions)

theorem inputsAgree_of_check {bucket : Bucket} (checked : checkInputsAgree bucket = true) : InputsAgree bucket := by
  rw [checkInputsAgree] at checked
  cases resolves : resolveBucket bucket.compactions bucket.rewrites with
  | error failure =>
    rw [resolves] at checked
    cases checked
  | ok resolved =>
    rw [resolves] at checked
    refine (inputsAgree_iff resolves).mpr ?_
    intro record member entered commit listed superseded
    have passes := all_eq_true.mp checked record member
    rw [Bool.or_eq_true, decide_eq_true_eq, all_eq_true] at passes
    have agrees := (passes.resolve_left entered) commit listed
    rw [Bool.or_eq_true, decide_eq_true_eq, decide_eq_true_eq] at agrees
    exact agrees.resolve_left (not_not_intro superseded)

/-- A bucket whose version 2 records name present records has no absent ends to keep apart. -/
theorem endsApart_of_present {bucket : Bucket}
    (present : ∀ record ∈ bucket.compactions, ∀ named ∈ record.supersededRecordKey, recordAt bucket named ≠ none) :
    EndsApart bucket := by
  intro top _ _ record member _ named names gone
  exact absurd gone (present record member named names)

/-- A bucket with a rewrite behind a record that was also re-encoded, and a record re-encoded on its own. -/
def sweptBucket : Bucket where
  hasTombstone := false
  commits := [0, 1, 2, 3].map fun seq => ⟨⟨"w", 1, seq⟩, seq * 2 ^ 192, 0, 9, 0⟩
  compactions := [
    ⟨[⟨"w", 1, 0⟩, ⟨"w", 1, 1⟩], 1 * 2 ^ 192, none, [⟨0, 7, 0, 9⟩], 0⟩,
    ⟨[⟨"w", 1, 0⟩, ⟨"w", 1, 1⟩], 2 * 2 ^ 192, some (.compaction 1), [⟨0, 8, 0, 9⟩], 0⟩,
    ⟨[⟨"w", 1, 2⟩], 3 * 2 ^ 192, none, [⟨0, 6, 0, 9⟩], 0⟩,
    ⟨[⟨"w", 1, 2⟩], 4 * 2 ^ 192, some (.compaction 3), [⟨0, 5, 0, 9⟩], 0⟩]
  rewrites := [⟨[], 5 * 2 ^ 192, some (.compaction 1), [], [⟨0, 4, 0, 9⟩], 0, .refl true⟩]
  commitsNodup := by decide
  compactionsNodup := by decide
  rewritesNodup := by decide
  namesCompaction := by simp

/-- The listed records of the swept bucket. -/
def sweptEntries : List RecordKey :=
  [.compaction 1, .compaction 2, .compaction 3, .compaction 4, .rewrite 5]

theorem not_keepsServed_of_ne {bucket : Bucket} {done : List SweepKey}
    (differs : (processBucket bucket .unbounded).toOption ≠
      (processBucket (withoutRecords bucket done) .unbounded).toOption) : ¬KeepsServed bucket done := by
  intro keeps
  obtain ⟨out, before, after, -⟩ := keeps .unbounded
  rw [before, after] at differs
  exact differs rfl

/-- A dominated re-encode of an absent record ties the inputs of two other records together. -/
def dominatedTieBucket : Bucket where
  hasTombstone := false
  commits := [⟨⟨"w", 1, 0⟩, 0, 0, 9, 0⟩]
  compactions := [
    ⟨[⟨"w", 1, 0⟩, ⟨"w", 1, 1⟩, ⟨"w", 1, 2⟩], 1 * 2 ^ 192, some (.compaction 9), [⟨0, 7, 0, 9⟩], 0⟩,
    ⟨[⟨"w", 1, 3⟩, ⟨"w", 1, 4⟩], 3 * 2 ^ 192, none, [⟨0, 7, 0, 9⟩], 0⟩,
    ⟨[⟨"w", 1, 0⟩, ⟨"w", 1, 3⟩], 4 * 2 ^ 192, none, [⟨0, 7, 0, 9⟩], 0⟩]
  rewrites := [⟨[], 2 * 2 ^ 192, some (.compaction 9), [], [⟨0, 5, 0, 9⟩], 0, .refl true⟩]
  commitsNodup := by decide
  compactionsNodup := by decide
  rewritesNodup := by decide
  namesCompaction := by simp

/-- Two rewrites over one lineage: one behind a re-encode of an absent record, one behind the absent record. -/
def sharedLineageBucket : Bucket where
  hasTombstone := false
  commits := [⟨⟨"w", 1, 0⟩, 0, 0, 9, 0⟩]
  compactions := [⟨[⟨"w", 1, 0⟩], 1 * 2 ^ 192, some (.compaction 9), [⟨0, 7, 0, 9⟩], 0⟩]
  rewrites := [
    ⟨[], 2 * 2 ^ 192, some (.compaction 1), [], [⟨0, 5, 0, 9⟩], 0, .refl true⟩,
    ⟨[], 3 * 2 ^ 192, some (.compaction 9), [], [⟨0, 4, 0, 9⟩], 0, .refl true⟩]
  commitsNodup := by decide
  compactionsNodup := by decide
  rewritesNodup := by decide
  namesCompaction := by simp

end Ravel.Maintain
