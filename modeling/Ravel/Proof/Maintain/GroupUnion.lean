import Ravel.Proof.Maintain.SweepGroups

namespace Ravel.Maintain

open List Catalog SupersededGroup

/-- A key of a union stands among the first keys, or after all of them and after the earlier ones of the second. -/
theorem appendMissing_split {Key : Type} [DecidableEq Key] {mine theirs earlier later : List Key} {key : Key}
    (split : appendMissing mine theirs = earlier ++ key :: later) :
    (∃ between, mine = earlier ++ key :: between) ∨
      (key ∉ mine ∧ (∀ other ∈ mine, other ∈ earlier) ∧
        ∃ front after, theirs = front ++ key :: after ∧ ∀ other ∈ front, other ∈ earlier) := by
  have second : ∀ between, theirs.filter (fun other => other ∉ mine) = between ++ key :: later →
      earlier = mine ++ between → key ∉ mine ∧ (∀ other ∈ mine, other ∈ earlier) ∧
        ∃ front after, theirs = front ++ key :: after ∧ ∀ other ∈ front, other ∈ earlier := by
    intro between kept same
    obtain ⟨front, rest, rfl, frontKept, restKept⟩ := filter_eq_append_iff.mp kept
    obtain ⟨middle, after, rfl, dropped, isKept, -⟩ := filter_eq_cons_iff.mp restKept
    have held : ∀ other ∈ mine, other ∈ earlier := by
      intro other inside
      rw [same]
      exact mem_append_left _ inside
    refine ⟨of_decide_eq_true isKept, held, front ++ middle, after, by rw [append_assoc], ?_⟩
    intro other inside
    by_cases own : other ∈ mine
    · exact held other own
    · rcases mem_append.mp inside with before | between
      · rw [same, ← frontKept]
        exact mem_append_right _ (mem_filter.mpr ⟨before, decide_eq_true own⟩)
      · exact absurd (decide_eq_true own) (dropped other between)
  rw [appendMissing] at split
  rcases append_eq_append_iff.mp split with ⟨between, same, kept⟩ | ⟨between, front, rest⟩
  · exact .inr (second between kept same)
  · cases between with
    | nil => exact .inr (second [] rest.symm (by simpa using front.symm))
    | cons first more =>
      obtain ⟨rfl, -⟩ := cons.inj rest
      exact .inl ⟨more, front⟩

theorem mem_appendMissing {Key : Type} [DecidableEq Key] {mine theirs : List Key} {key : Key} :
    key ∈ appendMissing mine theirs ↔ key ∈ mine ∨ key ∈ theirs := by
  rw [appendMissing, mem_append, mem_filter, decide_eq_true_eq]
  constructor
  · intro inside
    exact inside.imp_right And.left
  · intro inside
    by_cases own : key ∈ mine
    · exact .inl own
    · exact .inr ⟨inside.resolve_left own, own⟩

variable {bucket : Bucket} {unserved : InputIdentity → Prop} {group other : SupersededGroup}

/-- The union of two gathers, under the first one's identity. -/
def SupersededGroup.union (group other : SupersededGroup) : SupersededGroup :=
  { group with
    recordKeys := appendMissing group.recordKeys other.recordKeys
    dataKeys := appendMissing group.dataKeys other.dataKeys
    chainRecordKeys := appendMissing group.chainRecordKeys other.chainRecordKeys
    absentEnd := group.absentEnd.or other.absentEnd }

theorem Spares.union (first : Spares bucket unserved group) (second : Spares bucket unserved other) :
    Spares bucket unserved (group.union other) := by
  constructor
  · intro identity inside
    exact (mem_appendMissing.mp inside).elim (first.commits identity) (second.commits identity)
  · intro key inside
    exact (mem_appendMissing.mp inside).elim (first.data key) (second.data key)

theorem InputGroup.union (first : InputGroup group) (second : InputGroup other) : InputGroup (group.union other) where
  identity := first.identity
  noRecords := by
    change appendMissing group.chainRecordKeys other.chainRecordKeys = []
    rw [first.noRecords, second.noRecords]
    rfl

theorem HeadGroup.union (first : HeadGroup bucket group) (second : HeadGroup bucket other) :
    HeadGroup bucket (group.union other) where
  identity := first.identity
  records := by
    intro key inside
    exact (mem_appendMissing.mp inside).elim (first.records key) (second.records key)
  below := by
    intro earlier key later split record member same predecessor predecessorMember names
    rcases appendMissing_split split with ⟨between, own⟩ | ⟨-, -, front, after, theirs, gone⟩
    · exact first.below earlier key between own record member same predecessor predecessorMember names
    · exact gone _ (second.below front key after theirs record member same predecessor predecessorMember names)

section Rewrites

variable {top otherTop : RewriteRecord}

theorem LeadsTo.held {record : CompactionRecord} (leads : LeadsTo bucket top record) :
    JoinedTo bucket top record.key ∨ OnChain bucket top record.key := by
  by_cases onChain : OnChain bucket top record.key
  · exact .inr onChain
  · exact .inl ⟨record, leads, rfl, onChain⟩

/-- Every version 2 record above a key on the chain leads to the chain. -/
theorem held_of_line {key oldest : RecordKey} (onChain : OnChain bucket top oldest) {keys : List RecordKey}
    (line : Line bucket.compactions bucket.rewrites key keys) (last : keys.getLast? = some oldest)
    {inputSetHash16 : Nat} (isCompaction : key = .compaction inputSetHash16) :
    JoinedTo bucket top key ∨ OnChain bucket top key := by
  induction line generalizing inputSetHash16 with
  | absent _ => cases last
  | last _ _ =>
    rw [getLast?_singleton, Option.some.injEq] at last
    rw [last]
    exact .inr onChain
  | @step key next link rest present names further ih =>
    subst isCompaction
    obtain ⟨record, member, same, rfl⟩ := linkAt_of_compaction_key present
    cases rest with
    | nil =>
      rw [getLast?_singleton, Option.some.injEq] at last
      rw [last]
      exact .inr onChain
    | cons first more =>
      rw [getLast?_cons_cons] at last
      obtain ⟨nextHash, isNext⟩ := bucket.namesCompaction record member next names
      have held := (LeadsTo.of_names member names (ih last isNext)).held
      rwa [same] at held

namespace RewriteGroup

section

variable (spec : RewriteGroup bucket top group) (otherSpec : RewriteGroup bucket otherTop other)
  (same : group.identity = other.identity)

include spec otherSpec same

theorem held_of_onChain {inputSetHash16 : Nat} (onChain : OnChain bucket otherTop (.compaction inputSetHash16)) :
    JoinedTo bucket top (.compaction inputSetHash16) ∨ OnChain bucket top (.compaction inputSetHash16) := by
  cases present : recordAt bucket (.compaction inputSetHash16) with
  | some link =>
    obtain ⟨oldest, identity, keys, line, last⟩ := otherSpec.oldest_of_onChain onChain present
    exact held_of_line (spec.oldest_onChain (same.trans identity)) line last rfl
  | none =>
    -- The absent end is named by the oldest record, or by the rewrite itself.
    obtain ⟨start, keys, names, line, identity⟩ := otherSpec.identity
    rcases (reaches_iff (show (ChainLink.rewrite otherTop).named = some start from names) _).mp onChain with
      isStart | ⟨link, startPresent, further⟩
    · subst isStart
      cases line with
      | absent _ => exact .inr (spec.oldest_onChain (same.trans identity))
      | last found _ =>
        rw [show recordAt bucket (.compaction inputSetHash16) = some _ from found] at present
        cases present
      | step found _ _ =>
        rw [show recordAt bucket (.compaction inputSetHash16) = some _ from found] at present
        cases present
    · cases last : keys.getLast? with
      | none =>
        rw [getLast?_eq_none_iff] at last
        subst last
        cases line with
        | absent gone =>
          rw [gone] at startPresent
          cases startPresent
      | some oldest =>
        rw [last, Option.getD_some] at identity
        obtain ⟨found, oldestPresent, oldestNames⟩ :=
          oldest_names_absent startPresent further present ⟨keys, line, last⟩
        exact .inr ((spec.oldest_onChain (same.trans identity)).trans oldestPresent (.named oldestNames))

theorem held_of_leadsTo {record : CompactionRecord} (leads : LeadsTo bucket otherTop record) :
    JoinedTo bucket top record.key ∨ OnChain bucket top record.key := by
  induction leads with
  | @reached record named member names reaches =>
    obtain ⟨inputSetHash16, rfl⟩ := bucket.namesCompaction record member named names
    exact (LeadsTo.of_names member names (spec.held_of_onChain otherSpec same reaches)).held
  | dominated member names _ ih => exact (LeadsTo.of_names member names ih).held

theorem mem_of_compaction {inputSetHash16 : Nat} (member : .compaction inputSetHash16 ∈ other.chainRecordKeys) :
    .compaction inputSetHash16 ∈ group.chainRecordKeys := by
  refine spec.holds _ ?_
  rcases otherSpec.cases _ member with ⟨record, leads, isKey, -⟩ | ⟨onChain, present⟩ | ⟨_, _, isKey, _⟩
  · rcases spec.held_of_leadsTo otherSpec same leads with joined | onChain
    · exact .inl (isKey ▸ joined)
    · refine .inr ⟨isKey ▸ onChain, ?_⟩
      rw [← isKey, recordAt_compaction leads.mem]
      rfl
  · exact (spec.held_of_onChain otherSpec same onChain).imp_right fun on => ⟨on, present⟩
  · cases isKey

end

theorem rewrite_of_mem (otherSpec : RewriteGroup bucket otherTop other) (same : group.identity = other.identity)
    {inputSetHash16 : Nat} (member : .rewrite inputSetHash16 ∈ other.chainRecordKeys) :
    ∃ record ∈ bucket.rewrites, record.key = .rewrite inputSetHash16 ∧ bucket.Reached (.rewrite inputSetHash16) ∧
      ∃ oldest, group.identity = .record oldest ∧
        OldestOf bucket.compactions bucket.rewrites (.rewrite inputSetHash16) oldest := by
  rw [same]
  rcases otherSpec.cases _ member with ⟨record, _, isKey, _⟩ | ⟨onChain, present⟩ | found
  · cases isKey
  · obtain ⟨link, found⟩ := Option.isSome_iff_exists.mp present
    rcases linkAt_some found with ⟨record, _, isKey, _⟩ | ⟨record, recordMember, isKey, -⟩
    · cases isKey
    · exact ⟨record, recordMember, isKey, ⟨otherTop, otherSpec.member, onChain⟩,
        otherSpec.oldest_of_onChain onChain found⟩
  · exact found

/-- The second gather adds rewrites only, after all records of the first. -/
theorem union (spec : RewriteGroup bucket top group) (otherSpec : RewriteGroup bucket otherTop other)
    (same : group.identity = other.identity) : RewriteGroup bucket top (group.union other) where
  member := spec.member
  free := spec.free
  identity := spec.identity
  holds := fun key held => mem_appendMissing.mpr (.inl (spec.holds key held))
  cases := by
    intro key inside
    rcases mem_appendMissing.mp inside with own | theirs
    · exact spec.cases key own
    · cases key with
      | compaction inputSetHash16 => exact spec.cases _ (spec.mem_of_compaction otherSpec same theirs)
      | rewrite inputSetHash16 => exact .inr (.inr (otherSpec.rewrite_of_mem same theirs))
  joinedBefore := by
    intro earlier key later split joined record member names
    rcases appendMissing_split split with ⟨between, own⟩ | ⟨outside, -, -⟩
    · exact spec.joinedBefore earlier key between own joined record member names
    · exact absurd (spec.holds key (.inl joined)) outside
  joinedFirst := by
    intro earlier key later split notJoined joined isJoined
    rcases appendMissing_split split with ⟨between, own⟩ | ⟨-, held, -⟩
    · exact spec.joinedFirst earlier key between own notJoined joined isJoined
    · exact held _ (spec.holds joined (.inl isJoined))
  below := by
    intro earlier key later split notJoined link lower present reaches lowerPresent
    rcases appendMissing_split split with ⟨between, own⟩ | ⟨outside, -, front, after, theirs, gone⟩
    · exact spec.below earlier key between own notJoined link lower present reaches lowerPresent
    · have inside : key ∈ other.chainRecordKeys := by
        rw [theirs]
        exact mem_append_right _ mem_cons_self
      cases key with
      | compaction inputSetHash16 => exact absurd (spec.mem_of_compaction otherSpec same inside) outside
      | rewrite inputSetHash16 =>
        have otherNotJoined : ¬JoinedTo bucket otherTop (.rewrite inputSetHash16) := by
          intro ⟨_, _, isKey, _⟩
          cases isKey
        exact gone _ (otherSpec.below front _ after theirs otherNotJoined link lower present reaches lowerPresent)
  inputs := by
    intro oldest link identity present commit listed named
    exact mem_appendMissing.mpr (.inl (spec.inputs oldest link identity present commit listed named))

end RewriteGroup

end Rewrites

namespace GroupOk

theorem union (first : GroupOk bucket unserved group) (second : GroupOk bucket unserved other)
    (same : group.identity = other.identity) : GroupOk bucket unserved (group.union other) := by
  refine ⟨first.spares.union second.spares, ?_⟩
  rcases first.kind with input | head | ⟨top, spec⟩
  · rcases second.kind with otherInput | otherHead | ⟨otherTop, otherSpec⟩
    · exact .inl (input.union otherInput)
    · obtain ⟨identity, isCommit⟩ := input.identity
      obtain ⟨oldest, isRecord, -⟩ := otherHead.identity
      rw [same, isRecord] at isCommit
      cases isCommit
    · obtain ⟨identity, isCommit⟩ := input.identity
      obtain ⟨_, _, _, _, isRecord⟩ := otherSpec.identity
      rw [same, isRecord] at isCommit
      cases isCommit
  · obtain ⟨oldest, isRecord, unreached⟩ := head.identity
    rcases second.kind with otherInput | otherHead | ⟨otherTop, otherSpec⟩
    · obtain ⟨identity, isCommit⟩ := otherInput.identity
      rw [same, isCommit] at isRecord
      cases isRecord
    · exact .inr (.inl (head.union otherHead))
    · exact absurd ⟨otherTop, otherSpec.member, otherSpec.oldest_onChain (same ▸ isRecord)⟩ unreached
  · rcases second.kind with otherInput | otherHead | ⟨otherTop, otherSpec⟩
    · obtain ⟨identity, isCommit⟩ := otherInput.identity
      obtain ⟨_, _, _, _, isRecord⟩ := spec.identity
      rw [same, isCommit] at isRecord
      cases isRecord
    · obtain ⟨oldest, isRecord, unreached⟩ := otherHead.identity
      exact absurd ⟨top, spec.member, spec.oldest_onChain (same.trans isRecord)⟩ unreached
    · exact .inr (.inr ⟨top, spec.union otherSpec same⟩)

theorem of_lists (ok : GroupOk bucket unserved other) (absentEnd : Option RecordKey) :
    GroupOk bucket unserved { other with absentEnd := absentEnd } := by
  refine ⟨⟨ok.spares.commits, ok.spares.data⟩, ?_⟩
  rcases ok.kind with input | head | ⟨top, spec⟩
  · exact .inl ⟨input.identity, input.noRecords⟩
  · exact .inr (.inl ⟨head.identity, head.records, head.below⟩)
  · exact .inr (.inr ⟨top, spec.member, spec.free, spec.identity, spec.holds, spec.cases, spec.joinedBefore,
      spec.joinedFirst, spec.below, spec.inputs⟩)

/-- A second gather of a group is folded in. -/
theorem absorbDuplicate (first : GroupOk bucket unserved group) (second : GroupOk bucket unserved other)
    (same : group.identity = other.identity) : GroupOk bucket unserved (group.absorbDuplicate other) := by
  rw [SupersededGroup.absorbDuplicate]
  split_ifs
  · exact first
  · rw [show group.identity = other.identity from same]
    exact second.of_lists _
  · exact first.union second same

end GroupOk

end Ravel.Maintain
