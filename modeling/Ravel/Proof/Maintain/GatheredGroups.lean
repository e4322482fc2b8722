import Ravel.Proof.Maintain.JoinedRecords

namespace Ravel.Maintain

open List Catalog Library

variable {bucket : Bucket} {unserved : InputIdentity → Prop}

section RawInputs

theorem mem_gatherL0Inputs {inputs : List InputIdentity} {group : SupersededGroup}
    (member : group ∈ gatherL0Inputs bucket inputs) :
    ∃ commit ∈ bucket.commits, commit.identity ∈ inputs ∧
      group = ⟨[commit.identity], [commit.dataKey], [], none, .commit commit.identity⟩ := by
  obtain ⟨identity, inside, found⟩ := mem_filterMap.mp member
  obtain ⟨commit, isCommit, rfl⟩ := Option.map_eq_some_iff.mp found
  have same := find?_some isCommit
  rw [decide_eq_true_eq] at same
  subst same
  exact ⟨commit, mem_of_find?_eq_some isCommit, inside, rfl⟩

theorem gatherL0Inputs_of_mem {inputs : List InputIdentity} {commit : CommitRecord} (listed : commit ∈ bucket.commits)
    (named : commit.identity ∈ inputs) :
    ⟨[commit.identity], [commit.dataKey], [], none, .commit commit.identity⟩ ∈ gatherL0Inputs bucket inputs := by
  refine mem_filterMap.mpr ⟨commit.identity, named, ?_⟩
  cases found : bucket.commits.find? fun other => other.identity = commit.identity with
  | none =>
    have absent := find?_eq_none.mp found commit listed
    simp at absent
  | some other =>
    have same := find?_some found
    rw [decide_eq_true_eq] at same
    rw [inj_on_of_nodup_map bucket.commitsNodup (mem_of_find?_eq_some found) listed same]
    rfl

theorem mem_rawInputKeys_commits {entry : ChainEntry} {inputs : List InputIdentity} {identity : InputIdentity}
    (member : identity ∈ (rawInputKeys bucket entry inputs).1) : identity ∈ inputs := by
  cases entry with
  | version2 => cases member
  | rewrite =>
    obtain ⟨group, inside, isKey⟩ := mem_flatMap.mp member
    obtain ⟨commit, -, named, rfl⟩ := mem_gatherL0Inputs inside
    rw [mem_singleton.mp isKey]
    exact named

theorem mem_rawInputKeys_data {entry : ChainEntry} {inputs : List InputIdentity} {key : DataObjectKey}
    (member : key ∈ (rawInputKeys bucket entry inputs).2) :
    ∃ commit ∈ bucket.commits, commit.identity ∈ inputs ∧ key = commit.dataKey := by
  cases entry with
  | version2 => cases member
  | rewrite =>
    obtain ⟨group, inside, isKey⟩ := mem_flatMap.mp member
    obtain ⟨commit, listed, named, rfl⟩ := mem_gatherL0Inputs inside
    exact ⟨commit, listed, named, mem_singleton.mp isKey⟩

theorem rawInputKeys_of_mem {inputs : List InputIdentity} {commit : CommitRecord} (listed : commit ∈ bucket.commits)
    (named : commit.identity ∈ inputs) : commit.identity ∈ (rawInputKeys bucket .rewrite inputs).1 :=
  mem_flatMap.mpr ⟨_, gatherL0Inputs_of_mem listed named, mem_singleton_self _⟩

/-- The groups of raw inputs that are not served. -/
theorem inputGroups_ok {inputs : List InputIdentity}
    (hidden : ∀ commit ∈ bucket.commits, commit.identity ∈ inputs → unserved commit.identity) :
    ∀ group ∈ gatherL0Inputs bucket inputs, GroupOk bucket unserved group := by
  intro group member
  obtain ⟨commit, listed, named, rfl⟩ := mem_gatherL0Inputs member
  refine ⟨⟨?_, ?_⟩, .inl ⟨⟨_, rfl⟩, rfl⟩⟩
  · intro identity inside
    rw [mem_singleton.mp inside]
    exact hidden commit listed named
  · intro key inside
    exact .inl ⟨commit, listed, hidden commit listed named, mem_singleton.mp inside⟩

end RawInputs

theorem mem_flatMap_partsAt {keys : List RecordKey} {key : DataObjectKey} (member : key ∈ keys.flatMap (partsAt bucket)) :
    ∃ name ∈ keys, ∃ link, recordAt bucket name = some link ∧ key ∈ partKeys link := by
  obtain ⟨name, inside, isPart⟩ := mem_flatMap.mp member
  obtain ⟨link, present, ofLink⟩ := mem_flatMap.mp isPart
  exact ⟨name, inside, link, Option.mem_toList.mp present, ofLink⟩

theorem retired_of_reached {name : RecordKey} {link : ChainLink} (present : recordAt bucket name = some link)
    (reached : bucket.Reached name) : Retired bucket link := by
  rcases linkAt_some present with ⟨record, _, rfl, rfl⟩ | ⟨record, _, rfl, rfl⟩
  · exact .inl reached
  · exact reached

section Heads

theorem below_undominated {successor : CompactionRecord} (member : successor ∈ bucket.compactions)
    (free : ¬bucket.Dominates successor) {start : RecordKey} (names : successor.supersededRecordKey = some start)
    {keys : List RecordKey} (line : Line bucket.compactions bucket.rewrites start keys) :
    ∀ key ∈ keys, ∃ record ∈ bucket.compactions, record.key = key ∧ ¬bucket.Reached key ∧ ¬bucket.Dominates record ∧
      ∃ successor ∈ bucket.compactions, ¬bucket.Dominates successor ∧ successor.supersededRecordKey = some key := by
  -- What an undominated record names is neither reached nor dominated, so the line goes on in the same way.
  have below : ∀ {upper : CompactionRecord} {key : RecordKey} {link : ChainLink}, upper ∈ bucket.compactions →
      ¬bucket.Dominates upper → upper.supersededRecordKey = some key → recordAt bucket key = some link →
      ∃ record ∈ bucket.compactions, record.key = key ∧ link = .compaction record ∧ ¬bucket.Reached key ∧
        ¬bucket.Dominates record := by
    intro upper key link upperMember upperFree upperNames present
    obtain ⟨inputSetHash16, rfl⟩ := bucket.namesCompaction upper upperMember key upperNames
    obtain ⟨record, recordMember, same, rfl⟩ := linkAt_of_compaction_key present
    refine ⟨record, recordMember, same, rfl, ?_, ?_⟩
    · intro reached
      exact upperFree (.reached upperMember upperNames reached)
    · intro dominates
      exact upperFree (.dominated upperMember (same ▸ upperNames) dominates)
  induction line generalizing successor with
  | absent _ => simp
  | last present _ =>
    obtain ⟨record, recordMember, same, -, unreached, recordFree⟩ := below member free names present
    intro key inside
    rw [mem_singleton.mp inside]
    exact ⟨record, recordMember, same, unreached, recordFree, successor, member, free, names⟩
  | step present next _ ih =>
    obtain ⟨record, recordMember, same, rfl, unreached, recordFree⟩ := below member free names present
    rw [forall_mem_cons]
    exact ⟨⟨record, recordMember, same, unreached, recordFree, successor, member, free, names⟩,
      ih recordMember recordFree next⟩

theorem headGroup_ok {head : CompactionRecord} (member : head ∈ bucket.compactions) (free : ¬bucket.Dominates head)
    {named : RecordKey} (names : head.supersededRecordKey = some named) {groups : List SupersededGroup}
    (gathered : gatherSupersededChain bucket .version2 false named = .ok (.gathered groups)) :
    ∀ group ∈ groups, GroupOk bucket unserved group := by
  obtain ⟨keys, inputs, absentEnd, walked, ⟨-, rfl⟩ | ⟨oldest, last, rfl⟩⟩ := gatherSupersededChain_spec gathered
  · simp
  · intro group inside
    rw [mem_singleton] at inside
    subst inside
    have records := below_undominated member free names walked.line
    have oldestMember := mem_of_getLast? last
    obtain ⟨link, present⟩ := walked.line.present oldestMember
    have noInputs : inputs = ([], []) := walked.inputs oldest link last present
    rw [noInputs]
    refine ⟨⟨fun _ absurd => (by cases absurd), ?_⟩, .inr (.inl ⟨⟨oldest, rfl, ?_⟩, ?_, ?_⟩)⟩
    · intro key isPart
      obtain ⟨name, onLine, found, foundPresent, ofFound⟩ := mem_flatMap_partsAt isPart
      obtain ⟨record, recordMember, rfl, -, -, successor⟩ := records name onLine
      refine .inr ⟨record.key, found, foundPresent, ?_, ofFound⟩
      rw [recordAt_compaction recordMember, Option.some.injEq] at foundPresent
      rw [← foundPresent]
      exact .inr (.inr successor)
    · obtain ⟨_, _, _, unreached, _⟩ := records oldest oldestMember
      exact unreached
    · intro key onLine
      exact records key (mem_reverse.mp onLine)
    · intro earlier key later split record recordMember same predecessor predecessorMember recordNames
      subst same
      exact reverse_line_below walked.line split (recordAt_compaction recordMember) (.named recordNames)
        (recordAt_compaction predecessorMember)

end Heads

section Rewrites

variable {top : RewriteRecord} {named : RecordKey} {keys : List RecordKey}
  {inputs : List InputIdentity × List DataObjectKey} {absentEnd : Option RecordKey}

/-- The group of a walk behind a rewrite, also when the walk passes no record. -/
def walkedGroup (bucket : Bucket) (named : RecordKey) (keys : List RecordKey)
    (inputs : List InputIdentity × List DataObjectKey) (absentEnd : Option RecordKey) : SupersededGroup :=
  ⟨inputs.1, inputs.2 ++ keys.flatMap (partsAt bucket), keys.reverse, absentEnd,
    .record (keys.getLast?.getD named)⟩

theorem Walked.onChain_iff (walked : Walked bucket .rewrite none named keys inputs absentEnd)
    (names : top.supersededRecordKey = some named) (key : RecordKey) :
    key ∈ keys.reverse ++ absentEnd.toList ↔ OnChain bucket top key := by
  have topNames : (ChainLink.rewrite top).named = some named := names
  rw [mem_append, mem_reverse, Option.mem_toList]
  constructor
  · intro inside
    rcases inside with onLine | absent
    · exact walked.line.reaches topNames onLine
    · exact ((walked.absent _ topNames key).mp absent).1
  · intro onChain
    cases present : recordAt bucket key with
    | none => exact .inr ((walked.absent _ topNames key).mpr ⟨onChain, present⟩)
    | some link => exact .inl (walked.line.mem_of_reaches topNames onChain present)

theorem Walked.erased_of_mem (walked : Walked bucket .rewrite none named keys inputs absentEnd)
    (member : top ∈ bucket.rewrites) (names : top.supersededRecordKey = some named) :
    ∃ given : List InputIdentity, inputs = rawInputKeys bucket .rewrite given ∧
      ∀ identity ∈ given, bucket.Erased identity := by
  cases last : keys.getLast? with
  | none =>
    refine ⟨[], ?_, by simp⟩
    rw [walked.noneInputs (getLast?_eq_none_iff.mp last), rawInputKeys_nil]
    rfl
  | some oldest =>
    have onLine := mem_of_getLast? last
    obtain ⟨link, present⟩ := walked.line.present onLine
    refine ⟨link.inputs, walked.inputs oldest link last present, ?_⟩
    intro identity inside
    have topNames : (ChainLink.rewrite top).named = some named := names
    exact ⟨top, member, .inr ⟨oldest, link, walked.line.reaches topNames onLine, present, inside⟩⟩

variable {dominated : List RecordKey}

theorem split_of_not_mem {joined records earlier later : List RecordKey} {key : RecordKey}
    (split : joined ++ records = earlier ++ key :: later) (outside : key ∉ joined) :
    ∃ between, earlier = joined ++ between ∧ records = between ++ key :: later := by
  rcases append_eq_append_iff.mp split with found | ⟨between, front, rest⟩
  · exact found
  · cases between with
    | nil => exact ⟨[], by simpa using front.symm, by simpa using rest.symm⟩
    | cons first more =>
      obtain ⟨rfl, -⟩ := cons.inj rest
      rw [front] at outside
      exact absurd (mem_append_right _ mem_cons_self) outside

theorem split_of_mem_left {joined records earlier later : List RecordKey} {key : RecordKey}
    (split : joined ++ records = earlier ++ key :: later) (outside : key ∉ records) :
    ∃ between, joined = earlier ++ key :: between := by
  rcases append_eq_append_iff.mp split with ⟨between, -, rest⟩ | ⟨between, front, rest⟩
  · rw [rest] at outside
    exact absurd (mem_append_right _ mem_cons_self) outside
  · cases between with
    | nil =>
      rw [nil_append] at rest
      rw [← rest] at outside
      exact absurd mem_cons_self outside
    | cons first more =>
      obtain ⟨rfl, -⟩ := cons.inj rest
      exact ⟨more, front⟩

theorem rewriteGroup_of_walked (member : top ∈ bucket.rewrites) (free : ¬bucket.Reached top.key)
    (names : top.supersededRecordKey = some named) (walked : Walked bucket .rewrite none named keys inputs absentEnd)
    (isDominated : ∀ key, key ∈ dominated ↔ ∃ record, bucket.Dominates record ∧ record.key = key) :
    RewriteGroup bucket top
      (joinDominated bucket.compactions dominated (walkedGroup bucket named keys inputs absentEnd)) := by
  have topNames : (ChainLink.rewrite top).named = some named := names
  have onChain := walked.onChain_iff names
  have joinedIff := mem_joined_iff member onChain isDominated
  have onLine : ∀ {key : RecordKey}, key ∈ keys.reverse → OnChain bucket top key :=
    fun inside => walked.line.reaches topNames (mem_reverse.mp inside)
  have offLine : ∀ {key : RecordKey}, JoinedTo bucket top key → key ∉ keys.reverse := by
    intro key ⟨_, _, _, off⟩ inside
    exact off (onLine inside)
  refine ⟨member, free, ⟨named, keys, names, walked.line, rfl⟩, ?_, ?_, ?_, ?_, ?_, ?_⟩
  · intro key held
    rcases held with joined | ⟨reaches, present⟩
    · exact mem_append_left _ ((joinedIff key).mpr joined)
    · obtain ⟨link, found⟩ := Option.isSome_iff_exists.mp present
      exact mem_append_right _ (mem_reverse.mpr (walked.line.mem_of_reaches topNames reaches found))
  · intro key inside
    rcases mem_append.mp inside with joined | passed
    · exact .inl ((joinedIff key).mp joined)
    · obtain ⟨link, found⟩ := walked.line.present (mem_reverse.mp passed)
      exact .inr (.inl ⟨onLine passed, Option.isSome_iff_exists.mpr ⟨link, found⟩⟩)
  · intro earlier key later split joined record recordMember recordNames
    obtain ⟨between, joinedSplit⟩ := split_of_mem_left split (offLine joined)
    exact joined_before member onChain isDominated joinedSplit recordMember recordNames
  · intro earlier key later split notJoined joined isJoined
    have outside := fun inside => notJoined ((joinedIff key).mp inside)
    obtain ⟨between, rfl, -⟩ := split_of_not_mem split outside
    exact mem_append_left _ ((joinedIff joined).mpr isJoined)
  · intro earlier key later split notJoined link lower present reaches lowerPresent
    have outside := fun inside => notJoined ((joinedIff key).mp inside)
    obtain ⟨between, rfl, passed⟩ := split_of_not_mem split outside
    obtain ⟨found, lowerFound⟩ := Option.isSome_iff_exists.mp lowerPresent
    exact mem_append_right _ (reverse_line_below walked.line passed present reaches lowerFound)
  · intro oldest link identity present commit listed inside
    cases last : keys.getLast? with
    | none =>
      have isNamed : named = oldest := by
        have same : SweepKey.record (keys.getLast?.getD named) = .record oldest := identity
        rw [last] at same
        exact SweepKey.record.inj same
      have gone := walked.line
      rw [getLast?_eq_none_iff.mp last, isNamed] at gone
      cases gone with
      | absent absent =>
        rw [show recordAt bucket oldest = none from absent] at present
        cases present
    | some found =>
      have same : SweepKey.record (keys.getLast?.getD named) = .record oldest := identity
      rw [last, Option.getD_some, SweepKey.record.injEq] at same
      subst same
      have given := walked.inputs found link last present
      change commit.identity ∈ inputs.1
      rw [given]
      exact rawInputKeys_of_mem listed inside

/-- The group behind a rewrite touches nothing served. -/
theorem spares_of_walked (member : top ∈ bucket.rewrites) (names : top.supersededRecordKey = some named)
    (walked : Walked bucket .rewrite none named keys inputs absentEnd)
    (isDominated : ∀ key, key ∈ dominated ↔ ∃ record, bucket.Dominates record ∧ record.key = key)
    (hidden : ∀ identity, bucket.Erased identity → unserved identity) :
    Spares bucket unserved
      (joinDominated bucket.compactions dominated (walkedGroup bucket named keys inputs absentEnd)) := by
  have topNames : (ChainLink.rewrite top).named = some named := names
  obtain ⟨given, rfl, erased⟩ := walked.erased_of_mem member names
  constructor
  · intro identity inside
    exact hidden identity (erased identity (mem_rawInputKeys_commits inside))
  · intro key inside
    rcases mem_append.mp inside with own | joined
    · rcases mem_append.mp own with raw | isPart
      · obtain ⟨commit, listed, isInput, rfl⟩ := mem_rawInputKeys_data raw
        exact .inl ⟨commit, listed, hidden _ (erased _ isInput), rfl⟩
      · obtain ⟨name, onLine, link, present, ofLink⟩ := mem_flatMap_partsAt isPart
        have reached : bucket.Reached name := ⟨top, member, walked.line.reaches topNames onLine⟩
        exact .inr ⟨name, link, present, retired_of_reached present reached, ofLink⟩
    · obtain ⟨name, isJoined, ofName⟩ := mem_flatMap.mp joined
      obtain ⟨record, found, ofRecord⟩ := mem_flatMap.mp ofName
      obtain ⟨recordMember, rfl⟩ := compactionByKey_some (Option.mem_toList.mp found)
      obtain ⟨other, leads, same, -⟩ :=
        (mem_joined_iff member (walked.onChain_iff names) isDominated record.key).mp isJoined
      rw [inj_on_of_nodup_map bucket.compactionsNodup leads.mem recordMember same] at leads
      exact .inr ⟨record.key, .compaction record, recordAt_compaction recordMember,
        .inr (.inl (JoinedTo.dominates member leads)), ofRecord⟩

theorem gathered_or_absent (names : top.supersededRecordKey = some named) {refuseLinks : Bool}
    {chain : List SupersededGroup}
    (gathered : gatherSupersededChain bucket .rewrite refuseLinks named = .ok (.gathered chain)) :
    ∃ keys inputs absentEnd, Walked bucket .rewrite none named keys inputs absentEnd ∧
      (if chain.isEmpty then [SupersededGroup.overAbsentPredecessor named] else chain) =
        [walkedGroup bucket named keys inputs absentEnd] := by
  obtain ⟨keys, inputs, absentEnd, walked, shape⟩ := gatherSupersededChain_spec gathered
  refine ⟨keys, inputs, absentEnd, walked, ?_⟩
  rcases shape with ⟨rfl, rfl⟩ | ⟨oldest, last, rfl⟩
  · have gone : recordAt bucket named = none := by
      cases walked.line with
      | absent gone => exact gone
    have atNamed := (walked.absent (.rewrite top) names named).mpr ⟨.named names, gone⟩
    rw [walked.noneInputs rfl, atNamed]
    rfl
  · rw [walkedGroup, last]
    rfl

theorem gatherRewrite_ok (member : top ∈ bucket.rewrites) (free : ¬bucket.Reached top.key) {version2 : Version2Groups}
    (isDominated : ∀ key, key ∈ version2.dominated ↔ ∃ record, bucket.Dominates record ∧ record.key = key)
    (hidden : ∀ identity, bucket.Erased identity → unserved identity) {groups : List SupersededGroup}
    (gathered : gatherRewrite bucket version2 top = .ok groups) : ∀ group ∈ groups, GroupOk bucket unserved group := by
  rw [gatherRewrite] at gathered
  split at gathered
  · cases gathered
    refine inputGroups_ok ?_
    intro commit _ named
    exact hidden _ ⟨top, member, .inl named⟩
  · cases names : top.supersededRecordKey with
    | none =>
      rw [names] at gathered
      cases gathered
      simp
    | some named =>
      rw [names] at gathered
      obtain ⟨result, walk, gathered⟩ := ok_of_bind gathered
      cases result with
      | refused reason =>
        simp only [walk, bind, Except.bind] at gathered
        cases gathered
        simp
      | gathered chain =>
        simp only [walk, bind, Except.bind] at gathered
        obtain ⟨keys, inputs, absentEnd, walked, same⟩ := gathered_or_absent names walk
        rw [same] at gathered
        cases gathered
        intro group inside
        obtain ⟨joined, -⟩ := mem_filter.mp inside
        rw [map_singleton, mem_singleton] at joined
        rw [joined]
        exact ⟨spares_of_walked member names walked isDominated hidden,
          .inr (.inr ⟨top, rewriteGroup_of_walked member free names walked isDominated⟩)⟩

end Rewrites

end Ravel.Maintain
