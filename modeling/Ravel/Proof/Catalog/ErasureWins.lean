import Ravel.Proof.Catalog.BucketCoverage

namespace Ravel.Catalog

open List Library

/-- Some chain of the bucket's rewrites reaches the key. -/
def Bucket.Reached (bucket : Bucket) : RecordKey → Prop :=
  ReachedByRewrite bucket.compactions bucket.rewrites

/-- The identity is an effective input of a rewrite of the bucket. -/
def Bucket.Erased (bucket : Bucket) : InputIdentity → Prop :=
  ErasedInput bucket.compactions bucket.rewrites

/-- A rewrite of the bucket dominates the version 2 record. -/
def Bucket.Dominates (bucket : Bucket) : CompactionRecord → Prop :=
  IsDominated bucket.compactions bucket.rewrites

/-- The bucket's resolution serves the parts of the record. -/
def Bucket.Serves (bucket : Bucket) (record : CompactionRecord) : Prop :=
  ∃ resolved, resolveBucket bucket.compactions bucket.rewrites = .ok resolved ∧
    record ∈ resolved.servedCompactions bucket.compactions

/-- A compaction record whose inputs meet a rewrite's effective inputs is on the rewrite's chain, or leads to it by
the records that it and its predecessors name. -/
def Bucket.ChainBound (bucket : Bucket) : Prop :=
  ∀ record ∈ bucket.compactions, ∀ rewrite ∈ bucket.rewrites, ∀ identity ∈ record.inputs,
    EffectiveInput bucket.compactions bucket.rewrites (.rewrite rewrite) identity →
      Reaches bucket.compactions bucket.rewrites (.rewrite rewrite) record.key ∨
        Dominated bucket.compactions (Reaches bucket.compactions bucket.rewrites (.rewrite rewrite)) record

/-- What it means that erasure wins in a bucket. -/
structure ErasureWins (bucket : Bucket) (out : SegmentMap) : Prop where
  keysNodup : (out.map Prod.fst).Nodup
  /-- No served record is reached by a rewrite, dominated by one, or names an effective input. -/
  served : ∀ record, bucket.Serves record → record ∈ bucket.compactions ∧ ¬bucket.Reached record.key ∧
    ¬bucket.Dominates record ∧ ∀ identity ∈ record.inputs, ¬bucket.Erased identity
  /-- A segment is a part of a served record, a part of a rewrite that no rewrite reaches, or a raw commit that no
  rewrite erases. -/
  segments : ∀ key segment, out.lookup key = some segment → segment.dataObjectKey = key ∧
    ((∃ record, bucket.Serves record ∧ ∃ part ∈ record.parts, segment = buildL1SegmentRef record part) ∨
      (∃ record ∈ bucket.rewrites, ¬bucket.Reached record.key ∧
        ∃ part ∈ record.parts, segment = buildRewriteL1SegmentRef record part) ∨
      ∃ commit ∈ bucket.commits, ¬bucket.Erased commit.identity ∧ segment = l0Ref commit)
  /-- Under the keys of a superseded record's parts there is nothing but a part of a live rewrite. -/
  supersededCompactions : ∀ record ∈ bucket.compactions, bucket.Reached record.key ∨ bucket.Dominates record →
    ∀ part ∈ record.parts, ∀ segment, out.lookup (partKey record.inputSetHash part) = some segment →
      ∃ rewrite ∈ bucket.rewrites, ¬bucket.Reached rewrite.key ∧
        ∃ other ∈ rewrite.parts, segment = buildRewriteL1SegmentRef rewrite other
  /-- Under the keys of a superseded rewrite's parts there is nothing but a part of a served record. -/
  supersededRewrites : ∀ rewrite ∈ bucket.rewrites, bucket.Reached rewrite.key →
    ∀ part ∈ rewrite.parts, ∀ segment, out.lookup (partKey rewrite.inputSetHash part) = some segment →
      ∃ record, bucket.Serves record ∧ ∃ other ∈ record.parts, segment = buildL1SegmentRef record other
  /-- An erased commit is not served raw. -/
  erasedCommits : ∀ commit ∈ bucket.commits, bucket.Erased commit.identity → out.lookup commit.dataKey = none
  /-- Every other commit is served raw and in no record, or is not served raw and in exactly one record. -/
  otherCommits : ∀ commit ∈ bucket.commits, ¬bucket.Erased commit.identity →
    (out.lookup commit.dataKey = some (l0Ref commit) ∧
      ∀ record, bucket.Serves record → commit.identity ∉ record.inputs) ∨
    (out.lookup commit.dataKey = none ∧ ∃! record, bucket.Serves record ∧ commit.identity ∈ record.inputs)
  /-- Every part of a served record has a segment of that record under its key. -/
  servedParts : ∀ record, bucket.Serves record → ∀ part ∈ record.parts, ∃ kept ∈ record.parts,
    out.lookup (partKey record.inputSetHash part) = some (buildL1SegmentRef record kept)
  /-- Every part of a rewrite that no rewrite reaches is served. -/
  liveRewrites : ∀ rewrite ∈ bucket.rewrites, ¬bucket.Reached rewrite.key → ∀ part ∈ rewrite.parts,
    ∃ segment, out.lookup (partKey rewrite.inputSetHash part) = some segment ∧
      ((∃ kept ∈ rewrite.parts, segment = buildRewriteL1SegmentRef rewrite kept) ∨
        ∃ record, bucket.Serves record ∧ ∃ other ∈ record.parts, segment = buildL1SegmentRef record other)

theorem Dominated.mono {compactions : List CompactionRecord} {fewer more : RecordKey → Prop}
    (implies : ∀ key, fewer key → more key) {record : CompactionRecord} (dominated : Dominated compactions fewer record) :
    Dominated compactions more record := by
  induction dominated with
  | reached member names isReached => exact .reached member names (implies _ isReached)
  | dominated member names _ ih => exact .dominated member names ih

/-- The executable form of the condition, for buckets whose chains end. -/
def Bucket.checkChainBound (bucket : Bucket) : Bool :=
  bucket.rewrites.all fun rewrite =>
    match resolveRewriteSupersession bucket.compactions bucket.rewrites ⟨[], []⟩ rewrite with
    | .error _ => false
    | .ok exclusions =>
      let dominated :=
        dominationRounds bucket.compactions exclusions.supersededRecords (bucket.compactions.length + 1) []
      bucket.compactions.all fun record =>
        record.inputs.all (fun identity => decide (identity ∉ exclusions.excluded)) ||
          (decide (record.key ∈ exclusions.supersededRecords) || decide (record.key ∈ dominated))

theorem chainBound_of_check {bucket : Bucket} (checked : bucket.checkChainBound = true) : bucket.ChainBound := by
  intro record member rewrite rewriteMember identity named effective
  have passes := all_eq_true.mp checked rewrite rewriteMember
  cases chased : resolveRewriteSupersession bucket.compactions bucket.rewrites ⟨[], []⟩ rewrite with
  | error failure =>
    rw [chased] at passes
    cases passes
  | ok exclusions =>
    rw [chased] at passes
    have adds := chase_adds chased
    have superseded : ∀ key, key ∈ exclusions.supersededRecords ↔
        Reaches bucket.compactions bucket.rewrites (.rewrite rewrite) key := by
      intro key
      rw [adds.superseded]
      simp
    have holds := all_eq_true.mp passes record member
    rw [Bool.or_eq_true, Bool.or_eq_true, all_eq_true, decide_eq_true_eq, decide_eq_true_eq] at holds
    rcases holds with apart | reached | dominated
    · have outside := of_decide_eq_true (apart identity named)
      exact absurd ((adds.excluded identity).mpr (.inr effective)) outside
    · exact .inl ((superseded _).mp reached)
    · obtain ⟨other, isDominated, same⟩ := (mem_dominationRounds_iff superseded _).mp dominated
      rw [inj_on_of_nodup_map bucket.compactionsNodup isDominated.mem member same] at isDominated
      exact .inr isDominated

section Resolved

variable {bucket : Bucket} {resolved : ResolvedBucket}

theorem serves_iff (resolves : resolveBucket bucket.compactions bucket.rewrites = .ok resolved)
    {record : CompactionRecord} :
    bucket.Serves record ↔ record ∈ resolved.servedCompactions bucket.compactions := by
  constructor
  · intro ⟨other, otherResolves, served⟩
    rw [resolves, Except.ok.injEq] at otherResolves
    rw [otherResolves]
    exact served
  · intro served
    exact ⟨resolved, resolves, served⟩

theorem serves_eq_of_shared (spec : Resolves bucket.compactions bucket.rewrites resolved)
    {left right : CompactionRecord} (leftServed : left ∈ resolved.servedCompactions bucket.compactions)
    (rightServed : right ∈ resolved.servedCompactions bucket.compactions) {identity : InputIdentity}
    (inLeft : identity ∈ left.inputs) (inRight : identity ∈ right.inputs) : left = right := by
  rw [spec.mem_servedCompactions_iff bucket.compactionsNodup] at leftServed rightServed
  exact authoritative_eq_of_overlaps (keysNodup_undominated bucket.compactionsNodup _) leftServed.1 rightServed.1
    ⟨identity, inLeft, inRight⟩

/-- A served record is present, not reached, not dominated, and shares no effective input. -/
theorem served_untouched (bound : bucket.ChainBound) (spec : Resolves bucket.compactions bucket.rewrites resolved)
    {record : CompactionRecord} (served : record ∈ resolved.servedCompactions bucket.compactions) :
    record ∈ bucket.compactions ∧ ¬bucket.Reached record.key ∧ ¬bucket.Dominates record ∧
      ∀ identity ∈ record.inputs, ¬bucket.Erased identity := by
  rw [spec.mem_servedCompactions_iff bucket.compactionsNodup] at served
  obtain ⟨authority, unreached⟩ := served
  obtain ⟨member, undominated⟩ := (spec.mem_undominated_iff bucket.compactionsNodup).mp authority.1.1
  refine ⟨member, unreached, undominated, ?_⟩
  intro identity named ⟨rewrite, rewriteMember, effective⟩
  rcases bound record member rewrite rewriteMember identity named effective with reaches | leads
  · exact unreached ⟨rewrite, rewriteMember, reaches⟩
  · exact undominated (leads.mono fun key reaches => ⟨rewrite, rewriteMember, reaches⟩)

/-- A commit that is not erased is excluded exactly when a served record names it. -/
theorem mem_excludedInputs_iff_served (spec : Resolves bucket.compactions bucket.rewrites resolved)
    {identity : InputIdentity} (kept : ¬bucket.Erased identity) :
    identity ∈ resolved.excludedInputs bucket.compactions ↔
      ∃ record ∈ resolved.servedCompactions bucket.compactions, identity ∈ record.inputs := by
  rw [spec.mem_excludedInputs_iff bucket.compactionsNodup]
  constructor
  · intro excluded
    rcases excluded with erased | ⟨record, authority, named⟩
    · exact absurd erased kept
    · refine ⟨record, (spec.mem_servedCompactions_iff bucket.compactionsNodup).mpr ⟨authority, ?_⟩, named⟩
      intro reached
      have member := ((spec.mem_undominated_iff bucket.compactionsNodup).mp authority.1.1).1
      exact kept (erasedInput_of_reached bucket.compactionsNodup member reached named)
  · intro ⟨record, served, named⟩
    exact .inr ⟨record, ((spec.mem_servedCompactions_iff bucket.compactionsNodup).mp served).1, named⟩

theorem segment_origin (resolves : resolveBucket bucket.compactions bucket.rewrites = .ok resolved)
    (spec : Resolves bucket.compactions bucket.rewrites resolved) {key : DataObjectKey} {segment : SegmentRef}
    (found : ((resolved.segments bucket).find? fun segment => segment.dataObjectKey = key) = some segment) :
    segment.dataObjectKey = key ∧
    ((∃ record, bucket.Serves record ∧ ∃ part ∈ record.parts, segment = buildL1SegmentRef record part) ∨
      (∃ record ∈ bucket.rewrites, ¬bucket.Reached record.key ∧
        ∃ part ∈ record.parts, segment = buildRewriteL1SegmentRef record part) ∨
      ∃ commit ∈ bucket.commits, ¬bucket.Erased commit.identity ∧ segment = l0Ref commit) := by
  obtain ⟨offered, same⟩ := find_segment found
  refine ⟨same, ?_⟩
  rcases mem_segments_iff.mp offered with ⟨record, served, part, member, rfl⟩ | ⟨rewrite, served, part, member, rfl⟩ |
    ⟨commit, served, rfl⟩
  · exact .inl ⟨record, (serves_iff resolves).mpr served, part, member, rfl⟩
  · obtain ⟨listed, unreached⟩ := spec.mem_servedRewrites_iff.mp served
    exact .inr (.inl ⟨rewrite, listed, unreached, part, member, rfl⟩)
  · obtain ⟨listed, kept⟩ := mem_filter.mp served
    refine .inr (.inr ⟨commit, listed, ?_, rfl⟩)
    intro erased
    exact of_decide_eq_true kept ((spec.mem_excludedInputs_iff bucket.compactionsNodup).mpr (.inl erased))

end Resolved

/-- In a bucket whose overlaps with erased inputs lead to the rewrites' chains, erasure wins. -/
theorem erasure_wins_in_bucket (bucket : Bucket) (tombstoneFree : bucket.hasTombstone = false)
    (bound : bucket.ChainBound) (out : SegmentMap) (processed : processBucket bucket .unbounded = .ok out) :
    ErasureWins bucket out := by
  obtain ⟨resolved, resolves⟩ := resolveBucket_of_processBucket tombstoneFree processed
  have spec := resolveBucket_resolves bucket.compactionsNodup resolves
  obtain ⟨same, again, served⟩ := processBucket_resolved tombstoneFree resolves
  rw [processed, Except.ok.injEq] at again
  subst again
  refine ⟨processBucket_nodup processed, ?_, ?_, ?_, ?_, ?_, ?_, ?_, ?_⟩
  · intro record isServed
    exact served_untouched bound spec ((serves_iff resolves).mp isServed)
  · intro key segment found
    rw [served] at found
    exact segment_origin resolves spec found
  · intro record member superseded part _ segment found
    rw [served] at found
    obtain ⟨sameKey, origin⟩ := segment_origin resolves spec found
    rcases origin with ⟨other, otherServed, otherPart, _, rfl⟩ | fromRewrite | ⟨commit, _, _, rfl⟩
    · have equal := servedCompactions_eq_of_hash resolved bucket member ((serves_iff resolves).mp otherServed)
        (DataObjectKey.l1.inj sameKey).1
      obtain ⟨-, unreached, undominated, -⟩ := served_untouched bound spec ((serves_iff resolves).mp otherServed)
      rw [equal] at unreached undominated
      rcases superseded with reached | dominated
      · exact absurd reached unreached
      · exact absurd dominated undominated
    · exact fromRewrite
    · cases sameKey
  · intro rewrite member reached part _ segment found
    rw [served] at found
    obtain ⟨sameKey, origin⟩ := segment_origin resolves spec found
    rcases origin with fromRecord | ⟨other, listed, unreached, otherPart, _, rfl⟩ | ⟨commit, _, _, rfl⟩
    · exact fromRecord
    · have equal : other = rewrite := inj_on_of_nodup_map bucket.rewritesNodup listed member
        (congrArg RecordKey.rewrite (DataObjectKey.l1.inj sameKey).1)
      rw [equal] at unreached
      exact absurd reached unreached
    · cases sameKey
  · intro commit listed erased
    rw [served, find_commit listed,
      if_pos ((spec.mem_excludedInputs_iff bucket.compactionsNodup).mpr (.inl erased))]
  · intro commit listed kept
    rw [served, find_commit listed]
    by_cases covered : ∃ record ∈ resolved.servedCompactions bucket.compactions, commit.identity ∈ record.inputs
    · rw [if_pos ((mem_excludedInputs_iff_served spec kept).mpr covered)]
      obtain ⟨record, isServed, named⟩ := covered
      refine .inr ⟨rfl, record, ⟨(serves_iff resolves).mpr isServed, named⟩, ?_⟩
      intro other ⟨otherServed, otherNamed⟩
      exact serves_eq_of_shared spec ((serves_iff resolves).mp otherServed) isServed otherNamed named
    · rw [if_neg fun excluded => covered ((mem_excludedInputs_iff_served spec kept).mp excluded)]
      exact .inl ⟨rfl, fun record isServed named => covered ⟨record, (serves_iff resolves).mp isServed, named⟩⟩
  · intro record isServed part member
    obtain ⟨kept, keptIn, -, found⟩ := find_served_part ((serves_iff resolves).mp isServed) member
    exact ⟨kept, keptIn, (served _).trans found⟩
  · intro rewrite listed unreached part member
    have present := find_rewrite_part (spec.mem_servedRewrites_iff.mpr ⟨listed, unreached⟩) member
    obtain ⟨segment, found⟩ := Option.isSome_iff_exists.mp present
    refine ⟨segment, (served _).trans found, ?_⟩
    obtain ⟨sameKey, origin⟩ := segment_origin resolves spec found
    rcases origin with fromRecord | ⟨other, otherListed, _, otherPart, otherMember, rfl⟩ | ⟨commit, _, _, rfl⟩
    · exact .inr fromRecord
    · have equal : other = rewrite := inj_on_of_nodup_map bucket.rewritesNodup otherListed listed
        (congrArg RecordKey.rewrite (DataObjectKey.l1.inj sameKey).1)
      subst equal
      exact .inl ⟨otherPart, otherMember, rfl⟩
    · cases sameKey

/-- Two re-encodes of an absent record, one of them erased twice, beside an untouched record and a raw commit. -/
def twiceErasedBucket : Bucket where
  hasTombstone := false
  commits := (List.range 4).map fun seq => ⟨⟨"w", 1, seq⟩, seq * 2 ^ 192, 0, 9, 0⟩
  compactions := [
    ⟨[⟨"w", 1, 0⟩, ⟨"w", 1, 1⟩], 1 * 2 ^ 192, some (.compaction 9), [⟨0, 7, 0, 9⟩], 0⟩,
    ⟨[⟨"w", 1, 0⟩, ⟨"w", 1, 1⟩], 2 * 2 ^ 192, some (.compaction 9), [⟨0, 8, 0, 9⟩], 0⟩,
    ⟨[⟨"w", 1, 2⟩], 3 * 2 ^ 192, none, [⟨0, 6, 0, 9⟩], 0⟩]
  rewrites := [
    ⟨[], 4 * 2 ^ 192, some (.compaction 1), [], [⟨0, 5, 0, 9⟩], 0, .refl true⟩,
    ⟨[], 5 * 2 ^ 192, some (.rewrite 4), [], [⟨0, 4, 0, 9⟩], 0, .refl true⟩]
  commitsNodup := by decide
  compactionsNodup := by decide
  rewritesNodup := by decide
  namesCompaction := by simp

theorem erasure_wins_in_twice_erased_bucket :
    ∃ out, processBucket twiceErasedBucket .unbounded = .ok out ∧
      out.map Prod.fst = [.l1 3 0 0, .l1 5 0 0, .l0 ⟨"w", 1, 3⟩ 3] ∧ ErasureWins twiceErasedBucket out := by
  refine ⟨_, rfl, by decide +kernel, ?_⟩
  exact erasure_wins_in_bucket twiceErasedBucket rfl (chainBound_of_check (by decide +kernel)) _ rfl

end Ravel.Catalog
