import Ravel.Proof.Catalog.Domination
import Ravel.Proof.Catalog.SelectionOrder

namespace Ravel.Catalog

open List Library

theorem overlaps_unbounded (range : TimeRange) : range.overlaps .unbounded = true := by
  rw [TimeRange.overlaps, Bool.and_eq_true, decide_eq_true_eq, decide_eq_true_eq]
  exact ⟨Int64.le_maxValue _, Int64.minValue_le _⟩

theorem lookup_foldl_include (segments : List SegmentRef) (out : SegmentMap) (key : DataObjectKey) :
    (segments.foldl (SegmentMap.include .unbounded) out).lookup key =
      (out.lookup key).or (segments.find? fun segment => segment.dataObjectKey = key) := by
  induction segments generalizing out with
  | nil => simp
  | cons segment rest ih =>
    rw [foldl_cons, ih, SegmentMap.include, if_pos (overlaps_unbounded _), find?_cons]
    by_cases same : segment.dataObjectKey = key
    · rw [decide_eq_true same]
      cases present : out.lookup segment.dataObjectKey with
      | some value =>
        rw [Option.isSome_some, if_pos rfl, ← same, present]
        rfl
      | none =>
        rw [if_neg (by simp), lookup_append, ← same, present]
        simp
    · rw [decide_eq_false same]
      cases present : out.lookup segment.dataObjectKey with
      | some value => rw [Option.isSome_some, if_pos rfl]
      | none =>
        rw [if_neg (by simp), lookup_append]
        have absent : List.lookup key [(segment.dataObjectKey, segment)] = none := by
          simp [Ne.symm same]
        rw [absent, Option.or_none]

/-- A bucket without a tombstone offers the segments of its resolution to the map. -/
theorem processBucket_eq {bucket : Bucket} (tombstoneFree : bucket.hasTombstone = false) {resolved : ResolvedBucket}
    (resolves : resolveBucket bucket.compactions bucket.rewrites = .ok resolved) (range : TimeRange) :
    processBucket bucket range = .ok ((resolved.segments bucket).foldl (SegmentMap.include range) []) := by
  rw [processBucket, tombstoneFree, if_neg Bool.false_ne_true]
  by_cases bare : (bucket.compactions.isEmpty && bucket.rewrites.isEmpty) = true
  · obtain ⟨noCompactions, noRewrites⟩ := Bool.and_eq_true_iff.mp bare
    rw [List.isEmpty_iff] at noCompactions noRewrites
    rw [noCompactions, noRewrites] at resolves
    cases resolves
    have segments : ResolvedBucket.segments ⟨⟨[], []⟩, [], ⟨[], [], 0⟩⟩ bucket = bucket.commits.map l0Ref := by
      simp [ResolvedBucket.segments, ResolvedBucket.servedCompactions, ResolvedBucket.servedRewrites,
        ResolvedBucket.servedCommits, ResolvedBucket.excludedInputs, noCompactions, noRewrites, undominated]
    rw [if_pos bare]
    exact congrArg (fun offered => Except.ok (offered.foldl (SegmentMap.include range) [])) segments.symm
  · rw [if_neg bare, resolves]
    rfl

/-- A bucket without a tombstone serves the segments of its resolution. -/
theorem processBucket_resolved {bucket : Bucket} (tombstoneFree : bucket.hasTombstone = false)
    {resolved : ResolvedBucket} (resolves : resolveBucket bucket.compactions bucket.rewrites = .ok resolved) :
    ∃ out, processBucket bucket .unbounded = .ok out ∧
      ∀ key, out.lookup key = (resolved.segments bucket).find? fun segment => segment.dataObjectKey = key := by
  refine ⟨_, processBucket_eq tombstoneFree resolves .unbounded, ?_⟩
  intro key
  rw [lookup_foldl_include]
  rfl

theorem resolveBucket_of_processBucket {bucket : Bucket} (tombstoneFree : bucket.hasTombstone = false)
    {range : TimeRange} {out : SegmentMap} (served : processBucket bucket range = .ok out) :
    ∃ resolved, resolveBucket bucket.compactions bucket.rewrites = .ok resolved := by
  rw [processBucket, tombstoneFree] at served
  by_cases bare : (bucket.compactions.isEmpty && bucket.rewrites.isEmpty) = true
  · obtain ⟨noCompactions, noRewrites⟩ := Bool.and_eq_true_iff.mp bare
    rw [List.isEmpty_iff] at noCompactions noRewrites
    rw [noCompactions, noRewrites]
    exact ⟨_, rfl⟩
  · rw [if_neg bare] at served
    cases resolves : resolveBucket bucket.compactions bucket.rewrites with
    | error failure =>
      rw [resolves] at served
      cases served
    | ok resolved => exact ⟨resolved, rfl⟩

section Served

variable {bucket : Bucket} {resolved : ResolvedBucket}

theorem mem_segments_iff {segment : SegmentRef} :
    segment ∈ resolved.segments bucket ↔
      (∃ record ∈ resolved.servedCompactions bucket.compactions, ∃ part ∈ record.parts,
        buildL1SegmentRef record part = segment) ∨
      (∃ record ∈ resolved.servedRewrites bucket.rewrites, ∃ part ∈ record.parts,
        buildRewriteL1SegmentRef record part = segment) ∨
      ∃ commit ∈ resolved.servedCommits bucket, l0Ref commit = segment := by
  simp only [ResolvedBucket.segments, mem_append, mem_flatMap, mem_map, or_assoc]

theorem servedCompactions_eq_of_hash (resolved : ResolvedBucket) (bucket : Bucket) {left right : CompactionRecord}
    (leftIn : left ∈ bucket.compactions) (rightIn : right ∈ resolved.servedCompactions bucket.compactions)
    (same : hash16 right.inputSetHash = hash16 left.inputSetHash) : right = left :=
  inj_on_of_nodup_map bucket.compactionsNodup (mem_filter.mp rightIn).1 leftIn
    (congrArg RecordKey.compaction same)

/-- A raw commit is served under its own key, or nothing is. -/
theorem find_commit {commit : CommitRecord} (listed : commit ∈ bucket.commits) :
    ((resolved.segments bucket).find? fun segment => segment.dataObjectKey = commit.dataKey) =
      if commit.identity ∈ resolved.excludedInputs bucket.compactions then none else some (l0Ref commit) := by
  have unique : ∀ segment ∈ resolved.segments bucket, segment.dataObjectKey = commit.dataKey →
      segment = l0Ref commit ∧ commit ∈ resolved.servedCommits bucket := by
    intro segment member same
    rcases mem_segments_iff.mp member with ⟨record, _, part, _, rfl⟩ | ⟨record, _, part, _, rfl⟩ | ⟨other, served, rfl⟩
    · cases same
    · cases same
    · have identity : other.identity = commit.identity := (DataObjectKey.l0.inj same).1
      have equal := inj_on_of_nodup_map bucket.commitsNodup (mem_filter.mp served).1 listed identity
      exact ⟨congrArg l0Ref equal, equal ▸ served⟩
  by_cases excluded : commit.identity ∈ resolved.excludedInputs bucket.compactions
  · rw [if_pos excluded, find?_eq_none]
    intro segment member
    rw [decide_eq_true_eq]
    intro same
    have served := (mem_filter.mp (unique segment member same).2).2
    exact absurd excluded (of_decide_eq_true served)
  · rw [if_neg excluded]
    have offered : l0Ref commit ∈ resolved.segments bucket :=
      mem_segments_iff.mpr (.inr (.inr ⟨commit, mem_filter.mpr ⟨listed, decide_eq_true excluded⟩, rfl⟩))
    cases found : (resolved.segments bucket).find? fun segment => segment.dataObjectKey = commit.dataKey with
    | none =>
      have absent := find?_eq_none.mp found _ offered
      exact absurd (decide_eq_true rfl) absent
    | some segment =>
      have same := find?_some found
      rw [decide_eq_true_eq] at same
      rw [(unique segment (mem_of_find?_eq_some found) same).1]

/-- A part of a served compaction record is served by a part of that record with its key. -/
theorem find_served_part {record : CompactionRecord} (served : record ∈ resolved.servedCompactions bucket.compactions)
    {part : CompactionPart} (member : part ∈ record.parts) :
    ∃ kept ∈ record.parts, partKey record.inputSetHash kept = partKey record.inputSetHash part ∧
      ((resolved.segments bucket).find? fun segment => segment.dataObjectKey = partKey record.inputSetHash part) =
        some (buildL1SegmentRef record kept) := by
  have offered : buildL1SegmentRef record part ∈ ((resolved.servedCompactions bucket.compactions).flatMap
      fun record => record.parts.map (buildL1SegmentRef record)) :=
    mem_flatMap.mpr ⟨record, served, mem_map.mpr ⟨part, member, rfl⟩⟩
  rw [ResolvedBucket.segments, append_assoc, find?_append]
  cases found : ((resolved.servedCompactions bucket.compactions).flatMap fun record =>
      record.parts.map (buildL1SegmentRef record)).find? fun segment =>
        segment.dataObjectKey = partKey record.inputSetHash part with
  | none =>
    have absent := find?_eq_none.mp found _ offered
    exact absurd (decide_eq_true rfl) absent
  | some segment =>
    have same := find?_some found
    rw [decide_eq_true_eq] at same
    obtain ⟨other, otherServed, inParts⟩ := mem_flatMap.mp (mem_of_find?_eq_some found)
    obtain ⟨kept, keptIn, rfl⟩ := mem_map.mp inParts
    have equal := servedCompactions_eq_of_hash resolved bucket (mem_filter.mp served).1 otherServed
      (DataObjectKey.l1.inj same).1
    subst equal
    exact ⟨kept, keptIn, same, rfl⟩

theorem find_rewrite_part {record : RewriteRecord} (served : record ∈ resolved.servedRewrites bucket.rewrites)
    {part : CompactionPart} (member : part ∈ record.parts) :
    ((resolved.segments bucket).find? fun segment =>
      segment.dataObjectKey = partKey record.inputSetHash part).isSome = true := by
  rw [find?_isSome]
  exact ⟨buildRewriteL1SegmentRef record part,
    mem_segments_iff.mpr (.inr (.inl ⟨record, served, part, member, rfl⟩)), decide_eq_true rfl⟩

/-- Every served segment comes from a served record. -/
theorem find_segment {key : DataObjectKey} {segment : SegmentRef}
    (found : ((resolved.segments bucket).find? fun segment => segment.dataObjectKey = key) = some segment) :
    segment ∈ resolved.segments bucket ∧ segment.dataObjectKey = key := by
  have same := find?_some found
  rw [decide_eq_true_eq] at same
  exact ⟨mem_of_find?_eq_some found, same⟩

end Served

variable {compactions : List CompactionRecord} {rewrites : List RewriteRecord} {resolved : ResolvedBucket}

/-- The record is dominated by the rewrites of its bucket. -/
abbrev IsDominated (compactions : List CompactionRecord) (rewrites : List RewriteRecord) :
    CompactionRecord → Prop :=
  Dominated compactions (ReachedByRewrite compactions rewrites)

/-- What a resolution holds. -/
structure Resolves (compactions : List CompactionRecord) (rewrites : List RewriteRecord) (resolved : ResolvedBucket) :
    Prop where
  superseded : ∀ key, key ∈ resolved.exclusions.supersededRecords ↔ ReachedByRewrite compactions rewrites key
  excluded : ∀ identity, identity ∈ resolved.exclusions.excluded ↔ ErasedInput compactions rewrites identity
  dominated : ∀ key, key ∈ resolved.dominated ↔ ∃ record, IsDominated compactions rewrites record ∧ record.key = key
  selects : Selects (undominated compactions resolved.dominated) resolved.selection

theorem keysNodup_undominated (distinct : KeysNodup compactions) (dominated : List RecordKey) :
    KeysNodup (undominated compactions dominated) :=
  distinct.filter _

/-- The three stages of a resolution that succeeds. -/
theorem resolveBucket_ok (resolves : resolveBucket compactions rewrites = .ok resolved) :
    resolveRewrites compactions rewrites rewrites ⟨[], []⟩ = .ok resolved.exclusions ∧
      erasureDominatedCompactionRecords compactions rewrites = .ok resolved.dominated ∧
      selectAuthoritativeCompactionRecords (undominated compactions resolved.dominated) = .ok resolved.selection := by
  obtain ⟨exclusions, chased, resolves⟩ := ok_of_bind resolves
  obtain ⟨dominated, marked, resolves⟩ := ok_of_bind resolves
  obtain ⟨selection, selected, resolves⟩ := ok_of_bind resolves
  cases resolves
  exact ⟨chased, marked, selected⟩

theorem resolveBucket_resolves (distinct : KeysNodup compactions)
    (resolves : resolveBucket compactions rewrites = .ok resolved) : Resolves compactions rewrites resolved := by
  obtain ⟨chased, marked, selected⟩ := resolveBucket_ok resolves
  obtain ⟨superseded, excluded⟩ := resolveRewrites_spec chased
  exact ⟨superseded, excluded, mem_erasureDominated_iff marked,
    select_selects (keysNodup_undominated distinct _) selected⟩

namespace Resolves

section

variable (spec : Resolves compactions rewrites resolved)

include spec

theorem key_mem_dominated_iff (distinct : KeysNodup compactions) {record : CompactionRecord}
    (member : record ∈ compactions) : record.key ∈ resolved.dominated ↔ IsDominated compactions rewrites record := by
  rw [spec.dominated]
  constructor
  · intro ⟨other, isDominated, same⟩
    rw [inj_on_of_nodup_map distinct isDominated.mem member same] at isDominated
    exact isDominated
  · intro isDominated
    exact ⟨record, isDominated, rfl⟩

/-- The candidates for authority are the records that are not dominated. -/
theorem mem_undominated_iff (distinct : KeysNodup compactions) {record : CompactionRecord} :
    record ∈ undominated compactions resolved.dominated ↔
      record ∈ compactions ∧ ¬IsDominated compactions rewrites record := by
  rw [undominated, mem_filter, decide_eq_true_eq]
  exact and_congr_right fun member => not_congr (spec.key_mem_dominated_iff distinct member)

theorem mem_servedCompactions_iff (distinct : KeysNodup compactions) {record : CompactionRecord} :
    record ∈ resolved.servedCompactions compactions ↔
      Authoritative (undominated compactions resolved.dominated) record ∧
        ¬ReachedByRewrite compactions rewrites record.key := by
  rw [ResolvedBucket.servedCompactions, mem_filter, Bool.not_eq_true', Bool.or_eq_false_iff, Bool.or_eq_false_iff,
    decide_eq_false_iff_not, decide_eq_false_iff_not, spec.superseded]
  constructor
  · intro ⟨member, ⟨unreached, undominated⟩, kept⟩
    have candidate : record ∈ Catalog.undominated compactions resolved.dominated :=
      mem_filter.mpr ⟨member, decide_eq_true undominated⟩
    exact ⟨(spec.selects.isExcluded_iff (keysNodup_undominated distinct _) candidate).mp kept, unreached⟩
  · intro ⟨authority, unreached⟩
    have candidate := authority.1.1
    obtain ⟨member, undominated⟩ := mem_filter.mp candidate
    exact ⟨member, ⟨unreached, of_decide_eq_true undominated⟩,
      (spec.selects.isExcluded_iff (keysNodup_undominated distinct _) candidate).mpr authority⟩

theorem mem_servedRewrites_iff {record : RewriteRecord} : record ∈ resolved.servedRewrites rewrites ↔
      record ∈ rewrites ∧ ¬ReachedByRewrite compactions rewrites record.key := by
  rw [ResolvedBucket.servedRewrites, mem_filter, decide_eq_true_eq, spec.superseded]

/-- The raw inputs that are not served raw: those of the rewrites, and those of the authoritative records. -/
theorem mem_excludedInputs_iff (distinct : KeysNodup compactions) {identity : InputIdentity} :
    identity ∈ resolved.excludedInputs compactions ↔ ErasedInput compactions rewrites identity ∨
      ∃ record, Authoritative (undominated compactions resolved.dominated) record ∧ identity ∈ record.inputs := by
  rw [ResolvedBucket.excludedInputs, mem_append, spec.excluded, mem_flatMap]
  refine or_congr_right (exists_congr fun record => and_congr_left' ?_)
  rw [mem_filter, Bool.not_eq_true']
  constructor
  · intro ⟨candidate, kept⟩
    exact (spec.selects.isExcluded_iff (keysNodup_undominated distinct _) candidate).mp kept
  · intro authority
    exact ⟨authority.1.1, (spec.selects.isExcluded_iff (keysNodup_undominated distinct _) authority.1.1).mpr authority⟩

end

end Resolves

theorem erasedInput_of_reached (distinct : KeysNodup compactions) {record : CompactionRecord}
    (member : record ∈ compactions) (reached : ReachedByRewrite compactions rewrites record.key)
    {identity : InputIdentity} (named : identity ∈ record.inputs) : ErasedInput compactions rewrites identity := by
  obtain ⟨rewrite, rewriteMember, reaches⟩ := reached
  exact ⟨rewrite, rewriteMember, .inr ⟨record.key, .compaction record, reaches, linkAt_compaction distinct member, named⟩⟩

end Ravel.Catalog
