import Mathlib.Data.Finset.Max
import Ravel.Proof.Catalog.ResolvedBucket

namespace Ravel.Catalog

open List Library

/-- Every key of the map stands in it once. -/
theorem nodup_foldl_include (range : TimeRange) (segments : List SegmentRef) {out : SegmentMap}
    (distinct : (out.map Prod.fst).Nodup) :
    ((segments.foldl (SegmentMap.include range) out).map Prod.fst).Nodup := by
  induction segments generalizing out with
  | nil => exact distinct
  | cons segment rest ih =>
    refine ih ?_
    rw [SegmentMap.include]
    split_ifs with inRange present
    · exact distinct
    · rw [Bool.not_eq_true, Option.isSome_eq_false_iff, Option.isNone_iff_eq_none] at present
      rw [map_append, nodup_append]
      refine ⟨distinct, nodup_singleton _, ?_⟩
      intro key listed other single same
      rw [map_singleton, mem_singleton] at single
      obtain ⟨entry, member, rfl⟩ := mem_map.mp listed
      have absent := lookup_eq_none_iff.mp present entry member
      rw [bne_iff_ne] at absent
      exact absent (single.symm.trans same.symm)
    · exact distinct

theorem processBucket_nodup {bucket : Bucket} {range : TimeRange} {out : SegmentMap}
    (served : processBucket bucket range = .ok out) : (out.map Prod.fst).Nodup := by
  rw [processBucket] at served
  by_cases tombstone : bucket.hasTombstone = true
  · rw [if_pos tombstone] at served
    cases served
    exact nodup_nil
  · rw [if_neg tombstone] at served
    by_cases bare : (bucket.compactions.isEmpty && bucket.rewrites.isEmpty) = true
    · rw [if_pos bare] at served
      cases served
      exact nodup_foldl_include range _ nodup_nil
    · rw [if_neg bare] at served
      obtain ⟨resolved, resolves, served⟩ := ok_of_bind served
      cases served
      exact nodup_foldl_include range _ nodup_nil

theorem undominated_nil (compactions : List CompactionRecord) : undominated compactions [] = compactions := by
  rw [undominated, filter_eq_self]
  intro record _
  simp

theorem resolveBucket_without_rewrites {compactions : List CompactionRecord} {selection : AuthoritativeSelection}
    (selected : selectAuthoritativeCompactionRecords compactions = .ok selection) :
    resolveBucket compactions [] = .ok ⟨⟨[], []⟩, [], selection⟩ := by
  change (selectAuthoritativeCompactionRecords (undominated compactions []) >>= fun selection =>
    pure (⟨⟨[], []⟩, [], selection⟩ : ResolvedBucket)) = _
  rw [undominated_nil, selected]
  rfl

/-- What it means that a map serves each raw commit of a bucket once, with a set of records whose parts are served. -/
structure CoversOnce (bucket : Bucket) (served : CompactionRecord → Prop) (out : SegmentMap) : Prop where
  /-- The map holds each key once. -/
  keysNodup : (out.map Prod.fst).Nodup
  servedPresent : ∀ record, served record → record ∈ bucket.compactions
  /-- A commit is served raw and in no record, or is not served raw and in exactly one record. -/
  commits : ∀ commit ∈ bucket.commits,
    (out.lookup commit.dataKey = some (l0Ref commit) ∧ ∀ record, served record → commit.identity ∉ record.inputs) ∨
      (out.lookup commit.dataKey = none ∧ ∃! record, served record ∧ commit.identity ∈ record.inputs)
  /-- Every part of a served record has a segment of that record under its key. -/
  parts : ∀ record, served record → ∀ part ∈ record.parts, ∃ kept ∈ record.parts,
    out.lookup (partKey record.inputSetHash part) = some (buildL1SegmentRef record kept)
  /-- Parts of other records are not served. -/
  otherParts : ∀ record ∈ bucket.compactions, ¬served record → ∀ part ∈ record.parts,
    out.lookup (partKey record.inputSetHash part) = none
  /-- A segment is a part of a served record or a raw commit. -/
  segments : ∀ key segment, out.lookup key = some segment → segment.dataObjectKey = key ∧
    ((∃ record, served record ∧ ∃ part ∈ record.parts, segment = buildL1SegmentRef record part) ∨
      ∃ commit ∈ bucket.commits, segment = l0Ref commit)
  disjoint : ∀ left right, served left → served right → left ≠ right → ∀ identity ∈ left.inputs,
    identity ∉ right.inputs
  /-- No present version 2 record names a served record. -/
  unnamed : ∀ record, served record → ∀ other ∈ bucket.compactions, other.supersededRecordKey ≠ some record.key

section NoRewrites

variable {bucket : Bucket} {selection : AuthoritativeSelection}

/-- The records that the selection keeps. -/
def Kept (bucket : Bucket) (selection : AuthoritativeSelection) (record : CompactionRecord) : Prop :=
  record ∈ bucket.compactions ∧ selection.isExcluded record.key = false

theorem kept_iff_authoritative (selects : Selects bucket.compactions selection) {record : CompactionRecord} :
    Kept bucket selection record ↔ Authoritative bucket.compactions record := by
  constructor
  · intro ⟨member, kept⟩
    exact (selects.isExcluded_iff bucket.compactionsNodup member).mp kept
  · intro authority
    exact ⟨authority.1.1, (selects.isExcluded_iff bucket.compactionsNodup authority.1.1).mpr authority⟩

/-- The resolution of a bucket without rewrites. -/
abbrev selectionOnly (selection : AuthoritativeSelection) : ResolvedBucket :=
  ⟨⟨[], []⟩, [], selection⟩

theorem mem_servedCompactions_selectionOnly {record : CompactionRecord} :
    record ∈ (selectionOnly selection).servedCompactions bucket.compactions ↔ Kept bucket selection record := by
  simp [ResolvedBucket.servedCompactions, Kept]

theorem mem_excludedInputs_selectionOnly {identity : InputIdentity} :
    identity ∈ (selectionOnly selection).excludedInputs bucket.compactions ↔
      ∃ record, Kept bucket selection record ∧ identity ∈ record.inputs := by
  simp [ResolvedBucket.excludedInputs, undominated_nil, Kept, and_assoc]

theorem Kept.eq_of_shared (selects : Selects bucket.compactions selection) {left right : CompactionRecord}
    (leftKept : Kept bucket selection left) (rightKept : Kept bucket selection right) {identity : InputIdentity}
    (inLeft : identity ∈ left.inputs) (inRight : identity ∈ right.inputs) : left = right :=
  authoritative_eq_of_overlaps bucket.compactionsNodup ((kept_iff_authoritative selects).mp leftKept)
    ((kept_iff_authoritative selects).mp rightKept) ⟨identity, inLeft, inRight⟩

theorem coversOnce_of_lookup (selects : Selects bucket.compactions selection) {out : SegmentMap}
    (keysNodup : (out.map Prod.fst).Nodup)
    (served : ∀ key, out.lookup key =
      ((selectionOnly selection).segments bucket).find? fun segment => segment.dataObjectKey = key)
    (noRewrites : bucket.rewrites = []) : CoversOnce bucket (Kept bucket selection) out where
  keysNodup := keysNodup
  servedPresent := fun record kept => kept.1
  commits := by
    intro commit listed
    rw [served, find_commit listed]
    by_cases covered : ∃ record, Kept bucket selection record ∧ commit.identity ∈ record.inputs
    · rw [if_pos (mem_excludedInputs_selectionOnly.mpr covered)]
      obtain ⟨record, kept, named⟩ := covered
      refine .inr ⟨rfl, record, ⟨kept, named⟩, ?_⟩
      intro other ⟨otherKept, otherNamed⟩
      exact Kept.eq_of_shared selects otherKept kept otherNamed named
    · rw [if_neg fun excluded => covered (mem_excludedInputs_selectionOnly.mp excluded)]
      exact .inl ⟨rfl, fun record kept named => covered ⟨record, kept, named⟩⟩
  parts := by
    intro record kept part member
    obtain ⟨keptPart, inParts, _, found⟩ :=
      find_served_part (mem_servedCompactions_selectionOnly.mpr kept) member
    exact ⟨keptPart, inParts, (served _).trans found⟩
  otherParts := by
    intro record listed dropped part member
    rw [served, find?_eq_none]
    intro segment offered
    rw [decide_eq_true_eq]
    intro same
    rcases mem_segments_iff.mp offered with ⟨other, kept, otherPart, _, rfl⟩ | ⟨rewrite, kept, _, _, rfl⟩ |
      ⟨commit, _, rfl⟩
    · have equal := servedCompactions_eq_of_hash _ bucket listed kept (DataObjectKey.l1.inj same).1
      exact dropped (mem_servedCompactions_selectionOnly.mp (equal ▸ kept))
    · have present := (mem_filter.mp kept).1
      rw [noRewrites] at present
      cases present
    · cases same
  segments := by
    intro key segment found
    rw [served] at found
    obtain ⟨offered, same⟩ := find_segment found
    refine ⟨same, ?_⟩
    rcases mem_segments_iff.mp offered with ⟨record, kept, part, member, rfl⟩ | ⟨rewrite, kept, _, _, rfl⟩ |
      ⟨commit, kept, rfl⟩
    · exact .inl ⟨record, mem_servedCompactions_selectionOnly.mp kept, part, member, rfl⟩
    · have present := (mem_filter.mp kept).1
      rw [noRewrites] at present
      cases present
    · exact .inr ⟨commit, (mem_filter.mp kept).1, rfl⟩
  disjoint := by
    intro left right leftKept rightKept distinct identity inLeft inRight
    exact distinct (Kept.eq_of_shared selects leftKept rightKept inLeft inRight)
  unnamed := by
    intro record kept other listed names
    have live := ((kept_iff_authoritative selects).mp kept).1
    exact live.2 ⟨other, listed, record, kept.1, names, rfl⟩

end NoRewrites

/-- A bucket without tombstone and rewrites whose selection succeeds serves each raw commit once, and the selection
does not depend on the order of the records. -/
theorem bucket_covers_each_commit_once (bucket : Bucket) (tombstoneFree : bucket.hasTombstone = false)
    (noRewrites : bucket.rewrites = []) (selection : AuthoritativeSelection)
    (selected : selectAuthoritativeCompactionRecords bucket.compactions = .ok selection) :
    (∃ out, processBucket bucket .unbounded = .ok out ∧ CoversOnce bucket (Kept bucket selection) out) ∧
      ∀ listed : List CompactionRecord, listed.Perm bucket.compactions →
        ∃ others, selectAuthoritativeCompactionRecords listed = .ok others ∧ others.Agrees selection := by
  have selects := select_selects bucket.compactionsNodup selected
  have resolves : resolveBucket bucket.compactions bucket.rewrites = .ok (selectionOnly selection) := by
    rw [noRewrites]
    exact resolveBucket_without_rewrites selected
  obtain ⟨out, processed, served⟩ := processBucket_resolved tombstoneFree resolves
  refine ⟨⟨out, processed, ?_⟩, ?_⟩
  · exact coversOnce_of_lookup selects (processBucket_nodup processed) served noRewrites
  · intro listed reordered
    exact select_perm bucket.compactionsNodup reordered selected

/-- Six commits; a version 2 record over a present predecessor, one over an absent one, and two records that overlap
the first. -/
def overlappingBucket : Bucket where
  hasTombstone := false
  commits := (List.range 6).map fun seq => ⟨⟨"w", 1, seq⟩, seq * 2 ^ 192, 0, 9, 0⟩
  compactions := [
    ⟨[⟨"w", 1, 0⟩, ⟨"w", 1, 1⟩], 1 * 2 ^ 192, none, [⟨0, 7, 0, 9⟩], 0⟩,
    ⟨[⟨"w", 1, 1⟩, ⟨"w", 1, 0⟩], 2 * 2 ^ 192, some (.compaction 1), [⟨0, 8, 0, 9⟩], 0⟩,
    ⟨[⟨"w", 1, 1⟩, ⟨"w", 1, 2⟩], 3 * 2 ^ 192, none, [⟨0, 9, 0, 9⟩], 0⟩,
    ⟨[⟨"w", 1, 3⟩], 4 * 2 ^ 192, some (.compaction 77), [⟨0, 5, 0, 9⟩], 0⟩,
    ⟨[⟨"w", 1, 2⟩, ⟨"w", 1, 4⟩], 5 * 2 ^ 192, none, [⟨0, 6, 0, 9⟩], 0⟩]
  rewrites := []
  commitsNodup := by decide
  compactionsNodup := by decide
  rewritesNodup := by decide
  namesCompaction := by simp

theorem overlapping_bucket_covers_each_commit_once :
    ∃ selection, selectAuthoritativeCompactionRecords overlappingBucket.compactions = .ok selection ∧
      selection.losing = [.compaction 3, .compaction 5] ∧
      (∃ out, processBucket overlappingBucket .unbounded = .ok out ∧
        CoversOnce overlappingBucket (Kept overlappingBucket selection) out) := by
  refine ⟨⟨[.compaction 1], [.compaction 3, .compaction 5], 3⟩, by rfl, rfl, ?_⟩
  exact (bucket_covers_each_commit_once overlappingBucket rfl rfl _ (by rfl)).1

/-- The authoritative records are the live ones of least rank among those connected to them. -/
theorem authoritative_iff_least {records : List CompactionRecord} {record : CompactionRecord} :
    Authoritative records record ↔ IsLive records record ∧
      ∀ other, IsLive records other → Connected (IsLive records) other record → authorityKey record ≤ authorityKey other := by
  constructor
  · rintro ⟨live, kept⟩
    refine ⟨live, fun other otherLive connected => ?_⟩
    by_contra above
    exact kept ⟨live, other, otherLive, connected, not_le.mp above⟩
  · rintro ⟨live, least⟩
    refine ⟨live, ?_⟩
    rintro ⟨-, winner, winnerLive, connected, below⟩
    exact absurd (least winner winnerLive connected) (not_le.mpr below)

/-- Every set of records that resolves: a record is served exactly when no version 2 record names it and no live record
joined to it by overlaps outranks it, and each class of joined records has exactly one served record. -/
theorem one_served_per_component (records : List CompactionRecord) (selection : AuthoritativeSelection)
    (distinct : KeysNodup records) (selected : selectAuthoritativeCompactionRecords records = .ok selection) :
    (∀ record ∈ records, selection.isExcluded record.key = false ↔ IsLive records record ∧
      ∀ other, IsLive records other → Connected (IsLive records) other record → authorityKey record ≤ authorityKey other) ∧
      ∀ record, IsLive records record → ∃! winner, winner ∈ records ∧ selection.isExcluded winner.key = false ∧
        Connected (IsLive records) winner record := by
  have selects := select_selects distinct selected
  have served : ∀ record ∈ records, selection.isExcluded record.key = false ↔ IsLive records record ∧ ∀ other,
      IsLive records other → Connected (IsLive records) other record → authorityKey record ≤ authorityKey other := by
    intro record member
    rw [selects.isExcluded_iff distinct member, authoritative_iff_least]
  refine ⟨served, fun record live => ?_⟩
  classical
  have joined : (records.toFinset.filter fun other => IsLive records other ∧
      Connected (IsLive records) other record).Nonempty :=
    ⟨record, Finset.mem_filter.mpr ⟨mem_toFinset.mpr live.1, live, .refl record⟩⟩
  obtain ⟨winner, inside, least⟩ := Finset.exists_min_image _ authorityKey joined
  simp only [Finset.mem_filter, mem_toFinset] at inside least
  obtain ⟨member, winnerLive, connected⟩ := inside
  refine ⟨winner, ⟨member, (served winner member).mpr ⟨winnerLive, ?_⟩, connected⟩, ?_⟩
  · intro other otherLive joins
    exact least other ⟨otherLive.1, otherLive, joins.trans _ _ _ connected⟩
  · rintro other ⟨otherMember, otherServed, joins⟩
    obtain ⟨otherLive, otherLeast⟩ := (served other otherMember).mp otherServed
    have across : Connected (IsLive records) winner other := connected.trans _ _ _ (joins.symm _ _)
    have sameRank := le_antisymm (otherLeast winner winnerLive across) (least other ⟨otherMember, otherLive, joins⟩)
    exact inj_on_of_nodup_map distinct otherMember member (key_eq_of_authorityKey_eq sameRank)

theorem overlapping_bucket_serves_one_of_three :
    ∃ selection, selectAuthoritativeCompactionRecords overlappingBucket.compactions = .ok selection ∧
      ∃ record ∈ overlappingBucket.compactions, ∃! winner, winner ∈ overlappingBucket.compactions ∧
        selection.isExcluded winner.key = false ∧ Connected (IsLive overlappingBucket.compactions) winner record := by
  refine ⟨⟨[.compaction 1], [.compaction 3, .compaction 5], 3⟩, by rfl, ?_⟩
  obtain ⟨served, one⟩ := one_served_per_component _ _ overlappingBucket.compactionsNodup (by rfl)
  have second : overlappingBucket.compactions[1] ∈ overlappingBucket.compactions := mem_cons_of_mem _ mem_cons_self
  exact ⟨_, second, one _ ((served _ second).mp (by decide)).1⟩

end Ravel.Catalog
