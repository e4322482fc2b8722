import Ravel.Proof.Catalog.RewriteChains

namespace Ravel.Catalog

open List Library

/-- A version 2 record whose predecessor, present or not, a rewrite reaches, or whose predecessor is dominated. -/
inductive Dominated (compactions : List CompactionRecord) (reached : RecordKey → Prop) : CompactionRecord → Prop
  | reached {record : CompactionRecord} {key : RecordKey} (member : record ∈ compactions)
      (names : record.supersededRecordKey = some key) (isReached : reached key) : Dominated compactions reached record
  | dominated {record predecessor : CompactionRecord} (member : record ∈ compactions)
      (names : record.supersededRecordKey = some predecessor.key)
      (isDominated : Dominated compactions reached predecessor) : Dominated compactions reached record

theorem Dominated.mem {compactions : List CompactionRecord} {reached : RecordKey → Prop} {record : CompactionRecord}
    (dominated : Dominated compactions reached record) : record ∈ compactions := by
  cases dominated with
  | reached member _ _ => exact member
  | dominated member _ _ => exact member

section Rounds

variable {rewriteSuperseded : List RecordKey}

/-- A record of a round is marked, or changes nothing. -/
theorem dominateOne_cases (rewriteSuperseded dominated : List RecordKey) (record : CompactionRecord) :
    (dominateOne rewriteSuperseded dominated record = dominated ∧
      ∀ named, record.supersededRecordKey = some named → named ∈ rewriteSuperseded ∨ named ∈ dominated →
        record.key ∈ dominated) ∨
    (dominateOne rewriteSuperseded dominated record = record.key :: dominated ∧ record.key ∉ dominated ∧
      ∃ named, record.supersededRecordKey = some named ∧ (named ∈ rewriteSuperseded ∨ named ∈ dominated)) := by
  rw [dominateOne]
  cases names : record.supersededRecordKey with
  | none => exact .inl ⟨rfl, fun _ absent => (by cases absent)⟩
  | some named =>
    by_cases marked : record.key ∈ dominated
    · exact .inl ⟨if_pos marked, fun _ _ _ => marked⟩
    · by_cases marks : named ∈ rewriteSuperseded ∨ named ∈ dominated
      · refine .inr ⟨?_, marked, named, rfl, marks⟩
        simp only [if_neg marked, if_pos marks]
      · refine .inl ⟨?_, ?_⟩
        · simp only [if_neg marked, if_neg marks]
        · intro other same fails
          cases same
          exact absurd fails marks

/-- A round keeps its marks, marks records of the list only, and marks each once. -/
structure RoundExtends (records : List CompactionRecord) (before after : List RecordKey) : Prop where
  suffix : before <:+ after
  nodup : before.Nodup → after.Nodup
  listed : ∀ key ∈ after, key ∈ before ∨ key ∈ records.map CompactionRecord.key

theorem round_extends (rewriteSuperseded : List RecordKey) (records : List CompactionRecord)
    (before : List RecordKey) :
    RoundExtends records before (records.foldl (dominateOne rewriteSuperseded) before) := by
  induction records generalizing before with
  | nil => exact ⟨suffix_refl _, id, fun _ inside => .inl inside⟩
  | cons record rest ih =>
    have extended := ih (dominateOne rewriteSuperseded before record)
    rw [foldl_cons]
    rcases dominateOne_cases rewriteSuperseded before record with ⟨same, -⟩ | ⟨marks, fresh, -⟩
    · rw [same] at extended ⊢
      refine ⟨extended.suffix, extended.nodup, ?_⟩
      intro key inside
      exact (extended.listed key inside).imp_right fun later => mem_cons_of_mem _ later
    · rw [marks] at extended ⊢
      refine ⟨(suffix_cons _ _).trans extended.suffix, ?_, ?_⟩
      · intro distinct
        exact extended.nodup (nodup_cons.mpr ⟨fresh, distinct⟩)
      · intro key inside
        rcases extended.listed key inside with earlier | later
        · rcases mem_cons.mp earlier with rfl | before
          · exact .inr mem_cons_self
          · exact .inl before
        · exact .inr (mem_cons_of_mem _ later)

variable {records : List CompactionRecord} {dominated : List RecordKey} {rounds : Nat} {reached : RecordKey → Prop}

/-- A round that marks nothing finds every record settled. -/
theorem settled_of_round_eq
    (same : (records.foldl (dominateOne rewriteSuperseded) dominated).length = dominated.length) :
    ∀ record ∈ records, ∀ named, record.supersededRecordKey = some named →
      named ∈ rewriteSuperseded ∨ named ∈ dominated → record.key ∈ dominated := by
  induction records with
  | nil => simp
  | cons record rest ih =>
    rw [foldl_cons] at same
    rcases dominateOne_cases rewriteSuperseded dominated record with ⟨unchanged, settled⟩ | ⟨marks, -, -⟩
    · rw [unchanged] at same
      rw [forall_mem_cons]
      exact ⟨settled, ih same⟩
    · rw [marks] at same
      have grows := (round_extends rewriteSuperseded rest (record.key :: dominated)).suffix.length_le
      rw [same, length_cons] at grows
      exact absurd grows (Nat.not_succ_le_self _)

theorem dominationRounds_settled (rewriteSuperseded : List RecordKey) (distinct : dominated.Nodup)
    (listed : ∀ key ∈ dominated, key ∈ records.map CompactionRecord.key)
    (enough : records.length < dominated.length + rounds) :
    ∀ record ∈ records, ∀ named, record.supersededRecordKey = some named →
      named ∈ rewriteSuperseded ∨ named ∈ dominationRounds records rewriteSuperseded rounds dominated →
        record.key ∈ dominationRounds records rewriteSuperseded rounds dominated := by
  induction rounds generalizing dominated with
  | zero =>
    have bounded := (distinct.subperm listed).length_le
    rw [length_map] at bounded
    omega
  | succ rounds ih =>
    have extended := round_extends rewriteSuperseded records dominated
    rw [dominationRounds]
    by_cases same : (records.foldl (dominateOne rewriteSuperseded) dominated).length = dominated.length
    · rw [if_pos same, ← extended.suffix.eq_of_length same.symm]
      exact settled_of_round_eq same
    · rw [if_neg same]
      refine ih (extended.nodup distinct) ?_ ?_
      · intro key inside
        exact (extended.listed key inside).elim (listed key) id
      · have grows := extended.suffix.length_le
        omega

theorem round_sound {compactions : List CompactionRecord} (isReached : ∀ key ∈ rewriteSuperseded, reached key)
    (members : ∀ record ∈ records, record ∈ compactions)
    (sound : ∀ key ∈ dominated, ∃ record, Dominated compactions reached record ∧ record.key = key) :
    ∀ key ∈ records.foldl (dominateOne rewriteSuperseded) dominated,
      ∃ record, Dominated compactions reached record ∧ record.key = key := by
  induction records generalizing dominated with
  | nil => exact sound
  | cons record rest ih =>
    rw [forall_mem_cons] at members
    rw [foldl_cons]
    refine ih members.2 ?_
    rcases dominateOne_cases rewriteSuperseded dominated record with ⟨same, -⟩ | ⟨marks, -, named, names, why⟩
    · rw [same]
      exact sound
    · rw [marks, forall_mem_cons]
      refine ⟨⟨record, ?_, rfl⟩, sound⟩
      rcases why with byRewrite | byDominated
      · exact .reached members.1 names (isReached named byRewrite)
      · obtain ⟨predecessor, isDominated, rfl⟩ := sound named byDominated
        exact .dominated members.1 names isDominated

theorem dominationRounds_sound {compactions : List CompactionRecord}
    (isReached : ∀ key ∈ rewriteSuperseded, reached key)
    (sound : ∀ key ∈ dominated, ∃ record, Dominated compactions reached record ∧ record.key = key) :
    ∀ key ∈ dominationRounds compactions rewriteSuperseded rounds dominated,
      ∃ record, Dominated compactions reached record ∧ record.key = key := by
  induction rounds generalizing dominated with
  | zero => exact sound
  | succ rounds ih =>
    have next := round_sound isReached (fun _ member => member) sound
    rw [dominationRounds]
    split_ifs with same
    · exact next
    · exact ih next

end Rounds

variable {compactions : List CompactionRecord} {rewrites : List RewriteRecord}

theorem mem_dominationRounds_iff {rewriteSuperseded : List RecordKey} {reached : RecordKey → Prop}
    (isReached : ∀ key, key ∈ rewriteSuperseded ↔ reached key) (key : RecordKey) :
    key ∈ dominationRounds compactions rewriteSuperseded (compactions.length + 1) [] ↔
      ∃ record, Dominated compactions reached record ∧ record.key = key := by
  constructor
  · exact dominationRounds_sound (fun other inside => (isReached other).mp inside) (by simp) key
  · intro ⟨record, isDominated, same⟩
    have enough : compactions.length < ([] : List RecordKey).length + (compactions.length + 1) := by simp
    have settled := dominationRounds_settled rewriteSuperseded nodup_nil (by simp) enough
    rw [← same]
    induction isDominated generalizing key with
    | reached member names reachedKey =>
      exact settled _ member _ names (.inl ((isReached _).mpr reachedKey))
    | dominated member names _ ih => exact settled _ member _ names (.inr (ih _ rfl))

theorem mem_erasureDominated_iff {dominated : List RecordKey}
    (resolved : erasureDominatedCompactionRecords compactions rewrites = .ok dominated) (key : RecordKey) :
    key ∈ dominated ↔
      ∃ record, Dominated compactions (ReachedByRewrite compactions rewrites) record ∧ record.key = key := by
  rw [erasureDominatedCompactionRecords] at resolved
  split at resolved
  · rename_i trivial
    cases resolved
    constructor
    · intro inside
      cases inside
    · intro ⟨record, isDominated, same⟩
      clear same
      exfalso
      rw [Bool.or_eq_true, List.isEmpty_iff, all_eq_true] at trivial
      rcases trivial with noRewrites | noVersion2
      · induction isDominated with
        | reached _ _ isReached =>
          obtain ⟨rewrite, member, -⟩ := isReached
          rw [noRewrites] at member
          cases member
        | dominated _ _ _ ih => exact ih
      · cases isDominated with
        | reached member names _ =>
          have none := noVersion2 record member
          rw [names] at none
          cases none
        | dominated member names _ =>
          have none := noVersion2 record member
          rw [names] at none
          cases none
  · obtain ⟨_, checked, resolved⟩ := ok_of_bind resolved
    obtain ⟨exclusions, chased, resolved⟩ := ok_of_bind resolved
    cases resolved
    exact mem_dominationRounds_iff (resolveRewrites_spec chased).1 key

end Ravel.Catalog
