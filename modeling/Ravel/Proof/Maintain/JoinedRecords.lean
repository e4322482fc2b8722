import Ravel.Proof.Maintain.ChainWalks

namespace Ravel.Maintain

open List Catalog

/-- A list of joined keys: each was added because its record names a key of the group or a key joined before. -/
inductive Joins (compactions : List CompactionRecord) (group : List RecordKey) : List RecordKey → Prop
  | nil : Joins compactions group []
  | cons {key named : RecordKey} {joined : List RecordKey} {record : CompactionRecord}
      (found : compactionByKey compactions key = some record) (names : record.supersededRecordKey = some named)
      (leads : named ∈ group ∨ named ∈ joined) (outside : key ∉ group) (fresh : key ∉ joined)
      (earlier : Joins compactions group joined) : Joins compactions group (key :: joined)

section Rounds

variable {compactions : List CompactionRecord} {group : List RecordKey}

theorem Joins.nodup {joined : List RecordKey} (joins : Joins compactions group joined) : joined.Nodup := by
  induction joins with
  | nil => exact nodup_nil
  | cons _ _ _ _ fresh _ ih => exact nodup_cons.mpr ⟨fresh, ih⟩

/-- What a joined key was added for stands after it. -/
theorem Joins.at_split {joined earlier later : List RecordKey} {key : RecordKey}
    (joins : Joins compactions group joined) (split : joined = earlier ++ key :: later) :
    key ∉ group ∧ ∃ record named, compactionByKey compactions key = some record ∧
      record.supersededRecordKey = some named ∧ (named ∈ group ∨ named ∈ later) := by
  induction joins generalizing earlier with
  | nil => simp at split
  | cons found names leads outside _ _ ih =>
    cases earlier with
    | nil =>
      obtain ⟨rfl, rfl⟩ := cons.inj split
      exact ⟨outside, _, _, found, names, leads⟩
    | cons first rest => exact ih (cons.inj split).2

/-- A key of a round joins, or is settled and changes nothing. -/
theorem joinRound_cons (compactions : List CompactionRecord) (group : List RecordKey) (key : RecordKey)
    (rest joined : List RecordKey) :
    (joinRound compactions group (key :: rest) joined = joinRound compactions group rest joined ∧
      ∀ record named, compactionByKey compactions key = some record → record.supersededRecordKey = some named →
        named ∈ group ∨ named ∈ joined → key ∈ group ∨ key ∈ joined) ∨
    (joinRound compactions group (key :: rest) joined = joinRound compactions group rest (key :: joined) ∧
      ∃ record named, compactionByKey compactions key = some record ∧ record.supersededRecordKey = some named ∧
        (named ∈ group ∨ named ∈ joined) ∧ key ∉ group ∧ key ∉ joined) := by
  rw [joinRound]
  cases found : compactionByKey compactions key with
  | none => exact .inl ⟨rfl, fun _ _ absurd => (by cases absurd)⟩
  | some record =>
    dsimp only
    by_cases held : key ∈ group ∨ key ∈ joined
    · rw [if_pos held]
      exact .inl ⟨rfl, fun _ _ _ _ _ => held⟩
    · rw [if_neg held]
      by_cases leads : ∃ named ∈ record.supersededRecordKey, named ∈ group ∨ named ∈ joined
      · rw [if_pos leads]
        obtain ⟨named, names, why⟩ := leads
        exact .inr ⟨rfl, record, named, rfl, names, why, not_or.mp held⟩
      · rw [if_neg leads]
        refine .inl ⟨rfl, ?_⟩
        intro other named same names why
        cases same
        exact absurd ⟨named, names, why⟩ leads

/-- A round adds keys of its list in front, each for a reason. -/
theorem joinRound_extends (dominated : List RecordKey) {joined : List RecordKey}
    (joins : Joins compactions group joined) :
    joined <:+ joinRound compactions group dominated joined ∧
      Joins compactions group (joinRound compactions group dominated joined) ∧
      ∀ key ∈ joinRound compactions group dominated joined, key ∈ joined ∨ key ∈ dominated := by
  induction dominated generalizing joined with
  | nil => exact ⟨suffix_refl _, joins, fun _ inside => .inl inside⟩
  | cons key rest ih =>
    rcases joinRound_cons compactions group key rest joined with
      ⟨same, -⟩ | ⟨adds, record, named, found, names, leads, outside, fresh⟩
    · obtain ⟨suffix, result, listed⟩ := ih joins
      rw [same]
      exact ⟨suffix, result, fun other inside => (listed other inside).imp_right (mem_cons_of_mem _)⟩
    · obtain ⟨suffix, result, listed⟩ := ih (.cons found names leads outside fresh joins)
      rw [adds]
      refine ⟨(suffix_cons _ _).trans suffix, result, ?_⟩
      intro other inside
      rcases listed other inside with before | later
      · rcases mem_cons.mp before with rfl | earlier
        · exact .inr mem_cons_self
        · exact .inl earlier
      · exact .inr (mem_cons_of_mem _ later)

/-- Every dominated record that names a key of the group or a joined key is in the group or joined. -/
def JoinSettled (compactions : List CompactionRecord) (group dominated joined : List RecordKey) : Prop :=
  ∀ key ∈ dominated, ∀ record named, compactionByKey compactions key = some record →
    record.supersededRecordKey = some named → named ∈ group ∨ named ∈ joined → key ∈ group ∨ key ∈ joined

theorem settled_of_joinRound_eq {dominated joined : List RecordKey} (joins : Joins compactions group joined)
    (same : (joinRound compactions group dominated joined).length = joined.length) :
    JoinSettled compactions group dominated joined := by
  induction dominated with
  | nil =>
    intro key member
    cases member
  | cons key rest ih =>
    rcases joinRound_cons compactions group key rest joined with
      ⟨unchanged, settled⟩ | ⟨adds, record, named, found, names, leads, outside, fresh⟩
    · rw [unchanged] at same
      rw [JoinSettled, forall_mem_cons]
      exact ⟨settled, ih same⟩
    · rw [adds] at same
      have grows := (joinRound_extends rest (.cons found names leads outside fresh joins)).1.length_le
      rw [same, length_cons] at grows
      exact absurd grows (Nat.not_succ_le_self _)

theorem joinRounds_spec {dominated joined : List RecordKey} {rounds : Nat} (joins : Joins compactions group joined)
    (listed : ∀ key ∈ joined, key ∈ dominated) (enough : dominated.length < joined.length + rounds) :
    Joins compactions group (joinRounds compactions group dominated rounds joined) ∧
      JoinSettled compactions group dominated (joinRounds compactions group dominated rounds joined) := by
  induction rounds generalizing joined with
  | zero =>
    have bounded := (joins.nodup.subperm listed).length_le
    omega
  | succ rounds ih =>
    obtain ⟨suffix, result, added⟩ := joinRound_extends dominated joins
    rw [joinRounds]
    by_cases same : (joinRound compactions group dominated joined).length = joined.length
    · rw [if_pos same, ← suffix.eq_of_length same.symm]
      exact ⟨joins, settled_of_joinRound_eq joins same⟩
    · rw [if_neg same]
      refine ih result ?_ ?_
      · intro key inside
        exact (added key inside).elim (listed key) id
      · have grows := suffix.length_le
        omega

theorem joinRounds_settled (compactions : List CompactionRecord) (group dominated : List RecordKey) :
    Joins compactions group (joinRounds compactions group dominated (dominated.length + 1) []) ∧
      JoinSettled compactions group dominated
        (joinRounds compactions group dominated (dominated.length + 1) []) :=
  joinRounds_spec .nil (fun _ absurd => (by cases absurd)) (by simp)

end Rounds

section Joined

variable {bucket : Bucket} {top : RewriteRecord} {inGroup dominated : List RecordKey}

theorem Joins.joinedTo {joined : List RecordKey} (onChain : ∀ key, key ∈ inGroup ↔ OnChain bucket top key)
    (joins : Joins bucket.compactions inGroup joined) : ∀ key ∈ joined, JoinedTo bucket top key := by
  induction joins with
  | nil => simp
  | @cons key named joined record found names leads outside _ _ ih =>
    rw [forall_mem_cons]
    refine ⟨?_, ih⟩
    obtain ⟨member, same⟩ := compactionByKey_some found
    have reason : JoinedTo bucket top named ∨ OnChain bucket top named := by
      rcases leads with inside | before
      · exact .inr ((onChain named).mp inside)
      · exact .inl (ih named before)
    exact ⟨record, .of_names member names reason, same, fun on => outside ((onChain key).mpr on)⟩

variable (member : top ∈ bucket.rewrites) (onChain : ∀ key, key ∈ inGroup ↔ OnChain bucket top key)
  (isDominated : ∀ key, key ∈ dominated ↔ ∃ record, bucket.Dominates record ∧ record.key = key)

include member onChain isDominated

theorem LeadsTo.mem_joined {joined : List RecordKey} (settled : JoinSettled bucket.compactions inGroup dominated joined)
    {record : CompactionRecord} (leads : LeadsTo bucket top record) :
    record.key ∈ inGroup ∨ record.key ∈ joined := by
  induction leads with
  | @reached record named recordMember names reaches =>
    have dominates := JoinedTo.dominates member (.reached recordMember names reaches)
    exact settled _ ((isDominated _).mpr ⟨record, dominates, rfl⟩) record named
      (compactionByKey_of_mem bucket.compactionsNodup recordMember) names (.inl ((onChain named).mpr reaches))
  | @dominated record predecessor recordMember names inner ih =>
    have dominates := JoinedTo.dominates member (.dominated recordMember names inner)
    exact settled _ ((isDominated _).mpr ⟨record, dominates, rfl⟩) record predecessor.key
      (compactionByKey_of_mem bucket.compactionsNodup recordMember) names ih

/-- The rounds join exactly the records that lead to the chain and are not on it. -/
theorem mem_joined_iff (key : RecordKey) :
    key ∈ joinRounds bucket.compactions inGroup dominated (dominated.length + 1) [] ↔ JoinedTo bucket top key := by
  obtain ⟨joins, settled⟩ := joinRounds_settled bucket.compactions inGroup dominated
  constructor
  · exact joins.joinedTo onChain key
  · intro ⟨record, leads, same, off⟩
    rw [← same]
    rcases LeadsTo.mem_joined member onChain isDominated settled leads with inside | joined
    · rw [onChain, same] at inside
      exact absurd inside off
    · exact joined

theorem joined_before {earlier later : List RecordKey} {key : RecordKey}
    (split : joinRounds bucket.compactions inGroup dominated (dominated.length + 1) [] = earlier ++ key :: later)
    {record : CompactionRecord} (recordMember : record ∈ bucket.compactions)
    (names : record.supersededRecordKey = some key) : record.key ∈ earlier := by
  obtain ⟨joins, -⟩ := joinRounds_settled bucket.compactions inGroup dominated
  have joined : JoinedTo bucket top key := by
    rw [← mem_joined_iff member onChain isDominated, split]
    exact mem_append_right _ mem_cons_self
  have off : ¬OnChain bucket top record.key := by
    intro on
    obtain ⟨_, _, _, outside⟩ := joined
    exact outside (on.trans (recordAt_compaction recordMember) (.named names))
  have own : record.key ∈ joinRounds bucket.compactions inGroup dominated (dominated.length + 1) [] := by
    rw [mem_joined_iff member onChain isDominated]
    exact ⟨record, .of_names recordMember names (.inl joined), rfl, off⟩
  obtain ⟨front, after, ownSplit⟩ := append_of_mem own
  obtain ⟨-, found, named, isRecord, foundNames, leads⟩ := joins.at_split ownSplit
  rw [compactionByKey_of_mem bucket.compactionsNodup recordMember, Option.some.injEq] at isRecord
  rw [← isRecord, names, Option.some.injEq] at foundNames
  rw [← foundNames] at leads
  have behind : key ∈ after := leads.resolve_left (joins.at_split split).1
  have distinct := joins.nodup
  rw [split] at distinct
  exact mem_front_of_after distinct (split.symm.trans ownSplit) behind

end Joined

end Ravel.Maintain
