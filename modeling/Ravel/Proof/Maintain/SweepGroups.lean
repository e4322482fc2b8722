import Ravel.Proof.Catalog.ChainLines
import Ravel.Proof.Catalog.ErasureWins
import Ravel.Proof.Maintain.DeleteOrder

namespace Ravel.Maintain

open Catalog

/-- The present record of the bucket at a key. -/
abbrev recordAt (bucket : Bucket) (key : RecordKey) : Option ChainLink :=
  linkAt bucket.compactions bucket.rewrites key

/-- The keys on the chain of a rewrite. -/
abbrev OnChain (bucket : Bucket) (top : RewriteRecord) (key : RecordKey) : Prop :=
  Reaches bucket.compactions bucket.rewrites (.rewrite top) key

/-- The version 2 records that lead to the chain of a rewrite. -/
abbrev LeadsTo (bucket : Bucket) (top : RewriteRecord) (record : CompactionRecord) : Prop :=
  Dominated bucket.compactions (OnChain bucket top) record

/-- A version 2 record that leads to the chain of a rewrite and is not on it. -/
def JoinedTo (bucket : Bucket) (top : RewriteRecord) (key : RecordKey) : Prop :=
  ∃ record, LeadsTo bucket top record ∧ record.key = key ∧ ¬OnChain bucket top key

/-- A record whose parts no resolution serves. -/
def Retired (bucket : Bucket) : ChainLink → Prop
  | .compaction record => bucket.Reached record.key ∨ bucket.Dominates record ∨
      ∃ successor ∈ bucket.compactions, ¬bucket.Dominates successor ∧ successor.supersededRecordKey = some record.key
  | .rewrite record => bucket.Reached record.key

/-- A group that touches nothing served: its commits are not served raw, and its parts are those of retired records. -/
structure Spares (bucket : Bucket) (unserved : InputIdentity → Prop) (group : SupersededGroup) : Prop where
  commits : ∀ identity ∈ group.recordKeys, unserved identity
  data : ∀ key ∈ group.dataKeys,
    (∃ commit ∈ bucket.commits, unserved commit.identity ∧ key = commit.dataKey) ∨
      ∃ name link, recordAt bucket name = some link ∧ Retired bucket link ∧ key ∈ partKeys link

/-- The group of one raw input. -/
structure InputGroup (group : SupersededGroup) : Prop where
  identity : ∃ identity, group.identity = .commit identity
  noRecords : group.chainRecordKeys = []

/-- The group below the head of a version 2 chain: superseded records, each after the one that it names. -/
structure HeadGroup (bucket : Bucket) (group : SupersededGroup) : Prop where
  identity : ∃ oldest, group.identity = .record oldest ∧ ¬bucket.Reached oldest
  records : ∀ key ∈ group.chainRecordKeys, ∃ record ∈ bucket.compactions, record.key = key ∧
    ¬bucket.Reached key ∧ ¬bucket.Dominates record ∧
    ∃ successor ∈ bucket.compactions, ¬bucket.Dominates successor ∧ successor.supersededRecordKey = some key
  below : ∀ earlier key later, group.chainRecordKeys = earlier ++ key :: later →
    ∀ record ∈ bucket.compactions, record.key = key → ∀ predecessor ∈ bucket.compactions,
      record.supersededRecordKey = some predecessor.key → predecessor.key ∈ earlier

/-- The group behind a rewrite that no rewrite reaches: the records on its chain, the version 2 records that lead to
the chain, and further rewrites whose chains run into it. -/
structure RewriteGroup (bucket : Bucket) (top : RewriteRecord) (group : SupersededGroup) : Prop where
  member : top ∈ bucket.rewrites
  free : ¬bucket.Reached top.key
  /-- The group is known by the oldest record of the chain, or by the absent record that the rewrite names. -/
  identity : ∃ start keys, top.supersededRecordKey = some start ∧
    Line bucket.compactions bucket.rewrites start keys ∧ group.identity = .record (keys.getLast?.getD start)
  holds : ∀ key, JoinedTo bucket top key ∨ OnChain bucket top key ∧ (recordAt bucket key).isSome →
    key ∈ group.chainRecordKeys
  cases : ∀ key ∈ group.chainRecordKeys, JoinedTo bucket top key ∨
    OnChain bucket top key ∧ (recordAt bucket key).isSome ∨
    ∃ record ∈ bucket.rewrites, record.key = key ∧ bucket.Reached key ∧
      ∃ oldest, group.identity = .record oldest ∧ OldestOf bucket.compactions bucket.rewrites key oldest
  /-- A record that names a joined one goes before it. -/
  joinedBefore : ∀ earlier key later, group.chainRecordKeys = earlier ++ key :: later → JoinedTo bucket top key →
    ∀ record ∈ bucket.compactions, record.supersededRecordKey = some key → record.key ∈ earlier
  /-- The joined records go before the others. -/
  joinedFirst : ∀ earlier key later, group.chainRecordKeys = earlier ++ key :: later → ¬JoinedTo bucket top key →
    ∀ joined, JoinedTo bucket top joined → joined ∈ earlier
  /-- Among the others, a record goes after all records on the chain below it. -/
  below : ∀ earlier key later, group.chainRecordKeys = earlier ++ key :: later → ¬JoinedTo bucket top key →
    ∀ link lower, recordAt bucket key = some link → Reaches bucket.compactions bucket.rewrites link lower →
      (recordAt bucket lower).isSome → lower ∈ earlier
  /-- The raw inputs of the oldest record are in the group. -/
  inputs : ∀ oldest link, group.identity = .record oldest → recordAt bucket oldest = some link →
    ∀ commit ∈ bucket.commits, commit.identity ∈ link.inputs → commit.identity ∈ group.recordKeys

/-- What every gathered group is. -/
structure GroupOk (bucket : Bucket) (unserved : InputIdentity → Prop) (group : SupersededGroup) : Prop where
  spares : Spares bucket unserved group
  kind : InputGroup group ∨ HeadGroup bucket group ∨ ∃ top, RewriteGroup bucket top group

/-- A version 2 record on some chain that names an absent record is on every chain that ends at this absent record,
of those rewrites that no rewrite reaches. -/
def EndsApart (bucket : Bucket) : Prop :=
  ∀ top ∈ bucket.rewrites, ¬bucket.Reached top.key → ∀ record ∈ bucket.compactions, bucket.Reached record.key →
    ∀ named, record.supersededRecordKey = some named → recordAt bucket named = none →
      OnChain bucket top named → OnChain bucket top record.key

variable {bucket : Bucket} {top : RewriteRecord} {group : SupersededGroup}

variable {record : CompactionRecord}

theorem recordAt_compaction (member : record ∈ bucket.compactions) :
    recordAt bucket record.key = some (.compaction record) :=
  linkAt_compaction bucket.compactionsNodup member

theorem recordAt_rewrite {record : RewriteRecord} (member : record ∈ bucket.rewrites) :
    recordAt bucket record.key = some (.rewrite record) :=
  linkAt_rewrite bucket.compactions bucket.rewritesNodup member

theorem JoinedTo.dominates (member : top ∈ bucket.rewrites) (leads : LeadsTo bucket top record) :
    bucket.Dominates record :=
  leads.mono fun _ reaches => ⟨top, member, reaches⟩

theorem LeadsTo.of_names (member : record ∈ bucket.compactions) {named : RecordKey}
    (names : record.supersededRecordKey = some named) (leads : JoinedTo bucket top named ∨ OnChain bucket top named) :
    LeadsTo bucket top record := by
  rcases leads with ⟨predecessor, leads, rfl, -⟩ | onChain
  · exact .dominated member names leads
  · exact .reached member names onChain

theorem LeadsTo.names (leads : LeadsTo bucket top record) :
    ∃ named, record.supersededRecordKey = some named ∧ (JoinedTo bucket top named ∨ OnChain bucket top named) := by
  cases leads with
  | reached _ names onChain => exact ⟨_, names, .inr onChain⟩
  | @dominated _ predecessor _ names inner =>
    refine ⟨predecessor.key, names, ?_⟩
    by_cases onChain : OnChain bucket top predecessor.key
    · exact .inr onChain
    · exact .inl ⟨predecessor, inner, rfl, onChain⟩

theorem LeadsTo.below (leads : LeadsTo bucket top record) {lower : RecordKey}
    (reaches : Reaches bucket.compactions bucket.rewrites (.compaction record) lower) :
    JoinedTo bucket top lower ∨ OnChain bucket top lower := by
  generalize start : ChainLink.compaction record = link at reaches
  induction reaches generalizing record with
  | named names =>
    subst start
    obtain ⟨named, same, result⟩ := leads.names
    rw [show record.supersededRecordKey = _ from names, Option.some.injEq] at same
    exact same ▸ result
  | through names present further ih =>
    subst start
    obtain ⟨named, same, result⟩ := leads.names
    rw [show record.supersededRecordKey = _ from names, Option.some.injEq] at same
    subst same
    rcases result with ⟨predecessor, inner, rfl, -⟩ | onChain
    · exact ih inner (Option.some.inj ((recordAt_compaction inner.mem).symm.trans present))
    · exact .inr (onChain.trans present further)

namespace RewriteGroup

theorem oldest_of_onChain (spec : RewriteGroup bucket top group) {key : RecordKey} (onChain : OnChain bucket top key)
    {link : ChainLink} (present : recordAt bucket key = some link) :
    ∃ oldest, group.identity = .record oldest ∧ OldestOf bucket.compactions bucket.rewrites key oldest := by
  obtain ⟨start, keys, names, line, identity⟩ := spec.identity
  have member := line.mem_of_reaches (show (ChainLink.rewrite top).named = some start from names) onChain present
  cases last : keys.getLast? with
  | none =>
    rw [List.getLast?_eq_none_iff] at last
    rw [last] at member
    cases member
  | some oldest =>
    rw [last] at identity
    exact ⟨oldest, identity, OldestOf.of_mem line member last⟩

theorem oldest_onChain (spec : RewriteGroup bucket top group) {oldest : RecordKey}
    (identity : group.identity = .record oldest) : OnChain bucket top oldest := by
  obtain ⟨start, keys, names, line, same⟩ := spec.identity
  rw [identity, SweepKey.record.injEq] at same
  cases last : keys.getLast? with
  | none =>
    rw [last, Option.getD_none] at same
    rw [same]
    exact .named names
  | some found =>
    rw [last, Option.getD_some] at same
    rw [same]
    exact line.reaches (show (ChainLink.rewrite top).named = some start from names) (List.mem_of_getLast? last)

theorem oldest_of_reached (spec : RewriteGroup bucket top group) (apart : EndsApart bucket) {key : RecordKey}
    {keys : List RecordKey} (line : Line bucket.compactions bucket.rewrites key keys)
    (member : key ∈ group.chainRecordKeys) (reached : bucket.Reached key) :
    ∃ oldest, group.identity = .record oldest ∧ OldestOf bucket.compactions bucket.rewrites key oldest := by
  rcases spec.cases key member with joined | ⟨onChain, present⟩ | ⟨_, _, _, _, older⟩
  · -- A joined record leads down to a present record on the chain; at an absent one it would be on the chain.
    induction line with
    | absent gone =>
      obtain ⟨record, leads, rfl, -⟩ := joined
      rw [linkAt_compaction bucket.compactionsNodup leads.mem] at gone
      cases gone
    | last present ends =>
      obtain ⟨record, leads, rfl, -⟩ := joined
      obtain ⟨named, names, -⟩ := leads.names
      rw [linkAt_compaction bucket.compactionsNodup leads.mem, Option.some.injEq] at present
      rw [← present] at ends
      rw [show record.supersededRecordKey = _ from ends] at names
      cases names
    | @step _ next _ _ present names _ ih =>
      obtain ⟨record, leads, rfl, offChain⟩ := joined
      rw [linkAt_compaction bucket.compactionsNodup leads.mem, Option.some.injEq] at present
      subst present
      have here := recordAt_compaction leads.mem
      obtain ⟨named, same, below⟩ := leads.names
      rw [show record.supersededRecordKey = _ from names, Option.some.injEq] at same
      subst same
      have nextReached : bucket.Reached next := ReachedByRewrite.next reached here names
      rcases below with joinedNext | onChain
      · have isJoined := joinedNext
        obtain ⟨predecessor, inner, rfl, -⟩ := isJoined
        obtain ⟨oldest, identity, older⟩ := ih (spec.holds _ (.inl joinedNext)) nextReached joinedNext
        exact ⟨oldest, identity, older.of_named here names (recordAt_compaction inner.mem)⟩
      · cases nextPresent : recordAt bucket next with
        | none =>
          exact absurd (apart top spec.member spec.free record leads.mem reached next names nextPresent onChain)
            offChain
        | some found =>
          obtain ⟨oldest, identity, older⟩ := spec.oldest_of_onChain onChain nextPresent
          exact ⟨oldest, identity, older.of_named here names nextPresent⟩
  · obtain ⟨link, found⟩ := Option.isSome_iff_exists.mp present
    exact spec.oldest_of_onChain onChain found
  · exact older

end RewriteGroup

end Ravel.Maintain
