import Mathlib.Data.Prod.Lex
import Ravel.Construction.Catalog.BucketResolution
import Ravel.Library.FailingRuns

namespace Ravel.Catalog

open List DisjointSets SortedGroups Library

/-- The keys of a list of records are distinct. -/
def KeysNodup (records : List CompactionRecord) : Prop :=
  (records.map CompactionRecord.key).Nodup

/-- A present record names the present record at the key. -/
def NamedByVersion2 (records : List CompactionRecord) (key : RecordKey) : Prop :=
  ∃ successor ∈ records, ∃ predecessor ∈ records, successor.supersededRecordKey = some key ∧ predecessor.key = key

variable {records : List CompactionRecord} {key : RecordKey} {record : CompactionRecord} {remaining : Nat}
  {superseded result : List RecordKey} {current : CompactionRecord} {starts fewer : List CompactionRecord}

theorem compactionByKey_some (found : compactionByKey records key = some record) :
    record ∈ records ∧ record.key = key := by
  have same := find?_some found
  exact ⟨mem_of_find?_eq_some found, by simpa using same⟩

/-- A present record is found under its key. -/
theorem compactionByKey_of_mem (distinct : KeysNodup records) (member : record ∈ records) :
    compactionByKey records record.key = some record := by
  cases found : compactionByKey records record.key with
  | none =>
    have absent := find?_eq_none.mp found record member
    simp at absent
  | some other =>
    obtain ⟨inside, same⟩ := compactionByKey_some found
    rw [inj_on_of_nodup_map distinct inside member same]

/-- What one walk adds: the keys that it passes, each of them named by a present record. -/
theorem walkVersion2_spec {visited : List RecordKey} (member : current ∈ records)
    (walked : walkVersion2 records remaining visited current superseded = .ok result) :
    (∀ key ∈ superseded, key ∈ result) ∧
      (∀ named, current.supersededRecordKey.bind (compactionByKey records) = some named → named.key ∈ result) ∧
      ∀ key ∈ result, key ∈ superseded ∨ NamedByVersion2 records key := by
  induction remaining generalizing visited current superseded with
  | zero =>
    rw [walkVersion2] at walked
    split at walked <;> cases walked
  | succ remaining ih =>
    rw [walkVersion2] at walked
    split at walked
    · cases walked
    · cases next : current.supersededRecordKey.bind (compactionByKey records) with
      | none =>
        rw [next] at walked
        cases walked
        exact ⟨fun _ inside => inside, fun _ absent => (by cases absent), fun _ inside => .inl inside⟩
      | some named =>
        rw [next] at walked
        obtain ⟨key, isNamed, found⟩ := Option.bind_eq_some_iff.mp next
        obtain ⟨namedMember, namedKey⟩ := compactionByKey_some found
        obtain ⟨kept, -, added⟩ := ih namedMember walked
        refine ⟨fun _ inside => kept _ (mem_cons_of_mem _ inside), ?_, ?_⟩
        · intro other same
          cases same
          exact kept _ mem_cons_self
        · intro other inside
          rcases added other inside with earlier | byOther
          · rcases mem_cons.mp earlier with rfl | before
            · exact .inr ⟨current, member, named, namedMember, namedKey ▸ isNamed, rfl⟩
            · exact .inl before
          · exact .inr byOther

/-- The walks from a list of records add the keys that these records name, and only named keys. -/
theorem walkAllVersion2_spec (members : ∀ start ∈ starts, start ∈ records)
    (walked : walkAllVersion2 records starts superseded = .ok result) : (∀ key ∈ superseded, key ∈ result) ∧
      (∀ start ∈ starts, ∀ named, start.supersededRecordKey.bind (compactionByKey records) = some named →
        named.key ∈ result) ∧
      ∀ key ∈ result, key ∈ superseded ∨ NamedByVersion2 records key := by
  induction starts generalizing superseded with
  | nil =>
    cases walked
    exact ⟨fun _ inside => inside, fun _ absent => (by cases absent), fun _ inside => .inl inside⟩
  | cons start rest ih =>
    rw [forall_mem_cons] at members
    rw [walkAllVersion2] at walked
    cases source : start.supersededRecordKey with
    | none =>
      rw [source] at walked
      obtain ⟨kept, direct, added⟩ := ih members.2 walked
      refine ⟨kept, ?_, added⟩
      intro other inside named next
      rcases mem_cons.mp inside with rfl | later
      · rw [source] at next
        cases next
      · exact direct other later named next
    | some key =>
      rw [source] at walked
      obtain ⟨middle, first, walked⟩ := ok_of_bind walked
      obtain ⟨firstKept, firstDirect, firstAdded⟩ := walkVersion2_spec members.1 first
      obtain ⟨kept, direct, added⟩ := ih members.2 walked
      refine ⟨fun other inside => kept other (firstKept other inside), ?_, ?_⟩
      · intro other inside named next
        rcases mem_cons.mp inside with rfl | later
        · exact kept _ (firstDirect named next)
        · exact direct other later named next
      · intro other inside
        rcases added other inside with earlier | byOther
        · exact firstAdded other earlier
        · exact .inr byOther

theorem mem_superseded_iff (distinct : KeysNodup records)
    (resolved : supersededByVersion2Records records = .ok superseded) (key : RecordKey) :
    key ∈ superseded ↔ NamedByVersion2 records key := by
  rw [supersededByVersion2Records] at resolved
  obtain ⟨_, checked, resolved⟩ := ok_of_bind resolved
  obtain ⟨-, direct, added⟩ := walkAllVersion2_spec (fun _ member => member) resolved
  constructor
  · intro inside
    rcases added key inside with earlier | named
    · cases earlier
    · exact named
  · intro ⟨successor, successorMember, predecessor, predecessorMember, names, same⟩
    rw [← same]
    refine direct successor successorMember predecessor ?_
    rw [names, ← same]
    exact compactionByKey_of_mem distinct predecessorMember

theorem compactionByKey_of_subset (distinct : KeysNodup records) (subset : ∀ record ∈ fewer, record ∈ records)
    (found : compactionByKey fewer key = some record) : compactionByKey records key = some record := by
  obtain ⟨member, same⟩ := compactionByKey_some found
  rw [← same]
  exact compactionByKey_of_mem distinct (subset record member)

/-- A chain that ends among some records ends among fewer. -/
theorem walkVersion2_ok_of_subset (distinct : KeysNodup records) (subset : ∀ record ∈ fewer, record ∈ records)
    {visited : List RecordKey} (walked : walkVersion2 records remaining visited current superseded = .ok result)
    (other : List RecordKey) : ∃ shorter, walkVersion2 fewer remaining visited current other = .ok shorter := by
  induction remaining generalizing visited current superseded other with
  | zero =>
    rw [walkVersion2] at walked
    split at walked <;> cases walked
  | succ remaining ih =>
    rw [walkVersion2] at walked ⊢
    by_cases revisited : current.key ∈ visited
    · rw [if_pos revisited] at walked
      cases walked
    · rw [if_neg revisited] at walked ⊢
      cases next : current.supersededRecordKey.bind (compactionByKey fewer) with
      | none => exact ⟨other, rfl⟩
      | some named =>
        obtain ⟨key, isNamed, found⟩ := Option.bind_eq_some_iff.mp next
        have before : current.supersededRecordKey.bind (compactionByKey records) = some named := by
          rw [isNamed]
          exact compactionByKey_of_subset distinct subset found
        rw [before] at walked
        exact ih walked (named.key :: other)

/-- All chains of a successful pass end. -/
theorem walkAllVersion2_starts (walked : walkAllVersion2 records starts superseded = .ok result) :
    ∀ start ∈ starts, start.supersededRecordKey ≠ none →
      ∃ before after, walkVersion2 records maxRewriteSupersessionDepth [] start before = .ok after := by
  induction starts generalizing superseded with
  | nil =>
    intro start member
    cases member
  | cons first rest ih =>
    rw [walkAllVersion2] at walked
    cases source : first.supersededRecordKey with
    | none =>
      rw [source] at walked
      intro start member names
      rcases mem_cons.mp member with rfl | later
      · exact absurd source names
      · exact ih walked start later names
    | some key =>
      rw [source] at walked
      obtain ⟨middle, own, walked⟩ := ok_of_bind walked
      intro start member names
      rcases mem_cons.mp member with rfl | later
      · exact ⟨superseded, middle, own⟩
      · exact ih walked start later names

/-- A pass over chains that end is successful. -/
theorem walkAllVersion2_ok (superseded : List RecordKey)
    (ends : ∀ start ∈ starts, start.supersededRecordKey ≠ none → ∀ before, ∃ after, walkVersion2 records maxRewriteSupersessionDepth [] start before = .ok after) :
    ∃ result, walkAllVersion2 records starts superseded = .ok result := by
  induction starts generalizing superseded with
  | nil => exact ⟨superseded, rfl⟩
  | cons first rest ih =>
    rw [forall_mem_cons] at ends
    rw [walkAllVersion2]
    cases source : first.supersededRecordKey with
    | none => exact ih superseded ends.2
    | some key =>
      obtain ⟨middle, own⟩ := ends.1 (by rw [source]; exact Option.some_ne_none key) superseded
      obtain ⟨result, others⟩ := ih middle ends.2
      refine ⟨result, ?_⟩
      simp only [own]
      exact others

/-- A check over a list succeeds when every element passes. -/
theorem forM_ok_iff {Failure Item : Type} (check : Item → Except Failure Unit) (items : List Item) :
    items.forM check = .ok () ↔ ∀ item ∈ items, check item = .ok () := by
  induction items with
  | nil => simp [pure, Except.pure]
  | cons item rest ih =>
    rw [List.forM, forall_mem_cons, ← ih]
    cases own : check item with
    | error failure => simp [bind, Except.bind]
    | ok value => simp [bind, Except.bind]

/-- Equal inputs that are checked among some records are equal among fewer. -/
theorem checkPredecessorInputs_ok_of_subset (distinct : KeysNodup records)
    (subset : ∀ record ∈ fewer, record ∈ records) (checked : checkPredecessorInputs records record = .ok ()) :
    checkPredecessorInputs fewer record = .ok () := by
  rw [checkPredecessorInputs] at checked ⊢
  cases source : record.supersededRecordKey with
  | none => rfl
  | some named =>
    rw [source] at checked
    cases found : compactionByKey fewer named with
    | none => simp only [found]
    | some predecessor =>
      simp only [compactionByKey_of_subset distinct subset found] at checked
      simp only [found]
      exact checked

/-- The checks that pass among some records pass among fewer. -/
theorem checkVersion2Inputs_ok_of_subset (distinct : KeysNodup records) (subset : ∀ record ∈ fewer, record ∈ records)
    (checked : checkVersion2Inputs records = .ok ()) : checkVersion2Inputs fewer = .ok () := by
  rw [checkVersion2Inputs, forM_ok_iff] at checked ⊢
  intro record member
  exact checkPredecessorInputs_ok_of_subset distinct subset (checked record (subset record member))

/-- The check says that a record and the present record that it names have the same inputs. -/
theorem inputs_iff_of_check (distinct : KeysNodup records) (checked : checkVersion2Inputs records = .ok ())
    {predecessor : CompactionRecord} (member : record ∈ records) (predecessorMember : predecessor ∈ records)
    (names : record.supersededRecordKey = some predecessor.key) (identity : InputIdentity) :
    identity ∈ record.inputs ↔ identity ∈ predecessor.inputs := by
  rw [checkVersion2Inputs, forM_ok_iff] at checked
  have passes := checked record member
  rw [checkPredecessorInputs, names] at passes
  simp only [compactionByKey_of_mem distinct predecessorMember] at passes
  cases same : sameInputs record predecessor with
  | false =>
    rw [same] at passes
    cases passes
  | true =>
    rw [sameInputs, Bool.and_eq_true, all_eq_true, all_eq_true] at same
    simp only [inputIdentitySet, mem_dedup, decide_eq_true_eq] at same
    exact ⟨same.1 identity, same.2 identity⟩

/-- Version 2 supersession that resolves among some records resolves among fewer. -/
theorem supersededByVersion2Records_ok_of_subset (distinct : KeysNodup records)
    (subset : ∀ record ∈ fewer, record ∈ records) (resolved : supersededByVersion2Records records = .ok superseded) :
    ∃ others, supersededByVersion2Records fewer = .ok others := by
  rw [supersededByVersion2Records] at resolved
  obtain ⟨_, checked, resolved⟩ := ok_of_bind resolved
  have passes := checkVersion2Inputs_ok_of_subset distinct subset checked
  have ends := walkAllVersion2_starts resolved
  have fewerEnds : ∀ start ∈ fewer, start.supersededRecordKey ≠ none → ∀ before,
      ∃ after, walkVersion2 fewer maxRewriteSupersessionDepth [] start before = .ok after := by
    intro start member names before
    obtain ⟨_, _, walked⟩ := ends start (subset start member) names
    exact walkVersion2_ok_of_subset distinct subset walked before
  obtain ⟨others, walked⟩ := walkAllVersion2_ok [] fewerEnds
  refine ⟨others, ?_⟩
  rw [supersededByVersion2Records, passes]
  exact walked

end Ravel.Catalog
