import Ravel.Proof.Catalog.Domination

namespace Ravel.Catalog

open List

/-- The present records from a key down, in the order in which each names the next. -/
inductive Line (compactions : List CompactionRecord) (rewrites : List RewriteRecord) : RecordKey → List RecordKey → Prop
  | absent {key : RecordKey} (gone : linkAt compactions rewrites key = none) : Line compactions rewrites key []
  | last {key : RecordKey} {link : ChainLink} (present : linkAt compactions rewrites key = some link)
      (ends : link.named = none) : Line compactions rewrites key [key]
  | step {key next : RecordKey} {link : ChainLink} {rest : List RecordKey}
      (present : linkAt compactions rewrites key = some link) (names : link.named = some next)
      (further : Line compactions rewrites next rest) : Line compactions rewrites key (key :: rest)

variable {compactions : List CompactionRecord} {rewrites : List RewriteRecord}

namespace Line

theorem unique {key : RecordKey} {first second : List RecordKey} (one : Line compactions rewrites key first)
    (other : Line compactions rewrites key second) : first = second := by
  induction one generalizing second with
  | absent gone =>
    cases other with
    | absent _ => rfl
    | last present _ =>
      rw [gone] at present
      cases present
    | step present _ _ =>
      rw [gone] at present
      cases present
  | last present ends =>
    cases other with
    | absent gone =>
      rw [gone] at present
      cases present
    | last _ _ => rfl
    | step again names _ =>
      rw [present, Option.some.injEq] at again
      rw [← again, ends] at names
      cases names
  | step present names _ ih =>
    cases other with
    | absent gone =>
      rw [gone] at present
      cases present
    | last again ends =>
      rw [present, Option.some.injEq] at again
      rw [← again, names] at ends
      cases ends
    | step again otherNames further =>
      rw [present, Option.some.injEq] at again
      rw [← again, names, Option.some.injEq] at otherNames
      subst otherNames
      rw [ih further]

theorem split {key lower : RecordKey} {keys : List RecordKey} (line : Line compactions rewrites key keys)
    (member : lower ∈ keys) :
    ∃ above below, keys = above ++ lower :: below ∧ Line compactions rewrites lower (lower :: below) := by
  induction line with
  | absent _ => cases member
  | last present ends =>
    rw [mem_singleton] at member
    subst member
    exact ⟨[], [], rfl, .last present ends⟩
  | step present names further ih =>
    rcases mem_cons.mp member with rfl | later
    · exact ⟨[], _, rfl, .step present names further⟩
    · obtain ⟨above, below, rfl, line⟩ := ih later
      exact ⟨_ :: above, below, rfl, line⟩

/-- A line does not come back to a record. -/
theorem not_mem_below {key : RecordKey} {below : List RecordKey}
    (line : Line compactions rewrites key (key :: below)) : key ∉ below := by
  intro member
  have inner : ∃ rest, Line compactions rewrites key (key :: rest) ∧ rest.length < below.length := by
    cases line with
    | last _ _ => cases member
    | step _ _ further =>
      obtain ⟨above, rest, rfl, again⟩ := further.split member
      refine ⟨rest, again, ?_⟩
      simp only [length_append, length_cons]
      omega
  obtain ⟨rest, again, shorter⟩ := inner
  have same := line.unique again
  rw [cons.injEq] at same
  rw [same.2] at shorter
  exact lt_irrefl _ shorter

theorem nodup {key : RecordKey} {keys : List RecordKey} (line : Line compactions rewrites key keys) : keys.Nodup := by
  induction line with
  | absent _ => exact nodup_nil
  | last _ _ => exact nodup_singleton _
  | step present names further ih =>
    exact nodup_cons.mpr ⟨(Line.step present names further).not_mem_below, ih⟩

theorem present {key lower : RecordKey} {keys : List RecordKey} (line : Line compactions rewrites key keys)
    (member : lower ∈ keys) : ∃ link, linkAt compactions rewrites lower = some link := by
  obtain ⟨_, below, _, inner⟩ := line.split member
  cases inner with
  | last found _ => exact ⟨_, found⟩
  | step found _ _ => exact ⟨_, found⟩

theorem reaches {link : ChainLink} {start : RecordKey} {keys : List RecordKey}
    (line : Line compactions rewrites start keys) (names : link.named = some start) {key : RecordKey}
    (member : key ∈ keys) : Reaches compactions rewrites link key := by
  induction line generalizing link with
  | absent _ => cases member
  | last _ _ =>
    rw [mem_singleton] at member
    subst member
    exact .named names
  | step present next _ ih =>
    rcases mem_cons.mp member with rfl | later
    · exact .named names
    · exact .through names present (ih next later)

theorem mem_of_reaches {link : ChainLink} {start : RecordKey} {keys : List RecordKey}
    (line : Line compactions rewrites start keys) (names : link.named = some start) {key : RecordKey}
    (reaches : Reaches compactions rewrites link key) {found : ChainLink}
    (present : linkAt compactions rewrites key = some found) : key ∈ keys := by
  induction line generalizing link with
  | absent gone =>
    rcases (reaches_iff names key).mp reaches with rfl | ⟨next, there, _⟩
    · rw [gone] at present
      cases present
    · rw [gone] at there
      cases there
  | last here ends =>
    rcases (reaches_iff names key).mp reaches with rfl | ⟨next, there, further⟩
    · exact mem_singleton_self _
    · rw [here, Option.some.injEq] at there
      subst there
      exact absurd further (not_reaches_of_named_none _ ends key)
  | step here next _ ih =>
    rcases (reaches_iff names key).mp reaches with rfl | ⟨after, there, further⟩
    · exact mem_cons_self
    · rw [here, Option.some.injEq] at there
      subst there
      exact mem_cons_of_mem _ (ih next further)

end Line

/-- A chase that ends runs down a line. -/
theorem line_of_chase {remaining : Nat} {visited : List RecordKey} {key : RecordKey} {link : ChainLink}
    {before after : Exclusions} (chased : chase compactions rewrites remaining visited key link before = .ok after)
    {start : RecordKey} (names : link.named = some start) : ∃ keys, Line compactions rewrites start keys := by
  induction remaining generalizing visited key link before start with
  | zero =>
    rw [chase] at chased
    split at chased <;> cases chased
  | succ remaining ih =>
    rw [chase] at chased
    split at chased
    · cases chased
    · rw [chaseStep_eq] at chased
      simp only [names] at chased
      cases present : linkAt compactions rewrites start with
      | none => exact ⟨[], .absent present⟩
      | some next =>
        rw [followNamed_present present] at chased
        cases ends : next.endsChain with
        | true => exact ⟨[start], .last present (ChainLink.endsChain_spec ends).1⟩
        | false =>
          simp only [ends, Bool.false_eq_true, if_false] at chased
          cases nextNames : next.named with
          | none => exact ⟨[start], .last present nextNames⟩
          | some lower =>
            obtain ⟨keys, line⟩ := ih chased nextNames
            exact ⟨start :: keys, .step present nextNames line⟩

/-- The oldest present record at or below a key. -/
def OldestOf (compactions : List CompactionRecord) (rewrites : List RewriteRecord) (key oldest : RecordKey) : Prop :=
  ∃ keys, Line compactions rewrites key keys ∧ keys.getLast? = some oldest

namespace OldestOf

theorem unique {key first second : RecordKey} (one : OldestOf compactions rewrites key first)
    (other : OldestOf compactions rewrites key second) : first = second := by
  obtain ⟨keys, line, last⟩ := one
  obtain ⟨others, otherLine, otherLast⟩ := other
  rw [line.unique otherLine, otherLast, Option.some.injEq] at last
  exact last.symm

theorem of_mem {start key : RecordKey} {keys : List RecordKey} (line : Line compactions rewrites start keys)
    (member : key ∈ keys) {oldest : RecordKey} (last : keys.getLast? = some oldest) :
    OldestOf compactions rewrites key oldest := by
  obtain ⟨above, below, rfl, inner⟩ := line.split member
  refine ⟨key :: below, inner, ?_⟩
  rw [getLast?_append_of_ne_nil _ (cons_ne_nil _ _)] at last
  exact last

theorem of_named {key named oldest : RecordKey} {link found : ChainLink}
    (present : linkAt compactions rewrites key = some link) (names : link.named = some named)
    (namedPresent : linkAt compactions rewrites named = some found) (older : OldestOf compactions rewrites named oldest) :
    OldestOf compactions rewrites key oldest := by
  obtain ⟨keys, line, last⟩ := older
  refine ⟨key :: keys, .step present names line, ?_⟩
  cases line with
  | absent gone =>
    rw [gone] at namedPresent
    cases namedPresent
  | last _ _ => exact last
  | step _ _ _ => rwa [getLast?_cons_cons]

/-- The oldest record is present, and names nothing present. -/
theorem ends {key oldest : RecordKey} (older : OldestOf compactions rewrites key oldest) :
    ∃ link, linkAt compactions rewrites oldest = some link ∧
      ∀ named, link.named = some named → linkAt compactions rewrites named = none := by
  obtain ⟨keys, line, last⟩ := older
  induction line with
  | absent _ => cases last
  | last present ends =>
    rw [getLast?_singleton, Option.some.injEq] at last
    subst last
    exact ⟨_, present, fun named names => by rw [ends] at names; cases names⟩
  | step present names further ih =>
    cases further with
    | absent gone =>
      rw [getLast?_singleton, Option.some.injEq] at last
      subst last
      refine ⟨_, present, ?_⟩
      intro named same
      rw [names, Option.some.injEq] at same
      exact same ▸ gone
    | last _ _ => exact ih last
    | step _ _ _ =>
      rw [getLast?_cons_cons] at last
      exact ih last

end OldestOf

theorem oldestOf_below {key lower oldest : RecordKey} {link found : ChainLink}
    (present : linkAt compactions rewrites key = some link) (reaches : Reaches compactions rewrites link lower)
    (lowerPresent : linkAt compactions rewrites lower = some found)
    (older : OldestOf compactions rewrites key oldest) : OldestOf compactions rewrites lower oldest := by
  obtain ⟨keys, line, last⟩ := older
  have member : lower ∈ keys := by
    cases line with
    | absent gone =>
      rw [gone] at present
      cases present
    | last here ends =>
      rw [present, Option.some.injEq] at here
      rw [here] at reaches
      exact absurd reaches (not_reaches_of_named_none _ ends lower)
    | step here names further =>
      rw [present, Option.some.injEq] at here
      rw [here] at reaches
      exact mem_cons_of_mem _ (further.mem_of_reaches names reaches lowerPresent)
  exact OldestOf.of_mem line member last

theorem oldest_names_absent {key lower oldest : RecordKey} {link : ChainLink}
    (present : linkAt compactions rewrites key = some link) (reaches : Reaches compactions rewrites link lower)
    (gone : linkAt compactions rewrites lower = none) (older : OldestOf compactions rewrites key oldest) :
    ∃ last, linkAt compactions rewrites oldest = some last ∧ last.named = some lower := by
  obtain ⟨keys, line, last⟩ := older
  induction line generalizing link with
  | absent _ => cases last
  | last here ends =>
    rw [present, Option.some.injEq] at here
    rw [here] at reaches
    exact absurd reaches (not_reaches_of_named_none _ ends lower)
  | step here names further ih =>
    rw [present, Option.some.injEq] at here
    subst here
    cases further with
    | absent nextGone =>
      rw [getLast?_singleton, Option.some.injEq] at last
      subst last
      rcases (reaches_iff names lower).mp reaches with rfl | ⟨after, there, _⟩
      · exact ⟨link, present, names⟩
      · rw [nextGone] at there
        cases there
    | last there ends =>
      rcases (reaches_iff names lower).mp reaches with rfl | ⟨after, again, more⟩
      · rw [gone] at there
        cases there
      · rw [there, Option.some.injEq] at again
        rw [← again] at more
        exact absurd more (not_reaches_of_named_none _ ends lower)
    | step there _ _ =>
      rw [getLast?_cons_cons] at last
      rcases (reaches_iff names lower).mp reaches with rfl | ⟨after, again, more⟩
      · rw [gone] at there
        cases there
      · exact ih again more last

theorem ReachedByRewrite.last {key : RecordKey} (reached : ReachedByRewrite compactions rewrites key) :
    (∃ rewrite ∈ rewrites, rewrite.supersededRecordKey = some key) ∨
      ∃ record ∈ compactions, ReachedByRewrite compactions rewrites record.key ∧
        record.supersededRecordKey = some key := by
  obtain ⟨rewrite, member, reaches⟩ := reached
  rcases reaches.last with direct | ⟨middle, found, inner, present, names⟩
  · exact .inl ⟨rewrite, member, direct⟩
  · rcases linkAt_some present with ⟨record, recordMember, rfl, rfl⟩ | ⟨record, recordMember, rfl, rfl⟩
    · exact .inr ⟨record, recordMember, ⟨rewrite, member, inner⟩, names⟩
    · exact .inl ⟨record, recordMember, names⟩

theorem ReachedByRewrite.next {key named : RecordKey} {link : ChainLink}
    (reached : ReachedByRewrite compactions rewrites key) (present : linkAt compactions rewrites key = some link)
    (names : link.named = some named) : ReachedByRewrite compactions rewrites named := by
  obtain ⟨rewrite, member, reaches⟩ := reached
  exact ⟨rewrite, member, reaches.trans present (.named names)⟩

/-- Every chain of a rewrite runs down a line. -/
theorem line_of_resolveRewrites {starts : List RewriteRecord} {before after : Exclusions}
    (resolved : resolveRewrites compactions rewrites starts before = .ok after) {rewrite : RewriteRecord}
    (member : rewrite ∈ starts) {start : RecordKey} (names : rewrite.supersededRecordKey = some start) :
    ∃ keys, Line compactions rewrites start keys := by
  obtain ⟨first, last, chased⟩ := resolveRewrites_each resolved rewrite member
  exact line_of_chase chased names

theorem Line.length_le {key : RecordKey} {keys : List RecordKey} (line : Line compactions rewrites key keys) :
    keys.length ≤ compactions.length + rewrites.length := by
  have subset : ∀ lower ∈ keys, lower ∈ compactions.map CompactionRecord.key ++ rewrites.map RewriteRecord.key := by
    intro lower member
    obtain ⟨link, present⟩ := line.present member
    rw [mem_append, mem_map, mem_map]
    rcases linkAt_some present with ⟨record, inside, same, -⟩ | ⟨record, inside, same, -⟩
    · exact .inl ⟨record, inside, same⟩
    · exact .inr ⟨record, inside, same⟩
  have bounded := (line.nodup.subperm subset).length_le
  rwa [length_append, length_map, length_map] at bounded

theorem ReachedByRewrite.exists_top (distinct : (rewrites.map RewriteRecord.key).Nodup)
    (lines : ∀ rewrite ∈ rewrites, ∀ start, rewrite.supersededRecordKey = some start →
      ∃ keys, Line compactions rewrites start keys)
    {key : RecordKey} (reached : ReachedByRewrite compactions rewrites key) :
    ∃ top ∈ rewrites, ¬ReachedByRewrite compactions rewrites top.key ∧
      Reaches compactions rewrites (.rewrite top) key := by
  obtain ⟨rewrite, member, reaches⟩ := reached
  obtain ⟨start, names, -⟩ := reaches.cases_named
  obtain ⟨keys, line⟩ := lines rewrite member start names
  -- A rewrite that reaches this one has a longer line, and lines are bounded.
  induction gap : compactions.length + rewrites.length - keys.length using Nat.strong_induction_on
    generalizing rewrite start keys with
  | _ gap ih =>
    by_cases free : ReachedByRewrite compactions rewrites rewrite.key
    · obtain ⟨above, aboveMember, aboveReaches⟩ := free
      obtain ⟨aboveStart, aboveNames, _⟩ := aboveReaches.cases_named
      obtain ⟨aboveKeys, aboveLine⟩ := lines above aboveMember aboveStart aboveNames
      have present := linkAt_rewrite compactions distinct member
      have onLine := aboveLine.mem_of_reaches aboveNames aboveReaches present
      obtain ⟨front, below, split, inner⟩ := aboveLine.split onLine
      have own : Line compactions rewrites rewrite.key (rewrite.key :: keys) := .step present names line
      have sameTail := inner.unique own
      rw [sameTail] at split
      have longer : keys.length < aboveKeys.length := by
        rw [split, length_append, length_cons]
        omega
      have bounded := aboveLine.length_le
      exact ih _ (by omega) above aboveMember (aboveReaches.trans present reaches) aboveStart aboveNames
        aboveKeys aboveLine rfl
    · exact ⟨rewrite, member, free, reaches⟩

/-- The records of a bucket whose version 2 records agree with the records that they name. -/
structure ConsistentInputs (compactions : List CompactionRecord) : Prop where
  namesCompaction : ∀ record ∈ compactions, ∀ key, record.supersededRecordKey = some key →
    ∃ inputSetHash16, key = .compaction inputSetHash16
  sameInputs : ∀ record ∈ compactions, ∀ predecessor ∈ compactions,
    record.supersededRecordKey = some predecessor.key → ∀ identity, identity ∈ record.inputs ↔ identity ∈ predecessor.inputs

/-- A key that a version 2 record names holds no rewrite. -/
theorem linkAt_of_compaction_key {inputSetHash16 : Nat} {link : ChainLink}
    (present : linkAt compactions rewrites (.compaction inputSetHash16) = some link) :
    ∃ record ∈ compactions, record.key = .compaction inputSetHash16 ∧ link = .compaction record := by
  rcases linkAt_some present with found | ⟨record, _, same, _⟩
  · exact found
  · cases same

theorem next_inputs (consistent : ConsistentInputs compactions) {key next : RecordKey} {link found : ChainLink}
    (present : linkAt compactions rewrites key = some link) (names : link.named = some next)
    (nextPresent : linkAt compactions rewrites next = some found) {identity : InputIdentity}
    (named : identity ∈ link.inputs) : identity ∈ found.inputs := by
  rcases linkAt_some present with ⟨record, member, _, rfl⟩ | ⟨record, _, _, rfl⟩
  · obtain ⟨inputSetHash16, rfl⟩ := consistent.namesCompaction record member next names
    obtain ⟨predecessor, predecessorMember, same, rfl⟩ := linkAt_of_compaction_key nextPresent
    exact (consistent.sameInputs record member predecessor predecessorMember (same ▸ names) identity).mp named
  · have noRaw : record.inputs = [] := rawInputs_eq_nil names
    rw [ChainLink.inputs, noRaw] at named
    cases named

theorem Line.inputs_subset_last {start oldest : RecordKey} {keys : List RecordKey} {last : ChainLink}
    (line : Line compactions rewrites start keys) (isLast : keys.getLast? = some oldest)
    (oldestPresent : linkAt compactions rewrites oldest = some last)
    (handsOn : ∀ key ∈ keys, ∀ link, linkAt compactions rewrites key = some link → ∀ next, link.named = some next →
      ∀ found, linkAt compactions rewrites next = some found → ∀ identity ∈ link.inputs, identity ∈ found.inputs)
    {key : RecordKey} (member : key ∈ keys) {link : ChainLink} (present : linkAt compactions rewrites key = some link)
    {identity : InputIdentity} (named : identity ∈ link.inputs) : identity ∈ last.inputs := by
  induction line generalizing key link with
  | absent _ => cases member
  | last here _ =>
    rw [getLast?_singleton, Option.some.injEq] at isLast
    rw [mem_singleton] at member
    subst isLast member
    rw [present, Option.some.injEq] at oldestPresent
    exact oldestPresent ▸ named
  | @step first next found rest here names further ih =>
    have below : ∀ {first : RecordKey}, first ∈ rest → rest.getLast? = some oldest := by
      intro first inside
      cases rest with
      | nil => cases inside
      | cons head tail => rwa [getLast?_cons_cons] at isLast
    have handsOnBelow := fun key member => handsOn key (mem_cons_of_mem first member)
    rcases mem_cons.mp member with rfl | inside
    · rw [present, Option.some.injEq] at here
      subst here
      cases further with
      | absent gone =>
        rw [getLast?_singleton, Option.some.injEq] at isLast
        subst isLast
        rw [present, Option.some.injEq] at oldestPresent
        exact oldestPresent ▸ named
      | last there _ =>
        exact ih (below mem_cons_self) handsOnBelow mem_cons_self there
          (handsOn key mem_cons_self link present next names _ there identity named)
      | step there _ _ =>
        exact ih (below mem_cons_self) handsOnBelow mem_cons_self there
          (handsOn key mem_cons_self link present next names _ there identity named)
    · exact ih (below inside) handsOnBelow inside present named

theorem inputs_subset_oldest (consistent : ConsistentInputs compactions) {key oldest : RecordKey} {link last : ChainLink}
    (present : linkAt compactions rewrites key = some link) (older : OldestOf compactions rewrites key oldest)
    (oldestPresent : linkAt compactions rewrites oldest = some last) {identity : InputIdentity}
    (named : identity ∈ link.inputs) : identity ∈ last.inputs := by
  obtain ⟨keys, line, isLast⟩ := older
  have member : key ∈ keys := by
    cases line with
    | absent _ => cases isLast
    | last _ _ => exact mem_cons_self
    | step _ _ _ => exact mem_cons_self
  apply line.inputs_subset_last isLast oldestPresent _ member present named
  intro upper _ found here next names lower there identity inside
  exact next_inputs consistent here names there inside

end Ravel.Catalog
