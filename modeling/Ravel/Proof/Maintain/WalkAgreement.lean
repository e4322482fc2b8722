import Ravel.Proof.Maintain.GatheredGroups

namespace Ravel.Maintain

open List Catalog

variable {bucket : Bucket}

/-- Whether the record at a key counts toward the depth. -/
def chargedAt (bucket : Bucket) (entry : ChainEntry) (key : RecordKey) : Bool :=
  (recordAt bucket key).any (charges entry)

/-- The records of a line that count toward the depth. -/
def lineCharge (bucket : Bucket) (entry : ChainEntry) (keys : List RecordKey) : Nat :=
  keys.countP (chargedAt bucket entry)

/-- A record that names another counts from either entry. -/
theorem charges_of_named (entry : ChainEntry) {link : ChainLink} {next : RecordKey} (names : link.named = some next) :
    charges entry link = true := by
  cases entry with
  | version2 => rfl
  | rewrite =>
    cases link with
    | rewrite record => rfl
    | compaction record =>
      rw [charges, show record.supersededRecordKey = some next from names]
      rfl

/-- Seen from a rewrite, the record that ends the chase as it is passed does not count. -/
theorem charges_rewrite (link : ChainLink) : charges .rewrite link = !link.endsChain := by
  cases link with
  | rewrite record => rfl
  | compaction record =>
    rw [charges, ChainLink.endsChain]
    cases record.supersededRecordKey with
    | none => rfl
    | some named => rfl

theorem chargedAt_of_present {entry : ChainEntry} {key : RecordKey} {link : ChainLink}
    (present : recordAt bucket key = some link) : chargedAt bucket entry key = charges entry link := by
  rw [chargedAt, present]
  rfl

theorem lineCharge_step (entry : ChainEntry) {key next : RecordKey} {link : ChainLink}
    (present : recordAt bucket key = some link) (names : link.named = some next) (rest : List RecordKey) :
    lineCharge bucket entry (key :: rest) = lineCharge bucket entry rest + 1 := by
  have charged : chargedAt bucket entry key = true := by rw [chargedAt_of_present present, charges_of_named entry names]
  rw [lineCharge, countP_cons_of_pos charged, lineCharge]

theorem lineCharge_last (entry : ChainEntry) {key : RecordKey} {link : ChainLink}
    (present : recordAt bucket key = some link) : lineCharge bucket entry [key] = if charges entry link then 1 else 0 := by
  rw [lineCharge, countP_singleton, chargedAt_of_present present]

section Iterations

variable {entry : ChainEntry} {refuseLinks : Bool} {predecessorKey : RecordKey} {remaining : Nat} {seen : List RecordKey}
  {above : Option ChainLink} {key : RecordKey} {passed : Passed} {link : ChainLink}

/-- A walk that comes to a missing record ends. -/
theorem walk_absent (fresh : key ∉ seen) (gone : recordAt bucket key = none) :
    ∃ groups, walkSupersededChain bucket entry refuseLinks predecessorKey remaining seen above key passed =
      .ok (.gathered groups) := by
  rw [walkSupersededChain.eq_def]
  dsimp only
  rw [if_neg fresh, show linkAt bucket.compactions bucket.rewrites key = none from gone]
  exact ⟨_, rfl⟩

/-- A record that the walk may pass: it is not past the depth, and it is no rewrite below a version 2 record. -/
structure MayPass (entry : ChainEntry) (remaining : Nat) (link : ChainLink) : Prop where
  inDepth : charges entry link = true → 0 < remaining
  inKind : entry = .version2 → isCompaction link = true

/-- The walk once it has passed a record: raw inputs end it, and it goes on to the record that is named. -/
def walkPast (bucket : Bucket) (entry : ChainEntry) (refuseLinks : Bool) (predecessorKey : RecordKey) (remaining : Nat)
    (seen : List RecordKey) (key : RecordKey) (link : ChainLink) (passed : Passed) : Except MaintainError ChainWalk :=
  if namesRawL0Inputs link then .ok (.gathered (passed.group (rawInputKeys bucket entry link.inputs) none))
  else
    match link.named, remaining with
    | none, _ => .ok (.gathered (passed.group ([], []) none))
    | some _, 0 => .ok (.refused .tooDeep)
    | some next, remaining + 1 =>
      walkSupersededChain bucket entry refuseLinks predecessorKey remaining (key :: seen)
        (if isVersion2Compaction link then some link else none) next passed

theorem walk_present (fresh : key ∉ seen) (present : recordAt bucket key = some link) (admits : MayPass entry remaining link) :
    walkSupersededChain bucket entry refuseLinks predecessorKey remaining seen above key passed = .ok (.refused .version2Link) ∨
    walkSupersededChain bucket entry refuseLinks predecessorKey remaining seen above key passed =
      walkPast bucket entry refuseLinks predecessorKey remaining seen key link
        ⟨passed.records ++ [key], passed.parts ++ partKeys link⟩ := by
  have inDepth : (charges entry link && remaining == 0) = false := by
    cases charged : charges entry link with
    | false => rfl
    | true =>
      have positive := admits.inDepth charged
      rw [Bool.true_and, beq_eq_false_iff_ne]
      omega
  have inKind : ¬(entry = .version2 ∧ isCompaction link = false) := by
    rintro ⟨isVersion2, isRewrite⟩
    rw [admits.inKind isVersion2] at isRewrite
    cases isRewrite
  rw [walkSupersededChain.eq_def]
  dsimp only
  rw [if_neg fresh, show linkAt bucket.compactions bucket.rewrites key = some link from present]
  dsimp only
  by_cases refused : (refuseLinks && isVersion2Compaction link) = true
  · rw [if_pos refused]
    exact .inl rfl
  · rw [if_neg refused, inDepth, if_neg (by decide), if_neg inKind]
    exact .inr rfl

section

variable {groups : List SupersededGroup}
  (walked : walkSupersededChain bucket entry refuseLinks predecessorKey remaining seen above key passed = .ok (.gathered groups))
  (present : recordAt bucket key = some link)

include walked present

/-- A walk that gathers had depth left for a record that counts. -/
theorem remaining_of_gathered (charged : charges entry link = true) : 0 < remaining := by
  by_contra exhausted
  have isZero : remaining = 0 := by omega
  rw [isZero, walkSupersededChain.eq_def] at walked
  dsimp only at walked
  split at walked
  · cases walked
  · rw [show linkAt bucket.compactions bucket.rewrites key = some link from present] at walked
    dsimp only at walked
    rw [charged] at walked
    split at walked
    · cases walked
    · simp at walked

theorem notRefused_of_gathered : (refuseLinks && isVersion2Compaction link) = false := by
  by_contra refused
  rw [Bool.not_eq_false] at refused
  rw [walkSupersededChain.eq_def] at walked
  dsimp only at walked
  split at walked
  · cases walked
  · rw [show linkAt bucket.compactions bucket.rewrites key = some link from present] at walked
    dsimp only at walked
    rw [if_pos refused] at walked
    cases walked

end

/-- The key that a walk from a version 2 record comes to is the key of a compaction record. -/
def InKind (entry : ChainEntry) (key : RecordKey) : Prop :=
  entry = .version2 → ∃ inputSetHash16, key = .compaction inputSetHash16

theorem InKind.isCompaction (inKind : InKind entry key) (present : recordAt bucket key = some link) (isVersion2 : entry = .version2) :
    isCompaction link = true := by
  obtain ⟨inputSetHash16, rfl⟩ := inKind isVersion2
  obtain ⟨record, -, -, rfl⟩ := linkAt_of_compaction_key present
  rfl

theorem InKind.next (inKind : InKind entry key) (present : recordAt bucket key = some link) {next : RecordKey}
    (names : link.named = some next) : InKind entry next := by
  intro isVersion2
  obtain ⟨inputSetHash16, rfl⟩ := inKind isVersion2
  obtain ⟨record, member, -, rfl⟩ := linkAt_of_compaction_key present
  exact bucket.namesCompaction record member next names

/-- A walk has no failure of its own: it gathers or refuses. -/
theorem walk_ok (inKind : InKind entry key) :
    ∃ walk, walkSupersededChain bucket entry refuseLinks predecessorKey remaining seen above key passed = .ok walk := by
  induction remaining using Nat.strong_induction_on generalizing seen above key passed with
  | _ remaining ih =>
    rw [walkSupersededChain.eq_def]
    dsimp only
    by_cases again : key ∈ seen
    · rw [if_pos again]
      exact ⟨_, rfl⟩
    · rw [if_neg again]
      cases present : linkAt bucket.compactions bucket.rewrites key with
      | none => exact ⟨_, rfl⟩
      | some link =>
        have ofKind : ¬(entry = .version2 ∧ isCompaction link = false) := by
          rintro ⟨isVersion2, isRewrite⟩
          rw [inKind.isCompaction present isVersion2] at isRewrite
          cases isRewrite
        dsimp only
        rw [if_neg ofKind]
        split
        · exact ⟨_, rfl⟩
        · split
          · exact ⟨_, rfl⟩
          · split
            · exact ⟨_, rfl⟩
            · split
              · exact ⟨_, rfl⟩
              · exact ⟨_, rfl⟩
              · exact ih _ (Nat.lt_succ_self _) (inKind.next present ‹_›)

end Iterations

section Lines

variable {entry : ChainEntry} {refuseLinks : Bool} {predecessorKey : RecordKey} {remaining : Nat} {seen : List RecordKey}
  {above : Option ChainLink} {key : RecordKey} {passed : Passed}

/-- A walk that gathers runs down a line within the depth, past no link that it refuses. -/
theorem line_of_walk {groups : List SupersededGroup}
    (walked : walkSupersededChain bucket entry refuseLinks predecessorKey remaining seen above key passed =
      .ok (.gathered groups)) :
    ∃ keys, Line bucket.compactions bucket.rewrites key keys ∧ lineCharge bucket entry keys ≤ remaining ∧
      ∀ lower ∈ keys, ∀ link, recordAt bucket lower = some link → (refuseLinks && isVersion2Compaction link) = false := by
  have here : ∀ link, recordAt bucket key = some link → (refuseLinks && isVersion2Compaction link) = false :=
    fun link present => notRefused_of_gathered walked present
  induction remaining using Nat.strong_induction_on generalizing seen above key passed with
  | _ remaining ih =>
    rcases walkSupersededChain_cases walked with
      ⟨gone, -⟩ | ⟨link, present, ⟨raw, -⟩ | ⟨raw, next, fewer, names, rfl, further⟩⟩
    · exact ⟨[], .absent gone, Nat.zero_le _, by simp⟩
    · refine ⟨[key], .last present (named_none_of_namesRawL0Inputs raw), ?_, by simpa using here⟩
      rw [lineCharge_last entry present]
      split
      · exact remaining_of_gathered walked present ‹_›
      · exact Nat.zero_le _
    · obtain ⟨keys, line, bounded, admitted⟩ := ih fewer (Nat.lt_succ_self _) further
        fun link present => notRefused_of_gathered further present
      refine ⟨key :: keys, .step present names line, ?_, ?_⟩
      · rw [lineCharge_step entry present names]
        omega
      · exact forall_mem_cons.mpr ⟨here, admitted⟩

/-- The keys that a walk has passed hold records. -/
def PassedPresent (bucket : Bucket) (seen : List RecordKey) : Prop :=
  ∀ key ∈ seen, recordAt bucket key ≠ none

theorem PassedPresent.cons (passed : PassedPresent bucket seen) {link : ChainLink}
    (present : recordAt bucket key = some link) : PassedPresent bucket (key :: seen) := by
  intro other member
  rcases mem_cons.mp member with rfl | earlier
  · rw [present]
    exact Option.some_ne_none link
  · exact passed other earlier

theorem below_apart {next : RecordKey} {link : ChainLink} {rest : List RecordKey} (present : recordAt bucket key = some link)
    (names : link.named = some next) (further : Line bucket.compactions bucket.rewrites next rest)
    (apart : ∀ lower ∈ key :: rest, lower ∉ seen) : ∀ lower ∈ rest, lower ∉ key :: seen := by
  intro lower member again
  rcases mem_cons.mp again with rfl | earlier
  · exact (Line.step present names further).not_mem_below member
  · exact apart lower (mem_cons_of_mem _ member) earlier

/-- The walk down a line within the depth gathers, unless it meets a link that it refuses. -/
theorem walk_of_line {keys : List RecordKey} (line : Line bucket.compactions bucket.rewrites key keys)
    (passedPresent : PassedPresent bucket seen) (apart : ∀ lower ∈ keys, lower ∉ seen)
    (bounded : lineCharge bucket entry keys ≤ remaining)
    (inKind : InKind entry key) :
    (∃ groups, walkSupersededChain bucket entry refuseLinks predecessorKey remaining seen above key passed =
      .ok (.gathered groups)) ∨
    walkSupersededChain bucket entry refuseLinks predecessorKey remaining seen above key passed =
      .ok (.refused .version2Link) := by
  induction line generalizing remaining seen above passed with
  | absent gone =>
    have fresh : _ ∉ seen := fun again => passedPresent _ again gone
    exact .inl (walk_absent fresh gone)
  | @last key link present ends =>
    have admits : MayPass entry remaining link := by
      refine ⟨?_, inKind.isCompaction present⟩
      intro charged
      rw [lineCharge_last entry present, charged] at bounded
      exact bounded
    have raw : namesRawL0Inputs link = true := by
      by_contra notRaw
      obtain ⟨named, names⟩ := named_of_not_namesRawL0Inputs notRaw
      rw [ends] at names
      cases names
    rcases walk_present (apart key mem_cons_self) present admits with refused | past
    · exact .inr refused
    · rw [past]
      unfold walkPast
      rw [if_pos raw]
      exact .inl ⟨_, rfl⟩
  | @step key next link rest present names further ih =>
    rw [lineCharge_step entry present names] at bounded
    obtain ⟨fewer, rfl⟩ : ∃ fewer, remaining = fewer + 1 := ⟨remaining - 1, by omega⟩
    have admits : MayPass entry (fewer + 1) link := ⟨fun _ => Nat.succ_pos _, inKind.isCompaction present⟩
    have notRaw : ¬namesRawL0Inputs link = true := by
      intro raw
      rw [named_none_of_namesRawL0Inputs raw] at names
      cases names
    rcases walk_present (apart key mem_cons_self) present admits with refused | past
    · exact .inr refused
    · rw [past]
      unfold walkPast
      rw [if_neg notRaw, names]
      exact ih (passedPresent.cons present) (below_apart present names further apart) (by omega)
        (inKind.next present names)

end Lines

section Chases

variable {remaining : Nat} {visited : List RecordKey} {key start : RecordKey} {link : ChainLink}

theorem chase_passes {before after : Exclusions} {next : ChainLink}
    (chased : chase bucket.compactions bucket.rewrites (remaining + 1) visited key link before = .ok after)
    (names : link.named = some start) (present : recordAt bucket start = some next) (goesOn : next.endsChain = false) :
    ∃ passed, chase bucket.compactions bucket.rewrites remaining (key :: visited) start next passed = .ok after := by
  rw [chase] at chased
  split at chased
  · cases chased
  · rw [chaseStep_eq, names] at chased
    dsimp only at chased
    rw [followNamed_present present, goesOn] at chased
    exact ⟨_, chased⟩

/-- A version 1 record is a line that costs a rewrite's chase nothing. -/
theorem line_of_endsChain {next : ChainLink} (present : recordAt bucket start = some next) (ends : next.endsChain = true)
    (remaining : Nat) :
    ∃ keys, Line bucket.compactions bucket.rewrites start keys ∧ lineCharge bucket .rewrite keys ≤ remaining := by
  refine ⟨[start], .last present (ChainLink.endsChain_spec ends).1, ?_⟩
  rw [lineCharge_last .rewrite present, charges_rewrite, ends]
  exact Nat.zero_le _

/-- A chase that ends runs down a line within the depth. -/
theorem lineCharge_of_chase {before after : Exclusions}
    (chased : chase bucket.compactions bucket.rewrites (remaining + 1) visited key link before = .ok after)
    (names : link.named = some start) :
    ∃ keys, Line bucket.compactions bucket.rewrites start keys ∧ lineCharge bucket .rewrite keys ≤ remaining := by
  induction remaining generalizing visited key link before start with
  | zero =>
    cases present : recordAt bucket start with
    | none => exact ⟨[], .absent present, Nat.zero_le _⟩
    | some next =>
      cases ends : next.endsChain with
      | true => exact line_of_endsChain present ends _
      | false =>
        obtain ⟨passed, further⟩ := chase_passes chased names present ends
        rw [chase] at further
        split at further <;> cases further
  | succ remaining ih =>
    cases present : recordAt bucket start with
    | none => exact ⟨[], .absent present, Nat.zero_le _⟩
    | some next =>
      cases ends : next.endsChain with
      | true => exact line_of_endsChain present ends _
      | false =>
        obtain ⟨passed, further⟩ := chase_passes chased names present ends
        cases nextNames : next.named with
        | none =>
          refine ⟨[start], .last present nextNames, ?_⟩
          rw [lineCharge_last .rewrite present]
          split <;> omega
        | some lower =>
          obtain ⟨keys, line, bounded⟩ := ih further nextNames
          refine ⟨start :: keys, .step present nextNames line, ?_⟩
          rw [lineCharge_step .rewrite present nextNames]
          omega

/-- The chase down a line within the depth ends. -/
theorem chase_of_line {keys : List RecordKey} (line : Line bucket.compactions bucket.rewrites start keys)
    (names : link.named = some start) (fresh : key ∉ visited) (apart : ∀ lower ∈ keys, lower ∉ key :: visited)
    (bounded : lineCharge bucket .rewrite keys ≤ remaining) (before : Exclusions) :
    ∃ after, chase bucket.compactions bucket.rewrites (remaining + 1) visited key link before = .ok after := by
  induction line generalizing remaining visited key link before with
  | absent gone =>
    rw [chase, if_neg fresh, chaseStep_eq, names]
    dsimp only
    rw [followNamed_absent gone]
    exact ⟨_, rfl⟩
  | @last start next present ends =>
    rw [chase, if_neg fresh, chaseStep_eq, names]
    dsimp only
    rw [followNamed_present present]
    rw [lineCharge_last .rewrite present, charges_rewrite] at bounded
    cases endsHere : next.endsChain with
    | true => exact ⟨_, rfl⟩
    | false =>
      rw [endsHere] at bounded
      obtain ⟨fewer, rfl⟩ : ∃ fewer, remaining = fewer + 1 := ⟨remaining - 1, by simp at bounded; omega⟩
      dsimp only
      rw [if_neg (by decide)]
      dsimp only
      rw [chase, if_neg (apart start mem_cons_self), chaseStep_eq, ends]
      exact ⟨_, rfl⟩
  | @step start next found rest present foundNames further ih =>
    rw [lineCharge_step .rewrite present foundNames] at bounded
    obtain ⟨fewer, rfl⟩ : ∃ fewer, remaining = fewer + 1 := ⟨remaining - 1, by omega⟩
    have goesOn : found.endsChain = false := by
      have charged := charges_of_named .rewrite foundNames
      rw [charges_rewrite, Bool.not_eq_true'] at charged
      exact charged
    rw [chase, if_neg fresh, chaseStep_eq, names]
    dsimp only
    rw [followNamed_present present, goesOn]
    dsimp only
    rw [if_neg (by decide)]
    exact ih foundNames (apart start mem_cons_self) (below_apart present foundNames further apart) (by omega) _

end Chases

section Version2Chains

variable {remaining : Nat} {visited : List RecordKey} {current : CompactionRecord} {start : RecordKey}

/-- What a version 2 record names is a compaction record or absent, also for a walk that may pass rewrites. -/
theorem named_compaction (member : current ∈ bucket.compactions) (names : current.supersededRecordKey = some start) :
    recordAt bucket start = (compactionByKey bucket.compactions start).map ChainLink.compaction := by
  obtain ⟨inputSetHash16, rfl⟩ := bucket.namesCompaction current member start names
  rw [recordAt, linkAt]
  cases found : compactionByKey bucket.compactions (.compaction inputSetHash16) with
  | some record => rfl
  | none =>
    cases present : rewriteByKey bucket.rewrites (.compaction inputSetHash16) with
    | none => rfl
    | some record =>
      have same := find?_some present
      rw [decide_eq_true_eq] at same
      cases same

/-- A walk of the catalog that ends runs down a line within the depth. -/
theorem lineCharge_of_walkVersion2 (member : current ∈ bucket.compactions) (names : current.supersededRecordKey = some start)
    {before after : List RecordKey}
    (walked : walkVersion2 bucket.compactions (remaining + 1) visited current before = .ok after) :
    ∃ keys, Line bucket.compactions bucket.rewrites start keys ∧ lineCharge bucket .version2 keys ≤ remaining := by
  induction remaining generalizing visited current start before with
  | zero =>
    have present := named_compaction member names
    rw [walkVersion2] at walked
    split at walked
    · cases walked
    · rw [names, Option.bind_some] at walked
      cases found : compactionByKey bucket.compactions start with
      | none =>
        rw [found] at present
        exact ⟨[], .absent present, Nat.zero_le _⟩
      | some record =>
        rw [found] at walked
        dsimp only at walked
        rw [walkVersion2] at walked
        split at walked <;> cases walked
  | succ remaining ih =>
    have present := named_compaction member names
    rw [walkVersion2] at walked
    split at walked
    · cases walked
    · rw [names, Option.bind_some] at walked
      cases found : compactionByKey bucket.compactions start with
      | none =>
        rw [found] at present
        exact ⟨[], .absent present, Nat.zero_le _⟩
      | some record =>
        rw [found] at walked present
        cases further : record.supersededRecordKey with
        | none =>
          refine ⟨[start], .last present further, ?_⟩
          rw [lineCharge_last .version2 present]
          split <;> omega
        | some lower =>
          obtain ⟨keys, line, bounded⟩ := ih (compactionByKey_some found).1 further walked
          refine ⟨start :: keys, .step present further line, ?_⟩
          rw [lineCharge_step .version2 present further]
          omega

/-- The catalog's walk down a line within the depth ends. -/
theorem walkVersion2_of_line {keys : List RecordKey} (line : Line bucket.compactions bucket.rewrites start keys)
    (member : current ∈ bucket.compactions) (names : current.supersededRecordKey = some start)
    (fresh : current.key ∉ visited) (apart : ∀ lower ∈ keys, lower ∉ current.key :: visited)
    (bounded : lineCharge bucket .version2 keys ≤ remaining) (before : List RecordKey) :
    ∃ after, walkVersion2 bucket.compactions (remaining + 1) visited current before = .ok after := by
  induction line generalizing remaining visited current before with
  | absent gone =>
    have found := named_compaction member names
    rw [show recordAt bucket _ = none from gone, eq_comm, Option.map_eq_none_iff] at found
    rw [walkVersion2, if_neg fresh, names, Option.bind_some, found]
    exact ⟨_, rfl⟩
  | @last start next present ends =>
    have found := named_compaction member names
    rw [show recordAt bucket start = some next from present, eq_comm, Option.map_eq_some_iff] at found
    obtain ⟨record, found, rfl⟩ := found
    have atKey := (compactionByKey_some found).2
    obtain ⟨fewer, rfl⟩ : ∃ fewer, remaining = fewer + 1 := by
      rw [lineCharge_last .version2 present] at bounded
      exact ⟨remaining - 1, by simp [charges] at bounded; omega⟩
    rw [walkVersion2, if_neg fresh, names, Option.bind_some, found]
    dsimp only
    rw [walkVersion2, if_neg (atKey ▸ apart start mem_cons_self),
      show record.supersededRecordKey = none from ends]
    exact ⟨_, rfl⟩
  | @step start next found rest present foundNames further ih =>
    have located := named_compaction member names
    rw [show recordAt bucket start = some found from present, eq_comm, Option.map_eq_some_iff] at located
    obtain ⟨record, located, rfl⟩ := located
    obtain ⟨recordMember, atKey⟩ := compactionByKey_some located
    rw [lineCharge_step .version2 present foundNames] at bounded
    obtain ⟨fewer, rfl⟩ : ∃ fewer, remaining = fewer + 1 := ⟨remaining - 1, by omega⟩
    rw [walkVersion2, if_neg fresh, names, Option.bind_some, located]
    subst atKey
    exact ih recordMember foundNames (apart record.key mem_cons_self)
      (below_apart present foundNames further apart) (by omega) _

end Version2Chains

/-- A line below a record of the bucket does not come back to it. -/
theorem apart_of_named {key start : RecordKey} {link : ChainLink} {keys : List RecordKey}
    (present : recordAt bucket key = some link) (names : link.named = some start)
    (line : Line bucket.compactions bucket.rewrites start keys) : ∀ lower ∈ keys, lower ∉ [key] :=
  below_apart present names line fun _ _ => not_mem_nil

section Agreement

variable {refuseLinks : Bool} {named : RecordKey}

variable {walk : ChainWalk} {rewrite : RewriteRecord} {groups : List SupersededGroup} {after : Exclusions}
  {keys : List RecordKey}

theorem refused_iff (follows : walk ≠ .refused .version2Link) :
    (walk = .refused .tooDeep ∨ walk = .refused .cycle) ↔ ∀ groups, walk ≠ .gathered groups := by
  cases walk with
  | gathered groups => simp
  | refused reason =>
    cases reason with
    | version2Link => exact absurd rfl follows
    | tooDeep => simp
    | cycle => simp

theorem error_iff {Error Value : Type} (result : Except Error Value) :
    (∃ error, result = .error error) ↔ ¬∃ value, result = .ok value := by
  cases result with
  | ok value => simp
  | error error => simp

theorem gathered_iff_line {entry : ChainEntry} (inKind : InKind entry named)
    (walked : gatherSupersededChain bucket entry refuseLinks named = .ok walk)
    (follows : walk ≠ .refused .version2Link) : (∃ groups, walk = .gathered groups) ↔
      ∃ keys, Line bucket.compactions bucket.rewrites named keys ∧ lineCharge bucket entry keys ≤ maxChainDepth - 1 := by
  constructor
  · rintro ⟨groups, rfl⟩
    obtain ⟨keys, line, bounded, -⟩ := line_of_walk walked
    exact ⟨keys, line, bounded⟩
  · rintro ⟨keys, line, bounded⟩
    have passedPresent : PassedPresent bucket [] := fun _ absurd => (by cases absurd)
    have ends : (∃ groups, gatherSupersededChain bucket entry refuseLinks named = .ok (.gathered groups)) ∨
        gatherSupersededChain bucket entry refuseLinks named = .ok (.refused .version2Link) :=
      walk_of_line line passedPresent (fun _ _ => not_mem_nil) bounded inKind
    rw [walked] at ends
    rcases ends with ⟨groups, gathers⟩ | refuses
    · rw [Except.ok.injEq] at gathers
      exact ⟨groups, gathers⟩
    · rw [Except.ok.injEq] at refuses
      exact absurd refuses follows

theorem resolve_ok_iff_line (member : rewrite ∈ bucket.rewrites) (names : rewrite.supersededRecordKey = some named) :
    (∃ after, resolveRewriteSupersession bucket.compactions bucket.rewrites ⟨[], []⟩ rewrite = .ok after) ↔
      ∃ keys, Line bucket.compactions bucket.rewrites named keys ∧ lineCharge bucket .rewrite keys ≤ maxChainDepth - 1 := by
  have present := recordAt_rewrite member
  constructor
  · rintro ⟨after, chased⟩
    exact lineCharge_of_chase chased names
  · rintro ⟨keys, line, bounded⟩
    apply chase_of_line line _ not_mem_nil (apart_of_named present names line) bounded
    exact names

theorem walkVersion2_ok_iff_line {record : CompactionRecord} (member : record ∈ bucket.compactions)
    (names : record.supersededRecordKey = some named) (before : List RecordKey) :
    (∃ after, walkVersion2 bucket.compactions maxRewriteSupersessionDepth [] record before = .ok after) ↔
      ∃ keys, Line bucket.compactions bucket.rewrites named keys ∧ lineCharge bucket .version2 keys ≤ maxChainDepth - 1 := by
  have present := recordAt_compaction member
  constructor
  · rintro ⟨after, walked⟩
    exact lineCharge_of_walkVersion2 member names walked
  · rintro ⟨keys, line, bounded⟩
    exact walkVersion2_of_line line member names not_mem_nil (apart_of_named present names line) bounded before

theorem walk_follows {entry : ChainEntry} {predecessorKey key : RecordKey} {remaining : Nat} {seen : List RecordKey}
    {above : Option ChainLink} {passed : Passed} :
    walkSupersededChain bucket entry false predecessorKey remaining seen above key passed ≠ .ok (.refused .version2Link) := by
  induction remaining using Nat.strong_induction_on generalizing seen above key passed with
  | _ remaining ih =>
    rw [walkSupersededChain.eq_def]
    dsimp only
    split
    · simp
    · split
      · simp
      · rw [Bool.false_and, if_neg (by decide)]
        split
        · simp
        · split
          · simp
          · split
            · simp
            · split
              · simp
              · simp
              · exact ih _ (Nat.lt_succ_self _)

/-- The chain records of a walk are the present records that the resolver supersedes. -/
theorem mem_chainRecords (names : rewrite.supersededRecordKey = some named)
    (gathered : gatherSupersededChain bucket .rewrite refuseLinks named = .ok (.gathered groups))
    (resolved : resolveRewriteSupersession bucket.compactions bucket.rewrites ⟨[], []⟩ rewrite = .ok after)
    (key : RecordKey) : key ∈ groups.flatMap SupersededGroup.chainRecordKeys ↔
      key ∈ after.supersededRecords ∧ (recordAt bucket key).isSome := by
  obtain ⟨keys, inputs, absentEnd, walked, found⟩ := gatherSupersededChain_spec gathered
  have onLine : key ∈ groups.flatMap SupersededGroup.chainRecordKeys ↔ key ∈ keys := by
    rcases found with ⟨rfl, rfl⟩ | ⟨oldest, -, rfl⟩ <;> simp
  have reached : key ∈ after.supersededRecords ↔ Reaches bucket.compactions bucket.rewrites (.rewrite rewrite) key := by
    rw [(chase_adds resolved).superseded]
    simp
  have linkNames : (ChainLink.rewrite rewrite).named = some named := names
  rw [onLine, reached, Option.isSome_iff_exists]
  constructor
  · intro member
    exact ⟨walked.line.reaches linkNames member, walked.line.present member⟩
  · rintro ⟨reaches, link, present⟩
    exact walked.line.mem_of_reaches linkNames reaches present

/-- The raw inputs that a walk from a rewrite gathers are those that still have their commit record. -/
theorem mem_rawInputKeys_iff {inputs : List InputIdentity} (identity : InputIdentity) :
    identity ∈ (rawInputKeys bucket .rewrite inputs).1 ↔
      identity ∈ inputs ∧ ∃ commit ∈ bucket.commits, commit.identity = identity := by
  constructor
  · intro member
    obtain ⟨group, inside, isKey⟩ := mem_flatMap.mp member
    obtain ⟨commit, listed, named, rfl⟩ := mem_gatherL0Inputs inside
    rw [mem_singleton.mp isKey]
    exact ⟨named, commit, listed, rfl⟩
  · rintro ⟨named, commit, listed, rfl⟩
    exact rawInputKeys_of_mem listed named

theorem mem_rawInputs (line : Line bucket.compactions bucket.rewrites named keys)
    (gathered : gatherSupersededChain bucket .rewrite refuseLinks named = .ok (.gathered groups))
    (identity : InputIdentity) : identity ∈ groups.flatMap SupersededGroup.recordKeys ↔
      (∃ oldest last, keys.getLast? = some oldest ∧ recordAt bucket oldest = some last ∧ identity ∈ last.inputs) ∧
        ∃ commit ∈ bucket.commits, commit.identity = identity := by
  obtain ⟨others, inputs, absentEnd, walked, found⟩ := gatherSupersededChain_spec gathered
  cases walked.line.unique line
  rcases found with ⟨rfl, rfl⟩ | ⟨oldest, isLast, rfl⟩
  · simp
  · obtain ⟨last, present⟩ := line.present (mem_of_getLast? isLast)
    have present : recordAt bucket oldest = some last := present
    rw [flatMap_singleton, walked.inputs oldest last isLast present, mem_rawInputKeys_iff, isLast]
    simp [present]

/-- Each record of the line hands its inputs on to the record that it names. -/
def HandsOn (bucket : Bucket) (keys : List RecordKey) : Prop :=
  ∀ key ∈ keys, ∀ link, recordAt bucket key = some link → ∀ next, link.named = some next →
    ∀ found, recordAt bucket next = some found → ∀ identity ∈ link.inputs, identity ∈ found.inputs

theorem handsOn_of_check (checked : checkVersion2Inputs bucket.compactions = .ok ()) (keys : List RecordKey) :
    HandsOn bucket keys := by
  have consistent : ConsistentInputs bucket.compactions :=
    ⟨bucket.namesCompaction, fun record member predecessor predecessorMember names =>
      inputs_iff_of_check bucket.compactionsNodup checked member predecessorMember names⟩
  intro key _ link present next names found foundAt identity inside
  exact next_inputs consistent present names foundAt inside

/-- A rewrite that names a record has no inputs to hand on. -/
theorem handsOn_of_refused
    (admitted : ∀ lower ∈ keys, ∀ link, recordAt bucket lower = some link → isVersion2Compaction link = false) :
    HandsOn bucket keys := by
  intro key member link present next names found _ identity inside
  cases link with
  | rewrite record =>
    rw [show (ChainLink.rewrite record).inputs = [] from rawInputs_eq_nil names] at inside
    cases inside
  | compaction record =>
    have notVersion2 := admitted key member _ present
    rw [isVersion2Compaction, show record.supersededRecordKey = some next from names] at notVersion2
    cases notVersion2

/-- The raw inputs of a walk are among the identities that the resolver excludes, and are all of those that are present where
the records of the line hand their inputs on. -/
theorem mem_rawInputs_iff_excluded (names : rewrite.supersededRecordKey = some named)
    (gathered : gatherSupersededChain bucket .rewrite refuseLinks named = .ok (.gathered groups))
    (resolved : resolveRewriteSupersession bucket.compactions bucket.rewrites ⟨[], []⟩ rewrite = .ok after)
    (line : Line bucket.compactions bucket.rewrites named keys) (handsOn : HandsOn bucket keys)
    (identity : InputIdentity) : identity ∈ groups.flatMap SupersededGroup.recordKeys ↔
      identity ∈ after.excluded ∧ ∃ commit ∈ bucket.commits, commit.identity = identity := by
  have linkNames : (ChainLink.rewrite rewrite).named = some named := names
  have excluded : identity ∈ after.excluded ↔
      EffectiveInput bucket.compactions bucket.rewrites (.rewrite rewrite) identity := by
    rw [(chase_adds resolved).excluded]
    simp
  rw [mem_rawInputs line gathered, excluded]
  apply and_congr_left
  intro _
  constructor
  · rintro ⟨oldest, last, isLast, present, inside⟩
    exact .inr ⟨oldest, last, line.reaches linkNames (mem_of_getLast? isLast), present, inside⟩
  · rintro (own | ⟨key, next, reaches, present, inside⟩)
    · rw [rawInputs_eq_nil linkNames] at own
      cases own
    · have member := line.mem_of_reaches linkNames reaches present
      obtain ⟨oldest, isLast⟩ : ∃ oldest, keys.getLast? = some oldest :=
        Option.isSome_iff_exists.mp (getLast?_isSome.mpr (ne_nil_of_mem member))
      obtain ⟨last, lastPresent⟩ := line.present (mem_of_getLast? isLast)
      exact ⟨oldest, last, isLast, lastPresent, line.inputs_subset_last isLast lastPresent handsOn member present inside⟩

end Agreement

/-- What a walk entered from a rewrite agrees on with the catalog's resolution of that rewrite. -/
structure AgreesWithResolver (bucket : Bucket) (refuseLinks : Bool) (rewrite : RewriteRecord) (walk : ChainWalk) : Prop where
  refused : (walk = .refused .tooDeep ∨ walk = .refused .cycle) ↔
    ∃ error, resolveRewriteSupersession bucket.compactions bucket.rewrites ⟨[], []⟩ rewrite = .error error
  records : ∀ groups, walk = .gathered groups → ∀ after,
    resolveRewriteSupersession bucket.compactions bucket.rewrites ⟨[], []⟩ rewrite = .ok after → ∀ key,
      key ∈ groups.flatMap SupersededGroup.chainRecordKeys ↔
        key ∈ after.supersededRecords ∧ (linkAt bucket.compactions bucket.rewrites key).isSome
  inputs : refuseLinks = true ∨ checkVersion2Inputs bucket.compactions = .ok () → ∀ groups, walk = .gathered groups →
    ∀ after, resolveRewriteSupersession bucket.compactions bucket.rewrites ⟨[], []⟩ rewrite = .ok after → ∀ identity,
      identity ∈ groups.flatMap SupersededGroup.recordKeys ↔
        identity ∈ after.excluded ∧ ∃ commit ∈ bucket.commits, commit.identity = identity

theorem agreesWithResolver {refuseLinks : Bool} {rewrite : RewriteRecord} (member : rewrite ∈ bucket.rewrites)
    {named : RecordKey} (names : rewrite.supersededRecordKey = some named) {walk : ChainWalk}
    (walked : gatherSupersededChain bucket .rewrite refuseLinks named = .ok walk) (follows : walk ≠ .refused .version2Link) :
    AgreesWithResolver bucket refuseLinks rewrite walk where
  refused := by
    have inKind : InKind .rewrite named := fun absurd => (by cases absurd)
    rw [refused_iff follows, error_iff, resolve_ok_iff_line member names, ← gathered_iff_line inKind walked follows]
    simp
  records := by
    intro groups gathers after resolved
    exact mem_chainRecords names (gathers ▸ walked) resolved
  inputs := by
    intro trusted groups gathers after resolved
    rw [gathers] at walked
    obtain ⟨keys, line, -, admitted⟩ := line_of_walk walked
    have handsOn : HandsOn bucket keys := by
      rcases trusted with refuses | checked
      · rw [refuses] at admitted
        exact handsOn_of_refused admitted
      · exact handsOn_of_check checked keys
    exact mem_rawInputs_iff_excluded names walked resolved line handsOn

/-- The sweep's walk agrees with the catalog's chases on every chain. From a rewrite it refuses exactly when the resolver fails,
and otherwise gathers the present records that the resolver supersedes, and the present inputs that it excludes where the
walk refuses version 2 links or their inputs have been checked. From a version 2 record it refuses exactly when the
catalog's walk fails. -/
theorem walk_agrees_with_catalog (bucket : Bucket) (refuseLinks : Bool) :
    (∀ rewrite ∈ bucket.rewrites, ∀ named, rewrite.supersededRecordKey = some named →
      ∃ walk, gatherSupersededChain bucket .rewrite refuseLinks named = .ok walk ∧
        (refuseLinks = false → walk ≠ .refused .version2Link) ∧
        (walk ≠ .refused .version2Link → AgreesWithResolver bucket refuseLinks rewrite walk)) ∧
    (∀ record ∈ bucket.compactions, ∀ named, record.supersededRecordKey = some named →
      ∃ walk, gatherSupersededChain bucket .version2 refuseLinks named = .ok walk ∧
        (refuseLinks = false → walk ≠ .refused .version2Link) ∧
        (walk ≠ .refused .version2Link → ∀ superseded,
          ((walk = .refused .tooDeep ∨ walk = .refused .cycle) ↔
            ∃ error, walkVersion2 bucket.compactions maxRewriteSupersessionDepth [] record superseded = .error error))) := by
  have followed : ∀ {entry named walk}, gatherSupersededChain bucket entry refuseLinks named = .ok walk →
      refuseLinks = false → walk ≠ .refused .version2Link := by
    intro entry named walk walked follows refused
    rw [follows, refused] at walked
    exact walk_follows walked
  constructor
  · intro rewrite member named names
    obtain ⟨walk, walked⟩ : ∃ walk, gatherSupersededChain bucket .rewrite refuseLinks named = .ok walk :=
      walk_ok fun absurd => (by cases absurd)
    exact ⟨walk, walked, followed walked, agreesWithResolver member names walked⟩
  · intro record member named names
    have inKind : InKind .version2 named := fun _ => bucket.namesCompaction record member named names
    obtain ⟨walk, walked⟩ : ∃ walk, gatherSupersededChain bucket .version2 refuseLinks named = .ok walk := walk_ok inKind
    refine ⟨walk, walked, followed walked, ?_⟩
    intro follows superseded
    rw [refused_iff follows, error_iff, walkVersion2_ok_iff_line member names, ← gathered_iff_line inKind walked follows]
    simp

/-- A raw commit of the bucket below. -/
def divergedInput (writerSeq : Nat) : CommitRecord :=
  ⟨⟨"writer", 1, writerSeq⟩, writerSeq * 2 ^ 192, 0, 10, 5⟩

/-- A rewrite over a version 2 record whose inputs are not those of the record that it names. -/
def divergedBucket : Bucket where
  hasTombstone := false
  commits := [divergedInput 1, divergedInput 2]
  compactions :=
    [⟨[(divergedInput 1).identity], 3 * 2 ^ 192, some (.compaction 4), [], 6⟩,
      ⟨[(divergedInput 2).identity], 4 * 2 ^ 192, none, [], 5⟩]
  rewrites := [⟨[], 5 * 2 ^ 192, some (.compaction 3), [], [], 7, .refl true⟩]
  commitsNodup := by decide
  compactionsNodup := by decide
  rewritesNodup := by decide
  namesCompaction := by
    intro record member key names
    simp only [mem_cons, not_mem_nil, or_false] at member
    rcases member with rfl | rfl
    · exact ⟨4, (Option.some.inj names).symm⟩
    · cases names

/-- The resolver excludes the inputs of both records, and the walk gathers those of the oldest alone. -/
theorem walk_leaves_version2_inputs :
    ∃ groups after, gatherSupersededChain divergedBucket .rewrite false (.compaction 3) = .ok (.gathered groups) ∧
      divergedBucket.rewrites.map (resolveRewriteSupersession divergedBucket.compactions divergedBucket.rewrites ⟨[], []⟩) =
        [.ok after] ∧
      (divergedInput 1).identity ∈ after.excluded ∧ divergedInput 1 ∈ divergedBucket.commits ∧
      (divergedInput 1).identity ∉ groups.flatMap SupersededGroup.recordKeys :=
  ⟨[⟨[(divergedInput 2).identity], [(divergedInput 2).dataKey], [.compaction 4, .compaction 3], none,
      .record (.compaction 4)⟩],
    ⟨[(divergedInput 2).identity, (divergedInput 1).identity], [.compaction 4, .compaction 3]⟩,
    by decide +kernel, by decide +kernel, by decide, by decide, by decide⟩

end Ravel.Maintain
