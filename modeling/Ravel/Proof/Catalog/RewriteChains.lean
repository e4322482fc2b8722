import Ravel.Proof.Catalog.AuthoritativeSelection

namespace Ravel.Catalog

open List Library

/-- The raw inputs that the chase excludes when it stands at a link. Those of a compaction record are excluded
already. -/
def ChainLink.rawInputs : ChainLink → List InputIdentity
  | .rewrite record => record.inputs
  | .compaction _ => []

/-- The keys on the chain below a link. The last of them need not be present. -/
inductive Reaches (compactions : List CompactionRecord) (rewrites : List RewriteRecord) :
    ChainLink → RecordKey → Prop
  | named {link : ChainLink} {key : RecordKey} (names : link.named = some key) : Reaches compactions rewrites link key
  | through {link next : ChainLink} {middle key : RecordKey} (names : link.named = some middle)
      (present : linkAt compactions rewrites middle = some next) (further : Reaches compactions rewrites next key) :
      Reaches compactions rewrites link key

/-- The inputs of a rewrite: its own, or those of the records on its chain. -/
def EffectiveInput (compactions : List CompactionRecord) (rewrites : List RewriteRecord) (link : ChainLink)
    (identity : InputIdentity) : Prop :=
  identity ∈ link.rawInputs ∨ ∃ key next, Reaches compactions rewrites link key ∧
    linkAt compactions rewrites key = some next ∧ identity ∈ next.inputs

variable {compactions : List CompactionRecord} {rewrites : List RewriteRecord}

/-- A present compaction record is found under its key. -/
theorem linkAt_compaction (distinct : KeysNodup compactions) {record : CompactionRecord}
    (member : record ∈ compactions) : linkAt compactions rewrites record.key = some (.compaction record) := by
  rw [linkAt, compactionByKey_of_mem distinct member]

theorem compactionByKey_rewrite (compactions : List CompactionRecord) (inputSetHash16 : Nat) :
    compactionByKey compactions (.rewrite inputSetHash16) = none := by
  rw [compactionByKey, find?_eq_none]
  intro record _
  rw [CompactionRecord.key, decide_eq_true_eq]
  intro same
  cases same

/-- A present rewrite record is found under its key. -/
theorem linkAt_rewrite (compactions : List CompactionRecord) (distinct : (rewrites.map RewriteRecord.key).Nodup)
    {record : RewriteRecord} (member : record ∈ rewrites) : linkAt compactions rewrites record.key = some (.rewrite record) := by
  rw [linkAt, RewriteRecord.key, compactionByKey_rewrite]
  cases found : rewriteByKey rewrites (.rewrite (hash16 record.inputSetHash)) with
  | none =>
    have absent := find?_eq_none.mp found record member
    rw [decide_eq_true_eq] at absent
    exact absurd rfl absent
  | some other =>
    have same := find?_some found
    rw [decide_eq_true_eq] at same
    rw [inj_on_of_nodup_map distinct (mem_of_find?_eq_some found) member same]
    rfl

variable {key : RecordKey} {link : ChainLink} {middle : RecordKey} {next : ChainLink} {named : RecordKey}
  {before after : Exclusions} {remaining : Nat} {visited : List RecordKey} {fewer : List CompactionRecord}
  {fewerRewrites starts : List RewriteRecord}

theorem linkAt_some (present : linkAt compactions rewrites key = some link) :
    (∃ record ∈ compactions, record.key = key ∧ link = .compaction record) ∨
      ∃ record ∈ rewrites, record.key = key ∧ link = .rewrite record := by
  rw [linkAt] at present
  cases found : compactionByKey compactions key with
  | some record =>
    rw [found, Option.some.injEq] at present
    obtain ⟨member, same⟩ := compactionByKey_some found
    exact .inl ⟨record, member, same, present.symm⟩
  | none =>
    rw [found, Option.map_eq_some_iff] at present
    obtain ⟨record, rewriteFound, rfl⟩ := present
    have same := find?_some rewriteFound
    rw [decide_eq_true_eq] at same
    exact .inr ⟨record, mem_of_find?_eq_some rewriteFound, same, rfl⟩

theorem Reaches.cases_named (reaches : Reaches compactions rewrites link key) :
    ∃ middle, link.named = some middle ∧ (key = middle ∨ ∃ next, linkAt compactions rewrites middle = some next ∧
      Reaches compactions rewrites next key) := by
  cases reaches with
  | named names => exact ⟨key, names, .inl rfl⟩
  | through names present further => exact ⟨_, names, .inr ⟨_, present, further⟩⟩

/-- The keys below a link that names one: that key, and those below the record there. -/
theorem reaches_iff (names : link.named = some middle) (key : RecordKey) :
    Reaches compactions rewrites link key ↔ key = middle ∨ ∃ next, linkAt compactions rewrites middle = some next ∧
      Reaches compactions rewrites next key := by
  constructor
  · intro reaches
    obtain ⟨other, otherNames, rest⟩ := reaches.cases_named
    rw [names, Option.some.injEq] at otherNames
    rw [otherNames]
    exact rest
  · intro rest
    rcases rest with rfl | ⟨next, present, further⟩
    · exact .named names
    · exact .through names present further

theorem not_reaches_of_named_none (link : ChainLink) (names : link.named = none) (key : RecordKey) :
    ¬Reaches compactions rewrites link key := by
  intro reaches
  obtain ⟨middle, some, -⟩ := reaches.cases_named
  rw [names] at some
  cases some

/-- A chain goes on from every record on it. -/
theorem Reaches.trans (reaches : Reaches compactions rewrites link middle)
    (present : linkAt compactions rewrites middle = some next) (further : Reaches compactions rewrites next key) :
    Reaches compactions rewrites link key := by
  induction reaches with
  | named names => exact .through names present further
  | through names inner _ ih => exact .through names inner (ih present)

theorem Reaches.last (reaches : Reaches compactions rewrites link key) :
    link.named = some key ∨ ∃ middle found, Reaches compactions rewrites link middle ∧
      linkAt compactions rewrites middle = some found ∧ found.named = some key := by
  induction reaches with
  | named names => exact .inl names
  | through names present _ ih =>
    refine .inr ?_
    rcases ih with direct | ⟨middle, found, inner, there, foundNames⟩
    · exact ⟨_, _, .named names, present, direct⟩
    · exact ⟨middle, found, .through names present inner, there, foundNames⟩

theorem effectiveInput_iff (names : link.named = some middle)
    (present : linkAt compactions rewrites middle = some next) (identity : InputIdentity) :
    EffectiveInput compactions rewrites link identity ↔
      identity ∈ link.rawInputs ∨ identity ∈ next.inputs ∨ EffectiveInput compactions rewrites next identity := by
  constructor
  · intro effective
    rcases effective with own | ⟨key, other, reaches, found, member⟩
    · exact .inl own
    · rcases (reaches_iff names key).mp reaches with rfl | ⟨after, afterPresent, further⟩
      · rw [present, Option.some.injEq] at found
        exact .inr (.inl (found ▸ member))
      · rw [present, Option.some.injEq] at afterPresent
        exact .inr (.inr (.inr ⟨key, other, afterPresent ▸ further, found, member⟩))
  · intro parts
    rcases parts with own | direct | own | ⟨key, other, further, found, member⟩
    · exact .inl own
    · exact .inr ⟨middle, next, .named names, present, direct⟩
    · refine .inr ⟨middle, next, .named names, present, ?_⟩
      cases next with
      | rewrite record => exact own
      | compaction record => cases own
    · exact .inr ⟨key, other, .through names present further, found, member⟩

theorem effectiveInput_iff_of_end (link : ChainLink)
    (ends : ∀ key, link.named = some key → linkAt compactions rewrites key = none) (identity : InputIdentity) :
    EffectiveInput compactions rewrites link identity ↔ identity ∈ link.rawInputs := by
  constructor
  · intro effective
    rcases effective with own | ⟨key, other, reaches, found, -⟩
    · exact own
    · obtain ⟨middle, names, rfl | ⟨next, present, -⟩⟩ := reaches.cases_named
      · rw [ends _ names] at found
        cases found
      · rw [ends _ names] at present
        cases present
  · exact .inl

/-- A rewrite names a record exactly when it lists no raw inputs. -/
theorem chaseStep_eq (link : ChainLink) (exclusions : Exclusions) :
    chaseStep compactions rewrites link exclusions =
      match link.named with
      | none => .done { exclusions with excluded := link.rawInputs ++ exclusions.excluded }
      | some named => followNamed compactions rewrites named exclusions := by
  cases link with
  | compaction record =>
    rw [chaseStep, ChainLink.named]
    cases record.supersededRecordKey with
    | none => rfl
    | some named => rfl
  | rewrite record =>
    rw [chaseStep, ChainLink.named]
    have replacesOne := record.replacesOne
    cases named : record.supersededRecordKey with
    | none =>
      rw [named] at replacesOne
      rw [replacesOne]
      rfl
    | some key =>
      rw [named] at replacesOne
      rw [replacesOne]
      rfl

/-- What a chase adds to the exclusions of its caller. -/
structure Adds (compactions : List CompactionRecord) (rewrites : List RewriteRecord) (link : ChainLink)
    (before after : Exclusions) : Prop where
  superseded : ∀ key, key ∈ after.supersededRecords ↔
    key ∈ before.supersededRecords ∨ Reaches compactions rewrites link key
  excluded : ∀ identity, identity ∈ after.excluded ↔
    identity ∈ before.excluded ∨ EffectiveInput compactions rewrites link identity

theorem rawInputs_eq_nil (names : link.named = some named) : link.rawInputs = [] := by
  cases link with
  | compaction record => rfl
  | rewrite record =>
    have replacesOne := record.replacesOne
    rw [show record.supersededRecordKey = some named from names, Option.isSome_some, List.isEmpty_iff] at replacesOne
    exact replacesOne

/-- The inputs that the chase excludes when it goes on to a record. -/
def ChainLink.passedInputs : ChainLink → List InputIdentity
  | .rewrite _ => []
  | .compaction record => record.inputs

/-- The inputs of a record, in the two parts in which the chase excludes them. -/
theorem mem_inputs_iff (link : ChainLink) (identity : InputIdentity) :
    identity ∈ link.inputs ↔ identity ∈ link.passedInputs ∨ identity ∈ link.rawInputs := by
  cases link with
  | rewrite record => simp [ChainLink.inputs, ChainLink.passedInputs, ChainLink.rawInputs]
  | compaction record => simp [ChainLink.inputs, ChainLink.passedInputs, ChainLink.rawInputs]

theorem followNamed_absent (absent : linkAt compactions rewrites named = none) (exclusions : Exclusions) :
    followNamed compactions rewrites named exclusions =
      .done { exclusions with supersededRecords := named :: exclusions.supersededRecords } := by
  rw [followNamed]
  cases found : compactionByKey compactions named with
  | some record =>
    rw [linkAt, found] at absent
    cases absent
  | none =>
    rw [linkAt, found, Option.map_eq_none_iff] at absent
    rw [absent]

/-- A version 1 record ends the chase as it is passed. -/
def ChainLink.endsChain : ChainLink → Bool
  | .rewrite _ => false
  | .compaction record => record.supersededRecordKey.isNone

theorem ChainLink.endsChain_spec (ends : link.endsChain = true) : link.named = none ∧ link.rawInputs = [] := by
  cases link with
  | rewrite record => cases ends
  | compaction record => exact ⟨Option.isNone_iff_eq_none.mp ends, rfl⟩

/-- A present record joins the superseded keys, and its listed inputs the excluded ones. -/
theorem followNamed_present (present : linkAt compactions rewrites named = some next) (exclusions : Exclusions) :
    followNamed compactions rewrites named exclusions =
      let passed : Exclusions :=
        ⟨next.passedInputs ++ exclusions.excluded, named :: exclusions.supersededRecords⟩
      if next.endsChain then .done passed else .next named next passed := by
  rw [followNamed]
  cases found : compactionByKey compactions named with
  | some record =>
    rw [linkAt, found, Option.some.injEq] at present
    subst present
    cases names : record.supersededRecordKey with
    | none => simp [ChainLink.endsChain, ChainLink.passedInputs, names]
    | some further => simp [ChainLink.endsChain, ChainLink.passedInputs, names]
  | none =>
    rw [linkAt, found, Option.map_eq_some_iff] at present
    obtain ⟨record, rewriteFound, rfl⟩ := present
    rw [rewriteFound]
    rfl

theorem Adds.of_named (names : link.named = some named) (present : linkAt compactions rewrites named = some next)
    (adds : Adds compactions rewrites next ⟨next.passedInputs ++ before.excluded, named :: before.supersededRecords⟩ after) :
    Adds compactions rewrites link before after where
  superseded := by
    intro key
    rw [adds.superseded, reaches_iff names, present, mem_cons, or_assoc, or_left_comm]
    simp
  excluded := by
    intro identity
    rw [adds.excluded, effectiveInput_iff names present, rawInputs_eq_nil names, mem_inputs_iff, mem_append]
    have own : identity ∈ next.rawInputs → EffectiveInput compactions rewrites next identity := .inl
    simp only [not_mem_nil, false_or]
    tauto

theorem adds_nothing (names : link.named = none) (noRaw : link.rawInputs = []) (exclusions : Exclusions) :
    Adds compactions rewrites link exclusions exclusions where
  superseded := by simp [not_reaches_of_named_none link names]
  excluded := by
    intro identity
    rw [effectiveInput_iff_of_end link (by simp [names]), noRaw]
    simp

/-- A chase that ends adds the keys on the chain and the effective inputs. -/
theorem chase_adds (chased : chase compactions rewrites remaining visited key link before = .ok after) :
    Adds compactions rewrites link before after := by
  induction remaining generalizing visited key link before with
  | zero =>
    rw [chase] at chased
    split at chased <;> cases chased
  | succ remaining ih =>
    rw [chase] at chased
    split at chased
    · cases chased
    · rw [chaseStep_eq] at chased
      cases names : link.named with
      | none =>
        rw [names] at chased
        cases chased
        constructor
        · simp [not_reaches_of_named_none link names]
        · intro identity
          rw [effectiveInput_iff_of_end link (by simp [names]), mem_append, or_comm]
      | some named =>
        simp only [names] at chased
        cases present : linkAt compactions rewrites named with
        | none =>
          rw [followNamed_absent present] at chased
          cases chased
          constructor
          · intro other
            rw [reaches_iff names, present]
            simp [or_comm]
          · intro identity
            rw [effectiveInput_iff_of_end link (by simp [names, present]), rawInputs_eq_nil names]
            simp
        | some next =>
          refine Adds.of_named names present ?_
          rw [followNamed_present present] at chased
          cases ends : next.endsChain with
          | true =>
            simp only [ends, if_true] at chased
            cases chased
            exact adds_nothing (ChainLink.endsChain_spec ends).1 (ChainLink.endsChain_spec ends).2 _
          | false =>
            simp only [ends, Bool.false_eq_true, if_false] at chased
            exact ih chased

/-- Every record that is present at a key in the first listing is the one at that key in the second. -/
def FewerLinks (compactions others : List CompactionRecord) (rewrites otherRewrites : List RewriteRecord) : Prop :=
  ∀ key next, linkAt compactions rewrites key = some next → linkAt others otherRewrites key = some next

/-- A chase that ends over some records ends over fewer, whatever the exclusions before it. -/
theorem chase_ok_of_fewer (links : FewerLinks fewer compactions fewerRewrites rewrites)
    (chased : chase compactions rewrites remaining visited key link before = .ok after) (other : Exclusions) :
    ∃ result, chase fewer fewerRewrites remaining visited key link other = .ok result := by
  induction remaining generalizing visited key link before other with
  | zero =>
    rw [chase] at chased
    split at chased <;> cases chased
  | succ remaining ih =>
    rw [chase] at chased ⊢
    split at chased
    · cases chased
    · rename_i fresh
      rw [if_neg fresh, chaseStep_eq]
      rw [chaseStep_eq] at chased
      cases names : link.named with
      | none => exact ⟨_, rfl⟩
      | some named =>
        simp only [names] at chased
        dsimp only
        cases present : linkAt fewer fewerRewrites named with
        | none =>
          rw [followNamed_absent present]
          exact ⟨_, rfl⟩
        | some next =>
          rw [followNamed_present (links named next present)] at chased
          rw [followNamed_present present]
          cases ends : next.endsChain with
          | true =>
            simp only [if_true]
            exact ⟨_, rfl⟩
          | false =>
            simp only [ends, Bool.false_eq_true, if_false] at chased ⊢
            exact ih chased _

/-- When the chains of a list of rewrites end, each of them ends. -/
theorem resolveRewrites_each (resolved : resolveRewrites compactions rewrites starts before = .ok after) :
    ∀ start ∈ starts, ∃ first last, resolveRewriteSupersession compactions rewrites first start = .ok last := by
  induction starts generalizing before with
  | nil => simp
  | cons start rest ih =>
    rw [resolveRewrites] at resolved
    obtain ⟨middle, first, resolved⟩ := ok_of_bind resolved
    rw [forall_mem_cons]
    exact ⟨⟨before, middle, first⟩, ih resolved⟩

/-- The chains of fewer starts over fewer records end. -/
theorem resolveRewrites_ok_of_fewer (links : FewerLinks fewer compactions fewerRewrites rewrites)
    {fewerStarts : List RewriteRecord} (subset : ∀ start ∈ fewerStarts, start ∈ starts)
    (resolved : resolveRewrites compactions rewrites starts before = .ok after) (other : Exclusions) :
    ∃ result, resolveRewrites fewer fewerRewrites fewerStarts other = .ok result := by
  have each := resolveRewrites_each resolved
  induction fewerStarts generalizing other with
  | nil => exact ⟨_, rfl⟩
  | cons start rest ih =>
    rw [forall_mem_cons] at subset
    obtain ⟨first, last, chased⟩ := each start subset.1
    obtain ⟨middle, restarted⟩ := chase_ok_of_fewer links chased other
    have same : resolveRewriteSupersession fewer fewerRewrites other start = .ok middle := restarted
    obtain ⟨result, rest⟩ := ih subset.2 middle
    refine ⟨result, ?_⟩
    rw [resolveRewrites, same]
    exact rest

/-- A chain of some rewrite reaches the key. -/
def ReachedByRewrite (compactions : List CompactionRecord) (rewrites : List RewriteRecord) (key : RecordKey) : Prop :=
  ∃ rewrite ∈ rewrites, Reaches compactions rewrites (.rewrite rewrite) key

/-- The identity is an effective input of some rewrite. -/
def ErasedInput (compactions : List CompactionRecord) (rewrites : List RewriteRecord) (identity : InputIdentity) :
    Prop :=
  ∃ rewrite ∈ rewrites, EffectiveInput compactions rewrites (.rewrite rewrite) identity

theorem resolveRewrites_adds (resolved : resolveRewrites compactions rewrites starts before = .ok after) :
    (∀ key, key ∈ after.supersededRecords ↔ key ∈ before.supersededRecords ∨
      ∃ rewrite ∈ starts, Reaches compactions rewrites (.rewrite rewrite) key) ∧
    ∀ identity, identity ∈ after.excluded ↔ identity ∈ before.excluded ∨
      ∃ rewrite ∈ starts, EffectiveInput compactions rewrites (.rewrite rewrite) identity := by
  induction starts generalizing before with
  | nil =>
    cases resolved
    simp
  | cons start rest ih =>
    rw [resolveRewrites] at resolved
    obtain ⟨middle, first, resolved⟩ := ok_of_bind resolved
    obtain ⟨superseded, excluded⟩ := ih resolved
    have adds := chase_adds first
    constructor
    · intro key
      rw [superseded, adds.superseded, or_assoc]
      simp
    · intro identity
      rw [excluded, adds.excluded, or_assoc]
      simp

theorem resolveRewrites_spec {exclusions : Exclusions}
    (resolved : resolveRewrites compactions rewrites rewrites ⟨[], []⟩ = .ok exclusions) :
    (∀ key, key ∈ exclusions.supersededRecords ↔ ReachedByRewrite compactions rewrites key) ∧
      ∀ identity, identity ∈ exclusions.excluded ↔ ErasedInput compactions rewrites identity := by
  obtain ⟨superseded, excluded⟩ := resolveRewrites_adds resolved
  constructor
  · intro key
    rw [superseded, ReachedByRewrite]
    simp
  · intro identity
    rw [excluded, ErasedInput]
    simp

end Ravel.Catalog
