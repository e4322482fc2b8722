import Ravel.Proof.Maintain.SweepGroups

namespace Ravel.Maintain

open List Catalog

/-- An element of a list without duplicates has one place. -/
theorem split_unique {Item : Type} {front after otherFront otherAfter : List Item} {item : Item}
    (distinct : (front ++ item :: after).Nodup) (same : front ++ item :: after = otherFront ++ item :: otherAfter) :
    front = otherFront ∧ after = otherAfter := by
  obtain ⟨-, rest, apart⟩ := nodup_append'.mp distinct
  have outsideFront : item ∉ front := fun inside => apart inside mem_cons_self
  have outsideAfter : item ∉ after := (nodup_cons.mp rest).1
  obtain ⟨sameFront, -, sameAfter⟩ := (append_cons_inj_of_notMem outsideFront outsideAfter).mp same
  exact ⟨sameFront, sameAfter⟩

/-- What stands after another element stands after it in every split of the list. -/
theorem mem_front_of_after {Item : Type} {front after otherFront otherAfter : List Item} {item other : Item}
    (distinct : (front ++ item :: after).Nodup) (same : front ++ item :: after = otherFront ++ other :: otherAfter)
    (later : item ∈ otherAfter) : other ∈ front := by
  obtain ⟨middle, rest, rfl⟩ := append_of_mem later
  have regrouped : front ++ item :: after = (otherFront ++ other :: middle) ++ item :: rest := by
    rw [same, append_assoc, cons_append]
  rw [(split_unique distinct regrouped).1]
  exact mem_append_right _ mem_cons_self

variable {bucket : Bucket}

variable {keys : List RecordKey} {link : ChainLink}

/-- In the order of deletion, a record of a line stands after the present records below it. -/
theorem reverse_line_below {start : RecordKey} (line : Line bucket.compactions bucket.rewrites start keys)
    {earlier later : List RecordKey} {key : RecordKey} (split : keys.reverse = earlier ++ key :: later)
    (present : recordAt bucket key = some link) {lower : RecordKey}
    (reaches : Reaches bucket.compactions bucket.rewrites link lower) {found : ChainLink}
    (lowerPresent : recordAt bucket lower = some found) : lower ∈ earlier := by
  have member : key ∈ keys := by
    rw [← mem_reverse, split]
    exact mem_append_right _ mem_cons_self
  obtain ⟨above, below, whole, inner⟩ := line.split member
  have reversed : earlier ++ key :: later = below.reverse ++ key :: above.reverse := by
    rw [← split, whole]
    simp
  have distinct : (earlier ++ key :: later).Nodup := by
    rw [← split]
    exact nodup_reverse.mpr line.nodup
  rw [(split_unique distinct reversed).1, mem_reverse]
  cases inner with
  | last here ends =>
    rw [show linkAt bucket.compactions bucket.rewrites key = some link from present, Option.some.injEq] at here
    rw [here] at reaches
    exact absurd reaches (not_reaches_of_named_none _ ends lower)
  | step here names further =>
    rw [show linkAt bucket.compactions bucket.rewrites key = some link from present, Option.some.injEq] at here
    rw [here] at reaches
    exact further.mem_of_reaches names reaches lowerPresent

/-- The parts of the record at a key. -/
def partsAt (bucket : Bucket) (key : RecordKey) : List DataObjectKey :=
  (recordAt bucket key).toList.flatMap partKeys

/-- The raw inputs that end a chain at an absent key. -/
def endInputs (bucket : Bucket) (entry : ChainEntry) : Option ChainLink → List InputIdentity × List DataObjectKey
  | some link => rawInputKeys bucket entry link.inputs
  | none => ([], [])

/-- A walk that ended: the keys that it passed, the raw inputs of the oldest record, and the absent end. -/
structure Walked (bucket : Bucket) (entry : ChainEntry) (above : Option ChainLink) (key : RecordKey)
    (keys : List RecordKey) (inputs : List InputIdentity × List DataObjectKey) (absentEnd : Option RecordKey) : Prop where
  line : Line bucket.compactions bucket.rewrites key keys
  noneInputs : keys = [] → inputs = endInputs bucket entry above
  inputs : ∀ oldest link, keys.getLast? = some oldest → recordAt bucket oldest = some link →
    inputs = rawInputKeys bucket entry link.inputs
  absent : ∀ link : ChainLink, link.named = some key → ∀ lower, absentEnd = some lower ↔
    Reaches bucket.compactions bucket.rewrites link lower ∧ recordAt bucket lower = none

theorem named_none_of_namesRawL0Inputs (raw : namesRawL0Inputs link = true) : link.named = none := by
  cases link with
  | compaction record => exact Option.isNone_iff_eq_none.mp raw
  | rewrite record =>
    rw [namesRawL0Inputs, record.replacesOne, Bool.not_eq_true', Option.isSome_eq_false_iff, Option.isNone_iff_eq_none]
      at raw
    exact raw

/-- A record without raw inputs names a record. -/
theorem named_of_not_namesRawL0Inputs (raw : ¬namesRawL0Inputs link = true) : ∃ named, link.named = some named := by
  rw [← Option.isSome_iff_exists]
  cases link with
  | compaction record =>
    rw [namesRawL0Inputs, Option.isNone_iff_eq_none] at raw
    exact Option.isSome_iff_ne_none.mpr raw
  | rewrite record =>
    rw [namesRawL0Inputs, record.replacesOne, Bool.not_eq_true', Bool.not_eq_false] at raw
    exact raw

theorem rawInputKeys_nil (bucket : Bucket) (entry : ChainEntry) : rawInputKeys bucket entry [] = ([], []) := by
  cases entry <;> rfl

/-- The record above an absent end gives its raw inputs. -/
theorem endInputs_of_passed (bucket : Bucket) (entry : ChainEntry) (raw : ¬namesRawL0Inputs link = true) :
    endInputs bucket entry (if isVersion2Compaction link then some link else none) =
      rawInputKeys bucket entry link.inputs := by
  cases link with
  | compaction record =>
    have version2 : isVersion2Compaction (.compaction record) = true := by
      simpa [namesRawL0Inputs, isVersion2Compaction, Option.isSome_iff_ne_none] using raw
    rw [version2]
    rfl
  | rewrite record =>
    have noInputs : record.inputs = [] := by simpa [namesRawL0Inputs] using raw
    rw [ChainLink.inputs, noInputs, rawInputKeys_nil]
    rfl

theorem Walked.of_absent (entry : ChainEntry) (above : Option ChainLink) {key : RecordKey}
    (gone : recordAt bucket key = none) : Walked bucket entry above key [] (endInputs bucket entry above) (some key) where
  line := .absent gone
  noneInputs := fun _ => rfl
  inputs := by
    intro oldest link last
    cases last
  absent := by
    intro link names lower
    rw [reaches_iff names, Option.some.injEq]
    constructor
    · intro same
      exact ⟨.inl same.symm, same ▸ gone⟩
    · intro ⟨reaches, _⟩
      rcases reaches with same | ⟨next, present, _⟩
      · exact same.symm
      · rw [show linkAt bucket.compactions bucket.rewrites key = none from gone] at present
        cases present

/-- A walk that meets raw inputs ends with them. -/
theorem Walked.of_raw (entry : ChainEntry) (above : Option ChainLink) {key : RecordKey}
    (present : recordAt bucket key = some link) (raw : namesRawL0Inputs link = true) :
    Walked bucket entry above key [key] (rawInputKeys bucket entry link.inputs) none where
  line := .last present (named_none_of_namesRawL0Inputs raw)
  noneInputs := fun absurd => (by cases absurd)
  inputs := by
    intro oldest found last here
    rw [getLast?_singleton, Option.some.injEq] at last
    subst last
    rw [present, Option.some.injEq] at here
    rw [here]
  absent := by
    intro top names lower
    rw [reaches_iff names]
    constructor
    · intro absurd
      cases absurd
    · intro ⟨reaches, gone⟩
      rcases reaches with rfl | ⟨next, there, further⟩
      · rw [present] at gone
        cases gone
      · rw [show linkAt bucket.compactions bucket.rewrites key = some link from present, Option.some.injEq] at there
        rw [← there] at further
        exact absurd further (not_reaches_of_named_none _ (named_none_of_namesRawL0Inputs raw) lower)

theorem Walked.step {entry : ChainEntry} (above : Option ChainLink) {key next : RecordKey}
    (present : recordAt bucket key = some link) (raw : ¬namesRawL0Inputs link = true) (names : link.named = some next)
    {inputs : List InputIdentity × List DataObjectKey} {absentEnd : Option RecordKey}
    (walked : Walked bucket entry (if isVersion2Compaction link then some link else none) next keys inputs absentEnd) :
    Walked bucket entry above key (key :: keys) inputs absentEnd where
  line := .step present names walked.line
  noneInputs := fun absurd => (by cases absurd)
  inputs := by
    intro oldest found last here
    cases rest : keys with
    | nil =>
      rw [rest, getLast?_singleton, Option.some.injEq] at last
      subst last
      rw [present, Option.some.injEq] at here
      rw [walked.noneInputs rest, endInputs_of_passed bucket entry raw, here]
    | cons first others =>
      rw [rest, getLast?_cons_cons, ← rest] at last
      exact walked.inputs oldest found last here
  absent := by
    intro top topNames lower
    rw [walked.absent link names lower, reaches_iff topNames]
    constructor
    · intro ⟨reaches, gone⟩
      exact ⟨.inr ⟨link, present, reaches⟩, gone⟩
    · intro ⟨reaches, gone⟩
      rcases reaches with rfl | ⟨found, there, further⟩
      · rw [present] at gone
        cases gone
      · rw [show linkAt bucket.compactions bucket.rewrites key = some link from present, Option.some.injEq] at there
        rw [← there] at further
        exact ⟨further, gone⟩

section Walk

variable {entry : ChainEntry} {refuseLinks : Bool} {predecessorKey : RecordKey} {remaining : Nat} {seen : List RecordKey}
  {above : Option ChainLink} {key : RecordKey} {passed : Passed} {groups : List SupersededGroup}

theorem walkSupersededChain_cases
    (walked : walkSupersededChain bucket entry refuseLinks predecessorKey remaining seen above key passed =
      .ok (.gathered groups)) :
    (recordAt bucket key = none ∧ groups = passed.group (endInputs bucket entry above) (some key)) ∨
    ∃ link, recordAt bucket key = some link ∧
      ((namesRawL0Inputs link = true ∧
          groups = Passed.group ⟨passed.records ++ [key], passed.parts ++ partKeys link⟩
            (rawInputKeys bucket entry link.inputs) none) ∨
        (¬namesRawL0Inputs link = true ∧ ∃ next fewer, link.named = some next ∧ remaining = fewer + 1 ∧
          walkSupersededChain bucket entry refuseLinks predecessorKey fewer (key :: seen)
            (if isVersion2Compaction link then some link else none) next
            ⟨passed.records ++ [key], passed.parts ++ partKeys link⟩ = .ok (.gathered groups))) := by
  rw [walkSupersededChain.eq_def] at walked
  dsimp only at walked
  by_cases again : key ∈ seen
  · rw [if_pos again] at walked
    cases walked
  · rw [if_neg again] at walked
    cases present : linkAt bucket.compactions bucket.rewrites key with
    | none =>
      rw [present] at walked
      dsimp only at walked
      cases above with
      | none =>
        cases walked
        exact .inl ⟨present, rfl⟩
      | some link =>
        cases walked
        exact .inl ⟨present, rfl⟩
    | some link =>
      rw [present] at walked
      dsimp only at walked
      refine .inr ⟨link, present, ?_⟩
      split at walked
      · cases walked
      · split at walked
        · cases walked
        · split at walked
          · cases walked
          · by_cases raw : namesRawL0Inputs link = true
            · rw [if_pos raw] at walked
              cases walked
              exact .inl ⟨raw, rfl⟩
            · rw [if_neg raw] at walked
              obtain ⟨next, names⟩ := named_of_not_namesRawL0Inputs raw
              rw [names] at walked
              cases remaining with
              | zero => cases walked
              | succ fewer => exact .inr ⟨raw, next, fewer, names, rfl, walked⟩

theorem walkSupersededChain_spec
    (walked : walkSupersededChain bucket entry refuseLinks predecessorKey remaining seen above key passed =
      .ok (.gathered groups)) :
    ∃ keys inputs absentEnd, Walked bucket entry above key keys inputs absentEnd ∧
      groups = Passed.group ⟨passed.records ++ keys, passed.parts ++ keys.flatMap (partsAt bucket)⟩ inputs absentEnd := by
  have parts : ∀ {key : RecordKey} {link : ChainLink}, recordAt bucket key = some link →
      partsAt bucket key = partKeys link := by
    intro key link present
    rw [partsAt, present]
    simp
  induction remaining generalizing seen above key passed with
  | zero =>
    rcases walkSupersededChain_cases walked with ⟨gone, rfl⟩ | ⟨link, present, ⟨raw, rfl⟩ | ⟨_, _, _, _, absurd, _⟩⟩
    · exact ⟨[], _, _, .of_absent entry above gone, by simp⟩
    · exact ⟨[key], _, _, .of_raw entry above present raw, by simp [parts present]⟩
    · cases absurd
  | succ remaining ih =>
    rcases walkSupersededChain_cases walked with
      ⟨gone, rfl⟩ | ⟨link, present, ⟨raw, rfl⟩ | ⟨raw, next, fewer, names, same, further⟩⟩
    · exact ⟨[], _, _, .of_absent entry above gone, by simp⟩
    · exact ⟨[key], _, _, .of_raw entry above present raw, by simp [parts present]⟩
    · cases same
      obtain ⟨keys, inputs, absentEnd, rest, rfl⟩ := ih further
      refine ⟨key :: keys, inputs, absentEnd, rest.step above present raw names, ?_⟩
      simp [parts present]

end Walk

theorem gatherSupersededChain_spec {entry : ChainEntry} {refuseLinks : Bool} {predecessorKey : RecordKey}
    {groups : List SupersededGroup}
    (gathered : gatherSupersededChain bucket entry refuseLinks predecessorKey = .ok (.gathered groups)) :
    ∃ keys inputs absentEnd, Walked bucket entry none predecessorKey keys inputs absentEnd ∧
      ((keys = [] ∧ groups = []) ∨
        ∃ oldest, keys.getLast? = some oldest ∧
          groups = [⟨inputs.1, inputs.2 ++ keys.flatMap (partsAt bucket), keys.reverse, absentEnd, .record oldest⟩]) := by
  obtain ⟨keys, inputs, absentEnd, walked, rfl⟩ := walkSupersededChain_spec gathered
  refine ⟨keys, inputs, absentEnd, walked, ?_⟩
  rw [nil_append, nil_append, Passed.group]
  cases reversed : keys.reverse with
  | nil => exact .inl ⟨reverse_eq_nil_iff.mp reversed, rfl⟩
  | cons oldest later =>
    refine .inr ⟨oldest, ?_, rfl⟩
    rw [← head?_reverse, reversed, head?_cons]

end Ravel.Maintain
