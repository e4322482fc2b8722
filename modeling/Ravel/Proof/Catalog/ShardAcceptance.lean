import Mathlib.Order.Nat
import Ravel.Construction.Catalog.ShardGenerations

namespace Ravel.Catalog

open List

/-- The bound of a maximum is the bound of both values. -/
theorem toNat_max_le_iff (left right : UInt32) (bound : Nat) :
    (max left right).toNat ≤ bound ↔ left.toNat ≤ bound ∧ right.toNat ≤ bound := by
  rw [show max left right = if left ≤ right then right else left from rfl]
  simp only [UInt32.le_iff_toNat_le]
  split <;> omega

instance lawfulSupUInt32 : Std.LawfulOrderSup UInt32 where
  max_le_iff left right bound := by
    simp only [UInt32.le_iff_toNat_le, toNat_max_le_iff]

variable {index : Nat} {entry : ShardGeneration} {key : String} (generations : List ShardGeneration)
  (history : ShardHistory) (watermarkHour : UInt32)

/-- An entry without a defect satisfies each check. -/
theorem generationDefect_none {previous : Option ShardGeneration}
    (clean : generationDefect index previous entry = none) :
    entry.generation.toNat = index ∧ countInRange entry.shardCount = true ∧
      (previous = none → entry.activationHour = 0) ∧
      ∀ before, previous = some before →
        before.activationHour < entry.activationHour ∧ before.shardCount ≠ entry.shardCount := by
  unfold generationDefect at clean
  split at clean
  · cases clean
  rename_i isDense
  split at clean
  · cases clean
  rename_i inRange
  refine ⟨by simpa using isDense, by simpa using inRange, ?_, ?_⟩
  · rintro rfl
    by_contra nonzero
    simp [nonzero] at clean
  · rintro before rfl
    simp only at clean
    split at clean
    · cases clean
    rename_i later
    split at clean
    · cases clean
    rename_i differs
    exact ⟨by simpa using later, fun same => differs same.symm⟩

/-- The loop returns its input when no entry has a defect. -/
theorem readEntries_ok {entries result : List ShardGeneration} (index : Nat) (previous : Option ShardGeneration)
    (accepted : readEntries key index previous entries = .ok result) : result = entries ∧
      (∀ offset entry, entries[offset]? = some entry → entry.generation.toNat = index + offset) ∧
      (∀ entry ∈ entries, countInRange entry.shardCount = true) ∧
      (previous = none → ∀ entry, entries[0]? = some entry → entry.activationHour = 0) ∧
      (previous.toList ++ entries).IsChain fun before after =>
        before.activationHour < after.activationHour ∧ before.shardCount ≠ after.shardCount := by
  induction entries generalizing index previous result with
  | nil =>
    cases accepted
    cases previous <;> simp
  | cons entry rest ih =>
    unfold readEntries at accepted
    split at accepted
    · cases accepted
    rename_i clean
    obtain ⟨isDense, inRange, start, step⟩ := generationDefect_none clean
    cases decoded : readEntries key (index + 1) (some entry) rest with
    | error defect => rw [decoded] at accepted; cases accepted
    | ok tail =>
      rw [decoded] at accepted
      cases accepted
      obtain ⟨rfl, restDense, restRange, -, chain⟩ := ih (index + 1) (some entry) decoded
      refine ⟨rfl, ?_, ?_, ?_, ?_⟩
      · intro offset found member
        cases offset with
        | zero =>
          simp only [getElem?_cons_zero, Option.some.injEq] at member
          rw [← member, isDense, Nat.add_zero]
        | succ offset =>
          rw [getElem?_cons_succ] at member
          rw [restDense offset found member]
          omega
      · intro found member
        rcases mem_cons.mp member with rfl | member
        · exact inRange
        · exact restRange found member
      · intro absent found member
        simp only [getElem?_cons_zero, Option.some.injEq] at member
        exact member ▸ start absent
      · cases previous with
        | none => exact chain
        | some before => exact List.IsChain.cons_cons (step before rfl) chain

/-- The decoder returns the implicit generation or the listed entries, without a defect. -/
theorem readGenerations_ok {record : ProvisioningRecord} {result : List ShardGeneration}
    (accepted : readGenerations record key = .ok result) :
    result ≠ [] ∧ readEntries key 0 none result = .ok result := by
  unfold readGenerations at accepted
  split at accepted
  · split at accepted
    · cases accepted
    rename_i inRange
    cases accepted
    refine ⟨by simp, ?_⟩
    have clean : generationDefect 0 none ⟨0, record.shardCount, 0, record.createdUnixNs⟩ = none := by
      simpa [generationDefect] using inRange
    simp only [readEntries, clean]
    rfl
  · split at accepted
    · cases accepted
    obtain ⟨rfl, -⟩ := readEntries_ok 0 none accepted
    exact ⟨by simp, accepted⟩

/-- Every decoded history is a `ShardHistory`. -/
def ShardHistory.ofRead (record : ProvisioningRecord) (key : String) (result : List ShardGeneration)
    (accepted : readGenerations record key = .ok result) : ShardHistory where
  generations := result
  nonempty := (readGenerations_ok accepted).1
  dense index entry member := by
    obtain ⟨-, isDense, -⟩ := readEntries_ok 0 none (readGenerations_ok accepted).2
    rw [isDense index entry member, Nat.zero_add]
  counted := (readEntries_ok 0 none (readGenerations_ok accepted).2).2.2.1
  first := (readEntries_ok 0 none (readGenerations_ok accepted).2).2.2.2.1 rfl
  increasing := (readEntries_ok 0 none (readGenerations_ok accepted).2).2.2.2.2.imp
    fun _ _ related => related.1
  changing := (readEntries_ok 0 none (readGenerations_ok accepted).2).2.2.2.2.imp
    fun _ _ related => related.2

/-- The machine window test is the window test over the natural numbers. -/
theorem lt_scanUpper_iff (index : Nat) (slackHours hour : UInt32) :
    hour.toUInt64 < scanUpper generations index slackHours ↔
      ∀ successor, generations[index + 1]? = some successor →
        hour.toNat < successor.activationHour.toNat + slackHours.toNat := by
  have hourBound := hour.toNat_lt
  have slackBound := slackHours.toNat_lt
  unfold scanUpper saturatingAdd64
  cases found : generations[index + 1]? with
  | none =>
    simp only [reduceCtorEq, false_implies, implies_true, iff_true]
    rw [UInt64.lt_iff_toNat_lt]
    split
    · rename_i room
      rw [UInt64.toNat_add, Nat.mod_eq_of_lt room]
      simp only [UInt32.toNat_toUInt64, UInt64.reduceToNat]
      omega
    · simp only [UInt32.toNat_toUInt64, UInt64.reduceToNat]
      omega
  | some successor =>
    have activationBound := successor.activationHour.toNat_lt
    have room : successor.activationHour.toUInt64.toNat + slackHours.toUInt64.toNat < 2 ^ 64 := by
      simp only [UInt32.toNat_toUInt64]
      omega
    simp only [Option.some.injEq, forall_eq']
    rw [if_pos room, UInt64.lt_iff_toNat_lt, UInt64.toNat_add, Nat.mod_eq_of_lt room]
    simp only [UInt32.toNat_toUInt64]

/-- The generation at `index` is scanned at some hour of the range. -/
def ScannedWithin (generations : List ShardGeneration) (index : Nat) (entry : ShardGeneration)
    (slackHours startHour endHour : UInt32) : Prop :=
  entry.activationHour ≤ endHour ∧
    ∀ successor, generations[index + 1]? = some successor →
      startHour.toNat < successor.activationHour.toNat + slackHours.toNat

theorem foldl_rangeStep_le_iff (startHour endHour slackHours : UInt32) (bound : Nat) (entries : List (ShardGeneration × Nat))
    (start : UInt32) :
    (entries.foldl (rangeStep generations startHour endHour slackHours) start).toNat ≤ bound ↔
      start.toNat ≤ bound ∧ ∀ entry ∈ entries, ScannedWithin generations entry.2 entry.1 slackHours startHour endHour →
        entry.1.shardCount.toNat ≤ bound := by
  induction entries generalizing start with
  | nil => simp
  | cons entry rest ih =>
    have step : (rangeStep generations startHour endHour slackHours start entry).toNat ≤ bound ↔
        start.toNat ≤ bound ∧ (ScannedWithin generations entry.2 entry.1 slackHours startHour endHour →
          entry.1.shardCount.toNat ≤ bound) := by
      unfold rangeStep ScannedWithin
      rw [← lt_scanUpper_iff]
      by_cases early : endHour < entry.1.activationHour
      · have inactive : ¬entry.1.activationHour ≤ endHour := UInt32.not_le.mpr early
        simp only [early, inactive, if_true, false_and, false_implies, and_true]
      · have active : entry.1.activationHour ≤ endHour := UInt32.not_lt.mp early
        by_cases opened : startHour.toUInt64 < scanUpper generations entry.2 slackHours
        · simp only [early, active, opened, if_true, if_false, true_and, true_implies, toNat_max_le_iff]
        · simp only [early, opened, if_false, and_false, false_implies, and_true]
    rw [foldl_cons, ih, forall_mem_cons, step]
    tauto

theorem ShardHistory.exists_scanned (slackHours hour : UInt32) :
    ∃ index entry, history.generations[index]? = some entry ∧
      Scanned history.generations index entry slackHours hour := by
  classical
  let active : Nat → Prop := fun index =>
    ∃ entry, history.generations[index]? = some entry ∧ entry.activationHour ≤ hour
  have start : active 0 := by
    obtain ⟨first, rest, same⟩ := exists_cons_of_ne_nil history.nonempty
    have member : history.generations[0]? = some first := by rw [same]; rfl
    exact ⟨first, member, by rw [history.first first member]; exact UInt32.zero_le⟩
  obtain ⟨entry, member, reached⟩ :=
    Nat.findGreatest_spec (P := active) (Nat.zero_le history.generations.length) start
  refine ⟨_, entry, member, reached, ?_⟩
  intro successor next
  have inside := (List.getElem?_eq_some_iff.mp next).1
  have later : ¬ active (Nat.findGreatest active history.generations.length + 1) :=
    Nat.findGreatest_is_greatest (Nat.lt_succ_self _) (by omega)
  have beyond : hour < successor.activationHour := by
    rw [← UInt32.not_le]
    exact fun early => later ⟨successor, next, early⟩
  rw [UInt32.lt_iff_toNat_lt] at beyond
  omega

theorem ShardHistory.shardCount_pos (member : entry ∈ history.generations) : 0 < entry.shardCount.toNat := by
  have inRange := history.counted entry member
  simp only [countInRange, Bool.and_eq_true, decide_eq_true_eq, UInt32.le_iff_toNat_le] at inRange
  exact inRange.1

theorem ShardHistory.rangeCount_le_iff (startHour endHour slackHours : UInt32) (bound : Nat)
    (scans : ∃ index entry, history.generations[index]? = some entry ∧
      ScannedWithin history.generations index entry slackHours startHour endHour) :
    (maxScanCountOverRange history.generations startHour endHour slackHours).toNat ≤ bound ↔
      ∀ index entry, history.generations[index]? = some entry →
        ScannedWithin history.generations index entry slackHours startHour endHour → entry.shardCount.toNat ≤ bound := by
  have general := foldl_rangeStep_le_iff history.generations startHour endHour slackHours
  have positive : history.generations.zipIdx.foldl (rangeStep history.generations startHour endHour slackHours) 0 ≠ 0 := by
    intro zero
    obtain ⟨index, entry, member, scanned⟩ := scans
    have empty := ((general 0 history.generations.zipIdx 0).mp (by rw [zero]; exact Nat.le_refl 0)).2
      (entry, index) (mem_zipIdx_iff_getElem?.mpr member) scanned
    have wide := history.shardCount_pos (mem_of_getElem? member)
    simp only at empty
    omega
  unfold maxScanCountOverRange
  simp only [positive, if_false]
  rw [general]
  constructor
  · intro bounded index entry member
    exact bounded.2 (entry, index) (mem_zipIdx_iff_getElem?.mpr member)
  · intro bounded
    exact ⟨Nat.zero_le _, fun entry member =>
      bounded entry.2 entry.1 (mem_zipIdx_iff_getElem?.mp member)⟩

theorem ShardHistory.scanCount_le_iff (hour slackHours : UInt32) (bound : Nat) :
    (scanCount history.generations hour slackHours).toNat ≤ bound ↔
      ∀ index entry, history.generations[index]? = some entry →
        Scanned history.generations index entry slackHours hour → entry.shardCount.toNat ≤ bound :=
  history.rangeCount_le_iff hour hour slackHours bound (history.exists_scanned slackHours hour)

/-- The ceiling is the largest count among the generations that are active by the watermark. -/
theorem ShardHistory.shardCeiling_le_iff (bound : Nat) :
    (shardCeiling history.generations watermarkHour).toNat ≤ bound ↔
      ∀ entry ∈ history.generations, entry.activationHour ≤ watermarkHour →
        entry.shardCount.toNat ≤ bound := by
  unfold shardCeiling
  cases largest : ((history.generations.filter fun entry => entry.activationHour ≤ watermarkHour).map
      (·.shardCount)).max? with
  | none =>
    obtain ⟨index, entry, member, reached, -⟩ := history.exists_scanned 0 watermarkHour
    rw [max?_eq_none_iff, map_eq_nil_iff, filter_eq_nil_iff] at largest
    exact absurd (by simpa using reached) (largest entry (mem_of_getElem? member))
  | some count =>
    have upper := (max?_le_iff largest).mp UInt32.le_rfl
    have attained := max?_mem largest
    simp only [mem_map, mem_filter, decide_eq_true_eq] at upper attained
    rw [Option.getD_some]
    constructor
    · intro bounded entry member reached
      exact Nat.le_trans (UInt32.le_iff_toNat_le.mp (upper _ ⟨entry, ⟨member, reached⟩, rfl⟩)) bounded
    · intro bounded
      obtain ⟨entry, ⟨member, reached⟩, rfl⟩ := attained
      exact bounded entry member reached

/-- A known generation keeps its place in the longer history. -/
theorem known_getElem? {known generations : List ShardGeneration} (older : known <+: generations)
    (member : known[index]? = some entry) : generations[index]? = some entry := by
  obtain ⟨rest, rfl⟩ := older
  rw [getElem?_append_left (List.getElem?_eq_some_iff.mp member).1]
  exact member

theorem known_or_unknown {known generations : List ShardGeneration} (older : known <+: generations)
    (member : generations[index]? = some entry) : known[index]? = some entry ∨ known.length ≤ index := by
  obtain ⟨rest, rfl⟩ := older
  by_cases inside : index < known.length
  · rw [getElem?_append_left inside] at member
    exact .inl member
  · exact .inr (Nat.le_of_not_lt inside)

/-- Activation hours increase with the index. -/
theorem ShardHistory.activation_lt {earlier later : Nat} {before after : ShardGeneration} (ordered : earlier < later)
    (first : history.generations[earlier]? = some before) (second : history.generations[later]? = some after) :
    before.activationHour < after.activationHour := by
  obtain ⟨_, rfl⟩ := List.getElem?_eq_some_iff.mp first
  obtain ⟨_, rfl⟩ := List.getElem?_eq_some_iff.mp second
  have pairwise : history.generations.Pairwise fun before after =>
      before.activationHour < after.activationHour := by
    have : IsTrans ShardGeneration fun before after => before.activationHour < after.activationHour :=
      ⟨fun _ _ _ => UInt32.lt_trans⟩
    exact history.increasing.pairwise
  exact pairwise_iff_getElem.mp pairwise earlier later _ _ ordered

/-- The ceilings agree when no unknown generation is wider than the known ones. -/
theorem shardCeiling_eq_iff (known history : ShardHistory) (older : known.generations <+: history.generations)
    (watermarkHour : UInt32) :
    shardCeiling known.generations watermarkHour = shardCeiling history.generations watermarkHour ↔
      ¬ WiderUnknown known.generations history.generations watermarkHour := by
  have upper := (history.shardCeiling_le_iff watermarkHour _).mp (Nat.le_refl _)
  constructor
  · rintro same ⟨index, entry, ⟨-, member, reached⟩, wider⟩
    have bounded := upper entry (mem_of_getElem? member) reached
    have positive := history.shardCount_pos (mem_of_getElem? member)
    have smaller := (known.shardCeiling_le_iff watermarkHour (entry.shardCount.toNat - 1)).mpr
      fun other otherMember otherReached => by
        have less := UInt32.lt_iff_toNat_lt.mp (wider other otherMember otherReached)
        omega
    rw [← same] at bounded
    omega
  · intro narrow
    apply UInt32.toNat_inj.mp
    apply Nat.le_antisymm
    · rw [known.shardCeiling_le_iff]
      intro entry member reached
      exact upper entry (older.subset member) reached
    · rw [history.shardCeiling_le_iff]
      intro entry member reached
      obtain ⟨index, found⟩ := mem_iff_getElem?.mp member
      rcases known_or_unknown older found with inKnown | unknown
      · exact (known.shardCeiling_le_iff watermarkHour _).mp (Nat.le_refl _) entry
          (mem_of_getElem? inKnown) reached
      · by_contra exceeds
        refine narrow ⟨index, entry, ⟨unknown, found, reached⟩, fun other otherMember otherReached => ?_⟩
        have bounded := (known.shardCeiling_le_iff watermarkHour _).mp (Nat.le_refl _) other otherMember
          otherReached
        rw [UInt32.lt_iff_toNat_lt]
        omega

/-- A generation number fits in 32 bits, so a history has at most `2 ^ 32` entries. -/
theorem ShardHistory.length_le : history.generations.length ≤ 2 ^ 32 := by
  by_contra exceeds
  have inside : 2 ^ 32 < history.generations.length := Nat.lt_of_not_le exceeds
  have isDense := history.dense (2 ^ 32) _ (getElem?_eq_getElem inside)
  exact absurd isDense (Nat.ne_of_lt (UInt32.toNat_lt _))

/-- The ceilings agree below the activation of the first unknown generation. -/
theorem not_widerUnknown_of_lt (known history : ShardHistory) (watermarkHour : UInt32)
    (found : history.generations[known.generations.length]? = some entry)
    (before : watermarkHour < entry.activationHour) :
    ¬ WiderUnknown known.generations history.generations watermarkHour := by
  rintro ⟨index, other, ⟨unknown, member, reached⟩, -⟩
  have later : entry.activationHour ≤ other.activationHour := by
    rcases Nat.eq_or_lt_of_le unknown with same | ordered
    · subst same
      rw [found, Option.some.injEq] at member
      exact member ▸ UInt32.le_rfl
    · exact UInt32.le_of_lt (history.activation_lt ordered found member)
  exact absurd (UInt32.lt_of_lt_of_le before later) (UInt32.not_lt.mpr reached)

/-- The two arms of the acceptance rule. -/
theorem headGenerationsAcceptable_iff (head : SnapshotHead) (generations : List ShardGeneration) :
    headGenerationsAcceptable head generations = true ↔
      head.shardCount = shardCeiling generations head.watermarkHour ∨
        head.shardGenerationCount < UInt32.ofNat generations.length ∧
          ∃ entry, generations[(max head.shardGenerationCount 1).toNat]? = some entry ∧
            head.watermarkHour < entry.activationHour := by
  unfold headGenerationsAcceptable
  by_cases same : head.shardCount = shardCeiling generations head.watermarkHour
  · simp only [same, if_true, true_or]
  · by_cases fewer : UInt32.ofNat generations.length ≤ head.shardGenerationCount
    · have stale : ¬ head.shardGenerationCount < UInt32.ofNat generations.length := UInt32.not_lt.mpr fewer
      simp only [same, fewer, stale, if_true, if_false, Bool.false_eq_true, false_and, or_self]
    · have fresh : head.shardGenerationCount < UInt32.ofNat generations.length := UInt32.not_le.mp fewer
      simp only [same, fewer, fresh, if_false, false_or, true_and]
      cases generations[(max head.shardGenerationCount 1).toNat]? with
      | none => simp
      | some entry => simp

/-- A stamped HEAD is accepted exactly when no unknown generation is wider than the known ones. -/
theorem headGenerationsAcceptable_foldHead (known history : ShardHistory)
    (older : known.generations <+: history.generations) (watermarkHour : UInt32) :
    headGenerationsAcceptable (foldHead known.generations watermarkHour) history.generations = true ↔
      ¬ WiderUnknown known.generations history.generations watermarkHour := by
  have positive : 0 < known.generations.length := length_pos_iff.mpr known.nonempty
  have shorter := older.length_le
  have bounded := history.length_le
  have equal := shardCeiling_eq_iff known history older watermarkHour
  rw [headGenerationsAcceptable_iff]
  constructor
  · rintro (same | ⟨fewer, entry, found, before⟩)
    · exact equal.mp same
    simp only [foldHead, UInt32.lt_iff_toNat_lt, UInt32.toNat_ofNat'] at fewer
    -- The reader's count wraps to zero at `2 ^ 32`, so the older arm only takes shorter histories.
    have fits : history.generations.length < 2 ^ 32 := by
      by_contra full
      rw [show history.generations.length = 2 ^ 32 by omega] at fewer
      omega
    have stamped : (UInt32.ofNat known.generations.length).toNat = known.generations.length := by
      rw [UInt32.toNat_ofNat', Nat.mod_eq_of_lt (by omega)]
    have firstUnknown : (max (UInt32.ofNat known.generations.length) 1).toNat = known.generations.length := by
      apply Nat.le_antisymm
      · rw [toNat_max_le_iff, stamped]
        exact ⟨Nat.le_refl _, positive⟩
      · have upper := ((toNat_max_le_iff (UInt32.ofNat known.generations.length) 1 _).mp (Nat.le_refl _)).1
        rwa [stamped] at upper
    rw [show (foldHead known.generations watermarkHour).shardGenerationCount =
      UInt32.ofNat known.generations.length from rfl, firstUnknown] at found
    exact not_widerUnknown_of_lt known history watermarkHour found before
  · intro narrow
    exact .inl (equal.mpr narrow)

theorem le_lastScannedHour (slackHours hour : UInt32) (index : Nat) (below : hour ≤ watermarkHour)
    (opened : ∀ successor, generations[index + 1]? = some successor → hour.toNat < successor.activationHour.toNat + slackHours.toNat) :
    hour.toNat ≤ lastScannedHour generations watermarkHour slackHours index := by
  have bounded := UInt32.le_iff_toNat_le.mp below
  unfold lastScannedHour
  split
  · rename_i successor next
    have room := opened successor next
    omega
  · exact bounded

theorem ShardHistory.scanned_lastScannedHour (slackHours hour : UInt32)
    (member : history.generations[index]? = some entry) (reached : entry.activationHour ≤ watermarkHour)
    (last : hour.toNat = lastScannedHour history.generations watermarkHour slackHours index) :
    hour ≤ watermarkHour ∧ Scanned history.generations index entry slackHours hour := by
  have active := UInt32.le_iff_toNat_le.mp reached
  unfold Scanned
  simp only [UInt32.le_iff_toNat_le, last]
  unfold lastScannedHour
  cases next : history.generations[index + 1]? with
  | none => exact ⟨Nat.le_refl _, active, fun _ absurdity => by cases absurdity⟩
  | some successor =>
    have later := UInt32.lt_iff_toNat_lt.mp (history.activation_lt (Nat.lt_succ_self index) member next)
    simp only [Option.some.injEq, forall_eq']
    omega

/-- Each generation that the reader scans is matched by a known one when the unknown ones are outlasted. -/
theorem scanCount_le_of_outlasted (known history : ShardHistory)
    (older : known.generations <+: history.generations) {watermarkHour slackHours hour : UInt32}
    (below : hour ≤ watermarkHour)
    (outlasted : OutlastedUnknown known.generations history.generations watermarkHour slackHours) :
    scanCount history.generations hour slackHours ≤ scanCount known.generations hour slackHours := by
  have upper := (known.scanCount_le_iff hour slackHours _).mp (Nat.le_refl _)
  rw [UInt32.le_iff_toNat_le, history.scanCount_le_iff]
  rintro index entry member ⟨active, opened⟩
  rcases known_or_unknown older member with inKnown | unknown
  · exact upper index entry inKnown
      ⟨active, fun successor next => opened successor (known_getElem? older next)⟩
  · obtain ⟨place, other, found, wide, reaches⟩ :=
      outlasted index entry ⟨unknown, member, UInt32.le_trans active below⟩
    have inside := (List.getElem?_eq_some_iff.mp found).1
    have earlier := history.activation_lt (by omega) (known_getElem? older found) member
    have last := le_lastScannedHour history.generations watermarkHour slackHours hour index below opened
    refine Nat.le_trans (UInt32.le_iff_toNat_le.mp wide) (upper place other found ⟨?_, ?_⟩)
    · exact UInt32.le_trans (UInt32.le_of_lt earlier) active
    · intro successor next
      exact Nat.lt_of_le_of_lt last (reaches successor next)

/-- An unknown generation that the fold's fan-out covers at its last hour is outlasted by a known one. -/
theorem outlasted_of_scanCount_le (known history : ShardHistory) {watermarkHour slackHours : UInt32}
    (covers : ∀ hour, hour ≤ watermarkHour →
      scanCount history.generations hour slackHours ≤ scanCount known.generations hour slackHours) :
    OutlastedUnknown known.generations history.generations watermarkHour slackHours := by
  rintro index entry ⟨-, member, reached⟩
  have fits : lastScannedHour history.generations watermarkHour slackHours index < 2 ^ 32 := by
    have bounded := watermarkHour.toNat_lt
    unfold lastScannedHour
    split <;> omega
  have last : (UInt32.ofNat (lastScannedHour history.generations watermarkHour slackHours index)).toNat =
      lastScannedHour history.generations watermarkHour slackHours index := by
    rw [UInt32.toNat_ofNat', Nat.mod_eq_of_lt fits]
  obtain ⟨below, scanned⟩ :=
    history.scanned_lastScannedHour watermarkHour slackHours _ member reached last
  have wide := Nat.le_trans ((history.scanCount_le_iff _ slackHours _).mp (Nat.le_refl _) index entry member scanned)
    (UInt32.le_iff_toNat_le.mp (covers _ below))
  have positive := history.shardCount_pos (mem_of_getElem? member)
  -- A fan-out of this width is attained by some known generation, else it would be one smaller.
  by_contra missing
  push Not at missing
  have narrow := (known.scanCount_le_iff (UInt32.ofNat
      (lastScannedHour history.generations watermarkHour slackHours index)) slackHours
      (entry.shardCount.toNat - 1)).mpr fun place other found otherScanned => by
    by_contra exceeds
    obtain ⟨successor, next, early⟩ := missing place other found (by rw [UInt32.le_iff_toNat_le]; omega)
    have late := otherScanned.2 successor next
    omega
  omega

/-- An accepted HEAD covers every scanned shard exactly when the fold would have been refused for a wider
unknown generation, or when every unknown generation is outlasted by a known one. -/
theorem accepted_head_covers_scan_iff (known history : ShardHistory)
    (older : known.generations <+: history.generations) (watermarkHour slackHours : UInt32) :
    (headGenerationsAcceptable (foldHead known.generations watermarkHour) history.generations = true →
      ∀ hour, hour ≤ watermarkHour →
        scanCount history.generations hour slackHours ≤ scanCount known.generations hour slackHours) ↔
      WiderUnknown known.generations history.generations watermarkHour ∨
        OutlastedUnknown known.generations history.generations watermarkHour slackHours := by
  rw [headGenerationsAcceptable_foldHead known history older]
  constructor
  · intro covers
    by_cases wider : WiderUnknown known.generations history.generations watermarkHour
    · exact .inl wider
    · exact .inr (outlasted_of_scanCount_le known history (covers wider))
  · rintro (wider | outlasted) narrow hour below
    · exact absurd wider narrow
    · exact scanCount_le_of_outlasted known history older below outlasted

/-- A history that narrows from 8 shards to 4 at hour 10 and widens to 8 again at hour 20. -/
def rewidenedHistory : ShardHistory :=
  .ofRead ⟨8, 0, [⟨0, 8, 0, 0⟩, ⟨1, 4, 10, 0⟩, ⟨2, 8, 20, 0⟩]⟩ "provisioning"
    [⟨0, 8, 0, 0⟩, ⟨1, 4, 10, 0⟩, ⟨2, 8, 20, 0⟩] (by decide)

/-- The first two generations of that history. -/
def narrowedHistory : ShardHistory :=
  .ofRead ⟨8, 0, [⟨0, 8, 0, 0⟩, ⟨1, 4, 10, 0⟩]⟩ "provisioning" [⟨0, 8, 0, 0⟩, ⟨1, 4, 10, 0⟩] (by decide)

/-- A fold that stopped before the second widening is accepted at hour 100, and it skipped shards of hour 30. -/
theorem accepted_head_skips_shards :
    narrowedHistory.generations <+: rewidenedHistory.generations ∧
      headGenerationsAcceptable (foldHead narrowedHistory.generations 100) rewidenedHistory.generations = true ∧
      (30 : UInt32) ≤ 100 ∧
      ¬ scanCount rewidenedHistory.generations 30 defaultScanSlackHours ≤
        scanCount narrowedHistory.generations 30 defaultScanSlackHours := by
  decide

/-- The same fold covers every scanned shard when its watermark is before the second widening. -/
theorem accepted_head_covers_scan_before_widening :
    narrowedHistory.generations <+: rewidenedHistory.generations ∧
      ((headGenerationsAcceptable (foldHead narrowedHistory.generations 19) rewidenedHistory.generations = true →
        ∀ hour, hour ≤ 19 →
          scanCount rewidenedHistory.generations hour defaultScanSlackHours ≤
            scanCount narrowedHistory.generations hour defaultScanSlackHours) ↔
        WiderUnknown narrowedHistory.generations rewidenedHistory.generations 19 ∨
          OutlastedUnknown narrowedHistory.generations rewidenedHistory.generations 19 defaultScanSlackHours) :=
  ⟨by decide, accepted_head_covers_scan_iff narrowedHistory rewidenedHistory (by decide) 19
    defaultScanSlackHours⟩

end Ravel.Catalog
