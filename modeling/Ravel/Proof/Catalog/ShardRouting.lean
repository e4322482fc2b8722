import Ravel.Proof.Catalog.ShardAcceptance
import Mathlib.Data.List.Induction

namespace Ravel.Catalog

open List

/-- The last entry with the largest generation is found when there is one. -/
theorem maxByGeneration_spec (entries : List ShardGeneration) :
    (entries = [] ∧ maxByGeneration entries = none) ∨
      ∃ largest ∈ entries, maxByGeneration entries = some largest ∧
        ∀ entry ∈ entries, entry.generation ≤ largest.generation := by
  induction entries using reverseRecOn with
  | nil => exact .inl ⟨rfl, rfl⟩
  | append_singleton rest last ih =>
    right
    rcases ih with ⟨rfl, -⟩ | ⟨largest, member, found, bound⟩
    · exact ⟨last, by simp, rfl, by simp⟩
    · have step : maxByGeneration (rest ++ [last]) =
          if largest.generation ≤ last.generation then some last else some largest := by
        rw [maxByGeneration] at found
        rw [maxByGeneration, foldl_append, found]
        rfl
      rw [step]
      by_cases replaced : largest.generation ≤ last.generation
      · refine ⟨last, by simp, by simp [replaced], ?_⟩
        intro entry entryIn
        rcases mem_append.mp entryIn with old | new
        · exact UInt32.le_trans (bound entry old) replaced
        · rw [mem_singleton.mp new]
          exact UInt32.le_rfl
      · refine ⟨largest, mem_append_left _ member, by simp [replaced], ?_⟩
        intro entry entryIn
        rcases mem_append.mp entryIn with old | new
        · exact bound entry old
        · rw [mem_singleton.mp new]
          exact UInt32.le_of_lt (UInt32.not_le.mp replaced)

namespace ShardHistory

variable (history : ShardHistory)

/-- A writer routes with the generation that has activated and whose successor has not. -/
theorem activeShardCount_routes (hour : UInt32) :
    ∃ index entry, history.generations[index]? = some entry ∧ entry.activationHour ≤ hour ∧
      (∀ successor, history.generations[index + 1]? = some successor → hour < successor.activationHour) ∧
      activeShardCount history.generations hour = entry.shardCount := by
  obtain ⟨first, others, same⟩ := exists_cons_of_ne_nil history.nonempty
  have firstAt : history.generations[0]? = some first := by
    rw [same]
    rfl
  have activated : first ∈ history.generations.filter fun entry => entry.activationHour ≤ hour := by
    rw [mem_filter, decide_eq_true_eq, history.first first firstAt]
    exact ⟨mem_of_getElem? firstAt, UInt32.zero_le⟩
  rcases maxByGeneration_spec (history.generations.filter fun entry => entry.activationHour ≤ hour) with
    ⟨empty, -⟩ | ⟨largest, member, found, bound⟩
  · rw [empty] at activated
    cases activated
  · obtain ⟨inHistory, reached⟩ := mem_filter.mp member
    obtain ⟨index, located⟩ := getElem?_of_mem inHistory
    refine ⟨index, largest, located, by simpa using reached, ?_, by rw [activeShardCount, found]; rfl⟩
    intro successor next
    by_contra early
    have active : successor.activationHour ≤ hour := UInt32.not_lt.mp early
    have below := bound successor (mem_filter.mpr ⟨mem_of_getElem? next, by simpa using active⟩)
    rw [UInt32.le_iff_toNat_le, history.dense _ _ next, history.dense _ _ located] at below
    omega

variable {slackHours startHour endHour : UInt32} {entry : ShardGeneration}

/-- The count that a writer routed with is scanned at every hour that the slack allows it to be filed under. -/
theorem activeShardCount_le_scanCount {routed filed : UInt32} (after : routed ≤ filed)
    (within : filed.toNat ≤ routed.toNat + slackHours.toNat) :
    activeShardCount history.generations routed ≤ scanCount history.generations filed slackHours := by
  obtain ⟨index, entry, located, reached, pending, count⟩ := history.activeShardCount_routes routed
  rw [count, UInt32.le_iff_toNat_le]
  apply (history.scanCount_le_iff filed slackHours _).mp (Nat.le_refl _) index entry located
  refine ⟨UInt32.le_trans reached after, ?_⟩
  intro successor next
  have later := UInt32.lt_iff_toNat_lt.mp (pending successor next)
  omega

theorem shardFor_lt (idPrefix : UInt64) (hour : UInt32) :
    shardFor idPrefix (activeShardCount history.generations hour) < activeShardCount history.generations hour := by
  obtain ⟨index, entry, located, -, -, count⟩ := history.activeShardCount_routes hour
  have positive := history.shardCount_pos (mem_of_getElem? located)
  have floor := (toNat_max_le_iff entry.shardCount 1 entry.shardCount.toNat).mpr ⟨Nat.le_refl _, positive⟩
  have atLeast := ((toNat_max_le_iff entry.shardCount 1 (max entry.shardCount 1).toNat).mp (Nat.le_refl _)).2
  have remainder := Nat.mod_lt idPrefix.toNat (Nat.lt_of_lt_of_le Nat.zero_lt_one atLeast)
  rw [count, shardFor, UInt32.lt_iff_toNat_lt, UInt64.toNat_toUInt32, UInt64.toNat_mod, UInt32.toNat_toUInt64]
  exact Nat.lt_of_le_of_lt (Nat.mod_le _ _) (Nat.lt_of_lt_of_le remainder floor)

/-- A generation meets a range when it is scanned at the later of its activation and the start of the range. -/
theorem scannedWithin_iff (ordered : startHour ≤ endHour) {index : Nat}
    (located : history.generations[index]? = some entry) :
    ScannedWithin history.generations index entry slackHours startHour endHour ↔
      ∃ hour, startHour ≤ hour ∧ hour ≤ endHour ∧ Scanned history.generations index entry slackHours hour := by
  constructor
  · rintro ⟨reached, opened⟩
    by_cases early : startHour ≤ entry.activationHour
    · refine ⟨entry.activationHour, early, reached, UInt32.le_rfl, ?_⟩
      intro successor next
      have later := UInt32.lt_iff_toNat_lt.mp (history.activation_lt (Nat.lt_succ_self index) located next)
      omega
    · have active : entry.activationHour ≤ startHour := UInt32.le_of_lt (UInt32.not_le.mp early)
      exact ⟨startHour, UInt32.le_rfl, ordered, active, opened⟩
  · rintro ⟨hour, after, before, reached, opened⟩
    refine ⟨UInt32.le_trans reached before, ?_⟩
    intro successor next
    have scanned := opened successor next
    have later := UInt32.le_iff_toNat_le.mp after
    omega

theorem maxScanCountOverRange_le_iff (ordered : startHour ≤ endHour) (bound : Nat) :
    (maxScanCountOverRange history.generations startHour endHour slackHours).toNat ≤ bound ↔
      ∀ hour, startHour ≤ hour → hour ≤ endHour → (scanCount history.generations hour slackHours).toNat ≤ bound := by
  obtain ⟨index, entry, member, scanned⟩ := history.exists_scanned slackHours startHour
  have within := (history.scannedWithin_iff ordered member).mpr ⟨startHour, UInt32.le_rfl, ordered, scanned⟩
  rw [history.rangeCount_le_iff startHour endHour slackHours bound ⟨index, entry, member, within⟩]
  constructor
  · intro bounded hour after before
    rw [history.scanCount_le_iff]
    intro index entry member scanned
    exact bounded index entry member ((history.scannedWithin_iff ordered member).mpr ⟨hour, after, before, scanned⟩)
  · intro bounded index entry member within
    obtain ⟨hour, after, before, scanned⟩ := (history.scannedWithin_iff ordered member).mp within
    exact (history.scanCount_le_iff hour slackHours _).mp (bounded hour after before) index entry member scanned

theorem maxScanCountOverRange_attained (ordered : startHour ≤ endHour) : ∃ hour, startHour ≤ hour ∧ hour ≤ endHour ∧
      maxScanCountOverRange history.generations startHour endHour slackHours =
        scanCount history.generations hour slackHours := by
  have upper := (@maxScanCountOverRange_le_iff history slackHours startHour endHour ordered _).mp (Nat.le_refl _)
  by_contra missed
  have below : ∀ hour, startHour ≤ hour → hour ≤ endHour →
      (scanCount history.generations hour slackHours).toNat ≤
        (maxScanCountOverRange history.generations startHour endHour slackHours).toNat - 1 := by
    intro hour after before
    have atMost := upper hour after before
    have different : (scanCount history.generations hour slackHours).toNat ≠
        (maxScanCountOverRange history.generations startHour endHour slackHours).toNat :=
      fun same => missed ⟨hour, after, before, (UInt32.toNat_inj.mp same).symm⟩
    omega
  have lower := (history.maxScanCountOverRange_le_iff ordered _).mpr below
  obtain ⟨index, entry, member, scanned⟩ := history.exists_scanned slackHours startHour
  have wide := history.shardCount_pos (mem_of_getElem? member)
  have some := (history.scanCount_le_iff startHour slackHours _).mp (upper startHour UInt32.le_rfl ordered) index entry member
    scanned
  omega

theorem successor_le {earlier later : Nat} {successor : ShardGeneration} (ordered : earlier < later)
    (next : history.generations[earlier + 1]? = some successor) (located : history.generations[later]? = some entry) :
    successor.activationHour.toNat ≤ entry.activationHour.toNat := by
  rcases Nat.eq_or_lt_of_le (Nat.succ_le_of_lt ordered) with same | further
  · rw [Nat.succ_eq_add_one] at same
    rw [same, located, Option.some.injEq] at next
    rw [next]
  · exact Nat.le_of_lt (UInt32.lt_iff_toNat_lt.mp (history.activation_lt further next located))

/-- The hour is past the margin of the generation at `index` and before its successor. -/
def Owns (generations : List ShardGeneration) (index : Nat) (entry : ShardGeneration) (slackHours hour : UInt32) : Prop :=
  entry.activationHour.toNat + (if index = 0 then 0 else slackHours.toNat) ≤ hour.toNat ∧
    ∀ successor, generations[index + 1]? = some successor → hour < successor.activationHour

theorem stableStart_le_iff (entry : ShardGeneration) (index : Nat) (slackHours hour : UInt32) :
    ¬hour.toUInt64 < stableStart entry index slackHours ↔
      entry.activationHour.toNat + (if index = 0 then 0 else slackHours.toNat) ≤ hour.toNat := by
  have activationBound := entry.activationHour.toNat_lt
  have slackBound := slackHours.toNat_lt
  have room : entry.activationHour.toUInt64.toNat + slackHours.toUInt64.toNat < 2 ^ 64 := by
    simp only [UInt32.toNat_toUInt64]
    omega
  rw [stableStart, UInt64.lt_iff_toNat_lt]
  split
  · simp only [UInt32.toNat_toUInt64]
    omega
  · rw [saturatingAdd64, if_pos room, UInt64.toNat_add, Nat.mod_eq_of_lt room]
    simp only [UInt32.toNat_toUInt64]
    omega

theorem stableFrom_iff (hour slackHours : UInt32) (index : Nat) (rest : List ShardGeneration)
    (suffix : history.generations.drop index = rest) (generation : UInt32) :
    stableFrom hour slackHours index rest = some generation ↔
      ∃ place entry, index ≤ place ∧ history.generations[place]? = some entry ∧ entry.generation = generation ∧
        Owns history.generations place entry slackHours hour := by
  induction rest generalizing index with
  | nil =>
    have short : history.generations.length ≤ index := drop_eq_nil_iff.mp suffix
    simp only [stableFrom, reduceCtorEq, false_iff, not_exists]
    rintro place entry ⟨behind, located, -⟩
    have inside := (List.getElem?_eq_some_iff.mp located).1
    omega
  | cons first others ih =>
    have located : history.generations[index]? = some first := by
      rw [← head?_drop, suffix]
      rfl
    have tail : history.generations.drop (index + 1) = others := by
      rw [← drop_drop, suffix]
      rfl
    have next : others.head? = history.generations[index + 1]? := by
      rw [← tail, head?_drop]
    have margin := stableStart_le_iff first index slackHours hour
    rw [stableFrom, next]
    by_cases early : hour.toUInt64 < stableStart first index slackHours
    · rw [if_pos early]
      simp only [reduceCtorEq, false_iff, not_exists]
      rintro place entry ⟨behind, placed, -, reached, -⟩
      -- A later generation activates later still, so its margin is not reached either.
      apply margin.mpr _ early
      rcases Nat.eq_or_lt_of_le behind with rfl | later
      · rw [located, Option.some.injEq] at placed
        rw [placed]
        exact reached
      · have order := UInt32.lt_iff_toNat_lt.mp (history.activation_lt later located placed)
        rw [if_neg (by omega)] at reached
        split <;> omega
    · rw [if_neg early]
      have reached := margin.mp early
      cases found : history.generations[index + 1]? with
      | none =>
        have below : hour.toUInt64 < 0xFFFFFFFFFFFFFFFF := by
          have hourBound := hour.toNat_lt
          rw [UInt64.lt_iff_toNat_lt]
          simp only [UInt32.toNat_toUInt64, UInt64.reduceToNat]
          omega
        simp only [below, if_true, Option.some.injEq]
        constructor
        · intro same
          exact ⟨index, first, Nat.le_refl _, located, same, reached, by rw [found]; simp⟩
        · rintro ⟨place, entry, behind, placed, same, -⟩
          have inside := (List.getElem?_eq_some_iff.mp placed).1
          have last := List.getElem?_eq_none_iff.mp found
          obtain rfl : place = index := by omega
          rw [located, Option.some.injEq] at placed
          rw [placed]
          exact same
      | some successor =>
        dsimp only
        by_cases before : hour.toUInt64 < successor.activationHour.toUInt64
        · have pending : hour < successor.activationHour := by
            rw [UInt64.lt_iff_toNat_lt] at before
            simpa [UInt32.lt_iff_toNat_lt] using before
          rw [if_pos before, Option.some.injEq]
          constructor
          · intro same
            refine ⟨index, first, Nat.le_refl _, located, same, reached, ?_⟩
            intro other otherAt
            rw [found, Option.some.injEq] at otherAt
            rw [← otherAt]
            exact pending
          · rintro ⟨place, entry, behind, placed, same, isReached, -⟩
            rcases Nat.eq_or_lt_of_le behind with rfl | later
            · rw [located, Option.some.injEq] at placed
              rw [placed]
              exact same
            · exfalso
              have atLeast := history.successor_le later found placed
              have early := UInt32.lt_iff_toNat_lt.mp pending
              omega
        · have activated : successor.activationHour ≤ hour := by
            rw [UInt64.lt_iff_toNat_lt] at before
            rw [UInt32.le_iff_toNat_le]
            simpa using before
          rw [if_neg before, ih (index + 1) tail]
          constructor
          · rintro ⟨place, entry, behind, facts⟩
            exact ⟨place, entry, by omega, facts⟩
          · rintro ⟨place, entry, behind, placed, same, isReached, pending⟩
            refine ⟨place, entry, ?_, placed, same, isReached, pending⟩
            by_contra notLater
            obtain rfl : place = index := by omega
            exact absurd (pending successor found) (UInt32.not_lt.mpr activated)

theorem owns_iff_scanned_alone {hour : UInt32} {place : Nat} (located : history.generations[place]? = some entry) :
    Owns history.generations place entry slackHours hour ↔
      Scanned history.generations place entry slackHours hour ∧
        ∀ other otherEntry, history.generations[other]? = some otherEntry →
          Scanned history.generations other otherEntry slackHours hour → other = place := by
  constructor
  · rintro ⟨reached, pending⟩
    refine ⟨⟨by rw [UInt32.le_iff_toNat_le]; omega, ?_⟩, ?_⟩
    · intro successor next
      have before := UInt32.lt_iff_toNat_lt.mp (pending successor next)
      omega
    · rintro other otherEntry otherAt ⟨otherReached, opened⟩
      have active := UInt32.le_iff_toNat_le.mp otherReached
      rcases Nat.lt_trichotomy other place with earlier | same | later
      · exfalso
        have inside := (List.getElem?_eq_some_iff.mp located).1
        obtain ⟨successor, next⟩ : ∃ successor, history.generations[other + 1]? = some successor :=
          ⟨_, getElem?_eq_getElem (by omega)⟩
        have early := opened successor next
        have atMost := history.successor_le earlier next located
        rw [if_neg (by omega)] at reached
        omega
      · exact same
      · exfalso
        have inside := (List.getElem?_eq_some_iff.mp otherAt).1
        obtain ⟨successor, next⟩ : ∃ successor, history.generations[place + 1]? = some successor :=
          ⟨_, getElem?_eq_getElem (by omega)⟩
        have before := UInt32.lt_iff_toNat_lt.mp (pending successor next)
        have atMost := history.successor_le later next otherAt
        omega
  · rintro ⟨⟨reached, -⟩, alone⟩
    obtain ⟨latest, current, currentAt, active, pending, -⟩ := history.activeShardCount_routes hour
    have currentScanned : Scanned history.generations latest current slackHours hour := by
      refine ⟨active, ?_⟩
      intro successor next
      have before := UInt32.lt_iff_toNat_lt.mp (pending successor next)
      omega
    obtain rfl : latest = place := alone latest current currentAt currentScanned
    refine ⟨?_, pending⟩
    have activeNat := UInt32.le_iff_toNat_le.mp reached
    split
    · omega
    · rename_i isLater
      -- The predecessor has activated, so only a closed slack window keeps the hour from scanning it.
      obtain ⟨before, rfl⟩ := Nat.exists_eq_succ_of_ne_zero isLater
      have inside := (List.getElem?_eq_some_iff.mp located).1
      obtain ⟨previous, previousAt⟩ : ∃ previous, history.generations[before]? = some previous :=
        ⟨_, getElem?_eq_getElem (by omega)⟩
      by_contra opened
      have order := UInt32.lt_iff_toNat_lt.mp (history.activation_lt (Nat.lt_succ_self before) previousAt located)
      have previousScanned : Scanned history.generations before previous slackHours hour := by
        refine ⟨by rw [UInt32.le_iff_toNat_le]; omega, ?_⟩
        intro successor next
        rw [← Nat.succ_eq_add_one, located, Option.some.injEq] at next
        rw [← next]
        omega
      have same := alone before previous previousAt previousScanned
      omega

end ShardHistory

/-- A reshard hides no write, the scan of a range is the widest of its hours, and a stable generation is scanned alone. -/
theorem resharding_hides_no_write (history : ShardHistory) (slackHours : UInt32) :
    (∀ (idPrefix : UInt64) (routed filed : UInt32), routed ≤ filed → filed.toNat ≤ routed.toNat + slackHours.toNat →
      shardFor idPrefix (activeShardCount history.generations routed) < scanCount history.generations filed slackHours) ∧
    (∀ startHour endHour : UInt32, startHour ≤ endHour →
      (∀ hour, startHour ≤ hour → hour ≤ endHour →
        scanCount history.generations hour slackHours ≤
          maxScanCountOverRange history.generations startHour endHour slackHours) ∧
      ∃ hour, startHour ≤ hour ∧ hour ≤ endHour ∧
        maxScanCountOverRange history.generations startHour endHour slackHours =
          scanCount history.generations hour slackHours) ∧
    (∀ hour generation : UInt32, stableGenerationForHour history.generations hour slackHours = some generation ↔
      ∃ place entry, history.generations[place]? = some entry ∧ entry.generation = generation ∧
        Scanned history.generations place entry slackHours hour ∧
        ∀ other otherEntry, history.generations[other]? = some otherEntry →
          Scanned history.generations other otherEntry slackHours hour → other = place) := by
  refine ⟨?_, ?_, ?_⟩
  · intro idPrefix routed filed after within
    have routedShard := history.shardFor_lt idPrefix routed
    have covered := history.activeShardCount_le_scanCount after within
    rw [UInt32.lt_iff_toNat_lt] at routedShard ⊢
    rw [UInt32.le_iff_toNat_le] at covered
    omega
  · intro startHour endHour ordered
    refine ⟨?_, history.maxScanCountOverRange_attained ordered⟩
    intro hour after before
    rw [UInt32.le_iff_toNat_le]
    exact (history.maxScanCountOverRange_le_iff ordered _).mp (Nat.le_refl _) hour after before
  · intro hour generation
    rw [stableGenerationForHour, history.stableFrom_iff hour slackHours 0 history.generations rfl]
    constructor
    · rintro ⟨place, entry, -, located, same, owns⟩
      obtain ⟨scanned, alone⟩ := (history.owns_iff_scanned_alone located).mp owns
      exact ⟨place, entry, located, same, scanned, alone⟩
    · rintro ⟨place, entry, located, same, scanned, alone⟩
      exact ⟨place, entry, Nat.zero_le _, located, same, (history.owns_iff_scanned_alone located).mpr ⟨scanned, alone⟩⟩

end Ravel.Catalog
