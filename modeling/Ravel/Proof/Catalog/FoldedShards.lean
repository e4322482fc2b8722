import Ravel.Proof.Catalog.ShardAcceptance

namespace Ravel.Catalog

open List

/-- The buckets are those of the hours with a shard below the resolver's width. -/
def ListsResolved (signal : Signal) (generations : List ShardGeneration) (hours : UInt32 → Prop)
    (buckets : List (UInt32 × UInt32)) : Prop :=
  ∀ shard hour, (shard, hour) ∈ buckets ↔
    hours hour ∧ shard < scanShardsForHour signal generations hour defaultScanSlackHours

/-- A generation that is scanned at the hour has more than one shard. -/
def ScannedWide (generations : List ShardGeneration) (hour : UInt32) : Prop :=
  ∃ index entry, generations[index]? = some entry ∧ Scanned generations index entry defaultScanSlackHours hour ∧
    1 < entry.shardCount

section Buckets

variable {generations : List ShardGeneration} {shard hour : UInt32}

theorem mem_hourBuckets {listed : UInt32} :
    (shard, hour) ∈ hourBuckets generations listed ↔
      hour = listed ∧ shard < scanCount generations listed defaultScanSlackHours := by
  rw [hourBuckets, mem_map]
  constructor
  · rintro ⟨number, inside, same⟩
    obtain ⟨rfl, rfl⟩ := Prod.mk.inj same
    have small := (scanCount generations listed defaultScanSlackHours).toNat_lt
    have below := mem_range.mp inside
    refine ⟨rfl, ?_⟩
    rw [UInt32.lt_iff_toNat_lt, UInt32.toNat_ofNat', Nat.mod_eq_of_lt (by omega)]
    exact below
  · rintro ⟨rfl, below⟩
    exact ⟨shard.toNat, mem_range.mpr (UInt32.lt_iff_toNat_lt.mp below), by rw [UInt32.ofNat_toNat]⟩

theorem mem_hourRangeBuckets {low high : UInt32} :
    (shard, hour) ∈ hourRangeBuckets generations low high ↔
      (low ≤ hour ∧ hour ≤ high) ∧ shard < scanCount generations hour defaultScanSlackHours := by
  rw [hourRangeBuckets, mem_flatMap]
  constructor
  · rintro ⟨number, inside, member⟩
    obtain ⟨rfl, below⟩ := mem_hourBuckets.mp member
    have range := mem_range'_1.mp inside
    have small := high.toNat_lt
    refine ⟨⟨?_, ?_⟩, below⟩
    · rw [UInt32.le_iff_toNat_le, UInt32.toNat_ofNat', Nat.mod_eq_of_lt (by omega)]
      omega
    · rw [UInt32.le_iff_toNat_le, UInt32.toNat_ofNat', Nat.mod_eq_of_lt (by omega)]
      omega
  · rintro ⟨⟨above, upTo⟩, below⟩
    rw [UInt32.le_iff_toNat_le] at above upTo
    refine ⟨hour.toNat, mem_range'_1.mpr (by omega), ?_⟩
    rw [UInt32.ofNat_toNat]
    exact mem_hourBuckets.mpr ⟨rfl, below⟩

theorem mem_hourSetBuckets {hours : List UInt32} :
    (shard, hour) ∈ hourSetBuckets generations hours ↔
      hour ∈ hours ∧ shard < scanCount generations hour defaultScanSlackHours := by
  rw [hourSetBuckets, mem_flatMap]
  constructor
  · rintro ⟨listed, member, inside⟩
    obtain ⟨rfl, below⟩ := mem_hourBuckets.mp inside
    exact ⟨member, below⟩
  · rintro ⟨member, below⟩
    exact ⟨hour, member, mem_hourBuckets.mpr ⟨rfl, below⟩⟩

end Buckets

theorem le_max_self (left right : UInt32) : left ≤ max left right := by
  rw [UInt32.le_iff_toNat_le]
  exact ((toNat_max_le_iff left right _).mp (Nat.le_refl _)).1

/-- A maximum is its first value when the second is not larger. -/
theorem max_eq_self_iff (left right : UInt32) : max left right = left ↔ right ≤ left := by
  constructor
  · intro same
    have bounds := (toNat_max_le_iff left right left.toNat).mp (by rw [same])
    exact UInt32.le_iff_toNat_le.mpr bounds.2
  · intro smaller
    apply UInt32.le_antisymm _ (le_max_self left right)
    rw [UInt32.le_iff_toNat_le, toNat_max_le_iff]
    exact ⟨Nat.le_refl _, UInt32.le_iff_toNat_le.mp smaller⟩

section Widths

variable (history : ShardHistory) (hour : UInt32)

theorem ShardHistory.one_lt_scanCount_iff :
    1 < scanCount history.generations hour defaultScanSlackHours ↔ ScannedWide history.generations hour := by
  have bounded := history.scanCount_le_iff hour defaultScanSlackHours 1
  rw [UInt32.lt_iff_toNat_lt]
  show 1 < _ ↔ _
  rw [← Nat.not_le, bounded]
  push Not
  simp only [ScannedWide, UInt32.lt_iff_toNat_lt]
  rfl

theorem ShardHistory.scanCount_pos (slackHours : UInt32) : 0 < scanCount history.generations hour slackHours := by
  obtain ⟨index, entry, member, scanned⟩ := history.exists_scanned slackHours hour
  have bounded := (history.scanCount_le_iff hour slackHours 0).not
  have wide := history.shardCount_pos (mem_of_getElem? member)
  rw [UInt32.lt_iff_toNat_lt]
  show 0 < _
  rw [← Nat.not_le, bounded]
  intro narrow
  have zero := narrow index entry member scanned
  omega

/-- The floor changes the width only for the audit signal, at an hour whose scanned generations all have one shard. -/
theorem ShardHistory.scanShardsForHour_eq_iff (signal : Signal) :
    scanShardsForHour signal history.generations hour defaultScanSlackHours =
      scanCount history.generations hour defaultScanSlackHours ↔
    signal = .audit → ScannedWide history.generations hour := by
  have positive := history.scanCount_pos hour defaultScanSlackHours
  rw [← history.one_lt_scanCount_iff]
  rw [scanShardsForHour, max_eq_self_iff]
  generalize scanCount history.generations hour defaultScanSlackHours = count at positive ⊢
  rw [UInt32.lt_iff_toNat_lt] at positive
  rw [UInt32.le_iff_toNat_le, UInt32.lt_iff_toNat_lt]
  cases signal with
  | audit => exact ⟨fun floor _ => floor, fun wide => wide rfl⟩
  | alerts => exact iff_of_true positive (fun isAudit => by cases isAudit)
  | metrics => exact iff_of_true (Nat.zero_le _) (fun isAudit => by cases isAudit)
  | logs => exact iff_of_true (Nat.zero_le _) (fun isAudit => by cases isAudit)
  | spans => exact iff_of_true (Nat.zero_le _) (fun isAudit => by cases isAudit)
  | profiles => exact iff_of_true (Nat.zero_le _) (fun isAudit => by cases isAudit)

/-- Buckets below the scan count are the resolver's when no hour's width is raised by the floor. -/
theorem ShardHistory.listsResolved_iff (signal : Signal) {hours : UInt32 → Prop} {buckets : List (UInt32 × UInt32)}
    (listed : ∀ shard hour, (shard, hour) ∈ buckets ↔
      hours hour ∧ shard < scanCount history.generations hour defaultScanSlackHours) :
    ListsResolved signal history.generations hours buckets ↔
      (signal = .audit → ∀ hour, hours hour → ScannedWide history.generations hour) := by
  constructor
  · intro resolved isAudit hour inside
    apply (history.scanShardsForHour_eq_iff hour signal).mp _ isAudit
    -- the first shard that the fold leaves out is not below the resolver's width
    have next := (resolved (scanCount history.generations hour defaultScanSlackHours) hour).not.mp
    rw [listed] at next
    have beyond := next fun below => UInt32.lt_irrefl _ below.2
    apply UInt32.le_antisymm
    · exact UInt32.not_lt.mp fun below => beyond ⟨inside, below⟩
    · exact le_max_self _ _
  · intro wide shard hour
    rw [listed]
    constructor
    · rintro ⟨inside, below⟩
      rw [(history.scanShardsForHour_eq_iff hour signal).mpr fun isAudit => wide isAudit hour inside]
      exact ⟨inside, below⟩
    · rintro ⟨inside, below⟩
      rw [(history.scanShardsForHour_eq_iff hour signal).mpr fun isAudit => wide isAudit hour inside] at below
      exact ⟨inside, below⟩

end Widths

/-- The implicit generation of an unprovisioned signal in a deployment with one shard. -/
def singleShardHistory : ShardHistory :=
  .ofRead ⟨1, 0, []⟩ "provisioning" [⟨0, 1, 0, 0⟩] (by decide)

end Ravel.Catalog
