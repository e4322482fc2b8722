/-
This file models the shard-generation history of a provisioning record, the scan rule that readers and folds
share, and the rule that accepts a snapshot HEAD.
-/

import Mathlib.Algebra.Order.Ring.Int
import Mathlib.Data.List.Basic

namespace Ravel.Catalog

/-- One entry of the append-only shard-generation history. -/
structure ShardGeneration where
  generation : UInt32
  shardCount : UInt32
  activationHour : UInt32
  appendedUnixNs : Int64
  deriving DecidableEq, Repr

/-- A provisioning record, with the fields that the generation decoder reads. -/
structure ProvisioningRecord where
  shardCount : UInt32
  createdUnixNs : Int64
  generations : List ShardGeneration

/-- The structural rule that a corrupt history breaks. -/
inductive GenerationDefect where
  | scalarMismatch
  | notDense
  | activationNotIncreasing
  | adjacentEqualCount
  | countOutOfRange
  | firstActivationNonzero
  deriving DecidableEq, Repr

/-- The typed refusal of a corrupt history. -/
structure CorruptGenerations where
  key : String
  defect : GenerationDefect
  deriving DecidableEq, Repr

def maxShardCount : UInt32 := 10000

def flushBoundSlackHours : UInt32 := 2

def toleratedClockSkewHours : UInt32 := 1

def defaultScanSlackHours : UInt32 := flushBoundSlackHours + toleratedClockSkewHours

/-- The predicate is the range test `(1..=MAX_SHARD_COUNT).contains(&count)`. -/
def countInRange (count : UInt32) : Bool :=
  decide (1 ≤ count) && decide (count ≤ maxShardCount)

/-- The check of one entry against its index and the entry before it. -/
def generationDefect (index : Nat) (previous : Option ShardGeneration) (entry : ShardGeneration) :
    Option GenerationDefect :=
  if entry.generation.toNat ≠ index then some .notDense
  else if !countInRange entry.shardCount then some .countOutOfRange
  else
    match previous with
    | some before =>
      if entry.activationHour ≤ before.activationHour then some .activationNotIncreasing
      else if entry.shardCount = before.shardCount then some .adjacentEqualCount
      else none
    | none => if entry.activationHour ≠ 0 then some .firstActivationNonzero else none

/-- The loop over the listed entries. The first defect ends it. -/
def readEntries (key : String) (index : Nat) (previous : Option ShardGeneration) :
    List ShardGeneration → Except CorruptGenerations (List ShardGeneration)
  | [] => .ok []
  | entry :: rest =>
    match generationDefect index previous entry with
    | some defect => .error ⟨key, defect⟩
    | none => (readEntries key (index + 1) (some entry) rest).map (entry :: ·)

/-- The decoder of a record's history. An empty list is the implicit generation 0. -/
def readGenerations (record : ProvisioningRecord) (key : String) :
    Except CorruptGenerations (List ShardGeneration) :=
  match record.generations with
  | [] =>
    if !countInRange record.shardCount then .error ⟨key, .countOutOfRange⟩
    else .ok [⟨0, record.shardCount, 0, record.createdUnixNs⟩]
  | first :: rest =>
    if first.shardCount ≠ record.shardCount then .error ⟨key, .scalarMismatch⟩
    else readEntries key 0 none (first :: rest)

/-- A history that the decoder accepts. -/
structure ShardHistory where
  generations : List ShardGeneration
  nonempty : generations ≠ []
  dense : ∀ (index : Nat) (entry : ShardGeneration), generations[index]? = some entry → entry.generation.toNat = index
  counted : ∀ entry ∈ generations, countInRange entry.shardCount = true
  first : ∀ entry : ShardGeneration, generations[0]? = some entry → entry.activationHour = 0
  increasing : generations.IsChain fun before after => before.activationHour < after.activationHour
  changing : generations.IsChain fun before after => before.shardCount ≠ after.shardCount

/-- The entry with the largest generation number, the last one among equals. -/
def maxByGeneration (entries : List ShardGeneration) : Option ShardGeneration :=
  entries.foldl (fun best entry =>
    match best with
    | none => some entry
    | some largest => if largest.generation ≤ entry.generation then some entry else some largest) none

/-- The shard count that ingest routes with at an hour. -/
def activeShardCount (generations : List ShardGeneration) (hour : UInt32) : UInt32 :=
  (((maxByGeneration (generations.filter fun entry => entry.activationHour ≤ hour)).or generations.head?).map
    (·.shardCount)).getD 1

/-- The shard of a series, from the first eight bytes of its identifier read as a number. -/
def shardFor (idPrefix : UInt64) (shardCount : UInt32) : UInt32 :=
  (idPrefix % (max shardCount 1).toUInt64).toUInt32

/-- The `u64` addition that stops at the largest value. -/
def saturatingAdd64 (left right : UInt64) : UInt64 :=
  if left.toNat + right.toNat < 2 ^ 64 then left + right else 0xFFFFFFFFFFFFFFFF

/-- The exclusive end of the hours for which the generation at `index` is scanned. -/
def scanUpper (generations : List ShardGeneration) (index : Nat) (slackHours : UInt32) : UInt64 :=
  let successorActivation : UInt64 :=
    match generations[index + 1]? with
    | some successor => successor.activationHour.toUInt64
    | none => 0xFFFFFFFFFFFFFFFF
  saturatingAdd64 successorActivation slackHours.toUInt64

/-- One turn of the `scan_count` loop. -/
def scanStep (generations : List ShardGeneration) (hour slackHours : UInt32) (maxCount : UInt32)
    (entry : ShardGeneration × Nat) : UInt32 :=
  if hour < entry.1.activationHour then maxCount
  else if hour.toUInt64 < scanUpper generations entry.2 slackHours then max maxCount entry.1.shardCount
  else maxCount

/-- The size of the shard domain that a reader scans for one ingest hour. -/
def scanCount (generations : List ShardGeneration) (hour slackHours : UInt32) : UInt32 :=
  let maxCount := generations.zipIdx.foldl (scanStep generations hour slackHours) 0
  if maxCount = 0 then (generations.head?.map (·.shardCount)).getD 1 else maxCount

/-- One turn of the `max_scan_count_over_range` loop. -/
def rangeStep (generations : List ShardGeneration) (startHour endHour slackHours : UInt32) (maxCount : UInt32)
    (entry : ShardGeneration × Nat) : UInt32 :=
  if endHour < entry.1.activationHour then maxCount
  else if startHour.toUInt64 < scanUpper generations entry.2 slackHours then max maxCount entry.1.shardCount
  else maxCount

/-- The size of the shard domain that a reader scans for every hour of an inclusive range. -/
def maxScanCountOverRange (generations : List ShardGeneration) (startHour endHour slackHours : UInt32) : UInt32 :=
  let maxCount := generations.zipIdx.foldl (rangeStep generations startHour endHour slackHours) 0
  if maxCount = 0 then (generations.head?.map (·.shardCount)).getD 1 else maxCount

/-- The hour from which a generation is alone: the first one carries no margin for a predecessor's stragglers. -/
def stableStart (entry : ShardGeneration) (index : Nat) (slackHours : UInt32) : UInt64 :=
  if index = 0 then entry.activationHour.toUInt64 else saturatingAdd64 entry.activationHour.toUInt64 slackHours.toUInt64

/-- The loop of `stable_generation_for_hour` from an index on. -/
def stableFrom (hour slackHours : UInt32) : (index : Nat) → List ShardGeneration → Option UInt32
  | _, [] => none
  | index, entry :: rest =>
    let successorActivation : UInt64 :=
      match rest.head? with
      | some successor => successor.activationHour.toUInt64
      | none => 0xFFFFFFFFFFFFFFFF
    if hour.toUInt64 < stableStart entry index slackHours then none
    else if hour.toUInt64 < successorActivation then some entry.generation
    else stableFrom hour slackHours (index + 1) rest

/-- The generation that alone owns an ingest hour. -/
def stableGenerationForHour (generations : List ShardGeneration) (hour slackHours : UInt32) : Option UInt32 :=
  stableFrom hour slackHours 0 generations

/-- The widest generation that is active at or before the watermark. -/
def shardCeiling (generations : List ShardGeneration) (watermarkHour : UInt32) : UInt32 :=
  ((generations.filter fun entry => entry.activationHour ≤ watermarkHour).map (·.shardCount)).max?.getD 1

/-- The fields of a snapshot HEAD that the acceptance rule reads. -/
structure SnapshotHead where
  shardCount : UInt32
  shardGenerationCount : UInt32
  watermarkHour : UInt32
  deriving DecidableEq, Repr

/-- The acceptance rule of a HEAD against the reader's history. -/
def headGenerationsAcceptable (head : SnapshotHead) (generations : List ShardGeneration) : Bool :=
  if head.shardCount = shardCeiling generations head.watermarkHour then true
  else
    let readerGenCount := UInt32.ofNat generations.length
    if readerGenCount ≤ head.shardGenerationCount then false
    else
      let firstUnknown := (max head.shardGenerationCount 1).toNat
      match generations[firstUnknown]? with
      | some firstUnknownGen => decide (head.watermarkHour < firstUnknownGen.activationHour)
      | none => false

def foldShardCeiling (generations : List ShardGeneration) (watermarkHour : UInt32) : UInt32 :=
  shardCeiling generations watermarkHour

/-- The HEAD fields that a fold stamps from the history it knows. -/
def foldHead (generations : List ShardGeneration) (watermarkHour : UInt32) : SnapshotHead where
  shardCount := foldShardCeiling generations watermarkHour
  shardGenerationCount := UInt32.ofNat generations.length
  watermarkHour := watermarkHour

/-- The `(shard, hour)` buckets of one hour. -/
def hourBuckets (generations : List ShardGeneration) (hour : UInt32) : List (UInt32 × UInt32) :=
  (List.range (scanCount generations hour defaultScanSlackHours).toNat).map fun shard =>
    (UInt32.ofNat shard, hour)

/-- The buckets of every hour in the inclusive range. -/
def hourRangeBuckets (generations : List ShardGeneration) (low high : UInt32) : List (UInt32 × UInt32) :=
  (List.range' low.toNat (high.toNat + 1 - low.toNat)).flatMap fun hour =>
    hourBuckets generations (UInt32.ofNat hour)

/-- The buckets of every hour of an explicit list. -/
def hourSetBuckets (generations : List ShardGeneration) (hours : List UInt32) : List (UInt32 × UInt32) :=
  hours.flatMap (hourBuckets generations)

/-- Telemetry signal kinds. -/
inductive Signal where
  | metrics
  | logs
  | spans
  | profiles
  | alerts
  | audit
  deriving DecidableEq, Repr

/-- The shards that a reader always scans, because the signal's writers pin fixed shard indices. -/
def Signal.fixedReadShards : Signal → UInt32
  | .alerts => 1
  | .audit => 2
  | .metrics => 0
  | .logs => 0
  | .spans => 0
  | .profiles => 0

/-- The scan width of a reader over a range of hours. -/
def scanShardsOverRange (signal : Signal) (generations : List ShardGeneration) (startHour endHour slackHours : UInt32) : UInt32 :=
  max (maxScanCountOverRange generations startHour endHour slackHours) signal.fixedReadShards

/-- The scan width of a reader for one hour. -/
def scanShardsForHour (signal : Signal) (generations : List ShardGeneration) (hour slackHours : UInt32) : UInt32 :=
  max (scanCount generations hour slackHours) signal.fixedReadShards

/-- The generation at `index` is active at the hour and its slack window is open. -/
def Scanned (generations : List ShardGeneration) (index : Nat) (entry : ShardGeneration) (slackHours : UInt32)
    (hour : UInt32) : Prop :=
  entry.activationHour ≤ hour ∧
    ∀ successor, generations[index + 1]? = some successor →
      hour.toNat < successor.activationHour.toNat + slackHours.toNat

/-- The last hour at or below the watermark at which the generation at `index` is scanned. -/
def lastScannedHour (generations : List ShardGeneration) (watermarkHour slackHours : UInt32) (index : Nat) :
    Nat :=
  match generations[index + 1]? with
  | some successor => min watermarkHour.toNat (successor.activationHour.toNat + slackHours.toNat - 1)
  | none => watermarkHour.toNat

/-- The entry is a generation of the history that the fold did not know and that is active by the watermark. -/
def UnknownActive (known generations : List ShardGeneration) (watermarkHour : UInt32) (index : Nat)
    (entry : ShardGeneration) : Prop :=
  known.length ≤ index ∧ generations[index]? = some entry ∧ entry.activationHour ≤ watermarkHour

/-- An unknown generation is wider than every known generation that is active by the watermark. -/
def WiderUnknown (known generations : List ShardGeneration) (watermarkHour : UInt32) : Prop :=
  ∃ index entry, UnknownActive known generations watermarkHour index entry ∧
    ∀ other ∈ known, other.activationHour ≤ watermarkHour → other.shardCount < entry.shardCount

/-- Each unknown generation has a known one that is as wide and whose own window reaches its last hour. -/
def OutlastedUnknown (known generations : List ShardGeneration) (watermarkHour slackHours : UInt32) : Prop :=
  ∀ index entry, UnknownActive known generations watermarkHour index entry →
    ∃ place other, known[place]? = some other ∧ entry.shardCount ≤ other.shardCount ∧
      ∀ successor, known[place + 1]? = some successor →
        lastScannedHour generations watermarkHour slackHours index <
          successor.activationHour.toNat + slackHours.toNat

end Ravel.Catalog
