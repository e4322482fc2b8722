/-
This file models the entries of a folded snapshot: the segments that they stand for, and the hour-range parts that a fold seals.
-/

import Ravel.Construction.Catalog.ShardGenerations
import Ravel.Construction.Commit.Publication

namespace Ravel.Snapshot

open Commit

/-- One folded segment. A level 1 entry carries its input set hash and its part index in the writer's fields. -/
structure SnapshotEntry where
  level : UInt32
  shard : UInt32
  ingestHourBucket : UInt32
  writerId : Bytes
  writerEpoch : UInt64
  writerSeq : UInt64
  contentHash : Bytes
  objectSize : UInt64
  sampleCount : UInt64
  seriesCount : UInt64
  minEventTsNs : Int64
  maxEventTsNs : Int64
  createdUnixNs : Int64
  segmentFormatVersion : UInt32
  deriving DecidableEq, Repr

inductive SegmentLevel where
  | l0
  | l1 (inputSetHash : Bytes) (partIndex : Nat)
  deriving DecidableEq, Repr

structure SegmentRef where
  dataObjectKey : String
  objectSize : UInt64
  minEventTsNs : Int64
  maxEventTsNs : Int64
  ingestHourBucket : UInt32
  sampleCount : UInt64
  seriesCount : UInt64
  shard : UInt32
  contentHash : Bytes
  writerId : Bytes
  writerEpoch : UInt64
  writerSeq : UInt64
  createdUnixNs : Int64
  level : SegmentLevel
  segmentFormatVersion : UInt32
  deriving DecidableEq, Repr

inductive EntryError where
  | fieldMismatch (key field expected actual : String)
  | key (error : KeyError)
  | partIndexOutOfRange (partIndex : Nat)
  deriving DecidableEq, Repr

def keyPrefix : Catalog.Signal → String
  | .metrics => "m"
  | .logs => "l"
  | .spans => "s"
  | .profiles => "p"
  | .alerts => "a"
  | .audit => "u"

/-- The text of a UUID: groups of 8, 4, 4, 4 and 12 digits. -/
def uuidText (bytes : Bytes) : String :=
  hexEncode (bytes.take 4) ++ "-" ++ hexEncode ((bytes.drop 4).take 2) ++ "-" ++ hexEncode ((bytes.drop 6).take 2) ++ "-" ++
    hexEncode ((bytes.drop 8).take 2) ++ "-" ++ hexEncode (bytes.drop 10)

def hex16 (hash : Bytes) : String :=
  hexEncode (hash.take 8)

def dataKey (tenant : Bytes) (signal : Catalog.Signal) (entry : SnapshotEntry) : Except EntryError String := do
  let shard ← (formatShard entry.shard).mapError .key
  return "t/" ++ hexEncode tenant ++ "/" ++ keyPrefix signal ++ "/l0/" ++ shard ++ "/" ++ uuidText entry.writerId ++ "." ++
    toString entry.writerEpoch.toNat ++ "." ++ padded 20 entry.writerSeq.toNat ++ "." ++ hex16 entry.contentHash ++ ".rseg"

def formatPartIndex (partIndex : Nat) : Except EntryError String :=
  if 9999 < partIndex then .error (.partIndexOutOfRange partIndex) else .ok (padded 4 partIndex)

def l1PartKey (tenant : Bytes) (signal : Catalog.Signal) (entry : SnapshotEntry) : Except EntryError String := do
  let shard ← (formatShard entry.shard).mapError .key
  let part ← formatPartIndex entry.writerEpoch.toNat
  return "t/" ++ hexEncode tenant ++ "/" ++ keyPrefix signal ++ "/l1/" ++ shard ++ "/" ++
    ingestHourString entry.ingestHourBucket ++ "/" ++ hex16 entry.writerId ++ "." ++ part ++ "." ++ hex16 entry.contentHash ++
    ".rseg"

def entryLabel (entry : SnapshotEntry) : String :=
  "snapshot entry (level " ++ toString entry.level.toNat ++ ", shard " ++ toString entry.shard.toNat ++ ", hour " ++
    toString entry.ingestHourBucket.toNat ++ ")"

/-- A bytes field of an entry must have its fixed length. -/
def checkLength (entry : SnapshotEntry) (field : String) (bytes : Bytes) (length : Nat) : Except EntryError Unit :=
  if bytes.length = length then .ok ()
  else .error (.fieldMismatch (entryLabel entry) field (toString length ++ " bytes") (toString bytes.length ++ " bytes"))

/-- The segment of an entry. The declared column statistics are left out. -/
def buildSegmentRefFromEntry (tenant : Bytes) (signal : Catalog.Signal) (entry : SnapshotEntry) :
    Except EntryError SegmentRef := do
  checkLength entry "content_hash" entry.contentHash 32
  if entry.level ≠ 0 then
    checkLength entry "writer_id (input_set_hash)" entry.writerId 32
    if 2 ^ 32 ≤ entry.writerEpoch.toNat then
      throw (.fieldMismatch (entryLabel entry) "writer_epoch (part_index)" "u32" (toString entry.writerEpoch.toNat))
    let dataObjectKey ← l1PartKey tenant signal entry
    return ⟨dataObjectKey, entry.objectSize, entry.minEventTsNs, entry.maxEventTsNs, entry.ingestHourBucket, entry.sampleCount,
      entry.seriesCount, entry.shard, entry.contentHash, List.replicate 16 0, 0, 0, entry.createdUnixNs,
      .l1 entry.writerId entry.writerEpoch.toNat, entry.segmentFormatVersion⟩
  else
    checkLength entry "writer_id" entry.writerId 16
    let dataObjectKey ← dataKey tenant signal entry
    return ⟨dataObjectKey, entry.objectSize, entry.minEventTsNs, entry.maxEventTsNs, entry.ingestHourBucket, entry.sampleCount,
      entry.seriesCount, entry.shard, entry.contentHash, entry.writerId, entry.writerEpoch, entry.writerSeq,
      entry.createdUnixNs, .l0, entry.segmentFormatVersion⟩

/-- The entries from `start` on and before `stop`, with the first and the last of their hours. -/
structure PartSpan where
  start : Nat
  stop : Nat
  minHour : UInt32
  watermarkHour : UInt32
  deriving DecidableEq, Repr

/-- The length of the run of entries at the front that share an hour. -/
def hourRun (hour : UInt32) (entries : List SnapshotEntry) : Nat :=
  (entries.takeWhile fun entry => entry.ingestHourBucket = hour).length

/-- The hour of the entry before a position. -/
def hourBefore (entries : List SnapshotEntry) (position : Nat) : UInt32 :=
  match entries[position - 1]? with
  | none => 0
  | some entry => entry.ingestHourBucket

theorem hourRun_pos {entries : List SnapshotEntry} {position : Nat} {entry : SnapshotEntry}
    (located : entries[position]? = some entry) : 0 < hourRun entry.ingestHourBucket (entries.drop position) := by
  obtain ⟨inside, rfl⟩ := List.getElem?_eq_some_iff.mp located
  rw [List.drop_eq_getElem_cons inside, hourRun, List.takeWhile_cons_of_pos (by simp), List.length_cons]
  exact Nat.succ_pos _

/-- The loop over the hours, with the open span's start, count and first hour. -/
def partitionFrom (entries : List SnapshotEntry) (cap curStart curCount : Nat) (curMinHour : UInt32) (position : Nat) :
    List PartSpan :=
  match _ : entries[position]? with
  | none => [⟨curStart, entries.length, curMinHour, hourBefore entries entries.length⟩]
  | some entry =>
    let hour := entry.ingestHourBucket
    let runLen := hourRun hour (entries.drop position)
    -- an open span seals at this hour if the whole hour would push it past the cap
    if 0 < curCount ∧ cap < curCount + runLen then
      ⟨curStart, position, curMinHour, hourBefore entries position⟩ ::
        partitionFrom entries cap position runLen hour (position + runLen)
    else partitionFrom entries cap curStart (curCount + runLen) curMinHour (position + runLen)
termination_by entries.length - position
decreasing_by
  all_goals
    have located : entries[position]? = some entry := by assumption
    have inside := (List.getElem?_eq_some_iff.mp located).1
    have advances := hourRun_pos located
    omega

def partitionParts (entries : List SnapshotEntry) (maxEntries : Nat) : List PartSpan :=
  match entries with
  | [] => [⟨0, 0, 0, 0⟩]
  | first :: rest => partitionFrom (first :: rest) (max maxEntries 1) 0 0 first.ingestHourBucket 0

/-- The entries of a span. -/
def PartSpan.slice (span : PartSpan) (entries : List SnapshotEntry) : List SnapshotEntry :=
  (entries.take span.stop).drop span.start

end Ravel.Snapshot
