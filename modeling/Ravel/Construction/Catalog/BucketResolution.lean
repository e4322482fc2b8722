/-
This file models the records of one sealed bucket and their resolution: supersession among the records, the choice of
authoritative compaction records, and the segments that a snapshot serves.
-/

import Ravel.Construction.Erasure.Request
import Ravel.Library.DisjointSets
import Ravel.Library.SortedGroups

namespace Ravel.Catalog

open Erasure DisjointSets SortedGroups

/-- The identity of a raw commit. -/
structure InputIdentity where
  writerId : String
  writerEpoch : Nat
  writerSeq : Nat
  deriving DecidableEq, Repr

/-- The number that the thirty-two bytes of a hash spell, so that numbers compare as the bytes do. -/
abbrev Digest := Nat

/-- The leading eight bytes of a hash, which keys carry. -/
def hash16 (digest : Digest) : Nat :=
  digest / 2 ^ 192

/-- The key of a record in its bucket, without the bucket's prefix. -/
inductive RecordKey where
  | compaction (inputSetHash16 : Nat)
  | rewrite (inputSetHash16 : Nat)
  deriving DecidableEq, Repr

instance partIndexes : NeZero 10000 := ⟨by decide⟩

/-- The key of a data object of the bucket. -/
inductive DataObjectKey where
  | l0 (identity : InputIdentity) (contentHash16 : Nat)
  | l1 (inputSetHash16 : Nat) (partIndex : Fin 10000) (contentHash16 : Nat)
  deriving DecidableEq, Repr

/-- The commit record of a raw segment. Its key spells its identity. -/
structure CommitRecord where
  identity : InputIdentity
  contentHash : Digest
  minEventTsNs : Int64
  maxEventTsNs : Int64
  createdUnixNs : Int64
  deriving DecidableEq, Repr

/-- One output part of a compaction or a rewrite. A part index has four digits. -/
structure CompactionPart where
  partIndex : Fin 10000
  contentHash : Digest
  minEventTsNs : Int64
  maxEventTsNs : Int64
  deriving DecidableEq, Repr

/-- A compaction record. A version 2 record names the record that it re-encodes. -/
structure CompactionRecord where
  inputs : List InputIdentity
  inputSetHash : Digest
  supersededRecordKey : Option RecordKey
  parts : List CompactionPart
  createdUnixNs : Int64
  deriving DecidableEq, Repr

/-- A rewrite record. It names either its raw inputs or the record that it supersedes as a whole. -/
structure RewriteRecord where
  inputs : List InputIdentity
  inputSetHash : Digest
  supersededRecordKey : Option RecordKey
  drops : List RewriteDrop
  parts : List CompactionPart
  createdUnixNs : Int64
  replacesOne : inputs.isEmpty = supersededRecordKey.isSome
  deriving DecidableEq, Repr

/-- A loaded record sits at the key that its hash spells. -/
def CompactionRecord.key (record : CompactionRecord) : RecordKey :=
  .compaction (hash16 record.inputSetHash)

def RewriteRecord.key (record : RewriteRecord) : RecordKey :=
  .rewrite (hash16 record.inputSetHash)

/-- A listed bucket. The listing has each key once, and a version 2 record names a compaction record. -/
structure Bucket where
  hasTombstone : Bool
  commits : List CommitRecord
  compactions : List CompactionRecord
  rewrites : List RewriteRecord
  commitsNodup : (commits.map CommitRecord.identity).Nodup
  compactionsNodup : (compactions.map CompactionRecord.key).Nodup
  rewritesNodup : (rewrites.map RewriteRecord.key).Nodup
  namesCompaction : ∀ record ∈ compactions, ∀ key, record.supersededRecordKey = some key →
    ∃ inputSetHash16, key = .compaction inputSetHash16

inductive SegmentLevel where
  | l0
  | l1 (inputSetHash : Digest) (partIndex : Fin 10000)
  deriving DecidableEq, Repr

/-- A served segment. -/
structure SegmentRef where
  dataObjectKey : DataObjectKey
  contentHash : Digest
  minEventTsNs : Int64
  maxEventTsNs : Int64
  writer : InputIdentity
  createdUnixNs : Int64
  level : SegmentLevel
  deriving DecidableEq, Repr

/-- The nil writer of a part. -/
def nilWriter : InputIdentity :=
  ⟨"00000000-0000-0000-0000-000000000000", 0, 0⟩

def CommitRecord.dataKey (record : CommitRecord) : DataObjectKey :=
  .l0 record.identity (hash16 record.contentHash)

/-- The key of one part of a record with an input set hash. -/
def partKey (inputSetHash : Digest) (part : CompactionPart) : DataObjectKey :=
  .l1 (hash16 inputSetHash) part.partIndex (hash16 part.contentHash)

/-- The segment of a raw commit. -/
def l0Ref (record : CommitRecord) : SegmentRef :=
  ⟨record.dataKey, record.contentHash, record.minEventTsNs, record.maxEventTsNs, record.identity,
    record.createdUnixNs, .l0⟩

/-- The segment of one part of a record with an input set hash and a creation time. -/
def partRef (inputSetHash : Digest) (createdUnixNs : Int64) (part : CompactionPart) : SegmentRef :=
  ⟨partKey inputSetHash part, part.contentHash, part.minEventTsNs, part.maxEventTsNs, nilWriter, createdUnixNs,
    .l1 inputSetHash part.partIndex⟩

def buildL1SegmentRef (record : CompactionRecord) (part : CompactionPart) : SegmentRef :=
  partRef record.inputSetHash record.createdUnixNs part

def buildRewriteL1SegmentRef (record : RewriteRecord) (part : CompactionPart) : SegmentRef :=
  partRef record.inputSetHash record.createdUnixNs part

structure TimeRange where
  startNs : Int64
  endNs : Int64
  deriving DecidableEq, Repr

namespace TimeRange

def overlaps (range other : TimeRange) : Bool :=
  decide (range.startNs ≤ other.endNs) && decide (other.startNs ≤ range.endNs)

def unbounded : TimeRange :=
  ⟨Int64.minValue, Int64.maxValue⟩

end TimeRange

/-- The event range of a served segment. -/
def SegmentRef.eventRange (segment : SegmentRef) : TimeRange :=
  ⟨segment.minEventTsNs, segment.maxEventTsNs⟩

inductive CatalogError where
  | compactionSupersessionInputMismatch (key supersededKey : RecordKey)
  | rewriteSupersessionCycle (key : RecordKey)
  | rewriteSupersessionChainTooDeep (max : Nat)
  deriving DecidableEq, Repr

def maxRewriteSupersessionDepth : Nat := 64

def compactionByKey (records : List CompactionRecord) (key : RecordKey) : Option CompactionRecord :=
  records.find? fun record => record.key = key

def rewriteByKey (records : List RewriteRecord) (key : RecordKey) : Option RewriteRecord :=
  records.find? fun record => record.key = key

/-- A record's input identities, deduplicated. -/
def inputIdentitySet (record : CompactionRecord) : List InputIdentity :=
  record.inputs.dedup

/-- Two records name the same identities. -/
def sameInputs (left right : CompactionRecord) : Bool :=
  (inputIdentitySet left).all (· ∈ inputIdentitySet right) && (inputIdentitySet right).all (· ∈ inputIdentitySet left)

/-- The check of one version 2 record against its predecessor. An absent predecessor is not checked. -/
def checkPredecessorInputs (records : List CompactionRecord) (record : CompactionRecord) :
    Except CatalogError Unit :=
  match record.supersededRecordKey with
  | none => .ok ()
  | some named =>
    match compactionByKey records named with
    | none => .ok ()
    | some predecessor =>
      if sameInputs record predecessor then .ok ()
      else .error (.compactionSupersessionInputMismatch record.key named)

def checkVersion2Inputs (records : List CompactionRecord) : Except CatalogError Unit :=
  records.forM (checkPredecessorInputs records)

/-- The walk down a chain of version 2 records. Each present record that is named joins the superseded keys. -/
def walkVersion2 (records : List CompactionRecord) :
    Nat → List RecordKey → CompactionRecord → List RecordKey → Except CatalogError (List RecordKey)
  | 0, visited, current, _ =>
    if current.key ∈ visited then .error (.rewriteSupersessionCycle current.key)
    else .error (.rewriteSupersessionChainTooDeep maxRewriteSupersessionDepth)
  | remaining + 1, visited, current, superseded =>
    if current.key ∈ visited then .error (.rewriteSupersessionCycle current.key)
    else
      match current.supersededRecordKey.bind (compactionByKey records) with
      | none => .ok superseded
      | some named => walkVersion2 records remaining (current.key :: visited) named (named.key :: superseded)

/-- The walks from a list of records, each from a version 2 record. -/
def walkAllVersion2 (records : List CompactionRecord) :
    List CompactionRecord → List RecordKey → Except CatalogError (List RecordKey)
  | [], superseded => .ok superseded
  | start :: rest, superseded =>
    match start.supersededRecordKey with
    | none => walkAllVersion2 records rest superseded
    | some _ => do
      let superseded ← walkVersion2 records maxRewriteSupersessionDepth [] start superseded
      walkAllVersion2 records rest superseded

/-- The keys of the present records that a present version 2 record names. -/
def supersededByVersion2Records (records : List CompactionRecord) : Except CatalogError (List RecordKey) := do
  checkVersion2Inputs records
  walkAllVersion2 records records []

/-- A bucket's compaction records as the selector resolved them. -/
structure AuthoritativeSelection where
  superseded : List RecordKey
  losing : List RecordKey
  largestComponent : Nat
  deriving DecidableEq, Repr

def AuthoritativeSelection.isExcluded (selection : AuthoritativeSelection) (key : RecordKey) : Bool :=
  decide (key ∈ selection.superseded) || decide (key ∈ selection.losing)

/-- The order of candidates for authority: the largest input set, then the least hash, then the least key. Keys of
one bucket compare as their hashes do. -/
def authorityOrder (left right : CompactionRecord) : Ordering :=
  (compare (inputIdentitySet right).length (inputIdentitySet left).length).then <|
    (compare left.inputSetHash right.inputSetHash).then
      (compare (hash16 left.inputSetHash) (hash16 right.inputSetHash))

/-- The order of two positions of a list of records. -/
def orderAt (live : List CompactionRecord) (left right : Nat) : Ordering :=
  match live[left]?, live[right]? with
  | some leftRecord, some rightRecord => authorityOrder leftRecord rightRecord
  | _, _ => .eq

/-- The first least element. -/
def minBy (order : Nat → Nat → Ordering) : List Nat → Option Nat
  | [] => none
  | first :: rest => some (rest.foldl (fun best next => if order best next = .gt then next else best) first)

/-- The keys of a component's records other than its winner. A single record is no conflict. -/
def losersOf (live : List CompactionRecord) (members : List Nat) : List RecordKey :=
  if members.length < 2 then []
  else
    match minBy (orderAt live) members with
    | none => []
    | some winner =>
      (members.filter fun member => member ≠ winner).filterMap fun member =>
        live[member]?.map CompactionRecord.key

/-- Every position of a list of records with each of its input identities. -/
def identityEntries (live : List CompactionRecord) : List (Nat × InputIdentity) :=
  live.zipIdx.flatMap fun entry => (inputIdentitySet entry.1).map fun identity => (entry.2, identity)

/-- The positions of a list of records grouped by overlap component. -/
def overlapComponents (live : List CompactionRecord) : List (Nat × List Nat) :=
  groupAll (rootsFrom (linkAll live.length (identityEntries live)).parents (List.range live.length))

/-- One authoritative record for each overlap component of the records that are not superseded. -/
def selectAmongLive (live : List CompactionRecord) (superseded : List RecordKey) : AuthoritativeSelection :=
  if live.length < 2 then ⟨superseded, [], live.length⟩
  else
    let components := overlapComponents live
    ⟨superseded, components.flatMap fun component => losersOf live component.2,
      (components.map fun component => component.2.length).foldl max 0⟩

/-- The selection, after the superseded records are set aside. -/
def selectAuthoritativeCompactionRecords (records : List CompactionRecord) :
    Except CatalogError AuthoritativeSelection := do
  let superseded ← supersededByVersion2Records records
  return selectAmongLive (records.filter fun record => record.key ∉ superseded) superseded

/-- One record on a rewrite's supersession chain. -/
inductive ChainLink where
  | rewrite (record : RewriteRecord)
  | compaction (record : CompactionRecord)
  deriving DecidableEq, Repr

namespace ChainLink

/-- The record that a link supersedes as a whole. -/
def named : ChainLink → Option RecordKey
  | .rewrite record => record.supersededRecordKey
  | .compaction record => record.supersededRecordKey

/-- The raw inputs that a record lists. -/
def inputs : ChainLink → List InputIdentity
  | .rewrite record => record.inputs
  | .compaction record => record.inputs

end ChainLink

/-- The present record at a key. -/
def linkAt (compactions : List CompactionRecord) (rewrites : List RewriteRecord) (key : RecordKey) :
    Option ChainLink :=
  match compactionByKey compactions key with
  | some record => some (.compaction record)
  | none => (rewriteByKey rewrites key).map .rewrite

/-- What the rewrites exclude: raw identities, and whole records by key. -/
structure Exclusions where
  excluded : List InputIdentity
  supersededRecords : List RecordKey
  deriving DecidableEq, Repr

/-- One iteration of the chase: it ends, or goes on to the record at a key. -/
inductive ChaseStep where
  | done (exclusions : Exclusions)
  | next (key : RecordKey) (link : ChainLink) (exclusions : Exclusions)

/-- The named record's output is superseded. A version 1 record ends the chain, and so does an absent one. -/
def followNamed (compactions : List CompactionRecord) (rewrites : List RewriteRecord) (named : RecordKey)
    (exclusions : Exclusions) : ChaseStep :=
  let exclusions := { exclusions with supersededRecords := named :: exclusions.supersededRecords }
  match compactionByKey compactions named with
  | some record =>
    let exclusions := { exclusions with excluded := record.inputs ++ exclusions.excluded }
    match record.supersededRecordKey with
    | none => .done exclusions
    | some _ => .next named (.compaction record) exclusions
  | none =>
    match rewriteByKey rewrites named with
    | some record => .next named (.rewrite record) exclusions
    | none => .done exclusions

/-- The iteration at one record. Raw inputs end the chain. -/
def chaseStep (compactions : List CompactionRecord) (rewrites : List RewriteRecord) (link : ChainLink)
    (exclusions : Exclusions) : ChaseStep :=
  match link with
  | .rewrite record =>
    if !record.inputs.isEmpty then .done { exclusions with excluded := record.inputs ++ exclusions.excluded }
    else
      match record.supersededRecordKey with
      | none => .done exclusions
      | some named => followNamed compactions rewrites named exclusions
  | .compaction record =>
    match record.supersededRecordKey with
    | none => .done exclusions
    | some named => followNamed compactions rewrites named exclusions

/-- The bounded and cycle-checked chase down a chain. -/
def chase (compactions : List CompactionRecord) (rewrites : List RewriteRecord) :
    Nat → List RecordKey → RecordKey → ChainLink → Exclusions → Except CatalogError Exclusions
  | 0, visited, key, _, _ =>
    if key ∈ visited then .error (.rewriteSupersessionCycle key)
    else .error (.rewriteSupersessionChainTooDeep maxRewriteSupersessionDepth)
  | remaining + 1, visited, key, link, exclusions =>
    if key ∈ visited then .error (.rewriteSupersessionCycle key)
    else
      match chaseStep compactions rewrites link exclusions with
      | .done exclusions => .ok exclusions
      | .next nextKey nextLink exclusions =>
        chase compactions rewrites remaining (key :: visited) nextKey nextLink exclusions

/-- The supersession chain of one rewrite record. -/
def resolveRewriteSupersession (compactions : List CompactionRecord) (rewrites : List RewriteRecord)
    (exclusions : Exclusions) (start : RewriteRecord) : Except CatalogError Exclusions :=
  chase compactions rewrites maxRewriteSupersessionDepth [] start.key (.rewrite start) exclusions

/-- The chains of a list of rewrite records. -/
def resolveRewrites (compactions : List CompactionRecord) (rewrites : List RewriteRecord) :
    List RewriteRecord → Exclusions → Except CatalogError Exclusions
  | [], exclusions => .ok exclusions
  | start :: rest, exclusions => do
    let exclusions ← resolveRewriteSupersession compactions rewrites exclusions start
    resolveRewrites compactions rewrites rest exclusions

/-- One record of a domination round. -/
def dominateOne (rewriteSuperseded dominated : List RecordKey) (record : CompactionRecord) : List RecordKey :=
  match record.supersededRecordKey with
  | none => dominated
  | some named =>
    if record.key ∈ dominated then dominated
    else if named ∈ rewriteSuperseded ∨ named ∈ dominated then record.key :: dominated
    else dominated

/-- Rounds over all records until one marks nothing. A round that marks something marks a new record, so the number
of records bounds the rounds. -/
def dominationRounds (records : List CompactionRecord) (rewriteSuperseded : List RecordKey) :
    Nat → List RecordKey → List RecordKey
  | 0, dominated => dominated
  | rounds + 1, dominated =>
    let marked := records.foldl (dominateOne rewriteSuperseded) dominated
    if marked.length = dominated.length then marked
    else dominationRounds records rewriteSuperseded rounds marked

/-- The version 2 records that a live rewrite dominates. -/
def erasureDominatedCompactionRecords (compactions : List CompactionRecord) (rewrites : List RewriteRecord) :
    Except CatalogError (List RecordKey) :=
  if rewrites.isEmpty || compactions.all fun record => record.supersededRecordKey.isNone then .ok []
  else do
    checkVersion2Inputs compactions
    let exclusions ← resolveRewrites compactions rewrites rewrites ⟨[], []⟩
    return dominationRounds compactions exclusions.supersededRecords (compactions.length + 1) []

/-- The served segments by data object key. -/
abbrev SegmentMap := List (DataObjectKey × SegmentRef)

/-- A segment in the range joins the map unless its key is there. -/
def SegmentMap.include (range : TimeRange) (out : SegmentMap) (segment : SegmentRef) : SegmentMap :=
  if segment.eventRange.overlaps range then
    if (out.lookup segment.dataObjectKey).isSome then out else out ++ [(segment.dataObjectKey, segment)]
  else out

/-- The records of a bucket after both supersession passes and the selection. -/
structure ResolvedBucket where
  exclusions : Exclusions
  dominated : List RecordKey
  selection : AuthoritativeSelection

/-- The candidates for authority: the records that no rewrite dominates. -/
def undominated (compactions : List CompactionRecord) (dominated : List RecordKey) : List CompactionRecord :=
  compactions.filter fun record => record.key ∉ dominated

/-- The supersession of the rewrites, the domination and the selection, in this order. -/
def resolveBucket (compactions : List CompactionRecord) (rewrites : List RewriteRecord) :
    Except CatalogError ResolvedBucket := do
  let exclusions ← resolveRewrites compactions rewrites rewrites ⟨[], []⟩
  let dominated ← erasureDominatedCompactionRecords compactions rewrites
  let selection ← selectAuthoritativeCompactionRecords (undominated compactions dominated)
  return ⟨exclusions, dominated, selection⟩

namespace ResolvedBucket

/-- The raw identities that no raw segment serves. -/
def excludedInputs (resolved : ResolvedBucket) (compactions : List CompactionRecord) : List InputIdentity :=
  resolved.exclusions.excluded ++
    ((undominated compactions resolved.dominated).filter fun record =>
      !resolved.selection.isExcluded record.key).flatMap CompactionRecord.inputs

/-- The compaction records whose parts are served. -/
def servedCompactions (resolved : ResolvedBucket) (compactions : List CompactionRecord) : List CompactionRecord :=
  compactions.filter fun record =>
    !(decide (record.key ∈ resolved.exclusions.supersededRecords) || decide (record.key ∈ resolved.dominated) ||
      resolved.selection.isExcluded record.key)

/-- The rewrite records whose parts are served. -/
def servedRewrites (resolved : ResolvedBucket) (rewrites : List RewriteRecord) : List RewriteRecord :=
  rewrites.filter fun record => record.key ∉ resolved.exclusions.supersededRecords

/-- The raw commits that are served. -/
def servedCommits (resolved : ResolvedBucket) (bucket : Bucket) : List CommitRecord :=
  bucket.commits.filter fun record => record.identity ∉ resolved.excludedInputs bucket.compactions

/-- Every segment that is offered to the map, in order: compaction parts, rewrite parts, raw commits. -/
def segments (resolved : ResolvedBucket) (bucket : Bucket) : List SegmentRef :=
  ((resolved.servedCompactions bucket.compactions).flatMap fun record =>
    record.parts.map (buildL1SegmentRef record)) ++
  ((resolved.servedRewrites bucket.rewrites).flatMap fun record =>
    record.parts.map (buildRewriteL1SegmentRef record)) ++
  (resolved.servedCommits bucket).map l0Ref

end ResolvedBucket

/-- The segments of one bucket that a snapshot over a range serves. -/
def processBucket (bucket : Bucket) (range : TimeRange) : Except CatalogError SegmentMap :=
  if bucket.hasTombstone then .ok []
  else if bucket.compactions.isEmpty && bucket.rewrites.isEmpty then
    .ok ((bucket.commits.map l0Ref).foldl (SegmentMap.include range) [])
  else do
    let resolved ← resolveBucket bucket.compactions bucket.rewrites
    return (resolved.segments bucket).foldl (SegmentMap.include range) []

end Ravel.Catalog
