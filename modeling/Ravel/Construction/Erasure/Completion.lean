/-
This file models the completion gate of an erasure request over one bucket.
-/

import Ravel.Construction.Catalog.BucketResolution

namespace Ravel.Erasure

open Catalog

/-- Addition of 64-bit integers that stops at their bounds. -/
def saturatingAdd (left right : Int) : Int :=
  max (-2 ^ 63) (min (2 ^ 63 - 1) (left + right))

def saturatingMul (left right : Int) : Int :=
  max (-2 ^ 63) (min (2 ^ 63 - 1) (left * right))

def nsPerHour : Int := 3600 * 10 ^ 9

structure CompactorConfig where
  maxFlushLifetimeNs : Int
  clockSkewAllowanceNs : Int
  deriving DecidableEq, Repr

def CompactorConfig.sealMarginNs (config : CompactorConfig) : Int :=
  saturatingAdd config.maxFlushLifetimeNs config.clockSkewAllowanceNs

/-- The start of an ingest hour. -/
def startNs (ingestHourBucket : Nat) : Int :=
  saturatingMul ingestHourBucket nsPerHour

/-- The exclusive end of an ingest hour. -/
def endNs (ingestHourBucket : Nat) : Int :=
  saturatingMul (saturatingAdd ingestHourBucket 1) nsPerHour

def isSealed (ingestHourBucket : Nat) (nowNs : Int) (config : CompactorConfig) : Bool :=
  decide (saturatingAdd (endNs ingestHourBucket) config.sealMarginNs ≤ nowNs)

/-- A pending request with the time of its acknowledgement. -/
structure PendingErasureRequest where
  request : ErasureRequest
  createdUnixNs : Int
  deriving DecidableEq, Repr

def bucketInScopeAtAck (ingestHourBucket : Nat) (pending : PendingErasureRequest) (config : CompactorConfig) : Bool :=
  decide (startNs ingestHourBucket ≤ saturatingAdd pending.createdUnixNs config.clockSkewAllowanceNs)

/-- A listed key of a bucket, which a lease may protect. -/
inductive ListedKey where
  | commit (identity : InputIdentity)
  | record (key : RecordKey)
  deriving DecidableEq, Repr

/-- Legal hold on any record of the bucket. -/
def bucketIsHeld (bucket : Bucket) (isProtected : ListedKey → Bool) : Bool :=
  bucket.commits.any (fun record => isProtected (.commit record.identity)) ||
    bucket.compactions.any (fun record => isProtected (.record record.key)) ||
    bucket.rewrites.any (fun record => isProtected (.record record.key))

/-- Whether records within event bounds can meet the window of a request. A windowless request meets all of them. -/
def bucketMayOverlap (minEventTsNs maxEventTsNs : Int64) (request : ErasureRequest) : Bool :=
  let hasWindow := request.windowStartNs != 0 || request.windowEndNs != 0
  if !hasWindow then true
  else if minEventTsNs > maxEventTsNs then false
  else
    let startsBeforeRecordsEnd := request.windowStartNs == 0 || decide (request.windowStartNs ≤ maxEventTsNs.toInt)
    let endsAfterRecordsStart := request.windowEndNs == 0 || decide (request.windowEndNs > minEventTsNs.toInt)
    startsBeforeRecordsEnd && endsAfterRecordsStart

def partMayOverlap (request : ErasureRequest) (part : CompactionPart) : Bool :=
  bucketMayOverlap part.minEventTsNs part.maxEventTsNs request

def namesRequest (record : RewriteRecord) (request : ErasureRequest) : Bool :=
  record.drops.any fun drop => drop.requestId == request.requestId

/-- Whether the live view can still hold the subject of a request. -/
def bucketServesSubject (request : ErasureRequest) (liveL0 : List CommitRecord)
    (liveCompactions : List CompactionRecord) (liveRewrites : List RewriteRecord) : Bool :=
  if liveL0.any fun record => bucketMayOverlap record.minEventTsNs record.maxEventTsNs request then true
  else if liveCompactions.any fun record => record.parts.any (partMayOverlap request) then true
  else
    liveRewrites.any fun record => !namesRequest record request && record.parts.any (partMayOverlap request)

structure BucketErasureCompletion where
  blocked : List String
  unresolved : Bool
  deriving DecidableEq, Repr

/-- The records that the gate takes for served. -/
structure LiveView where
  liveL0 : List CommitRecord
  liveCompactions : List CompactionRecord
  liveRewrites : List RewriteRecord

/-- The gate's own resolution of a bucket: domination, selection, then the rewrites' chains on top of the inputs of
the authoritative records. -/
def liveView (bucket : Bucket) : Except CatalogError LiveView := do
  let dominated ← erasureDominatedCompactionRecords bucket.compactions bucket.rewrites
  let candidates := undominated bucket.compactions dominated
  let selection ← selectAuthoritativeCompactionRecords candidates
  let excluded := (candidates.filter fun record => !selection.isExcluded record.key).flatMap CompactionRecord.inputs
  let losingRecords := selection.superseded ++ selection.losing ++ dominated
  let exclusions ← resolveRewrites bucket.compactions bucket.rewrites bucket.rewrites ⟨excluded, []⟩
  return {
    liveL0 := bucket.commits.filter fun record => record.identity ∉ exclusions.excluded
    liveCompactions := bucket.compactions.filter fun record =>
      decide (record.key ∉ exclusions.supersededRecords) && decide (record.key ∉ losingRecords)
    liveRewrites := bucket.rewrites.filter fun record => record.key ∉ exclusions.supersededRecords }

/-- The completion verdict for one bucket. -/
def bucketErasureCompletion (config : CompactorConfig) (nowNs : Int) (isProtected : ListedKey → Bool)
    (ingestHourBucket : Nat) (bucket : Bucket) (pending : List PendingErasureRequest) :
    Except CatalogError BucketErasureCompletion :=
  if pending.isEmpty then .ok ⟨[], false⟩
  else if !isSealed ingestHourBucket nowNs config then
    .ok ⟨(pending.filter fun entry => bucketInScopeAtAck ingestHourBucket entry config).map (·.request.requestId), false⟩
  else if bucket.hasTombstone then .ok ⟨[], false⟩
  else if bucketIsHeld bucket isProtected then .ok ⟨[], true⟩
  else do
    let view ← liveView bucket
    return ⟨(pending.filter fun entry => bucketServesSubject entry.request view.liveL0 view.liveCompactions
      view.liveRewrites).map (·.request.requestId), false⟩

end Ravel.Erasure
