/-
This file models the superseded-input sweep over one bucket: the groups that a deleting pass gathers, and the order
of its deletes.
-/

import Ravel.Construction.Erasure.Completion
import Mathlib.Data.List.Sort

namespace Ravel.Maintain

open List Catalog Erasure

/-- The key of an object that the sweep deletes. -/
inductive SweepKey where
  | commit (identity : InputIdentity)
  | data (key : DataObjectKey)
  | record (key : RecordKey)
  deriving DecidableEq, Repr

/-- One indivisible deletion unit. -/
structure SupersededGroup where
  recordKeys : List InputIdentity
  dataKeys : List DataObjectKey
  chainRecordKeys : List RecordKey
  absentEnd : Option RecordKey
  identity : SweepKey
  deriving DecidableEq, Repr

/-- The loops of the delete phase, in the order they run. -/
inductive DeleteLoop where
  | inputRecords
  | data
  | chainRecords
  deriving DecidableEq, Repr

namespace SupersededGroup

def loopKeys (group : SupersededGroup) : DeleteLoop → List SweepKey
  | .inputRecords => group.recordKeys.map .commit
  | .data => group.dataKeys.map .data
  | .chainRecords => group.chainRecordKeys.map .record

/-- Every key of the group, in delete order. -/
def keys (group : SupersededGroup) : List SweepKey :=
  group.loopKeys .inputRecords ++ group.loopKeys .data ++ group.loopKeys .chainRecords

def objectCount (group : SupersededGroup) : Nat :=
  group.recordKeys.length + group.dataKeys.length + group.chainRecordKeys.length

/-- The group of a rewrite whose predecessor is gone. -/
def overAbsentPredecessor (absentKey : RecordKey) : SupersededGroup :=
  ⟨[], [], [], some absentKey, .record absentKey⟩

/-- The keys of the second list that the first lacks, after the first. -/
def appendMissing {Key : Type} [DecidableEq Key] (mine theirs : List Key) : List Key :=
  mine ++ theirs.filter fun key => key ∉ mine

/-- A second gather of the same group is folded in. When one gather covers the other, its lists are taken whole. -/
def absorbDuplicate (group other : SupersededGroup) : SupersededGroup :=
  if other.keys.all (· ∈ group.keys) then group
  else if group.keys.all (· ∈ other.keys) then
    { group with
      recordKeys := other.recordKeys
      dataKeys := other.dataKeys
      chainRecordKeys := other.chainRecordKeys
      absentEnd := other.absentEnd.or group.absentEnd }
  else
    { group with
      recordKeys := appendMissing group.recordKeys other.recordKeys
      dataKeys := appendMissing group.dataKeys other.dataKeys
      chainRecordKeys := appendMissing group.chainRecordKeys other.chainRecordKeys
      absentEnd := group.absentEnd.or other.absentEnd }

end SupersededGroup

/-- One group for each input whose commit record is present. -/
def gatherL0Inputs (bucket : Bucket) (inputs : List InputIdentity) : List SupersededGroup :=
  inputs.filterMap fun identity =>
    (bucket.commits.find? fun commit => commit.identity = identity).map fun commit =>
      ⟨[identity], [commit.dataKey], [], none, .commit identity⟩

/-- The inputs of the records that a selection does not exclude. -/
def namedBy (compactions : List CompactionRecord) (selection : AuthoritativeSelection) : List InputIdentity :=
  (compactions.filter fun record => !selection.isExcluded record.key).flatMap CompactionRecord.inputs

/-- The inputs that the pass treats as superseded: named by an authoritative record both with version 2 supersession
honoured and with it ignored. -/
def authoritativeInputs (compactions : List CompactionRecord) : List InputIdentity :=
  match selectAuthoritativeCompactionRecords compactions with
  | .error _ => []
  | .ok honoured =>
    match selectAuthoritativeCompactionRecords
        (compactions.map fun record => { record with supersededRecordKey := none }) with
    | .error _ => []
    | .ok ignored =>
      (namedBy compactions honoured).filter fun identity => identity ∈ namedBy compactions ignored

def supersededView (compactions : List CompactionRecord) (record : CompactionRecord) : List InputIdentity :=
  record.inputs.filter fun identity => identity ∈ authoritativeInputs compactions

/-- What version 2 records add to the groups of a bucket. -/
structure Version2Groups where
  heads : List RecordKey
  rewriteMembers : List RecordKey
  dominated : List RecordKey
  unresolved : Bool
  deriving DecidableEq, Repr

/-- A dominated record and the present records that it and its predecessors name become members. A step adds a key
that is not there, so the number of records bounds the steps. -/
def addMembers (compactions : List CompactionRecord) : Nat → List RecordKey → RecordKey → List RecordKey
  | 0, members, _ => members
  | steps + 1, members, key =>
    if key ∈ members then members
    else
      match (compactionByKey compactions key).bind CompactionRecord.supersededRecordKey with
      | none => key :: members
      | some named =>
        if (compactionByKey compactions named).isSome then addMembers compactions steps (key :: members) named
        else key :: members

/-- The order of record keys, as their texts compare. -/
def recordKeyLe : RecordKey → RecordKey → Bool
  | .compaction left, .compaction right => decide (left ≤ right)
  | .compaction _, .rewrite _ => true
  | .rewrite _, .compaction _ => false
  | .rewrite left, .rewrite right => decide (left ≤ right)

def Version2Groups.fromRecords (compactions : List CompactionRecord) (rewrites : List RewriteRecord) :
    Version2Groups :=
  if compactions.all fun record => record.supersededRecordKey.isNone then ⟨[], [], [], false⟩
  else
    match erasureDominatedCompactionRecords compactions rewrites with
    | .error _ => ⟨[], [], [], true⟩
    | .ok dominated =>
      let candidates := undominated compactions dominated
      match selectAuthoritativeCompactionRecords candidates with
      | .error _ => ⟨[], [], [], true⟩
      | .ok selection =>
        { heads := (candidates.filter fun record =>
            record.supersededRecordKey.isSome && decide (record.key ∉ selection.superseded)).map
              CompactionRecord.key
          rewriteMembers := dominated.foldl (addMembers compactions (compactions.length + 1)) []
          dominated := dominated.insertionSort fun left right => recordKeyLe left right = true
          unresolved := false }

/-- One round over the dominated records: each that names a key of the group joins it, the newest first. -/
def joinRound (compactions : List CompactionRecord) (group : List RecordKey) :
    List RecordKey → List RecordKey → List RecordKey
  | [], joined => joined
  | key :: rest, joined =>
    match compactionByKey compactions key with
    | none => joinRound compactions group rest joined
    | some record =>
      if key ∈ group ∨ key ∈ joined then joinRound compactions group rest joined
      else if ∃ named ∈ record.supersededRecordKey, named ∈ group ∨ named ∈ joined then
        joinRound compactions group rest (key :: joined)
      else joinRound compactions group rest joined

/-- Rounds until one joins nothing. -/
def joinRounds (compactions : List CompactionRecord) (group dominated : List RecordKey) :
    Nat → List RecordKey → List RecordKey
  | 0, joined => joined
  | rounds + 1, joined =>
    let grown := joinRound compactions group dominated joined
    if grown.length = joined.length then grown else joinRounds compactions group dominated rounds grown

/-- The keys of the parts of a record. -/
def partKeys : ChainLink → List DataObjectKey
  | .compaction record => record.parts.map (partKey record.inputSetHash)
  | .rewrite record => record.parts.map (partKey record.inputSetHash)

/-- The dominated records that lead to a rewrite's group join it, ahead of its own records and newest first. -/
def joinDominated (compactions : List CompactionRecord) (dominated : List RecordKey) (group : SupersededGroup) :
    SupersededGroup :=
  let inGroup := group.chainRecordKeys ++ group.absentEnd.toList
  let joined := joinRounds compactions inGroup dominated (dominated.length + 1) []
  { group with
    dataKeys := group.dataKeys ++ joined.flatMap fun key =>
      (compactionByKey compactions key).toList.flatMap fun record => partKeys (.compaction record)
    chainRecordKeys := joined ++ group.chainRecordKeys }

/-- Which record a chain is entered from. -/
inductive ChainEntry where
  | rewrite
  | version2
  deriving DecidableEq, Repr

inductive ChainRefusal where
  | version2Link
  | tooDeep
  | cycle
  deriving DecidableEq, Repr

inductive MaintainError where
  | version2ReachesRewrite (predecessorKey key : RecordKey)
  deriving DecidableEq, Repr

/-- What a chain walk found: at most one group, or a refusal. -/
inductive ChainWalk where
  | gathered (groups : List SupersededGroup)
  | refused (reason : ChainRefusal)
  deriving DecidableEq, Repr

def maxChainDepth : Nat := 64

def gathersRawL0Inputs : ChainEntry → Bool
  | .rewrite => true
  | .version2 => false

/-- Whether a present link counts toward the depth. The rewrite chase gives a version 1 record no iteration. -/
def charges : ChainEntry → ChainLink → Bool
  | .rewrite, .compaction record => record.supersededRecordKey.isSome
  | .rewrite, .rewrite _ => true
  | .version2, _ => true

def isVersion2Compaction : ChainLink → Bool
  | .compaction record => record.supersededRecordKey.isSome
  | .rewrite _ => false

def namesRawL0Inputs : ChainLink → Bool
  | .compaction record => record.supersededRecordKey.isNone
  | .rewrite record => !record.inputs.isEmpty

def isCompaction : ChainLink → Bool
  | .compaction _ => true
  | .rewrite _ => false

/-- The commit records and the data objects of the inputs that are present. -/
def rawInputKeys (bucket : Bucket) (entry : ChainEntry) (inputs : List InputIdentity) :
    List InputIdentity × List DataObjectKey :=
  if gathersRawL0Inputs entry then
    let groups := gatherL0Inputs bucket inputs
    (groups.flatMap SupersededGroup.recordKeys, groups.flatMap SupersededGroup.dataKeys)
  else ([], [])

/-- What a walk has collected: the records and parts passed, newest first. -/
structure Passed where
  records : List RecordKey
  parts : List DataObjectKey
  deriving DecidableEq, Repr

/-- The group of a walk that ended, the oldest record first. -/
def Passed.group (passed : Passed) (inputs : List InputIdentity × List DataObjectKey) (absentEnd : Option RecordKey) :
    List SupersededGroup :=
  match passed.records.reverse with
  | [] => []
  | oldest :: later => [⟨inputs.1, inputs.2 ++ passed.parts, oldest :: later, absentEnd, .record oldest⟩]

/-- The walk down a chain. The inputs of a version 2 record end the chain when the record that it names is gone. -/
def walkSupersededChain (bucket : Bucket) (entry : ChainEntry) (refuseLinks : Bool) (predecessorKey : RecordKey) :
    Nat → List RecordKey → Option ChainLink → RecordKey → Passed → Except MaintainError ChainWalk
  | remaining, seen, above, key, passed =>
    if key ∈ seen then .ok (.refused .cycle)
    else
      match linkAt bucket.compactions bucket.rewrites key with
      | none =>
        let inputs := match above with
          | some link => rawInputKeys bucket entry link.inputs
          | none => ([], [])
        .ok (.gathered (passed.group inputs (some key)))
      | some link =>
        if refuseLinks && isVersion2Compaction link then .ok (.refused .version2Link)
        else if charges entry link && remaining == 0 then .ok (.refused .tooDeep)
        else if entry = .version2 ∧ isCompaction link = false then
          .error (.version2ReachesRewrite predecessorKey key)
        else
          let passed : Passed := ⟨passed.records ++ [key], passed.parts ++ partKeys link⟩
          if namesRawL0Inputs link then
            .ok (.gathered (passed.group (rawInputKeys bucket entry link.inputs) none))
          else
            match link.named, remaining with
            | none, _ => .ok (.gathered (passed.group ([], []) none))
            | some _, 0 => .ok (.refused .tooDeep)
            | some next, remaining + 1 =>
              walkSupersededChain bucket entry refuseLinks predecessorKey remaining (key :: seen)
                (if isVersion2Compaction link then some link else none) next passed

/-- The record that a chain is entered from counts toward the depth. -/
def gatherSupersededChain (bucket : Bucket) (entry : ChainEntry) (refuseLinks : Bool) (predecessorKey : RecordKey) :
    Except MaintainError ChainWalk :=
  walkSupersededChain bucket entry refuseLinks predecessorKey (maxChainDepth - 1) [] none predecessorKey ⟨[], []⟩

/-- The groups of a compaction record's entry: its superseded inputs, and the chain below it when it heads one. -/
def gatherCompaction (bucket : Bucket) (version2 : Version2Groups) (record : CompactionRecord) :
    Except MaintainError (List SupersededGroup) :=
  let inputs := gatherL0Inputs bucket (supersededView bucket.compactions record)
  match record.supersededRecordKey with
  | none => .ok inputs
  | some named =>
    if record.key ∈ version2.heads then do
      match ← gatherSupersededChain bucket .version2 false named with
      | .gathered chain => return inputs ++ chain
      | .refused _ => return []
    else .ok inputs

/-- The groups of a rewrite record's entry: its raw inputs, or the chain behind it with the dominated records that
lead to it. -/
def gatherRewrite (bucket : Bucket) (version2 : Version2Groups) (record : RewriteRecord) :
    Except MaintainError (List SupersededGroup) :=
  if !record.inputs.isEmpty then .ok (gatherL0Inputs bucket record.inputs)
  else
    match record.supersededRecordKey with
    | none => .ok []
    | some named => do
      match ← gatherSupersededChain bucket .rewrite version2.unresolved named with
      | .refused _ => return []
      | .gathered chain =>
        let gathered := if chain.isEmpty then [SupersededGroup.overAbsentPredecessor named] else chain
        return (gathered.map (joinDominated bucket.compactions version2.dominated)).filter fun group =>
          decide (0 < group.objectCount)

/-- The records that a rewrite names, or that are members of a rewrite's group, are not swept from their own entry. -/
def supersededByPresent (bucket : Bucket) (version2 : Version2Groups) : List RecordKey :=
  bucket.rewrites.filterMap RewriteRecord.supersededRecordKey ++ version2.rewriteMembers

/-- A record inside its protection horizon is left for a later pass. -/
def pastHorizon (nowNs protectionHorizonNs : Int) (createdUnixNs : Int64) : Bool :=
  decide (saturatingAdd createdUnixNs.toInt protectionHorizonNs ≤ nowNs)

/-- The groups of one listed record. -/
def gatherEntry (bucket : Bucket) (version2 : Version2Groups) (nowNs protectionHorizonNs : Int) (key : RecordKey) :
    Except MaintainError (List SupersededGroup) :=
  if key ∈ supersededByPresent bucket version2 then .ok []
  else
    match linkAt bucket.compactions bucket.rewrites key with
    | none => .ok []
    | some (.compaction record) =>
      if pastHorizon nowNs protectionHorizonNs record.createdUnixNs then gatherCompaction bucket version2 record
      else .ok []
    | some (.rewrite record) =>
      if pastHorizon nowNs protectionHorizonNs record.createdUnixNs then gatherRewrite bucket version2 record
      else .ok []

/-- A group joins the gathered ones, or is folded into the one of its identity. -/
def addGroup (groups : List SupersededGroup) (group : SupersededGroup) : List SupersededGroup :=
  if groups.any fun other => other.identity = group.identity then
    groups.map fun other => if other.identity = group.identity then other.absorbDuplicate group else other
  else groups ++ [group]

/-- The groups of the listed records, in listing order. -/
def gatherGroups (bucket : Bucket) (nowNs protectionHorizonNs : Int) :
    List RecordKey → List SupersededGroup → Except MaintainError (List SupersededGroup)
  | [], groups => .ok groups
  | key :: entries, groups => do
    let gathered ← gatherEntry bucket (.fromRecords bucket.compactions bucket.rewrites) nowNs protectionHorizonNs key
    gatherGroups bucket nowNs protectionHorizonNs entries (gathered.foldl addGroup groups)

/-- The delete phase: the keys deleted so far in order, the refused keys, and the positions of stopped groups. -/
structure DeletePhase where
  deleted : List SweepKey
  refused : List SweepKey
  stopped : List Nat
  deriving DecidableEq, Repr

/-- The deletes of one group in one loop. A refused key stops its group, and every group that meets it. -/
def deleteKeys (refuses : SweepKey → Bool) (index : Nat) : List SweepKey → DeletePhase → DeletePhase
  | [], phase => phase
  | key :: rest, phase =>
    if index ∈ phase.stopped ∨ key ∈ phase.refused then { phase with stopped := index :: phase.stopped }
    else if key ∈ phase.deleted then deleteKeys refuses index rest phase
    else if refuses key then
      { phase with refused := key :: phase.refused, stopped := index :: phase.stopped }
    else deleteKeys refuses index rest { phase with deleted := phase.deleted ++ [key] }

/-- One loop over the cleared groups. -/
def deleteLoop (refuses : SweepKey → Bool) (loop : DeleteLoop) :
    List (SupersededGroup × Nat) → DeletePhase → DeletePhase
  | [], phase => phase
  | (group, index) :: rest, phase =>
    deleteLoop refuses loop rest (deleteKeys refuses index (group.loopKeys loop) phase)

/-- The three loops over the cleared groups. -/
def deletePhase (refuses : SweepKey → Bool) (cleared : List SupersededGroup) : DeletePhase :=
  [DeleteLoop.inputRecords, .data, .chainRecords].foldl
    (fun phase loop => deleteLoop refuses loop cleared.zipIdx phase) ⟨[], [], []⟩

/-- The bucket without the deleted records. -/
def withoutRecords (bucket : Bucket) (deleted : List SweepKey) : Bucket where
  hasTombstone := bucket.hasTombstone
  commits := bucket.commits.filter fun record => SweepKey.commit record.identity ∉ deleted
  compactions := bucket.compactions.filter fun record => SweepKey.record record.key ∉ deleted
  rewrites := bucket.rewrites.filter fun record => SweepKey.record record.key ∉ deleted
  commitsNodup := (filter_sublist.map _).nodup bucket.commitsNodup
  compactionsNodup := (filter_sublist.map _).nodup bucket.compactionsNodup
  rewritesNodup := (filter_sublist.map _).nodup bucket.rewritesNodup
  namesCompaction := fun record member => bucket.namesCompaction record (mem_filter.mp member).1

end Ravel.Maintain
