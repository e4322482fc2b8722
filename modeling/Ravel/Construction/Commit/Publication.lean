/-
This file models the publication of commit records at one key: the put-if-absent with its retries, the read-back after a refusal,
and the interleavings of any number of publishers over a store whose puts may fail before or after they land.
-/

import Mathlib.Algebra.Order.Ring.Int

namespace Ravel.Commit

abbrev Bytes := List UInt8

/-- A commit record, with the numbers of its wire form. -/
structure CommitRecord where
  formatVersion : UInt32
  tenantHash : Bytes
  signal : Int32
  shard : UInt32
  writerId : String
  writerEpoch : UInt64
  writerSeq : UInt64
  objectKey : String
  objectSize : UInt64
  contentHash : Bytes
  sampleCount : UInt64
  seriesCount : UInt64
  minEventTsNs : Int64
  maxEventTsNs : Int64
  minIngestTsNs : Int64
  maxIngestTsNs : Int64
  segmentFormatVersion : UInt32
  createdUnixNs : Int64
  ingestHourBucket : UInt32
  declaredColumnStats : List Bytes
  deriving DecidableEq, Repr

/-- The refusals of `validate` and `decode`. -/
inductive RecordError where
  | unsupportedFormatVersion (expected actual : UInt32)
  | invalidTenantHashLen (length : Nat)
  | invalidContentHashLen (length : Nat)
  | eventTsOutOfOrder (min max : Int64)
  | ingestTsOutOfOrder (min max : Int64)
  | ingestHourInconsistent (ingestHourBucket : UInt32) (createdHourBucket : Int)
  | invalidWriterId (writerId : String)
  | undecodable
  deriving DecidableEq, Repr

inductive KeyError where
  | invalidTenantHash (text : String)
  | unknownSignal (text : String)
  | invalidWriterId (writerId : String)
  | shardOutOfRange (shard : UInt32)
  deriving DecidableEq, Repr

/-- The errors of a store request that a put or a get of one key can return. -/
inductive StoreError where
  | notFound
  | alreadyExists
  | preconditionFailed
  | accessDenied (text : String)
  | throttled (retryAfterMs : UInt64)
  | timeout
  | corrupted (text : String)
  | invalidRange (text : String)
  | transient (text : String)
  | permanent (text : String)
  | unsupported (operation : String)
  | readOnly (operation store : String)
  | unaddressableKey (key addresses : String)
  deriving DecidableEq, Repr

def StoreError.isRetryable : StoreError → Bool
  | .throttled _ => true
  | .timeout => true
  | .transient _ => true
  | _ => false

inductive PublishError where
  | record (error : RecordError)
  | key (error : KeyError)
  | splitBrain (this stored : String)
  | store (attempts : Nat) (source : StoreError)
  deriving DecidableEq, Repr

/-- The token that determines a record's commit key. -/
structure CommitToken where
  shard : UInt32
  writerId : Nat
  epoch : UInt64
  seq : UInt64
  ingestHourBucket : UInt32
  deriving DecidableEq, Repr

/-- The bound on the retries after the first attempt. -/
structure RetryPolicy where
  maxAttempts : UInt32
  deriving DecidableEq, Repr

/-- The wire codec of a record and the text form of a writer identifier. Decoding inverts encoding. -/
structure Codec where
  encode : CommitRecord → Bytes
  decode : Bytes → Option CommitRecord
  parseUuid : String → Option Nat
  renderUuid : Nat → String
  decode_encode : ∀ record, decode (encode record) = some record

def formatVersion : UInt32 := 1

def nsPerHour : Int := 3600000000000

/-- The structural rules that a record must meet. -/
def validate (record : CommitRecord) : Except RecordError Unit :=
  if record.formatVersion ≠ formatVersion then .error (.unsupportedFormatVersion formatVersion record.formatVersion)
  else if record.tenantHash.length ≠ 16 then .error (.invalidTenantHashLen record.tenantHash.length)
  else if record.contentHash.length ≠ 32 then .error (.invalidContentHashLen record.contentHash.length)
  else if record.maxEventTsNs < record.minEventTsNs then .error (.eventTsOutOfOrder record.minEventTsNs record.maxEventTsNs)
  else if record.maxIngestTsNs < record.minIngestTsNs then .error (.ingestTsOutOfOrder record.minIngestTsNs record.maxIngestTsNs)
  else if record.createdUnixNs ≠ 0 ∧ record.ingestHourBucket ≠ 0 ∧
      record.createdUnixNs.toInt.fdiv nsPerHour < record.ingestHourBucket.toNat then
    .error (.ingestHourInconsistent record.ingestHourBucket (record.createdUnixNs.toInt.fdiv nsPerHour))
  else .ok ()

def hexDigit (nibble : Nat) : Char :=
  "0123456789abcdef".toList.getD nibble '0'

def hexEncode (bytes : Bytes) : String :=
  String.ofList (bytes.flatMap fun byte => [hexDigit (byte.toNat / 16), hexDigit (byte.toNat % 16)])

/-- The decimal text of a number, padded with zeros to a width. -/
def padded (width number : Nat) : String :=
  let digits := (toString number).toList
  String.ofList (List.replicate (width - digits.length) '0' ++ digits)

/-- The year, month and day of a day count from 1970-01-01 on. -/
def civilFromDays (days : Nat) : Nat × Nat × Nat :=
  let shifted := days + 719468
  let era := shifted / 146097
  let dayOfEra := shifted - era * 146097
  let yearOfEra := (dayOfEra - dayOfEra / 1460 + dayOfEra / 36524 - dayOfEra / 146096) / 365
  let dayOfYear := dayOfEra - (365 * yearOfEra + yearOfEra / 4 - yearOfEra / 100)
  let monthPart := (5 * dayOfYear + 2) / 153
  let day := dayOfYear - (153 * monthPart + 2) / 5 + 1
  let month := if monthPart < 10 then monthPart + 3 else monthPart - 9
  let year := yearOfEra + era * 400
  (if month ≤ 2 then year + 1 else year, month, day)

def ingestHourString (ingestHourBucket : UInt32) : String :=
  let (year, month, day) := civilFromDays (ingestHourBucket.toNat / 24)
  padded 4 year ++ padded 2 month ++ padded 2 day ++ "T" ++ padded 2 (ingestHourBucket.toNat % 24)

/-- The letter of a signal in a key, from its number on the wire. -/
def signalPrefix (signal : Int32) : Option String :=
  match signal.toInt with
  | 1 => some "m"
  | 2 => some "l"
  | 3 => some "s"
  | 4 => some "p"
  | 5 => some "a"
  | 6 => some "u"
  | _ => none

def formatShard (shard : UInt32) : Except KeyError String :=
  if 9999 < shard then .error (.shardOutOfRange shard) else .ok (padded 4 shard.toNat)

/-- The key of a commit record, from its identity fields. -/
def commitKeyForRecord (codec : Codec) (record : CommitRecord) : Except KeyError String :=
  if record.tenantHash.length ≠ 16 then
    .error (.invalidTenantHash ("expected 16 bytes, got " ++ toString record.tenantHash.length))
  else
    match signalPrefix record.signal with
    | none => .error (.unknownSignal (toString record.signal.toInt))
    | some letter =>
      match codec.parseUuid record.writerId with
      | none => .error (.invalidWriterId record.writerId)
      | some writerId => do
        let shard ← formatShard record.shard
        return "t/" ++ hexEncode record.tenantHash ++ "/" ++ letter ++ "/c/" ++ shard ++ "/" ++
          ingestHourString record.ingestHourBucket ++ "/" ++ codec.renderUuid writerId ++ "." ++
          toString record.writerEpoch.toNat ++ "." ++ padded 20 record.writerSeq.toNat ++ ".cmt"

def tokenFor (codec : Codec) (record : CommitRecord) : Except RecordError CommitToken :=
  match codec.parseUuid record.writerId with
  | none => .error (.invalidWriterId record.writerId)
  | some writerId =>
    .ok ⟨record.shard, writerId, record.writerEpoch, record.writerSeq, record.ingestHourBucket⟩

/-- A stored record, decoded and validated. -/
def decodeRecord (codec : Codec) (bytes : Bytes) : Except RecordError CommitRecord :=
  match codec.decode bytes with
  | none => .error .undecodable
  | some record => (validate record).map fun _ => record

/-- Where a publisher stands: before its next put, before its read-back, or at its end. -/
inductive Stage where
  | putting (attempt : Nat)
  | resolving
  | finished (outcome : Except PublishError CommitToken)

/-- The end of a publisher whose record is the stored one. -/
def succeed (codec : Codec) (record : CommitRecord) : Stage :=
  .finished ((tokenFor codec record).mapError .record)

/-- The checks of `publish_with_rng` before its first put. -/
def beginPublish (codec : Codec) (record : CommitRecord) : Stage :=
  match validate record with
  | .error error => .finished (.error (.record error))
  | .ok _ =>
    match commitKeyForRecord codec record with
    | .error error => .finished (.error (.key error))
    | .ok _ => .putting 0

/-- What the loop does with the reply to a put. -/
def onPut (codec : Codec) (policy : RetryPolicy) (record : CommitRecord) (attempt : Nat) : Except StoreError Unit → Stage
  | .ok _ => succeed codec record
  | .error error =>
    if error = .alreadyExists then .resolving
    else if error.isRetryable ∧ attempt < policy.maxAttempts.toNat then .putting (attempt + 1)
    else .finished (.error (.store (attempt + 1) error))

/-- What `resolve_already_exists` does with the reply to its get. -/
def onGet (codec : Codec) (record : CommitRecord) : Except StoreError Bytes → Stage
  | .error error => .finished (.error (.store 1 error))
  | .ok data =>
    match decodeRecord codec data with
    | .error error => .finished (.error (.record error))
    | .ok existing =>
      if existing.contentHash = record.contentHash then succeed codec record
      else .finished (.error (.splitBrain (hexEncode record.contentHash) (hexEncode existing.contentHash)))

/-- A publisher of one record. -/
structure Publisher where
  record : CommitRecord
  policy : RetryPolicy
  stage : Stage

/-- What is stored at the key, and the publishers of records with that key. -/
structure World where
  stored : Option Bytes
  publishers : List Publisher

/-- One publisher moves on to its next stage. -/
def World.move (world : World) (stored : Option Bytes) (index : Nat) (publisher : Publisher) (stage : Stage) : World :=
  ⟨stored, world.publishers.set index { publisher with stage := stage }⟩

/-- The reply of the store to a put-if-absent, and what is stored behind it. A put that fails may have landed. -/
inductive PutReply (payload : Bytes) : Option Bytes → Except StoreError Unit → Option Bytes → Prop where
  | landed : PutReply payload none (.ok ()) (some payload)
  | refused (stored : Bytes) : PutReply payload (some stored) (.error .alreadyExists) (some stored)
  | failedBefore (stored : Option Bytes) (error : StoreError) (other : error ≠ .alreadyExists) :
      PutReply payload stored (.error error) stored
  | failedAfter (stored : Option Bytes) (error : StoreError) (other : error ≠ .alreadyExists) :
      PutReply payload stored (.error error) (stored.or (some payload))

/-- One step of one publisher. Read-backs may fail only where that is allowed. -/
inductive PublishStep (codec : Codec) (readsFail : Bool) (world : World) : World → Prop where
  | put (index : Nat) (publisher : Publisher) (attempt : Nat) (reply : Except StoreError Unit) (stored : Option Bytes)
      (located : world.publishers[index]? = some publisher) (stage : publisher.stage = .putting attempt)
      (replied : PutReply (codec.encode publisher.record) world.stored reply stored) :
      PublishStep codec readsFail world
        (world.move stored index publisher (onPut codec publisher.policy publisher.record attempt reply))
  | read (index : Nat) (publisher : Publisher) (data : Bytes) (located : world.publishers[index]? = some publisher)
      (stage : publisher.stage = .resolving) (stored : world.stored = some data) :
      PublishStep codec readsFail world
        (world.move world.stored index publisher (onGet codec publisher.record (.ok data)))
  | readFailed (index : Nat) (publisher : Publisher) (error : StoreError) (located : world.publishers[index]? = some publisher)
      (stage : publisher.stage = .resolving) (allowed : readsFail = true) :
      PublishStep codec readsFail world
        (world.move world.stored index publisher (onGet codec publisher.record (.error error)))

/-- The world before the first put: nothing is stored, and every publisher has made its checks. -/
def startWorld (codec : Codec) (records : List (CommitRecord × RetryPolicy)) : World :=
  ⟨none, records.map fun entry => ⟨entry.1, entry.2, beginPublish codec entry.1⟩⟩

/-- Any interleaving of the steps of the publishers. -/
def Onward (codec : Codec) (readsFail : Bool) : World → World → Prop :=
  Relation.ReflTransGen (PublishStep codec readsFail)

/-- Publishers of records with one commit key, and a world that an interleaving of them reaches. -/
structure PublishHistory (codec : Codec) (readsFail : Bool) where
  key : String
  records : List (CommitRecord × RetryPolicy)
  mapped : ∀ entry ∈ records, commitKeyForRecord codec entry.1 = .ok key
  world : World
  reached : Onward codec readsFail (startWorld codec records) world

end Ravel.Commit
