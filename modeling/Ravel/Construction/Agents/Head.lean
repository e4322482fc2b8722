/-
This file models the HEAD record of an agent: its entries, its index of sealed pages, and the typed errors of the kernel.
-/

import Mathlib.Algebra.Order.Ring.Int
import Mathlib.Data.Nat.Cast.WithTop
import Mathlib.Order.Lattice.Nat

namespace Ravel.Agents

/-- A derived identifier. The type is unbounded, so that a derivation can be free of collisions. -/
abbrev Id128 := Nat

abbrev Hash256 := Nat

abbrev ObjectHash := Nat

abbrev Bytes := List UInt8

/-- The `u64` addition that stops at the largest value. -/
def saturatingAddU64 (left right : Nat) : Nat :=
  min (left + right) (2 ^ 64 - 1)

/-- The `u64` increment that fails at the largest value. -/
def checkedSuccU64 (value : Nat) : Option Nat :=
  if value + 1 < 2 ^ 64 then some (value + 1) else none

structure ObjectRef where
  hash : ObjectHash
  sizeBytes : UInt64
  deriving DecidableEq, Repr

inductive Lifecycle where
  | active
  | tombstoned
  deriving DecidableEq, Repr

inductive Cancellation where
  | none
  | requested
  deriving DecidableEq, Repr

inductive TurnBlock where
  | none
  | nonDeterministicReplay
  deriving DecidableEq, Repr

inductive ResultStatus where
  | completed
  | failed
  | cancelled
  deriving DecidableEq, Repr

inductive TimerStatus where
  | scheduled
  | delivered
  | cancelled
  deriving DecidableEq, Repr

inductive StepStatus where
  | started
  | completed
  deriving DecidableEq, Repr

inductive RecoveryPolicy where
  | providerIdempotency
  | atLeastOnce
  | manual
  deriving DecidableEq, Repr

inductive EffectStatus where
  | intent
  | authorized
  | inDoubt
  | completed
  deriving DecidableEq, Repr

/-- The turn that the owner runs on the first input. -/
structure ActiveTurn where
  inputAcceptSeq : Nat
  turnId : Id128
  baseStateVersion : Nat
  handler : String
  handlerVersion : String
  handlerDigest : Hash256
  cancellation : Cancellation
  block : TurnBlock
  startedUnixNs : Int64
  deriving DecidableEq, Repr

inductive InputSource where
  | message (requestId : String) (requestHash : Hash256)
  | timer (timerId : Id128) (generation : Nat)
  deriving DecidableEq, Repr

structure InboxEntry where
  acceptSeq : Nat
  handler : String
  source : InputSource
  payload : Option ObjectRef
  acceptedUnixNs : Int64
  failedAttempts : Nat
  lastFailedTurnId : Option Id128
  deriving DecidableEq, Repr

structure Receipt where
  requestId : String
  handler : String
  requestHash : Hash256
  acceptSeq : Nat
  deriving DecidableEq, Repr

structure ResultEntry where
  acceptSeq : Nat
  status : ResultStatus
  output : Option ObjectRef
  error : String
  turnId : Option Id128
  deadLettered : Bool
  finishedUnixNs : Int64
  deriving DecidableEq, Repr

structure EventEntry where
  eventSeq : Nat
  acceptSeq : Nat
  turnId : Id128
  eventType : String
  payload : Option ObjectRef
  deriving DecidableEq, Repr

structure TimerEntry where
  timerId : Id128
  timerKey : String
  generation : Nat
  dueUnixNs : Int64
  handler : String
  payload : Option ObjectRef
  status : TimerStatus
  deriving DecidableEq, Repr

structure StepRecord where
  stepId : Id128
  stepKey : String
  toolName : String
  toolVersion : String
  inputHash : Hash256
  status : StepStatus
  output : Option ObjectRef
  deriving DecidableEq, Repr

structure EffectRecord where
  effectId : Id128
  stepKey : String
  toolName : String
  toolVersion : String
  inputHash : Hash256
  policy : RecoveryPolicy
  status : EffectStatus
  attempt : Nat
  result : Option ObjectRef
  resultAttempt : Nat
  turnId : Id128
  deriving DecidableEq, Repr

structure OutboxIntent where
  effectId : Id128
  intentKey : String
  toolName : String
  toolVersion : String
  policy : RecoveryPolicy
  input : Option ObjectRef
  turnId : Id128
  deriving DecidableEq, Repr

structure Quota where
  referencedBytes : Nat := 0
  mailboxDepth : Nat := 0
  receiptCount : Nat := 0
  timerCount : Nat := 0
  deriving DecidableEq, Repr

/-- The five paged lists. -/
inductive ListKind where
  | inbox
  | receipts
  | results
  | events
  | timers
  deriving DecidableEq, Repr

/-- How a list is held. A version 1 HEAD holds every list inline. -/
inductive Representation where
  | inline
  | paged
  deriving DecidableEq, Repr

/-- One sealed page as HEAD records it. -/
structure PageMeta where
  firstKey : Nat
  page : ObjectRef
  entries : Nat
  marked : Nat
  minAcceptSeq : Nat
  maxAcceptSeq : Nat
  referencedBytes : Nat
  fingerprints : List Nat
  deriving DecidableEq, Repr

/-- A page object that a publish writes before its compare-and-swap. -/
structure PageObject where
  list : ListKind
  page : ObjectRef
  bytes : Bytes
  deriving DecidableEq, Repr

/-- The sealed pages of one list. The flag at a page's index tells whether its entries are in memory. -/
structure Directory where
  representation : Representation := .paged
  pages : List PageMeta := []
  tailFrom : Nat := 0
  loaded : List Bool := []
  deriving DecidableEq, Repr

/-- The directories of the five lists, and the page objects of the last publish. -/
structure Index where
  inbox : Directory := {}
  receipts : Directory := {}
  results : Directory := {}
  events : Directory := {}
  timers : Directory := {}
  written : List PageObject := []
  deriving DecidableEq, Repr

def Index.directory (index : Index) : ListKind → Directory
  | .inbox => index.inbox
  | .receipts => index.receipts
  | .results => index.results
  | .events => index.events
  | .timers => index.timers

/-- The root of one agent. The five paged lists hold the entries that are in memory. -/
structure Head where
  tenant : Nat
  kind : String
  key : String
  incarnation : Nat
  rootRevision : Nat
  ownerId : String
  epoch : Nat
  ownerLeaseHintUnixNs : Int64
  stateVersion : Nat
  state : Option ObjectRef
  nextAcceptSeq : Nat
  activeTurn : Option ActiveTurn
  timerGeneration : Nat
  nextEventSeq : Nat
  lifecycle : Lifecycle
  quota : Quota
  inbox : List InboxEntry
  receipts : List Receipt
  results : List ResultEntry
  events : List EventEntry
  timers : List TimerEntry
  steps : List StepRecord
  effects : List EffectRecord
  outbox : List OutboxIntent
  index : Index
  deriving DecidableEq, Repr

/-- The error kinds of the agent protocol. -/
inductive ErrorKind where
  | agentGone
  | idempotencyConflict
  | outcomeUnknown
  | ownershipLost
  | incompatibleHandler
  | nonDeterministicReplay
  | effectInDoubt
  | mailboxFull
  | budgetExceeded
  | storeUnavailable
  | unsupportedFormat
  deriving DecidableEq, Repr

/-- The lifetime cap that a refusal names. -/
inductive BudgetCap where
  | receipts
  | indexPages
  | headBytes
  | mailbox
  | timers
  deriving DecidableEq, Repr

/-- The identifiers an error carries. The kernel sets only these two. -/
structure SafeIds where
  agentId : Option String := none
  incarnation : Option Nat := none
  deriving DecidableEq, Repr

structure AgentError where
  kind : ErrorKind
  ids : SafeIds
  reason : String
  cap : Option BudgetCap := none
  deriving DecidableEq, Repr

def AgentError.withCap (error : AgentError) (cap : BudgetCap) : AgentError :=
  { error with cap := some cap }

/-- The functions that rest on the hash: derived identifiers, lookup fingerprints, object hashes and page encodings. -/
structure Digests where
  agentId : String → String → String
  turnId : (incarnation acceptSeq epoch failedAttempts : Nat) → Id128
  stepId : (incarnation acceptSeq : Nat) → (stepKey : String) → Id128
  effectId : (incarnation acceptSeq : Nat) → (intentKey : String) → Id128
  timerId : (incarnation : Nat) → (timerKey : String) → Id128
  receiptFingerprint : (handler requestId : String) → Nat
  idFingerprint : Id128 → Nat
  objectHash : Bytes → ObjectHash
  encodeInboxPage : List InboxEntry → Bytes
  encodeReceiptPage : List Receipt → Bytes
  encodeResultPage : List ResultEntry → Bytes
  encodeEventPage : List EventEntry → Bytes
  encodeTimerTable : List TimerEntry → Bytes

/-- The derived identifiers do not collide. Fingerprints, object hashes and page encodings may. -/
structure CollisionFree extends Digests where
  turnId_injective : ∀ {incarnation seq epoch failed incarnation' seq' epoch' failed' : Nat},
    turnId incarnation seq epoch failed = turnId incarnation' seq' epoch' failed' →
      incarnation = incarnation' ∧ seq = seq' ∧ epoch = epoch' ∧ failed = failed'
  stepId_injective : ∀ {incarnation seq incarnation' seq' : Nat} {key key' : String},
    stepId incarnation seq key = stepId incarnation' seq' key' → incarnation = incarnation' ∧ seq = seq' ∧ key = key'
  effectId_injective : ∀ {incarnation seq incarnation' seq' : Nat} {key key' : String},
    effectId incarnation seq key = effectId incarnation' seq' key' →
      incarnation = incarnation' ∧ seq = seq' ∧ key = key'
  timerId_injective : ∀ {incarnation incarnation' : Nat} {key key' : String},
    timerId incarnation key = timerId incarnation' key' → incarnation = incarnation' ∧ key = key'

instance : Coe CollisionFree Digests := ⟨CollisionFree.toDigests⟩

/-- The reference of the object with the given bytes. -/
def Digests.objectRef (digests : Digests) (bytes : Bytes) : ObjectRef :=
  ⟨digests.objectHash bytes, UInt64.ofNat bytes.length⟩

def safeIds (digests : Digests) (head : Head) : SafeIds :=
  { agentId := some (digests.agentId head.kind head.key), incarnation := some head.incarnation }

def fail (digests : Digests) (head : Head) (kind : ErrorKind) (reason : String) : AgentError :=
  { kind := kind, ids := safeIds digests head, reason := reason }

end Ravel.Agents
