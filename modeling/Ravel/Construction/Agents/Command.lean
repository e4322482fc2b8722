/-
This file models the durable commands of an agent, the replies of the kernel, and the work it leaves to the coordinator.
-/

import Ravel.Construction.Agents.Head

namespace Ravel.Agents

/-- The incarnation that a client handle was minted under. -/
structure IncarnationFence where
  incarnation : Nat
  deriving DecidableEq, Repr

structure OwnerFence where
  incarnation : Nat
  ownerId : String
  epoch : Nat
  deriving DecidableEq, Repr

/-- The owner fence with the binding that `BeginTurn` made. -/
structure TurnFence where
  owner : OwnerFence
  turnId : Id128
  baseStateVersion : Nat
  handlerVersion : String
  handlerDigest : Hash256
  deriving DecidableEq, Repr

/-- A handler that a worker can run. -/
structure HandlerPin where
  handler : String
  version : String
  digest : Hash256
  deriving DecidableEq, Repr

structure Create where
  tenant : Nat
  kind : String
  key : String
  deriving DecidableEq, Repr

structure Enqueue where
  fence : IncarnationFence
  requestId : String
  handler : String
  requestHash : Hash256
  payload : Option ObjectRef
  deriving DecidableEq, Repr

structure Takeover where
  incarnation : Nat
  ownerId : String
  observedEpoch : Nat
  leaseHintUnixNs : Int64
  deriving DecidableEq, Repr

structure BeginTurn where
  fence : OwnerFence
  handlers : List HandlerPin
  deriving DecidableEq, Repr

structure EventSpec where
  eventType : String
  payload : Option ObjectRef
  deriving DecidableEq, Repr

structure TimerSpec where
  timerKey : String
  dueUnixNs : Int64
  handler : String
  payload : Option ObjectRef
  deriving DecidableEq, Repr

inductive TimerChange where
  | schedule (spec : TimerSpec)
  | cancel (timerKey : String)
  deriving DecidableEq, Repr

structure IntentSpec where
  intentKey : String
  toolName : String
  toolVersion : String
  inputHash : Hash256
  policy : RecoveryPolicy
  input : Option ObjectRef
  deriving DecidableEq, Repr

structure CompleteTurn where
  fence : TurnFence
  observedRootRevision : Nat
  newState : ObjectRef
  output : Option ObjectRef
  events : List EventSpec
  timerChanges : List TimerChange
  intents : List IntentSpec
  deriving DecidableEq, Repr

structure FailTurn where
  fence : TurnFence
  error : String
  terminal : Bool
  maxAttempts : UInt32
  deriving DecidableEq, Repr

structure Cancel where
  fence : IncarnationFence
  acceptSeq : Nat
  deriving DecidableEq, Repr

structure ScheduleTimer where
  fence : IncarnationFence
  timer : TimerSpec
  deriving DecidableEq, Repr

structure FireTimer where
  fence : IncarnationFence
  timerId : Id128
  generation : Nat
  deriving DecidableEq, Repr

structure CancelTimer where
  fence : IncarnationFence
  timerKey : String
  deriving DecidableEq, Repr

structure Tombstone where
  fence : IncarnationFence
  deriving DecidableEq, Repr

structure RecordStep where
  fence : TurnFence
  stepKey : String
  toolName : String
  toolVersion : String
  inputHash : Hash256
  status : StepStatus
  output : Option ObjectRef
  deriving DecidableEq, Repr

structure CommitIntent where
  fence : TurnFence
  intent : IntentSpec
  deriving DecidableEq, Repr

/-- Who authorizes an attempt of an effect. -/
inductive Authority where
  | owner (fence : OwnerFence)
  | reconcile (fence : IncarnationFence)
  deriving DecidableEq, Repr

structure AuthorizeAttempt where
  authority : Authority
  effectId : Id128
  attempt : Nat
  deriving DecidableEq, Repr

structure RecordEffectResult where
  fence : IncarnationFence
  effectId : Id128
  attempt : Nat
  result : ObjectRef
  deriving DecidableEq, Repr

inductive Command where
  | create (command : Create)
  | enqueue (command : Enqueue)
  | takeover (command : Takeover)
  | beginTurn (command : BeginTurn)
  | completeTurn (command : CompleteTurn)
  | failTurn (command : FailTurn)
  | cancel (command : Cancel)
  | scheduleTimer (command : ScheduleTimer)
  | fireTimer (command : FireTimer)
  | cancelTimer (command : CancelTimer)
  | tombstone (command : Tombstone)
  | recordStep (command : RecordStep)
  | commitIntent (command : CommitIntent)
  | authorizeAttempt (command : AuthorizeAttempt)
  | recordEffectResult (command : RecordEffectResult)
  deriving DecidableEq, Repr

/-- The work that the coordinator does for a published root. -/
inductive Effect where
  | writeDirEntry
  | wakeWorker
  | writeWakeHint (dueUnixNs : Int64)
  | dispatchIntents (effectIds : List Id128)
  | operationTerminal (acceptSeq : Nat)
  deriving DecidableEq, Repr

inductive Reply where
  | created (incarnation : Nat)
  | exists (incarnation : Nat)
  | accepted (acceptSeq : Nat) (duplicate : Bool)
  | owned (epoch : Nat)
  | turnStarted (turn : ActiveTurn)
  | turnResumed (turn : ActiveTurn)
  | idle
  | turnCommitted (acceptSeq stateVersion : Nat) (rebased : Bool)
  | alreadyCommitted (acceptSeq : Nat)
  | turnRetry (acceptSeq failedAttempts : Nat)
  | turnFailed (acceptSeq : Nat) (deadLettered : Bool)
  | cancelRequested (acceptSeq : Nat)
  | cancelled (acceptSeq : Nat)
  | alreadyTerminal (acceptSeq : Nat) (status : ResultStatus)
  | timerScheduled (timerId : Id128) (generation : Nat)
  | timerFired (acceptSeq : Nat)
  | timerNotDue
  | timerStale
  | timerCancelled
  | alreadyFired
  | unknownTimer
  | tombstoned
  | alreadyTombstoned
  | stepRecorded (step : StepRecord)
  | stepReplayed (step : StepRecord)
  | intentCommitted (effectId : Id128)
  | attemptAuthorized (effectId : Id128) (attempt : Nat)
  | effectCompleted (effectId : Id128) (result : Option ObjectRef) (attempt : Nat)
  | effectResultRecorded (effectId : Id128)
  | lateResultIgnored (effectId : Id128)
  | blocked (error : AgentError)
  deriving DecidableEq, Repr

/-- The outcome of a command that is not refused: a new root to publish, or an answer without one. -/
inductive Transition where
  | publish (head : Head) (effects : List Effect) (reply : Reply)
  | unchanged (reply : Reply)
  deriving DecidableEq, Repr

end Ravel.Agents
