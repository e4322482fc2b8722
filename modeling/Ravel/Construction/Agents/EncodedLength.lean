/-
This file models the length of HEAD's protobuf encoding. A field at its default is not written.
-/

import Ravel.Construction.Agents.Pages

namespace Ravel.Agents

namespace Encoded

/-- The bytes of a varint. -/
def varintLen (value : Nat) : Nat :=
  Nat.log2 value / 7 + 1

/-- The bytes of a field key. -/
def keyLen (tag : Nat) : Nat :=
  varintLen (tag * 8)

/-- An unsigned integer or enumeration field. -/
def uintField (tag value : Nat) : Nat :=
  if value = 0 then 0 else keyLen tag + varintLen value

/-- A signed integer field. A negative value takes ten bytes. -/
def intField (tag : Nat) (value : Int64) : Nat :=
  uintField tag value.toUInt64.toNat

/-- A string or bytes field of the given length. -/
def bytesField (tag length : Nat) : Nat :=
  if length = 0 then 0 else keyLen tag + varintLen length + length

/-- A message field of the given length. -/
def messageField (tag length : Nat) : Nat :=
  keyLen tag + varintLen length + length

def optionalField {Message : Type} (tag : Nat) (length : Message → Nat) (message : Option Message) : Nat :=
  (message.map fun value => messageField tag (length value)).getD 0

def repeatedField {Message : Type} (tag : Nat) (length : Message → Nat) (messages : List Message) : Nat :=
  (messages.map fun message => messageField tag (length message)).sum

def stringField (tag : Nat) (text : String) : Nat :=
  bytesField tag text.utf8ByteSize

def boolField (tag : Nat) (value : Bool) : Nat :=
  if value then keyLen tag + 1 else 0

/-- A field that holds a 16-byte identifier. -/
def idField (tag : Nat) : Nat :=
  bytesField tag 16

/-- A field that holds a 32-byte hash. -/
def hashField (tag : Nat) : Nat :=
  bytesField tag 32

def optionalIdField (tag : Nat) (identifier : Option Id128) : Nat :=
  if identifier.isSome then idField tag else 0

def objectRef (ref : ObjectRef) : Nat :=
  hashField 1 + uintField 2 ref.sizeBytes.toNat

def quota (counters : Quota) : Nat :=
  uintField 1 counters.referencedBytes + uintField 2 counters.mailboxDepth + uintField 3 counters.receiptCount +
    uintField 4 counters.timerCount

def Cancellation.code : Cancellation → Nat
  | .none => 1
  | .requested => 2

def TurnBlock.code : TurnBlock → Nat
  | .none => 1
  | .nonDeterministicReplay => 2

def ResultStatus.code : ResultStatus → Nat
  | .completed => 1
  | .failed => 2
  | .cancelled => 3

def TimerStatus.code : TimerStatus → Nat
  | .scheduled => 1
  | .delivered => 2
  | .cancelled => 3

def StepStatus.code : StepStatus → Nat
  | .started => 1
  | .completed => 2

def RecoveryPolicy.code : RecoveryPolicy → Nat
  | .providerIdempotency => 1
  | .atLeastOnce => 2
  | .manual => 3

def EffectStatus.code : EffectStatus → Nat
  | .intent => 1
  | .authorized => 2
  | .inDoubt => 3
  | .completed => 4

def Lifecycle.code : Lifecycle → Nat
  | .active => 1
  | .tombstoned => 2

def activeTurn (turn : ActiveTurn) : Nat :=
  uintField 1 turn.inputAcceptSeq + idField 2 + uintField 3 turn.baseStateVersion + stringField 4 turn.handler +
    stringField 5 turn.handlerVersion + hashField 6 + uintField 7 (Cancellation.code turn.cancellation) +
    uintField 8 (TurnBlock.code turn.block) + intField 9 turn.startedUnixNs

/-- The fields that the source of an input sets. -/
def inputSource : InputSource → Nat
  | .message requestId _ => uintField 3 1 + stringField 4 requestId + hashField 5
  | .timer _ generation => uintField 3 2 + idField 6 + uintField 7 generation

def inboxEntry (entry : InboxEntry) : Nat :=
  uintField 1 entry.acceptSeq + stringField 2 entry.handler + inputSource entry.source +
    optionalField 8 objectRef entry.payload + intField 9 entry.acceptedUnixNs + uintField 10 entry.failedAttempts +
    optionalIdField 11 entry.lastFailedTurnId

def receipt (receipt : Receipt) : Nat :=
  stringField 1 receipt.requestId + stringField 2 receipt.handler + hashField 3 + uintField 4 receipt.acceptSeq

def resultEntry (result : ResultEntry) : Nat :=
  uintField 1 result.acceptSeq + uintField 2 (ResultStatus.code result.status) + optionalField 3 objectRef result.output +
    stringField 4 result.error + optionalIdField 5 result.turnId + boolField 6 result.deadLettered +
    intField 7 result.finishedUnixNs

def eventEntry (event : EventEntry) : Nat :=
  uintField 1 event.eventSeq + uintField 2 event.acceptSeq + idField 3 + stringField 4 event.eventType +
    optionalField 5 objectRef event.payload

def timerEntry (timer : TimerEntry) : Nat :=
  idField 1 + stringField 2 timer.timerKey + uintField 3 timer.generation + intField 4 timer.dueUnixNs +
    stringField 5 timer.handler + optionalField 6 objectRef timer.payload + uintField 7 (TimerStatus.code timer.status)

def stepRecord (step : StepRecord) : Nat :=
  idField 1 + stringField 2 step.stepKey + stringField 3 step.toolName + stringField 4 step.toolVersion + hashField 5 +
    uintField 6 (StepStatus.code step.status) + optionalField 7 objectRef step.output

def effectRecord (effect : EffectRecord) : Nat :=
  idField 1 + stringField 2 effect.stepKey + stringField 3 effect.toolName + stringField 4 effect.toolVersion +
    hashField 5 + uintField 6 (RecoveryPolicy.code effect.policy) + uintField 7 (EffectStatus.code effect.status) +
    uintField 8 effect.attempt + optionalField 9 objectRef effect.result + uintField 10 effect.resultAttempt + idField 11

def outboxIntent (intent : OutboxIntent) : Nat :=
  idField 1 + stringField 2 intent.intentKey + stringField 3 intent.toolName + stringField 4 intent.toolVersion +
    uintField 5 (RecoveryPolicy.code intent.policy) + optionalField 6 objectRef intent.input + idField 7

/-- A fingerprint takes four bytes. -/
def pageRef (page : PageMeta) : Nat :=
  uintField 1 page.firstKey + messageField 2 (objectRef page.page) + uintField 3 page.entries + uintField 4 page.marked +
    uintField 6 page.referencedBytes + bytesField 7 (4 * page.fingerprints.length) + uintField 8 page.minAcceptSeq +
    uintField 9 page.maxAcceptSeq

def pageDirectory (dir : Directory) : Nat :=
  uintField 1 2 + repeatedField 2 pageRef dir.pages + uintField 3 dir.tailFrom

/-- A list with no sealed page encodes no directory. -/
def directoryField (tag : Nat) (dir : Directory) : Nat :=
  if dir.pages.isEmpty then 0 else messageField tag (pageDirectory dir)

/-- The entries of a list that are encoded inline in HEAD. -/
def inlineEntries {Entry : Type} (pages : PageEntry Entry) (dir : Directory) (entries : List Entry) : List Entry :=
  entries.filter fun entry => dir.isInline (pages.key entry)

/-- The fields of the record outside its lists and directories. -/
def scalars (head : Head) : Nat :=
  uintField 1 2 + bytesField 2 16 + stringField 3 head.kind + stringField 4 head.key + uintField 5 head.incarnation +
    uintField 6 head.rootRevision + stringField 7 head.ownerId + uintField 8 head.epoch +
    intField 9 head.ownerLeaseHintUnixNs + uintField 10 head.stateVersion + optionalField 11 objectRef head.state +
    uintField 12 2 + uintField 14 head.nextAcceptSeq + optionalField 16 activeTurn head.activeTurn +
    uintField 21 head.timerGeneration + uintField 24 head.nextEventSeq + uintField 25 (Lifecycle.code head.lifecycle) +
    messageField 26 (quota head.quota)

/-- The seal of the record, a fixed field. -/
def sealField : Nat :=
  keyLen 2047 + 4

end Encoded

/-- The length of HEAD's encoding. -/
def Head.encodedLen (digests : Digests) (head : Head) : Nat :=
  Encoded.scalars head +
    Encoded.repeatedField 27 Encoded.inboxEntry (Encoded.inlineEntries (inboxPages digests) head.index.inbox head.inbox) +
    Encoded.repeatedField 28 Encoded.receipt
      (Encoded.inlineEntries (receiptPages digests) head.index.receipts head.receipts) +
    Encoded.repeatedField 29 Encoded.resultEntry
      (Encoded.inlineEntries (resultPages digests) head.index.results head.results) +
    Encoded.repeatedField 30 Encoded.eventEntry (Encoded.inlineEntries (eventPages digests) head.index.events head.events) +
    Encoded.repeatedField 31 Encoded.timerEntry (Encoded.inlineEntries (timerPages digests) head.index.timers head.timers) +
    Encoded.repeatedField 32 Encoded.stepRecord head.steps + Encoded.repeatedField 33 Encoded.effectRecord head.effects +
    Encoded.repeatedField 34 Encoded.outboxIntent head.outbox + Encoded.directoryField 35 head.index.inbox +
    Encoded.directoryField 36 head.index.receipts + Encoded.directoryField 37 head.index.results +
    Encoded.directoryField 38 head.index.events + Encoded.directoryField 39 head.index.timers + Encoded.sealField

/-- Whether a list's pages carry lookup fingerprints. -/
def ListKind.fingerprinted : ListKind → Bool
  | .events => false
  | _ => true

/-- The widest `accept_seq` a page of the list records. -/
def widestAcceptSeq : ListKind → Nat
  | .events => 2 ^ 64 - 1
  | _ => 0

/-- The bytes that one page reference at its widest adds, its directory included. -/
def maxPageRefBytes (list : ListKind) (maxPageEntries : Nat) : Nat :=
  let widest : PageMeta :=
    { firstKey := 2 ^ 64 - 2
      page := ⟨0, 0xFFFFFFFFFFFFFFFF⟩
      entries := 2 ^ 32 - 1
      marked := 2 ^ 32 - 1
      minAcceptSeq := widestAcceptSeq list
      maxAcceptSeq := widestAcceptSeq list
      referencedBytes := 2 ^ 64 - 1
      fingerprints := if list.fingerprinted then List.replicate maxPageEntries (2 ^ 32 - 1) else [] }
  let length := Encoded.pageDirectory { pages := [widest], tailFrom := 2 ^ 64 - 1 }
  length + Encoded.varintLen length + 2

end Ravel.Agents
